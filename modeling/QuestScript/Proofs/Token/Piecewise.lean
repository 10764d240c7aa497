import QuestScript.Proofs.Position
import QuestScript.Proofs.Text.Trim
import QuestScript.Token.Extent

/-!
Reading a text piece by piece.

A text is read by passing over padding and by reading the piece at its start, so what is kept when a
piece is put in front of what was read behind it holds of every text. The lexeme of a piece is all
that the piece covers but some of the blanks at its end.
-/

namespace QuestScript

open Text

/-! ### Lexemes of pieces -/

namespace Payload

lemma isTrimmedOf_settle (stop : Stop) (text : List Char) :
    IsTrimmedOf (settle stop text) text := by
  have hgap (c : Char) (hc : (isGap c || c = '\r') = true) : isBlank c = true := by
    simp only [isGap, Bool.or_eq_true, decide_eq_true_eq] at hc
    rcases hc with (rfl | rfl) | rfl <;> decide
  cases stop with
  | lineEnd => exact isTrimmedOf_dropReturn text
  | ampersand => exact isTrimmedOf_dropEndWhile hgap text
  | elseWord => exact isTrimmedOf_dropEndWhile hgap text

lemma isTrimmedOf_trimEnd_settle (stop : Stop) (text : List Char) :
    IsTrimmedOf (trimEnd (settle stop text)) text :=
  (isTrimmedOf_trimEnd _).trans (isTrimmedOf_settle stop text)

end Payload

namespace Piece

variable {mode : Mode} {c : Char} {rest cs : List Char}

lemma isTrimmedOf_plain (token : Token) {width : Nat} :
    ∀ entry ∈ (plain token width cs).token, IsTrimmedOf entry.2 (cs.take width) := by
  intro entry hentry
  obtain rfl : (token, trimEnd (cs.take width)) = entry := by simpa [plain] using hentry
  exact isTrimmedOf_trimEnd _

lemma isTrimmedOf_payload {lead n : Nat} {payload : List Char}
    (h : IsTrimmedOf payload ((cs.drop lead).take n)) :
    IsTrimmedOf (cs.take lead ++ payload) (cs.take (lead + n)) := by
  rw [List.take_add]
  exact h.append_left _

lemma isTrimmedOf_ofCarrier (mode : Mode) (carrier : Carrier) (length : Nat) :
    ∀ entry ∈ (ofCarrier mode carrier length cs).token,
      IsTrimmedOf entry.2 (cs.take (ofCarrier mode carrier length cs).width) := by
  intro entry hentry
  obtain rfl := Option.some.inj hentry
  exact isTrimmedOf_payload (Payload.isTrimmedOf_settle _ _)

/-- The lexeme of a token is what its piece covers, without some of the blanks at its end. -/
theorem isTrimmedOf_read (mode : Mode) (c : Char) (rest : List Char) :
    ∀ entry ∈ (read mode c rest).token,
      IsTrimmedOf entry.2 ((c :: rest).take (read mode c rest).width) := by
  refine read_cases (motive := fun piece =>
    ∀ entry ∈ piece.token, IsTrimmedOf entry.2 ((c :: rest).take piece.width))
    ?lineBreak ?line ?comment ?label ?string ?number ?word ?operator
  case lineBreak => exact fun _ => isTrimmedOf_plain _
  case line => simp [skipped]
  case comment =>
    intro _ _
    unfold ofComment
    simp only
    split
    · exact isTrimmedOf_plain (.mark .lineBreak)
    · simp [skipped]
  case label =>
    intro _ entry hentry
    obtain rfl := Option.some.inj hentry
    exact isTrimmedOf_payload (Payload.isTrimmedOf_trimEnd_settle _ _)
  case string =>
    intro _
    unfold ofString
    split
    · exact isTrimmedOf_plain _
    · simp [wrong]
  case number => exact fun _ => isTrimmedOf_plain _
  case word =>
    intro _
    refine ofWord_cases (motive := fun piece =>
      ∀ entry ∈ piece.token, IsTrimmedOf entry.2 ((c :: rest).take piece.width)) rfl
      ?name ?mark ?carrier ?signed ?line
    case name => exact isTrimmedOf_plain _
    case mark => exact fun _ _ => isTrimmedOf_plain _
    case carrier => exact fun carrier => isTrimmedOf_ofCarrier mode carrier _
    case signed => exact fun carrier _ _ _ => isTrimmedOf_ofCarrier mode carrier _
    case line => simp [skipped]
  case operator =>
    intro _
    unfold ofOperator
    split
    · exact isTrimmedOf_plain _
    · simp [wrong]

end Piece

/-! ### Reading piece by piece -/

namespace Scan

/-- Characters that are passed over between pieces. -/
def IsPadding (c : Char) : Prop := c = ' ' ∨ c = '\t' ∨ c = '\r'

/-- The mode behind a piece. -/
def modeBehind (mode : Mode) (piece : Piece) : Mode :=
  piece.token.elim mode fun t => mode.after t.1

variable {mode : Mode} {place : Position} {c : Char} {rest cs : List Char}

lemma IsPadding.ne_lineFeed (h : IsPadding c) : c ≠ '\n' := by
  rintro rfl
  simp [IsPadding] at h

lemma IsPadding.isBlank (h : IsPadding c) : isBlank c = true := by
  rcases h with rfl | rfl | rfl <;> decide

lemma read_nil (mode : Mode) (place : Position) :
    read mode place [] = ⟨[⟨.mark .sourceEnd, "", place⟩], []⟩ := by
  rw [read]

lemma read_padding (mode : Mode) (place : Position) (h : IsPadding c) :
    read mode place (c :: rest) = read mode (place.next c) rest := by
  rw [read, Position.next, if_neg h.ne_lineFeed, if_pos]
  simpa [IsPadding, or_assoc] using h

/-- The lexeme that a piece gives, if it is kept. -/
def kept (mode : Mode) (place : Position) (piece : Piece) : List Lexeme :=
  match piece.token with
  | some (token, text) => if keeps mode token then [⟨token, String.ofList text, place⟩] else []
  | none => []

/-- The report on a piece, if something is wrong with it. -/
def made (place : Position) (piece : Piece) : List Report :=
  piece.fault.toList.map fun fault => ⟨fault, place⟩

lemma add_eq (mode : Mode) (place : Position) (piece : Piece) (later : Scan) :
    add mode place piece later =
      ⟨kept mode place piece ++ later.lexemes, made place piece ++ later.reports⟩ := by
  rcases piece with ⟨width, _ | ⟨token, text⟩, _ | fault⟩ <;> simp only [add, kept, made] <;>
    (try split) <;> rfl

lemma exists_of_mem_kept {piece : Piece} {l : Lexeme} (h : l ∈ kept mode place piece) :
    ∃ text, piece.token = some (l.token, text) ∧ l = ⟨l.token, String.ofList text, place⟩ := by
  unfold kept at h
  split at h
  · next token text htoken =>
    split at h
    · obtain rfl := List.mem_singleton.mp h
      exact ⟨text, htoken, rfl⟩
    · simp at h
  · simp at h

lemma exists_of_mem_made {piece : Piece} {r : Report} (h : r ∈ made place piece) :
    ∃ fault, piece.fault = some fault ∧ r = ⟨fault, place⟩ := by
  obtain ⟨fault, hfault, rfl⟩ := List.mem_map.mp h
  exact ⟨fault, by simpa using hfault, rfl⟩

lemma read_piece (mode : Mode) (place : Position) (h : ¬IsPadding c) :
    read mode place (c :: rest) =
      ⟨kept mode place (Piece.read mode c rest) ++
          (read (modeBehind mode (Piece.read mode c rest))
            (place.advance ((c :: rest).take (Piece.read mode c rest).width))
            ((c :: rest).drop (Piece.read mode c rest).width)).lexemes,
        made place (Piece.read mode c rest) ++
          (read (modeBehind mode (Piece.read mode c rest))
            (place.advance ((c :: rest).take (Piece.read mode c rest).width))
            ((c :: rest).drop (Piece.read mode c rest).width)).reports⟩ := by
  obtain ⟨hpos, -⟩ := Piece.fits_read mode c rest
  obtain ⟨more, hmore⟩ := Nat.exists_eq_succ_of_ne_zero (Nat.ne_of_gt hpos)
  rw [← add_eq, read, if_neg]
  · simp only [hmore, Nat.succ_eq_add_one, Nat.add_sub_cancel, List.take_succ_cons,
      List.drop_succ_cons]
    rfl
  · simpa [IsPadding, or_assoc] using h

lemma read_whole (mode : Mode) (place : Position) {token : Token} {text : List Char}
    (hc : ¬IsPadding c)
    (hpiece : Piece.read mode c rest = ⟨(c :: rest).length, some (token, text), none⟩)
    (htoken : token ≠ .mark .lineBreak) : read mode place (c :: rest) =
      ⟨[⟨token, String.ofList text, place⟩,
        ⟨.mark .sourceEnd, "", place.advance (c :: rest)⟩], []⟩ := by
  rw [read_piece mode place hc, hpiece]
  simp only [List.drop_length, List.take_length, read_nil]
  simp [kept, made, keeps, htoken]

/-- Whether a line begins behind the lexemes that were read from the mode on. -/
def lineStartBehind (mode : Mode) (ts : List Lexeme) : Bool :=
  ts.getLast?.elim mode.lineStart fun l => l.token = .mark .lineBreak

lemma lineStart_after (mode : Mode) (token : Token) :
    (mode.after token).lineStart = decide (token = .mark .lineBreak) := by
  unfold Mode.after
  split <;> simp_all [Mode.fresh]

lemma lineStartBehind_append {mode later : Mode} (us ts : List Lexeme)
    (h : later.lineStart = lineStartBehind mode us) :
    lineStartBehind mode (us ++ ts) = lineStartBehind later ts := by
  rcases List.eq_nil_or_concat ts with rfl | ⟨front, l, rfl⟩
  · simp [lineStartBehind, h]
  · rw [List.concat_eq_append, ← List.append_assoc]
    simp [lineStartBehind]

lemma lineStartBehind_kept (mode : Mode) (place : Position) (piece : Piece) (ts : List Lexeme) :
    lineStartBehind mode (kept mode place piece ++ ts) =
      lineStartBehind (modeBehind mode piece) ts := by
  refine lineStartBehind_append _ ts ?_
  rcases htoken : piece.token with _ | ⟨token, text⟩
  · simp [lineStartBehind, kept, modeBehind, htoken]
  · by_cases hkeeps : keeps mode token = true
    · simp [lineStartBehind, kept, modeBehind, htoken, hkeeps, lineStart_after]
    · have hdropped : mode.lineStart = true ∧ token = .mark .lineBreak := by
        simpa [keeps] using hkeeps
      simp [lineStartBehind, kept, modeBehind, htoken, keeps, lineStart_after, hdropped.1,
        hdropped.2]

/-- A text is read by passing over padding and by reading the piece at its start. -/
theorem read_induction {motive : Mode → Position → List Char → Prop}
    (nil : ∀ mode place, motive mode place [])
    (padding : ∀ mode place c rest, IsPadding c → motive mode (place.next c) rest →
      motive mode place (c :: rest))
    (piece : ∀ mode place c rest, ¬IsPadding c →
      motive (modeBehind mode (Piece.read mode c rest))
        (place.advance ((c :: rest).take (Piece.read mode c rest).width))
        ((c :: rest).drop (Piece.read mode c rest).width) →
      motive mode place (c :: rest)) (mode : Mode) (place : Position) (cs : List Char) :
    motive mode place cs := by
  induction hn : cs.length using Nat.strongRecOn generalizing mode place cs with
  | ind n ih =>
  rcases cs with _ | ⟨c, rest⟩
  · exact nil mode place
  by_cases hc : IsPadding c
  · exact padding mode place c rest hc (ih rest.length (by simp [← hn]) _ _ _ rfl)
  · obtain ⟨hpos, -⟩ := Piece.fits_read mode c rest
    refine piece mode place c rest hc (ih _ ?_ _ _ _ rfl)
    simp only [List.length_drop, List.length_cons] at hn ⊢
    omega

end Scan

end QuestScript

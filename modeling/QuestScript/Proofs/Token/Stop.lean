import QuestScript.Proofs.Token.Passing

/-!
What stands behind a payload.

A payload is the text that its keyword extends over, without some blanks at its end
(`Piece.carries_read`), and what it ends at stands behind that text (`Payload.standsAt_extent`). So
the next token is told by what the payload ended at: it is a separator, a line break, an `else` or
the end of the source (`Scan.exists_lexeme_of_standsAt`). Two ampersands in a row are one token,
though, and not a separator.
-/

namespace QuestScript

open Text

/-! ### The word `else` -/

lemma Keyword.ofWord?_else {word : List Char} (h : word.map Char.toLower = ['e', 'l', 's', 'e']) :
    ofWord? word = some (.mark .elseWord) := by
  rw [ofWord?_congr (b := ['e', 'l', 's', 'e']) h]
  decide +kernel

namespace Payload

lemma isWordChar_of_toLower {c : Char} (h : c.toLower ∈ ['e', 'l', 's', 'e']) :
    isWordChar c = true := by
  by_contra hword
  have hletters : ['e', 'l', 's', 'e'].all isWordChar = true := by decide +kernel
  rw [toLower_of_not_isWordChar (by simpa using hword)] at h
  exact hword (List.all_eq_true.mp hletters c h)

lemma exists_of_startsElse {cs : List Char} (h : startsElse cs = true) :
    ∃ word back, cs = word ++ back ∧ IsWord word ∧
      word.map Char.toLower = ['e', 'l', 's', 'e'] ∧ ∀ c ∈ back.head?, isWordChar c = false := by
  simp only [startsElse, Bool.and_eq_true, decide_eq_true_eq, Bool.not_eq_true'] at h
  obtain ⟨hword, hback⟩ := h
  refine ⟨cs.take 4, cs.drop 4, (List.take_append_drop 4 cs).symm, ⟨?_, fun c hc => ?_⟩, hword,
    fun c hc => ?_⟩
  · rcases htake : cs.take 4 with _ | ⟨c, word⟩
    · simp [htake] at hword
    · have hc : c.toLower = 'e' := by
        rw [htake] at hword
        exact (List.cons.inj hword).1
      have halpha : c.isAlpha = true := by
        rcases toLower_eq hc with rfl | ⟨hupper, -⟩
        · decide
        · exact isAlpha_of_isUpper hupper
      exact isAlphabetic_of_isAlpha c halpha
  · exact isWordChar_of_toLower (hword ▸ List.mem_map_of_mem hc)
  · simpa [Option.mem_def.mp hc] using hback

/-! ### What a payload ends at -/

/-- What a payload ends at stands at the start of the text. -/
def Stop.StandsAt (cs : List Char) : Stop → Prop
  | lineEnd => ∀ c ∈ cs.head?, c = '\n'
  | ampersand => cs.head? = some '&'
  | elseWord => startsElse cs = true

/-- What a payload ends at stands where the payload ends. -/
theorem standsAt_extent (elseEnds fresh : Bool) (cs : List Char) :
    (extent elseEnds fresh cs).2.StandsAt (cs.drop (extent elseEnds fresh cs).1) := by
  fun_induction extent elseEnds fresh cs with
  | case1 => simp [Stop.StandsAt]
  | case2 => simp [Stop.StandsAt]
  | case3 => simp [Stop.StandsAt]
  | case4 fresh c rest _ _ helse =>
    simp only [Bool.and_eq_true] at helse
    exact helse.2
  | case5 fresh c rest _ _ _ more tail ih =>
    rwa [List.drop_succ_cons, Nat.add_comm, ← List.drop_drop]

/-- How far a payload extends that starts at the start of the text, and what it ends at. -/
def extentOf (carrier : Carrier) (elseEnds : Bool) (cs : List Char) : Nat × Stop :=
  if carrier = .button then buttonExtent elseEnds cs else extent elseEnds true cs

lemma standsAt_extentOf (carrier : Carrier) (elseEnds : Bool) (cs : List Char) :
    (extentOf carrier elseEnds cs).2.StandsAt (cs.drop (extentOf carrier elseEnds cs).1) := by
  unfold extentOf buttonExtent
  split
  · split
    · next n _ =>
      have hstop := standsAt_extent elseEnds true (cs.drop (n + 1))
      rw [List.drop_drop, Nat.add_comm (n + 1)] at hstop
      exact hstop
    · exact standsAt_extent elseEnds true cs
  · exact standsAt_extent elseEnds true cs

end Payload

/-! ### Payload tokens and their extent -/

namespace Piece

variable {mode : Mode} {c : Char} {rest cs : List Char}

/-- The piece is a keyword that takes so many characters, and as its payload the text that it
extends over behind them, without some blanks at the end. -/
structure Carries (piece : Piece) (mode : Mode) (cs : List Char) (carrier : Carrier)
    (text : List Char) (lead : Nat) : Prop where
  width : piece.width = lead + (Payload.extentOf carrier mode.elseEnds (cs.drop lead)).1
  trimmed : IsTrimmedOf text
    ((cs.drop lead).take (Payload.extentOf carrier mode.elseEnds (cs.drop lead)).1)

lemma payload_cases {carrier : Carrier} {text : String} {lexeme : List Char} {motive : Piece → Prop}
    (h : (read mode c rest).token = some (.payload carrier text, lexeme))
    (label : motive (ofLabel mode (c :: rest)))
    (keyword : ∀ carrier length, motive (ofCarrier mode carrier length (c :: rest))) :
    motive (read mode c rest) := by
  revert h
  refine read_cases (motive := fun piece =>
    piece.token = some (.payload carrier text, lexeme) → motive piece)
    ?lineBreak ?line ?comment ?label ?string ?number ?word ?operator
  case lineBreak => simp [ofLineBreak, plain]
  case line => simp [skipped]
  case comment =>
    intro _ _
    unfold ofComment
    simp only
    split <;> simp [plain, skipped]
  case label => exact fun _ _ => label
  case string =>
    intro _
    unfold ofString
    split <;> simp [plain, wrong]
  case number => simp [ofNumber, plain]
  case word =>
    intro _
    refine ofWord_cases (motive := fun piece =>
      piece.token = some (.payload carrier text, lexeme) → motive piece) rfl
      ?name ?mark ?carrier ?signed ?line
    case carrier => exact fun carrier _ => keyword carrier _
    case signed => exact fun carrier _ _ _ _ => keyword carrier _
    all_goals simp [plain, skipped]
  case operator =>
    intro _
    unfold ofOperator
    split <;> simp [plain, wrong]

/-- A payload token carries the extent of its payload. -/
theorem carries_read {carrier : Carrier} {text : String} {lexeme : List Char}
    (h : (read mode c rest).token = some (.payload carrier text, lexeme)) :
    ∃ lead, (read mode c rest).Carries mode (c :: rest) carrier text.toList lead := by
  refine payload_cases (motive := fun piece =>
    piece.token = some (.payload carrier text, lexeme) →
      ∃ lead, piece.Carries mode (c :: rest) carrier text.toList lead) h ?label ?keyword h
  case label =>
    intro h
    simp only [ofLabel, Option.some.injEq, Prod.mk.injEq, Token.payload.injEq] at h
    obtain ⟨⟨rfl, rfl⟩, -⟩ := h
    rw [String.toList_ofList]
    exact ⟨_, rfl, Payload.isTrimmedOf_trimEnd_settle _ _⟩
  case keyword =>
    intro other length h
    simp only [ofCarrier, payload, Option.some.injEq, Prod.mk.injEq, Token.payload.injEq] at h
    obtain ⟨⟨rfl, rfl⟩, -⟩ := h
    rw [String.toList_ofList]
    exact ⟨_, rfl, Payload.isTrimmedOf_settle _ _⟩

lemma Carries.standsAt {piece : Piece} {carrier : Carrier} {text : List Char} {lead : Nat}
    (h : piece.Carries mode cs carrier text lead) :
    (Payload.extentOf carrier mode.elseEnds (cs.drop lead)).2.StandsAt (cs.drop piece.width) := by
  have hstop := Payload.standsAt_extentOf carrier mode.elseEnds (cs.drop lead)
  rwa [List.drop_drop, ← h.width] at hstop

end Piece

/-! ### The token behind a payload -/

namespace Lexeme

/-- How many `if`s of the line wait for their `else` behind the lexemes, when so many waited in
front of them. An `else` without an `if` changes nothing. -/
def openIfs (n : Nat) (ts : List Lexeme) : Nat :=
  ts.foldl (fun n l => match l.token with
    | .mark .lineBreak => 0
    | .mark .ifWord => n + 1
    | .mark .elseWord => n - 1
    | _ => n) n

/-- The lexeme ends a statement or a branch. -/
def IsBoundary (l : Lexeme) : Prop :=
  l.token = .mark .ampersand ∨ l.token = .mark .lineBreak ∨ l.token = .mark .elseWord ∨
    l.token = .mark .sourceEnd

instance (l : Lexeme) : Decidable l.IsBoundary :=
  inferInstanceAs (Decidable (_ ∨ _ ∨ _ ∨ _))

end Lexeme

namespace Mode

lemma openIfs_after (mode : Mode) (l : Lexeme) :
    (mode.after l.token).openIfs = Lexeme.openIfs mode.openIfs [l] := by
  rcases l with ⟨token, text, place⟩
  cases token with
  | mark m => cases m <;> rfl
  | _ => rfl

/-- No `if` waits where a line starts. -/
def IsCounted (mode : Mode) : Prop := mode.lineStart = true → mode.openIfs = 0

lemma isCounted_fresh : fresh.IsCounted := fun _ => rfl

lemma isCounted_after (mode : Mode) (token : Token) : (mode.after token).IsCounted := by
  unfold IsCounted
  rw [Scan.lineStart_after]
  intro hline
  rw [decide_eq_true_eq.mp hline]
  rfl

end Mode

namespace Scan

variable {mode : Mode} {place : Position} {c : Char} {rest cs : List Char} {l : Lexeme}
  {front back : List Lexeme}

lemma isCounted_modeBehind {piece : Piece} (hmode : mode.IsCounted) :
    (modeBehind mode piece).IsCounted := by
  unfold modeBehind
  cases piece.token with
  | none => exact hmode
  | some entry => exact mode.isCounted_after entry.1

lemma openIfs_kept (hmode : mode.IsCounted) (place : Position) (piece : Piece) :
    (modeBehind mode piece).openIfs = Lexeme.openIfs mode.openIfs (kept mode place piece) := by
  rcases htoken : piece.token with _ | ⟨token, text⟩
  · simp [kept, modeBehind, htoken, Lexeme.openIfs]
  · by_cases hkeeps : keeps mode token = true
    · simp only [kept, modeBehind, htoken, hkeeps, if_true, Option.elim]
      exact mode.openIfs_after ⟨token, String.ofList text, place⟩
    · obtain ⟨hline, rfl⟩ : mode.lineStart = true ∧ token = .mark .lineBreak := by
        simpa [keeps] using hkeeps
      simp [kept, modeBehind, htoken, hkeeps, Lexeme.openIfs, Mode.after, Mode.fresh, hmode hline]

lemma kept_cases (mode : Mode) (place : Position) (piece : Piece) :
    kept mode place piece = [] ∨ ∃ token text, piece.token = some (token, text) ∧
      kept mode place piece = [⟨token, String.ofList text, place⟩] := by
  unfold kept
  split
  · next token text htoken =>
    split
    · exact .inr ⟨token, text, htoken, rfl⟩
    · exact .inl rfl
  · exact .inl rfl

/-- A token in front of the end of a text is that of a piece, which is read in a mode that counts
the `if`s of the tokens in front of it. The tokens behind it are read behind that piece. -/
theorem exists_piece_of_append (hmode : mode.IsCounted)
    (h : (read mode place cs).lexemes = front ++ l :: back) (hl : l.token ≠ .mark .sourceEnd) :
    ∃ (inner : Mode) (c : Char) (rest text : List Char), (c :: rest) <:+ cs ∧
      (Piece.read inner c rest).token = some (l.token, text) ∧
      inner.openIfs = Lexeme.openIfs mode.openIfs front ∧
      back = (read (inner.after l.token)
        (l.start.advance ((c :: rest).take (Piece.read inner c rest).width))
        ((c :: rest).drop (Piece.read inner c rest).width)).lexemes := by
  revert hmode front h
  refine read_induction (motive := fun mode place cs => ∀ {front}, mode.IsCounted →
    (read mode place cs).lexemes = front ++ l :: back →
    ∃ (inner : Mode) (c : Char) (rest text : List Char), (c :: rest) <:+ cs ∧
      (Piece.read inner c rest).token = some (l.token, text) ∧
      inner.openIfs = Lexeme.openIfs mode.openIfs front ∧
      back = (read (inner.after l.token)
        (l.start.advance ((c :: rest).take (Piece.read inner c rest).width))
        ((c :: rest).drop (Piece.read inner c rest).width)).lexemes) ?_ ?_ ?_ mode place cs
  · intro mode place front _ h
    rw [read_nil] at h
    have hmem : l ∈ [(⟨.mark .sourceEnd, "", place⟩ : Lexeme)] := by simp only at h; simp [h]
    exact absurd (by rw [List.mem_singleton.mp hmem]) hl
  · intro mode place c rest hc ih front hmode h
    rw [read_padding mode place hc] at h
    obtain ⟨inner, d, more, text, hsuffix, hpiece⟩ := ih hmode h
    exact ⟨inner, d, more, text, hsuffix.trans (List.suffix_cons c rest), hpiece⟩
  · intro mode place c rest hc ih front hmode h
    rw [read_piece mode place hc] at h
    have hopen := openIfs_kept hmode place (Piece.read mode c rest)
    rcases kept_cases mode place (Piece.read mode c rest) with
      hkept | ⟨token, text, htoken, hkept⟩
    · rw [hkept] at h hopen
      obtain ⟨inner, d, more, text, hsuffix, hpiece, hinner, hback⟩ :=
        ih (isCounted_modeBehind hmode) h
      exact ⟨inner, d, more, text, hsuffix.trans (List.drop_suffix _ _), hpiece,
        hinner.trans (by rw [hopen]; rfl), hback⟩
    · rw [hkept] at h hopen
      rcases front with _ | ⟨first, front⟩
      · obtain ⟨rfl, rfl⟩ := List.cons.inj h
        refine ⟨mode, c, rest, text, List.suffix_refl _, htoken, rfl, ?_⟩
        rw [modeBehind, htoken]
        rfl
      · obtain ⟨rfl, hlater⟩ := List.cons.inj h
        obtain ⟨inner, d, more, text, hsuffix, hpiece, hinner, hback⟩ :=
          ih (isCounted_modeBehind hmode) hlater
        exact ⟨inner, d, more, text, hsuffix.trans (List.drop_suffix _ _), hpiece,
          hinner.trans (by rw [hopen]; rfl), hback⟩

/-- **What a payload ended at is the next token.** It is a boundary, unless two ampersands stand
there, which are one token. -/
theorem exists_lexeme_of_standsAt {stop : Payload.Stop} (place : Position)
    (hmode : mode.lineStart = false) (h : stop.StandsAt cs) :
    ∃ l later, (read mode place cs).lexemes = l :: later ∧
      (l.IsBoundary ∨ l.token = .mark .and ∧ l.text = "&&") := by
  have hpiece {c : Char} {rest text : List Char} {token : Token} (hc : ¬IsPadding c)
      (htoken : (Piece.read mode c rest).token = some (token, text)) :
      ∃ later, (read mode place (c :: rest)).lexemes =
        ⟨token, String.ofList text, place⟩ :: later := by
    rw [read_piece mode place hc]
    simp only [kept, htoken, keeps, hmode, Bool.false_and, Bool.not_false, if_true]
    exact ⟨_, rfl⟩
  cases stop with
  | lineEnd =>
    rcases cs with _ | ⟨c, rest⟩
    · rw [read_nil]
      exact ⟨_, [], rfl, .inl (.inr (.inr (.inr rfl)))⟩
    · obtain rfl : c = '\n' := h c rfl
      obtain ⟨later, hread⟩ := hpiece (c := '\n') (by simp [IsPadding]) rfl
      exact ⟨_, later, hread, .inl (.inr (.inl rfl))⟩
  | ampersand =>
    obtain ⟨rest, rfl⟩ := List.head?_eq_some_iff.mp h
    have hletter : isAlphabetic '&' = false := by decide +kernel
    have hread : Piece.read mode '&' rest = Piece.ofOperator '&' rest := by
      simp [Piece.read, hletter]
    -- two of them are one operator
    by_cases hnext : rest.head? = some '&'
    · obtain ⟨rest, rfl⟩ := List.head?_eq_some_iff.mp hnext
      obtain ⟨later, hlater⟩ := hpiece (c := '&') (by simp [IsPadding])
        (congrArg Piece.token (hread.trans rfl))
      exact ⟨_, later, hlater, .inr ⟨rfl, rfl⟩⟩
    · have hone : Piece.ofOperator '&' rest = Piece.plain (.mark .ampersand) 1 ('&' :: rest) := by
        simp [Piece.ofOperator, Piece.operator?, hnext]
      obtain ⟨later, hlater⟩ := hpiece (c := '&') (by simp [IsPadding])
        (congrArg Piece.token (hread.trans hone))
      exact ⟨_, later, hlater, .inl (.inl rfl)⟩
  | elseWord =>
    obtain ⟨word, back, rfl, hword, hlower, hback⟩ := Payload.exists_of_startsElse h
    have htake := takeWhile_word hword.2 hback
    rcases word with _ | ⟨c, word⟩
    · simp at hlower
    have hc := (isWord_cons.mp hword).1
    have hread : Piece.read mode c (word ++ back) =
        Piece.plain (.mark .elseWord) (c :: word).length (c :: word ++ back) := by
      rw [Piece.read_of_isAlphabetic mode _ hc, ← List.cons_append, Piece.ofWord]
      simp only [htake, Keyword.ofWord?_else hlower]
    obtain ⟨later, hlater⟩ := hpiece (not_isPadding hc) (congrArg Piece.token hread)
    exact ⟨_, later, hlater, .inl (.inr (.inr (.inl rfl)))⟩

end Scan

end QuestScript

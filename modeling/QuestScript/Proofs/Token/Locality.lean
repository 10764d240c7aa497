import QuestScript.Proofs.Token.Trailing

/-!
What a line feed keeps apart.

No piece but strings and comments looks behind a line feed (`Piece.read_lineFeed`), so all others
stay on their line (`Piece.notMem_take`), and behind a line feed that is no part of a string or
comment reading starts anew (`Scan.read_append`).
-/

namespace QuestScript

open Text
open List (drop_append_of_le_length take_append_of_le_length)

variable {cs rest : List Char} {c : Char}

/-! ### Pieces -/

namespace Piece

variable {mode : Mode}

lemma notMem_take (mode : Mode) (hc : c ≠ '\n') (hquote : c ≠ '"')
    (hcomment : ¬(c = '/' ∧ rest.head? = some '*')) :
    '\n' ∉ (c :: rest).take (read mode c rest).width := by
  intro hmem
  obtain ⟨tail, htail⟩ := eq_takeWhile_append hmem
  -- The piece would be read as if the text ended in front of its first line feed.
  obtain ⟨front, hfront⟩ : ∃ front, ((c :: rest).take (read mode c rest).width).takeWhile
      (· != '\n') = c :: front := by
    obtain ⟨k, hk⟩ := Nat.exists_eq_succ_of_ne_zero (Nat.ne_of_gt (fits_read mode c rest).1)
    exact ⟨(rest.take k).takeWhile (· != '\n'), by simp [hk, hc]⟩
  rw [hfront] at htail
  have hsplit : c :: rest =
      c :: (front ++ '\n' :: (tail ++ (c :: rest).drop (read mode c rest).width)) := by
    conv_lhs => rw [← List.take_append_drop (read mode c rest).width (c :: rest), htail]
    simp
  generalize tail ++ (c :: rest).drop (read mode c rest).width = behind at hsplit
  have hrest : rest = front ++ '\n' :: behind := (List.cons.inj hsplit).2
  have hterminated : (read mode c front).IsTerminated := by
    refine ⟨fun h => hquote ?_, fun h => hcomment ?_⟩
    · simpa using fault_of_read mode c front _ h
    obtain ⟨hslash, hstar⟩ : c = '/' ∧ front.head? = some '*' := by
      simpa using fault_of_read mode c front _ h
    obtain ⟨more, rfl⟩ := List.head?_eq_some_iff.mp hstar
    exact ⟨hslash, by rw [hrest]; rfl⟩
  have hsame := read_lineFeed behind mode hc hterminated
  rw [← hrest] at hsame
  have hle := (fits_read mode c front).2
  have hlen := congrArg List.length htail
  rw [hsame] at hlen
  simp only [List.length_take, List.length_append, List.length_cons] at hle hlen
  omega

lemma take_ofString (h : '"' ∈ rest) :
    (c :: rest).take (ofString (c :: rest)).width = c :: rest.takeWhile (· != '"') ++ ['"'] := by
  have hwidth : (ofString (c :: rest)).width = (rest.takeWhile (· != '"')).length + 2 := by
    simp [ofString, h, plain]
  obtain ⟨tail, htail⟩ := eq_takeWhile_append h
  rw [hwidth]
  generalize rest.takeWhile (· != '"') = value at htail ⊢
  rw [htail, List.take_succ_cons, List.take_append, List.take_of_length_le (Nat.le_succ _),
    Nat.add_sub_cancel_left]
  rfl

lemma token_ofComment (h : '\n' ∈ cs.take (ofComment cs).width) :
    ∃ lexeme, (ofComment cs).token = some (.mark .lineBreak, lexeme) := by
  unfold ofComment at h ⊢
  simp only at h ⊢
  split at h
  · next hcontains =>
    rw [if_pos hcontains]
    exact ⟨_, rfl⟩
  · next hcontains => exact absurd (List.contains_iff_mem.mpr h) hcontains

lemma getLast?_take (h : (Scan.modeBehind mode (read mode c rest)).lineStart = false) :
    ((c :: rest).take (read mode c rest).width).getLast? ≠ some '\n' := by
  have hbreak (lexeme : List Char) :
      (read mode c rest).token ≠ some (.mark .lineBreak, lexeme) := by
    intro htoken
    simp [Scan.modeBehind, htoken, Scan.lineStart_after] at h
  intro hlast
  have hmem : '\n' ∈ (c :: rest).take (read mode c rest).width := List.mem_of_getLast? hlast
  by_cases hc : c = '\n'
  · have hpiece : read mode c rest = ofLineBreak (c :: rest) := by simp [read, hc]
    exact hbreak _ (by rw [hpiece]; rfl)
  by_cases hquote : c = '"'
  · have hpiece : read mode c rest = ofString (c :: rest) := by simp [read, hquote]
    rw [hpiece] at hlast
    by_cases hclosed : '"' ∈ rest
    · rw [take_ofString hclosed, List.getLast?_concat] at hlast
      simp at hlast
    · simp [ofString, hclosed, wrong, hc] at hlast
  by_cases hcomment : c = '/' ∧ rest.head? = some '*'
  · have hpiece : read mode c rest = ofComment (c :: rest) := by
      simp [read, hcomment.1, hcomment.2]
    rw [hpiece] at hmem
    obtain ⟨lexeme, htoken⟩ := token_ofComment hmem
    exact hbreak lexeme (hpiece ▸ htoken)
  · exact notMem_take mode hc hquote hcomment hmem

end Piece

/-! ### Line feeds -/

namespace Scan

variable {mode : Mode} {place : Position}

/-- A text ends with a line feed only where a line begins. -/
theorem lineStartBehind_or (mode : Mode) (place : Position) (cs : List Char) :
    lineStartBehind mode (read mode place cs).lexemes.dropLast = true ∨
      cs.getLast? ≠ some '\n' := by
  refine read_induction (motive := fun mode place cs =>
    lineStartBehind mode (read mode place cs).lexemes.dropLast = true ∨ cs.getLast? ≠ some '\n')
    ?_ ?_ ?_ mode place cs
  · -- the end of the text
    exact fun mode place => .inr (by simp)
  · -- a blank
    intro mode place c rest hc ih
    rw [read_padding mode place hc]
    refine ih.imp_right fun hlast => ?_
    rcases rest with _ | ⟨d, rest⟩
    · simpa using hc.ne_lineFeed
    · simpa using hlast
  · -- a piece
    intro mode place c rest hc ih
    obtain ⟨ts, hts, -⟩ := exists_lexemes_eq (modeBehind mode (Piece.read mode c rest))
      (place.advance ((c :: rest).take (Piece.read mode c rest).width))
      ((c :: rest).drop (Piece.read mode c rest).width)
    rw [hts, List.dropLast_concat] at ih
    rw [read_piece mode place hc, hts]
    simp only
    rw [← List.append_assoc, List.dropLast_concat, lineStartBehind_kept]
    rcases hback : (c :: rest).drop (Piece.read mode c rest).width with _ | ⟨d, back⟩
    · -- The piece is the rest of the text.
      obtain rfl : [] = ts := by simpa [hback, read_nil] using hts
      rw [← List.take_append_drop (Piece.read mode c rest).width (c :: rest), hback,
        List.append_nil]
      rcases hstart : (modeBehind mode (Piece.read mode c rest)).lineStart
      · exact .inr (Piece.getLast?_take hstart)
      · exact .inl hstart
    · -- text stands behind the piece
      refine ih.imp_right fun hlast => ?_
      rw [← List.take_append_drop (Piece.read mode c rest).width (c :: rest), hback,
        List.getLast?_append, List.getLast?_cons, Option.some_or]
      rwa [hback, List.getLast?_cons] at hlast

/-- Characters of a run of line breaks. -/
def inLineBreak (c : Char) : Bool := c = '\n' || c = ' ' || c = '\t' || c = '\r'

lemma trimEnd_lineBreak (cs : List Char) : trimEnd (cs.takeWhile inLineBreak) = [] := by
  rw [trimEnd, dropEndWhile, List.reverse_eq_nil_iff, List.dropWhile_eq_nil_iff]
  intro c hc
  have hrun : inLineBreak c = true := List.mem_takeWhile_imp (List.mem_reverse.mp hc)
  simp only [inLineBreak, Bool.or_eq_true, decide_eq_true_eq] at hrun
  rcases hrun with ((rfl | rfl) | rfl) | rfl <;> decide

lemma read_lineBreaks (mode : Mode) (place : Position) (rest : List Char) :
    read mode place ('\n' :: rest) =
      ⟨(if mode.lineStart then [] else [⟨.mark .lineBreak, "", place⟩]) ++
          (read .fresh ((place.next '\n').advance (rest.takeWhile inLineBreak))
            (rest.dropWhile inLineBreak)).lexemes,
        (read .fresh ((place.next '\n').advance (rest.takeWhile inLineBreak))
          (rest.dropWhile inLineBreak)).reports⟩ := by
  have hrun : ('\n' :: rest).takeWhile inLineBreak = '\n' :: rest.takeWhile inLineBreak := by
    simp [inLineBreak]
  have hpiece : Piece.read mode '\n' rest =
      ⟨(rest.takeWhile inLineBreak).length + 1, some (.mark .lineBreak, []), none⟩ := by
    have hread : Piece.read mode '\n' rest = Piece.plain (.mark .lineBreak)
        (('\n' :: rest).takeWhile inLineBreak).length ('\n' :: rest) := by
      simp only [Piece.read, if_true]
      rfl
    rw [hread, Piece.plain, ← List.prefix_iff_eq_take.mp (List.takeWhile_prefix _),
      trimEnd_lineBreak, hrun, List.length_cons]
  have htake : rest.take (rest.takeWhile inLineBreak).length = rest.takeWhile inLineBreak :=
    (List.prefix_iff_eq_take.mp (List.takeWhile_prefix _)).symm
  have hkept : kept mode place ⟨(rest.takeWhile inLineBreak).length + 1,
      some (.mark .lineBreak, []), none⟩ =
      if mode.lineStart then [] else [⟨.mark .lineBreak, "", place⟩] := by
    cases hstart : mode.lineStart <;> simp [kept, keeps, hstart]
  rw [read_piece mode place (by simp [IsPadding]), hpiece]
  simp only [List.take_succ_cons, List.drop_succ_cons, drop_takeWhile, htake, hkept]
  rfl

lemma read_fresh_dropWhile (place : Position) (cs : List Char) :
    read .fresh place cs =
      read .fresh (place.advance (cs.takeWhile inLineBreak)) (cs.dropWhile inLineBreak) := by
  induction cs generalizing place with
  | nil => rfl
  | cons c rest ih =>
    by_cases hc : IsPadding c
    · have hrun : inLineBreak c = true := by
        rcases hc with rfl | rfl | rfl <;> decide
      rw [read_padding .fresh place hc, ih, List.takeWhile_cons_of_pos hrun,
        List.dropWhile_cons_of_pos hrun]
      rfl
    · by_cases hline : c = '\n'
      · subst hline
        rw [read_lineBreaks, List.takeWhile_cons_of_pos (by decide),
          List.dropWhile_cons_of_pos (by decide)]
        rfl
      · have hrun : ¬inLineBreak c = true := by
          simpa [inLineBreak, hline, IsPadding, and_assoc] using hc
        rw [List.takeWhile_cons_of_neg hrun, List.dropWhile_cons_of_neg hrun]
        rfl

/-- **Behind a line feed reading starts anew.** -/
lemma read_lineFeed (mode : Mode) (place : Position) (rest : List Char) :
    read mode place ('\n' :: rest) =
      ⟨(if mode.lineStart then [] else [⟨.mark .lineBreak, "", place⟩]) ++
          (read .fresh (place.next '\n') rest).lexemes,
        (read .fresh (place.next '\n') rest).reports⟩ := by
  rw [read_lineBreaks, ← read_fresh_dropWhile]

/-- No string and no comment goes on at the end of the text. -/
def IsTerminated (scan : Scan) : Prop :=
  ∀ r ∈ scan.reports, r.fault ≠ .unterminatedString ∧ r.fault ≠ .unterminatedComment

/-- **Lines are read one after another.** A text that ends in no string or comment is read in front
of a line feed as it is by itself, and what stands behind the line feed is read anew. -/
theorem read_append (mode : Mode) (place : Position) (cs : List Char)
    (h : (read mode place cs).IsTerminated) :
    ∃ ts, lineStartBehind mode ts = true ∧ ∀ behind,
      read mode place (cs ++ '\n' :: behind) =
        ⟨ts ++ (read .fresh (place.advance (cs ++ ['\n'])) behind).lexemes,
          (read mode place cs).reports ++
            (read .fresh (place.advance (cs ++ ['\n'])) behind).reports⟩ := by
  have hbreak (mode : Mode) (place : Position) : lineStartBehind mode
      (if mode.lineStart then [] else [⟨.mark .lineBreak, "", place⟩]) = true := by
    cases hstart : mode.lineStart <;> simp [lineStartBehind, hstart]
  induction hn : cs.length using Nat.strongRecOn generalizing mode place cs with
  | ind n ih =>
  rcases cs with _ | ⟨c, rest⟩
  · -- the end of the text
    refine ⟨_, hbreak mode place, fun behind => ?_⟩
    rw [List.nil_append, read_lineFeed, read_nil]
    rfl
  by_cases hc : IsPadding c
  · -- a blank
    rw [read_padding mode place hc] at h ⊢
    obtain ⟨ts, hstart, hts⟩ := ih rest.length (by simp [← hn]) mode _ rest h rfl
    refine ⟨ts, hstart, fun behind => ?_⟩
    rw [List.cons_append, read_padding mode place hc, hts]
    rfl
  by_cases hline : c = '\n'
  · -- a line break
    subst hline
    rw [read_lineFeed] at h ⊢
    obtain ⟨ts, hstart, hts⟩ := ih rest.length (by simp [← hn]) .fresh _ rest h rfl
    refine ⟨_ ++ ts, (lineStartBehind_append _ ts (hbreak mode place).symm).trans hstart,
      fun behind => ?_⟩
    rw [List.cons_append, read_lineFeed, hts, List.append_assoc]
    rfl
  · -- any other piece, which cannot reach over the line break
    rw [read_piece mode place hc] at h ⊢
    have hterminated : (Piece.read mode c rest).IsTerminated := by
      constructor <;> intro hfault
      · exact (h ⟨_, place⟩ (by simp [made, hfault])).1 rfl
      · exact (h ⟨_, place⟩ (by simp [made, hfault])).2 rfl
    obtain ⟨hpos, hle⟩ := Piece.fits_read mode c rest
    have hshorter : ((c :: rest).drop (Piece.read mode c rest).width).length < n := by
      simp only [List.length_drop, List.length_cons] at hn ⊢
      omega
    obtain ⟨ts, hstart, hts⟩ :=
      ih _ hshorter _ _ _ (fun r hr => h r (List.mem_append_right _ hr)) rfl
    refine ⟨_ ++ ts, (lineStartBehind_kept mode place _ ts).trans hstart, fun behind => ?_⟩
    have hplace : (place.advance ((c :: rest).take (Piece.read mode c rest).width)).advance
        ((c :: rest).drop (Piece.read mode c rest).width ++ ['\n']) =
        place.advance (c :: rest ++ ['\n']) := by
      rw [← Position.advance_append, ← List.append_assoc, List.take_append_drop]
    have hlater := hts behind
    rw [hplace] at hlater
    rw [List.cons_append, read_piece mode place hc,
      Piece.read_lineFeed behind mode hline hterminated, ← List.cons_append,
      take_append_of_le_length hle, drop_append_of_le_length hle,
      hlater, List.append_assoc, List.append_assoc]

end Scan

end QuestScript

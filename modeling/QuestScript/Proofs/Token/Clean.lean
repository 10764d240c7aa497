import Mathlib.Data.List.Induction
import QuestScript.Proofs.Token.Standing
import QuestScript.Proofs.Token.Trailing

/-!
Texts with nothing wrong in them.

A text gives tokens if they are what is read from it and there is nothing to report, wherever the
text starts (`Scan.gives_iff`). Blanks around a text that gives no payloads are padding, or part of
a remark at its end, and the text gives the same tokens without them (`Scan.Gives.trim`).
-/

namespace QuestScript

open Text

lemma Piece.read_of_isBlank (mode : Mode) {b : Char} (rest : List Char) (hb : isBlank b = true)
    (hline : b ≠ '\n') : read mode b rest = wrong (.unexpectedCharacter b) := by
  have hne {c : Char} (hc : isBlank c = false) : b ≠ c := ne_of_isBlank hb hc
  have hletter : isAlphabetic b = false := by
    have := isWordChar_of_isBlank hb
    simp only [isWordChar, Bool.or_eq_false_iff] at this
    exact this.1.1
  have hoperator : operator? b rest.head? = none := by
    unfold operator?
    split <;> first | rfl | exact absurd rfl (hne (by decide))
  simp [read, ofOperator, hoperator, hline, hletter, isDigit_of_isBlank hb,
    hne (c := ';') (by decide), hne (c := '/') (by decide), hne (c := '-') (by decide),
    hne (c := ':') (by decide), hne (c := '"') (by decide), hne (c := '.') (by decide)]

namespace Scan

variable {mode : Mode} {b c : Char} {rest cs : List Char} {ts : List Token}

/-- The tokens are read from the text in front of its end, and nothing is reported. -/
def Gives (mode : Mode) (cs : List Char) (ts : List Token) : Prop :=
  ∀ place : Position, (read mode place cs).reports = [] ∧
    (read mode place cs).lexemes.map Lexeme.token = ts ++ [.mark .sourceEnd]

/-- What a text gives does not depend on where it starts. -/
theorem gives_iff (place : Position) : Gives mode cs ts ↔ (read mode place cs).reports = [] ∧
    (read mode place cs).lexemes.map Lexeme.token = ts ++ [.mark .sourceEnd] := by
  have hembed (origin : Position) := read_embed origin mode cs Position.isCounted_start
  simp only [Position.embed_start] at hembed
  have htokens (origin : Position) : (read mode origin cs).lexemes.map Lexeme.token =
      (read mode .start cs).lexemes.map Lexeme.token := by
    rw [hembed origin, List.map_map]
    rfl
  have hreports (origin : Position) :
      (read mode origin cs).reports = [] ↔ (read mode .start cs).reports = [] := by
    rw [hembed origin, List.map_eq_nil_iff]
  refine ⟨fun h => h place, fun h origin => ?_⟩
  rwa [hreports, htokens, ← htokens place, ← hreports place]

lemma gives_padding (hc : IsPadding c) : Gives mode (c :: rest) ts ↔ Gives mode rest ts := by
  rw [gives_iff .start, read_padding _ _ hc, ← gives_iff]

lemma gives_piece (hc : ¬IsPadding c) : Gives mode (c :: rest) ts ↔
    (Piece.read mode c rest).fault = none ∧ ∃ us,
      ts = (kept mode .start (Piece.read mode c rest)).map Lexeme.token ++ us ∧
        Gives (modeBehind mode (Piece.read mode c rest))
          ((c :: rest).drop (Piece.read mode c rest).width) us := by
  rw [gives_iff .start, read_piece _ _ hc]
  simp only [List.append_eq_nil_iff, List.map_append, made, List.map_eq_nil_iff,
    Option.toList_eq_nil_iff]
  constructor
  · rintro ⟨⟨hfault, hreports⟩, htokens⟩
    obtain ⟨ls, hls, -⟩ := exists_lexemes_eq (modeBehind mode (Piece.read mode c rest))
      (Position.start.advance ((c :: rest).take (Piece.read mode c rest).width))
      ((c :: rest).drop (Piece.read mode c rest).width)
    rw [hls, List.map_append, ← List.append_assoc] at htokens
    refine ⟨hfault, ls.map Lexeme.token, (List.append_inj_left' htokens rfl).symm, ?_⟩
    refine (gives_iff _).mpr ⟨hreports, ?_⟩
    rw [hls, List.map_append]
    rfl
  · rintro ⟨hfault, us, rfl, hus⟩
    obtain ⟨hreports, htokens⟩ := hus _
    exact ⟨⟨hfault, hreports⟩, by rw [htokens, List.append_assoc]⟩

namespace Gives

lemma exists_lexemes (h : Gives mode cs ts) (place : Position) : ∃ ls,
    read mode place cs = ⟨ls ++ [⟨.mark .sourceEnd, "", place.advance cs⟩], []⟩ ∧
      ls.map Lexeme.token = ts ∧ ∀ l ∈ ls, l.token ≠ .mark .sourceEnd := by
  obtain ⟨hreports, htokens⟩ := h place
  obtain ⟨ls, hls, hfree⟩ := exists_lexemes_eq mode place cs
  refine ⟨ls, ?_, ?_, hfree⟩
  · rw [← hls, ← hreports]
  · rw [hls, List.map_append] at htokens
    exact List.append_inj_left' htokens rfl

lemma isPadding (h : Gives mode (b :: rest) ts) (hb : isBlank b = true) (hline : b ≠ '\n') :
    IsPadding b := by
  by_contra hpadding
  obtain ⟨hfault, -⟩ := (gives_piece hpadding).mp h
  simp [Piece.read_of_isBlank mode rest hb hline, Piece.wrong] at hfault

lemma trimStart (hline : '\n' ∉ cs) (h : Gives mode cs ts) : Gives mode (trimStart cs) ts := by
  induction cs with
  | nil => exact h
  | cons c rest ih =>
    obtain ⟨hne, hrest⟩ := List.ne_and_not_mem_of_not_mem_cons hline
    by_cases hblank : isBlank c = true
    · rw [Text.trimStart, List.dropWhile_cons_of_pos hblank]
      exact ih hrest ((gives_padding (h.isPadding hblank hne.symm)).mp h)
    · rwa [Text.trimStart, List.dropWhile_cons_of_neg hblank]

lemma of_concat (hb : isBlank b = true) (hbreak : b ≠ '\n') (hline : '\n' ∉ cs)
    (hts : ∀ t ∈ ts, t.text? = none) (h : Gives mode (cs ++ [b]) ts) : Gives mode cs ts := by
  revert ts hline
  refine read_induction (motive := fun mode _ cs => ∀ {ts : List Token}, '\n' ∉ cs →
    (∀ t ∈ ts, t.text? = none) → Gives mode (cs ++ [b]) ts → Gives mode cs ts) ?_ ?_ ?_
    mode .start cs
  · -- the end of the text
    intro mode place ts _ _ h
    exact (gives_padding (h.isPadding hb hbreak)).mp h
  · -- a blank
    intro mode place c rest hc ih ts hline hts h
    exact (gives_padding hc).mpr
      (ih (fun hmem => hline (List.mem_cons_of_mem c hmem)) hts ((gives_padding hc).mp h))
  · -- a piece
    intro mode place c rest hc ih ts hline hts h
    rw [List.cons_append] at h
    obtain ⟨hfault, us, rfl, hus⟩ := (gives_piece hc).mp h
    obtain ⟨-, hfits⟩ := Piece.fits_read mode c rest
    have hbegins : c ≠ '\n' := fun heq => hline (heq ▸ List.mem_cons_self)
    rcases Piece.grows_read (ends_of_isBlank hb) mode hbegins (fun _ => hline)
      (fun heq => absurd heq hbreak) with ⟨-, hgrows⟩ | hsame
    · -- The piece takes the blank as well, so it is no token.
      have hrest : (c :: rest).drop (Piece.read mode c rest).width = [] := by
        rw [hgrows.width, List.drop_length]
      have hrest' : (c :: (rest ++ [b])).drop (Piece.read mode c (rest ++ [b])).width = [] := by
        rw [hgrows.width', List.drop_eq_nil_iff]
        simp
      refine (gives_piece hc).mpr ⟨hgrows.fault ▸ hfault, us, ?_⟩
      rw [hrest'] at hus
      rw [hrest]
      have htoken := hgrows.token
      cases hold : (Piece.read mode c rest).token <;>
        cases hnew : (Piece.read mode c (rest ++ [b])).token <;>
        simp only [hold, hnew] at htoken <;> cases htoken
      · simpa [kept, modeBehind, hold, hnew] using hus
      · simp [kept, hnew, keeps, Token.text?] at hts
    · rw [hsame] at hfault hts hus ⊢
      rw [← List.cons_append, List.drop_append_of_le_length hfits] at hus
      refine (gives_piece hc).mpr ⟨hfault, us, rfl, ih ?_ ?_ hus⟩
      · exact fun hmem => hline (List.mem_of_mem_drop hmem)
      · exact fun t ht => hts t (List.mem_append_right _ ht)

/-- **Blanks around a line without payloads give nothing.** -/
theorem trim (hline : '\n' ∉ cs) (hts : ∀ t ∈ ts, t.text? = none) (h : Gives mode cs ts) :
    Gives mode (trim cs) ts := by
  obtain ⟨blanks, hcs, hblanks⟩ := isTrimmedOf_trimEnd (Text.trimStart cs)
  have hstart := h.trimStart hline
  have hfree : '\n' ∉ Text.trimStart cs :=
    fun hmem => hline ((List.dropWhile_sublist _).subset hmem)
  rw [hcs] at hstart hfree
  rw [Text.trim]
  clear hcs
  induction blanks using List.reverseRecOn with
  | nil => rwa [List.append_nil] at hstart
  | append_singleton blanks b ih =>
    rw [← List.append_assoc] at hstart hfree
    have hfront : '\n' ∉ trimEnd (Text.trimStart cs) ++ blanks :=
      fun hmem => hfree (List.mem_append_left [b] hmem)
    have hbreak : b ≠ '\n' := by
      rintro rfl
      simp at hfree
    refine ih (fun c hc => hblanks c (by simp [hc])) ?_ hfront
    exact hstart.of_concat (hblanks b (by simp)) hbreak hfront hts

end Gives

end Scan

end QuestScript

import Mathlib.Logic.Function.Iterate
import QuestScript.Proofs.Token.Standing

/-!
The shape of a token stream.

A line has a token in front of its end, a label is the first token of its line, and every token
stands behind the one before it. The stream ends with the one token that marks the end of the
source, which is all that is left for a scanner that has been there.
-/

namespace QuestScript

open Text

/-! ### Labels are read where lines begin -/

namespace Piece

variable {mode : Mode} {c : Char} {rest text : List Char} {name : String}

lemma read_colon (mode : Mode) (rest : List Char) :
    read mode ':' rest =
      if mode.lineStart then ofLabel mode (':' :: rest) else wrong (.unexpectedCharacter ':') := by
  have halphabetic : isAlphabetic ':' = false := by decide +kernel
  unfold read
  by_cases hstart : mode.lineStart = true <;>
    simp [hstart, halphabetic, ofOperator, operator?]

lemma ofWord_ne_label (cs : List Char) :
    (ofWord mode cs).token ≠ some (.payload .label name, text) := by
  have htable : ∀ entry ∈ Keyword.table, entry.2 ≠ .carrier .label := by decide
  unfold ofWord
  simp only
  split
  · simp [plain]
  · next carrier hword =>
    obtain ⟨spelling, hmem⟩ := exists_mem_table hword
    have hcarrier : carrier ≠ .label := fun heq => htable _ hmem (congrArg Keyword.carrier heq)
    simp [ofCarrier, payload, hcarrier]
  · split
    · split <;> simp [ofCarrier, payload, plain]
    · simp [plain]
  · split <;> simp [skipped, plain]
  · simp [plain]

/-- **Labels begin lines.** A label is read from a colon, and only where a line begins. -/
theorem of_read_label (h : (read mode c rest).token = some (.payload .label name, text)) :
    mode.lineStart = true ∧ text.head? = some ':' := by
  have hcolon : c = ':' := by
    revert h
    refine read_cases
      (motive := fun piece => piece.token = some (.payload .label name, text) → c = ':')
      ?lineBreak ?line ?comment ?label ?string ?number ?word ?operator
    case lineBreak => simp [ofLineBreak, plain]
    case line => simp [skipped]
    case comment =>
      intro _ _
      unfold ofComment
      simp only
      split <;> simp [plain, skipped]
    case label => exact fun hc _ => hc
    case string =>
      intro _
      unfold ofString
      split <;> simp [plain, wrong]
    case number => simp [ofNumber, plain]
    case word => exact fun _ h => absurd h (ofWord_ne_label _)
    case operator =>
      intro _
      unfold ofOperator
      split <;> simp [plain, wrong]
  subst hcolon
  rw [read_colon] at h
  by_cases hstart : mode.lineStart = true
  · rw [if_pos hstart] at h
    obtain ⟨-, rfl⟩ := Prod.mk.inj (Option.some.inj h)
    exact ⟨hstart, rfl⟩
  · simp [hstart, wrong] at h

end Piece

/-! ### Lines and labels -/

namespace Lexeme

/-- The lexeme can stand where a line begins, or where one goes on: a line does not begin with its
end, and a label does not stand further on. -/
structure FitsAt (lineStart : Bool) (l : Lexeme) : Prop where
  lineBreak (h : l.token = .mark .lineBreak) : lineStart = false
  label {name : String} (h : l.token = .payload .label name) : lineStart = true

/-- All lexemes of the list can stand where they do, the first of them where a line begins or goes
on. -/
def Shaped : Bool → List Lexeme → Prop
  | _, [] => True
  | lineStart, l :: rest => l.FitsAt lineStart ∧ Shaped (l.token = .mark .lineBreak) rest

variable {lineStart : Bool} {l m : Lexeme} {ts front back : List Lexeme}

lemma Shaped.behind (h : Shaped lineStart (front ++ l :: back)) :
    Shaped (l.token = .mark .lineBreak) back := by
  induction front generalizing lineStart with
  | nil => exact h.2
  | cons _ front ih => exact ih h.2

lemma Shaped.left (h : Shaped lineStart (ts ++ back)) : Shaped lineStart ts := by
  induction ts generalizing lineStart with
  | nil => trivial
  | cons l rest ih => exact ⟨h.1, ih h.2⟩

lemma Shaped.head? (h : Shaped true ts) : ∀ l ∈ ts.head?, l.token ≠ .mark .lineBreak := by
  intro l hl hbreak
  obtain ⟨rest, rfl⟩ := List.head?_eq_some_iff.mp hl
  exact Bool.noConfusion (h.1.lineBreak hbreak)

lemma Shaped.not_lineBreak (h : Shaped lineStart (front ++ l :: m :: back))
    (hl : l.token = .mark .lineBreak) : m.token ≠ .mark .lineBreak := by
  have hbehind := h.behind
  rw [decide_eq_true hl] at hbehind
  exact hbehind.head? m rfl

lemma Shaped.lineBreak_of_label (h : Shaped lineStart (front ++ l :: back)) {name : String}
    (hl : l.token = .payload .label name) : ∀ m ∈ front.getLast?, m.token = .mark .lineBreak := by
  intro m hm
  obtain ⟨more, rfl⟩ := List.getLast?_eq_some_iff.mp hm
  rw [List.append_assoc] at h
  exact of_decide_eq_true (h.behind.1.label hl)

end Lexeme

namespace Scan

open Lexeme (Shaped)

lemma fitsAt_of_mem_kept {mode : Mode} {place : Position} {c : Char} {rest : List Char} {l : Lexeme}
    (h : l ∈ kept mode place (Piece.read mode c rest)) : l.FitsAt mode.lineStart := by
  obtain ⟨text, htoken, hl⟩ := exists_of_mem_kept h
  refine ⟨fun hbreak => ?_, fun {name} hlabel => ?_⟩
  · rw [kept, htoken] at h
    by_contra hstart
    simp [keeps, hbreak, hstart] at h
  · rw [hlabel] at htoken
    exact (Piece.of_read_label htoken).1

/-- **No line is empty, and labels come first.** -/
theorem shaped_read (mode : Mode) (place : Position) (cs : List Char) :
    Shaped mode.lineStart (read mode place cs).lexemes := by
  refine read_induction (motive := fun mode place cs =>
    Shaped mode.lineStart (read mode place cs).lexemes) ?_ ?_ ?_ mode place cs
  · -- the end of the text
    intro mode place
    rw [read_nil]
    exact ⟨⟨by simp, by simp⟩, trivial⟩
  · -- a blank
    intro mode place c rest hc ih
    rwa [read_padding mode place hc]
  · -- a piece
    intro mode place c rest hc ih
    have hbehind := lineStartBehind_kept mode place (Piece.read mode c rest) []
    have hfits : ∀ l ∈ kept mode place (Piece.read mode c rest), l.FitsAt mode.lineStart :=
      fun _ => fitsAt_of_mem_kept
    rw [read_piece mode place hc]
    -- A piece gives at most one lexeme, which tells whether a line begins behind it.
    rcases hkept : kept mode place (Piece.read mode c rest) with _ | ⟨l, _ | ⟨m, more⟩⟩
    · rw [hkept] at hbehind
      rwa [← show mode.lineStart = (modeBehind mode (Piece.read mode c rest)).lineStart from
        hbehind] at ih
    · rw [hkept] at hbehind hfits
      refine ⟨hfits l (List.mem_singleton_self l), ?_⟩
      rwa [← show decide (l.token = .mark .lineBreak) =
        (modeBehind mode (Piece.read mode c rest)).lineStart from hbehind] at ih
    · unfold kept at hkept
      split at hkept
      · split at hkept <;> simp at hkept
      · simp at hkept

/-! ### Places in order -/

lemma pairwise_of_piece {R : Lexeme → Lexeme → Prop}
    (h : ∀ mode place c rest text l m front,
      (Piece.read mode c rest).token = some (l.token, text) → l.start = place →
      m.start = place.advance ((c :: rest).take (Piece.read mode c rest).width ++ front) → R l m)
    (mode : Mode) (place : Position) (cs : List Char) :
    (read mode place cs).lexemes.Pairwise R := by
  refine read_induction (motive := fun mode place cs => (read mode place cs).lexemes.Pairwise R)
    ?_ ?_ ?_ mode place cs
  · intro mode place
    rw [read_nil]
    exact List.pairwise_singleton _ _
  · intro mode place c rest hc ih
    rwa [read_padding mode place hc]
  · intro mode place c rest hc ih
    rw [read_piece mode place hc]
    refine List.pairwise_append.mpr ⟨?_, ih, fun l hl m hm => ?_⟩
    · unfold kept
      split
      · split
        · exact List.pairwise_singleton _ _
        · exact .nil
      · exact .nil
    · -- the lexeme of the piece and one read behind it
      obtain ⟨text, htoken, hl⟩ := exists_of_mem_kept hl
      obtain ⟨front, -, -, hstart, -⟩ := exists_of_mem_lexemes hm
      rw [← Position.advance_append] at hstart
      exact h mode place c rest text l m front htoken (by rw [hl]) hstart

/-- Each lexeme starts behind the starts of the ones before it. -/
theorem pairwise_start (mode : Mode) (place : Position) (cs : List Char) :
    (read mode place cs).lexemes.Pairwise fun l m => l.start < m.start := by
  refine pairwise_of_piece (fun mode place c rest text l m front _ hl hm => ?_) mode place cs
  -- A piece covers a character.
  obtain ⟨more, hmore⟩ :=
    Nat.exists_eq_succ_of_ne_zero (Nat.ne_of_gt (Piece.fits_read mode c rest).1)
  rw [hl, hm, hmore, List.take_succ_cons, List.cons_append]
  exact Position.lt_advance_cons place c _

/-- What is read behind a line break stands on a later line. -/
theorem pairwise_lexemes (mode : Mode) (place : Position) (cs : List Char) :
    (read mode place cs).lexemes.Pairwise fun l m =>
      l.token = .mark .lineBreak → l.start.line < m.start.line := by
  refine pairwise_of_piece (fun mode place c rest text l m front htoken hl hm hbreak => ?_)
    mode place cs
  rw [hl, hm]
  exact place.line_lt_advance
    (List.mem_append_left _ ((Piece.end_of_read mode c rest _ htoken).2 hbreak))

/-- A label starts at a colon of the text. -/
theorem exists_colon_of_label {mode : Mode} {place : Position} {cs : List Char} {l : Lexeme}
    {name : String} (h : l ∈ (read mode place cs).lexemes) (hl : l.token = .payload .label name) :
    ∃ front back, cs = front ++ ':' :: back ∧ l.start = place.advance front := by
  obtain ⟨inner, c, rest, text, -, htoken, htext⟩ := exists_piece_of_mem h (by simp [hl])
  obtain ⟨more, rfl⟩ := List.head?_eq_some_iff.mp (Piece.of_read_label (hl ▸ htoken)).2
  obtain ⟨front, back, rfl, hstart, hprefix, -⟩ := exists_of_mem_lexemes h
  rw [htext, String.toList_ofList] at hprefix
  obtain ⟨tail, rfl⟩ := hprefix
  exact ⟨front, more ++ tail, rfl, hstart⟩

end Scan

/-! ### Scanners -/

namespace Scanner

lemma run_of_rest_eq_nil {s : Scanner} (h : s.rest = []) :
    s.run = ([⟨.mark .sourceEnd, "", s.place⟩], s) := by
  rcases s with ⟨rest, place, reports⟩
  obtain rfl : rest = [] := h
  simp [run, Scan.read_nil]

/-- **The shape of a token stream.** The tokens of a source, wherever it starts, end with the one
that marks its end. They do not begin with a line break and have no two line breaks next to each
other, their lines and columns increase, and a label is the first token or stands right behind a
line break. A scanner that is asked again gives nothing but the end of the source, at the same
place, and reports nothing more. -/
theorem run_shape (source : String) (place : Position) :
    (∃ ts : List Lexeme,
      (ofText source place).run.1 =
        ts ++ [⟨.mark .sourceEnd, "", place.advance source.toList⟩] ∧
      ∀ l ∈ ts, l.token ≠ .mark .sourceEnd) ∧
    (∀ l ∈ (ofText source place).run.1.head?, l.token ≠ .mark .lineBreak) ∧
    (∀ front l m back, (ofText source place).run.1 = front ++ l :: m :: back →
      l.token = .mark .lineBreak → m.token ≠ .mark .lineBreak) ∧
    ((ofText source place).run.1.Pairwise fun l m => l.start.line < m.start.line ∨
      l.start.line = m.start.line ∧ l.start.column < m.start.column) ∧
    (∀ front l back name, (ofText source place).run.1 = front ++ l :: back →
      l.token = .payload .label name → ∀ m ∈ front.getLast?, m.token = .mark .lineBreak) ∧
    ∀ n, ((fun s : Scanner => s.run.2)^[n + 1] (ofText source place)).run =
      ([⟨.mark .sourceEnd, "", place.advance source.toList⟩], (ofText source place).run.2) := by
  have hshaped : Lexeme.Shaped true (ofText source place).run.1 :=
    Scan.shaped_read .fresh place source.toList
  refine ⟨Scan.exists_lexemes_eq .fresh place source.toList, hshaped.head?, ?_, ?_, ?_, ?_⟩
  · intro front l m back heq
    rw [heq] at hshaped
    exact hshaped.not_lineBreak
  · exact (Scan.pairwise_start .fresh place source.toList).imp Position.lt_iff.mp
  · intro front l back name heq
    rw [heq] at hshaped
    exact hshaped.lineBreak_of_label
  · intro n
    have hrun := run_of_rest_eq_nil (s := (ofText source place).run.2) rfl
    have hlater : (fun s : Scanner => s.run.2)^[n + 1] (ofText source place) =
        (ofText source place).run.2 := by
      rw [Function.iterate_succ_apply]
      exact Function.iterate_fixed (congrArg Prod.snd hrun) n
    rw [hlater]
    exact hrun

end Scanner

end QuestScript

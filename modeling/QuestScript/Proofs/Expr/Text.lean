import QuestScript.Expr.Reading
import QuestScript.Proofs.Expr.Number

/-!
Written texts are read back, and a text is written as it was read.

Texts have no parentheses, so reading one and writing it gives the very tokens that were taken.
-/

namespace QuestScript.StringExpr

open Lexeme (Spell)
open Token (within within_of_le within_of_lt)

variable {ls rest ts : List Lexeme} {e left : StringExpr} {k : Nat}

lemma readJoined_of_ne (h : ∀ l ∈ rest.head?, l.token ≠ .mark .plus) :
    readJoined left rest = .pure left := by
  cases rest with
  | nil => simp [readJoined]
  | cons l rest => simp [readJoined, h l rfl]

lemma readJoined_plus {l : Lexeme} (h : l.token = .mark .plus) :
    readJoined left (l :: rest) =
      ((readOperand rest).bind fun right k =>
        readJoined (.concat left right) (rest.drop k)).after 1 := by
  conv_lhs => rw [readJoined]
  rw [if_pos h]

lemma four_le_level (e : StringExpr) : 4 ≤ e.level := by
  cases e <;> simp [level]

lemma tokens_concat {right : StringExpr} (h : right.level = 7) :
    (concat left right).tokens = left.tokens ++ .mark .plus :: right.tokens := by
  rw [tokens, within_of_le _ left.four_le_level, within_of_le _ (by omega)]

/-! ### Reading what is written -/

lemma readOperand_spell (rest : List Lexeme) (hlevel : e.level = 7) (h : Spell ls e.tokens) :
    readOperand (ls ++ rest) = ⟨.ok e, ls.length⟩ := by
  cases e with
  | const value =>
    obtain ⟨l, rfl, hl⟩ := Spell.single h
    simp [readOperand, hl]
  | var name =>
    obtain ⟨l, rfl, hl⟩ := Spell.single h
    simp [readOperand, hl]
  | concat left right => simp [level] at hlevel

lemma read_append (e : StringExpr) (rest : List Lexeme) (hgrouped : e.Grouped)
    (h : Spell ls e.tokens) : read (ls ++ rest) = (readJoined e rest).after ls.length := by
  induction e generalizing ls rest with
  | const value => simp [read, readOperand_spell rest rfl h]
  | var name => simp [read, readOperand_spell rest rfl h]
  | concat left right ih _ =>
    obtain ⟨hleft, hright⟩ := hgrouped
    rw [tokens_concat hright] at h
    obtain ⟨la, o, lb, rfl, hla, ho, hlb⟩ := h.between
    have hjoin : readJoined left (o :: (lb ++ rest)) =
        (readJoined (.concat left right) rest).after (1 + lb.length) := by
      simp [readJoined_plus ho, readOperand_spell rest hright hlb]
    rw [List.append_assoc, List.cons_append, ih (o :: (lb ++ rest)) hleft hla, hjoin]
    simp [Nat.add_comm]

/-- **Texts round-trip.** The tokens of a text read as that text, in front of everything but a plus
sign. -/
theorem read_spell (e : StringExpr) (rest : List Lexeme) (hgrouped : e.Grouped)
    (h : Spell ls e.tokens) (hrest : ∀ l ∈ rest.head?, l.token ≠ .mark .plus) :
    read (ls ++ rest) = ⟨.ok e, ls.length⟩ := by
  rw [read_append e rest hgrouped h, readJoined_of_ne hrest]
  simp

/-! ### Writing what was read -/

lemma spell_of_readOperand (h : readOperand ts = ⟨.ok e, k⟩) :
    Spell (ts.take k) e.tokens ∧ e.level = 7 := by
  unfold readOperand at h
  split at h
  · split at h
    · obtain ⟨⟨⟩, rfl⟩ : _ ∧ 1 = k := by simpa using h
      simp_all [Spell, tokens, level]
    · obtain ⟨⟨⟩, rfl⟩ : _ ∧ 1 = k := by simpa using h
      simp_all [Spell, tokens, level]
    · simp [Reading.fail] at h
  · simp [Reading.fail] at h

lemma grouped_of_level (h : e.level = 7) : e.Grouped := by
  cases e with
  | concat left right => simp [level] at h
  | _ => trivial

lemma spell_of_readJoined (hls : Spell ls left.tokens) (hleft : left.Grouped)
    (h : readJoined left ts = ⟨.ok e, k⟩) : Spell (ls ++ ts.take k) e.tokens ∧ e.Grouped := by
  induction hn : ts.length using Nat.strongRecOn generalizing ls left ts k with
  | ind n ih =>
  rcases ts with _ | ⟨l, rest⟩
  · simp only [readJoined, Reading.pure_eq, Reading.mk.injEq, Except.ok.injEq] at h
    obtain ⟨rfl, rfl⟩ := h
    simpa using ⟨hls, hleft⟩
  · by_cases hplus : l.token = .mark .plus
    · rw [readJoined_plus hplus] at h
      -- the operand behind the plus sign
      rcases hoperand : readOperand rest with ⟨_ | right, m⟩
      · simp [hoperand] at h
      · rw [hoperand] at h
        rcases hjoin : readJoined (left.concat right) (rest.drop m) with ⟨r, j⟩
        simp only [Reading.mk_ok_bind, hjoin, Reading.after_mk, Reading.mk.injEq] at h
        obtain ⟨rfl, rfl⟩ := h
        obtain ⟨hright, hlevel⟩ := spell_of_readOperand hoperand
        have hgrouped : (left.concat right).Grouped := ⟨hleft, hlevel⟩
        have hspell : Spell (ls ++ l :: rest.take m) (left.concat right).tokens := by
          rw [tokens_concat hlevel, Spell, List.map_append, List.map_cons, hplus]
          rw [show ls.map Lexeme.token = left.tokens from hls,
            show (rest.take m).map Lexeme.token = right.tokens from hright]
        have hlen : (rest.drop m).length < n := by
          simp only [List.length_drop, ← hn, List.length_cons]
          omega
        have := ih _ hlen hspell hgrouped hjoin rfl
        rw [Nat.add_comm 1 (m + j), List.take_succ_cons, List.take_add]
        simpa using this
    · -- the text ends here
      rw [readJoined_of_ne (by simpa using hplus)] at h
      simp only [Reading.pure_eq, Reading.mk.injEq, Except.ok.injEq] at h
      obtain ⟨rfl, rfl⟩ := h
      simpa using ⟨hls, hleft⟩

/-- A text that was read is spelled by the tokens that were taken. -/
theorem spell_of_read (h : read ts = ⟨.ok e, k⟩) : Spell (ts.take k) e.tokens ∧ e.Grouped := by
  rw [read] at h
  rcases hoperand : readOperand ts with ⟨_ | left, m⟩
  · simp [hoperand] at h
  · rcases hjoin : readJoined left (ts.drop m) with ⟨r, j⟩
    rw [hoperand] at h
    simp only [Reading.mk_ok_bind, hjoin, Reading.after_mk, Reading.mk.injEq] at h
    obtain ⟨rfl, rfl⟩ := h
    obtain ⟨hspell, hlevel⟩ := spell_of_readOperand hoperand
    rw [List.take_add]
    exact spell_of_readJoined hspell (grouped_of_level hlevel) hjoin

/-! ### The tokens of texts -/

/-- Whether the token may stand in a text. -/
def admits : Token → Bool
  | .string _ | .name _ | .mark .plus => true
  | _ => false

lemma admits_of_mem (hgrouped : e.Grouped) : ∀ t ∈ e.tokens, admits t = true := by
  induction e with
  | const value => simp [tokens, admits]
  | var name => simp [tokens, admits]
  | concat left right ihl ihr =>
    obtain ⟨hleft, hright⟩ := hgrouped
    intro t ht
    rw [tokens_concat hright] at ht
    simp only [List.mem_append, List.mem_cons] at ht
    rcases ht with ht | rfl | ht
    · exact ihl hleft t ht
    · rfl
    · exact ihr (grouped_of_level hright) t ht

lemma hasLiteral_iff (hgrouped : e.Grouped) :
    e.hasLiteral = true ↔ ∃ value, .string value ∈ e.tokens := by
  induction e with
  | const value => simp [hasLiteral, tokens]
  | var name => simp [hasLiteral, tokens]
  | concat left right ihl ihr =>
    obtain ⟨hleft, hright⟩ := hgrouped
    rw [tokens_concat hright, hasLiteral, Bool.or_eq_true, ihl hleft,
      ihr (grouped_of_level hright)]
    simp [exists_or]

end QuestScript.StringExpr

import QuestScript.Expr.Reading
import QuestScript.Proofs.Expr.Text

/-!
Written conditions are read back.

A condition is read by trying other grammars first, so what has to be shown is that these attempts
fail where they should. A written condition other than a bare name has a logical token where a
number would have to go on or be closed, so reading it as a number gets stuck there.
-/

namespace QuestScript

open Lexeme (Spell)
open Token (within within_of_le within_of_lt)

/-! ### Operators -/

namespace Token

/-- Whether the token occurs in conditions only. -/
def isLogical : Token → Bool
  | .mark m => Expr.isLogical m
  | _ => false

/-- Whether the token may stand behind a condition, or behind a part of it that is no operand of a
comparison. -/
def endsCondition : Token → Bool
  | .mark m => m ∈ [.and, .or, .xor, .rightParen, .thenWord, .elseWord, .ampersand, .lineBreak,
      .sourceEnd]
  | _ => false

lemma isLogical_connective (op : Connective) : isLogical (.mark op.mark) = true := by
  cases op <;> rfl

lemma isLogical_comparison (op : Comparison) : isLogical (.mark op.mark) = true := by
  cases op <;> rfl

variable {t : Token}

lemma no_arithmetic_of_isLogical (h : t.isLogical = true) :
    NumberExpr.sumOp? t = none ∧ NumberExpr.termOp? t = none := by
  unfold isLogical at h
  split at h
  · next m => cases m <;> simp_all [Expr.isLogical, NumberExpr.sumOp?, NumberExpr.termOp?]
  · simp at h

lemma no_arithmetic_of_endsCondition (h : t.endsCondition = true) :
    NumberExpr.sumOp? t = none ∧ NumberExpr.termOp? t = none := by
  unfold endsCondition at h
  split at h
  · next m => cases m <;> simp_all [NumberExpr.sumOp?, NumberExpr.termOp?]
  · simp at h

lemma no_comparison_of_endsCondition (h : t.endsCondition = true) :
    Comparison.ofTexts? t = none ∧ Comparison.ofNumbers? t = none ∧
      Comparison.ofConditions? t = none := by
  unfold endsCondition at h
  split at h
  · next m =>
    cases m <;> simp_all [Comparison.ofTexts?, Comparison.ofNumbers?, Comparison.ofConditions?]
  · simp at h

lemma not_admits_of_endsCondition (h : t.endsCondition = true) : StringExpr.admits t = false := by
  unfold endsCondition at h
  split at h
  · next m => cases m <;> simp_all [StringExpr.admits]
  · simp at h

end Token

namespace Comparison

lemma ofTexts?_mark {op : Comparison} (h : op ∈ [equal, maskEqual, notEqual]) :
    ofTexts? (.mark op.mark) = some op := by
  cases op <;> first | rfl | simp at h

lemma ofNumbers?_mark {op : Comparison} (h : op ≠ maskEqual) :
    ofNumbers? (.mark op.mark) = some op := by
  cases op <;> first | rfl | simp at h

lemma ofConditions?_mark {op : Comparison} (h : op ∈ [equal, notEqual]) :
    ofConditions? (.mark op.mark) = some op := by
  cases op <;> first | rfl | simp at h

lemma mark_ne_plus (op : Comparison) : Token.mark op.mark ≠ .mark .plus := by
  cases op <;> simp [mark]

lemma ofTexts?_mark_eq {op other : Comparison} (h : ofTexts? (.mark op.mark) = some other) :
    other = op := by
  cases op <;> simp_all [ofTexts?, mark]

end Comparison

namespace BoolExpr

variable {ls rest ts : List Lexeme} {e left right : BoolExpr} {unary : Nat}

/-! ### Attempts at comparisons -/

lemma comparison?_eq_some {α : Type} {operand : List Lexeme → Reading α}
    {op? : Token → Option Comparison} {op : Comparison} {left right : α} {n : Nat} :
    comparison? operand op? ts = some (op, left, right, n) ↔
      ∃ k l behind m, operand ts = ⟨.ok left, k⟩ ∧ ts.drop k = l :: behind ∧
        op? l.token = some op ∧ operand behind = ⟨.ok right, m⟩ ∧ n = k + 1 + m := by
  constructor
  · intro h
    unfold comparison? at h
    split at h
    · next a k hleft =>
      split at h
      · next l behind hdrop =>
        split at h
        · next o b m hop hright =>
          simp only [Option.some.injEq, Prod.mk.injEq] at h
          obtain ⟨rfl, rfl, rfl, rfl⟩ := h
          exact ⟨k, l, behind, m, hleft, hdrop, hop, hright, rfl⟩
        · simp at h
      · simp at h
    · simp at h
  · rintro ⟨k, l, behind, m, hleft, hdrop, hop, hright, rfl⟩
    simp [comparison?, hleft, hdrop, hop, hright]

lemma comparison?_append {α : Type} {operand : List Lexeme → Reading α}
    {op? : Token → Option Comparison} {op : Comparison} {left right : α} {l : Lexeme} {m : Nat}
    (hleft : operand (ls ++ l :: rest) = ⟨.ok left, ls.length⟩) (hop : op? l.token = some op)
    (hright : operand rest = ⟨.ok right, m⟩) :
    comparison? operand op? (ls ++ l :: rest) = some (op, left, right, ls.length + 1 + m) :=
  comparison?_eq_some.mpr ⟨ls.length, l, rest, m, hleft, by simp, hop, hright, rfl⟩

lemma comparison?_eq_none {α : Type} {operand : List Lexeme → Reading α}
    {op? : Token → Option Comparison}
    (h : ∀ left k l behind, operand ts = ⟨.ok left, k⟩ → ts.drop k = l :: behind →
      op? l.token = none ∨ ∀ right m, operand behind ≠ ⟨.ok right, m⟩) :
    comparison? operand op? ts = none := by
  rw [Option.eq_none_iff_forall_ne_some]
  rintro ⟨op, left, right, n⟩ hsome
  obtain ⟨k, l, behind, m, hleft, hdrop, hop, hright, -⟩ := comparison?_eq_some.mp hsome
  rcases h left k l behind hleft hdrop with hnone | hbad
  · simp [hnone] at hop
  · exact hbad right m hright

lemma textComparison?_of_none (h : comparison? StringExpr.read Comparison.ofTexts? ts = none) :
    textComparison? ts = none := by
  simp [textComparison?, h]

lemma numberComparison?_of_none (h : comparison? NumberExpr.read Comparison.ofNumbers? ts = none) :
    numberComparison? ts = none := by
  simp [numberComparison?, h]

end BoolExpr

/-! ### Conditions are no numbers -/

/-- Reading a number fails, or stops in front of a token that occurs in conditions only. -/
def NumberExpr.Stuck (ts : List Lexeme) : Prop :=
  ∀ value k, read ts = ⟨.ok value, k⟩ → ∃ l behind, ts.drop k = l :: behind ∧ l.token.isLogical

namespace NumberExpr.Stuck

variable {l : Lexeme} {rest inner ts : List Lexeme}

lemma of_start (h : ∀ value k, readFactor (l :: rest) ≠ ⟨.ok value, k⟩) (value : NumberExpr)
    (k : Nat) : read (l :: rest) ≠ ⟨.ok value, k⟩ := by
  rw [read, readTerm]
  rcases hfactor : readFactor (l :: rest) with ⟨_ | a, m⟩
  · simp
  · exact absurd hfactor (h a m)

lemma paren (hl : l.token = .mark .leftParen) (h : Stuck ts) (value : NumberExpr) (k : Nat) :
    read (l :: ts) ≠ ⟨.ok value, k⟩ := by
  refine of_start (fun a m => ?_) value k
  rw [readFactor]
  simp only [hl]
  rcases hread : read ts with ⟨_ | b, n⟩
  · simp
  · obtain ⟨o, behind, hdrop, ho⟩ := h b n hread
    have hclose : o.token ≠ .mark .rightParen := by
      rintro heq
      simp [heq, Token.isLogical, Expr.isLogical] at ho
    simp [hdrop, Reading.close, hclose, Reading.fail]

lemma number (e : NumberExpr) {ls : List Lexeme} (h : Spell ls e.tokens)
    (hl : l.token.isLogical = true) : Stuck (ls ++ l :: rest) := by
  intro value k hread
  obtain ⟨hsum, hterm⟩ := Token.no_arithmetic_of_isLogical hl
  rw [e.read_spell _ h (by simpa using hsum) (by simpa using hterm)] at hread
  simp only [Reading.mk.injEq, Except.ok.injEq] at hread
  obtain ⟨rfl, rfl⟩ := hread
  exact ⟨l, rest, by simp, hl⟩

/-- A written text reads as a number only if it is made of names, and then to its end. -/
lemma read_text (e : StringExpr) {ls : List Lexeme} (rest : List Lexeme) (hgrouped : e.Grouped)
    (h : Spell ls e.tokens) (hrest : ∀ l ∈ rest.head?, termOp? l.token = none) :
    (∀ value k, read (ls ++ rest) ≠ ⟨.ok value, k⟩) ∨
      ∃ value, read (ls ++ rest) = (readSum value rest).after ls.length := by
  induction e generalizing ls rest with
  | const value =>
    obtain ⟨l, rfl, hl⟩ := Spell.single h
    exact .inl (of_start (by simp [readFactor, hl, Reading.fail]))
  | var name =>
    have hsum := (NumberExpr.var name).isRead.sum rest hrest h
    exact .inr ⟨.var name, hsum⟩
  | concat left right ih _ =>
    obtain ⟨hleft, hright⟩ := hgrouped
    rw [StringExpr.tokens_concat hright] at h
    obtain ⟨la, o, lb, rfl, hla, ho, hlb⟩ := h.between
    rw [List.append_assoc, List.cons_append]
    rcases ih (o :: (lb ++ rest)) hleft hla (by simp [ho, termOp?]) with hbad | ⟨value, hread⟩
    · exact .inl hbad
    · -- up to here all operands are names, so the last one decides
      have hstep : readSum value (o :: (lb ++ rest)) =
          ((readTerm (lb ++ rest)).bind fun right k =>
            readSum (.binary .add value right) ((lb ++ rest).drop k)).after 1 := by
        conv_lhs => rw [readSum]
        simp [ho, sumOp?]
      rw [hread, hstep]
      cases right with
      | const text =>
        obtain ⟨l, rfl, hl⟩ := Spell.single hlb
        refine .inl fun value k => ?_
        simp [readTerm, readFactor, hl, Reading.fail]
      | var name =>
        have hterm := (NumberExpr.var name).isRead.term rest hlb
        rw [readProduct_of_none hrest] at hterm
        refine .inr ⟨.binary .add value (.var name), ?_⟩
        simp [hterm, Nat.add_comm]
      | concat _ _ => simp [StringExpr.level] at hright

lemma text (e : StringExpr) {ls : List Lexeme} (hgrouped : e.Grouped) (h : Spell ls e.tokens)
    (hl : l.token.isLogical = true) : Stuck (ls ++ l :: rest) := by
  obtain ⟨hsum, hterm⟩ := Token.no_arithmetic_of_isLogical hl
  rcases read_text e (l :: rest) hgrouped h (by simpa using hterm) with hbad | ⟨v, hread⟩
  · exact fun value k hread => absurd hread (hbad value k)
  · rw [readSum_of_none (by simpa using hsum)] at hread
    intro value k hvalue
    rw [hread] at hvalue
    obtain ⟨-, rfl⟩ : v = value ∧ ls.length = k := by simpa using hvalue
    exact ⟨l, rest, by simp, hl⟩

end NumberExpr.Stuck

namespace BoolExpr

open NumberExpr (Stuck)

variable {ls rest ts : List Lexeme} {e left right : BoolExpr} {unary : Nat}

lemma level_le (e : BoolExpr) : 1 ≤ e.level ∧ e.level ≤ 7 := by
  cases e with
  | logical op _ _ => cases op <;> simp [level, Connective.level]
  | _ => simp [level]

lemma exists_var (h : e.isVar = true) : ∃ name, e = var name := by
  cases e <;> simp_all [isVar]

lemma stuck_operand {l : Lexeme} {wanted : Nat} (hwanted : wanted ≤ 7)
    (stuck : ∀ {ls : List Lexeme} (rest : List Lexeme), e.isVar = false →
      Spell ls (e.tokens unary) → Stuck (ls ++ rest))
    (hl : l.token.isLogical = true) (h : Spell ls (within wanted e.level (e.tokens unary))) :
    Stuck (ls ++ l :: rest) := by
  by_cases hvar : e.isVar = true
  · obtain ⟨name, rfl⟩ := exists_var hvar
    rw [within_of_le _ (show wanted ≤ (var name).level from hwanted)] at h
    exact Stuck.number (.var name) h hl
  · rw [Bool.not_eq_true] at hvar
    by_cases hlevel : e.level < wanted
    · rw [within_of_lt _ hlevel] at h
      obtain ⟨o, inner, r, rfl, ho, hinner, -⟩ := h.inside
      have := Stuck.paren ho (stuck (r :: l :: rest) hvar hinner)
      intro value k hread
      exact absurd (by simpa using hread) (this value k)
    · rw [within_of_le _ (by omega)] at h
      exact stuck (l :: rest) hvar h

/-- **A written condition is no number.** Unless it is a bare name, reading it as a number fails or
stops inside it. -/
theorem stuck_spell (htyped : e.Typed) (rest : List Lexeme) (hvar : e.isVar = false)
    (h : Spell ls (e.tokens unary)) : Stuck (ls ++ rest) := by
  induction e generalizing ls rest with
  | const value =>
    obtain ⟨l, rfl, hl⟩ := Spell.single h
    intro number k hread
    refine absurd hread (Stuck.of_start (fun a m => ?_) number k)
    cases value <;> simp [NumberExpr.readFactor, hl, Reading.fail]
  | var name => simp [isVar] at hvar
  | not operand _ =>
    obtain ⟨l, tail, rfl, hl, -⟩ := Spell.cons h
    intro number k hread
    refine absurd hread (Stuck.of_start (fun a m => ?_) number k)
    simp [NumberExpr.readFactor, hl, Reading.fail]
  | logical op left right ih _ =>
    obtain ⟨la, l, lb, rfl, hla, hl, -⟩ := Spell.between h
    rw [List.append_assoc, List.cons_append]
    have hop : op.level ≤ 7 := by cases op <;> simp [Connective.level]
    exact stuck_operand hop (ih htyped.1) (hl ▸ Token.isLogical_connective op) hla
  | compareNumbers op left right =>
    obtain ⟨la, l, lb, rfl, hla, hl, -⟩ := Spell.between h
    rw [List.append_assoc, List.cons_append]
    rw [within_of_le _ left.level_bounds.1] at hla
    exact Stuck.number left hla (hl ▸ Token.isLogical_comparison op)
  | compareStrings op left right =>
    obtain ⟨la, l, lb, rfl, hla, hl, -⟩ := Spell.between h
    rw [List.append_assoc, List.cons_append]
    rw [within_of_le _ left.four_le_level] at hla
    exact Stuck.text left htyped.2.1 hla (hl ▸ Token.isLogical_comparison op)
  | compareBools op left right ih _ =>
    obtain ⟨la, l, lb, rfl, hla, hl, -⟩ := Spell.between h
    rw [List.append_assoc, List.cons_append]
    exact stuck_operand (Nat.le_refl 7) (ih htyped.2.1) (hl ▸ Token.isLogical_comparison op) hla

end BoolExpr

end QuestScript

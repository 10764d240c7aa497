import QuestScript.Expr.Reading
import QuestScript.Proofs.Expr.Spelling
import QuestScript.Proofs.Outcome

/-!
Written numbers are read back.

Each reader takes an operand of its level whatever follows: a factor is taken whole, a term goes on
with the product it starts, and a sum with the sum. The last two stop where no operator of their
level stands.
-/

namespace QuestScript

/-! ### Lists of lexemes with given tokens -/

/-- The lexemes have the given tokens, in places of their own. -/
def Lexeme.Spell (ls : List Lexeme) (ts : List Token) : Prop := ls.map token = ts

namespace Lexeme.Spell

variable {ls : List Lexeme} {t : Token} {ts us : List Token}

lemma nil (h : Spell ls []) : ls = [] := List.map_eq_nil_iff.mp h

lemma cons (h : Spell ls (t :: ts)) : ∃ l rest, ls = l :: rest ∧ l.token = t ∧ Spell rest ts :=
  List.map_eq_cons_iff.mp h

lemma append (h : Spell ls (ts ++ us)) : ∃ a b, ls = a ++ b ∧ Spell a ts ∧ Spell b us :=
  List.map_eq_append_iff.mp h

lemma single (h : Spell ls [t]) : ∃ l, ls = [l] ∧ l.token = t := by
  obtain ⟨l, rest, rfl, hl, hrest⟩ := h.cons
  obtain rfl := hrest.nil
  exact ⟨l, rfl, hl⟩

lemma mem {l : Lexeme} (h : Spell ls ts) (hl : l ∈ ls) : l.token ∈ ts := by
  rw [← h]
  exact List.mem_map_of_mem hl

lemma between (h : Spell ls (ts ++ t :: us)) :
    ∃ a l b, ls = a ++ l :: b ∧ Spell a ts ∧ l.token = t ∧ Spell b us := by
  obtain ⟨a, tail, rfl, ha, htail⟩ := h.append
  obtain ⟨l, b, rfl, hl, hb⟩ := htail.cons
  exact ⟨a, l, b, rfl, ha, hl, hb⟩

lemma inside (h : Spell ls (.mark .leftParen :: (ts ++ [.mark .rightParen]))) :
    ∃ l inner r, ls = l :: (inner ++ [r]) ∧ l.token = .mark .leftParen ∧ Spell inner ts ∧
      r.token = .mark .rightParen := by
  obtain ⟨l, tail, rfl, hl, htail⟩ := h.cons
  obtain ⟨inner, last, rfl, hinner, hlast⟩ := htail.append
  obtain ⟨r, rfl, hr⟩ := hlast.single
  exact ⟨l, inner, r, rfl, hl, hinner, hr⟩

end Lexeme.Spell

namespace Token

variable {wanted level : Nat} (ts : List Token)

lemma within_of_le (h : wanted ≤ level) : within wanted level ts = ts := by
  rw [within, if_neg (by omega)]

lemma within_of_lt (h : level < wanted) :
    within wanted level ts = .mark .leftParen :: (ts ++ [.mark .rightParen]) := by
  rw [within, if_pos h]

variable {P : Token → Prop} {ts}

lemma forall_mem_within (hl : P (.mark .leftParen)) (hr : P (.mark .rightParen))
    (h : ∀ t ∈ ts, P t) : ∀ t ∈ within wanted level ts, P t := by
  rw [within]
  split
  · simpa [or_imp, forall_and] using ⟨hl, h, hr⟩
  · exact h

lemma forall_mem_between {t : Token} {us : List Token} (hts : ∀ t ∈ ts, P t) (ht : P t)
    (hus : ∀ t ∈ us, P t) : ∀ u ∈ ts ++ t :: us, P u := by
  simpa [or_imp, forall_and] using ⟨hts, ht, hus⟩

end Token

@[simp] lemma Reading.close_cons {α : Type} (a : α) {l : Lexeme} (rest : List Lexeme)
    (h : l.token = .mark .rightParen) : Reading.close a (l :: rest) = ⟨.ok a, 1⟩ := by
  simp [Reading.close, h]

namespace NumberExpr

open Lexeme (Spell)
open Token (within within_of_le within_of_lt)

variable {left : NumberExpr} {ls rest : List Lexeme}

/-! ### Where the readers stop -/

lemma sumOp?_mark (op : Arithmetic) :
    sumOp? (.mark op.mark) = if op.level = 4 then some op else none := by
  cases op <;> rfl

lemma termOp?_mark (op : Arithmetic) :
    termOp? (.mark op.mark) = if op.level = 5 then some op else none := by
  cases op <;> rfl

lemma readSum_of_none (h : ∀ l ∈ rest.head?, sumOp? l.token = none) :
    readSum left rest = .pure left := by
  cases rest with
  | nil => simp [readSum]
  | cons l rest => simp [readSum, h l rfl]

lemma readProduct_of_none (h : ∀ l ∈ rest.head?, termOp? l.token = none) :
    readProduct left rest = .pure left := by
  cases rest with
  | nil => simp [readProduct]
  | cons l rest => simp [readProduct, h l rfl]

/-! ### What the readers take -/

lemma level_bounds (e : NumberExpr) : 4 ≤ e.level ∧ e.level ≤ 7 := by
  cases e with
  | binary op _ _ => cases op <;> simp [level, Arithmetic.level]
  | _ => simp [level]

/-- The readers of all levels take the expression as an operand of their level. -/
structure IsRead (e : NumberExpr) : Prop where
  factor : ∀ {ls : List Lexeme} (rest : List Lexeme), Spell ls (within 6 e.level e.tokens) →
    readFactor (ls ++ rest) = ⟨.ok e, ls.length⟩
  term : ∀ {ls : List Lexeme} (rest : List Lexeme), Spell ls (within 5 e.level e.tokens) →
    readTerm (ls ++ rest) = (readProduct e rest).after ls.length
  sum : ∀ {ls : List Lexeme} (rest : List Lexeme), (∀ l ∈ rest.head?, termOp? l.token = none) →
    Spell ls (within 4 e.level e.tokens) → read (ls ++ rest) = (readSum e rest).after ls.length

variable {e : NumberExpr}

lemma readFactor_of_read (hlevel : e.level < 6)
    (sum : ∀ {ls : List Lexeme} (rest : List Lexeme), (∀ l ∈ rest.head?, termOp? l.token = none) →
      Spell ls (within 4 e.level e.tokens) → read (ls ++ rest) = (readSum e rest).after ls.length)
    (rest : List Lexeme) (h : Spell ls (within 6 e.level e.tokens)) :
    readFactor (ls ++ rest) = ⟨.ok e, ls.length⟩ := by
  rw [within_of_lt _ hlevel] at h
  obtain ⟨l, inner, r, rfl, hl, hinner, hr⟩ := h.inside
  rw [← within_of_le e.tokens (level_bounds e).1] at hinner
  have hread := sum (r :: rest) (by simp [hr, termOp?]) hinner
  rw [readSum_of_none (by simp [hr, sumOp?])] at hread
  have hlist : l :: (inner ++ [r]) ++ rest = l :: (inner ++ r :: rest) := by simp
  rw [hlist, readFactor]
  simp [hl, hread, hr]
  omega

lemma readTerm_of_readFactor (hlevel : e.level ≠ 5)
    (factor : ∀ {ls : List Lexeme} (rest : List Lexeme), Spell ls (within 6 e.level e.tokens) →
      readFactor (ls ++ rest) = ⟨.ok e, ls.length⟩)
    (rest : List Lexeme) (h : Spell ls (within 5 e.level e.tokens)) :
    readTerm (ls ++ rest) = (readProduct e rest).after ls.length := by
  have hsame : within 5 e.level e.tokens = within 6 e.level e.tokens := by
    unfold Token.within
    congr 1
    simp only [eq_iff_iff]
    omega
  rw [readTerm, factor rest (hsame ▸ h)]
  simp

lemma read_of_readTerm (hlevel : e.level ≠ 4)
    (term : ∀ {ls : List Lexeme} (rest : List Lexeme), Spell ls (within 5 e.level e.tokens) →
      readTerm (ls ++ rest) = (readProduct e rest).after ls.length)
    (rest : List Lexeme) (hrest : ∀ l ∈ rest.head?, termOp? l.token = none)
    (h : Spell ls (within 4 e.level e.tokens)) :
    read (ls ++ rest) = (readSum e rest).after ls.length := by
  have hsame : within 4 e.level e.tokens = within 5 e.level e.tokens := by
    unfold Token.within
    congr 1
    simp only [eq_iff_iff]
    omega
  rw [read, term rest (hsame ▸ h), readProduct_of_none hrest]
  simp

namespace IsRead

lemma of_factor (hlevel : 6 ≤ e.level)
    (factor : ∀ {ls : List Lexeme} (rest : List Lexeme), Spell ls (within 6 e.level e.tokens) →
      readFactor (ls ++ rest) = ⟨.ok e, ls.length⟩) : e.IsRead where
  factor := factor
  term := readTerm_of_readFactor (by omega) factor
  sum := read_of_readTerm (by omega) (readTerm_of_readFactor (by omega) factor)

lemma of_term (hlevel : e.level = 5)
    (term : ∀ {ls : List Lexeme} (rest : List Lexeme), Spell ls (within 5 e.level e.tokens) →
      readTerm (ls ++ rest) = (readProduct e rest).after ls.length) : e.IsRead where
  factor := readFactor_of_read (by omega) (read_of_readTerm (by omega) term)
  term := term
  sum := read_of_readTerm (by omega) term

lemma of_sum (hlevel : e.level = 4)
    (sum : ∀ {ls : List Lexeme} (rest : List Lexeme), (∀ l ∈ rest.head?, termOp? l.token = none) →
      Spell ls (within 4 e.level e.tokens) → read (ls ++ rest) = (readSum e rest).after ls.length) :
    e.IsRead where
  factor := readFactor_of_read (by omega) sum
  term := readTerm_of_readFactor (by omega) (readFactor_of_read (by omega) sum)
  sum := sum

variable {a b : NumberExpr}

lemma const (value : Binary64) : (NumberExpr.const value).IsRead := by
  refine of_factor (by simp [level]) fun {ls} rest h => ?_
  obtain ⟨l, rfl, hl⟩ := Spell.single h
  simp [readFactor, hl]

lemma var (name : String) : (NumberExpr.var name).IsRead := by
  refine of_factor (by simp [level]) fun {ls} rest h => ?_
  obtain ⟨l, rfl, hl⟩ := Spell.single h
  simp [readFactor, hl]

lemma negate (ha : a.IsRead) : (NumberExpr.negate a).IsRead := by
  refine of_factor (by simp [level]) fun {ls} rest h => ?_
  obtain ⟨l, operand, rfl, hl, hoperand⟩ := Spell.cons h
  have hread := ha.factor rest hoperand
  rw [List.cons_append, readFactor]
  simp [hl, hread]
  omega

lemma product {op : Arithmetic} (hop : op.level = 5) (ha : a.IsRead) (hb : b.IsRead) :
    (NumberExpr.binary op a b).IsRead := by
  refine of_term hop fun {ls} rest h => ?_
  rw [level, within_of_le _ (by omega), tokens, hop] at h
  obtain ⟨la, o, lb, rfl, hla, ho, hlb⟩ := h.between
  have hleft := ha.term (o :: (lb ++ rest)) hla
  have hright := hb.factor rest hlb
  have hstep : readProduct a (o :: (lb ++ rest)) =
      (readProduct (.binary op a b) rest).after (1 + lb.length) := by
    conv_lhs => rw [readProduct]
    simp [ho, termOp?_mark, hop, hright]
  rw [List.append_assoc, List.cons_append, hleft, hstep]
  simp [Nat.add_comm]

lemma sumOf {op : Arithmetic} (hop : op.level = 4) (ha : a.IsRead) (hb : b.IsRead) :
    (NumberExpr.binary op a b).IsRead := by
  refine of_sum hop fun {ls} rest hrest h => ?_
  rw [level, within_of_le _ (by omega), tokens, hop] at h
  obtain ⟨la, o, lb, rfl, hla, ho, hlb⟩ := h.between
  have hleft := ha.sum (o :: (lb ++ rest)) (by simp [ho, termOp?_mark, hop]) hla
  have hright := hb.term rest hlb
  rw [readProduct_of_none hrest] at hright
  have hstep : readSum a (o :: (lb ++ rest)) =
      (readSum (.binary op a b) rest).after (1 + lb.length) := by
    conv_lhs => rw [readSum]
    simp [ho, sumOp?_mark, hop, hright]
  rw [List.append_assoc, List.cons_append, hleft, hstep]
  simp [Nat.add_comm]

end IsRead

/-- Every number is read back at every level. -/
theorem isRead (e : NumberExpr) : e.IsRead := by
  induction e with
  | const value => exact .const value
  | var name => exact .var name
  | negate operand ih => exact .negate ih
  | binary op left right ihl ihr =>
    have hlevel : op.level = 4 ∨ op.level = 5 := by cases op <;> simp [Arithmetic.level]
    rcases hlevel with h | h
    · exact .sumOf h ihl ihr
    · exact .product h ihl ihr

/-- **Numbers round-trip.** The tokens of a number read as that number, in front of everything that
is no arithmetic operator. -/
theorem read_spell (e : NumberExpr) (rest : List Lexeme) (h : Spell ls e.tokens)
    (hsum : ∀ l ∈ rest.head?, sumOp? l.token = none)
    (hterm : ∀ l ∈ rest.head?, termOp? l.token = none) :
    read (ls ++ rest) = ⟨.ok e, ls.length⟩ := by
  rw [← within_of_le e.tokens (level_bounds e).1] at h
  rw [e.isRead.sum rest hterm h, readSum_of_none hsum]
  simp

/-! ### The tokens of numbers -/

/-- Whether the token may stand in a number. -/
def admits : Token → Bool
  | .number _ | .name _ => true
  | .mark m => m ∈ [.plus, .minus, .star, .slash, .doubleSlash, .percent, .leftParen, .rightParen]
  | _ => false

lemma admits_of_mem (e : NumberExpr) : ∀ t ∈ e.tokens, admits t = true := by
  induction e with
  | const value => simp [tokens, admits]
  | var name => simp [tokens, admits]
  | negate operand ih =>
    have h : ∀ t ∈ within 6 operand.level operand.tokens, admits t = true :=
      Token.forall_mem_within rfl rfl ih
    simpa [tokens, admits] using h
  | binary op left right ihl ihr =>
    exact Token.forall_mem_between (Token.forall_mem_within rfl rfl ihl) (by cases op <;> rfl)
      (Token.forall_mem_within rfl rfl ihr)

end NumberExpr

end QuestScript

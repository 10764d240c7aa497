import QuestScript.Proofs.Expr.Value

/-!
What expressions take.

Readers of expressions take only what may stand in a value, also when they fail: no separator, no
end of a line, and no word that belongs to a conditional.
-/

namespace QuestScript

/-- The list has so many lexemes, and the property holds of the first ones. -/
structure Lexeme.Takes (P : Lexeme → Prop) (n : Nat) (ts : List Lexeme) : Prop where
  le : n ≤ ts.length
  forall_mem : ∀ l ∈ ts.take n, P l

namespace Lexeme.Takes

variable {P : Lexeme → Prop} {ts rest : List Lexeme} {l : Lexeme} {m n : Nat}

lemma zero : Takes P 0 ts := ⟨Nat.zero_le _, by simp⟩

lemma cons (hl : P l) (h : Takes P n rest) : Takes P (1 + n) (l :: rest) := by
  rw [Nat.add_comm]
  refine ⟨Nat.succ_le_succ h.le, fun o ho => ?_⟩
  rw [List.take_succ_cons] at ho
  rcases List.mem_cons.mp ho with rfl | ho
  · exact hl
  · exact h.forall_mem o ho

lemma append (h : Takes P m ts) (hnext : Takes P n (ts.drop m)) : Takes P (m + n) ts := by
  have hle := h.le
  have hmore := hnext.le
  rw [List.length_drop] at hmore
  refine ⟨by omega, fun l hl => ?_⟩
  rw [List.take_add, List.mem_append] at hl
  exact hl.elim (h.forall_mem l) (hnext.forall_mem l)

end Lexeme.Takes

/-- The reading of a list takes only lexemes of the list, and those may stand in a value. -/
def Reading.Inside {α : Type} (ts : List Lexeme) (r : Reading α) : Prop :=
  Lexeme.Takes (fun l => Expr.admits l.token = true) r.taken ts

namespace Reading

variable {α β : Type} {r : Reading α} {ts rest : List Lexeme} {l : Lexeme}

@[simp] lemma inside_pure (a : α) : (pure a).Inside ts := .zero

@[simp] lemma inside_fail (wanted : Wanted) : (fail wanted : Reading α).Inside ts := .zero

lemma Inside.after (hl : Expr.admits l.token = true) (h : r.Inside rest) :
    (r.after 1).Inside (l :: rest) := .cons hl h

lemma Inside.map (h : r.Inside ts) (f : α → β) : (r.map f).Inside ts := h

lemma Inside.bind {next : α → Nat → Reading β} (h : r.Inside ts)
    (hnext : ∀ a, (next a r.taken).Inside (ts.drop r.taken)) : (r.bind next).Inside ts := by
  rcases r with ⟨wanted | a, k⟩
  · exact h
  · exact .append h (hnext a)

lemma inside_close (a : α) (ts : List Lexeme) : (close a ts).Inside ts := by
  rcases ts with _ | ⟨l, rest⟩
  · exact inside_fail _
  · simp only [close]
    split
    · next hl => exact (inside_pure a).after (by simp [hl, Expr.admits, Expr.endsValue])
    · exact inside_fail _

end Reading

open Reading (inside_pure inside_fail inside_close)

lemma Expr.admits_of_mark {l : Lexeme} {m : Mark} (h : l.token = .mark m)
    (hm : endsValue m = false) : admits l.token = true := by
  simp [h, admits, hm]

/-! ### Numbers and texts -/

namespace NumberExpr

lemma admits_of_sumOp? {t : Token} {op : Arithmetic} (h : sumOp? t = some op) :
    Expr.admits t = true := by
  unfold sumOp? at h
  split at h <;> simp_all [Expr.admits, Expr.endsValue]

lemma admits_of_termOp? {t : Token} {op : Arithmetic} (h : termOp? t = some op) :
    Expr.admits t = true := by
  unfold termOp? at h
  split at h <;> simp_all [Expr.admits, Expr.endsValue]

/-- Reading a number takes what may stand in a value. -/
theorem inside_read (ts : List Lexeme) : (read ts).Inside ts := by
  refine (read.mutual_induct (fun ts => (read ts).Inside ts)
    (fun left ts => (readSum left ts).Inside ts) (fun ts => (readTerm ts).Inside ts)
    (fun left ts => (readProduct left ts).Inside ts) (fun ts => (readFactor ts).Inside ts)
    ?sum ?sumGoesOn ?sumEnds ?sumAtEnd ?term ?termGoesOn ?termEnds ?termAtEnd ?minus ?plus ?number
    ?name ?parens ?noFactor ?factorAtEnd).1 ts
  case sum =>
    intro ts hterm hsum
    rw [read]
    exact hterm.bind fun left => hsum left _
  case sumGoesOn =>
    intro left l rest op hop hterm hsum
    simp only [readSum, hop]
    exact (hterm.bind fun right => hsum right _).after (admits_of_sumOp? hop)
  case sumEnds =>
    intro left l rest hop
    simp only [readSum, hop]
    exact inside_pure left
  case sumAtEnd =>
    intro left
    rw [readSum]
    exact inside_pure left
  case term =>
    intro ts hfactor hproduct
    rw [readTerm]
    exact hfactor.bind fun left => hproduct left _
  case termGoesOn =>
    intro left l rest op hop hfactor hproduct
    simp only [readProduct, hop]
    exact (hfactor.bind fun right => hproduct right _).after (admits_of_termOp? hop)
  case termEnds =>
    intro left l rest hop
    simp only [readProduct, hop]
    exact inside_pure left
  case termAtEnd =>
    intro left
    rw [readProduct]
    exact inside_pure left
  case minus =>
    intro l rest hl hfactor
    simp only [readFactor, hl]
    exact (hfactor.map negate).after (Expr.admits_of_mark hl rfl)
  case plus =>
    intro l rest hl hfactor
    simp only [readFactor, hl]
    exact hfactor.after (Expr.admits_of_mark hl rfl)
  case number =>
    intro l rest value hl
    simp only [readFactor, hl]
    exact (inside_pure _).after (by simp [hl, Expr.admits])
  case name =>
    intro l rest name hl
    simp only [readFactor, hl]
    exact (inside_pure _).after (by simp [hl, Expr.admits])
  case parens =>
    intro l rest hl hread
    simp only [readFactor, hl]
    exact (hread.bind fun inner => inside_close inner _).after (Expr.admits_of_mark hl rfl)
  case noFactor =>
    intro l rest hminus hplus hnumber hname hparen
    rw [readFactor]
    split <;> simp_all
  case factorAtEnd =>
    rw [readFactor]
    exact inside_fail _

end NumberExpr

namespace StringExpr

lemma inside_readOperand (ts : List Lexeme) : (readOperand ts).Inside ts := by
  rcases ts with _ | ⟨l, rest⟩
  · exact inside_fail _
  · simp only [readOperand]
    split
    · next hl => exact (inside_pure _).after (by simp [hl, Expr.admits])
    · next hl => exact (inside_pure _).after (by simp [hl, Expr.admits])
    · exact inside_fail _

lemma inside_readJoined (left : StringExpr) (ts : List Lexeme) :
    (readJoined left ts).Inside ts := by
  fun_induction readJoined left ts with
  | case1 left l rest hl ih =>
    exact ((inside_readOperand rest).bind fun right => ih right _).after
      (Expr.admits_of_mark hl rfl)
  | case2 left l rest hl => exact inside_pure left
  | case3 left => exact inside_pure left

/-- Reading a text takes what may stand in a value. -/
theorem inside_read (ts : List Lexeme) : (read ts).Inside ts :=
  (inside_readOperand ts).bind fun left => inside_readJoined left _

end StringExpr

/-! ### Conditions and values -/

namespace BoolExpr

variable {ts : List Lexeme} {t : Token} {op : Comparison}

lemma admits_of_ofConditions? (h : Comparison.ofConditions? t = some op) :
    Expr.admits t = true := by
  rw [(ofConditions?_eq_some h).2]
  cases op <;> rfl

lemma admits_of_disjunctionOp? {op : Connective} (h : disjunctionOp? t = some op) :
    Expr.admits t = true :=
  Expr.admits_of_isLogical (isLogical_of_disjunctionOp? h)

lemma admits_of_ofTexts? (h : Comparison.ofTexts? t = some op) : Expr.admits t = true := by
  unfold Comparison.ofTexts? at h
  split at h <;> simp_all [Expr.admits, Expr.endsValue]

lemma admits_of_ofNumbers? (h : Comparison.ofNumbers? t = some op) : Expr.admits t = true := by
  unfold Comparison.ofNumbers? at h
  split at h <;> simp_all [Expr.admits, Expr.endsValue]

lemma inside_of_comparison? {α : Type} {operand : List Lexeme → Reading α}
    {op? : Token → Option Comparison} {left right : α} {n : Nat} (e : BoolExpr)
    (hoperand : ∀ us, (operand us).Inside us)
    (hop : ∀ {t : Token} {op : Comparison}, op? t = some op → Expr.admits t = true)
    (h : comparison? operand op? ts = some (op, left, right, n)) :
    (⟨.ok e, n⟩ : Reading BoolExpr).Inside ts := by
  obtain ⟨k, o, behind, m, hleft, hdrop, hsome, hright, rfl⟩ := comparison?_eq_some.mp h
  have hfirst : (⟨.ok left, k⟩ : Reading α).Inside ts := hleft ▸ hoperand ts
  have hsecond : ((⟨.ok right, m⟩ : Reading α).after 1).Inside (ts.drop k) :=
    hdrop ▸ (hright ▸ hoperand behind).after (hop hsome)
  have hboth : (Reading.bind ⟨.ok left, k⟩ fun _ _ =>
      (⟨.ok e, m⟩ : Reading BoolExpr).after 1).Inside ts :=
    hfirst.bind fun _ => hsecond
  simpa [Nat.add_assoc] using hboth

lemma inside_of_attempt {e : BoolExpr} {n : Nat}
    (h : (textComparison? ts).or (numberComparison? ts) = some (e, n)) :
    (⟨.ok e, n⟩ : Reading BoolExpr).Inside ts := by
  rcases Option.or_eq_some_iff.mp h with h | ⟨-, h⟩
  · unfold textComparison? at h
    split at h
    · next hsome =>
      split at h
      · obtain ⟨-, rfl⟩ := Prod.mk.inj (Option.some.inj h)
        exact inside_of_comparison? _ StringExpr.inside_read admits_of_ofTexts? hsome
      · simp at h
    · simp at h
  · unfold numberComparison? at h
    split at h
    · next hsome =>
      obtain ⟨-, rfl⟩ := Prod.mk.inj (Option.some.inj h)
      exact inside_of_comparison? _ NumberExpr.inside_read admits_of_ofNumbers? hsome
    · simp at h

/-- Reading a condition takes what may stand in a value. -/
theorem inside_read (ts : List Lexeme) : (read ts).Inside ts := by
  refine (read.mutual_induct (fun ts => (read ts).Inside ts)
    (fun left ts => (readDisjunction left ts).Inside ts) (fun ts => (readConjunction ts).Inside ts)
    (fun left ts => (readConjuncts left ts).Inside ts) (fun ts => (readTerm ts).Inside ts)
    (fun left ts => (readEquality left ts).Inside ts) (fun ts => (readPrimary ts).Inside ts)
    ?disjunction ?disjunctionGoesOn ?disjunctionEnds ?disjunctionAtEnd ?conjunction
    ?conjunctionGoesOn ?conjunctionEnds ?conjunctionAtEnd ?notTerm ?attempt ?plain ?termAtEnd
    ?equality ?equalityEnds ?equalityAtEnd ?isTrue ?isFalse ?name ?notPrimary ?parens ?noPrimary
    ?primaryAtEnd).1 ts
  case disjunction =>
    intro ts hconjunction hdisjunction
    rw [read]
    exact hconjunction.bind fun left => hdisjunction left _
  case disjunctionGoesOn =>
    intro left l rest op hop hconjunction hdisjunction
    simp only [readDisjunction, hop]
    exact (hconjunction.bind fun right => hdisjunction right _).after
      (admits_of_disjunctionOp? hop)
  case disjunctionEnds =>
    intro left l rest hop
    simp only [readDisjunction, hop]
    exact inside_pure left
  case disjunctionAtEnd =>
    intro left
    rw [readDisjunction]
    exact inside_pure left
  case conjunction =>
    intro ts hterm hconjuncts
    rw [readConjunction]
    exact hterm.bind fun left => hconjuncts left _
  case conjunctionGoesOn =>
    intro left l rest hl hterm hconjuncts
    simp only [readConjuncts, if_pos hl]
    exact (hterm.bind fun right => hconjuncts right _).after (Expr.admits_of_mark hl rfl)
  case conjunctionEnds =>
    intro left l rest hl
    simp only [readConjuncts, if_neg hl]
    exact inside_pure left
  case conjunctionAtEnd =>
    intro left
    rw [readConjuncts]
    exact inside_pure left
  case notTerm =>
    intro l rest hl hterm
    simp only [readTerm, if_pos hl]
    exact (hterm.map BoolExpr.not).after (Expr.admits_of_mark hl rfl)
  case attempt =>
    intro l rest hl e n hattempt
    simp only [readTerm, if_neg hl, hattempt]
    exact inside_of_attempt hattempt
  case plain =>
    intro l rest hl hattempt hprimary hequality
    simp only [readTerm, if_neg hl, hattempt]
    exact hprimary.bind fun left => hequality left _
  case termAtEnd =>
    rw [readTerm]
    exact inside_fail _
  case equality =>
    intro left l rest op hop hprimary
    simp only [readEquality, hop]
    exact (hprimary.map _).after (admits_of_ofConditions? hop)
  case equalityEnds =>
    intro left l rest hop
    simp only [readEquality, hop]
    exact inside_pure left
  case equalityAtEnd =>
    intro left
    rw [readEquality]
    exact inside_pure left
  case isTrue =>
    intro l rest hl
    simp only [readPrimary, hl]
    exact (inside_pure _).after (Expr.admits_of_mark hl rfl)
  case isFalse =>
    intro l rest hl
    simp only [readPrimary, hl]
    exact (inside_pure _).after (Expr.admits_of_mark hl rfl)
  case name =>
    intro l rest name hl
    simp only [readPrimary, hl]
    exact (inside_pure _).after (by simp [hl, Expr.admits])
  case notPrimary =>
    intro l rest hl hprimary
    simp only [readPrimary, hl]
    exact (hprimary.map BoolExpr.not).after (Expr.admits_of_mark hl rfl)
  case parens =>
    intro l rest hl hread
    simp only [readPrimary, hl]
    exact (hread.bind fun inner => inside_close inner _).after (Expr.admits_of_mark hl rfl)
  case noPrimary =>
    intro l rest htrue hfalse hname hnot hparen
    rw [readPrimary]
    split <;> simp_all
  case primaryAtEnd =>
    rw [readPrimary]
    exact inside_fail _

end BoolExpr

/-- **Expressions stay in their statement.** Reading a value takes only what may stand in one. -/
theorem Expr.inside_read (ts : List Lexeme) : (read ts).Inside ts := by
  unfold read
  split
  · exact (BoolExpr.inside_read ts).map _
  · exact (NumberExpr.inside_read ts).map _
  · exact (StringExpr.inside_read ts).map _

end QuestScript

import QuestScript.Proofs.Expr.Extent

/-!
Expressions are read locally.

A reader of expressions looks at nothing but tokens, and at none from where a value has to end. So
it reads the same from two lists that coincide up to there, and leaves lists that still coincide.
-/

namespace QuestScript

open QuestScript.Expr (Ended admits)

namespace Expr

lemma eq_none_of_not_admits {γ : Type} {op? : Token → Option γ} {t : Token}
    (hop : ∀ {op : γ}, op? t = some op → admits t = true) (h : admits t = false) : op? t = none :=
  Option.eq_none_iff_forall_ne_some.mpr fun op heq => by simp [hop heq] at h

lemma ne_mark_of_not_admits {t : Token} {m : Mark} (hm : endsValue m = false)
    (h : admits t = false) : t ≠ .mark m := by
  rintro rfl
  simp [admits, hm] at h

end Expr

variable {l l' : Lexeme} {rest rest' ts ts' us : List Lexeme} {α β : Type}

/-- Both lists have the same tokens up to where a value has to end. -/
inductive Lexeme.Coincide : List Lexeme → List Lexeme → Prop
  | ended {ts ts' : List Lexeme} (h : Ended ts) (h' : Ended ts') : Coincide ts ts'
  | cons {l l' : Lexeme} {rest rest' : List Lexeme} (hl : l'.token = l.token)
      (h : Coincide rest rest') : Coincide (l :: rest) (l' :: rest')

namespace Lexeme.Coincide

lemma exists_cons (h : Coincide (l :: rest) ts') (hl : admits l.token = true) :
    ∃ l' rest', ts' = l' :: rest' ∧ l'.token = l.token ∧ Coincide rest rest' := by
  cases h with
  | ended h _ => simp [h l rfl] at hl
  | cons heq h => exact ⟨_, _, rfl, heq, h⟩

lemma ended_of_nil (h : Coincide [] ts') : Ended ts' := by
  cases h with
  | ended _ h' => exact h'

lemma forall_head? {p : Token → Prop} (h : Coincide ts ts') (hp : ∀ t, admits t = false → p t)
    (hts : ∀ l ∈ ts.head?, p l.token) : ∀ l ∈ ts'.head?, p l.token := by
  intro l hl
  cases h with
  | ended _ h' => exact hp _ (h' l hl)
  | cons heq _ =>
    obtain rfl := Option.some.inj hl
    exact heq ▸ hts _ rfl

lemma drop {n : Nat} (h : Coincide ts ts') (hn : Takes (fun l => admits l.token = true) n ts) :
    Coincide (ts.drop n) (ts'.drop n) := by
  induction n generalizing ts ts' with
  | zero => exact h
  | succ n ih =>
    rcases ts with _ | ⟨l, rest⟩
    · exact absurd hn.le (by simp)
    obtain ⟨l', rest', rfl, -, hrest⟩ := h.exists_cons (hn.forall_mem l (by simp))
    exact ih hrest ⟨by simpa using hn.le, fun o ho => hn.forall_mem o (by simp [ho])⟩

lemma append (us : List Lexeme) (h : Coincide ts ts') : Coincide (us ++ ts) (us ++ ts') := by
  induction us with
  | nil => exact h
  | cons l us ih => exact .cons rfl ih

lemma of_tokens (h : ts'.map Lexeme.token = ts.map Lexeme.token) : Coincide ts ts' := by
  induction ts generalizing ts' with
  | nil =>
    rw [List.map_eq_nil_iff.mp h]
    exact .ended (by simp [Ended]) (by simp [Ended])
  | cons l rest ih =>
    obtain ⟨l', rest', rfl, hl, hrest⟩ := List.map_eq_cons_iff.mp h
    exact .cons hl (ih hrest)

end Lexeme.Coincide

open Lexeme (Coincide)

namespace Reading

variable {r r' : Reading α}

/-- The reading is the same for both lists, and what it leaves of them coincides. -/
structure Agree (ts ts' : List Lexeme) (r r' : Reading α) : Prop where
  same : r' = r
  rest : Coincide (ts.drop r.taken) (ts'.drop r.taken)

/-- The list is read as all lists are that coincide with it. -/
def Local (read : List Lexeme → Reading α) (ts : List Lexeme) : Prop :=
  ∀ ts', Coincide ts ts' → Agree ts ts' (read ts) (read ts')

namespace Agree

lemma pure (h : Coincide ts ts') (a : α) : Agree ts ts' (.pure a) (.pure a) := ⟨rfl, h⟩

lemma fail (h : Coincide ts ts') (wanted : Wanted) :
    Agree ts ts' (.fail wanted : Reading α) (.fail wanted) := ⟨rfl, h⟩

lemma after (h : Agree rest rest' r r') :
    Agree (l :: rest) (l' :: rest') (r.after 1) (r'.after 1) := by
  refine ⟨by rw [h.same], ?_⟩
  rw [taken_after, Nat.add_comm, List.drop_succ_cons, List.drop_succ_cons]
  exact h.rest

lemma map (h : Agree ts ts' r r') (f : α → β) : Agree ts ts' (r.map f) (r'.map f) :=
  ⟨by rw [h.same], h.rest⟩

lemma bind {next next' : α → Nat → Reading β} (h : Agree ts ts' r r')
    (hnext : ∀ a, Coincide (ts.drop r.taken) (ts'.drop r.taken) →
      Agree (ts.drop r.taken) (ts'.drop r.taken) (next a r.taken) (next' a r.taken)) :
    Agree ts ts' (r.bind next) (r'.bind next') := by
  obtain ⟨rfl, hrest⟩ := h
  rcases r' with ⟨wanted | a, k⟩
  · exact ⟨rfl, hrest⟩
  · obtain ⟨hsame, hmore⟩ := hnext a hrest
    refine ⟨by rw [mk_ok_bind, mk_ok_bind, hsame], ?_⟩
    rwa [mk_ok_bind, taken_after, ← List.drop_drop, ← List.drop_drop]

end Agree

lemma Local.of_stop {p : Token → Prop} {read : List Lexeme → Reading α} {stop : Except Wanted α}
    (hp : ∀ t, admits t = false → p t)
    (hread : ∀ us : List Lexeme, (∀ l ∈ us.head?, p l.token) → read us = ⟨stop, 0⟩)
    (hts : ∀ l ∈ ts.head?, p l.token) : Local read ts := by
  intro ts' h
  rw [hread ts hts, hread ts' (h.forall_head? hp hts)]
  exact ⟨rfl, h⟩

lemma close_of_ne (a : α) (h : ∀ l ∈ ts.head?, l.token ≠ .mark .rightParen) :
    close a ts = .fail .closing := by
  rcases ts with _ | ⟨l, rest⟩
  · rfl
  · simp [close, h l rfl]

lemma local_close (a : α) (ts : List Lexeme) : Local (close a) ts := by
  by_cases hts : ∀ l ∈ ts.head?, l.token ≠ .mark .rightParen
  · exact .of_stop (fun t => Expr.ne_mark_of_not_admits rfl) (fun us => close_of_ne a) hts
  · obtain ⟨l, rest, rfl, hl⟩ : ∃ l rest, ts = l :: rest ∧ l.token = .mark .rightParen := by
      rcases ts with _ | ⟨l, rest⟩
      · simp at hts
      · exact ⟨l, rest, rfl, by simpa using hts⟩
    intro ts' h
    obtain ⟨l', rest', rfl, hl', hrest⟩ := h.exists_cons (Expr.admits_of_mark hl rfl)
    simp only [close, hl', hl, if_true]
    exact (Agree.pure hrest a).after

end Reading

open Reading (Agree Local local_close)

/-! ### Numbers and texts -/

namespace NumberExpr

lemma readFactor_of_ended (h : Ended ts) : readFactor ts = .fail .number := by
  rcases ts with _ | ⟨l, rest⟩
  · rw [readFactor]
  · have hl : Expr.admits l.token = false := h l rfl
    rw [readFactor]
    split <;> simp_all [Expr.admits, Expr.endsValue]

/-- Numbers are read locally. -/
theorem local_read (ts : List Lexeme) : Local read ts := by
  have hsum (left : NumberExpr) {ts : List Lexeme} (h : ∀ l ∈ ts.head?, sumOp? l.token = none) :
      Local (readSum left) ts :=
    .of_stop (fun _ => Expr.eq_none_of_not_admits admits_of_sumOp?) (fun _ => readSum_of_none) h
  have hproduct (left : NumberExpr) {ts : List Lexeme}
      (h : ∀ l ∈ ts.head?, termOp? l.token = none) : Local (readProduct left) ts :=
    .of_stop (fun _ => Expr.eq_none_of_not_admits admits_of_termOp?) (fun _ => readProduct_of_none)
      h
  refine (read.mutual_induct (Local read) (fun left => Local (readSum left)) (Local readTerm)
    (fun left => Local (readProduct left)) (Local readFactor)
    ?sum ?sumGoesOn ?sumEnds ?sumAtEnd ?term ?termGoesOn ?termEnds ?termAtEnd ?minus ?plus ?number
    ?name ?parens ?noFactor ?factorAtEnd).1 ts
  case sum =>
    intro ts hterm hsum ts' h
    rw [read, read]
    exact (hterm ts' h).bind fun left hmore => hsum left _ _ hmore
  case sumGoesOn =>
    intro left l rest op hop hterm hsum ts' h
    obtain ⟨l', rest', rfl, hl, hrest⟩ := h.exists_cons (admits_of_sumOp? hop)
    simp only [readSum, hl, hop]
    exact ((hterm rest' hrest).bind fun right hmore => hsum right _ _ hmore).after
  case sumEnds =>
    intro left l rest hop
    exact hsum left (by simpa using hop)
  case sumAtEnd => exact fun left => hsum left (by simp)
  case term =>
    intro ts hfactor hproduct ts' h
    rw [readTerm, readTerm]
    exact (hfactor ts' h).bind fun left hmore => hproduct left _ _ hmore
  case termGoesOn =>
    intro left l rest op hop hfactor hproduct ts' h
    obtain ⟨l', rest', rfl, hl, hrest⟩ := h.exists_cons (admits_of_termOp? hop)
    simp only [readProduct, hl, hop]
    exact ((hfactor rest' hrest).bind fun right hmore => hproduct right _ _ hmore).after
  case termEnds =>
    intro left l rest hop
    exact hproduct left (by simpa using hop)
  case termAtEnd => exact fun left => hproduct left (by simp)
  case minus =>
    intro l rest hminus hfactor ts' h
    obtain ⟨l', rest', rfl, hl, hrest⟩ := h.exists_cons (Expr.admits_of_mark hminus rfl)
    simp only [readFactor, hl, hminus]
    exact ((hfactor rest' hrest).map negate).after
  case plus =>
    intro l rest hplus hfactor ts' h
    obtain ⟨l', rest', rfl, hl, hrest⟩ := h.exists_cons (Expr.admits_of_mark hplus rfl)
    simp only [readFactor, hl, hplus]
    exact (hfactor rest' hrest).after
  case number =>
    intro l rest value hnumber ts' h
    obtain ⟨l', rest', rfl, hl, hrest⟩ := h.exists_cons (by simp [hnumber, Expr.admits])
    simp only [readFactor, hl, hnumber]
    exact (Agree.pure hrest _).after
  case name =>
    intro l rest name hname ts' h
    obtain ⟨l', rest', rfl, hl, hrest⟩ := h.exists_cons (by simp [hname, Expr.admits])
    simp only [readFactor, hl, hname]
    exact (Agree.pure hrest _).after
  case parens =>
    intro l rest hparen hread ts' h
    obtain ⟨l', rest', rfl, hl, hrest⟩ := h.exists_cons (Expr.admits_of_mark hparen rfl)
    simp only [readFactor, hl, hparen]
    exact ((hread rest' hrest).bind fun inner hmore => local_close inner _ _ hmore).after
  case noFactor =>
    intro l rest hminus hplus hnumber hname hparen ts' h
    cases h with
    | ended h h' =>
      rw [readFactor_of_ended h, readFactor_of_ended h']
      exact .fail (.ended h h') _
    | cons hl hrest =>
      simp only [readFactor, hl]
      exact .fail (.cons hl hrest) _
  case factorAtEnd =>
    intro ts' h
    rw [readFactor, readFactor_of_ended h.ended_of_nil]
    exact .fail h _

/-- Numbers are read from tokens alone. -/
theorem read_eq_of_tokens (h : ts'.map Lexeme.token = ts.map Lexeme.token) : read ts' = read ts :=
  (local_read ts ts' (.of_tokens h)).same

end NumberExpr

namespace StringExpr

lemma readOperand_of_ended (h : Ended ts) : readOperand ts = .fail .string := by
  rcases ts with _ | ⟨l, rest⟩
  · rfl
  · have hl : Expr.admits l.token = false := h l rfl
    simp only [readOperand]
    split <;> simp_all [Expr.admits]

lemma local_readOperand (ts : List Lexeme) : Local readOperand ts := by
  intro ts' h
  cases h with
  | ended h h' =>
    rw [readOperand_of_ended h, readOperand_of_ended h']
    exact .fail (.ended h h') _
  | cons hl hrest =>
    simp only [readOperand, hl]
    split
    · exact (Agree.pure hrest _).after
    · exact (Agree.pure hrest _).after
    · exact .fail (.cons hl hrest) _

lemma local_readJoined (left : StringExpr) (ts : List Lexeme) : Local (readJoined left) ts := by
  have hstop (left : StringExpr) {ts : List Lexeme} (h : ∀ l ∈ ts.head?, l.token ≠ .mark .plus) :
      Local (readJoined left) ts :=
    .of_stop (fun _ => Expr.ne_mark_of_not_admits rfl) (fun _ => readJoined_of_ne) h
  refine readJoined.induct (fun left => Local (readJoined left)) ?_ ?_ ?_ left ts
  · intro left l rest hplus ih ts' h
    obtain ⟨l', rest', rfl, hl, hrest⟩ := h.exists_cons (Expr.admits_of_mark hplus rfl)
    rw [readJoined, readJoined, if_pos hplus, if_pos (hl.trans hplus)]
    exact ((local_readOperand rest rest' hrest).bind fun right hmore => ih right _ _ hmore).after
  · intro left l rest hplus
    exact hstop left (by simpa using hplus)
  · exact fun left => hstop left (by simp)

/-- Texts are read locally. -/
theorem local_read (ts : List Lexeme) : Local read ts := fun ts' h =>
  (local_readOperand ts ts' h).bind fun left hmore => local_readJoined left _ _ hmore

end StringExpr

/-! ### Conditions and values -/

namespace BoolExpr

lemma comparison?_of_coincide {operand : List Lexeme → Reading α}
    {op? : Token → Option Comparison} (hoperand : ∀ us, Local operand us)
    (hop : ∀ {t : Token} {op : Comparison}, op? t = some op → Expr.admits t = true)
    (h : Coincide ts ts') : comparison? operand op? ts' = comparison? operand op? ts := by
  obtain ⟨hsame, hrest⟩ := hoperand ts ts' h
  unfold comparison?
  rw [hsame]
  rcases hread : operand ts with ⟨wanted | left, k⟩
  · rfl
  rw [hread] at hrest
  simp only at hrest ⊢
  generalize ts.drop k = us at hrest
  generalize ts'.drop k = us' at hrest
  cases hrest with
  -- both operands end, and no operator follows on either side
  | ended h h' =>
    have hnone {us : List Lexeme} (hus : Ended us) : ∀ l ∈ us.head?, op? l.token = none :=
      fun l hl => Expr.eq_none_of_not_admits hop (hus l hl)
    rcases us with _ | ⟨l, us⟩ <;> rcases us' with _ | ⟨l', us'⟩
    · rfl
    · simp [hnone h' l' rfl]
    · simp [hnone h l rfl]
    · simp [hnone h l rfl, hnone h' l' rfl]
  | cons hl hmore => simp only [hl, (hoperand _ _ hmore).same]

lemma attempt_of_coincide (h : Coincide ts ts') :
    (textComparison? ts').or (numberComparison? ts') =
      (textComparison? ts).or (numberComparison? ts) := by
  rw [textComparison?, textComparison?, numberComparison?, numberComparison?,
    comparison?_of_coincide StringExpr.local_read admits_of_ofTexts? h,
    comparison?_of_coincide NumberExpr.local_read admits_of_ofNumbers? h]

lemma attempt_nil : (textComparison? []).or (numberComparison? []) = none := by
  simp [textComparison?, numberComparison?, comparison?, StringExpr.read, StringExpr.readOperand,
    NumberExpr.read, NumberExpr.readTerm, NumberExpr.readFactor, Reading.fail, Reading.bind]

lemma readPrimary_of_ended (h : Ended ts) : readPrimary ts = .fail .condition := by
  rcases ts with _ | ⟨l, rest⟩
  · rw [readPrimary]
  · have hl : Expr.admits l.token = false := h l rfl
    rw [readPrimary]
    split <;> simp_all [Expr.admits, Expr.endsValue]

lemma readTerm_of_ne (h : ∀ l ∈ ts.head?, l.token ≠ .mark .not) :
    readTerm ts =
      match (textComparison? ts).or (numberComparison? ts) with
      | some (e, n) => ⟨.ok e, n⟩
      | none => (readPrimary ts).bind fun left k => readEquality left (ts.drop k) := by
  rcases ts with _ | ⟨l, rest⟩
  · rw [readTerm, attempt_nil, readPrimary]
    rfl
  · rw [readTerm]
    exact if_neg (h l rfl)

/-- Conditions are read locally. -/
theorem local_read (ts : List Lexeme) : Local read ts := by
  have hends (t : Token) (ht : Expr.admits t = false) : t ≠ .mark .not :=
    Expr.ne_mark_of_not_admits rfl ht
  have hdisjunction (left : BoolExpr) {ts : List Lexeme}
      (h : ∀ l ∈ ts.head?, disjunctionOp? l.token = none) : Local (readDisjunction left) ts :=
    .of_stop (fun _ => Expr.eq_none_of_not_admits admits_of_disjunctionOp?)
      (fun _ => readDisjunction_of_none) h
  have hconjuncts (left : BoolExpr) {ts : List Lexeme} (h : ∀ l ∈ ts.head?, l.token ≠ .mark .and) :
      Local (readConjuncts left) ts :=
    .of_stop (fun _ => Expr.ne_mark_of_not_admits rfl) (fun _ => readConjuncts_of_ne) h
  have hequality (left : BoolExpr) {ts : List Lexeme}
      (h : ∀ l ∈ ts.head?, Comparison.ofConditions? l.token = none) :
      Local (readEquality left) ts :=
    .of_stop (fun _ => Expr.eq_none_of_not_admits admits_of_ofConditions?)
      (fun _ => readEquality_of_none) h
  refine (read.mutual_induct (Local read) (fun left => Local (readDisjunction left))
    (Local readConjunction) (fun left => Local (readConjuncts left)) (Local readTerm)
    (fun left => Local (readEquality left)) (Local readPrimary)
    ?disjunction ?disjunctionGoesOn ?disjunctionEnds ?disjunctionAtEnd ?conjunction
    ?conjunctionGoesOn ?conjunctionEnds ?conjunctionAtEnd ?notTerm ?attempt ?plain ?termAtEnd
    ?equality ?equalityEnds ?equalityAtEnd ?isTrue ?isFalse ?name ?notPrimary ?parens ?noPrimary
    ?primaryAtEnd).1 ts
  case disjunction =>
    intro ts hconjunction hdisjunction ts' h
    rw [read, read]
    exact (hconjunction ts' h).bind fun left hmore => hdisjunction left _ _ hmore
  case disjunctionGoesOn =>
    intro left l rest op hop hconjunction hdisjunction ts' h
    obtain ⟨l', rest', rfl, hl, hrest⟩ := h.exists_cons
      (admits_of_disjunctionOp? hop)
    simp only [readDisjunction, hl, hop]
    exact ((hconjunction rest' hrest).bind fun right hmore => hdisjunction right _ _ hmore).after
  case disjunctionEnds =>
    intro left l rest hop
    exact hdisjunction left (by simpa using hop)
  case disjunctionAtEnd => exact fun left => hdisjunction left (by simp)
  case conjunction =>
    intro ts hterm hconjuncts ts' h
    rw [readConjunction, readConjunction]
    exact (hterm ts' h).bind fun left hmore => hconjuncts left _ _ hmore
  case conjunctionGoesOn =>
    intro left l rest hand hterm hconjuncts ts' h
    obtain ⟨l', rest', rfl, hl, hrest⟩ := h.exists_cons (Expr.admits_of_mark hand rfl)
    rw [readConjuncts, readConjuncts, if_pos hand, if_pos (hl.trans hand)]
    exact ((hterm rest' hrest).bind fun right hmore => hconjuncts right _ _ hmore).after
  case conjunctionEnds =>
    intro left l rest hand
    exact hconjuncts left (by simpa using hand)
  case conjunctionAtEnd => exact fun left => hconjuncts left (by simp)
  case notTerm =>
    intro l rest hnot hterm ts' h
    obtain ⟨l', rest', rfl, hl, hrest⟩ := h.exists_cons (Expr.admits_of_mark hnot rfl)
    rw [readTerm, readTerm, if_pos hnot, if_pos (hl.trans hnot)]
    exact ((hterm rest' hrest).map BoolExpr.not).after
  case attempt =>
    intro l rest hnot e n hattempt ts' h
    have hnot : ∀ o ∈ (l :: rest).head?, o.token ≠ .mark .not := by simpa using hnot
    rw [readTerm_of_ne hnot, readTerm_of_ne (h.forall_head? hends hnot),
      attempt_of_coincide h, hattempt]
    exact ⟨rfl, h.drop (inside_of_attempt hattempt)⟩
  case plain =>
    intro l rest hnot hattempt hprimary hequality ts' h
    have hnot : ∀ o ∈ (l :: rest).head?, o.token ≠ .mark .not := by simpa using hnot
    rw [readTerm_of_ne hnot, readTerm_of_ne (h.forall_head? hends hnot),
      attempt_of_coincide h, hattempt]
    exact (hprimary ts' h).bind fun left hmore => hequality left _ _ hmore
  case termAtEnd =>
    intro ts' h
    rw [readTerm_of_ne (by simp), readTerm_of_ne (h.forall_head? hends (by simp)),
      attempt_of_coincide h, attempt_nil, readPrimary, readPrimary_of_ended h.ended_of_nil]
    exact .fail h _
  case equality =>
    intro left l rest op hop hprimary ts' h
    obtain ⟨l', rest', rfl, hl, hrest⟩ := h.exists_cons (admits_of_ofConditions? hop)
    simp only [readEquality, hl, hop]
    exact ((hprimary rest' hrest).map _).after
  case equalityEnds =>
    intro left l rest hop
    exact hequality left (by simpa using hop)
  case equalityAtEnd => exact fun left => hequality left (by simp)
  case isTrue =>
    intro l rest htrue ts' h
    obtain ⟨l', rest', rfl, hl, hrest⟩ := h.exists_cons (Expr.admits_of_mark htrue rfl)
    simp only [readPrimary, hl, htrue]
    exact (Agree.pure hrest _).after
  case isFalse =>
    intro l rest hfalse ts' h
    obtain ⟨l', rest', rfl, hl, hrest⟩ := h.exists_cons (Expr.admits_of_mark hfalse rfl)
    simp only [readPrimary, hl, hfalse]
    exact (Agree.pure hrest _).after
  case name =>
    intro l rest name hname ts' h
    obtain ⟨l', rest', rfl, hl, hrest⟩ := h.exists_cons (by simp [hname, Expr.admits])
    simp only [readPrimary, hl, hname]
    exact (Agree.pure hrest _).after
  case notPrimary =>
    intro l rest hnot hprimary ts' h
    obtain ⟨l', rest', rfl, hl, hrest⟩ := h.exists_cons (Expr.admits_of_mark hnot rfl)
    simp only [readPrimary, hl, hnot]
    exact ((hprimary rest' hrest).map BoolExpr.not).after
  case parens =>
    intro l rest hparen hread ts' h
    obtain ⟨l', rest', rfl, hl, hrest⟩ := h.exists_cons (Expr.admits_of_mark hparen rfl)
    simp only [readPrimary, hl, hparen]
    exact ((hread rest' hrest).bind fun inner hmore => local_close inner _ _ hmore).after
  case noPrimary =>
    intro l rest htrue hfalse hname hnot hparen ts' h
    cases h with
    | ended h h' =>
      rw [readPrimary_of_ended h, readPrimary_of_ended h']
      exact .fail (.ended h h') _
    | cons hl hrest =>
      simp only [readPrimary, hl]
      exact .fail (.cons hl hrest) _
  case primaryAtEnd =>
    intro ts' h
    rw [readPrimary, readPrimary_of_ended h.ended_of_nil]
    exact .fail h _

end BoolExpr

namespace Expr

lemma kindOf_of_coincide (h : Coincide ts ts') (default : Kind) :
    kindOf default ts' = kindOf default ts := by
  have hended {us : List Lexeme} (hus : Ended us) (default : Kind) :
      kindOf default us = default := by
    rcases us with _ | ⟨l, us⟩
    · rfl
    · exact kindOf_cons_of_not_admits us (hus l rfl)
  induction h generalizing default with
  | ended h h' => rw [hended h, hended h']
  | cons hl _ ih => simp only [kindOf, hl, ih]

/-- **Values are read locally.** -/
theorem local_read (ts : List Lexeme) : Local read ts := by
  intro ts' h
  unfold read
  rw [kindOf_of_coincide h]
  split
  · exact (BoolExpr.local_read ts ts' h).map _
  · exact (NumberExpr.local_read ts ts' h).map _
  · exact (StringExpr.local_read ts ts' h).map _

end Expr

end QuestScript

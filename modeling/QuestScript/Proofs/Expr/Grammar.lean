import QuestScript.Proofs.Expr.Spelling
import QuestScript.Proofs.Expr.Value

/-!
The grammar of expressions, as derivations.

An expression yields a list of tokens at a place. A place asks for a level, and an operator stands
there if its own level is at least that; everything else needs parentheses. The tokens of a node are
those of its operands, in order, with the operator between or in front of them. Parentheses and a
plus sign in front of a number are all that a derivation adds to the tree.

The last part shows that readers of expressions make derivations: what a reader gives yields
exactly the tokens that it took.
-/

namespace QuestScript

namespace NumberExpr

/-- The number yields the tokens at a place of the given level. -/
inductive Yields : Nat → NumberExpr → List Token → Prop
  | const {place : Nat} (value : Binary64) : Yields place (const value) [.number value]
  | var {place : Nat} (name : String) : Yields place (var name) [.name name]
  | negate {place : Nat} {operand : NumberExpr} {ts : List Token} (hplace : place ≤ 6)
      (h : Yields 6 operand ts) : Yields place (negate operand) (.mark .minus :: ts)
  | plus {place : Nat} {operand : NumberExpr} {ts : List Token} (hplace : place ≤ 6)
      (h : Yields 6 operand ts) : Yields place operand (.mark .plus :: ts)
  | binary {place : Nat} {op : Arithmetic} {left right : NumberExpr} {ts us : List Token}
      (hplace : place ≤ op.level) (hleft : Yields op.level left ts)
      (hright : Yields (op.level + 1) right us) :
      Yields place (binary op left right) (ts ++ .mark op.mark :: us)
  | parens {place : Nat} {inner : NumberExpr} {ts : List Token} (h : Yields 4 inner ts) :
      Yields place inner (.mark .leftParen :: (ts ++ [.mark .rightParen]))

end NumberExpr

namespace StringExpr

/-- The text yields the tokens at a place of the given level. There are no parentheses in texts. -/
inductive Yields : Nat → StringExpr → List Token → Prop
  | const {place : Nat} (value : String) : Yields place (const value) [.string value]
  | var {place : Nat} (name : String) : Yields place (var name) [.name name]
  | concat {place : Nat} {left right : StringExpr} {ts us : List Token} (hplace : place ≤ 4)
      (hleft : Yields 4 left ts) (hright : Yields 5 right us) :
      Yields place (concat left right) (ts ++ .mark .plus :: us)

end StringExpr

namespace BoolExpr

/-- Where negations stand in conditions: their levels, and the level that a condition on the left of
a comparison is asked for. -/
structure Layout where
  negations : List Nat
  compared : Nat

namespace Layout

/-- The table of levels to the letter: `not` is a unary operator like the others. -/
def table : Layout := ⟨[6], 4⟩

/-- The layout that is read. A `not` in front of a comparison applies to all of it, so it has the
level of comparisons; it has the level of the unary operators on the right of a comparison only. -/
def wide : Layout := ⟨[3, 6], 7⟩

end Layout

/-- The condition yields the tokens at a place of the given level. -/
inductive Yields (layout : Layout) : Nat → BoolExpr → List Token → Prop
  | const {place : Nat} (value : Bool) :
      Yields layout place (const value) [.mark (if value then .true else .false)]
  | var {place : Nat} (name : String) : Yields layout place (var name) [.name name]
  | not {place level : Nat} {operand : BoolExpr} {ts : List Token}
      (hlevel : level ∈ layout.negations)
      (hplace : place ≤ level) (h : Yields layout level operand ts) :
      Yields layout place (not operand) (.mark .not :: ts)
  | logical {place : Nat} {op : Connective} {left right : BoolExpr} {ts us : List Token}
      (hplace : place ≤ op.level) (hleft : Yields layout op.level left ts)
      (hright : Yields layout (op.level + 1) right us) :
      Yields layout place (logical op left right) (ts ++ .mark op.mark :: us)
  | compareNumbers {place : Nat} {op : Comparison} {left right : NumberExpr} {ts us : List Token}
      (hplace : place ≤ 3) (hop : op ≠ .maskEqual) (hleft : left.Yields 4 ts)
      (hright : right.Yields 4 us) :
      Yields layout place (compareNumbers op left right) (ts ++ .mark op.mark :: us)
  | compareStrings {place : Nat} {op : Comparison} {left right : StringExpr} {ts us : List Token}
      (hplace : place ≤ 3) (hop : op ∈ [.equal, .maskEqual, .notEqual])
      (hliteral : op = .maskEqual ∨ left.hasLiteral ∨ right.hasLiteral) (hleft : left.Yields 4 ts)
      (hright : right.Yields 4 us) :
      Yields layout place (compareStrings op left right) (ts ++ .mark op.mark :: us)
  | compareBools {place : Nat} {op : Comparison} {left right : BoolExpr} {ts us : List Token}
      (hplace : place ≤ 3) (hop : op ∈ [.equal, .notEqual])
      (hleft : Yields layout layout.compared left ts) (hright : Yields layout 4 right us) :
      Yields layout place (compareBools op left right) (ts ++ .mark op.mark :: us)
  | parens {place : Nat} {inner : BoolExpr} {ts : List Token} (h : Yields layout 1 inner ts) :
      Yields layout place inner (.mark .leftParen :: (ts ++ [.mark .rightParen]))

end BoolExpr

/-- The value yields the tokens. Its type decides the grammar. -/
def Expr.Yields (layout : BoolExpr.Layout) : Expr → List Token → Prop
  | bool value => value.Yields layout 1
  | number value => value.Yields 4
  | string value => value.Yields 4

/-! ### Places that ask for less -/

lemma NumberExpr.Yields.weaken {place lower : Nat} {e : NumberExpr} {ts : List Token}
    (h : e.Yields place ts) (hlower : lower ≤ place) : e.Yields lower ts := by
  cases h with
  | const value => exact .const value
  | var name => exact .var name
  | negate hplace h => exact .negate (by omega) h
  | plus hplace h => exact .plus (by omega) h
  | binary hplace hleft hright => exact .binary (by omega) hleft hright
  | parens h => exact .parens h

lemma StringExpr.Yields.weaken {place lower : Nat} {e : StringExpr} {ts : List Token}
    (h : e.Yields place ts) (hlower : lower ≤ place) : e.Yields lower ts := by
  cases h with
  | const value => exact .const value
  | var name => exact .var name
  | concat hplace hleft hright => exact .concat (by omega) hleft hright

lemma BoolExpr.Yields.weaken {layout : Layout} {place lower : Nat} {e : BoolExpr} {ts : List Token}
    (h : e.Yields layout place ts) (hlower : lower ≤ place) : e.Yields layout lower ts := by
  cases h with
  | const value => exact .const value
  | var name => exact .var name
  | not hlevel hplace h => exact .not hlevel (by omega) h
  | logical hplace hleft hright => exact .logical (by omega) hleft hright
  | compareNumbers hplace hop hleft hright => exact .compareNumbers (by omega) hop hleft hright
  | compareStrings hplace hop hliteral hleft hright =>
    exact .compareStrings (by omega) hop hliteral hleft hright
  | compareBools hplace hop hleft hright => exact .compareBools (by omega) hop hleft hright
  | parens h => exact .parens h

/-! ### What derivations look like -/

namespace BoolExpr

variable {layout : Layout} {place : Nat} {e : BoolExpr} {ts : List Token}

lemma Yields.head?_of_level (h : e.Yields layout place ts) (hplace : 3 < place)
    (hlevel : e.level = 3) : ts.head? = some (.mark .leftParen) := by
  cases h with
  | const | var | not => simp [level] at hlevel
  | @logical _ op => cases op <;> simp [level, Connective.level] at hlevel
  | compareNumbers hle | compareStrings hle | compareBools hle => omega
  | parens h => rfl

/-- In the table of levels, what stands behind `not` is an operand of its own. -/
lemma Yields.of_table_not (h : (BoolExpr.not e).Yields .table place (.mark .not :: ts)) :
    e.Yields .table 6 ts := by
  generalize hus : Token.mark .not :: ts = us at h
  cases h with
  | not hlevel hplace h =>
    obtain rfl : _ = 6 := by simpa [Layout.table] using hlevel
    obtain ⟨-, rfl⟩ := List.cons.inj hus
    exact h
  | parens h => simp at hus

end BoolExpr

/-! ### What a reading gives, with what it took -/

/-- If the reading of the list succeeds, the property holds of what it gives and of the tokens it
took, put behind those that were taken before. -/
def Reading.Gives {α : Type} (P : α → List Token → Prop) (before : List Token) (ts : List Lexeme)
    (r : Reading α) : Prop :=
  ∀ a, r.result = .ok a → P a (before ++ (ts.take r.taken).map Lexeme.token)

namespace Reading

variable {α β : Type} {P : α → List Token → Prop} {Q : β → List Token → Prop} {r : Reading α}
  {before : List Token} {ts rest : List Lexeme} {l : Lexeme} {t : Token}

lemma gives_pure {a : α} (h : P a before) : (pure a).Gives P before ts := by
  intro b hb
  obtain rfl : a = b := by simpa [pure] using hb
  simpa [pure] using h

lemma gives_fail (wanted : Wanted) : (fail wanted : Reading α).Gives P before ts := by
  intro a ha
  simp [fail] at ha

lemma Gives.after (hl : l.token = t) (h : r.Gives P (before ++ [t]) rest) :
    (r.after 1).Gives P before (l :: rest) := by
  intro a ha
  have := h a ha
  rwa [taken_after, Nat.add_comm, List.take_succ_cons, List.map_cons, List.append_cons, hl]

lemma Gives.behind {P' : α → List Token → Prop} (h : r.Gives P [] ts)
    (hbefore : ∀ a us, P a us → P' a (before ++ us)) : r.Gives P' before ts :=
  fun a ha => hbefore a _ (h a ha)

lemma Gives.map {f : α → β} (h : r.Gives P [] ts) (hf : ∀ a us, P a us → Q (f a) (before ++ us)) :
    (r.map f).Gives Q before ts := by
  rcases r with ⟨wanted | a, k⟩
  · intro b hb
    simp [Reading.map, Except.map] at hb
  · intro b hb
    obtain rfl : f a = b := by simpa [Reading.map, Except.map] using hb
    exact hf _ _ (h a rfl)

lemma Gives.bind {next : α → Nat → Reading β} (h : r.Gives P [] ts)
    (hnext : ∀ a us, P a us → (next a r.taken).Gives Q (before ++ us) (ts.drop r.taken)) :
    (r.bind next).Gives Q before ts := by
  rcases r with ⟨wanted | a, k⟩
  · intro b hb
    simp [Reading.bind] at hb
  · intro b hb
    have hlater := hnext a _ (h a rfl) b (by simpa using hb)
    simpa [List.take_add, List.append_assoc] using hlater

lemma Gives.map_after {f : α → β} (hl : l.token = t) (h : r.Gives P [] rest)
    (hf : ∀ a us, P a us → Q (f a) (before ++ t :: us)) :
    ((r.map f).after 1).Gives Q before (l :: rest) := by
  refine .after hl (h.map fun a us ha => ?_)
  rw [List.append_assoc, List.singleton_append]
  exact hf a us ha

lemma Gives.bind_after {next : α → Nat → Reading β} (hl : l.token = t) (h : r.Gives P [] rest)
    (hnext : ∀ a us, P a us →
      (next a r.taken).Gives Q (before ++ t :: us) (rest.drop r.taken)) :
    ((r.bind next).after 1).Gives Q before (l :: rest) := by
  refine .after hl (h.bind fun a us ha => ?_)
  rw [List.append_assoc, List.singleton_append]
  exact hnext a us ha

lemma gives_close {a : α} (h : P a (before ++ [.mark .rightParen])) :
    (close a ts).Gives P before ts := by
  rcases ts with _ | ⟨l, rest⟩
  · exact gives_fail _
  · simp only [close]
    split
    · next hl => exact .after hl (gives_pure h)
    · exact gives_fail _

end Reading

open Reading (gives_pure gives_fail gives_close)

/-! ### Numbers and texts -/

namespace NumberExpr

lemma sumOp?_eq_some {t : Token} {op : Arithmetic} (h : sumOp? t = some op) :
    t = .mark op.mark ∧ op.level = 4 := by
  unfold sumOp? at h
  split at h <;> first | (obtain rfl := Option.some.inj h; exact ⟨rfl, rfl⟩) | simp at h

lemma termOp?_eq_some {t : Token} {op : Arithmetic} (h : termOp? t = some op) :
    t = .mark op.mark ∧ op.level = 5 := by
  unfold termOp? at h
  split at h <;> first | (obtain rfl := Option.some.inj h; exact ⟨rfl, rfl⟩) | simp at h

/-- **A number that was read yields the tokens it was read from.** -/
theorem gives_read (ts : List Lexeme) : (read ts).Gives (Yields 4) [] ts := by
  refine (read.mutual_induct (fun ts => (read ts).Gives (Yields 4) [] ts)
    (fun left ts => ∀ before, left.Yields 4 before → (readSum left ts).Gives (Yields 4) before ts)
    (fun ts => (readTerm ts).Gives (Yields 5) [] ts)
    (fun left ts =>
      ∀ before, left.Yields 5 before → (readProduct left ts).Gives (Yields 5) before ts)
    (fun ts => (readFactor ts).Gives (Yields 6) [] ts)
    ?sum ?sumGoesOn ?sumEnds ?sumAtEnd ?term ?termGoesOn ?termEnds ?termAtEnd
    ?minus ?plus ?number ?name ?parens ?noFactor ?factorAtEnd).1 ts
  case sum =>
    intro ts hterm hsum
    rw [read]
    exact hterm.bind fun left us hleft => hsum left _ us (hleft.weaken (by omega))
  case sumGoesOn =>
    intro left l rest op hop hterm hsum before hleft
    obtain ⟨hmark, hlevel⟩ := sumOp?_eq_some hop
    simp only [readSum, hop]
    exact .bind_after hmark hterm fun right us hright =>
      hsum right _ _ (.binary (by omega) (by rwa [hlevel]) (by rwa [hlevel]))
  case sumEnds =>
    intro left l rest hop before hleft
    simp only [readSum, hop]
    exact gives_pure hleft
  case sumAtEnd =>
    intro left before hleft
    rw [readSum]
    exact gives_pure hleft
  case term =>
    intro ts hfactor hproduct
    rw [readTerm]
    exact hfactor.bind fun left us hleft => hproduct left _ us (hleft.weaken (by omega))
  case termGoesOn =>
    intro left l rest op hop hfactor hproduct before hleft
    obtain ⟨hmark, hlevel⟩ := termOp?_eq_some hop
    simp only [readProduct, hop]
    exact .bind_after hmark hfactor fun right us hright =>
      hproduct right _ _ (.binary (by omega) (by rwa [hlevel]) (by rwa [hlevel]))
  case termEnds =>
    intro left l rest hop before hleft
    simp only [readProduct, hop]
    exact gives_pure hleft
  case termAtEnd =>
    intro left before hleft
    rw [readProduct]
    exact gives_pure hleft
  case minus =>
    intro l rest hl hfactor
    simp only [readFactor, hl]
    exact hfactor.map_after hl fun operand us h => .negate (Nat.le_refl 6) h
  case plus =>
    intro l rest hl hfactor
    simp only [readFactor, hl]
    exact .after hl (hfactor.behind fun operand us h => .plus (Nat.le_refl 6) h)
  case number =>
    intro l rest value hl
    simp only [readFactor, hl]
    exact .after hl (gives_pure (.const value))
  case name =>
    intro l rest name hl
    simp only [readFactor, hl]
    exact .after hl (gives_pure (.var name))
  case parens =>
    intro l rest hl hread
    simp only [readFactor, hl]
    exact hread.bind_after hl fun inner us hinner => gives_close (.parens hinner)
  case noFactor =>
    intro l rest hminus hplus hnumber hname hparen
    rw [readFactor]
    split <;> simp_all [gives_fail]
  case factorAtEnd =>
    rw [readFactor]
    exact gives_fail _

end NumberExpr

namespace StringExpr

lemma gives_readOperand (ts : List Lexeme) : (readOperand ts).Gives (Yields 5) [] ts := by
  rcases ts with _ | ⟨l, rest⟩
  · exact gives_fail _
  · simp only [readOperand]
    split
    · next value hl => exact .after hl (gives_pure (.const value))
    · next name hl => exact .after hl (gives_pure (.var name))
    · exact gives_fail _

lemma gives_readJoined {before : List Token} (left : StringExpr) (ts : List Lexeme)
    (hleft : left.Yields 4 before) : (readJoined left ts).Gives (Yields 4) before ts := by
  fun_induction readJoined left ts generalizing before with
  | case1 left l rest hl ih =>
    exact (gives_readOperand rest).bind_after hl fun right us hright =>
      ih right _ (.concat (Nat.le_refl 4) hleft hright)
  | case2 left l rest hl => exact gives_pure hleft
  | case3 left => exact gives_pure hleft

/-- **A text that was read yields the tokens it was read from.** -/
theorem gives_read (ts : List Lexeme) : (read ts).Gives (Yields 4) [] ts :=
  (gives_readOperand ts).bind fun left _ hleft => gives_readJoined left _ (hleft.weaken (by omega))

end StringExpr

/-! ### Conditions and values -/

namespace BoolExpr

lemma disjunctionOp?_eq_some {t : Token} {op : Connective} (h : disjunctionOp? t = some op) :
    t = .mark op.mark ∧ op.level = 1 := by
  unfold disjunctionOp? at h
  split at h <;> first | (obtain rfl := Option.some.inj h; exact ⟨rfl, rfl⟩) | simp at h

variable {ts : List Lexeme} {n : Nat}

lemma yields_of_comparison? {α : Type} {P : α → List Token → Prop}
    {operand : List Lexeme → Reading α} {op? : Token → Option Comparison} {op : Comparison}
    {left right : α} (hoperand : ∀ us, (operand us).Gives P [] us)
    (h : comparison? operand op? ts = some (op, left, right, n)) :
    ∃ us t vs, P left us ∧ op? t = some op ∧ P right vs ∧
      (ts.take n).map Lexeme.token = us ++ t :: vs := by
  obtain ⟨k, l, behind, m, hleft, hdrop, hop, hright, rfl⟩ := comparison?_eq_some.mp h
  have hfirst := hoperand ts left (by rw [hleft])
  have hsecond := hoperand behind right (by rw [hright])
  rw [hleft, List.nil_append] at hfirst
  rw [hright, List.nil_append] at hsecond
  refine ⟨_, l.token, _, hfirst, hop, hsecond, ?_⟩
  rw [Nat.add_assoc, List.take_add, hdrop, Nat.add_comm 1 m, List.take_succ_cons]
  simp

lemma yields_of_attempt {e : BoolExpr}
    (h : (textComparison? ts).or (numberComparison? ts) = some (e, n)) :
    e.Yields .wide 3 ((ts.take n).map Lexeme.token) := by
  rcases Option.or_eq_some_iff.mp h with h | ⟨-, h⟩
  · -- a comparison of texts
    unfold textComparison? at h
    split at h
    · next hsome =>
      obtain ⟨us, t, vs, hleft, hop, hright, htokens⟩ :=
        yields_of_comparison? StringExpr.gives_read hsome
      split at h
      · next hliteral =>
        simp only [Option.some.injEq, Prod.mk.injEq] at h
        obtain ⟨rfl, rfl⟩ := h
        obtain ⟨hmem, rfl⟩ := ofTexts?_eq_some hop
        rw [htokens]
        refine .compareStrings (Nat.le_refl 3) hmem ?_ hleft hright
        simpa [or_assoc] using hliteral
      · simp at h
    · simp at h
  · -- a comparison of numbers
    unfold numberComparison? at h
    split at h
    · next hsome =>
      obtain ⟨us, t, vs, hleft, hop, hright, htokens⟩ :=
        yields_of_comparison? NumberExpr.gives_read hsome
      simp only [Option.some.injEq, Prod.mk.injEq] at h
      obtain ⟨rfl, rfl⟩ := h
      obtain ⟨hne, rfl⟩ := ofNumbers?_eq_some hop
      rw [htokens]
      exact .compareNumbers (Nat.le_refl 3) hne hleft hright
    · simp at h

/-- What a plain condition yields: it may stand anywhere, unless a `not` stands in front of it. -/
def YieldsPrimary (e : BoolExpr) (ts : List Token) : Prop :=
  e.Yields .wide 6 ts ∧ (ts.head? ≠ some (.mark .not) → e.Yields .wide 7 ts)

lemma YieldsPrimary.of_tight {e : BoolExpr} {ts : List Token}
    (h : ∀ place, e.Yields .wide place ts) : YieldsPrimary e ts := ⟨h 6, fun _ => h 7⟩

/-- **A condition that was read yields the tokens it was read from.** -/
theorem gives_read (ts : List Lexeme) : (read ts).Gives (Yields .wide 1) [] ts := by
  -- the left operand is known at its level, together with the tokens it was read from
  refine (read.mutual_induct (fun ts => (read ts).Gives (Yields .wide 1) [] ts)
    (fun left ts => ∀ before, left.Yields .wide 1 before →
      (readDisjunction left ts).Gives (Yields .wide 1) before ts)
    (fun ts => (readConjunction ts).Gives (Yields .wide 2) [] ts)
    (fun left ts => ∀ before, left.Yields .wide 2 before →
      (readConjuncts left ts).Gives (Yields .wide 2) before ts)
    (fun ts => (readTerm ts).Gives (Yields .wide 3) [] ts)
    (fun left ts => ∀ before, left.Yields .wide 7 before →
      (readEquality left ts).Gives (Yields .wide 3) before ts)
    (fun ts => (readPrimary ts).Gives YieldsPrimary [] ts)
    ?disjunction ?disjunctionGoesOn ?disjunctionEnds ?disjunctionAtEnd
    ?conjunction ?conjunctionGoesOn ?conjunctionEnds ?conjunctionAtEnd
    ?notTerm ?attempt ?plain ?termAtEnd ?equality ?equalityEnds ?equalityAtEnd
    ?isTrue ?isFalse ?name ?notPrimary ?parens ?noPrimary ?primaryAtEnd).1 ts
  case disjunction =>
    intro ts hconjunction hdisjunction
    rw [read]
    exact hconjunction.bind fun left us hleft => hdisjunction left _ us (hleft.weaken (by omega))
  case disjunctionGoesOn =>
    intro left l rest op hop hconjunction hdisjunction before hleft
    obtain ⟨hmark, hlevel⟩ := disjunctionOp?_eq_some hop
    simp only [readDisjunction, hop]
    exact .bind_after hmark hconjunction fun right us hright =>
      hdisjunction right _ _ (.logical (by omega) (by rwa [hlevel]) (by rwa [hlevel]))
  case disjunctionEnds =>
    intro left l rest hop before hleft
    simp only [readDisjunction, hop]
    exact gives_pure hleft
  case disjunctionAtEnd =>
    intro left before hleft
    rw [readDisjunction]
    exact gives_pure hleft
  case conjunction =>
    intro ts hterm hconjuncts
    rw [readConjunction]
    exact hterm.bind fun left us hleft => hconjuncts left _ us (hleft.weaken (by omega))
  case conjunctionGoesOn =>
    intro left l rest hl hterm hconjuncts before hleft
    simp only [readConjuncts, if_pos hl]
    exact hterm.bind_after hl fun right us hright =>
      hconjuncts right _ _ (.logical (Nat.le_refl 2) hleft hright)
  case conjunctionEnds =>
    intro left l rest hl before hleft
    simp only [readConjuncts, if_neg hl]
    exact gives_pure hleft
  case conjunctionAtEnd =>
    intro left before hleft
    rw [readConjuncts]
    exact gives_pure hleft
  case notTerm =>
    intro l rest hl hterm
    simp only [readTerm, if_pos hl]
    exact hterm.map_after hl fun operand us h => .not (by simp [Layout.wide]) (Nat.le_refl 3) h
  case attempt =>
    intro l rest hl e n hattempt
    simp only [readTerm, if_neg hl, hattempt]
    intro a ha
    obtain rfl : e = a := by simpa using ha
    exact yields_of_attempt hattempt
  case plain =>
    intro l rest hl hattempt hprimary hequality
    simp only [readTerm, if_neg hl, hattempt]
    -- no `not` stands in front, so the condition may stand as an operand
    have hleft : (readPrimary (l :: rest)).Gives (Yields .wide 7) [] (l :: rest) := by
      intro a ha
      refine (hprimary a ha).2 ?_
      cases (readPrimary (l :: rest)).taken <;> simp [hl]
    exact hleft.bind fun left us h => hequality left _ us h
  case termAtEnd =>
    rw [readTerm]
    exact gives_fail _
  case equality =>
    intro left l rest op hop hprimary before hleft
    obtain ⟨hmem, hmark⟩ := ofConditions?_eq_some hop
    simp only [readEquality, hop]
    exact hprimary.map_after hmark fun right us hright =>
      .compareBools (Nat.le_refl 3) hmem hleft (hright.1.weaken (by omega))
  case equalityEnds =>
    intro left l rest hop before hleft
    simp only [readEquality, hop]
    exact gives_pure (hleft.weaken (by omega))
  case equalityAtEnd =>
    intro left before hleft
    rw [readEquality]
    exact gives_pure (hleft.weaken (by omega))
  case isTrue =>
    intro l rest hl
    simp only [readPrimary, hl]
    exact .after hl (gives_pure (.of_tight fun place => .const true))
  case isFalse =>
    intro l rest hl
    simp only [readPrimary, hl]
    exact .after hl (gives_pure (.of_tight fun place => .const false))
  case name =>
    intro l rest name hl
    simp only [readPrimary, hl]
    exact .after hl (gives_pure (.of_tight fun place => .var name))
  case notPrimary =>
    intro l rest hl hprimary
    simp only [readPrimary, hl]
    refine hprimary.map_after hl fun operand us h => ⟨?_, fun hhead => absurd rfl hhead⟩
    exact .not (by simp [Layout.wide]) (Nat.le_refl 6) h.1
  case parens =>
    intro l rest hl hread
    simp only [readPrimary, hl]
    exact hread.bind_after hl fun inner us hinner =>
      gives_close (.of_tight fun place => .parens hinner)
  case noPrimary =>
    intro l rest htrue hfalse hname hnot hparen
    rw [readPrimary]
    split <;> simp_all [gives_fail]
  case primaryAtEnd =>
    rw [readPrimary]
    exact gives_fail _

end BoolExpr

/-- **A value that was read yields the tokens it was read from.** -/
theorem Expr.gives_read (ts : List Lexeme) : (read ts).Gives (Yields .wide) [] ts := by
  unfold read
  split
  · exact (BoolExpr.gives_read ts).map fun _ _ h => h
  · exact (NumberExpr.gives_read ts).map fun _ _ h => h
  · exact (StringExpr.gives_read ts).map fun _ _ h => h

end QuestScript

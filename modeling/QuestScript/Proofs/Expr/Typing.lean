import QuestScript.Proofs.Expr.RoundTrip

/-!
What is read can be written.

A condition that was read satisfies the rules of typing where nothing follows that could go on a
number. The rule that needs the proviso is the one that forbids to compare two bare names: these are
compared as numbers, unless the attempt to do so runs into something that is no number.
-/

namespace QuestScript

open Lexeme (Spell)

/-- No arithmetic operator stands at the start of the list. -/
def NumberExpr.Bounded (ts : List Lexeme) : Prop :=
  ∀ l ∈ ts.head?, sumOp? l.token = none ∧ termOp? l.token = none

lemma NumberExpr.bounded_of_isLogical {l : Lexeme} (rest : List Lexeme)
    (h : l.token.isLogical = true) : Bounded (l :: rest) := by
  simpa [Bounded] using Token.no_arithmetic_of_isLogical h

lemma NumberExpr.read_of_readFactor {ts : List Lexeme} {e : NumberExpr} {k : Nat}
    (h : readFactor ts = ⟨.ok e, k⟩) (hbounded : Bounded (ts.drop k)) : read ts = ⟨.ok e, k⟩ := by
  rw [read, readTerm, h, Reading.mk_ok_bind, readProduct_of_none fun l hl => (hbounded l hl).2]
  simp [readSum_of_none fun l hl => (hbounded l hl).1]

lemma Reading.close_eq_ok {α : Type} {a b : α} {ts : List Lexeme} {k : Nat} :
    Reading.close a ts = ⟨.ok b, k⟩ ↔
      ∃ l rest, ts = l :: rest ∧ l.token = .mark .rightParen ∧ a = b ∧ k = 1 := by
  rcases ts with _ | ⟨l, rest⟩
  · simp [Reading.close]
  · by_cases hl : l.token = .mark .rightParen
    · simp [hl, eq_comm]
    · simp [Reading.close, hl]

namespace BoolExpr

open NumberExpr (Bounded bounded_of_isLogical)

variable {ts rest : List Lexeme} {e left right : BoolExpr} {k : Nat} {l : Lexeme} {name : String}

/-! ### Operators -/

/-- Connectives that join terms to a conjunction. -/
def conjunctionOp? (t : Token) : Option Connective := if t = .mark .and then some .and else none

lemma isLogical_of_disjunctionOp? {t : Token} {op : Connective} (h : disjunctionOp? t = some op) :
    t.isLogical = true := by
  unfold disjunctionOp? at h
  split at h <;> simp_all [Token.isLogical, Expr.isLogical]

lemma isLogical_of_conjunctionOp? {t : Token} {op : Connective} (h : conjunctionOp? t = some op) :
    t.isLogical = true := by
  obtain ⟨rfl, -⟩ := Option.ite_none_right_eq_some.mp h
  rfl

lemma ofConditions?_eq_some {t : Token} {op : Comparison}
    (h : Comparison.ofConditions? t = some op) :
    op ∈ [.equal, .notEqual] ∧ t = .mark op.mark := by
  unfold Comparison.ofConditions? at h
  split at h <;> first | (obtain rfl := Option.some.inj h; simp [Comparison.mark]) | simp at h

lemma ofTexts?_eq_some {t : Token} {op : Comparison} (h : Comparison.ofTexts? t = some op) :
    op ∈ [.equal, .maskEqual, .notEqual] ∧ t = .mark op.mark := by
  unfold Comparison.ofTexts? at h
  split at h <;> first | (obtain rfl := Option.some.inj h; simp [Comparison.mark]) | simp at h

lemma ofNumbers?_eq_some {t : Token} {op : Comparison} (h : Comparison.ofNumbers? t = some op) :
    op ≠ .maskEqual ∧ t = .mark op.mark := by
  unfold Comparison.ofNumbers? at h
  split at h <;> first | (obtain rfl := Option.some.inj h; simp [Comparison.mark]) | simp at h

/-! ### Operands joined from the left -/

/-- Operands of the list are joined to the condition on the left, one after another, and take that
many lexemes together with their operators. -/
inductive Joined (op? : Token → Option Connective) (operand : List Lexeme → Reading BoolExpr) :
    BoolExpr → List Lexeme → BoolExpr → Nat → Prop
  | last (left : BoolExpr) (ts : List Lexeme) : Joined op? operand left ts left 0
  | next {l : Lexeme} {rest : List Lexeme} {op : Connective} {left right e : BoolExpr} {i j : Nat}
      (hop : op? l.token = some op) (hright : operand rest = ⟨.ok right, i⟩)
      (hnext : Joined op? operand (.logical op left right) (rest.drop i) e j) :
      Joined op? operand left (l :: rest) e (1 + (i + j))

variable {op? : Token → Option Connective} {operand : List Lexeme → Reading BoolExpr}

lemma Joined.of_read {join : BoolExpr → List Lexeme → Reading BoolExpr}
    (hnil : ∀ left, join left [] = .pure left)
    (hcons : ∀ left l rest, join left (l :: rest) = (op? l.token).elim (.pure left) fun op =>
      ((operand rest).bind fun right k => join (.logical op left right) (rest.drop k)).after 1)
    (h : join left ts = ⟨.ok e, k⟩) : Joined op? operand left ts e k := by
  induction hn : ts.length using Nat.strongRecOn generalizing left ts k with
  | ind n ih =>
  rcases ts with _ | ⟨l, rest⟩
  · obtain ⟨rfl, rfl⟩ : left = e ∧ 0 = k := by simpa [hnil] using h
    exact .last left []
  rw [hcons] at h
  rcases hop : op? l.token with _ | op
  · obtain ⟨rfl, rfl⟩ : left = e ∧ 0 = k := by simpa [hop] using h
    exact .last left (l :: rest)
  · rw [hop, Option.elim_some] at h
    obtain ⟨m, hbind, rfl⟩ := Reading.after_eq_ok.mp h
    obtain ⟨right, i, j, hright, hnext, rfl⟩ := Reading.bind_eq_ok.mp hbind
    have hlen : (rest.drop i).length < n := by
      simp only [← hn, List.length_drop, List.length_cons]
      omega
    exact .next hop hright (ih _ hlen hnext rfl)

lemma joined_readDisjunction (h : readDisjunction left ts = ⟨.ok e, k⟩) :
    Joined disjunctionOp? readConjunction left ts e k := by
  refine .of_read (fun left => by rw [readDisjunction]) (fun left l rest => ?_) h
  rw [readDisjunction]
  cases disjunctionOp? l.token <;> rfl

lemma joined_readConjuncts (h : readConjuncts left ts = ⟨.ok e, k⟩) :
    Joined conjunctionOp? readTerm left ts e k := by
  refine .of_read (fun left => by rw [readConjuncts]) (fun left l rest => ?_) h
  rw [readConjuncts, conjunctionOp?]
  split <;> rfl

/-! ### Bare names -/

lemma Joined.eq_or_not_isVar (h : Joined op? operand left ts e k) :
    e = left ∧ k = 0 ∨ e.isVar = false := by
  induction h with
  | last => exact .inl ⟨rfl, rfl⟩
  | next _ _ _ ih =>
    rcases ih with ⟨rfl, -⟩ | hvar
    · exact .inr rfl
    · exact .inr hvar

lemma readEquality_eq_ok (h : readEquality left ts = ⟨.ok e, k⟩) :
    (e = left ∧ k = 0) ∨ ∃ l rest op right m, ts = l :: rest ∧
      Comparison.ofConditions? l.token = some op ∧ e = compareBools op left right ∧
        readPrimary rest = ⟨.ok right, m⟩ ∧ k = 1 + m := by
  rcases ts with _ | ⟨l, rest⟩
  · simp_all [readEquality]
  · rw [readEquality] at h
    split at h
    · next op hop =>
      obtain ⟨m, hmap, rfl⟩ := Reading.after_eq_ok.mp h
      obtain ⟨right, hright, rfl⟩ := Reading.map_eq_ok.mp hmap
      exact .inr ⟨l, rest, op, right, m, rfl, hop, rfl, hright, rfl⟩
    · simp_all

lemma isVar_of_attempt {n : Nat}
    (h : (textComparison? ts).or (numberComparison? ts) = some (e, n)) :
    e.isVar = false := by
  rcases Option.or_eq_some_iff.mp h with h | ⟨-, h⟩
  · unfold textComparison? at h
    split at h
    · split at h
      · simp only [Option.some.injEq, Prod.mk.injEq] at h
        rw [← h.1]
        rfl
      · simp at h
    · simp at h
  · unfold numberComparison? at h
    split at h
    · simp only [Option.some.injEq, Prod.mk.injEq] at h
      rw [← h.1]
      rfl
    · simp at h

lemma readTerm_eq_ok (h : readTerm ts = ⟨.ok e, k⟩) :
    (∃ l rest a m, ts = l :: rest ∧ e = .not a ∧ readTerm rest = ⟨.ok a, m⟩ ∧ k = 1 + m) ∨
    (textComparison? ts).or (numberComparison? ts) = some (e, k) ∨
    ((textComparison? ts).or (numberComparison? ts) = none ∧
      ∃ left m j, readPrimary ts = ⟨.ok left, m⟩ ∧ readEquality left (ts.drop m) = ⟨.ok e, j⟩ ∧
        k = m + j) := by
  rcases ts with _ | ⟨l, rest⟩
  · simp [readTerm] at h
  · rw [readTerm] at h
    split at h
    · obtain ⟨m, hmap, rfl⟩ := Reading.after_eq_ok.mp h
      obtain ⟨a, ha, rfl⟩ := Reading.map_eq_ok.mp hmap
      exact .inl ⟨l, rest, a, m, rfl, rfl, ha, rfl⟩
    · split at h
      · next attempt =>
        simp only [Reading.mk.injEq, Except.ok.injEq] at h
        obtain ⟨rfl, rfl⟩ := h
        exact .inr (.inl attempt)
      · next attempt =>
        exact .inr (.inr ⟨attempt, Reading.bind_eq_ok.mp h⟩)

lemma readPrimary_of_read_var (h : read ts = ⟨.ok (var name), k⟩) :
    readPrimary ts = ⟨.ok (var name), k⟩ := by
  rw [read] at h
  obtain ⟨a, i, j, hconjunction, hor, rfl⟩ := Reading.bind_eq_ok.mp h
  obtain ⟨rfl, rfl⟩ : var name = a ∧ j = 0 := by
    simpa [isVar] using (joined_readDisjunction hor).eq_or_not_isVar
  rw [readConjunction] at hconjunction
  obtain ⟨b, m, n, hterm, hand, rfl⟩ := Reading.bind_eq_ok.mp hconjunction
  obtain ⟨rfl, rfl⟩ : var name = b ∧ n = 0 := by
    simpa [isVar] using (joined_readConjuncts hand).eq_or_not_isVar
  rcases readTerm_eq_ok hterm with ⟨_, _, _, _, _, hnot, _⟩ | attempt | ⟨-, c, p, q, hc, heq, rfl⟩
  · simp at hnot
  · have := isVar_of_attempt attempt
    simp [isVar] at this
  · rcases readEquality_eq_ok heq with ⟨rfl, rfl⟩ | ⟨_, _, _, _, _, _, _, hcompare, _⟩
    · exact hc
    · simp at hcompare

/-- A bare name that was read as a condition is a factor of a number, and all that was taken besides
it is parentheses. -/
lemma readFactor_of_readPrimary_var (h : readPrimary ts = ⟨.ok (var name), k⟩) :
    NumberExpr.readFactor ts = ⟨.ok (.var name), k⟩ ∧
      ∀ l ∈ ts.take k, l.token.isLogical = false := by
  induction hn : ts.length using Nat.strongRecOn generalizing ts k with
  | ind n ih =>
  rcases ts with _ | ⟨l, rest⟩
  · simp [readPrimary] at h
  rw [readPrimary] at h
  split at h
  · simp at h
  · simp at h
  · next hl =>
    obtain ⟨rfl, rfl⟩ : _ = name ∧ 1 = k := by simpa using h
    simp [NumberExpr.readFactor, hl, Token.isLogical]
  · obtain ⟨m, hmap, rfl⟩ := Reading.after_eq_ok.mp h
    obtain ⟨a, -, hnot⟩ := Reading.map_eq_ok.mp hmap
    simp at hnot
  · -- in parentheses
    next hl =>
    obtain ⟨m, hbind, rfl⟩ := Reading.after_eq_ok.mp h
    obtain ⟨a, i, j, hread, hclose, rfl⟩ := Reading.bind_eq_ok.mp hbind
    obtain ⟨r, behind, hdrop, hr, rfl, rfl⟩ := Reading.close_eq_ok.mp hclose
    obtain ⟨hfactor, hplain⟩ := ih rest.length (by simp [← hn]) (readPrimary_of_read_var hread) rfl
    have hnumber : NumberExpr.read rest = ⟨.ok (.var name), i⟩ := by
      refine NumberExpr.read_of_readFactor hfactor ?_
      simp [hdrop, Bounded, hr, NumberExpr.sumOp?, NumberExpr.termOp?]
    constructor
    · rw [NumberExpr.readFactor]
      simp [hl, hnumber, hdrop, hr]
    · rw [Nat.add_comm, List.take_succ_cons, List.take_add, hdrop]
      simp only [List.mem_cons, List.mem_append]
      rintro o (rfl | ho | ho)
      · -- the parenthesis that opens
        simp [hl, Token.isLogical, Expr.isLogical]
      · exact hplain o ho
      · -- the parenthesis that closes
        obtain rfl : o = r := by simpa using ho
        simp [hr, Token.isLogical, Expr.isLogical]
  · simp at h

/-! ### The rules of typing -/

lemma typed_of_attempt {n : Nat}
    (h : (textComparison? ts).or (numberComparison? ts) = some (e, n)) :
    e.Typed := by
  rcases Option.or_eq_some_iff.mp h with h | ⟨-, h⟩
  · -- a comparison of texts
    unfold textComparison? at h
    split at h
    · next op a b n hsome =>
      obtain ⟨i, l, behind, j, ha, -, hop, hb, -⟩ := comparison?_eq_some.mp hsome
      split at h
      · next hliteral =>
        simp only [Option.some.injEq, Prod.mk.injEq] at h
        obtain ⟨rfl, -⟩ := h
        refine ⟨(ofTexts?_eq_some hop).1, (StringExpr.spell_of_read ha).2,
          (StringExpr.spell_of_read hb).2, ?_⟩
        simpa [or_assoc] using hliteral
      · simp at h
    · simp at h
  · -- a comparison of numbers
    unfold numberComparison? at h
    split at h
    · next op a b n hsome =>
      obtain ⟨i, l, behind, j, -, -, hop, -, -⟩ := comparison?_eq_some.mp hsome
      simp only [Option.some.injEq, Prod.mk.injEq] at h
      obtain ⟨rfl, -⟩ := h
      exact (ofNumbers?_eq_some hop).1
    · simp at h

lemma numberComparison?_of_vars {a b : String} {op : Comparison} {i j : Nat}
    (ha : readPrimary ts = ⟨.ok (var a), i⟩) (hdrop : ts.drop i = l :: rest)
    (hop : Comparison.ofConditions? l.token = some op) (hb : readPrimary rest = ⟨.ok (var b), j⟩)
    (hbounded : Bounded (rest.drop j)) :
    numberComparison? ts = some (.compareNumbers op (.var a) (.var b), i + 1 + j) := by
  obtain ⟨hmem, hmark⟩ := ofConditions?_eq_some hop
  have hlogical : l.token.isLogical = true := hmark ▸ Token.isLogical_comparison op
  have hleft := NumberExpr.read_of_readFactor (readFactor_of_readPrimary_var ha).1
    (hdrop ▸ bounded_of_isLogical rest hlogical)
  have hright := NumberExpr.read_of_readFactor (readFactor_of_readPrimary_var hb).1 hbounded
  have hnumbers : Comparison.ofNumbers? l.token = some op :=
    hmark ▸ Comparison.ofNumbers?_mark (by rintro rfl; simp at hmem)
  have := comparison?_eq_some.mpr ⟨i, l, rest, j, hleft, hdrop, hnumbers, hright, rfl⟩
  rw [numberComparison?, this]

/-- Whatever the reader gives satisfies the rules of typing, if nothing follows that could go on a
number. -/
def ReadsTyped (read : List Lexeme → Reading BoolExpr) (ts : List Lexeme) : Prop :=
  ∀ e k, read ts = ⟨.ok e, k⟩ → Bounded (ts.drop k) → e.Typed

lemma readsTyped_primary
    (h : ∀ us, us.length < ts.length → ReadsTyped readPrimary us ∧ ReadsTyped read us) :
    ReadsTyped readPrimary ts := by
  intro e k hread hbounded
  rcases ts with _ | ⟨l, rest⟩
  · simp [readPrimary] at hread
  obtain ⟨hprimary, hcondition⟩ := h rest (by simp)
  rw [readPrimary] at hread
  split at hread
  · obtain ⟨rfl, -⟩ : const true = e ∧ _ := by simpa using hread
    trivial
  · obtain ⟨rfl, -⟩ : const false = e ∧ _ := by simpa using hread
    trivial
  · next name _ =>
    obtain ⟨rfl, -⟩ : var name = e ∧ _ := by simpa using hread
    trivial
  · obtain ⟨m, hmap, rfl⟩ := Reading.after_eq_ok.mp hread
    obtain ⟨a, ha, rfl⟩ := Reading.map_eq_ok.mp hmap
    exact hprimary a m ha (by simpa [Nat.add_comm 1 m] using hbounded)
  · obtain ⟨m, hbind, rfl⟩ := Reading.after_eq_ok.mp hread
    obtain ⟨a, i, j, ha, hclose, rfl⟩ := Reading.bind_eq_ok.mp hbind
    obtain ⟨r, behind, hdrop, hr, rfl, rfl⟩ := Reading.close_eq_ok.mp hclose
    refine hcondition a i ha ?_
    simp [hdrop, Bounded, hr, NumberExpr.sumOp?, NumberExpr.termOp?]
  · simp at hread

lemma readsTyped_term (hterm : ∀ us, us.length < ts.length → ReadsTyped readTerm us)
    (hprimary : ∀ us, us.length ≤ ts.length → ReadsTyped readPrimary us) :
    ReadsTyped readTerm ts := by
  intro e k hread hbounded
  rcases readTerm_eq_ok hread with ⟨l, rest, a, m, rfl, rfl, ha, rfl⟩ | attempt |
    ⟨attempt, left, i, j, hleft, hequality, rfl⟩
  · -- a negation
    exact hterm rest (by simp) a m ha (by simpa [Nat.add_comm 1 m] using hbounded)
  · exact typed_of_attempt attempt
  -- otherwise a condition is read, and perhaps compared with another one
  rcases readEquality_eq_ok hequality with ⟨rfl, rfl⟩ |
    ⟨l, rest, op, right, m, hdrop, hop, rfl, hright, rfl⟩
  · exact hprimary ts (Nat.le_refl _) e i hleft hbounded
  obtain ⟨hmem, hmark⟩ := ofConditions?_eq_some hop
  have hlogical : l.token.isLogical = true := hmark ▸ Token.isLogical_comparison op
  have hlen : rest.length ≤ ts.length := by
    have := congrArg List.length hdrop
    simp only [List.length_drop, List.length_cons] at this
    omega
  have hend : Bounded (rest.drop m) := by
    rw [← List.drop_drop, hdrop, Nat.add_comm 1 m, List.drop_succ_cons] at hbounded
    exact hbounded
  refine ⟨hmem, hprimary ts (Nat.le_refl _) left i hleft ?_, hprimary rest hlen right m hright hend,
    ?_⟩
  · exact hdrop ▸ bounded_of_isLogical rest hlogical
  · -- two bare names would have been compared as numbers
    rintro ⟨hl, hr⟩
    obtain ⟨a, rfl⟩ := exists_var hl
    obtain ⟨b, rfl⟩ := exists_var hr
    have := numberComparison?_of_vars hleft hdrop hop hright hend
    simp [this] at attempt

/-- Operands that follow a condition. The one on the left is typed wherever it could end. -/
lemma Joined.typed (hop : ∀ t op, op? t = some op → t.isLogical = true)
    (hoperand : ∀ us, us.length ≤ ts.length → ReadsTyped operand us)
    (h : Joined op? operand left ts e k) (hleft : Bounded ts → left.Typed)
    (hbounded : Bounded (ts.drop k)) : e.Typed := by
  induction h with
  | last => exact hleft hbounded
  | @next l rest op left right e i j hl hright _ ih =>
    refine ih (fun us hus => hoperand us ?_) (fun hstop => ?_) ?_
    · rw [List.length_drop] at hus
      rw [List.length_cons]
      omega
    · exact ⟨hleft (bounded_of_isLogical rest (hop _ op hl)),
        hoperand rest (by simp) right i hright hstop⟩
    · rw [List.drop_drop]
      simpa [Nat.add_comm 1] using hbounded

lemma readsTyped_joined {reader : List Lexeme → Reading BoolExpr}
    {join : BoolExpr → List Lexeme → Reading BoolExpr}
    (hreader : reader ts = (operand ts).bind fun left k => join left (ts.drop k))
    (hjoin : ∀ {left us e k}, join left us = ⟨.ok e, k⟩ → Joined op? operand left us e k)
    (hop : ∀ t op, op? t = some op → t.isLogical = true)
    (hoperand : ∀ us, us.length ≤ ts.length → ReadsTyped operand us) : ReadsTyped reader ts := by
  intro e k hread hbounded
  rw [hreader] at hread
  obtain ⟨left, i, j, hleft, hnext, rfl⟩ := Reading.bind_eq_ok.mp hread
  rw [← List.drop_drop] at hbounded
  refine (hjoin hnext).typed hop (fun us hus => hoperand us ?_)
    (hoperand ts (Nat.le_refl _) left i hleft) hbounded
  rw [List.length_drop] at hus
  omega

/-- **Conditions are typed.** A condition that was read can be written, if nothing follows that
could go on a number. -/
theorem typed_of_read (h : read ts = ⟨.ok e, k⟩) (hbounded : Bounded (ts.drop k)) : e.Typed := by
  -- a condition in parentheses is shorter, and within one length the levels build on each other
  suffices hall : ∀ us : List Lexeme, ReadsTyped readPrimary us ∧ ReadsTyped readTerm us ∧
      ReadsTyped read us from (hall ts).2.2 e k h hbounded
  intro us
  induction hn : us.length using Nat.strongRecOn generalizing us with
  | ind n ih =>
  subst hn
  have hprimary : ∀ vs : List Lexeme, vs.length ≤ us.length → ReadsTyped readPrimary vs :=
    fun vs hvs => readsTyped_primary fun ws hws =>
      ⟨(ih _ (by omega) ws rfl).1, (ih _ (by omega) ws rfl).2.2⟩
  have hterm : ∀ vs : List Lexeme, vs.length ≤ us.length → ReadsTyped readTerm vs :=
    fun vs hvs => readsTyped_term (fun ws hws => (ih _ (by omega) ws rfl).2.1)
      fun ws hws => hprimary ws (by omega)
  have hconjunction : ∀ vs : List Lexeme, vs.length ≤ us.length → ReadsTyped readConjunction vs :=
    fun vs hvs => readsTyped_joined (by rw [readConjunction]) joined_readConjuncts
      (fun _ _ => isLogical_of_conjunctionOp?) fun ws hws => hterm ws (by omega)
  exact ⟨hprimary us (Nat.le_refl _), hterm us (Nat.le_refl _),
    readsTyped_joined (by rw [read]) joined_readDisjunction
      (fun _ _ => isLogical_of_disjunctionOp?) hconjunction⟩

end BoolExpr

end QuestScript

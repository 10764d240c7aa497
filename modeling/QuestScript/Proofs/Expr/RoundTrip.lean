import QuestScript.Proofs.Expr.Condition

/-!
Written conditions are read back.

The attempts at other grammars fail on what is no comparison of texts or numbers, so every condition
comes down to its own readers. Each of them takes an operand of its level, and the loops of the
connectives go on from it.
-/

namespace QuestScript

open Lexeme (Spell)
open Token (within within_of_le within_of_lt)

namespace BoolExpr

open NumberExpr (Stuck)

/-- The condition in front of the list ends there. -/
def Free (rest : List Lexeme) : Prop := ∀ l ∈ rest.head?, l.token.endsCondition = true

variable {ls rest ts : List Lexeme} {e left right : BoolExpr} {unary : Nat} {l : Lexeme}

/-! ### Where the readers stop -/

lemma readDisjunction_of_none (h : ∀ l ∈ rest.head?, disjunctionOp? l.token = none) :
    readDisjunction left rest = .pure left := by
  cases rest with
  | nil => simp [readDisjunction]
  | cons l rest => simp [readDisjunction, h l rfl]

lemma readConjuncts_of_ne (h : ∀ l ∈ rest.head?, l.token ≠ .mark .and) :
    readConjuncts left rest = .pure left := by
  cases rest with
  | nil => simp [readConjuncts]
  | cons l rest => simp [readConjuncts, h l rfl]

lemma readEquality_of_none (h : ∀ l ∈ rest.head?, Comparison.ofConditions? l.token = none) :
    readEquality left rest = .pure left := by
  cases rest with
  | nil => simp [readEquality]
  | cons l rest => simp [readEquality, h l rfl]

lemma readEquality_of_free (h : Free rest) : readEquality left rest = .pure left :=
  readEquality_of_none fun l hl => (Token.no_comparison_of_endsCondition (h l hl)).2.2

lemma readTerm_of_none (hl : l.token ≠ .mark .not) (htext : textComparison? (l :: rest) = none)
    (hnumber : numberComparison? (l :: rest) = none) :
    readTerm (l :: rest) =
      (readPrimary (l :: rest)).bind fun left k => readEquality left ((l :: rest).drop k) := by
  rw [readTerm]
  simp [hl, htext, hnumber]

/-! ### Operands that are plainly conditions -/

lemma start_of_operand (h : Spell ls (within 7 e.level (e.tokens unary))) :
    ∃ l tail, ls = l :: tail ∧ l.token ≠ .mark .not := by
  by_cases hlevel : e.level < 7
  · rw [within_of_lt _ hlevel] at h
    obtain ⟨l, inner, r, rfl, hl, -, -⟩ := h.inside
    exact ⟨l, _, rfl, by simp [hl]⟩
  · cases e with
    | const value =>
      obtain ⟨l, rfl, hl⟩ := Spell.single h
      exact ⟨l, [], rfl, by cases value <;> simp [hl]⟩
    | var name =>
      obtain ⟨l, rfl, hl⟩ := Spell.single h
      exact ⟨l, [], rfl, by simp [hl]⟩
    | logical op _ _ => cases op <;> simp [level, Connective.level] at hlevel
    | _ => simp [level] at hlevel

lemma not_read_operand (htyped : e.Typed) (hvar : e.isVar = false) (rest : List Lexeme)
    (h : Spell ls (within 7 e.level (e.tokens unary))) :
    (∀ value k, StringExpr.read (ls ++ rest) ≠ ⟨.ok value, k⟩) ∧
      ∀ value k, NumberExpr.read (ls ++ rest) ≠ ⟨.ok value, k⟩ := by
  by_cases hlevel : e.level < 7
  · rw [within_of_lt _ hlevel] at h
    obtain ⟨l, inner, r, rfl, hl, hinner, -⟩ := h.inside
    have hstuck : Stuck (inner ++ (r :: rest)) := stuck_spell htyped _ hvar hinner
    refine ⟨fun value k => ?_, fun value k => ?_⟩
    · simp [StringExpr.read, StringExpr.readOperand, hl, Reading.fail]
    · simpa using Stuck.paren hl hstuck value k
  · cases e with
    | const value =>
      obtain ⟨l, rfl, hl⟩ := Spell.single h
      refine ⟨fun text k => ?_, fun number k => Stuck.of_start (fun a m => ?_) number k⟩
      · cases value <;> simp [StringExpr.read, StringExpr.readOperand, hl, Reading.fail]
      · cases value <;> simp [NumberExpr.readFactor, hl, Reading.fail]
    | var name => simp [isVar] at hvar
    | logical op _ _ => cases op <;> simp [level, Connective.level] at hlevel
    | _ => simp [level] at hlevel

lemma read_name {name : String} (rest : List Lexeme) (hl : l.token = .name name)
    (hplus : ∀ o ∈ rest.head?, o.token ≠ .mark .plus)
    (hsum : ∀ o ∈ rest.head?, NumberExpr.sumOp? o.token = none)
    (hterm : ∀ o ∈ rest.head?, NumberExpr.termOp? o.token = none) :
    StringExpr.read (l :: rest) = ⟨.ok (.var name), 1⟩ ∧
      NumberExpr.read (l :: rest) = ⟨.ok (.var name), 1⟩ := by
  have hspell : Spell [l] [.name name] := by simp [Spell, hl]
  exact ⟨StringExpr.read_spell (.var name) rest trivial hspell hplus,
    NumberExpr.read_spell (.var name) rest hspell hsum hterm⟩

/-! ### Attempts that fail -/

lemma no_comparison_name {name : String} (hl : l.token = .name name) (hrest : Free rest) :
    textComparison? (l :: rest) = none ∧ numberComparison? (l :: rest) = none := by
  have hplus : ∀ o ∈ rest.head?, o.token ≠ .mark .plus := by
    intro o ho heq
    have := Token.not_admits_of_endsCondition (hrest o ho)
    simp [heq, StringExpr.admits] at this
  obtain ⟨htext, hnumber⟩ := read_name rest hl hplus
    (fun o ho => (Token.no_arithmetic_of_endsCondition (hrest o ho)).1)
    fun o ho => (Token.no_arithmetic_of_endsCondition (hrest o ho)).2
  constructor
  · refine textComparison?_of_none (comparison?_eq_none fun left k o behind hleft hdrop => ?_)
    obtain ⟨-, rfl⟩ : _ ∧ 1 = k := by simpa [htext] using hleft
    have ho : rest = o :: behind := by simpa using hdrop
    exact .inl (Token.no_comparison_of_endsCondition (hrest o (by simp [ho]))).1
  · refine numberComparison?_of_none (comparison?_eq_none fun left k o behind hleft hdrop => ?_)
    obtain ⟨-, rfl⟩ : _ ∧ 1 = k := by simpa [hnumber] using hleft
    have ho : rest = o :: behind := by simpa using hdrop
    exact .inl (Token.no_comparison_of_endsCondition (hrest o (by simp [ho]))).2.1

lemma no_comparison_operand (htyped : e.Typed) (hvar : e.isVar = false) (rest : List Lexeme)
    (h : Spell ls (within 7 e.level (e.tokens unary))) :
    textComparison? (ls ++ rest) = none ∧ numberComparison? (ls ++ rest) = none := by
  obtain ⟨htext, hnumber⟩ := not_read_operand htyped hvar rest h
  exact ⟨textComparison?_of_none (comparison?_eq_none fun left k _ _ hleft =>
      absurd hleft (htext left k)),
    numberComparison?_of_none (comparison?_eq_none fun left k _ _ hleft =>
      absurd hleft (hnumber left k))⟩

lemma no_comparison_not (rest : List Lexeme) (hl : l.token = .mark .not) :
    textComparison? (l :: rest) = none ∧ numberComparison? (l :: rest) = none := by
  constructor
  · refine textComparison?_of_none (comparison?_eq_none fun left k _ _ hleft => ?_)
    simp [StringExpr.read, StringExpr.readOperand, hl, Reading.fail] at hleft
  · refine numberComparison?_of_none (comparison?_eq_none fun left k _ _ hleft => ?_)
    refine absurd hleft (Stuck.of_start (fun a m => ?_) left k)
    simp [NumberExpr.readFactor, hl, Reading.fail]

lemma readTerm_of_some {n : Nat}
    (h : (textComparison? ts).or (numberComparison? ts) = some (e, n)) :
    readTerm ts = ⟨.ok e, n⟩ := by
  rcases ts with _ | ⟨l, rest⟩
  · simp [textComparison?, numberComparison?, comparison?, StringExpr.read,
      StringExpr.readOperand, NumberExpr.read, NumberExpr.readTerm, NumberExpr.readFactor,
      Reading.fail] at h
  · have hl : l.token ≠ .mark .not := by
      intro hl
      obtain ⟨htext, hnumber⟩ := no_comparison_not rest hl
      simp [htext, hnumber] at h
    rw [readTerm]
    simp [hl, h]

/-- Compared conditions are no compared texts or numbers, unless both are bare names. -/
lemma no_comparison_conditions {op : Comparison} (htyped : (compareBools op left right).Typed)
    (rest : List Lexeme) (h : Spell ls ((compareBools op left right).tokens unary)) :
    textComparison? (ls ++ rest) = none ∧ numberComparison? (ls ++ rest) = none := by
  obtain ⟨-, hleft, hright, hvars⟩ := htyped
  obtain ⟨la, o, lb, rfl, hla, ho, hlb⟩ := Spell.between h
  rw [List.append_assoc, List.cons_append]
  -- a bare name is read by both grammars, so the right operand has to fail
  by_cases hvar : left.isVar = true
  · obtain ⟨name, rfl⟩ := exists_var hvar
    have hother : right.isVar = false := by simpa [hvar] using hvars
    obtain ⟨htext, hnumber⟩ := not_read_operand hright hother rest hlb
    obtain ⟨l, rfl, hl⟩ := Spell.single hla
    obtain ⟨hsum, hterm⟩ := Token.no_arithmetic_of_isLogical (ho ▸ Token.isLogical_comparison op)
    obtain ⟨hltext, hlnumber⟩ := read_name (o :: (lb ++ rest)) hl
      (by simpa [ho] using op.mark_ne_plus) (by simpa using hsum) (by simpa using hterm)
    constructor
    · refine textComparison?_of_none (comparison?_eq_none fun a k b behind hread hdrop => ?_)
      obtain ⟨-, rfl⟩ : _ ∧ 1 = k := by simpa [hltext] using hread
      obtain ⟨-, rfl⟩ : _ ∧ lb ++ rest = behind := by simpa using hdrop
      exact .inr htext
    · refine numberComparison?_of_none (comparison?_eq_none fun a k b behind hread hdrop => ?_)
      obtain ⟨-, rfl⟩ : _ ∧ 1 = k := by simpa [hlnumber] using hread
      obtain ⟨-, rfl⟩ : _ ∧ lb ++ rest = behind := by simpa using hdrop
      exact .inr hnumber
  · exact no_comparison_operand hleft (by simpa using hvar) _ hla

lemma text_taken_le {text : StringExpr} {k : Nat} {as bs : List Lexeme}
    (hread : StringExpr.read (as ++ bs) = ⟨.ok text, k⟩)
    (hbs : ∀ o ∈ bs.head?, StringExpr.admits o.token = false) : (as ++ bs).take k = as.take k := by
  obtain ⟨hspell, hgrouped⟩ := StringExpr.spell_of_read hread
  rw [List.take_append]
  rcases bs with _ | ⟨o, bs⟩
  · simp
  · by_cases hk : k ≤ as.length
    · simp [Nat.sub_eq_zero_of_le hk]
    · have hmem : o.token ∈ text.tokens := by
        rw [← show _ = text.tokens from hspell]
        refine List.mem_map_of_mem ?_
        obtain ⟨m, hm⟩ : ∃ m, k - as.length = m + 1 := ⟨k - as.length - 1, by omega⟩
        simp [List.take_append, hm]
      have := StringExpr.admits_of_mem hgrouped _ hmem
      simp [hbs o rfl] at this

lemma not_hasLiteral_of_number {number : NumberExpr} {text : StringExpr} {k : Nat}
    {as bs : List Lexeme} (has : Spell as number.tokens)
    (hread : StringExpr.read (as ++ bs) = ⟨.ok text, k⟩)
    (hbs : ∀ o ∈ bs.head?, StringExpr.admits o.token = false) : text.hasLiteral = false := by
  have htaken := text_taken_le hread hbs
  obtain ⟨hspell, hgrouped⟩ := StringExpr.spell_of_read hread
  rw [htaken] at hspell
  rw [Bool.eq_false_iff, ne_eq, StringExpr.hasLiteral_iff hgrouped]
  rintro ⟨value, hvalue⟩
  rw [← show _ = text.tokens from hspell] at hvalue
  have hmem : Token.string value ∈ number.tokens := by
    rw [← show _ = number.tokens from has]
    exact List.map_subset _ (List.take_subset k as) hvalue
  have := number.admits_of_mem _ hmem
  simp [NumberExpr.admits] at this

lemma no_textComparison_numbers {op : Comparison} {a b : NumberExpr} (hop : op ≠ .maskEqual)
    (hrest : Free rest) (h : Spell ls ((compareNumbers op a b).tokens unary)) :
    textComparison? (ls ++ rest) = none := by
  obtain ⟨la, o, lb, rfl, hla, ho, hlb⟩ := Spell.between h
  rw [within_of_le _ a.level_bounds.1] at hla
  rw [within_of_le _ b.level_bounds.1] at hlb
  rw [List.append_assoc, List.cons_append, textComparison?]
  rcases hsome : comparison? StringExpr.read Comparison.ofTexts? (la ++ o :: (lb ++ rest)) with
    _ | ⟨other, left, right, n⟩
  · rfl
  obtain ⟨k, l, behind, m, hleft, hdrop, hcompare, hright, -⟩ := comparison?_eq_some.mp hsome
  have hstop : ∀ l ∈ (o :: (lb ++ rest)).head?, StringExpr.admits l.token = false := by
    cases op <;> simp [ho, StringExpr.admits, Comparison.mark]
  have htaken := congrArg List.length (text_taken_le hleft hstop)
  simp only [List.length_take, List.length_append, List.length_cons] at htaken
  -- the texts are compared at a token inside the left number
  by_cases hk : k < la.length
  · have hmem : l ∈ la := by
      rw [List.drop_append_of_le_length (by omega), List.drop_eq_getElem_cons hk,
        List.cons_append, List.cons.injEq] at hdrop
      exact hdrop.1 ▸ List.getElem_mem hk
    have hadmits := a.admits_of_mem l.token (hla ▸ List.mem_map_of_mem hmem)
    unfold Comparison.ofTexts? at hcompare
    split at hcompare <;> simp_all [NumberExpr.admits]
  · -- the texts are the numbers, so no literal occurs in them
    obtain rfl : k = la.length := by omega
    obtain ⟨rfl, rfl⟩ : o = l ∧ lb ++ rest = behind := by simpa using hdrop
    obtain rfl := Comparison.ofTexts?_mark_eq (ho ▸ hcompare)
    have hl := not_hasLiteral_of_number hla hleft hstop
    have hr := not_hasLiteral_of_number hlb hright
      fun l hl => Token.not_admits_of_endsCondition (hrest l hl)
    simp [hop, hl, hr]

/-! ### What the readers take -/

/-- The readers of all levels take the condition as an operand of their level. -/
structure IsRead (unary : Nat) (e : BoolExpr) : Prop where
  primary : ∀ {ls : List Lexeme} (rest : List Lexeme),
    Spell ls (within 7 e.level (e.tokens unary)) → readPrimary (ls ++ rest) = ⟨.ok e, ls.length⟩
  term : ∀ {wanted : Nat} {ls rest : List Lexeme}, 3 ≤ wanted → wanted ≤ 7 → Free rest →
    Spell ls (within wanted e.level (e.tokens unary)) →
      readTerm (ls ++ rest) = ⟨.ok e, ls.length⟩
  conjunction : ∀ {ls : List Lexeme} (rest : List Lexeme), Free rest →
    Spell ls (within 2 e.level (e.tokens unary)) →
      readConjunction (ls ++ rest) = (readConjuncts e rest).after ls.length
  condition : ∀ {ls : List Lexeme} (rest : List Lexeme), Free rest →
    (∀ l ∈ rest.head?, l.token ≠ .mark .and) → Spell ls (e.tokens unary) →
      read (ls ++ rest) = (readDisjunction e rest).after ls.length

lemma readConjunction_of_readTerm (hlevel : e.level ≠ 2)
    (term : Spell ls (within 3 e.level (e.tokens unary)) →
      readTerm (ls ++ rest) = ⟨.ok e, ls.length⟩)
    (h : Spell ls (within 2 e.level (e.tokens unary))) :
    readConjunction (ls ++ rest) = (readConjuncts e rest).after ls.length := by
  have hsame : within 2 e.level (e.tokens unary) = within 3 e.level (e.tokens unary) := by
    unfold Token.within
    congr 1
    simp only [eq_iff_iff]
    omega
  rw [readConjunction, term (hsame ▸ h)]
  simp

lemma read_of_readConjunction (hrest : ∀ l ∈ rest.head?, l.token ≠ .mark .and)
    (conjunction : readConjunction (ls ++ rest) = (readConjuncts e rest).after ls.length) :
    read (ls ++ rest) = (readDisjunction e rest).after ls.length := by
  rw [read, conjunction, readConjuncts_of_ne hrest]
  simp

lemma readPrimary_of_read (hlevel : e.level < 7)
    (condition : ∀ {ls : List Lexeme} (rest : List Lexeme), Free rest →
      (∀ l ∈ rest.head?, l.token ≠ .mark .and) → Spell ls (e.tokens unary) →
        read (ls ++ rest) = (readDisjunction e rest).after ls.length)
    (rest : List Lexeme) (h : Spell ls (within 7 e.level (e.tokens unary))) :
    readPrimary (ls ++ rest) = ⟨.ok e, ls.length⟩ := by
  rw [within_of_lt _ hlevel] at h
  obtain ⟨l, inner, r, rfl, hl, hinner, hr⟩ := h.inside
  have hread := condition (r :: rest) (by simp [Free, hr, Token.endsCondition])
    (by simp [hr]) hinner
  rw [readDisjunction_of_none (by simp [hr, disjunctionOp?])] at hread
  have hlist : l :: (inner ++ [r]) ++ rest = l :: (inner ++ r :: rest) := by simp
  rw [hlist, readPrimary]
  simp [hl, hread, hr]
  omega

lemma readTerm_of_readPrimary (htyped : e.Typed) (hvar : e.isVar = false) (hrest : Free rest)
    (h : Spell ls (within 7 e.level (e.tokens unary)))
    (primary : readPrimary (ls ++ rest) = ⟨.ok e, ls.length⟩) :
    readTerm (ls ++ rest) = ⟨.ok e, ls.length⟩ := by
  obtain ⟨htext, hnumber⟩ := no_comparison_operand htyped hvar rest h
  obtain ⟨l, tail, rfl, hl⟩ := start_of_operand h
  rw [List.cons_append] at htext hnumber primary ⊢
  rw [readTerm_of_none hl htext hnumber, primary]
  simp [readEquality_of_free hrest]

lemma isVar_eq_false_of_level (h : e.level < 7) : e.isVar = false := by
  cases e <;> simp_all [isVar, level]

/-- What is put in parentheses at one place is put in parentheses at all places that ask for more.
-/
lemma within_of_lt_of_le {wanted : Nat} (hlevel : e.level < wanted) (hwanted : wanted ≤ 7) :
    within wanted e.level (e.tokens unary) = within 7 e.level (e.tokens unary) := by
  rw [within_of_lt _ hlevel, within_of_lt _ (by omega)]

namespace IsRead

lemma of_term (htyped : e.Typed) (hlevel : 3 ≤ e.level)
    (term : ∀ {ls rest : List Lexeme}, Free rest → Spell ls (e.tokens unary) →
      readTerm (ls ++ rest) = ⟨.ok e, ls.length⟩)
    (primary : e.level = 7 → ∀ {ls : List Lexeme} (rest : List Lexeme),
      Spell ls (e.tokens unary) → readPrimary (ls ++ rest) = ⟨.ok e, ls.length⟩) :
    e.IsRead unary := by
  have hconjunction : ∀ {ls : List Lexeme} (rest : List Lexeme), Free rest →
      Spell ls (within 2 e.level (e.tokens unary)) →
        readConjunction (ls ++ rest) = (readConjuncts e rest).after ls.length := by
    intro ls rest hrest h
    refine readConjunction_of_readTerm (by omega) (fun h => term hrest ?_) h
    rwa [within_of_le _ hlevel] at h
  have hcondition : ∀ {ls : List Lexeme} (rest : List Lexeme), Free rest →
      (∀ l ∈ rest.head?, l.token ≠ .mark .and) → Spell ls (e.tokens unary) →
        read (ls ++ rest) = (readDisjunction e rest).after ls.length := by
    intro ls rest hrest hand h
    refine read_of_readConjunction hand (hconjunction rest hrest ?_)
    rwa [within_of_le _ (by omega)]
  have hprimary : ∀ {ls : List Lexeme} (rest : List Lexeme),
      Spell ls (within 7 e.level (e.tokens unary)) →
        readPrimary (ls ++ rest) = ⟨.ok e, ls.length⟩ := by
    intro ls rest h
    by_cases hleaf : e.level < 7
    · exact readPrimary_of_read hleaf hcondition rest h
    · rw [within_of_le _ (by omega)] at h
      exact primary (by have := e.level_le; omega) rest h
  refine ⟨hprimary, fun {wanted ls rest} _ hwanted hrest h => ?_, hconjunction, hcondition⟩
  by_cases hle : wanted ≤ e.level
  · rw [within_of_le _ hle] at h
    exact term hrest h
  · rw [within_of_lt_of_le (by omega) hwanted] at h
    exact readTerm_of_readPrimary htyped (isVar_eq_false_of_level (by omega)) hrest h
      (hprimary rest h)

lemma of_condition (htyped : e.Typed) (hlevel : e.level < 3)
    (condition : ∀ {ls : List Lexeme} (rest : List Lexeme), Free rest →
      (∀ l ∈ rest.head?, l.token ≠ .mark .and) → Spell ls (e.tokens unary) →
        read (ls ++ rest) = (readDisjunction e rest).after ls.length)
    (conjunction : e.level = 2 → ∀ {ls : List Lexeme} (rest : List Lexeme), Free rest →
      Spell ls (e.tokens unary) →
        readConjunction (ls ++ rest) = (readConjuncts e rest).after ls.length) :
    e.IsRead unary := by
  have hprimary : ∀ {ls : List Lexeme} (rest : List Lexeme),
      Spell ls (within 7 e.level (e.tokens unary)) →
        readPrimary (ls ++ rest) = ⟨.ok e, ls.length⟩ := by
    intro ls rest h
    exact readPrimary_of_read (by omega) condition rest h
  have hterm : ∀ {wanted : Nat} {ls rest : List Lexeme}, 3 ≤ wanted → wanted ≤ 7 → Free rest →
      Spell ls (within wanted e.level (e.tokens unary)) →
        readTerm (ls ++ rest) = ⟨.ok e, ls.length⟩ := by
    intro wanted ls rest hthree hwanted hrest h
    rw [within_of_lt_of_le (by omega) hwanted] at h
    exact readTerm_of_readPrimary htyped (isVar_eq_false_of_level (by omega)) hrest h
      (hprimary rest h)
  refine ⟨hprimary, hterm, fun {ls} rest hrest h => ?_, condition⟩
  by_cases htwo : e.level = 2
  · rw [within_of_le _ (by omega)] at h
    exact conjunction htwo rest hrest h
  · exact readConjunction_of_readTerm htwo (hterm (Nat.le_refl 3) (by omega) hrest) h

lemma const (value : Bool) : (BoolExpr.const value).IsRead unary := by
  have hprimary : ∀ {ls : List Lexeme} (rest : List Lexeme),
      Spell ls ((BoolExpr.const value).tokens unary) →
        readPrimary (ls ++ rest) = ⟨.ok (.const value), ls.length⟩ := by
    intro ls rest h
    obtain ⟨l, rfl, hl⟩ := Spell.single h
    cases value <;> simp [readPrimary, hl]
  refine of_term trivial (by simp [level]) (fun hrest h => ?_) fun _ => hprimary
  have hoperand : Spell _ (within 7 7 ((BoolExpr.const value).tokens unary)) := h
  exact readTerm_of_readPrimary trivial rfl hrest hoperand (hprimary _ h)

lemma var (name : String) : (BoolExpr.var name).IsRead unary := by
  have hprimary : ∀ {ls : List Lexeme} (rest : List Lexeme),
      Spell ls ((BoolExpr.var name).tokens unary) →
        readPrimary (ls ++ rest) = ⟨.ok (.var name), ls.length⟩ := by
    intro ls rest h
    obtain ⟨l, rfl, hl⟩ := Spell.single h
    simp [readPrimary, hl]
  refine of_term trivial (by simp [level]) (fun {ls rest} hrest h => ?_) fun _ => hprimary
  have hread := hprimary rest h
  obtain ⟨l, rfl, hl⟩ := Spell.single h
  obtain ⟨htext, hnumber⟩ := no_comparison_name hl hrest
  rw [List.singleton_append] at hread ⊢
  rw [readTerm_of_none (by simp [hl]) htext hnumber, hread]
  simp [readEquality_of_free hrest]

lemma not (hunary : 3 ≤ unary ∧ unary ≤ 7) (htyped : e.Typed) (he : e.IsRead unary) :
    (BoolExpr.not e).IsRead unary := by
  refine of_term htyped (by simp [level]) (fun {ls rest} hrest h => ?_) (by simp [level])
  obtain ⟨l, operand, rfl, hl, hoperand⟩ := Spell.cons h
  have hread := he.term hunary.1 hunary.2 hrest hoperand
  rw [List.cons_append, readTerm]
  simp [hl, hread, Nat.add_comm]

lemma compareNumbers {op : Comparison} {a b : NumberExpr}
    (htyped : (BoolExpr.compareNumbers op a b).Typed) :
    (BoolExpr.compareNumbers op a b).IsRead unary := by
  refine of_term htyped (by simp [level]) (fun {ls rest} hrest h => ?_) (by simp [level])
  -- texts are attempted first, and fail
  have htext := no_textComparison_numbers htyped hrest h
  obtain ⟨la, o, lb, rfl, hla, ho, hlb⟩ := Spell.between h
  rw [within_of_le _ a.level_bounds.1] at hla
  rw [within_of_le _ b.level_bounds.1] at hlb
  obtain ⟨hsum, hterm⟩ := Token.no_arithmetic_of_isLogical (ho ▸ Token.isLogical_comparison op)
  have hleft := a.read_spell (o :: (lb ++ rest)) hla (by simpa using hsum)
    (by simpa using hterm)
  have hright := b.read_spell rest hlb
    (fun l hl => (Token.no_arithmetic_of_endsCondition (hrest l hl)).1)
    fun l hl => (Token.no_arithmetic_of_endsCondition (hrest l hl)).2
  have hnumber := comparison?_append hleft (ho ▸ Comparison.ofNumbers?_mark htyped) hright
  rw [List.append_assoc, List.cons_append] at htext ⊢
  have hsome : (textComparison? (la ++ o :: (lb ++ rest))).or
      (numberComparison? (la ++ o :: (lb ++ rest))) =
        some (.compareNumbers op a b, la.length + 1 + lb.length) := by
    rw [htext, numberComparison?, hnumber]
    rfl
  rw [readTerm_of_some hsome]
  simp [Nat.add_comm, Nat.add_left_comm]

lemma compareStrings {op : Comparison} {a b : StringExpr}
    (htyped : (BoolExpr.compareStrings op a b).Typed) :
    (BoolExpr.compareStrings op a b).IsRead unary := by
  refine of_term htyped (by simp [level]) (fun {ls rest} hrest h => ?_) (by simp [level])
  obtain ⟨hop, ha, hb, hliteral⟩ := htyped
  obtain ⟨la, o, lb, rfl, hla, ho, hlb⟩ := Spell.between h
  rw [within_of_le _ a.four_le_level] at hla
  rw [within_of_le _ b.four_le_level] at hlb
  have hleft := a.read_spell (o :: (lb ++ rest)) ha hla
    (by simpa [ho] using op.mark_ne_plus)
  have hright := b.read_spell rest hb hlb fun l hl => ?_
  · have htext := comparison?_append hleft (ho ▸ Comparison.ofTexts?_mark hop) hright
    have hsome : textComparison? (la ++ o :: (lb ++ rest)) =
        some (.compareStrings op a b, la.length + 1 + lb.length) := by
      rw [textComparison?, htext]
      simp [hliteral, or_assoc]
    rw [List.append_assoc, List.cons_append, readTerm_of_some (by rw [hsome]; rfl)]
    simp [Nat.add_comm, Nat.add_left_comm]
  · intro heq
    have := Token.not_admits_of_endsCondition (hrest l hl)
    simp [heq, StringExpr.admits] at this

lemma compareBools {op : Comparison} (htyped : (BoolExpr.compareBools op left right).Typed)
    (hl : left.IsRead unary) (hr : right.IsRead unary) :
    (BoolExpr.compareBools op left right).IsRead unary := by
  refine of_term htyped (by simp [level]) (fun {ls rest} hrest h => ?_) (by simp [level])
  obtain ⟨htext, hnumber⟩ := no_comparison_conditions htyped rest h
  obtain ⟨la, o, lb, rfl, hla, ho, hlb⟩ := Spell.between h
  have hleft := hl.primary (o :: (lb ++ rest)) hla
  have hright := hr.primary rest hlb
  have hequality : readEquality left (o :: (lb ++ rest)) =
      ⟨.ok (.compareBools op left right), 1 + lb.length⟩ := by
    rw [readEquality]
    simp [ho, Comparison.ofConditions?_mark htyped.1, hright]
  obtain ⟨l, tail, rfl, hnot⟩ := start_of_operand hla
  simp only [List.append_assoc, List.cons_append] at htext hnumber hleft ⊢
  rw [readTerm_of_none hnot htext hnumber, hleft]
  simp [hequality]
  omega

lemma conjunctionOf (htyped : (BoolExpr.logical .and left right).Typed)
    (hl : left.IsRead unary) (hr : right.IsRead unary) :
    (BoolExpr.logical .and left right).IsRead unary := by
  have hconjunction : ∀ {ls : List Lexeme} (rest : List Lexeme), Free rest →
      Spell ls ((BoolExpr.logical .and left right).tokens unary) →
        readConjunction (ls ++ rest) =
          (readConjuncts (.logical .and left right) rest).after ls.length := by
    intro ls rest hrest h
    obtain ⟨la, o, lb, rfl, hla, ho, hlb⟩ := Spell.between h
    have hleft := hl.conjunction (o :: (lb ++ rest)) (by simp [Free, ho]; rfl) hla
    have hright := hr.term (Nat.le_refl 3) (by omega) hrest hlb
    have hstep : readConjuncts left (o :: (lb ++ rest)) =
        (readConjuncts (.logical .and left right) rest).after (1 + lb.length) := by
      conv_lhs => rw [readConjuncts]
      simp [ho, Connective.mark, hright]
    rw [List.append_assoc, List.cons_append, hleft, hstep]
    simp [Nat.add_comm]
  refine of_condition htyped (by simp [level, Connective.level]) (fun rest hrest hand h => ?_)
    fun _ => hconjunction
  exact read_of_readConjunction hand (hconjunction rest hrest h)

lemma disjunctionOf {op : Connective} (hop : op ≠ .and)
    (htyped : (BoolExpr.logical op left right).Typed) (hl : left.IsRead unary)
    (hr : right.IsRead unary) : (BoolExpr.logical op left right).IsRead unary := by
  have hlevel : op.level = 1 := by cases op <;> first | rfl | simp at hop
  refine of_condition htyped (by simp [level, hlevel]) (fun {ls} rest hrest hand h => ?_)
    (by simp [level, hlevel])
  obtain ⟨la, o, lb, rfl, hla, ho, hlb⟩ := Spell.between h
  rw [hlevel] at hla hlb
  rw [within_of_le _ left.level_le.1] at hla
  -- what follows the left operand does not belong to it
  have hfree : Free (o :: (lb ++ rest)) := by cases op <;> simp [Free, ho] <;> rfl
  have hnot : ∀ l ∈ (o :: (lb ++ rest)).head?, l.token ≠ .mark .and := by
    cases op <;> simp_all [Connective.mark]
  have hleft := hl.condition _ hfree hnot hla
  have hright := hr.conjunction rest hrest hlb
  rw [readConjuncts_of_ne hand] at hright
  have hsome : disjunctionOp? o.token = some op := by
    cases op <;> simp_all [Connective.mark, disjunctionOp?]
  have hstep : readDisjunction left (o :: (lb ++ rest)) =
      (readDisjunction (.logical op left right) rest).after (1 + lb.length) := by
    conv_lhs => rw [readDisjunction]
    simp [hsome, hright]
  rw [List.append_assoc, List.cons_append, hleft, hstep]
  simp [Nat.add_comm]

end IsRead

/-- Every condition that can be read is read back at every level. -/
theorem isRead (hunary : 3 ≤ unary ∧ unary ≤ 7) (e : BoolExpr) (htyped : e.Typed) :
    e.IsRead unary := by
  induction e with
  | const value => exact .const value
  | var name => exact .var name
  | not operand ih => exact .not hunary htyped (ih htyped)
  | logical op left right ihl ihr =>
    by_cases hop : op = .and
    · subst hop
      exact .conjunctionOf htyped (ihl htyped.1) (ihr htyped.2)
    · exact .disjunctionOf hop htyped (ihl htyped.1) (ihr htyped.2)
  | compareNumbers op left right => exact .compareNumbers htyped
  | compareStrings op left right => exact .compareStrings htyped
  | compareBools op left right ihl ihr =>
    exact .compareBools htyped (ihl htyped.2.1) (ihr htyped.2.2.1)

/-- **Conditions round-trip.** The tokens of a condition read as that condition, in front of what
may stand behind one and is no connective. -/
theorem read_spell (hunary : 3 ≤ unary ∧ unary ≤ 7) (e : BoolExpr) (rest : List Lexeme)
    (htyped : e.Typed) (h : Spell ls (e.tokens unary)) (hrest : Free rest)
    (hconnective : ∀ l ∈ rest.head?, ¬l.token.isLogical) :
    read (ls ++ rest) = ⟨.ok e, ls.length⟩ := by
  have hand : ∀ l ∈ rest.head?, l.token ≠ .mark .and := by
    rintro l hl heq
    exact hconnective l hl (by rw [heq]; rfl)
  have hor : ∀ l ∈ rest.head?, disjunctionOp? l.token = none := by
    intro l hl
    have := hconnective l hl
    unfold disjunctionOp?
    split <;> simp_all [Token.isLogical, Expr.isLogical]
  rw [(isRead hunary e htyped).condition rest hrest hand h, readDisjunction_of_none hor]
  simp

end BoolExpr

end QuestScript

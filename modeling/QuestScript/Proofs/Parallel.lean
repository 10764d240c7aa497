import Mathlib.Data.List.Forall2
import QuestScript.Proofs.Correspondence
import QuestScript.Proofs.Program.Renumbering

/-!
Parallel readings.

Two texts that have the same tokens, perhaps at other places, are read in step: readers take the
same lexemes of both, make reports that answer to one another, and come to results that differ only
in line numbers. A parallel says which places, lines and reports answer to one another. The laws it
has to obey are about single texts and reports, and from them the readers of statements, lines,
programs and actions follow.

Lexemes behind the line that is read do not matter. So lists of lexemes go abreast up to the end of
their first line, and readers leave lists that still go abreast.
-/

namespace QuestScript

structure Parallel where
  /-- Reports that answer to one another. -/
  report : Report → Report → Prop
  /-- The line that answers to a line. -/
  line : Nat → Nat
  /-- The text is read at both places. -/
  text : Position → Position → List Char → Prop

namespace Parallel

variable (P : Parallel)

/-- The same token is read at both places, and so is its payload. -/
structure Lexemes (l l' : Lexeme) : Prop where
  token : l'.token = l.token
  start : P.text l.start l'.start []
  payload {carrier : Carrier} {text : String} (h : l.token = .payload carrier text) :
    P.text l.payloadStart l'.payloadStart text.toList

/-- Both lists have the same tokens up to the end of the first line. Where they have no line break,
the ends of their sources answer to one another as well. -/
inductive Abreast (finish finish' : Lexeme) : List Lexeme → List Lexeme → Prop
  | ended (h : P.Lexemes finish finish') : Abreast finish finish' [] []
  | lineBreak {l l' : Lexeme} (rest rest' : List Lexeme) (h : P.Lexemes l l')
      (hl : l.token = .mark .lineBreak) : Abreast finish finish' (l :: rest) (l' :: rest')
  | cons {l l' : Lexeme} {rest rest' : List Lexeme} (h : P.Lexemes l l')
      (hrest : Abreast finish finish' rest rest') : Abreast finish finish' (l :: rest) (l' :: rest')

/-- Refusals of one kind for reports that answer to one another. -/
inductive Refusals : Refusal → Refusal → Prop
  | dropped {r r' : Report} (h : P.report r r') : Refusals (.dropped r) (.dropped r')
  | aborted {r r' : Report} (h : P.report r r') : Refusals (.aborted r) (.aborted r')

/-- Outcomes of one kind, whose reports answer to one another and whose results are in the
relation. -/
inductive Outcomes {α β : Type} (R : α → β → Prop) : Outcome Refusal α → Outcome Refusal β → Prop
  | ok {rs rs' : List Report} {a : α} {b : β} (hrs : List.Forall₂ P.report rs rs') (h : R a b) :
      Outcomes R ⟨rs, .ok a⟩ ⟨rs', .ok b⟩
  | error {rs rs' : List Report} {e e' : Refusal} (hrs : List.Forall₂ P.report rs rs')
      (h : P.Refusals e e') : Outcomes R ⟨rs, .error e⟩ ⟨rs', .error e'⟩

/-- The reading is the same for both lists, and what it leaves of them goes abreast. -/
structure Readings {α : Type} (finish finish' : Lexeme) (ts ts' : List Lexeme)
    (r r' : Reading α) : Prop where
  same : r' = r
  rest : P.Abreast finish finish' (ts.drop r.taken) (ts'.drop r.taken)

/-- The outcomes of both parses are in the relation, and what the parses leave of the two lists goes
abreast. -/
structure Parses {α β : Type} (finish finish' : Lexeme) (ts ts' : List Lexeme) (R : α → β → Prop)
    (x : Parsed Refusal α) (y : Parsed Refusal β) : Prop where
  outcomes : P.Outcomes R x.outcome y.outcome
  taken : y.taken = x.taken
  rest : P.Abreast finish finish' (ts.drop x.taken) (ts'.drop x.taken)

variable {P} {α β γ δ : Type} {R : α → β → Prop} {S : γ → δ → Prop}

/-! ### Outcomes -/

namespace Outcomes

variable {o : Outcome Refusal α} {o' : Outcome Refusal β} {rs rs' : List Report}

lemma pure {a : α} {b : β} (h : R a b) : P.Outcomes R (.pure a) (.pure b) := .ok .nil h

lemma drop {fault fault' : Fault} {p p' : Position} (h : P.report ⟨fault, p⟩ ⟨fault', p'⟩) :
    P.Outcomes R (.drop fault p) (.drop fault' p') := .error .nil (.dropped h)

lemma map {f : α → γ} {g : β → δ} (h : P.Outcomes R o o') (hS : ∀ a b, R a b → S (f a) (g b)) :
    P.Outcomes S (o.map f) (o'.map g) := by
  cases h with
  | ok hrs h => exact .ok hrs (hS _ _ h)
  | error hrs h => exact .error hrs h

lemma after (hrs : List.Forall₂ P.report rs rs') (h : P.Outcomes R o o') :
    P.Outcomes R (o.after rs) (o'.after rs') := by
  cases h with
  | ok hmore h => exact .ok (List.rel_append hrs hmore) h
  | error hmore h => exact .error (List.rel_append hrs hmore) h

lemma bind {next : α → Outcome Refusal γ} {next' : β → Outcome Refusal δ} (h : P.Outcomes R o o')
    (hnext : ∀ a b, R a b → P.Outcomes S (next a) (next' b)) :
    P.Outcomes S (o.bind next) (o'.bind next') := by
  cases h with
  | ok hrs h => exact (hnext _ _ h).after hrs
  | error hrs h => exact .error hrs h

lemma recover (h : P.Outcomes R o o') : P.Outcomes (Option.Rel R) o.recover o'.recover := by
  cases h with
  | ok hrs h => exact .ok hrs (.some h)
  | error hrs h =>
    cases h with
    | dropped h => exact .ok (List.rel_append hrs (.cons h .nil)) .none
    | aborted h => exact .error hrs (.aborted h)

end Outcomes

/-! ### Lexemes -/

namespace Abreast

variable {finish finish' l l' : Lexeme} {rest rest' ts ts' : List Lexeme}

lemma head (h : P.Abreast finish finish' (l :: rest) (l' :: rest')) : P.Lexemes l l' := by
  cases h with
  | lineBreak _ _ h _ => exact h
  | cons h _ => exact h

lemma tail (h : P.Abreast finish finish' (l :: rest) (l' :: rest'))
    (hl : l.token ≠ .mark .lineBreak) : P.Abreast finish finish' rest rest' := by
  cases h with
  | lineBreak _ _ _ hbreak => exact absurd hbreak hl
  | cons _ h => exact h

lemma headD (h : P.Abreast finish finish' ts ts') :
    P.Lexemes (ts.headD finish) (ts'.headD finish') := by
  cases h with
  | ended h => exact h
  | lineBreak _ _ h _ => exact h
  | cons h _ => exact h

lemma cases_on (h : P.Abreast finish finish' ts ts') :
    (ts = [] ∧ ts' = []) ∨ ∃ l l' rest rest', ts = l :: rest ∧ ts' = l' :: rest' ∧
      P.Lexemes l l' := by
  cases h with
  | ended _ => exact .inl ⟨rfl, rfl⟩
  | lineBreak _ _ h _ => exact .inr ⟨_, _, _, _, rfl, rfl, h⟩
  | cons h _ => exact .inr ⟨_, _, _, _, rfl, rfl, h⟩

end Abreast

/-! ### Parses -/

namespace Parses

variable {finish finish' l l' : Lexeme} {rest rest' ts ts' : List Lexeme} {x : Parsed Refusal α}
  {y : Parsed Refusal β}

lemma of_outcomes (h : P.Abreast finish finish' ts ts') {o : Outcome Refusal α}
    {o' : Outcome Refusal β} (ho : P.Outcomes R o o') :
    P.Parses finish finish' ts ts' R ⟨o, 0⟩ ⟨o', 0⟩ := ⟨ho, rfl, h⟩

lemma map {f : α → γ} {g : β → δ} (h : P.Parses finish finish' ts ts' R x y)
    (hS : ∀ a b, R a b → S (f a) (g b)) :
    P.Parses finish finish' ts ts' S (x.map f) (y.map g) := ⟨h.outcomes.map hS, h.taken, h.rest⟩

lemma after {n : Nat} (h : P.Parses finish finish' (ts.drop n) (ts'.drop n) R x y) :
    P.Parses finish finish' ts ts' R (x.after n) (y.after n) := by
  refine ⟨h.outcomes, congrArg (n + ·) h.taken, ?_⟩
  have := h.rest
  rwa [List.drop_drop, List.drop_drop] at this

lemma recover (h : P.Parses finish finish' ts ts' R x y) :
    P.Parses finish finish' ts ts' (Option.Rel R) ⟨x.outcome.recover, x.taken⟩
      ⟨y.outcome.recover, y.taken⟩ := ⟨h.outcomes.recover, h.taken, h.rest⟩

lemma bind {next : α → Nat → Parsed Refusal γ} {next' : β → Nat → Parsed Refusal δ}
    (h : P.Parses finish finish' ts ts' R x y)
    (hnext : ∀ a b, x.result = .ok a → R a b →
      P.Abreast finish finish' (ts.drop x.taken) (ts'.drop x.taken) →
      P.Parses finish finish' (ts.drop x.taken) (ts'.drop x.taken) S (next a x.taken)
        (next' b x.taken)) :
    P.Parses finish finish' ts ts' S (x.bind next) (y.bind next') := by
  obtain ⟨ho, htaken, hrest⟩ := h
  rcases x with ⟨o, k⟩
  rcases y with ⟨o', k'⟩
  obtain rfl : k' = k := htaken
  cases ho with
  | ok hrs hab =>
    obtain ⟨houtcomes, hmore, hleft⟩ := hnext _ _ rfl hab hrest
    refine ⟨houtcomes.after hrs, congrArg (k' + ·) hmore, ?_⟩
    rw [List.drop_drop, List.drop_drop] at hleft
    exact hleft
  | error hrs h => exact ⟨.error hrs h, rfl, hrest⟩

end Parses

/-! ### Laws -/

/-- What a parallel has to obey for the readers of texts on one line. -/
structure Lawful (P : Parallel) : Prop where
  /-- A part of a text is read where it stands in the text. -/
  part {p p' : Position} {front cs back : List Char} (h : P.text p p' (front ++ cs ++ back)) :
    P.text (p.right front.length) (p'.right front.length) cs
  line {p p' : Position} {cs : List Char} (h : P.text p p' cs) : p'.line = P.line p.line
  fault {p p' : Position} {cs : List Char} {fault : Fault} (h : P.text p p' cs)
    (hkind : fault.kind = .syntactic) (hlimit : ∀ n, fault ≠ .nestingLimit n) :
    P.report ⟨fault, p⟩ ⟨fault, p'⟩
  code {p p' : Position} {cs : List Char} (code : String) (h : P.text p p' ('#' :: cs)) :
    P.report ⟨.badCharacterCode code, p⟩ ⟨.badCharacterCode code, p'⟩
  reports {p p' : Position} {cs : List Char} (h : P.text p p' cs) :
    List.Forall₂ P.report (Scan.read .fresh p cs).reports (Scan.read .fresh p' cs).reports
  lexemes {p p' : Position} {cs : List Char} (h : P.text p p' cs) :
    List.Forall₂ P.Lexemes (Scan.read .fresh p cs).lexemes (Scan.read .fresh p' cs).lexemes

namespace Lawful

open Text

variable {p p' : Position} {front cs back : List Char}

lemma trimmed (hP : P.Lawful) (h : P.text p p' (front ++ cs ++ back)) :
    P.text (p.right (front.length + leadingBlanks cs)) (p'.right (front.length + leadingBlanks cs))
      (trim cs) := by
  obtain ⟨blanks, tail, hcs, hlen⟩ := trim_part cs
  rw [← hlen, ← List.length_append]
  have hpart : P.text p p' (front ++ blanks ++ trim cs ++ (tail ++ back)) := by
    rw [hcs] at h
    simpa using h
  exact hP.part hpart

lemma start (hP : P.Lawful) (h : P.text p p' cs) : P.text p p' [] := by
  have hpart : P.text p p' ([] ++ [] ++ cs) := h
  exact hP.part hpart

lemma missing (hP : P.Lawful) {finish finish' : Lexeme} {ts ts' : List Lexeme}
    (h : P.Abreast finish finish' ts ts') (wanted : Wanted) :
    P.report (.missing wanted finish ts) (.missing wanted finish' ts') := by
  have hmet := h.headD
  simp only [Report.missing, hmet.token]
  exact hP.fault hmet.start rfl (by simp)

end Lawful

lemma abreast_of_forall₂ {finish finish' : Lexeme} {ts ts' : List Lexeme}
    (h : List.Forall₂ P.Lexemes ts ts') (hfinish : P.Lexemes finish finish') :
    P.Abreast finish finish' ts ts' := by
  induction h with
  | nil => exact .ended hfinish
  | cons hl _ ih => exact .cons hl ih

/-- Nothing of the ends of the sources is seen from lists that end with a line break. -/
lemma abreast_of_getLast? {finish finish' : Lexeme} {ts ts' : List Lexeme}
    (h : List.Forall₂ P.Lexemes ts ts') (hne : ts ≠ [])
    (hlast : ∀ l ∈ ts.getLast?, l.token = .mark .lineBreak) : P.Abreast finish finish' ts ts' := by
  induction h with
  | nil => exact absurd rfl hne
  | @cons l l' rest rest' hl hrest ih =>
    rcases hrest with _ | ⟨_, _⟩
    · exact .lineBreak _ _ hl (hlast l rfl)
    · exact .cons hl (ih (by simp) (by simpa using hlast))

end Parallel

end QuestScript

import Mathlib.Algebra.GroupWithZero.Nat
import QuestScript.Proofs.Expr.Locality
import QuestScript.Proofs.Program.Composition
import QuestScript.Proofs.Program.Lenient
import QuestScript.Proofs.Program.Typing

/-!
Statements on one line do not touch one another.

Ampersands cut a line into segments. One statement is read at the front of a segment, or reported
and left out, and the rest of the segment is passed over. No reader looks behind the end of the
segment but to say what it met there, so a segment without conditionals comes to the same in front
of every separator: the same statement, if any, and as many reports.
-/

namespace QuestScript

open QuestScript.Expr (Ended admits)
open Lexeme (Coincide)
open Statement (startsWith continues)

variable {α : Type} {action : ActionReader} {finish finish' l sep lineEnd : Lexeme}
  {rest rest' ts ts' more seg : List Lexeme}

/-! ### Parses that differ in what is reported -/

/-- Reports are counted and not looked at. -/
def Parallel.counted : Parallel where
  report _ _ := True
  line := id
  text p p' _ := p' = p

/-- Both parses take the same lexemes and come to the same, with as many reports. -/
structure Parsed.Twins (x y : Parsed Refusal α) : Prop where
  outcomes : Parallel.counted.Outcomes Eq x.outcome y.outcome
  taken : y.taken = x.taken

namespace Parsed.Twins

variable {β : Type} {x y : Parsed Refusal α} {rs : List Report} {kept : Option α} {k : Nat}

lemma refl (x : Parsed Refusal α) : Twins x x := by
  have hcount (rs : List Report) : List.Forall₂ Parallel.counted.report rs rs :=
    List.forall₂_same.mpr fun _ _ => trivial
  rcases x with ⟨⟨rs, (r | r) | a⟩, k⟩
  · exact ⟨.error (hcount rs) (.dropped trivial), rfl⟩
  · exact ⟨.error (hcount rs) (.aborted trivial), rfl⟩
  · exact ⟨.ok (hcount rs) rfl, rfl⟩

lemma dropped (r r' : Report) (k : Nat) :
    Twins (⟨.fail (.dropped r), k⟩ : Parsed Refusal α) ⟨.fail (.dropped r'), k⟩ :=
  ⟨.drop trivial, rfl⟩

lemma map (h : Twins x y) (f : α → β) : Twins (x.map f) (y.map f) :=
  ⟨h.outcomes.map fun _ _ heq => congrArg f heq, h.taken⟩

lemma after (h : Twins x y) (n : Nat) : Twins (x.after n) (y.after n) :=
  ⟨h.outcomes, congrArg (n + ·) h.taken⟩

lemma recover (h : Twins x y) (hx : x.recover = ⟨⟨rs, .ok kept⟩, k⟩) :
    ∃ rs', y.recover = ⟨⟨rs', .ok kept⟩, k⟩ ∧ rs'.length = rs.length := by
  have houtcomes : Parallel.counted.Outcomes (Option.Rel Eq) x.recover.outcome y.recover.outcome :=
    h.outcomes.recover
  have htaken : y.recover.taken = x.recover.taken := h.taken
  rw [hx] at houtcomes htaken
  rcases hy : y.recover with ⟨⟨rs', result⟩, k'⟩
  rw [hy] at houtcomes htaken
  obtain rfl : k' = k := htaken
  cases houtcomes with
  | ok hrs hkept =>
    refine ⟨rs', ?_, hrs.length_eq.symm⟩
    cases hkept with
    | none => rfl
    | some heq => rw [heq]

end Parsed.Twins

namespace Statement

open Parsed (Twins)

lemma twins_lift {read : List Lexeme → Reading α} (hlocal : Reading.Local read ts)
    (h : Coincide ts ts') :
    Twins (Context.lift ⟨.dropStatement, action, finish⟩ ts (read ts))
      (Context.lift ⟨.dropStatement, action, finish'⟩ ts' (read ts')) := by
  rw [(hlocal ts' h).same]
  unfold Context.lift
  split
  · exact .refl _
  · exact .dropped _ _ _

lemma readAssignment_of_ended (hfinish : finish.token = .mark .sourceEnd) (name : String)
    (h : Ended ts) :
    ∃ report, readAssignment ⟨.dropStatement, action, finish⟩ name ts =
      ⟨.fail (.dropped report), 0⟩ := by
  have hmet : (ts.headD finish).token ≠ .mark .equal := by
    rcases ts with _ | ⟨l, rest⟩
    · simp [hfinish]
    · exact Expr.ne_mark_of_not_admits rfl (h l rfl)
  unfold readAssignment
  rw [if_neg hmet]
  exact ⟨_, rfl⟩

lemma twins_readAssignment (hfinish : finish.token = .mark .sourceEnd)
    (hfinish' : finish'.token = .mark .sourceEnd) (name : String) (h : Coincide ts ts') :
    Twins (readAssignment ⟨.dropStatement, action, finish⟩ name ts)
      (readAssignment ⟨.dropStatement, action, finish'⟩ name ts') := by
  cases h with
  | ended h h' =>
    obtain ⟨report, hreport⟩ := readAssignment_of_ended hfinish name h
    obtain ⟨report', hreport'⟩ := readAssignment_of_ended hfinish' name h'
    rw [hreport, hreport']
    exact .dropped report report' 0
  | @cons l l' rest rest' hl hrest =>
    by_cases heq : l.token = .mark .equal
    · simp only [readAssignment, List.headD_cons, hl, heq, if_true, List.tail_cons]
      exact ((twins_lift (Expr.local_read rest) hrest).map _).after 1
    · simp only [readAssignment, List.headD_cons, hl, heq, if_false]
      exact .dropped _ _ 0

lemma readVariable_of_coincide (make : Option String → Statement) (h : Coincide ts ts') :
    readVariable make ts' = readVariable make ts := by
  have hended {us : List Lexeme} (hus : Ended us) :
      readVariable make us = ⟨.pure (make none), 0⟩ := by
    rcases us with _ | ⟨l, us⟩
    · rfl
    · have hl : admits l.token = false := hus l rfl
      simp only [readVariable]
      split <;> simp_all [admits]
  cases h with
  | ended h h' => rw [hended h, hended h']
  | cons hl _ => simp only [readVariable, hl]

lemma twins_readSimple (hfinish : finish.token = .mark .sourceEnd)
    (hfinish' : finish'.token = .mark .sourceEnd) (l : Lexeme) (h : Coincide rest rest') :
    Twins (readSimple ⟨.dropStatement, action, finish⟩ l rest)
      (readSimple ⟨.dropStatement, action, finish'⟩ l rest') := by
  unfold readSimple
  split
  · exact (twins_readAssignment hfinish hfinish' _ h).after 1
  · exact .refl _
  · exact .refl _
  · exact .refl _
  · exact .refl _
  · exact .refl _
  · rw [readVariable_of_coincide _ h]
    exact .refl _
  · rw [readVariable_of_coincide _ h]
    exact .refl _
  · exact ((twins_lift (NumberExpr.local_read rest) h).map _).after 1
  · exact .dropped _ _ _

end Statement

/-! ### Segments -/

namespace Lexeme

/-- The lexemes of one statement, or of something broken: there are some, and none of them ends a
statement or the source, or opens a conditional. -/
structure IsSegment (ts : List Lexeme) : Prop where
  ne_nil : ts ≠ []
  ne : ∀ m ∈ [Mark.ifWord, .ampersand, .lineBreak, .sourceEnd], ∀ l ∈ ts, l.token ≠ .mark m

variable (hseg : IsSegment seg)

include hseg

lemma IsSegment.endsStatement (hl : l ∈ seg) : l.endsStatement = false := by
  simp [Lexeme.endsStatement, hseg.ne .ampersand (by simp) l hl,
    hseg.ne .lineBreak (by simp) l hl]

end Lexeme

open Lexeme (IsSegment)

namespace Group

lemma outcome_readRest_append {ctx : Context} {behind : List Lexeme}
    (hbehind : ∀ l ∈ behind, l.endsStatement = false) (hsep : sep.endsStatement = true) :
    (readRest ctx (behind ++ sep :: more)).outcome = (readRest ctx (sep :: more)).outcome := by
  have hlength : Lexeme.statementLength (behind ++ sep :: more) = behind.length := by
    rw [Lexeme.statementLength, List.takeWhile_append_of_pos (by simpa using hbehind),
      List.takeWhile_cons_of_neg (by simp [hsep]), List.append_nil]
  have hzero : Lexeme.statementLength (sep :: more) = 0 :=
    statementLength_of_endsStatement (by simpa using hsep)
  unfold readRest restBy
  simp only [hlength, hzero, List.drop_left, List.drop_zero, ← List.drop_drop, List.drop_one]
  split
  · rfl
  · split <;> rfl

lemma length_trailing {ctx : Context} {behind : List Lexeme}
    (hbehind : ∀ l ∈ behind, l.endsStatement = false) (hsep : sep.endsStatement = true) :
    (trailing ctx (behind ++ sep :: more)).length = if behind.isEmpty then 0 else 1 := by
  unfold trailing
  rcases behind with _ | ⟨l, behind⟩
  · simp [hsep]
  · simp [hbehind l List.mem_cons_self]

lemma outcome_readLine_of_recover {ctx : Context} {rs : List Report} {kept : Option Statement}
    {k : Nat} (hl : l.token ≠ .mark .ifWord)
    (h : (Statement.read ctx (l :: rest)).recover = ⟨⟨rs, .ok kept⟩, k⟩) :
    (readLine ctx (l :: rest)).outcome =
      ((readRest ctx ((l :: rest).drop k)).outcome.map (kept.toList ++ ·)).after
        (rs ++ if kept.isSome then trailing ctx ((l :: rest).drop k) else []) := by
  rcases hread : Statement.read ctx (l :: rest) with ⟨⟨first, (report | cause) | s⟩, i⟩
  · obtain ⟨⟨rfl, rfl⟩, rfl⟩ : (first ++ [report] = rs ∧ none = kept) ∧ i = k := by
      simpa [hread] using h
    have hmap (o : Outcome Report (List Statement)) : o.map ([] ++ ·) = o := by
      rcases o with ⟨_, _ | _⟩ <;> rfl
    rw [readLine_of_dropped hl hread, Option.toList_none, hmap]
    simp
  · simp [hread] at h
  · obtain ⟨⟨rfl, rfl⟩, rfl⟩ : (first = rs ∧ some s = kept) ∧ i = k := by
      simpa [hread] using h
    rw [readLine_of_ok hread]
    rfl

/-- In front of every separator, whatever stands behind it, the lexemes are read as the statement,
if there is one, with so many reports. -/
def ReadsAs (action : ActionReader) (seg : List Lexeme) (kept : Option Statement) (n : Nat) :
    Prop :=
  ∀ finish sep more, finish.token = .mark .sourceEnd → sep.endsStatement = true →
    ∃ reports, reports.length = n ∧
      (readLine ⟨.dropStatement, action, finish⟩ (seg ++ sep :: more)).outcome =
        ((readRest ⟨.dropStatement, action, finish⟩ (sep :: more)).outcome.map
          (kept.toList ++ ·)).after reports

/-- **A segment is read by itself.** -/
theorem exists_readsAs (haction : ∀ place text, ¬(action place text).IsAborted)
    (hseg : IsSegment seg) : ∃ kept n, ReadsAs action seg kept n := by
  obtain ⟨l, rest, rfl⟩ := List.exists_cons_of_ne_nil hseg.ne_nil
  have hl : l.token ≠ .mark .ifWord := hseg.ne .ifWord (by simp) l List.mem_cons_self
  -- the segment in front of nothing, which others are compared with
  let alone : Context := ⟨.dropStatement, action, ⟨.mark .sourceEnd, "", .start⟩⟩
  obtain ⟨rs, kept, k, hrecover⟩ : ∃ rs kept k,
      (Statement.readSimple alone l rest).recover = ⟨⟨rs, .ok kept⟩, k⟩ := by
    have hlenient : alone.Lenient := ⟨rfl, haction⟩
    have hgoes := Statement.not_isAborted_readSimple hlenient l rest
    rcases hread : Statement.readSimple alone l rest with ⟨⟨first, (report | cause) | s⟩, k⟩
    · exact ⟨_, _, _, rfl⟩
    · exact absurd ⟨cause, by rw [hread]⟩ hgoes
    · exact ⟨_, _, _, rfl⟩
  -- the statement is taken from the segment
  have hle : k ≤ (l :: rest).length := by
    have hinside : (Statement.readSimple alone l rest).Inside (l :: rest) :=
      Statement.inside_readSimple rfl l rest
    have htaken : (Statement.readSimple alone l rest).taken = k := congrArg Parsed.taken hrecover
    exact htaken ▸ hinside.le
  refine ⟨kept, rs.length +
    if kept.isSome then (if ((l :: rest).drop k).isEmpty then 0 else 1) else 0, ?_⟩
  intro finish sep more hfinish hsep
  let ctx : Context := ⟨.dropStatement, action, finish⟩
  -- what follows a separator makes no difference to the statement
  have hcoincide : Coincide rest (rest ++ sep :: more) := by
    have hnil : Ended [] := by simp [Ended]
    have hended : Ended (sep :: more) := Expr.ended_of_endsStatement (by simpa using hsep)
    simpa using (Coincide.ended hnil hended).append rest
  obtain ⟨rs', hrecover', hlength⟩ :=
    (Statement.twins_readSimple rfl hfinish l hcoincide).recover hrecover
  have hread : (Statement.read ctx (l :: (rest ++ sep :: more))).recover =
      ⟨⟨rs', .ok kept⟩, k⟩ := by
    rw [Statement.read, if_neg hl]
    exact hrecover'
  have hbehind : ∀ o ∈ (l :: rest).drop k, o.endsStatement = false :=
    fun o ho => hseg.endsStatement (List.mem_of_mem_drop ho)
  have hdrop : (l :: (rest ++ sep :: more)).drop k = (l :: rest).drop k ++ sep :: more := by
    rw [← List.cons_append, List.drop_append_of_le_length hle]
  refine ⟨rs' ++ if kept.isSome then trailing ctx ((l :: rest).drop k ++ sep :: more) else [],
    ?_, ?_⟩
  · -- what is left of the segment is reported once
    rw [List.length_append, hlength]
    cases kept with
    | none => rfl
    | some s => simp only [Option.isSome_some, if_true, length_trailing hbehind hsep]
  · rw [List.cons_append, outcome_readLine_of_recover hl hread, hdrop,
      outcome_readRest_append hbehind hsep]

/-! ### Segments on one line -/

lemma outcome_readRest_lineBreak {ctx : Context} (hsep : sep.token = .mark .lineBreak) :
    (readRest ctx (sep :: more)).outcome = .pure [] := by
  have hzero : Lexeme.statementLength (sep :: more) = 0 :=
    statementLength_of_endsStatement (by simp [Lexeme.endsStatement, hsep])
  simp [readRest, restBy, hzero, continues, startsWith, hsep]

lemma outcome_readRest_ampersand {ctx : Context} (hsep : sep.token = .mark .ampersand)
    (hmore : more ≠ []) (hhead : ∀ l ∈ more.head?, l.token ≠ .mark .lineBreak) :
    (readRest ctx (sep :: more)).outcome = (readLine ctx more).outcome := by
  have hzero : Lexeme.statementLength (sep :: more) = 0 :=
    statementLength_of_endsStatement (by simp [Lexeme.endsStatement, hsep])
  have hcontinues : continues (sep :: more) = true := by
    obtain ⟨l, rest, rfl⟩ := List.exists_cons_of_ne_nil hmore
    simp [continues, startsWith, hsep, hhead l rfl]
  simp [readRest, restBy, hzero, hcontinues, Parsed.after]

end Group

namespace Lexeme

/-- A segment and others behind it, each with the lexeme in front of it. -/
def separated (first : List Lexeme) (others : List (Lexeme × List Lexeme)) : List Lexeme :=
  first ++ others.flatMap fun o => o.1 :: o.2

lemma separated_cons (first : List Lexeme) (o : Lexeme × List Lexeme)
    (others : List (Lexeme × List Lexeme)) :
    separated first (o :: others) = first ++ o.1 :: separated o.2 others := by
  simp [separated]

/-- Segments on one line: each behind the first one stands behind an ampersand. -/
structure AreSegments (first : List Lexeme) (others : List (Lexeme × List Lexeme)) : Prop where
  first : IsSegment first
  others : ∀ o ∈ others, o.1.token = .mark .ampersand ∧ IsSegment o.2

variable {first : List Lexeme} {o : Lexeme × List Lexeme} {others : List (Lexeme × List Lexeme)}

lemma AreSegments.tail (h : AreSegments first (o :: others)) : AreSegments o.2 others :=
  ⟨(h.others o List.mem_cons_self).2, fun q hq => h.others q (List.mem_cons_of_mem o hq)⟩

lemma AreSegments.exists_cons (h : AreSegments first others) :
    ∃ l rest, separated first others = l :: rest ∧ l.token ≠ .mark .lineBreak := by
  obtain ⟨l, rest, rfl⟩ := List.exists_cons_of_ne_nil h.first.ne_nil
  exact ⟨l, _, rfl, h.first.ne .lineBreak (by simp) l List.mem_cons_self⟩

end Lexeme

open Lexeme (AreSegments separated)

namespace Group

/-- What a line comes to whatever marks its end: the statements, with so many reports. -/
def LineReadsAs (action : ActionReader) (ts : List Lexeme) (statements : List Statement) (n : Nat) :
    Prop :=
  ∀ finish lineEnd more, finish.token = .mark .sourceEnd → lineEnd.token = .mark .lineBreak →
    ∃ reports, reports.length = n ∧
      (readLine ⟨.dropStatement, action, finish⟩ (ts ++ lineEnd :: more)).outcome =
        ⟨reports, .ok statements⟩

lemma ReadsAs.line {kept : Option Statement} {n : Nat} (h : ReadsAs action seg kept n) :
    LineReadsAs action seg kept.toList n := by
  intro finish lineEnd more hfinish hlineEnd
  obtain ⟨reports, hlength, hline⟩ := h finish lineEnd more hfinish
    (by simp [Lexeme.endsStatement, hlineEnd])
  rw [outcome_readRest_lineBreak hlineEnd, Outcome.map_pure, List.append_nil] at hline
  exact ⟨reports, hlength, by simp [hline, Outcome.pure, Outcome.after]⟩

/-- **The segments of a line are read one by one.** -/
theorem exists_readsAs_separated (haction : ∀ place text, ¬(action place text).IsAborted)
    {first : List Lexeme} {others : List (Lexeme × List Lexeme)} (h : AreSegments first others) :
    ∃ alone : List (Option Statement × Nat),
      List.Forall₂ (fun seg a => ReadsAs action seg a.1 a.2) (first :: others.map Prod.snd) alone ∧
        LineReadsAs action (separated first others) (alone.flatMap fun a => a.1.toList)
          (alone.map Prod.snd).sum := by
  induction others generalizing first with
  | nil =>
    obtain ⟨kept, n, hfirst⟩ := exists_readsAs haction h.first
    refine ⟨[(kept, n)], .cons hfirst .nil, ?_⟩
    simpa [separated] using hfirst.line
  | cons o others ih =>
    obtain ⟨kept, n, hfirst⟩ := exists_readsAs haction h.first
    obtain ⟨alone, halone, hseparated⟩ := ih h.tail
    refine ⟨(kept, n) :: alone, .cons hfirst halone, ?_⟩
    intro finish lineEnd more hfinish hlineEnd
    have hamp := (h.others o List.mem_cons_self).1
    obtain ⟨later, hlater, hline⟩ := hseparated finish lineEnd more hfinish hlineEnd
    -- the first segment goes on behind its separator with the line of the others
    obtain ⟨reports, hreports, hboth⟩ := hfirst finish o.1
      (separated o.2 others ++ lineEnd :: more) hfinish (by simp [Lexeme.endsStatement, hamp])
    obtain ⟨l, rest, hcons, hl⟩ := h.tail.exists_cons
    rw [outcome_readRest_ampersand hamp (by simp [hcons]) (by simpa [hcons] using hl), hline]
      at hboth
    refine ⟨reports ++ later, by simp [hreports, hlater], ?_⟩
    rw [Lexeme.separated_cons, List.append_assoc, List.cons_append, hboth]
    rfl

end Group

end QuestScript

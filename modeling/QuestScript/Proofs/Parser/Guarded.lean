import QuestScript.Program.Equality
import QuestScript.Proofs.Parser.Correspondence
import QuestScript.Proofs.Program.Guarded

/-!
Where conditionals end their lines.

A program has conditionals only at the end of its groups if and only if the guarded reader, which
takes the rest of the line with every conditional, reads the same program.
-/

namespace QuestScript

open Lexeme (Laid)

/-- Whether something is wrong with the one outcome is not known from the other, unless the first
gives everything up. -/
def Correspondence.unlessAborted : Correspondence where
  rel _ _ R o o' := o.IsAborted ∨ o.Meets R o'
  pure _ h := .inr (.inl ⟨_, _, rfl, rfl, h⟩)
  drop _ _ := .inr (.inr ⟨_, _, rfl, rfl⟩)
  after _ ho := ho.imp id fun hmeets => hmeets.after _ _
  bind _ _ ho hnext := by
    rcases ho with haborted | hmeets
    · exact .inl (isAborted_bind _ haborted)
    rcases hmeets with ⟨a, b, ha, hb, hab⟩ | ⟨r, r', hr, hr'⟩
    · rw [Outcome.bind_of_ok ha, Outcome.bind_of_ok hb]
      exact (hnext a b ha hb hab).imp id fun hmeets => hmeets.after _ _
    · rw [Outcome.bind_of_error hr, Outcome.bind_of_error hr']
      exact .inr (.inr ⟨r, r', rfl, rfl⟩)
  recover ho := ho.imp isAborted_recover.mpr Outcome.Meets.recover
  widen _ _ ho := ho
  agree ho h _ := ho.resolve_left h

/-- The groups are the same, if conditionals only stand at the end of the first one and of the
groups inside it. -/
structure Group.SameIfLast (g g' : Group) : Prop where
  isEmpty : g.statements.isEmpty = g'.statements.isEmpty
  eq (h : g.Everywhere ConditionalsLast) : g = g'

namespace Group

lemma SameIfLast.eq_of_forall₂ {groups groups' : List Group}
    (h : List.Forall₂ SameIfLast groups groups')
    (hlast : ∀ g ∈ groups, g.Everywhere ConditionalsLast) : groups = groups' := by
  induction h with
  | nil => rfl
  | cons hg _ ih =>
    rw [hg.eq (hlast _ List.mem_cons_self), ih fun g hg => hlast g (List.mem_cons_of_mem _ hg)]

variable {front back : List Statement} {line : Nat}

lemma conditionalsLast_left (h : ConditionalsLast ⟨front ++ back, line⟩) (other : Nat) :
    ConditionalsLast ⟨front, other⟩ := by
  intro s hs
  refine h s ?_
  rcases back with _ | ⟨t, tail⟩
  · simpa using hs
  · rw [List.dropLast_append_of_ne_nil (by simp)]
    exact List.mem_append_left _ (List.dropLast_subset _ hs)

lemma conditionalsLast_right (h : ConditionalsLast ⟨front ++ back, line⟩) (other : Nat) :
    ConditionalsLast ⟨back, other⟩ := by
  intro s hs
  refine h s ?_
  rcases back with _ | ⟨t, tail⟩
  · simp at hs
  · rw [List.dropLast_append_of_ne_nil (by simp)]
    exact List.mem_append_right _ hs

lemma everywhere_left (h : Everywhere ConditionalsLast ⟨front ++ back, line⟩) (other : Nat) :
    Everywhere ConditionalsLast ⟨front, other⟩ := by
  obtain ⟨hlast, hinside⟩ := everywhere_iff.mp h
  exact everywhere_iff.mpr ⟨conditionalsLast_left hlast other,
    fun s hs => hinside s (List.mem_append_left _ hs)⟩

lemma everywhere_right (h : Everywhere ConditionalsLast ⟨front ++ back, line⟩) (other : Nat) :
    Everywhere ConditionalsLast ⟨back, other⟩ := by
  obtain ⟨hlast, hinside⟩ := everywhere_iff.mp h
  exact everywhere_iff.mpr ⟨conditionalsLast_right hlast other,
    fun s hs => hinside s (List.mem_append_right _ hs)⟩

lemma eq_nil_of_conditionalsLast {s : Statement} {later : List Statement}
    (hs : s.isConditional = true) (h : ConditionalsLast ⟨s :: later, line⟩) : later = [] := by
  rcases later with _ | ⟨t, tail⟩
  · rfl
  · have := h s (by simp)
    simp [hs] at this

end Group

namespace Correspondence

open QuestScript.Group (SameIfLast)

lemma Congruent.sameIfLast : Congruent SameIfLast where
  nil _ := ⟨rfl, fun _ => rfl⟩
  single line halike := by
    refine ⟨rfl, fun h => ?_⟩
    have hinside := (Group.everywhere_iff.mp h).2 _ (List.mem_singleton_self _)
    rw [Statement.eq_of_alike halike fun g hg g' hsame => hsame.eq (hinside g hg)]
  append {front front' back back'} line hfront hback := by
    rcases front with ⟨front, i⟩
    rcases back with ⟨back, j⟩
    refine ⟨?_, fun h => ?_⟩
    · rw [Bool.eq_iff_iff, List.isEmpty_iff, List.isEmpty_iff, List.append_eq_nil_iff,
        List.append_eq_nil_iff, ← List.isEmpty_iff, ← List.isEmpty_iff, hfront.isEmpty,
        hback.isEmpty, List.isEmpty_iff, List.isEmpty_iff]
    · rw [hfront.eq (Group.everywhere_left h i), hback.eq (Group.everywhere_right h j)]
  isEmpty h := h.isEmpty

variable {ctx ctx' : Context} {ts : List Lexeme} {lo hi : Position}

lemma matching_conditional {s s' : Statement} (later : List Statement) (hs : s.isConditional = true)
    (h : Statement.Alike SameIfLast s s') : Matching SameIfLast (s :: later) [s'] := by
  refine fun line => ⟨rfl, fun heverywhere => ?_⟩
  obtain rfl := Group.eq_nil_of_conditionalsLast hs (Group.everywhere_iff.mp heverywhere).1
  exact (Congruent.sameIfLast.single line h).eq heverywhere

/-- What the reader gives behind a conditional is nothing for the guarded reader. -/
lemma rel_joined {behind behind' : List Lexeme} {kept kept' : Option Statement}
    {later : Parsed Report (List Statement)} {n : Nat}
    (hkept : Option.Rel (Statement.Alike SameIfLast) kept kept')
    (hconditional : ∀ s ∈ kept, s.isConditional = true)
    (hlater : kept = none → later.outcome = .pure []) :
    (Group.joined ctx behind kept later).outcome.IsAborted ∨
      (Group.joined ctx behind kept later).outcome.Meets (Matching SameIfLast)
        (Group.joined ctx' behind' kept' ⟨.pure [], n⟩).outcome := by
  rcases later with ⟨⟨more, cause | later⟩, m⟩
  · exact .inl ⟨cause, rfl⟩
  · refine .inr (.inl ⟨kept.toList ++ later, kept'.toList, rfl, ?_, ?_⟩)
    · cases kept' <;> rfl
    · cases hkept with
      | none =>
        obtain ⟨-, rfl⟩ : more = [] ∧ later = [] := by simpa [Outcome.pure] using hlater rfl
        exact Congruent.sameIfLast.nil
      | some hs => exact matching_conditional later (hconditional _ rfl) hs

lemma Contexts.rel_conditional (h : unlessAborted.Contexts SameIfLast ctx ctx') {l : Lexeme}
    {rest : List Lexeme} (hl : l.token = .mark .ifWord) (hlaid : Laid lo hi (l :: rest)) :
    unlessAborted.rel lo lo (Matching SameIfLast) (Group.readLine ctx (l :: rest)).escalate.outcome
      (Group.readGuarded ctx' (l :: rest)).escalate.outcome := by
  have hread := unlessAborted.recover (h.statements (l :: rest) hlaid).1
  rw [Group.escalate_readLine, Group.escalate_readGuarded, outcome_bind, outcome_bind]
  refine unlessAborted.bind (le_refl lo) (le_refl lo) hread fun kept kept' hok _ hkept => ?_
  rw [Group.guardedRest, if_pos hl]
  refine rel_joined hkept (fun s hs => ?_) fun hnone => ?_
  · obtain rfl := Option.mem_def.mp hs
    rcases hfirst : Statement.read ctx (l :: rest) with ⟨⟨first, (report | cause) | t⟩, i⟩
    · simp [hfirst, Outcome.recover, Parsed.recover] at hok
    · simp [hfirst, Outcome.recover, Parsed.recover] at hok
    · obtain rfl : t = s := by simpa [hfirst, Outcome.recover, Parsed.recover] using hok
      exact (Statement.read_eq_ok_of_if hl hfirst).1
  · rw [Group.remainder, if_pos ⟨hnone, hl⟩]

/-- Lines are the same to the guarded reader, if conditionals stand at their end. -/
theorem Contexts.readGuarded (h : unlessAborted.Contexts SameIfLast ctx ctx')
    (hfinish : ctx.finish.token = .mark .sourceEnd) (hlaid : Laid lo hi ts) :
    unlessAborted.Parses lo ts (Matching SameIfLast) (Group.readLine ctx ts).escalate
      (Group.readGuarded ctx' ts).escalate := by
  induction hn : ts.length using Nat.strongRecOn generalizing ts lo hi with
  | ind n ih =>
  rcases ts with _ | ⟨l, rest⟩
  · rw [Group.readLine, Group.readGuarded]
    exact h.emptyLine hlaid
  by_cases hl : l.token = .mark .ifWord
  · -- behind the word `if` both readers take the whole line, whatever they make of it
    refine ⟨h.rel_conditional hl hlaid, fun hx hy => ?_⟩
    obtain ⟨statements, hline⟩ := Parsed.exists_of_not_isAborted hx
    obtain ⟨statements', hguarded⟩ := Parsed.exists_of_not_isAborted hy
    exact (Group.taken_readLine hfinish hline).trans
      (Group.taken_readGuarded (h.finish ▸ hfinish) hguarded).symm
  · -- otherwise they agree on the statement and go on in the same way
    rw [Group.escalate_readLine, Group.escalate_readGuarded]
    refine Parses.bind hlaid (h.statements _ hlaid).recover fun kept kept' _ hkept => ?_
    generalize (Statement.read ctx (l :: rest)).recover.taken = k
    have hlaid := hlaid.drop k
    refine h.joined hlaid hkept ?_
    rw [Group.remainder, Group.guardedRest, if_neg (fun hif => hl hif.2), if_neg hl]
    refine Parses.restBy h.congruent (fun us hus lo hi hlaid => ih us.length ?_ hlaid rfl) hlaid
    rw [List.length_drop] at hus
    omega

/-- Programs are the same to the guarded reader, if conditionals stand at the end of their groups.
-/
theorem programs_guardedReader (policy : SubstitutionPolicy) :
    unlessAborted.Programs SameIfLast (Program.reader policy) (Program.guardedReader policy) := by
  intro action action' finish lo hi ts hfinish haction hlaid
  have hcode (place : Position) (code : String) :
      unlessAborted.rel place place (Segment.Alike SameIfLast)
        (refuse policy ⟨.badCharacterCode code, place⟩)
        (refuse policy ⟨.badCharacterCode code, place⟩) := by
    cases policy with
    | abort => exact .inl ⟨_, rfl⟩
    | dropStatement => exact .inr (.inr ⟨_, _, rfl, rfl⟩)
  have hcontexts : unlessAborted.Contexts SameIfLast ⟨policy, action, finish⟩
      ⟨policy, action', finish⟩ := ⟨rfl, haction _ _, hcode, .sameIfLast⟩
  have hgroups := Parses.readGroupsBy .sameIfLast (Program.readsLines hfinish)
    (fun _ _ => Group.taken_readGuarded hfinish) (fun _ _ _ => hcontexts.readGuarded hfinish) hlaid
  rw [Program.reader, Program.read, Program.guardedReader, Parsed.escalate_map,
    Parsed.escalate_map, Program.readGroups_eq]
  exact Parses.map hlaid hgroups fun _ _ => id

end Correspondence

/-! ### Sources -/

/-- Reads quest source with the guarded reader. -/
def parseGuarded (source : String) (options : Options := {}) : Except Abort Output :=
  parseBy (Program.guardedReader options.policy) options.maxNesting source

/-- **Conditionals end guarded lines.** In what the guarded reader reads they only stand at the end
of their groups, at any depth. -/
theorem conditionalsLast_of_parseGuarded {source : String} {options : Options} {out : Output}
    (h : parseGuarded source options = .ok out) :
    ∀ g, out.program.Contains g → g.ConditionalsLast := by
  rintro g ⟨top, htop, hg⟩
  obtain ⟨reports, n, hprogram⟩ := exists_of_parseBy_eq_ok h
  have hlaid := (Scan.laid_read .fresh .start source.toList).untilEnd
  have heverywhere := Program.everywhere_of_guardedReader
    (fun _ _ _ _ => Action.everywhere_of_readBy) hlaid.oneLine (congrArg Parsed.result hprogram)
  rcases top with ⟨statements, line⟩
  exact heverywhere _ htop line g hg

/-- **Where conditionals end their lines.** Conditionals only stand at the end of the groups of a
program, at any depth, if and only if the guarded reader reads the same program. -/
theorem conditionalsLast_iff {source : String} {options : Options} {out : Output}
    (h : parse source options = .ok out) :
    (∀ g, out.program.Contains g → g.ConditionalsLast) ↔
      ∃ guarded, parseGuarded source options = .ok guarded ∧ guarded.program = out.program := by
  constructor
  · -- both readers give the same groups as long as no conditional is followed by anything
    intro hlast
    rw [parse_eq] at h
    obtain ⟨reports, n, hprogram⟩ := exists_of_parseBy_eq_ok h
    have hsource := (Correspondence.programs_guardedReader options.policy).sources .sameIfLast
      options.maxNesting source
    rw [hprogram] at hsource
    have hmeets := hsource.resolve_left fun ⟨cause, hcause⟩ => by simp at hcause
    obtain ⟨p, hp, hgroups⟩ := hmeets.exists_of_ok rfl
    have hsame : p = out.program := congrArg Program.mk
      (Group.SameIfLast.eq_of_forall₂ hgroups fun g hg inner hinner =>
        hlast inner ⟨g, hg, hinner⟩).symm
    rcases hguarded : programBy (Program.guardedReader options.policy)
        options.maxNesting source with
      ⟨⟨made, cause | q⟩, m⟩
    · simp [hguarded] at hp
    · obtain rfl : q = p := by simpa [hguarded] using hp
      exact ⟨_, parseBy_of_ok hguarded, hsame⟩
  · -- the guarded reader puts nothing behind a conditional
    rintro ⟨guarded, hguarded, heq⟩
    rw [← heq]
    exact conditionalsLast_of_parseGuarded hguarded

namespace Sample

/-- The program of a result, if there is one. -/
def program? (result : Except Abort Output) : Option Program := result.toOption.map Output.program

lemma exists_of_program? {result : Except Abort Output} {p : Program}
    (h : program? result = some p) :
    ∃ out, result = .ok out ∧ out.program = p := by
  rcases result with a | out
  · simp [program?, Except.toOption] at h
  · exact ⟨out, rfl, by simpa [program?, Except.toOption] using h⟩

/-- The line `if a then end ) & goto b`, where the jump does not depend on the condition. -/
def spilled : Program :=
  ⟨[⟨[.conditional (.var "a") ⟨[.finish], 1⟩ none, .goto "b"], 1⟩]⟩

/-- A conditional that leaves a token over at the end of its line, and one inside a button. -/
def kept : Program :=
  ⟨[⟨[.conditional (.var "a") ⟨[.finish], 1⟩ none], 1⟩,
    ⟨[.button "d" ⟨[.conditional (.var "b") ⟨[.finish, .goto "c"], 2⟩ none], 2⟩ none], 2⟩]⟩

end Sample

/-- A program whose lines end with their conditionals, though the first one leaves a token over. -/
theorem conditionalsLast_iff_sample :
    ∃ out, parse "if a then end )\nbtn if b then end & goto c, d" = .ok out ∧
      ∀ g, out.program.Contains g → g.ConditionalsLast := by
  have hparse : Sample.program? (parse "if a then end )\nbtn if b then end & goto c, d") =
      some Sample.kept := by decide +kernel
  have hguarded : Sample.program? (parseGuarded "if a then end )\nbtn if b then end & goto c, d") =
      some Sample.kept := by decide +kernel
  obtain ⟨out, hout, hprogram⟩ := Sample.exists_of_program? hparse
  obtain ⟨guarded, hok, hsame⟩ := Sample.exists_of_program? hguarded
  exact ⟨out, hout, (conditionalsLast_iff hout).mpr ⟨guarded, hok, hsame.trans hprogram.symm⟩⟩

/-- A conditional does not always end its line: behind one that leaves tokens over, the statement
behind the next separator is read as if there was no condition. -/
theorem not_conditionalsLast_of_tokens_over :
    ∃ out, parse "if a then end ) & goto b" = .ok out ∧
      ¬∀ g, out.program.Contains g → g.ConditionalsLast := by
  have hparse : Sample.program? (parse "if a then end ) & goto b") = some Sample.spilled := by
    decide +kernel
  obtain ⟨out, hout, hprogram⟩ := Sample.exists_of_program? hparse
  refine ⟨out, hout, fun h => ?_⟩
  rw [hprogram] at h
  have hlast := h _ ⟨_, List.mem_singleton_self _, .refl⟩
    (.conditional (.var "a") ⟨[.finish], 1⟩ none) (by simp)
  simp [Statement.isConditional] at hlast

end QuestScript

import QuestScript.Proofs.Action.Correspondence
import QuestScript.Proofs.Program.Parallel

/-!
Actions are read in step.

An action is read as a program, from the tokens of its own text. So actions are read in step,
however deep they nest, by readers of one policy whose limits on nesting are reported alike.
-/

namespace QuestScript.Parallel

open Lexeme (untilEnd)

variable {P : Parallel} {options options' : Options}

/-- The options have one policy, and an action that nests too deep is reported alike. -/
structure Limits (P : Parallel) (options options' : Options) : Prop where
  lawful : P.Lawful
  policy : options'.policy = options.policy
  report {p p' : Position} {cs : List Char} (h : P.text p p' cs) :
    P.report ⟨.nestingLimit options.maxNesting, p⟩ ⟨.nestingLimit options'.maxNesting, p'⟩

variable {place place' : Position} {text text' : List Char}

lemma Limits.programOfActions (h : P.Limits options options') (budget : Nat)
    (haction : ∀ {p p' : Position} {cs : List Char}, P.text p p' cs →
      P.Outcomes (fun g g' => g' = g.renumber P.line) (Action.read options budget p cs)
        (Action.read options' budget p' cs))
    (hlexemes : List.Forall₂ P.Lexemes (Scan.read .fresh place text).lexemes
      (Scan.read .fresh place' text').lexemes) :
    P.Outcomes (fun p p' => p'.groups = p.groups.map (Group.renumber P.line))
      (Action.program options budget place text).outcome.escalate
      (Action.program options' budget place' text').outcome.escalate := by
  have hcontexts : P.Contexts
      ⟨options.policy, Action.read options budget,
        (untilEnd (Scan.read .fresh place text).lexemes).2⟩
      ⟨options'.policy, Action.read options' budget,
        (untilEnd (Scan.read .fresh place' text').lexemes).2⟩ := ⟨h.lawful, h.policy, haction⟩
  obtain ⟨hts, hend⟩ := untilEnd_of_forall₂ hlexemes (Scan.exists_sourceEnd .fresh place text)
  exact hcontexts.readProgram (Lexeme.token_untilEnd _) (Lexeme.token_untilEnd _) hts (.inl hend)

/-- **Actions are read in step**, with as many levels of nesting left on both sides. -/
theorem Limits.action (h : P.Limits options options') (budget : Nat)
    (htext : P.text place place' text) :
    P.Outcomes (fun g g' => g' = g.renumber P.line) (Action.read options budget place text)
      (Action.read options' budget place' text) := by
  induction budget generalizing place place' text with
  | zero =>
    rcases htarget : Action.target? text with _ | target
    · -- the limit is met on both sides, each with its own number
      rw [Action.read_zero htarget, Action.read_zero htarget]
      exact .drop (h.report htext)
    · rw [Action.read_of_target? 0 htarget, Action.read_of_target? 0 htarget]
      refine .pure ?_
      rw [Group.renumber_jump, h.lawful.line htext]
  | succ n ih =>
    rcases htarget : Action.target? text with _ | target
    · -- both texts are read as programs, one level further down
      rw [Action.read_succ n htarget, Action.read_succ n htarget, Action.ofProgram_eq,
        Action.ofProgram_eq]
      refine Outcomes.after (h.lawful.reports htext)
        ((h.programOfActions n ih (h.lawful.lexemes htext)).bind fun p p' hgroups => ?_)
      have hstatements := Program.statements_of_renumber hgroups
      rw [hstatements, List.isEmpty_map]
      split
      · exact .drop (h.lawful.fault htext rfl (by simp))
      · refine .pure ?_
        rw [Group.renumber_mk, h.lawful.line htext]
    · rw [Action.read_of_target? _ htarget, Action.read_of_target? _ htarget]
      refine .pure ?_
      rw [Group.renumber_jump, h.lawful.line htext]

lemma Limits.contexts (h : P.Limits options options') (budget : Nat) (finish finish' : Lexeme) :
    P.Contexts ⟨options.policy, Action.read options budget, finish⟩
      ⟨options'.policy, Action.read options' budget, finish'⟩ :=
  ⟨h.lawful, h.policy, h.action budget⟩

/-- **Programs in texts are read in step.** -/
theorem Limits.program (h : P.Limits options options') (budget : Nat)
    (hlexemes : List.Forall₂ P.Lexemes (Scan.read .fresh place text).lexemes
      (Scan.read .fresh place' text').lexemes) :
    P.Outcomes (fun p p' => p'.groups = p.groups.map (Group.renumber P.line))
      (Action.program options budget place text).outcome.escalate
      (Action.program options' budget place' text').outcome.escalate :=
  h.programOfActions budget (h.action budget) hlexemes

end QuestScript.Parallel

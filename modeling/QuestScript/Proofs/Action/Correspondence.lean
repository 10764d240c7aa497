import QuestScript.Proofs.Action.Jump
import QuestScript.Proofs.Program.Correspondence
import QuestScript.Proofs.Program.RoundTrip

/-!
Readers of actions correspond.

An action is read as a program by a reader of actions that nest one level less, so actions
correspond, at any depth, where programs do that are read by corresponding readers of actions.
-/

namespace QuestScript

open Lexeme (Laid reach untilEnd)

namespace Lexeme

variable {lo hi : Position} {ts : List Lexeme}

lemma Laid.untilEnd (h : Laid lo hi ts) : Laid lo hi (untilEnd ts).1 := by
  have hsplit : Laid lo hi ((ts.takeWhile fun l => l.token != .mark .sourceEnd) ++
      ts.dropWhile fun l => l.token != .mark .sourceEnd) := by
    rwa [List.takeWhile_append_dropWhile]
  exact hsplit.left

lemma token_untilEnd (ts : List Lexeme) : (untilEnd ts).2.token = .mark .sourceEnd := by
  unfold untilEnd
  simp only
  generalize hhead : (ts.drop (ts.takeWhile fun l => l.token != .mark .sourceEnd).length).head?
      = head
  rcases head with _ | l
  · rfl
  · simpa using not_of_mem_head?_dropWhile hhead

end Lexeme

/-- A reader of programs, by the reader of the actions in them and the end of their text. -/
abbrev ProgramReader := ActionReader → Lexeme → List Lexeme → Parsed Report Program

/-- The reader of programs with the given policy. -/
def Program.reader (policy : SubstitutionPolicy) : ProgramReader :=
  fun action finish => Program.read ⟨policy, action, finish⟩

namespace Action

/-- Reads an action with a reader of programs. -/
def readBy (program : ProgramReader) (limit : Nat) : Nat → ActionReader
  | budget, place, text =>
    match target? text with
    | some target => .pure (.jump (String.ofList target) place.line)
    | none =>
      match budget with
      | 0 => .drop (.nestingLimit limit) place
      | n + 1 =>
        let scan := Scan.read .fresh place text
        let (ts, finish) := untilEnd scan.lexemes
        ofProgram place text scan.reports (program (readBy program limit n) finish ts).outcome

lemma read_eq (options : Options) (budget : Nat) :
    read options budget = readBy (Program.reader options.policy) options.maxNesting budget := by
  induction budget with
  | zero =>
    funext place text
    rcases h : target? text with _ | target <;> unfold read readBy <;> simp only [h]
  | succ n ih =>
    funext place text
    rcases h : target? text with _ | target
    · unfold read readBy
      simp only [h, ih]
      rfl
    · unfold read readBy
      simp only [h]

lemma readBy_eq_ok {program : ProgramReader} {limit budget : Nat} {place : Position}
    {text : List Char} {rs : List Report} {g : Group}
    (h : readBy program limit budget place text = ⟨rs, .ok g⟩) :
    (∃ target, g = .jump target place.line) ∨
      ∃ n p, budget = n + 1 ∧ g = ⟨p.statements, place.line⟩ ∧
        (program (readBy program limit n) (untilEnd (Scan.read .fresh place text).lexemes).2
          (untilEnd (Scan.read .fresh place text).lexemes).1).result = .ok p := by
  unfold readBy at h
  split at h
  · obtain ⟨-, rfl⟩ := Outcome.pure_eq_ok.mp h
    exact .inl ⟨_, rfl⟩
  · rcases budget with _ | n
    · simp at h
    · obtain ⟨p, made, hprogram, -, -, rfl⟩ := ofProgram_eq_ok h
      exact .inr ⟨n, p, rfl, rfl, congrArg Outcome.result hprogram⟩

lemma ofProgram_eq (place : Position) (text : List Char) (scanned : List Report)
    (program : Outcome Report Program) :
    ofProgram place text scanned program =
      (program.escalate.bind fun p =>
        if p.statements.isEmpty then .drop (.emptyAction (String.ofList text)) place
        else .pure ⟨p.statements, place.line⟩).after scanned := by
  rcases program with ⟨reports, cause | p⟩
  · rfl
  · by_cases hp : p.statements.isEmpty = true <;>
      simp [ofProgram, hp, Outcome.escalate, Except.mapError, Outcome.bind, Outcome.after,
        Outcome.drop, Outcome.fail, Outcome.pure]

end Action

namespace Correspondence

variable {C : Correspondence} {G : Group → Group → Prop}

/-- Two readers of actions correspond. -/
def Actions (C : Correspondence) (G : Group → Group → Prop)
    (action action' : ActionReader) : Prop :=
  ∀ place text, '\n' ∉ text →
    C.rel place (place.right text.length) G (action place text) (action' place text)

/-- Two readers of programs correspond where the actions in the programs do. -/
def Programs (C : Correspondence) (G : Group → Group → Prop) (program program' : ProgramReader) :
    Prop :=
  ∀ action action' finish lo hi ts, finish.token = .mark .sourceEnd → C.Actions G action action' →
    Laid lo hi ts → C.Parses lo ts (fun p p' => List.Forall₂ G p.groups p'.groups)
      (program action finish ts).escalate (program' action' finish ts).escalate

variable {place hi : Position} {text : List Char}

lemma ofProgram (hG : Congruent G) {scanned : List Report} {o o' : Outcome Report Program}
    (hle : place ≤ hi) (hscanned : ∀ r ∈ scanned, r.Harmless)
    (h : C.rel place hi (fun p p' => List.Forall₂ G p.groups p'.groups) o.escalate o'.escalate) :
    C.rel place hi G (Action.ofProgram place text scanned o)
      (Action.ofProgram place text scanned o') := by
  rw [Action.ofProgram_eq, Action.ofProgram_eq]
  refine C.after hscanned (C.bind hle (le_refl hi) h fun p p' _ _ hgroups => ?_)
  have hstatements : G ⟨p.statements, place.line⟩ ⟨p'.statements, place.line⟩ :=
    hG.flatMap hgroups
  rw [hG.isEmpty hstatements]
  split
  · exact C.drop hi (by simp [Report.Harmless, Fault.kind])
  · exact C.pure hi hstatements

/-- **Actions are read alike** where programs are, however deep they nest. -/
theorem Programs.actions {program program' : ProgramReader} (hG : Congruent G)
    (h : C.Programs G program program') (limit budget : Nat) :
    C.Actions G (Action.readBy program limit budget) (Action.readBy program' limit budget) := by
  induction budget with
  | zero =>
    intro place text hline
    have hle := place.le_right text.length
    unfold Action.readBy
    split
    · -- a bare target, which jumps for both
      exact C.widen (le_refl _) hle (C.pure place (hG.single _ (.same rfl)))
    · -- the limit is met, and that has nothing to do with substitutions
      exact C.widen (le_refl _) hle (C.drop place (by simp [Report.Harmless, Fault.kind]))
  | succ n ih =>
    intro place text hline
    have hle := place.le_right text.length
    unfold Action.readBy
    split
    · exact C.widen (le_refl _) hle (C.pure place (hG.single _ (.same rfl)))
    · -- the text is read as a program that is laid out from its place on
      have hlaid := (Scan.laid_read .fresh place text).untilEnd
      rw [Position.advance_of_notMem hline] at hlaid
      refine ofProgram hG hle (fun r hr => ?_) (C.widen (le_refl _) (hlaid.reach_le _)
        (h _ _ _ _ _ _ (Lexeme.token_untilEnd _) ih hlaid).1)
      simp [Report.Harmless, Scan.lexical_of_mem_reports hr]

end Correspondence

end QuestScript

import Mathlib.Tactic.Common
import QuestScript.Print.Reading

/-!
Programs with other line numbers.

The same statements may be read on other lines. Then every group, at any depth, has another line
number, and nothing else is different.
-/

namespace QuestScript

mutual

/-- The statement with the line numbers of all groups in it, at any depth, changed. -/
def Statement.renumber (f : Nat → Nat) : Statement → Statement
  | .conditional condition g e => .conditional condition (Group.renumber f g) (renumberBranch f e)
  | .print segments newline => .print (renumberSegments f segments) newline
  | .button label g extra => .button label (Group.renumber f g) extra
  | s => s

/-- The group with its line number, and those of all groups in it, changed. -/
def Group.renumber (f : Nat → Nat) : Group → Group
  | ⟨statements, line⟩ => ⟨renumberStatements f statements, f line⟩

def Segment.renumber (f : Nat → Nat) : Segment → Segment
  | .link label g => .link label (Group.renumber f g)
  | s => s

def renumberStatements (f : Nat → Nat) : List Statement → List Statement
  | [] => []
  | s :: rest => Statement.renumber f s :: renumberStatements f rest

def renumberSegments (f : Nat → Nat) : List Segment → List Segment
  | [] => []
  | s :: rest => Segment.renumber f s :: renumberSegments f rest

def renumberBranch (f : Nat → Nat) : Option Group → Option Group
  | none => none
  | some g => some (Group.renumber f g)

end

variable (f : Nat → Nat)

@[simp] lemma renumberStatements_eq (statements : List Statement) :
    renumberStatements f statements = statements.map (Statement.renumber f) := by
  induction statements with
  | nil => rfl
  | cons s rest ih => rw [renumberStatements, ih, List.map_cons]

@[simp] lemma renumberSegments_eq (segments : List Segment) :
    renumberSegments f segments = segments.map (Segment.renumber f) := by
  induction segments with
  | nil => rfl
  | cons s rest ih => rw [renumberSegments, ih, List.map_cons]

@[simp] lemma renumberBranch_eq (e : Option Group) :
    renumberBranch f e = e.map (Group.renumber f) := by
  cases e <;> rfl

@[simp] lemma Group.renumber_mk (statements : List Statement) (line : Nat) :
    Group.renumber f ⟨statements, line⟩ = ⟨statements.map (Statement.renumber f), f line⟩ := by
  rw [Group.renumber, renumberStatements_eq]

@[simp] lemma Group.renumber_jump (target : String) (line : Nat) :
    Group.renumber f (.jump target line) = .jump target (f line) := by
  simp [Group.jump, Statement.renumber]

lemma Segment.map_renumber_glue (s : Segment) (segments : List Segment) :
    (glue s segments).map (Segment.renumber f) =
      glue (s.renumber f) (segments.map (Segment.renumber f)) := by
  cases s with
  | literal a =>
    rcases segments with _ | ⟨_ | _ | _, rest⟩ <;> by_cases ha : a = "" <;>
      simp [glue, Segment.renumber, ha]
  | value name => simp [glue, Segment.renumber]
  | link label g => simp [glue, Segment.renumber]

/-! ### The same line numbers -/

mutual

@[simp] lemma Statement.renumber_id : ∀ s : Statement, s.renumber id = s
  | .conditional _ g e => by rw [Statement.renumber, Group.renumber_id g, renumberBranch_id e]
  | .print segments _ => by rw [Statement.renumber, renumberSegments_id segments]
  | .button _ g _ => by rw [Statement.renumber, Group.renumber_id g]
  | .assign _ _ | .goto _ | .label _ | .finish | .input _ | .anyKey _ | .call _ | .dropCalls
  | .inventory _ | .quit | .save _ | .clearScreen | .pause _ | .media _ _ => rfl

@[simp] lemma Group.renumber_id : ∀ g : Group, g.renumber id = g
  | ⟨statements, _⟩ => by rw [Group.renumber, renumberStatements_id statements, id]

lemma Segment.renumber_id : ∀ s : Segment, s.renumber id = s
  | .link _ g => by rw [Segment.renumber, Group.renumber_id g]
  | .literal _ | .value _ => rfl

lemma renumberStatements_id :
    ∀ statements : List Statement, renumberStatements id statements = statements
  | [] => rfl
  | s :: rest => by rw [renumberStatements, Statement.renumber_id s, renumberStatements_id rest]

lemma renumberSegments_id : ∀ segments : List Segment, renumberSegments id segments = segments
  | [] => rfl
  | s :: rest => by rw [renumberSegments, Segment.renumber_id s, renumberSegments_id rest]

lemma renumberBranch_id : ∀ e : Option Group, renumberBranch id e = e
  | none => rfl
  | some g => by rw [renumberBranch, Group.renumber_id g]

end

lemma Statement.map_renumber_id (statements : List Statement) :
    statements.map (Statement.renumber id) = statements := by
  rw [← renumberStatements_eq, renumberStatements_id]

end QuestScript

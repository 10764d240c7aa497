import Mathlib.Tactic.Common
import QuestScript.Print.Reading

/-!
Groups at any depth.

Groups stand inside statements: as the branches of a conditional, and as the actions of buttons and
of the links in a printed text. What holds of all groups at any depth is settled group by group.
-/

namespace QuestScript

def Segment.groups : Segment → List Group
  | .link _ action => [action]
  | _ => []

/-- The groups that stand directly inside the statement. -/
def Statement.groups : Statement → List Group
  | .conditional _ thenGroup elseGroup => thenGroup :: elseGroup.toList
  | .print segments _ => segments.flatMap Segment.groups
  | .button _ action _ => [action]
  | _ => []

namespace Group

/-- The group is the other one, or stands in it at some depth. -/
inductive Within (g : Group) : Group → Prop
  | refl : Within g g
  | inside {s : Statement} {outer inner : Group} : s ∈ outer.statements → inner ∈ s.groups →
      Within g inner → Within g outer

/-- The property holds of the group and of all groups inside it, at any depth. -/
def Everywhere (P : Group → Prop) (g : Group) : Prop := ∀ inner, Within inner g → P inner

variable {P : Group → Prop} {g : Group}

lemma everywhere_iff :
    g.Everywhere P ↔ P g ∧ ∀ s ∈ g.statements, ∀ inner ∈ s.groups, inner.Everywhere P := by
  constructor
  · intro h
    exact ⟨h g .refl, fun s hs inner hinner deep hdeep => h deep (.inside hs hinner hdeep)⟩
  · rintro ⟨hg, hinside⟩ deep hdeep
    cases hdeep with
    | refl => exact hg
    | inside hs hinner hwithin => exact hinside _ hs _ hinner deep hwithin

lemma everywhere_jump {target : String} {line : Nat} (h : P (jump target line)) :
    (jump target line).Everywhere P := by
  rw [everywhere_iff]
  simpa [jump, Statement.groups] using h

end Group

/-- The group stands somewhere in the program. -/
def Program.Contains (p : Program) (g : Group) : Prop := ∃ top ∈ p.groups, Group.Within g top

lemma Segment.groups_glue (s : Segment) (segments : List Segment) :
    (glue s segments).flatMap groups = s.groups ++ segments.flatMap groups := by
  unfold glue
  split
  · simp [groups]
  · split <;> simp [groups]
  · simp

end QuestScript

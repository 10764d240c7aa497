import QuestScript.Program

/-!
Equality of program trees can be decided. The tree is nested through lists and options, so the test
walks the tree by hand, and it answers yes for equal trees only.
-/

namespace QuestScript

mutual

def Statement.same : Statement → Statement → Bool
  | .assign n v, .assign n' v' => n = n' && v = v'
  | .conditional c t e, .conditional c' t' e' => c = c' && Group.same t t' && sameBranch e e'
  | .print s n, .print s' n' => sameSegments s s' && n = n'
  | .goto t, .goto t' => t = t'
  | .label n, .label n' => n = n'
  | .button l a e, .button l' a' e' => l = l' && Group.same a a' && e = e'
  | .finish, .finish => true
  | .input v, .input v' => v = v'
  | .anyKey v, .anyKey v' => v = v'
  | .call t, .call t' => t = t'
  | .dropCalls, .dropCalls => true
  | .inventory c, .inventory c' => c = c'
  | .quit, .quit => true
  | .save s, .save s' => s = s'
  | .clearScreen, .clearScreen => true
  | .pause d, .pause d' => d = d'
  | .media k s, .media k' s' => k = k' && s = s'
  | _, _ => false

def Group.same : Group → Group → Bool
  | ⟨s, n⟩, ⟨s', n'⟩ => sameStatements s s' && n = n'

def Segment.same : Segment → Segment → Bool
  | .literal t, .literal t' => t = t'
  | .value n, .value n' => n = n'
  | .link l a, .link l' a' => l = l' && Group.same a a'
  | _, _ => false

def sameStatements : List Statement → List Statement → Bool
  | [], [] => true
  | s :: rest, s' :: rest' => Statement.same s s' && sameStatements rest rest'
  | _, _ => false

def sameSegments : List Segment → List Segment → Bool
  | [], [] => true
  | s :: rest, s' :: rest' => Segment.same s s' && sameSegments rest rest'
  | _, _ => false

def sameBranch : Option Group → Option Group → Bool
  | none, none => true
  | some g, some g' => Group.same g g'
  | _, _ => false

end

mutual

theorem Statement.same_iff : ∀ a b : Statement, Statement.same a b = true ↔ a = b
  | .conditional c t e, b => by
    cases b <;> simp [Statement.same, Group.same_iff t, sameBranch_iff e, and_assoc]
  | .print s n, b => by cases b <;> simp [Statement.same, sameSegments_iff s]
  | .button l a e, b => by cases b <;> simp [Statement.same, Group.same_iff a, and_assoc]
  | .assign _ _, b | .goto _, b | .label _, b | .finish, b | .input _, b | .anyKey _, b
  | .call _, b | .dropCalls, b | .inventory _, b | .quit, b | .save _, b | .clearScreen, b
  | .pause _, b | .media _ _, b => by cases b <;> simp [Statement.same]

theorem Group.same_iff : ∀ a b : Group, Group.same a b = true ↔ a = b
  | ⟨s, n⟩, ⟨s', n'⟩ => by simp [Group.same, sameStatements_iff s]

theorem Segment.same_iff : ∀ a b : Segment, Segment.same a b = true ↔ a = b
  | .link l a, b => by cases b <;> simp [Segment.same, Group.same_iff a]
  | .literal _, b | .value _, b => by cases b <;> simp [Segment.same]

theorem sameStatements_iff : ∀ a b : List Statement, sameStatements a b = true ↔ a = b
  | [], b => by cases b <;> simp [sameStatements]
  | s :: rest, b => by
    cases b <;> simp [sameStatements, Statement.same_iff s, sameStatements_iff rest]

theorem sameSegments_iff : ∀ a b : List Segment, sameSegments a b = true ↔ a = b
  | [], b => by cases b <;> simp [sameSegments]
  | s :: rest, b => by
    cases b <;> simp [sameSegments, Segment.same_iff s, sameSegments_iff rest]

theorem sameBranch_iff : ∀ a b : Option Group, sameBranch a b = true ↔ a = b
  | none, b => by cases b <;> simp [sameBranch]
  | some g, b => by cases b <;> simp [sameBranch, Group.same_iff g]

end

instance : DecidableEq Statement := fun a b => decidable_of_iff _ (Statement.same_iff a b)

instance : DecidableEq Group := fun a b => decidable_of_iff _ (Group.same_iff a b)

instance : DecidableEq Segment := fun a b => decidable_of_iff _ (Segment.same_iff a b)

instance : DecidableEq Program := fun a b =>
  decidable_of_iff (a.groups = b.groups) ⟨fun h => by cases a; cases b; simp_all, fun h => h ▸ rfl⟩

/-- Whether the first group of the program is a single print of the given segments. -/
def Program.prints (p : Program) (segments : List Segment) : Bool :=
  match p.groups with
  | ⟨[.print printed _], _⟩ :: _ => printed = segments
  | _ => false

end QuestScript

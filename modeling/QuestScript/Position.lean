/-!
Places in a source text. Lines and columns count from one, and columns count characters.
-/

namespace QuestScript

/-- A line and a column. -/
structure Position where
  line : Nat
  column : Nat
  deriving DecidableEq, Repr

namespace Position

/-- Where a text begins. -/
def start : Position := ⟨1, 1⟩

/-- The place `n` columns further on the same line. -/
def right (p : Position) (n : Nat) : Position := ⟨p.line, p.column + n⟩

/-- The place behind one character. -/
def next (p : Position) (c : Char) : Position :=
  if c = '\n' then ⟨p.line + 1, 1⟩ else p.right 1

/-- The place behind a text. -/
def advance (p : Position) (cs : List Char) : Position := cs.foldl next p

/-- Whether the first place is not behind the second, in reading order. -/
def notAfter (p q : Position) : Bool := p.line < q.line || (p.line = q.line && p.column ≤ q.column)

@[simp] theorem right_zero (p : Position) : p.right 0 = p := rfl

theorem right_right (p : Position) (m n : Nat) : (p.right m).right n = p.right (m + n) := by
  simp [right, Nat.add_assoc]

@[simp] theorem advance_nil (p : Position) : p.advance [] = p := rfl

theorem advance_append (p : Position) (a b : List Char) :
    p.advance (a ++ b) = (p.advance a).advance b := List.foldl_append

/-- A text without line feeds moves the place to the right only. -/
theorem advance_of_notMem {cs : List Char} (h : '\n' ∉ cs) (p : Position) :
    p.advance cs = p.right cs.length := by
  induction cs generalizing p with
  | nil => simp
  | cons c cs ih =>
    simp only [List.mem_cons, not_or] at h
    have hn : p.next c = p.right 1 := by simp [next, Ne.symm h.1]
    have : p.advance (c :: cs) = (p.next c).advance cs := rfl
    rw [this, hn, ih h.2, right_right, List.length_cons, Nat.add_comm]

end Position

end QuestScript

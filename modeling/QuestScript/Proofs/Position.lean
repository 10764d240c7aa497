import Mathlib.Data.List.Induction
import Mathlib.Order.Defs.PartialOrder
import Mathlib.Tactic.Common
import QuestScript.Diagnostic
import QuestScript.Position

/-!
Places in a text: their reading order, the characters that stand there, and the places of a text
inside a larger one.

The place of a character is told by the text in front of it: one line for each line feed, and one
column for each character since the last of them. The line of a character is a line of the source
file.

A text can be read as if it started in the middle of a larger one, at its origin. A place of the
text by itself then is a place of the larger text: on the first line it moves to the right, behind
that it only moves down.
-/

namespace QuestScript

namespace Position

/-! ### Reading order -/

instance : LE Position := ⟨fun p q => p.notAfter q = true⟩

variable {p q r : Position} {m n : Nat}

lemma le_iff : p ≤ q ↔ p.line < q.line ∨ p.line = q.line ∧ p.column ≤ q.column := by
  show p.notAfter q = true ↔ _
  simp [notAfter]

instance : Preorder Position where
  le_refl p := by simp [le_iff]
  le_trans p q r hpq hqr := by
    rw [le_iff] at *
    omega

lemma right_le_right (p : Position) (h : m ≤ n) : p.right m ≤ p.right n := by
  simp [le_iff, right, h]

lemma le_right (p : Position) (n : Nat) : p ≤ p.right n := by
  simp [le_iff, right]

lemma le_next (p : Position) (c : Char) : p ≤ p.next c := by
  unfold next
  split
  · simp [le_iff]
  · exact p.le_right 1

lemma le_advance (p : Position) (cs : List Char) : p ≤ p.advance cs := by
  induction cs generalizing p with
  | nil => exact le_refl p
  | cons c cs ih => exact le_trans (p.le_next c) (ih (p.next c))

lemma lt_iff : p < q ↔ p.line < q.line ∨ p.line = q.line ∧ p.column < q.column := by
  rw [lt_iff_le_not_ge, le_iff, le_iff]
  omega

lemma lt_next (p : Position) (c : Char) : p < p.next c := by
  rw [lt_iff]
  unfold next
  split <;> simp [right]

lemma lt_advance_cons (p : Position) (c : Char) (cs : List Char) : p < p.advance (c :: cs) :=
  lt_of_lt_of_le (p.lt_next c) ((p.next c).le_advance cs)

lemma line_lt_advance {cs : List Char} (p : Position) (h : '\n' ∈ cs) :
    p.line < (p.advance cs).line := by
  obtain ⟨front, back, rfl⟩ := List.append_of_mem h
  have hfront := (le_iff.mp (p.le_advance front)).elim Nat.le_of_lt (Nat.le_of_eq ·.1)
  have hback := le_iff.mp (((p.advance front).next '\n').le_advance back)
  have hbehind : p.advance (front ++ '\n' :: back) = ((p.advance front).next '\n').advance back :=
    advance_append p front ('\n' :: back)
  have hnext : ((p.advance front).next '\n').line = (p.advance front).line + 1 := rfl
  rw [hbehind]
  omega

lemma right_le_advance {cs : List Char} (p : Position) (h : '\n' ∉ cs.take n) (hn : n ≤ cs.length) :
    p.right n ≤ p.advance cs := by
  have htake : p.advance (cs.take n) = p.right n := by
    rw [advance_of_notMem h, List.length_take, Nat.min_eq_left hn]
  rw [← htake]
  conv_rhs => rw [← List.take_append_drop n cs, advance_append]
  exact le_advance _ _

/-! ### Origins -/

/-- Where a place of a text lies when the text starts at the origin. -/
def embed (origin p : Position) : Position :=
  if p.line = 1 then ⟨origin.line, origin.column + p.column - 1⟩
  else ⟨origin.line + p.line - 1, p.column⟩

/-- Lines and columns count from one. -/
structure IsCounted (p : Position) : Prop where
  line : 1 ≤ p.line
  column : 1 ≤ p.column

lemma isCounted_start : IsCounted start := ⟨Nat.le_refl 1, Nat.le_refl 1⟩

lemma IsCounted.right (h : p.IsCounted) (n : Nat) : (p.right n).IsCounted :=
  ⟨h.line, Nat.le_add_right_of_le h.column⟩

lemma IsCounted.next (h : p.IsCounted) (c : Char) : (p.next c).IsCounted := by
  unfold Position.next
  split
  · exact ⟨Nat.le_add_left 1 _, Nat.le_refl 1⟩
  · exact h.right 1

lemma IsCounted.advance (h : p.IsCounted) (cs : List Char) : (p.advance cs).IsCounted := by
  induction cs generalizing p with
  | nil => exact h
  | cons c cs ih => exact ih (h.next c)

@[simp] lemma embed_start (origin : Position) : origin.embed start = origin := rfl

lemma line_embed (origin p : Position) :
    (origin.embed p).line = origin.line + p.line - 1 := by
  unfold embed
  split
  · next hline => simp [hline]
  · rfl

lemma embed_right (origin : Position) (h : p.IsCounted) (n : Nat) :
    origin.embed (p.right n) = (origin.embed p).right n := by
  have := h.column
  by_cases hline : p.line = 1
  · simp only [embed, right, hline, if_true, mk.injEq, true_and]
    omega
  · simp [embed, right, hline]

lemma embed_next (origin : Position) (h : p.IsCounted) (c : Char) :
    origin.embed (p.next c) = (origin.embed p).next c := by
  by_cases hc : c = '\n'
  · have hline := line_embed origin p
    have := h.line
    have hbelow : p.line + 1 ≠ 1 := by omega
    simp only [next, hc, if_true, hline]
    simp only [embed, hbelow, if_false, mk.injEq, and_true]
    omega
  · simp only [next, hc, if_false]
    exact embed_right origin h 1

/-- A text moves the place in a larger text as it moves the place by itself. -/
theorem embed_advance (origin : Position) (h : p.IsCounted) (cs : List Char) :
    origin.embed (p.advance cs) = (origin.embed p).advance cs := by
  induction cs generalizing p with
  | nil => rfl
  | cons c cs ih =>
    have := ih (h.next c)
    rwa [embed_next origin h c] at this

/-! ### Whole lines -/

/-- The place so many lines further down. -/
def down (p : Position) (n : Nat) : Position := ⟨p.line + n, p.column⟩

lemma embed_eq_down (n : Nat) (p : Position) : embed ⟨n + 1, 1⟩ p = p.down n := by
  obtain ⟨line, column⟩ := p
  by_cases hline : line = 1
  · simp [embed, down, hline, Nat.add_comm]
  · simp [embed, down, hline]
    omega

lemma down_le_down {p q : Position} {n : Nat} : p.down n ≤ q.down n ↔ p ≤ q := by
  simp [le_iff, down]

end Position

/-! ### Offsets -/

namespace Position

/-- The place at the given offset of the text. -/
def ofOffset (cs : List Char) (n : Nat) : Position :=
  ⟨1 + (cs.take n).count '\n', 1 + ((cs.take n).reverse.takeWhile (· != '\n')).length⟩

lemma advance_start (cs : List Char) :
    start.advance cs =
      ⟨1 + cs.count '\n', 1 + (cs.reverse.takeWhile (· != '\n')).length⟩ := by
  induction cs using List.reverseRecOn with
  | nil => rfl
  | append_singleton cs c ih =>
    rw [advance_append, ih]
    by_cases hc : c = '\n'
    · subst hc
      simp [advance, next, Nat.add_assoc]
    · simp [advance, next, right, hc, Nat.add_assoc]

lemma advance_start_left (front back : List Char) :
    start.advance front = ofOffset (front ++ back) front.length := by
  rw [advance_start, ofOffset, List.take_left]

/-- Some character of the text stands on the line of the place. -/
def HasLine (cs : List Char) (p : Position) : Prop :=
  ∃ front back, cs = front ++ back ∧ back ≠ [] ∧ p.line = (start.advance front).line

variable {cs front back : List Char} {p : Position} {n : Nat}

lemma hasLine_advance (hcs : cs = front ++ back) (hback : back ≠ []) :
    HasLine cs (start.advance front) :=
  ⟨front, back, hcs, hback, rfl⟩

lemma HasLine.right (h : HasLine cs p) (n : Nat) : HasLine cs (p.right n) := h

lemma hasLine_of_getLast? (hcs : cs = front ++ back) (hne : front ≠ [])
    (hlast : front.getLast? ≠ some '\n') : HasLine cs (start.advance front) := by
  obtain ⟨begun, c, rfl⟩ := (List.eq_nil_or_concat front).resolve_left hne
  have hc : c ≠ '\n' := by simpa using hlast
  refine ⟨begun, c :: back, by simp [hcs], by simp, ?_⟩
  rw [List.concat_eq_append, advance_append]
  simp [advance, next, right, hc]

end Position

namespace Text

lemma count_lt_length_linesFrom (begun : List Char) {front back : List Char} (h : back ≠ []) :
    front.count '\n' < (linesFrom begun (front ++ back)).length := by
  induction front generalizing begun with
  | nil =>
    obtain ⟨c, back, rfl⟩ := List.exists_cons_of_ne_nil h
    clear h
    induction back generalizing begun c with
    | nil => by_cases hc : c = '\n' <;> simp [linesFrom, hc]
    | cons d back ih =>
      by_cases hc : c = '\n'
      · simp [linesFrom, hc]
      · simpa [linesFrom, hc] using ih (c :: begun) d
  | cons c front ih =>
    by_cases hc : c = '\n'
    · simpa [linesFrom, hc] using ih []
    · simpa [linesFrom, hc] using ih (c :: begun)

end Text

/-- A source file has the lines of its characters. -/
theorem SourceFile.isSome_line? {text : String} {p : Position} (name : String)
    (h : p.HasLine text.toList) : ((SourceFile.ofText name text).line? p.line).isSome = true := by
  obtain ⟨front, back, htext, hback, hline⟩ := h
  have hlt : front.count '\n' < (Text.linesFrom [] (front ++ back)).length :=
    Text.count_lt_length_linesFrom [] hback
  rw [hline, Position.advance_start, Nat.add_comm]
  simpa [SourceFile.line?, SourceFile.ofText, Text.lines, htext] using hlt

end QuestScript

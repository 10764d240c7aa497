import Mathlib.Order.Bounds.Basic
import Mathlib.Tactic.Common
import QuestScript.Suggestion

/-!
The distance between words.

A text is turned into another one by inserting, removing and replacing single characters. How few
edits that takes is found by looking at the first characters of both texts (`editDistance`). There
is a sequence of so many edits (`edits_editDistance`), and an edit makes this number smaller by one
at most, so no shorter sequence will do (`Edits.editDistance_le`).

The distance is found row by row: from the distances of a beginning of the first text to all
beginnings of the second one come those of the beginning that is one character longer
(`nextDistances_row`). Beginnings grow at their ends, so they are looked at in reverse. The last
distance of the last row is the least number of edits (`exactDistance_eq`).
-/

namespace QuestScript.Suggestion

open Text

/-- The second text is the first one with one character inserted, removed or replaced. -/
inductive Edit : List Char → List Char → Prop
  | insert (front back : List Char) (c : Char) : Edit (front ++ back) (front ++ c :: back)
  | remove (front back : List Char) (c : Char) : Edit (front ++ c :: back) (front ++ back)
  | replace (front back : List Char) (c d : Char) :
      Edit (front ++ c :: back) (front ++ d :: back)

/-- The first text is turned into the second one by so many edits. -/
inductive Edits : Nat → List Char → List Char → Prop
  | refl (cs : List Char) : Edits 0 cs cs
  | cons {n : Nat} {as bs cs : List Char} (h : Edit as bs) (hrest : Edits n bs cs) :
      Edits (n + 1) as cs

variable {m n : Nat} {a b c : Char} {as as' bs cs front back : List Char}

/-! ### Sequences of edits -/

namespace Edit

lemma symm (h : Edit as bs) : Edit bs as := by
  cases h with
  | insert front back c => exact .remove front back c
  | remove front back c => exact .insert front back c
  | replace front back c d => exact .replace front back d c

lemma behind (c : Char) (h : Edit as bs) : Edit (c :: as) (c :: bs) := by
  cases h with
  | insert front back d => exact .insert (c :: front) back d
  | remove front back d => exact .remove (c :: front) back d
  | replace front back d e => exact .replace (c :: front) back d e

lemma reverse (h : Edit as bs) : Edit as.reverse bs.reverse := by
  cases h <;> simp only [List.reverse_append, List.reverse_cons, List.append_assoc,
    List.singleton_append]
  · exact .insert _ _ _
  · exact .remove _ _ _
  · exact .replace _ _ _ _

lemma length_le (h : Edit as bs) : as.length ≤ bs.length + 1 := by
  cases h <;> simp only [List.length_append, List.length_cons] <;> omega

end Edit

namespace Edits

lemma trans (h : Edits m as bs) (h' : Edits n bs cs) : Edits (m + n) as cs := by
  induction h with
  | refl => rwa [Nat.zero_add]
  | cons hedit _ ih =>
    rw [Nat.add_right_comm]
    exact .cons hedit (ih h')

lemma symm (h : Edits n as bs) : Edits n bs as := by
  induction h with
  | refl cs => exact .refl cs
  | cons hedit _ ih => exact ih.trans (.cons hedit.symm (.refl _))

lemma behind (c : Char) (h : Edits n as bs) : Edits n (c :: as) (c :: bs) := by
  induction h with
  | refl cs => exact .refl (c :: cs)
  | cons hedit _ ih => exact .cons (hedit.behind c) ih

lemma reverse (h : Edits n as bs) : Edits n as.reverse bs.reverse := by
  induction h with
  | refl cs => exact .refl cs.reverse
  | cons hedit _ ih => exact .cons hedit.reverse ih

lemma reverse_iff : Edits n as.reverse bs.reverse ↔ Edits n as bs :=
  ⟨fun h => by simpa using h.reverse, reverse⟩

lemma zero_iff : Edits 0 as bs ↔ as = bs := by
  refine ⟨fun h => ?_, fun h => h ▸ .refl as⟩
  cases h
  rfl

lemma length_le (h : Edits n as bs) : as.length ≤ bs.length + n := by
  induction h with
  | refl => exact Nat.le_refl _
  | cons hedit _ ih =>
    have := hedit.length_le
    omega

end Edits

/-! ### The least number of edits -/

/-- How many edits it takes, told from the first characters of both texts. -/
def editDistance : List Char → List Char → Nat
  | [], bs => bs.length
  | a :: as, [] => as.length + 1
  | a :: as, b :: bs =>
    min (min (editDistance as (b :: bs) + 1) (editDistance (a :: as) bs + 1))
      (editDistance as bs + if a = b then 0 else 1)

@[simp] lemma editDistance_nil_right (as : List Char) : editDistance as [] = as.length := by
  cases as <;> simp [editDistance]

@[simp] lemma editDistance_nil_left (bs : List Char) : editDistance [] bs = bs.length := by
  simp [editDistance]

lemma editDistance_cons (a b : Char) (as bs : List Char) :
    editDistance (a :: as) (b :: bs) =
      min (min (editDistance as (b :: bs) + 1) (editDistance (a :: as) bs + 1))
        (editDistance as bs + if a = b then 0 else 1) := by
  rw [editDistance]

/-- There is a sequence of so many edits. -/
theorem edits_editDistance (as bs : List Char) : Edits (editDistance as bs) as bs := by
  fun_induction editDistance as bs with
  | case1 bs =>
    -- nothing is left of the first text, so the second one is inserted
    induction bs with
    | nil => exact .refl []
    | cons b bs ih => exact .cons (.insert [] [] b) (ih.behind b)
  | case2 a as =>
    -- nothing is left of the second text, so the first one is removed
    induction as generalizing a with
    | nil => exact .cons (.remove [] [] a) (.refl [])
    | cons b as ih => exact .cons (.remove [] (b :: as) a) (ih b)
  | case3 a as b bs hremove hinsert hreplace =>
    -- the least of three ways is taken
    have hmin (x y z : Nat) :
        min (min x y) z = x ∨ min (min x y) z = y ∨ min (min x y) z = z := by omega
    rcases hmin (editDistance as (b :: bs) + 1) (editDistance (a :: as) bs + 1)
      (editDistance as bs + if a = b then 0 else 1) with h | h | h <;> rw [h]
    · exact .cons (.remove [] as a) hremove
    · exact .cons (.insert [] (a :: as) b) (hinsert.behind b)
    · by_cases hab : a = b
      · subst hab
        rw [if_pos rfl]
        exact hreplace.behind a
      · rw [if_neg hab]
        exact .cons (.replace [] as a b) (hreplace.behind b)

/-! An edit makes the distance smaller by one at most: at the front of the text, and then behind any
front. -/

lemma editDistance_le_cons_right (as : List Char) (b : Char) (bs : List Char) :
    editDistance as (b :: bs) ≤ editDistance as bs + 1 := by
  cases as with
  | nil => simp
  | cons a as =>
    rw [editDistance_cons]
    omega

lemma editDistance_cons_le (a : Char) (as bs : List Char) :
    editDistance (a :: as) bs ≤ editDistance as bs + 1 := by
  cases bs with
  | nil => simp
  | cons b bs =>
    rw [editDistance_cons]
    omega

lemma editDistance_le_cons (a : Char) (as bs : List Char) :
    editDistance as bs ≤ editDistance (a :: as) bs + 1 := by
  induction bs with
  | nil => simp; omega
  | cons b bs ih =>
    have := editDistance_le_cons_right as b bs
    rw [editDistance_cons]
    omega

lemma editDistance_replace_le (a b : Char) (as bs : List Char) :
    editDistance (a :: as) bs ≤ editDistance (b :: as) bs + 1 := by
  induction bs with
  | nil => simp
  | cons c bs ih =>
    rw [editDistance_cons, editDistance_cons]
    split <;> split <;> omega

lemma editDistance_behind_le (a : Char) (h : ∀ bs, editDistance as bs ≤ editDistance as' bs + 1)
    (bs : List Char) : editDistance (a :: as) bs ≤ editDistance (a :: as') bs + 1 := by
  induction bs with
  | nil => simpa using h []
  | cons b bs ih =>
    have hremove := h (b :: bs)
    have hreplace := h bs
    rw [editDistance_cons, editDistance_cons]
    omega

lemma Edit.editDistance_le (h : Edit as as') (bs : List Char) :
    editDistance as bs ≤ editDistance as' bs + 1 := by
  have hfront {as as' : List Char} (front : List Char)
      (h : ∀ bs, editDistance as bs ≤ editDistance as' bs + 1) :
      ∀ bs, editDistance (front ++ as) bs ≤ editDistance (front ++ as') bs + 1 := by
    induction front with
    | nil => exact h
    | cons c front ih => exact editDistance_behind_le c ih
  cases h with
  | insert front back c => exact hfront front (editDistance_le_cons c back) bs
  | remove front back c => exact hfront front (editDistance_cons_le c back) bs
  | replace front back c d => exact hfront front (editDistance_replace_le c d back) bs

/-- No sequence of edits is shorter. -/
theorem Edits.editDistance_le (h : Edits n as bs) : editDistance as bs ≤ n := by
  induction h with
  | refl cs =>
    induction cs with
    | nil => simp
    | cons c cs ih =>
      rw [editDistance_cons, if_pos rfl]
      omega
  | cons hedit _ ih => exact Nat.le_trans (hedit.editDistance_le _) (Nat.succ_le_succ ih)

/-- The distance is the least number of edits. -/
theorem isLeast_editDistance (as bs : List Char) :
    IsLeast {n | Edits n as bs} (editDistance as bs) :=
  ⟨edits_editDistance as bs, fun _ h => h.editDistance_le⟩

lemma editDistance_le_max (as bs : List Char) :
    editDistance as bs ≤ max as.length bs.length := by
  induction as generalizing bs with
  | nil => simp
  | cons a as ih =>
    cases bs with
    | nil => simp
    | cons b bs =>
      have := ih bs
      rw [editDistance_cons, List.length_cons, List.length_cons]
      split <;> omega

/-! ### Rows -/

/-- The least numbers of edits between a beginning of the first text and the beginnings of the
second one from a given one on. Beginnings are given in reverse. -/
def row (front back : List Char) : List Char → List Nat
  | [] => [editDistance front back]
  | b :: bs => editDistance front back :: row front (b :: back) bs

lemma exists_row_eq (front back bs : List Char) :
    ∃ rest, row front back bs = editDistance front back :: rest := by
  cases bs <;> exact ⟨_, rfl⟩

lemma getLastD_row (front back bs : List Char) :
    (row front back bs).getLastD 0 = editDistance front (bs.reverse ++ back) := by
  induction bs generalizing back with
  | nil => rfl
  | cons b bs ih =>
    obtain ⟨rest, hrest⟩ := exists_row_eq front (b :: back) bs
    have hlast := ih (b :: back)
    rw [hrest, List.getLastD_cons] at hlast
    rw [row, hrest, List.getLastD_cons, List.getLastD_cons, hlast, List.reverse_cons,
      List.append_assoc, List.singleton_append]

lemma row_nil (back bs : List Char) : row [] back bs = List.range' back.length (bs.length + 1) := by
  induction bs generalizing back with
  | nil => simp [row]
  | cons b bs ih => rw [row, ih, editDistance_nil_left]; rfl

/-- **One row from the other.** The distances of a beginning that is one character longer follow
from those of the beginning. -/
lemma nextDistances_row (a : Char) (front back bs : List Char) :
    editDistance (a :: front) back ::
        nextDistances a (editDistance (a :: front) back) bs (row front back bs) =
      row (a :: front) back bs := by
  induction bs generalizing back with
  | nil => rfl
  | cons b bs ih =>
    obtain ⟨rest, hrest⟩ := exists_row_eq front (b :: back) bs
    rw [row, row, hrest, nextDistances, ← editDistance_cons, ← hrest, ih]

lemma distances_row (front bs as : List Char) :
    distances bs (row front [] bs) as = row (as.reverse ++ front) [] bs := by
  induction as generalizing front with
  | nil => rfl
  | cons a as ih =>
    obtain ⟨rest, hrest⟩ := exists_row_eq front [] bs
    have hfirst : (row front [] bs).headD 0 + 1 = editDistance (a :: front) [] := by
      rw [hrest, List.headD_cons, editDistance_nil_right, editDistance_nil_right, List.length_cons]
    rw [distances]
    simp only [hfirst, nextDistances_row, ih]
    rw [List.reverse_cons, List.append_assoc, List.singleton_append]

/-- The last distance of the last row is the least number of edits. -/
theorem exactDistance_eq (as bs : List Char) : exactDistance as bs = editDistance as bs := by
  have hrange : List.range (bs.length + 1) = row [] [] bs := by
    rw [row_nil, List.range_eq_range', List.length_nil]
  have hleast := isLeast_editDistance as.reverse bs.reverse
  simp only [Edits.reverse_iff] at hleast
  rw [exactDistance, hrange, distances_row, getLastD_row, List.append_nil, List.append_nil]
  exact hleast.unique (isLeast_editDistance as bs)

/-! ### Words -/

/-- **The distance between words** is the least number of characters that have to be inserted,
removed or replaced to turn one of them into the other one, both in lower case. So only words that
are the same in lower case have no distance, the distance is the same in both directions and no
longer than any detour, and it lies between the difference of the two lengths and the larger one. -/
theorem isLeast_distance (a b : String) :
    IsLeast {n | Edits n (lowercase a.toList) (lowercase b.toList)} (distance a b) ∧
      (distance a b = 0 ↔ lowercase a.toList = lowercase b.toList) ∧
      distance b a = distance a b ∧
      (∀ c, distance a c ≤ distance a b + distance b c) ∧
      (lowercase a.toList).length ≤ (lowercase b.toList).length + distance a b ∧
      (lowercase b.toList).length ≤ (lowercase a.toList).length + distance a b ∧
      distance a b ≤ max (lowercase a.toList).length (lowercase b.toList).length := by
  have hleast (a b : String) :
      IsLeast {n | Edits n (lowercase a.toList) (lowercase b.toList)} (distance a b) := by
    rw [distance, exactDistance_eq]
    exact isLeast_editDistance _ _
  refine ⟨hleast a b, ⟨fun h => ?_, fun h => ?_⟩, ?_, fun c => ?_, (hleast a b).1.length_le,
    (hleast a b).1.symm.length_le, ?_⟩
  · exact Edits.zero_iff.mp (h ▸ (hleast a b).1)
  · exact Nat.le_zero.mp ((hleast a b).2 (Edits.zero_iff.mpr h))
  · exact Nat.le_antisymm ((hleast b a).2 (hleast a b).1.symm) ((hleast a b).2 (hleast b a).1.symm)
  · exact (hleast a c).2 ((hleast a b).1.trans (hleast b c).1)
  · rw [distance, exactDistance_eq]
    exact editDistance_le_max _ _

end QuestScript.Suggestion

import Mathlib.Data.List.Forall2
import Mathlib.Data.List.Sort
import QuestScript.Fault
import QuestScript.Proofs.Position

/-!
Reports in reading order.

Sorting keeps all reports, and reports that are in reading order already stay as they are among
themselves.
-/

namespace QuestScript.Report

instance : DecidableRel fun r s : Report => r.place ≤ s.place :=
  fun r s => inferInstanceAs (Decidable (r.place.notAfter s.place = true))

lemma insert_eq (r : Report) (rs : List Report) :
    insert r rs = rs.orderedInsert (fun r s => r.place ≤ s.place) r := by
  induction rs with
  | nil => rfl
  | cons s rest ih =>
    simp only [insert, List.orderedInsert_cons, ih]
    rfl

lemma sort_eq (rs : List Report) :
    sort rs = rs.insertionSort fun r s => r.place ≤ s.place := by
  induction rs with
  | nil => rfl
  | cons r rest ih => rw [sort, ih, insert_eq, List.insertionSort_cons]

/-- Sorting loses no reports and makes none. -/
theorem sort_perm (rs : List Report) : (sort rs).Perm rs :=
  sort_eq rs ▸ List.perm_insertionSort _ rs

/-- Reports that were made in reading order keep their order. -/
theorem filter_sort {rs : List Report} {p : Report → Bool}
    (h : (rs.filter p).Pairwise fun r s => r.place ≤ s.place) :
    (sort rs).filter p = rs.filter p := by
  have hsub : (rs.filter p).Sublist (sort rs) :=
    sort_eq rs ▸ List.sublist_insertionSort h (List.filter_sublist)
  have hlen : (rs.filter p).length = ((sort rs).filter p).length :=
    ((sort_perm rs).filter p).length_eq.symm
  refine (List.Sublist.eq_of_length ?_ hlen).symm
  simpa using hsub.filter p

/-! ### Reports on parts of a source -/

lemma insert_append_left {r : Report} (as : List Report) {bs : List Report}
    (h : ∀ b ∈ bs, r.place ≤ b.place) : insert r (as ++ bs) = insert r as ++ bs := by
  simp only [insert_eq]
  induction as with
  | nil =>
    rcases bs with _ | ⟨b, bs⟩
    · rfl
    · simp [List.orderedInsert_cons, h b List.mem_cons_self]
  | cons a as ih =>
    rw [List.cons_append, List.orderedInsert_cons, List.orderedInsert_cons]
    split
    · rfl
    · rw [ih, List.cons_append]

lemma insert_append_right {r : Report} {as : List Report} (bs : List Report)
    (h : ∀ a ∈ as, ¬r.place ≤ a.place) : insert r (as ++ bs) = as ++ insert r bs := by
  simp only [insert_eq]
  induction as with
  | nil => rfl
  | cons a as ih =>
    rw [List.cons_append, List.orderedInsert_cons, if_neg (h a List.mem_cons_self),
      ih fun b hb => h b (List.mem_cons_of_mem a hb), List.cons_append]

/-- Where all reports of one kind stand in front of all others, both kinds are sorted apart. -/
theorem sort_eq_append {p : Report → Bool} {rs : List Report}
    (h : ∀ r ∈ rs, ∀ s ∈ rs, p r = true → p s = false → r.place ≤ s.place ∧ ¬s.place ≤ r.place) :
    sort rs = sort (rs.filter p) ++ sort (rs.filter fun r => !p r) := by
  induction rs with
  | nil => rfl
  | cons r rest ih =>
    have ih := ih fun a ha b hb => h a (List.mem_cons_of_mem r ha) b (List.mem_cons_of_mem r hb)
    have hmem {q : Report → Bool} {s : Report} (hs : s ∈ sort (rest.filter q)) :
        s ∈ r :: rest ∧ q s = true := by
      obtain ⟨hrest, hq⟩ := List.mem_filter.mp ((sort_perm _).mem_iff.mp hs)
      exact ⟨List.mem_cons_of_mem r hrest, hq⟩
    by_cases hr : p r = true
    · rw [List.filter_cons_of_pos hr, List.filter_cons_of_neg (by simp [hr]), sort, ih, sort]
      refine insert_append_left _ fun b hb => ?_
      obtain ⟨hb, hpb⟩ := hmem hb
      exact (h r List.mem_cons_self b hb hr (by simpa using hpb)).1
    · rw [List.filter_cons_of_neg hr, List.filter_cons_of_pos (by simp [hr]), sort, ih, sort]
      refine insert_append_right _ fun a ha => ?_
      obtain ⟨ha, hpa⟩ := hmem ha
      exact (h a ha r List.mem_cons_self hpa (by simpa using hr)).2

lemma sort_map {f : Report → Report}
    (h : ∀ r s, (f r).place ≤ (f s).place ↔ r.place ≤ s.place) (rs : List Report) :
    sort (rs.map f) = (sort rs).map f := by
  rw [sort_eq, sort_eq]
  exact (List.map_insertionSort _ _ f rs fun r _ s _ => (h r s).symm).symm

/-! ### Reports that answer to one another -/

section

variable {R S : Report → Report → Prop} {r r' : Report} {rs rs' : List Report}

lemma forall₂_insert (hr : R r r') (hrs : List.Forall₂ R rs rs')
    (hle : ∀ s s', R s s' → s' ∈ rs' → (r.place ≤ s.place ↔ r'.place ≤ s'.place)) :
    List.Forall₂ R (insert r rs) (insert r' rs') := by
  rw [insert_eq, insert_eq]
  induction hrs with
  | nil => exact .cons hr .nil
  | @cons s s' rest rest' hs hrest ih =>
    have hfirst := hle s s' hs List.mem_cons_self
    rw [List.orderedInsert_cons, List.orderedInsert_cons]
    by_cases hbefore : r.place ≤ s.place
    · rw [if_pos hbefore, if_pos (hfirst.mp hbefore)]
      exact .cons hr (.cons hs hrest)
    · rw [if_neg hbefore, if_neg (mt hfirst.mpr hbefore)]
      exact .cons hs (ih fun t t' ht ht' => hle t t' ht (List.mem_cons_of_mem s' ht'))

/-- Reports that answer to one another still do when they are sorted, if each of them stands to
those made after it as its counterpart does. -/
lemma forall₂_sort (h : List.Forall₂ R rs rs') (hS : rs'.Pairwise S)
    (hle : ∀ r r' s s', R r r' → R s s' → S r' s' → (r.place ≤ s.place ↔ r'.place ≤ s'.place)) :
    List.Forall₂ R (sort rs) (sort rs') := by
  induction h with
  | nil => exact .nil
  | @cons r r' rest rest' hr _ ih =>
    obtain ⟨hfirst, hrest⟩ := List.pairwise_cons.mp hS
    exact forall₂_insert hr (ih hrest) fun s s' hs hs' =>
      hle r r' s s' hr hs (hfirst s' ((sort_perm rest').mem_iff.mp hs'))

end

end QuestScript.Report

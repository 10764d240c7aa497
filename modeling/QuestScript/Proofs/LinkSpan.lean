import Mathlib.Data.List.Basic
import QuestScript.LinkSpan

/-!
The link spans of a text.

A search for text outside of link spans goes from left to right and steps over each span it meets
(`LinkSpan.spans`). The places it comes to cut the text: what the spans cover behind such a place
is what they cover in the text that starts there (`LinkSpan.Reaches.covers_add`), and what they
cover in front of it is what they cover in the text that ends there
(`LinkSpan.Reaches.covers_take`).
-/

namespace QuestScript.LinkSpan

/-- The link spans of a text, found from left to right and without overlap: where each starts and
where it ends. The text itself starts at the given place. -/
def spans (start : Nat) (cs : List Char) : List (Nat × Nat) :=
  match cs with
  | [] => []
  | c :: rest =>
    let more := (length? (c :: rest)).getD 1 - 1
    let later := spans (start + more + 1) (rest.drop more)
    if (length? (c :: rest)).isSome then (start, start + more + 1) :: later else later
termination_by cs.length

/-- The character at the given place lies in a link span of the text. -/
def Covers (cs : List Char) (k : Nat) : Prop := ∃ span ∈ spans 0 cs, span.1 ≤ k ∧ k < span.2

instance (cs : List Char) (k : Nat) : Decidable (Covers cs k) :=
  inferInstanceAs (Decidable (∃ span ∈ spans 0 cs, span.1 ≤ k ∧ k < span.2))

variable {c : Char} {rest cs back : List Char} {start k m n : Nat}

/-! ### Spans of a part of the text -/

lemma inner?_of_ne (rest : List Char) (h : c ≠ '[') : inner? (c :: rest) = none := by
  rcases rest with _ | ⟨d, _ | ⟨e, rest⟩⟩ <;> simp [inner?, h]

lemma length?_of_ne (rest : List Char) (h : c ≠ '[') : length? (c :: rest) = none := by
  rw [length?, inner?_of_ne rest h, Option.map_none]

lemma upToClosing?_take {inner : List Char} (h : upToClosing? cs = some inner)
    (hn : inner.length + 2 ≤ n) : upToClosing? (cs.take n) = some inner := by
  fun_induction upToClosing? cs generalizing inner n with
  | case1 => simp at h
  | case2 => simp at h
  | case3 => simp at h
  | case4 c d cs hline hclosing =>
    obtain rfl : inner = [] := by simpa using h.symm
    obtain ⟨n, rfl⟩ := Nat.exists_eq_add_of_le' hn
    simp [upToClosing?, hline, hclosing]
  | case5 c d cs hline hclosing ih =>
    obtain ⟨tail, htail, rfl⟩ := Option.map_eq_some_iff.mp h
    obtain ⟨n, rfl⟩ := Nat.exists_eq_add_of_le' hn
    have hrec := ih htail (n := n + tail.length + 2) (by omega)
    rw [List.take_succ_cons] at hrec
    have hlength : n + ((c :: tail).length + 2) = n + tail.length + 2 + 1 := by
      simp only [List.length_cons]
      omega
    rw [hlength, List.take_succ_cons, List.take_succ_cons, upToClosing?, if_neg hline,
      if_neg hclosing, hrec, Option.map_some]

lemma length?_take (h : length? cs = some m) (hm : m ≤ n) : length? (cs.take n) = some m := by
  obtain ⟨inner, hinner, rfl⟩ := Option.map_eq_some_iff.mp h
  unfold inner? at hinner
  split at hinner
  · next a b c cs =>
    split at hinner
    · next hopen =>
      obtain ⟨tail, htail, rfl⟩ := Option.map_eq_some_iff.mp hinner
      obtain ⟨n, rfl⟩ := Nat.exists_eq_add_of_le' hm
      have hrec := upToClosing?_take htail (n := n + tail.length + 2) (by omega)
      have hlength : n + ((c :: tail).length + 4) = n + tail.length + 2 + 3 := by
        simp only [List.length_cons]
        omega
      rw [hlength, List.take_succ_cons, List.take_succ_cons, List.take_succ_cons, length?, inner?,
        if_pos hopen, hrec]
      rfl
    · simp at hinner
  · simp at hinner

lemma upToClosing?_append_right {inner : List Char} (back : List Char)
    (h : upToClosing? cs = some inner) : upToClosing? (cs ++ back) = some inner := by
  fun_induction upToClosing? cs generalizing inner with
  | case1 => simp at h
  | case2 => simp at h
  | case3 => simp at h
  | case4 c d cs hline hclosing => simpa [upToClosing?, hline, hclosing] using h
  | case5 c d cs hline hclosing ih =>
    obtain ⟨tail, htail, rfl⟩ := Option.map_eq_some_iff.mp h
    have hrec := ih htail
    rw [List.cons_append] at hrec
    rw [List.cons_append, List.cons_append, upToClosing?, if_neg hline, if_neg hclosing, hrec,
      Option.map_some]

lemma length?_append_right (back : List Char) (h : length? cs = some m) :
    length? (cs ++ back) = some m := by
  obtain ⟨inner, hinner, rfl⟩ := Option.map_eq_some_iff.mp h
  unfold inner? at hinner
  split at hinner
  · next a b c cs =>
    split at hinner
    · next hopen =>
      obtain ⟨tail, htail, rfl⟩ := Option.map_eq_some_iff.mp hinner
      have hrec := upToClosing?_append_right back htail
      rw [List.cons_append, List.cons_append, List.cons_append, length?, inner?, if_pos hopen, hrec]
      rfl
    · simp at hinner
  · simp at hinner

lemma length?_take_eq (h : ∀ m ∈ length? cs, m ≤ n) : length? (cs.take n) = length? cs := by
  rcases hspan : length? cs with _ | m
  · rcases hfront : length? (cs.take n) with _ | m
    · rfl
    · have := length?_append_right (cs.drop n) hfront
      rw [List.take_append_drop, hspan] at this
      simp at this
  · exact length?_take hspan (h m hspan)

lemma length?_append_le (hback : ']' ∉ back) (h : length? (cs ++ back) = some n) :
    n ≤ cs.length := by
  obtain ⟨inner, hinner, rfl⟩ := Option.map_eq_some_iff.mp h
  obtain ⟨rest, heq, -, -⟩ := eq_append_of_inner? hinner
  by_contra hlong
  have hlast : (cs ++ back)[inner.length + 3]? = some ']' := by
    rw [heq]
    simp
  rw [List.getElem?_append_right (by omega)] at hlast
  exact hback (List.mem_of_getElem? hlast)

/-! ### What the search steps over at once -/

/-- What stands behind the first character and is stepped over with it. -/
def stride (cs : List Char) : Nat := (length? cs).getD 1 - 1

lemma stride_of_none (h : length? cs = none) : stride cs = 0 := by
  simp [stride, h]

lemma stride_of_some (h : length? cs = some n) : stride cs + 1 = n := by
  have := length?_le h
  simp only [stride, h, Option.getD_some]
  omega

lemma stride_le (c : Char) (rest : List Char) : stride (c :: rest) ≤ rest.length := by
  rcases h : length? (c :: rest) with _ | n
  · simp [stride_of_none h]
  · have hle := (length?_le h).2
    have hstride := stride_of_some h
    rw [List.length_cons] at hle
    omega

lemma spans_cons (start : Nat) (c : Char) (rest : List Char) :
    spans start (c :: rest) =
      if (length? (c :: rest)).isSome then
        (start, start + stride (c :: rest) + 1) ::
          spans (start + stride (c :: rest) + 1) (rest.drop (stride (c :: rest)))
      else spans (start + stride (c :: rest) + 1) (rest.drop (stride (c :: rest))) := by
  rw [spans]
  rfl

lemma spans_add (start k : Nat) (cs : List Char) :
    spans (start + k) cs = (spans start cs).map fun span => (span.1 + k, span.2 + k) := by
  fun_induction spans start cs with
  | case1 => simp [spans]
  | case2 start c rest more later hspan ih =>
    rw [spans_cons, if_pos hspan, List.map_cons, ← ih, Nat.add_right_comm start k,
      Nat.add_right_comm (start + _) k]
    rfl
  | case3 start c rest more later hspan ih =>
    rw [spans_cons, if_neg hspan, ← ih, Nat.add_right_comm start k,
      Nat.add_right_comm (start + _) k]
    rfl

lemma le_of_mem_spans {span : Nat × Nat} (h : span ∈ spans start cs) :
    start ≤ span.1 ∧ span.1 < span.2 := by
  fun_induction spans start cs with
  | case1 => simp at h
  | case2 start c rest more later hspan ih =>
    rcases List.mem_cons.mp h with rfl | h
    · exact ⟨Nat.le_refl _, by simp only; omega⟩
    · have := ih h
      exact ⟨by omega, this.2⟩
  | case3 start c rest more later hspan ih =>
    have := ih h
    exact ⟨by omega, this.2⟩

lemma spans_drop (h : ∀ span ∈ spans start cs, start + n ≤ span.1) :
    spans start cs = spans (start + n) (cs.drop n) := by
  induction n generalizing start cs with
  | zero => rfl
  | succ n ih =>
    rcases cs with _ | ⟨c, rest⟩
    · simp [spans]
    · rw [spans_cons] at h ⊢
      split at h
      · have := h _ List.mem_cons_self
        simp only at this
        omega
      · next hspan =>
        have hstride : stride (c :: rest) = 0 := stride_of_none (by simpa using hspan)
        simp only [hspan, hstride, Nat.add_zero, List.drop_zero] at h ⊢
        rw [if_neg (by simp), List.drop_succ_cons,
          ih fun span hmem => by have := h span hmem; omega]
        congr 1
        omega

/-- What is stepped over at once is a span, or a single character that is covered by none. -/
lemma covers_of_le (hk : k ≤ stride (c :: rest)) :
    Covers (c :: rest) k ↔ (length? (c :: rest)).isSome = true := by
  have hlater : ∀ span ∈ spans (0 + stride (c :: rest) + 1) (rest.drop (stride (c :: rest))),
      ¬span.1 ≤ k := fun span hspan => by
    have := (le_of_mem_spans hspan).1
    omega
  rw [Covers, spans_cons]
  split
  · next hspan =>
    exact iff_of_true ⟨_, List.mem_cons_self, Nat.zero_le k, by simp only; omega⟩ hspan
  · next hspan => exact iff_of_false (fun ⟨span, hmem, hlo, _⟩ => hlater span hmem hlo) hspan

lemma covers_step (c : Char) (rest : List Char) (k : Nat) :
    Covers (c :: rest) (k + stride (c :: rest) + 1) ↔
      Covers (rest.drop (stride (c :: rest))) k := by
  have hlater : (∃ span ∈ spans (0 + (stride (c :: rest) + 1)) (rest.drop (stride (c :: rest))),
        span.1 ≤ k + stride (c :: rest) + 1 ∧ k + stride (c :: rest) + 1 < span.2) ↔
      Covers (rest.drop (stride (c :: rest))) k := by
    rw [spans_add]
    simp only [List.mem_map, exists_exists_and_eq_and, Covers, Nat.add_assoc,
      Nat.add_le_add_iff_right, Nat.add_lt_add_iff_right]
  rw [Covers, spans_cons, Nat.add_assoc 0]
  split
  · rw [List.exists_mem_cons_iff, hlater, or_iff_right]
    simp only
    omega
  · exact hlater

/-- What holds where the search stands outside of spans, there and behind what it steps over, holds
of all that is uncovered. -/
lemma forall_uncovered {P : Nat → Prop} (here : length? (c :: rest) = none → P 0)
    (behind : ∀ k < n, ¬Covers (rest.drop (stride (c :: rest))) k →
      P (k + stride (c :: rest) + 1)) :
    ∀ k < n + stride (c :: rest) + 1, ¬Covers (c :: rest) k → P k := by
  intro k hk hcovers
  by_cases hhere : k ≤ stride (c :: rest)
  · have hspan : length? (c :: rest) = none := by simpa [covers_of_le hhere] using hcovers
    obtain rfl : k = 0 := by
      rw [stride_of_none hspan] at hhere
      omega
    exact here hspan
  · obtain ⟨j, rfl⟩ : ∃ j, k = j + stride (c :: rest) + 1 :=
      ⟨k - (stride (c :: rest) + 1), by omega⟩
    exact behind j (by omega) ((covers_step c rest j).not.mp hcovers)

/-! ### Where the search comes to -/

/-- The search for link spans comes to the given place of the text. -/
inductive Reaches : List Char → Nat → Prop
  | start (cs : List Char) : Reaches cs 0
  | step {c : Char} {rest : List Char} {n : Nat}
    (h : Reaches (rest.drop (stride (c :: rest))) n) :
    Reaches (c :: rest) (n + stride (c :: rest) + 1)

namespace Reaches

/-- Behind a place that the search comes to, spans are found as if the text started there. -/
theorem covers_add (h : Reaches cs n) (k : Nat) : Covers cs (k + n) ↔ Covers (cs.drop n) k := by
  induction h with
  | start => rfl
  | @step c rest n _ ih =>
    rw [← Nat.add_assoc, ← Nat.add_assoc, covers_step, ih, List.drop_drop, List.drop_succ_cons,
      Nat.add_comm n]

/-- In front of a place that the search comes to, spans are found as if the text ended there. -/
theorem covers_take (h : Reaches cs n) (hk : k < n) : Covers (cs.take n) k ↔ Covers cs k := by
  induction h generalizing k with
  | start => omega
  | @step c rest n _ ih =>
    have hfits : ∀ m ∈ length? (c :: rest), m ≤ n + stride (c :: rest) + 1 := fun m hm => by
      have := stride_of_some hm
      omega
    have hspan := length?_take_eq hfits
    have hstride : stride ((c :: rest).take (n + stride (c :: rest) + 1)) = stride (c :: rest) := by
      rw [stride, hspan, stride]
    rw [List.take_succ_cons] at hspan hstride ⊢
    by_cases hhere : k ≤ stride (c :: rest)
    · rw [covers_of_le hhere, covers_of_le (by rwa [hstride]), hspan]
    · obtain ⟨k, rfl⟩ : ∃ j, k = j + stride (c :: rest) + 1 :=
        ⟨k - (stride (c :: rest) + 1), by omega⟩
      have hfront := covers_step c (rest.take (n + stride (c :: rest))) k
      rw [hstride, List.drop_take, Nat.add_sub_cancel] at hfront
      rw [hfront, covers_step, ih (by omega)]

lemma trans (h : Reaches cs n) (h' : Reaches (cs.drop n) k) : Reaches cs (n + k) := by
  induction h with
  | start => simpa using h'
  | @step c rest n _ ih =>
    rw [show n + stride (c :: rest) + 1 + k = n + k + stride (c :: rest) + 1 by omega]
    refine step (ih ?_)
    rwa [List.drop_drop, Nat.add_comm, ← List.drop_succ_cons]

end Reaches

lemma reaches_append (cs : List Char) (hback : ']' ∉ back) : Reaches (cs ++ back) cs.length := by
  induction hn : cs.length using Nat.strongRecOn generalizing cs with
  | ind n ih =>
  rcases cs with _ | ⟨c, rest⟩
  · rw [← hn]
    exact .start _
  have hstride : stride (c :: (rest ++ back)) ≤ rest.length := by
    rcases hspan : length? (c :: (rest ++ back)) with _ | m
    · simp [stride_of_none hspan]
    · have hm : m ≤ (c :: rest).length := length?_append_le hback hspan
      have := stride_of_some hspan
      simp only [List.length_cons] at hm
      omega
  have hrest := ih (rest.length - stride (c :: (rest ++ back)))
    (by simp only [List.length_cons] at hn; omega) (rest.drop (stride (c :: (rest ++ back))))
    List.length_drop
  rw [← List.drop_append_of_le_length hstride] at hrest
  have hend := hrest.step
  rwa [show rest.length - stride (c :: (rest ++ back)) + stride (c :: (rest ++ back)) + 1 = n by
    simp only [List.length_cons] at hn; omega] at hend

end QuestScript.LinkSpan

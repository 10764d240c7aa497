import QuestScript.Proofs.LinkSpan
import QuestScript.Statement.Fields

/-!
Where a text is split into fields.

The first field ends at the first comma that no link span covers (`Fields.comma?_eq_some_iff`). The
separators of a text are all such commas. Splitting cuts at the first ones of them
(`Fields.seams_split`), so it leaves none in a field in front of another one
(`Fields.covers_of_split`), and the commas put back between the fields give the text again
(`Fields.intercalate_split`).
-/

namespace QuestScript.Fields

open LinkSpan (Covers Reaches)

variable {cs back : List Char} {k n : Nat}

/-! ### The first field -/

lemma not_covers_comma (rest : List Char) : ¬Covers (',' :: rest) 0 := by
  rw [LinkSpan.covers_of_le (Nat.zero_le _), LinkSpan.length?_of_ne rest (by decide)]
  simp

lemma covers_of_comma? (h : comma? cs = some n) :
    cs[n]? = some ',' ∧ ¬Covers cs n ∧ ∀ k < n, ¬Covers cs k → cs[k]? ≠ some ',' := by
  fun_induction comma? cs generalizing n with
  | case1 => simp at h
  | case2 rest =>
    obtain rfl : 0 = n := by simpa using h
    exact ⟨rfl, not_covers_comma rest, by simp⟩
  | case3 c rest hc more =>
    rename_i ih
    obtain ⟨k, hk, rfl⟩ := Option.map_eq_some_iff.mp h
    obtain ⟨hcomma, hcovers, hbefore⟩ := ih hk
    refine ⟨?_, (LinkSpan.covers_step c rest k).not.mpr hcovers, ?_⟩
    · rwa [List.getElem?_cons_succ, Nat.add_comm, ← List.getElem?_drop]
    · refine LinkSpan.forall_uncovered (fun _ => by simpa using hc) fun j hj hj' => ?_
      rw [List.getElem?_cons_succ, Nat.add_comm, ← List.getElem?_drop]
      exact hbefore j hj hj'

lemma comma?_lt (h : comma? cs = some n) : n < cs.length :=
  (List.getElem?_eq_some_iff.mp (covers_of_comma? h).1).1

lemma mem_of_comma? (h : comma? cs = some n) : ',' ∈ cs :=
  List.mem_of_getElem? (covers_of_comma? h).1

lemma covers_of_comma?_eq_none (h : comma? cs = none) :
    ∀ k, ¬Covers cs k → cs[k]? ≠ some ',' := by
  fun_induction comma? cs with
  | case1 => simp
  | case2 => simp at h
  | case3 c rest hc more ih =>
    intro k hcovers
    refine LinkSpan.forall_uncovered (P := fun k => (c :: rest)[k]? ≠ some ',') (n := k)
      (fun _ => by simpa using hc) (fun j _ hj => ?_) k (by omega) hcovers
    rw [List.getElem?_cons_succ, Nat.add_comm, ← List.getElem?_drop]
    exact ih (by simpa using h) j hj

/-- **A field ends at the first comma that no link span covers.** -/
theorem comma?_eq_some_iff : comma? cs = some n ↔
    cs[n]? = some ',' ∧ ¬Covers cs n ∧ ∀ k < n, ¬Covers cs k → cs[k]? ≠ some ',' := by
  refine ⟨covers_of_comma?, fun ⟨hcomma, hcovers, hbefore⟩ => ?_⟩
  rcases hfirst : comma? cs with _ | m
  · exact absurd hcomma (covers_of_comma?_eq_none hfirst n hcovers)
  · obtain ⟨hcomma', hcovers', hbefore'⟩ := covers_of_comma? hfirst
    rcases Nat.lt_trichotomy m n with hlt | rfl | hlt
    · exact absurd hcomma' (hbefore m hlt hcovers')
    · rfl
    · exact absurd hcomma (hbefore' n hlt hcovers)

lemma comma?_append (hcomma : ',' ∉ cs) (hback : ']' ∉ back) :
    comma? (cs ++ ',' :: back) = some cs.length := by
  have hreaches : LinkSpan.Reaches (cs ++ ',' :: back) cs.length :=
    LinkSpan.reaches_append cs (by simpa using hback)
  have hend := hreaches.covers_add 0
  rw [Nat.zero_add, List.drop_left] at hend
  refine comma?_eq_some_iff.mpr ⟨by simp, hend.not.mpr (not_covers_comma back), fun k hk _ h => ?_⟩
  rw [List.getElem?_append_left hk] at h
  exact hcomma (List.mem_of_getElem? h)

lemma split_one (hcomma : ',' ∉ cs) (hback : ']' ∉ back) :
    split 1 (cs ++ ',' :: back) = [cs, back] := by
  have hdrop : (cs ++ ',' :: back).drop (cs.length + 1) = back := by
    rw [List.append_cons, List.drop_left' (by simp)]
  rw [split, comma?_append hcomma hback]
  simp only [List.take_left, hdrop, split]

/-! ### Separators -/

/-- The places of the commas that no link span covers. -/
def separators (cs : List Char) : List Nat :=
  (List.range cs.length).filter fun k => cs[k]? = some ',' ∧ ¬Covers cs k

/-- The places of the commas between fields. The first field starts at the given place. -/
def seams (start : Nat) : List (List Char) → List Nat
  | field :: next :: rest =>
    (start + field.length) :: seams (start + field.length + 1) (next :: rest)
  | _ => []

/-- How much of the text the given fields take up, each with the comma behind it. -/
def extent (fields : List (List Char)) : Nat := (fields.flatMap (· ++ [','])).length

/-! ### One comma -/

lemma reaches_of_comma? (h : comma? cs = some n) : Reaches cs (n + 1) := by
  fun_induction comma? cs generalizing n with
  | case1 => simp at h
  | case2 rest =>
    obtain rfl : 0 = n := by simpa using h
    have hstride : LinkSpan.stride (',' :: rest) = 0 :=
      LinkSpan.stride_of_none (LinkSpan.length?_of_ne rest (by decide))
    have hstart := Reaches.start (rest.drop (LinkSpan.stride (',' :: rest)))
    have hstep := hstart.step (c := ',')
    rwa [hstride] at hstep
  | case3 c rest hc more =>
    rename_i ih
    obtain ⟨k, hk, rfl⟩ := Option.map_eq_some_iff.mp h
    have hstep := (ih hk).step
    rwa [Nat.add_right_comm k 1] at hstep

lemma eq_append_of_comma? (h : comma? cs = some k) :
    cs = cs.take k ++ ',' :: cs.drop (k + 1) := by
  obtain ⟨hlt, hcomma⟩ := List.getElem?_eq_some_iff.mp (covers_of_comma? h).1
  rw [← hcomma, ← List.drop_eq_getElem_cons hlt, List.take_append_drop]

lemma separators_of_none (h : comma? cs = none) : separators cs = [] := by
  refine List.filter_eq_nil_iff.mpr fun k _ hk => ?_
  obtain ⟨hcomma, hcovers⟩ := of_decide_eq_true hk
  exact covers_of_comma?_eq_none h k hcovers hcomma

lemma separators_of_some (h : comma? cs = some k) :
    separators cs = k :: (separators (cs.drop (k + 1))).map (k + 1 + ·) := by
  obtain ⟨hcomma, hcovers, hbefore⟩ := covers_of_comma? h
  have hlength : cs.length = k + 1 + (cs.drop (k + 1)).length := by
    have := comma?_lt h
    rw [List.length_drop]
    omega
  have hfront : (List.range k).filter (fun j => cs[j]? = some ',' ∧ ¬Covers cs j) = [] := by
    refine List.filter_eq_nil_iff.mpr fun j hj hsep => ?_
    obtain ⟨hat, hfree⟩ := of_decide_eq_true hsep
    exact hbefore j (List.mem_range.mp hj) hfree hat
  have hback : (List.range (cs.drop (k + 1)).length).filter ((fun j =>
      cs[j]? = some ',' ∧ ¬Covers cs j) ∘ (k + 1 + ·)) = separators (cs.drop (k + 1)) := by
    refine List.filter_congr fun j _ => decide_eq_decide.mpr ?_
    rw [List.getElem?_drop, ← (reaches_of_comma? h).covers_add, Nat.add_comm j]
  have hhere : [k].filter (fun j => cs[j]? = some ',' ∧ ¬Covers cs j) = [k] :=
    List.filter_cons_of_pos (by simp [hcomma, hcovers])
  rw [separators, hlength, List.range_add, List.range_succ, List.filter_append, List.filter_append,
    hfront, hhere, List.filter_map, hback]
  rfl

/-! ### All fields -/

lemma split_of_none (h : comma? cs = none) : split n cs = [cs] := by
  cases n with
  | zero => rfl
  | succ n => rw [split, h]

lemma split_of_some (h : comma? cs = some k) :
    split (n + 1) cs = cs.take k :: split n (cs.drop (k + 1)) := by
  rw [split, h]

lemma split_ne_nil (n : Nat) (cs : List Char) : split n cs ≠ [] := by
  cases n with
  | zero => simp [split]
  | succ n => cases h : comma? cs <;> simp [split, h]

lemma length_split_le (n : Nat) (cs : List Char) : (split n cs).length ≤ n + 1 := by
  induction n generalizing cs with
  | zero => simp [split]
  | succ n ih =>
    rcases h : comma? cs with _ | k
    · simp [split_of_none h]
    · simpa [split_of_some h] using ih _

/-- The fields with the commas put back between them are the text. -/
theorem intercalate_split (n : Nat) (cs : List Char) : [','].intercalate (split n cs) = cs := by
  induction n generalizing cs with
  | zero => simp [split]
  | succ n ih =>
    rcases h : comma? cs with _ | k
    · simp [split_of_none h]
    · obtain ⟨field, rest, hrest⟩ :=
        List.exists_cons_of_ne_nil (split_ne_nil n (cs.drop (k + 1)))
      have hjoined := ih (cs.drop (k + 1))
      rw [hrest] at hjoined
      rw [split_of_some h, hrest, List.intercalate_cons_cons, hjoined, List.append_assoc,
        List.singleton_append, ← eq_append_of_comma? h]

/-- **A text is split at the first commas that no link span covers.** -/
theorem seams_split (start n : Nat) (cs : List Char) :
    seams start (split n cs) = ((separators cs).take n).map (start + ·) := by
  induction n generalizing start cs with
  | zero => simp [split, seams]
  | succ n ih =>
    rcases h : comma? cs with _ | k
    · simp [split_of_none h, separators_of_none h, seams]
    · obtain ⟨field, rest, hrest⟩ :=
        List.exists_cons_of_ne_nil (split_ne_nil n (cs.drop (k + 1)))
      have hlength : (cs.take k).length = k := List.length_take_of_le (Nat.le_of_lt (comma?_lt h))
      have hlater := ih (start + k + 1) (cs.drop (k + 1))
      rw [hrest] at hlater
      rw [split_of_some h, hrest, seams, hlength, hlater, separators_of_some h]
      simp [Function.comp_def, Nat.add_assoc]

lemma eq_of_singleton_eq {a b : List Char} {front back : List (List Char)}
    (h : [a] = front ++ b :: back) : front = [] ∧ b = a ∧ back = [] := by
  rcases front with _ | ⟨c, front⟩
  · obtain ⟨rfl, rfl⟩ := List.cons.inj h
    exact ⟨rfl, rfl, rfl⟩
  · simp at h

/-- A field with another one behind it has no separator in it, and neither has the last one if there
is room for more fields. -/
theorem covers_of_split {front back : List (List Char)} {field : List Char}
    (h : split n cs = front ++ field :: back) (hroom : back ≠ [] ∨ (split n cs).length ≤ n)
    (hcomma : field[k]? = some ',') : Covers cs (extent front + k) := by
  induction n generalizing cs front with
  -- without room the text is one field, which has no other behind it
  | zero =>
    obtain ⟨-, -, rfl⟩ := eq_of_singleton_eq (by rwa [split] at h)
    simp [split] at hroom
  | succ n ih =>
    rcases hfirst : comma? cs with _ | m
    · -- no comma stands outside of link spans
      obtain ⟨rfl, rfl, -⟩ := eq_of_singleton_eq (by rwa [split_of_none hfirst] at h)
      by_contra hcovers
      exact covers_of_comma?_eq_none hfirst k (by simpa [extent] using hcovers) hcomma
    · rw [split_of_some hfirst] at h hroom
      rcases front with _ | ⟨first, front⟩
      · -- the first field ends at the first such comma
        obtain ⟨rfl, -⟩ := List.cons.inj h
        obtain ⟨hlt, -⟩ := List.getElem?_eq_some_iff.mp hcomma
        rw [List.length_take] at hlt
        rw [List.getElem?_take_of_lt (by omega)] at hcomma
        by_contra hcovers
        exact (covers_of_comma? hfirst).2.2 k (by omega) (by simpa [extent] using hcovers) hcomma
      · -- a later field, whose commas are looked for behind the cut
        obtain ⟨rfl, hrest⟩ := List.cons.inj h
        have hlater := ih hrest (hroom.imp_right fun hle => Nat.le_of_succ_le_succ hle)
        rw [← (reaches_of_comma? hfirst).covers_add] at hlater
        have hlength : (cs.take m).length = m :=
          List.length_take_of_le (Nat.le_of_lt (comma?_lt hfirst))
        have hextent : extent (cs.take m :: front) + k = extent front + k + (m + 1) := by
          simp only [extent, List.flatMap_cons, List.length_append, List.length_singleton, hlength]
          omega
        rwa [hextent]

end QuestScript.Fields

import Mathlib.Data.List.TakeWhile
import Mathlib.Tactic.Common
import QuestScript.Text.Basic

/-!
Texts without blanks around them. Trimming a text leaves a part of it, and it leaves the text alone
exactly when neither of its ends is blank.
-/

namespace QuestScript.Text

lemma drop_takeWhile {α : Type} (p : α → Bool) (as : List α) :
    as.drop (as.takeWhile p).length = as.dropWhile p := by
  have := @List.drop_left _ (as.takeWhile p) (as.dropWhile p)
  rwa [List.takeWhile_append_dropWhile] at this

lemma dropEndWhile_append (p : Char → Bool) (cs : List Char) :
    ∃ tail, cs = dropEndWhile p cs ++ tail := by
  refine ⟨(cs.reverse.takeWhile p).reverse, ?_⟩
  rw [dropEndWhile, ← List.reverse_append, List.takeWhile_append_dropWhile, List.reverse_reverse]

lemma trim_part (cs : List Char) :
    ∃ blanks tail, cs = blanks ++ trim cs ++ tail ∧ blanks.length = leadingBlanks cs := by
  obtain ⟨tail, ht⟩ := dropEndWhile_append isBlank (trimStart cs)
  refine ⟨cs.takeWhile isBlank, tail, ?_, rfl⟩
  rw [List.append_assoc, trim, trimEnd, ← ht, trimStart, List.takeWhile_append_dropWhile]

lemma trim_subset (cs : List Char) : trim cs ⊆ cs := by
  obtain ⟨blanks, tail, hcs, -⟩ := trim_part cs
  intro c hc
  rw [hcs]
  simp [hc]

lemma dropEndWhile_eq_self {p : Char → Bool} {cs : List Char}
    (h : ∀ c ∈ cs.getLast?, p c = false) : dropEndWhile p cs = cs := by
  rw [dropEndWhile, List.reverse_eq_iff]
  cases hr : cs.reverse with
  | nil => rfl
  | cons c rest =>
    have hc : cs.getLast? = some c := by rw [← List.head?_reverse, hr]; rfl
    rw [List.dropWhile_cons_of_neg (by simp [h c hc])]

lemma getLast?_dropEndWhile {p : Char → Bool} {cs : List Char} {c : Char}
    (h : (dropEndWhile p cs).getLast? = some c) : p c = false := by
  rw [dropEndWhile, List.getLast?_reverse] at h
  cases hd : cs.reverse.dropWhile p with
  | nil => simp [hd] at h
  | cons d rest =>
    have hn := List.head_dropWhile_not (p := p) (l := cs.reverse) (by simp [hd])
    simp only [hd, List.head_cons] at hn
    obtain rfl : d = c := by simpa [hd] using h
    exact hn

lemma trim_eq_self {cs : List Char} (hhead : ∀ c ∈ cs.head?, isBlank c = false)
    (hlast : ∀ c ∈ cs.getLast?, isBlank c = false) : trim cs = cs := by
  have hs : trimStart cs = cs := by
    cases cs with
    | nil => rfl
    | cons c rest => exact List.dropWhile_cons_of_neg (by simp [hhead c rfl])
  rw [trim, hs, trimEnd, dropEndWhile_eq_self hlast]

lemma isBlank_getLast?_of_trim {cs : List Char} (h : trim cs = cs) :
    ∀ c ∈ cs.getLast?, isBlank c = false := by
  intro c hc
  rw [← h] at hc
  exact getLast?_dropEndWhile hc

/-- The text is the other one without some of the blanks at its end. -/
def IsTrimmedOf (text cs : List Char) : Prop :=
  ∃ blanks, cs = text ++ blanks ∧ ∀ c ∈ blanks, isBlank c = true

namespace IsTrimmedOf

variable {a b cs : List Char}

lemma refl (cs : List Char) : IsTrimmedOf cs cs := ⟨[], by simp, by simp⟩

lemma trans (h : IsTrimmedOf a b) (h' : IsTrimmedOf b cs) : IsTrimmedOf a cs := by
  obtain ⟨blanks, rfl, hblanks⟩ := h
  obtain ⟨more, rfl, hmore⟩ := h'
  exact ⟨blanks ++ more, by simp, List.forall_mem_append.mpr ⟨hblanks, hmore⟩⟩

lemma append_left (front : List Char) (h : IsTrimmedOf a b) :
    IsTrimmedOf (front ++ a) (front ++ b) := by
  obtain ⟨blanks, rfl, hblanks⟩ := h
  exact ⟨blanks, by simp, hblanks⟩

lemma isPrefix (h : IsTrimmedOf a b) : a <+: b := by
  obtain ⟨blanks, rfl, -⟩ := h
  exact List.prefix_append a blanks

lemma trim_eq (h : IsTrimmedOf a b) : trim a = trim b := by
  obtain ⟨blanks, rfl, hblanks⟩ := h
  have hend (cs : List Char) : trimEnd (cs ++ blanks) = trimEnd cs := by
    rw [trimEnd, dropEndWhile, List.reverse_append, List.dropWhile_append_of_pos fun c hc =>
      hblanks c (List.mem_reverse.mp hc)]
    rfl
  rw [trim, trim, trimStart, trimStart, List.dropWhile_append]
  split
  · next hempty =>
    rw [List.isEmpty_iff.mp hempty, List.dropWhile_eq_nil_iff.mpr hblanks]
  · exact (hend _).symm

end IsTrimmedOf

lemma isTrimmedOf_dropEndWhile {p : Char → Bool} (hp : ∀ c, p c = true → isBlank c = true)
    (cs : List Char) : IsTrimmedOf (dropEndWhile p cs) cs := by
  refine ⟨(cs.reverse.takeWhile p).reverse, ?_, fun c hc => ?_⟩
  · rw [dropEndWhile, ← List.reverse_append, List.takeWhile_append_dropWhile, List.reverse_reverse]
  · exact hp c (List.mem_takeWhile_imp (List.mem_reverse.mp hc))

lemma isTrimmedOf_trimEnd (cs : List Char) : IsTrimmedOf (trimEnd cs) cs :=
  isTrimmedOf_dropEndWhile (fun _ h => h) cs

lemma isTrimmedOf_dropReturn (cs : List Char) : IsTrimmedOf (dropReturn cs) cs := by
  unfold dropReturn
  split
  · next hlast =>
    have hne : cs ≠ [] := fun hnil => by simp [hnil] at hlast
    obtain ⟨front, c, rfl⟩ := (List.eq_nil_or_concat cs).resolve_left hne
    obtain rfl : c = '\r' := by simpa using hlast
    refine ⟨['\r'], by simp, fun c hc => ?_⟩
    obtain rfl := List.mem_singleton.mp hc
    decide
  · exact .refl cs

lemma dropReturn_eq_self {cs : List Char} (h : cs.getLast? ≠ some '\r') : dropReturn cs = cs :=
  if_neg h

end QuestScript.Text

/-!
Link spans: `[[`, at least one character, and `]]` on the same line.

Inside such a span separators lose their meaning, so every part of the language that looks for
separators in text steps over link spans, from left to right.
-/

namespace QuestScript.LinkSpan

/-- The characters in front of the first `]]` on this line. -/
def upToClosing? : List Char → Option (List Char)
  | [] => none
  | [_] => none
  | c :: d :: cs =>
    if c = '\n' then none
    else if c = ']' && d = ']' then some []
    else (upToClosing? (d :: cs)).map (c :: ·)

/-- What stands between the brackets of the link span at the start of the text. The first
character between them may itself be a bracket. -/
def inner? : List Char → Option (List Char)
  | a :: b :: c :: cs =>
    if a = '[' && b = '[' && c != '\n' then (upToClosing? cs).map (c :: ·) else none
  | _ => none

/-- The length of the link span at the start of the text, brackets included. -/
def length? (cs : List Char) : Option Nat := (inner? cs).map (·.length + 4)

/-- What is found up to the closing brackets stays on its line, and the brackets follow it. -/
theorem eq_append_of_upToClosing? {cs inner : List Char} (h : upToClosing? cs = some inner) :
    ∃ rest, cs = inner ++ ']' :: ']' :: rest ∧ '\n' ∉ inner := by
  fun_induction upToClosing? cs generalizing inner with
  | case1 => simp at h
  | case2 => simp at h
  | case3 => simp at h
  | case4 c d cs hn hc =>
    simp only [Bool.and_eq_true, decide_eq_true_eq] at hc
    obtain rfl : inner = [] := by simpa using h.symm
    exact ⟨cs, by simp [hc.1, hc.2], by simp⟩
  | case5 c d cs hn hc ih =>
    obtain ⟨tail, ht, rfl⟩ := Option.map_eq_some_iff.1 h
    obtain ⟨rest, hr, hl⟩ := ih ht
    exact ⟨rest, by rw [hr]; rfl, by simp [Ne.symm hn, hl]⟩

/-- A link span is made of its brackets and what stands between them. -/
theorem eq_append_of_inner? {cs inner : List Char} (h : inner? cs = some inner) :
    ∃ rest, cs = '[' :: '[' :: inner ++ ']' :: ']' :: rest ∧ inner ≠ [] ∧ '\n' ∉ inner := by
  unfold inner? at h
  split at h
  · rename_i a b c cs
    split at h
    · rename_i hc
      simp only [Bool.and_eq_true, decide_eq_true_eq, bne_iff_ne, ne_eq] at hc
      obtain ⟨tail, ht, rfl⟩ := Option.map_eq_some_iff.1 h
      obtain ⟨rest, hr, hl⟩ := eq_append_of_upToClosing? ht
      exact ⟨rest, by simp [hc.1.1, hc.1.2, hr], by simp, by simp [Ne.symm hc.2, hl]⟩
    · simp at h
  · simp at h

theorem length?_le {cs : List Char} {n : Nat} (h : length? cs = some n) :
    4 < n ∧ n ≤ cs.length := by
  obtain ⟨inner, hi, rfl⟩ := Option.map_eq_some_iff.1 h
  obtain ⟨rest, rfl, hne, -⟩ := eq_append_of_inner? hi
  have := List.length_pos_iff.2 hne
  simp
  omega

end QuestScript.LinkSpan

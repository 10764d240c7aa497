import Mathlib.Tactic.Common
import QuestScript.Text.Basic
import QuestScript.Text.Lowercase
import QuestScript.Text.Word

/-!
Texts that differ in the case of ASCII letters.

What is told of a character by its class does not depend on the case of a letter, so what is looked
for in a text is found where it is found in the text in lower case (`Text.apply_toLower`). Texts
that differ in the case of ASCII letters only have one lower-case form, whatever other letters stand
in them (`Text.lowercase_congr`).
-/

namespace QuestScript.Text

variable {c d : Char} {a b cs : List Char}

/-! ### Characters -/

lemma toLower_eq (h : c.toLower = d) : c = d ∨ c.isUpper = true ∧ c.toNat + 32 = d.toNat := by
  unfold Char.toLower at h
  split at h
  · next hupper =>
    refine .inr ⟨decide_eq_true hupper, ?_⟩
    have hle : c.val.toNat ≤ 90 := hupper.2
    have hsum := congrArg (fun c : Char => c.val.toNat) h
    have hshift : ('a'.val - 'A'.val).toNat = 32 := by decide
    simp only [UInt32.toNat_add, hshift] at hsum
    simp only [Char.toNat]
    omega
  · exact .inl h

lemma apply_toLower {α : Type} {f : Char → α}
    (h : ∀ n ∈ List.range' 65 26, f (Char.ofNat n).toLower = f (Char.ofNat n)) (c : Char) :
    f c.toLower = f c := by
  rcases toLower_eq (rfl : c.toLower = c.toLower) with hsame | ⟨hupper, -⟩
  · rw [← hsame]
  · obtain ⟨hle, hge⟩ : 65 ≤ c.toNat ∧ c.toNat ≤ 90 := of_decide_eq_true hupper
    have hletter := h c.toNat (by rw [List.mem_range'_1]; omega)
    rwa [Char.ofNat_toNat] at hletter

@[simp] lemma toLower_toLower (c : Char) : c.toLower.toLower = c.toLower :=
  apply_toLower (by decide) c

@[simp] lemma isAlphabetic_toLower (c : Char) : isAlphabetic c.toLower = isAlphabetic c :=
  apply_toLower (by decide) c

@[simp] lemma isWordChar_toLower (c : Char) : isWordChar c.toLower = isWordChar c :=
  apply_toLower (by decide) c

@[simp] lemma isBlank_toLower (c : Char) : isBlank c.toLower = isBlank c :=
  apply_toLower (by decide) c

@[simp] lemma isDigit_toLower (c : Char) : c.toLower.isDigit = c.isDigit :=
  apply_toLower (by decide) c

lemma toLower_eq_iff (hd : d.isAlpha = false) : c.toLower = d ↔ c = d := by
  refine ⟨fun h => ?_, fun h => ?_⟩
  · refine (toLower_eq h).resolve_right fun ⟨hupper, hsum⟩ => ?_
    obtain ⟨hle, hge⟩ : 65 ≤ c.toNat ∧ c.toNat ≤ 90 := of_decide_eq_true hupper
    have halpha : d.isAlpha = true := (isAlpha_iff d).mpr (by omega)
    simp [hd] at halpha
  · subst h
    rcases toLower_eq (rfl : c.toLower = c.toLower) with hsame | ⟨hupper, -⟩
    · exact hsame.symm
    · have halpha : c.isAlpha = true := Bool.or_eq_true_iff.mpr (.inl hupper)
      simp [hd] at halpha

lemma toLower_bne (hd : d.isAlpha = false) (c : Char) : (c.toLower != d) = (c != d) := by
  simp only [bne, BEq.beq, toLower_eq_iff hd]

lemma map_toLower_eq_some (hd : d.isAlpha = false) (next : Option Char) :
    next.map Char.toLower = some d ↔ next = some d := by
  cases next <;> simp [toLower_eq_iff hd]

/-! ### Texts -/

lemma takeWhile_map_toLower {p : Char → Bool} (hp : ∀ c, p c.toLower = p c) (cs : List Char) :
    (cs.map Char.toLower).takeWhile p = (cs.takeWhile p).map Char.toLower := by
  rw [List.takeWhile_map]
  congr 2
  exact funext hp

lemma dropWhile_map_toLower {p : Char → Bool} (hp : ∀ c, p c.toLower = p c) (cs : List Char) :
    (cs.map Char.toLower).dropWhile p = (cs.dropWhile p).map Char.toLower := by
  rw [List.dropWhile_map]
  congr 2
  exact funext hp

lemma dropEndWhile_map_toLower {p : Char → Bool} (hp : ∀ c, p c.toLower = p c) (cs : List Char) :
    dropEndWhile p (cs.map Char.toLower) = (dropEndWhile p cs).map Char.toLower := by
  rw [dropEndWhile, ← List.map_reverse, dropWhile_map_toLower hp, ← List.map_reverse]
  rfl

lemma trimEnd_map_toLower (cs : List Char) :
    trimEnd (cs.map Char.toLower) = (trimEnd cs).map Char.toLower :=
  dropEndWhile_map_toLower isBlank_toLower cs

lemma contains_map_toLower (hd : d.isAlpha = false) (cs : List Char) :
    (cs.map Char.toLower).contains d = cs.contains d := by
  induction cs with
  | nil => rfl
  | cons c cs ih =>
    rw [List.map_cons, List.contains_cons, List.contains_cons, ih]
    congr 1
    rw [Bool.eq_iff_iff, beq_iff_eq, beq_iff_eq, eq_comm, toLower_eq_iff hd, eq_comm]

lemma dropReturn_map_toLower (cs : List Char) :
    dropReturn (cs.map Char.toLower) = (dropReturn cs).map Char.toLower := by
  simp (disch := decide) only [dropReturn, List.getLast?_map, map_toLower_eq_some]
  split <;> simp

/-! ### Lower case -/

lemma meetsCased_map_toLower (cs : List Char) :
    meetsCased (cs.map Char.toLower) = meetsCased cs := by
  have hignored := apply_toLower (f := isCaseIgnorable) (by decide)
  have hcased := apply_toLower (f := isCased) (by decide)
  unfold meetsCased
  rw [dropWhile_map_toLower hignored]
  cases cs.dropWhile isCaseIgnorable with
  | nil => rfl
  | cons c cs => exact hcased c

lemma lowercase_map_toLower (cs : List Char) : lowercase (cs.map Char.toLower) = lowercase cs := by
  have hlower := apply_toLower (f := lowerChar) (by decide)
  have hafter (before : List Char) :
      lowercaseAfter (before.map Char.toLower) (cs.map Char.toLower) =
        lowercaseAfter before cs := by
    induction cs generalizing before with
    | nil => rfl
    | cons c cs ih =>
      have hbehind := ih (c :: before)
      rw [List.map_cons] at hbehind
      simp only [List.map_cons, lowercaseAfter, hbehind, meetsCased_map_toLower, hlower,
        toLower_eq_iff (by decide : 'Σ'.isAlpha = false)]
  exact hafter []

lemma lowercase_congr (h : a.map Char.toLower = b.map Char.toLower) :
    lowercase a = lowercase b := by
  rw [← lowercase_map_toLower a, h, lowercase_map_toLower]

end QuestScript.Text

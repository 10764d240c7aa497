import QuestScript.Proofs.Text.Letters

/-!
Texts in lower case.

Lower-casing a text once is enough (`Text.lowercase_lowercase`): what a character becomes is not in
any run of characters that have another lower-case form. This is checked for all pairs of runs, for
the forms of a run are a run as well (`Text.CaseRun.forms`).
-/

namespace QuestScript.Text

variable {c d : Char} {r s : CaseRun} {n : Nat} {cs : List Char}

/-! ### Runs -/

namespace CaseRun

/-- The lower-case forms of a run, as a run. They are as far apart as its characters are, and it
does not matter how far that is where there is one only. -/
def forms (r : CaseRun) : CaseRun :=
  ⟨(r.first + r.shift).toNat, (r.last + r.shift).toNat,
    if r.first == r.last then 2 else r.stride, 0⟩

/-- The runs have no character in common: they are apart, or each is between two of the other. -/
def avoids (r s : CaseRun) : Bool :=
  Nat.blt r.last s.first || Nat.blt s.last r.first ||
    (r.stride == 2 && s.stride == 2 && (r.first + s.first) % 2 == 1)

/-- What is in the run are characters, but no ASCII letters in upper case and no dotted capital
I. -/
def isFit (r : CaseRun) : Bool :=
  Nat.blt 90 r.first && (Nat.blt r.last 0x130 || Nat.blt 0x130 r.first) &&
    (Nat.blt r.last 0xD800 || Nat.blt 0xDFFF r.first && Nat.blt r.last 0x110000)

lemma isFit_forms : ∀ r ∈ caseRuns, r.forms.isFit = true :=
  List.all_eq_true.mp (by decide)

lemma avoids_forms : ∀ r ∈ caseRuns, ∀ s ∈ caseRuns, r.forms.avoids s = true := by
  have hall : (caseRuns.all fun r => caseRuns.all r.forms.avoids) = true := by decide +kernel
  exact fun r hr => List.all_eq_true.mp (List.all_eq_true.mp hall r hr)

lemma holds_forms (hfit : r.forms.isFit = true) (h : r.holds n = true) :
    r.forms.holds (n + r.shift).toNat = true := by
  simp only [holds, forms, isFit, Bool.and_eq_true, Bool.or_eq_true, decide_eq_true_eq, beq_iff_eq,
    Nat.blt_eq] at *
  obtain ⟨⟨hle, hge⟩, hstride⟩ := h
  refine ⟨⟨by omega, by omega⟩, ?_⟩
  split
  · omega
  · rwa [show (n + r.shift).toNat - (r.first + r.shift).toNat = n - r.first by omega]

lemma not_holds_of_avoids (h : r.avoids s = true) (hr : r.holds n = true) : s.holds n = false := by
  simp only [avoids, holds, Bool.or_eq_true, Bool.and_eq_true, beq_iff_eq, Nat.blt_eq,
    decide_eq_true_eq] at h hr
  rw [Bool.eq_false_iff]
  intro hs
  simp only [holds, Bool.and_eq_true, decide_eq_true_eq, beq_iff_eq] at hs
  rcases h with (h | h) | ⟨⟨hstride, hstride'⟩, hodd⟩
  · omega
  · omega
  · rw [hstride] at hr
    rw [hstride'] at hs
    omega

end CaseRun

/-! ### Characters -/

/-- The character is its own lower-case form. -/
def IsLower (c : Char) : Prop := lowerChar c = [c]

instance (c : Char) : Decidable (IsLower c) := inferInstanceAs (Decidable (_ = _))

lemma IsLower.ne_sigma (h : IsLower c) : c ≠ 'Σ' := by
  rintro rfl
  exact absurd h (by decide)

lemma isLower_of_holds (hr : r ∈ caseRuns) (h : r.holds n = true) :
    IsLower (Char.ofNat (n + r.shift).toNat) := by
  have hfit := CaseRun.isFit_forms r hr
  have hforms := CaseRun.holds_forms hfit h
  have hnone : caseRuns.find? (·.holds (n + r.shift).toNat) = none :=
    List.find?_eq_none.mpr fun s hs => by
      simp [CaseRun.not_holds_of_avoids (CaseRun.avoids_forms r hr s hs) hforms]
  generalize (n + r.shift).toNat = m at hforms hnone
  simp only [CaseRun.isFit, CaseRun.holds, Bool.and_eq_true, Bool.or_eq_true, decide_eq_true_eq,
    Nat.blt_eq] at hfit hforms
  -- the numbers of lower-case forms are codes of characters
  have hm : (Char.ofNat m).toNat = m := by
    rw [Char.ofNat, dif_pos (by rw [Nat.isValidChar]; omega)]
    rfl
  have hdotted : Char.ofNat m ≠ '\u0130' := fun heq => by
    have := congrArg Char.toNat heq
    rw [hm] at this
    have hcode : '\u0130'.toNat = 0x130 := rfl
    omega
  have hlower : (Char.ofNat m).toLower = Char.ofNat m := by
    refine ((toLower_eq rfl).resolve_right fun ⟨hupper, _⟩ => ?_).symm
    obtain ⟨-, hle⟩ : 65 ≤ (Char.ofNat m).toNat ∧ (Char.ofNat m).toNat ≤ 90 :=
      of_decide_eq_true hupper
    omega
  unfold IsLower lowerChar
  rw [hm, hlower, hnone, if_neg hdotted]
  split <;> rfl

lemma isLower_lowerChar (c : Char) : ∀ d ∈ lowerChar c, IsLower d := by
  have hascii : ∀ n < 0x80, IsLower (Char.ofNat n).toLower := by decide
  have hdotted : IsLower 'i' ∧ IsLower '\u0307' := by decide
  intro d hd
  rw [lowerChar] at hd
  split at hd
  · next hc =>
    rw [List.mem_singleton.mp hd]
    have hlower := hascii c.toNat hc
    rwa [Char.ofNat_toNat] at hlower
  next hc =>
  split at hd
  · -- the capital that has two characters for its lower-case form
    obtain rfl | rfl : d = 'i' ∨ d = '\u0307' := by simpa using hd
    · exact hdotted.1
    · exact hdotted.2
  next hne =>
  split at hd
  · -- a capital of one of the runs
    next r hr =>
    have hholds : r.holds c.toNat = true :=
      List.find?_some (p := fun s : CaseRun => s.holds c.toNat) hr
    rw [List.mem_singleton.mp hd]
    exact isLower_of_holds (List.mem_of_find?_eq_some hr) hholds
  · -- a character of no run
    next hnone =>
    rw [List.mem_singleton.mp hd, IsLower, lowerChar, if_neg hc, if_neg hne, hnone]

lemma isLower_lowercaseAfter (before cs : List Char) :
    ∀ d ∈ lowercaseAfter before cs, IsLower d := by
  induction cs generalizing before with
  | nil => simp [lowercaseAfter]
  | cons c cs ih =>
    rw [lowercaseAfter]
    refine List.forall_mem_append.mpr ⟨?_, ih (c :: before)⟩
    split
    · have hsigma : IsLower 'ς' ∧ IsLower 'σ' := by decide
      split <;> simp [hsigma]
    · exact isLower_lowerChar c

lemma lowercaseAfter_eq_self (before : List Char) (h : ∀ c ∈ cs, IsLower c) :
    lowercaseAfter before cs = cs := by
  induction cs generalizing before with
  | nil => rfl
  | cons c cs ih =>
    have hc := h c (by simp)
    rw [lowercaseAfter, if_neg hc.ne_sigma, ih _ fun d hd => h d (by simp [hd])]
    exact congrArg (· ++ cs) hc

/-- **Lower-casing once is enough.** -/
theorem lowercase_lowercase (cs : List Char) : lowercase (lowercase cs) = lowercase cs :=
  lowercaseAfter_eq_self [] (isLower_lowercaseAfter [] cs)

end QuestScript.Text

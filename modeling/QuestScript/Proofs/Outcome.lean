import Mathlib.Tactic.Common
import QuestScript.Outcome

/-!
Laws of what reading comes to.

Readings, outcomes and parses are chained by `bind`, and what was taken or reported before is put in
front by `after`. The laws below move `after` outward and let chains start from a known result.
-/

namespace QuestScript

variable {ε α β γ : Type}

namespace Reading

variable {r : Reading α}

@[simp] lemma after_zero (r : Reading α) : r.after 0 = r := by simp [after]

@[simp] lemma after_after (m n : Nat) (r : Reading α) : (r.after n).after m = r.after (m + n) := by
  simp [after, Nat.add_assoc]

@[simp] lemma after_mk (n k : Nat) (e : Except Wanted α) :
    (⟨e, k⟩ : Reading α).after n = ⟨e, n + k⟩ := rfl

@[simp] lemma pure_eq (a : α) : pure a = ⟨.ok a, 0⟩ := rfl

@[simp] lemma mk_ok_bind (a : α) (k : Nat) (next : α → Nat → Reading β) :
    (⟨.ok a, k⟩ : Reading α).bind next = (next a k).after k := rfl

@[simp] lemma mk_error_bind (w : Wanted) (k : Nat) (next : α → Nat → Reading β) :
    (⟨.error w, k⟩ : Reading α).bind next = ⟨.error w, k⟩ := rfl

@[simp] lemma map_ok (f : α → β) (a : α) (k : Nat) :
    (⟨.ok a, k⟩ : Reading α).map f = ⟨.ok (f a), k⟩ := rfl

@[simp] lemma map_error (f : α → β) (w : Wanted) (k : Nat) :
    (⟨.error w, k⟩ : Reading α).map f = ⟨.error w, k⟩ := rfl

/-! ### Readings that succeed -/

lemma bind_eq_ok {next : α → Nat → Reading β} {b : β} {k : Nat} :
    r.bind next = ⟨.ok b, k⟩ ↔
      ∃ a m j, r = ⟨.ok a, m⟩ ∧ next a m = ⟨.ok b, j⟩ ∧ k = m + j := by
  constructor
  · rcases r with ⟨_ | a, m⟩
    · simp
    · intro h
      rcases hnext : next a m with ⟨result, j⟩
      rw [mk_ok_bind, hnext, after_mk, mk.injEq] at h
      obtain ⟨rfl, rfl⟩ := h
      exact ⟨a, m, j, rfl, hnext, rfl⟩
  · rintro ⟨a, m, j, rfl, hnext, rfl⟩
    simp [hnext]

lemma map_eq_ok {f : α → β} {b : β} {k : Nat} :
    r.map f = ⟨.ok b, k⟩ ↔ ∃ a, r = ⟨.ok a, k⟩ ∧ f a = b := by
  rcases r with ⟨_ | a, m⟩ <;> simp [and_comm]

lemma after_eq_ok {n k : Nat} {a : α} :
    r.after n = ⟨.ok a, k⟩ ↔ ∃ m, r = ⟨.ok a, m⟩ ∧ k = n + m := by
  rcases r with ⟨result, m⟩
  simp [eq_comm]

@[simp] lemma fail_ne_ok {wanted : Wanted} {a : α} {k : Nat} :
    (fail wanted : Reading α) ≠ ⟨.ok a, k⟩ := by
  simp [fail]

end Reading

namespace Outcome

@[simp] lemma after_nil (o : Outcome ε α) : o.after [] = o := rfl

@[simp] lemma pure_bind (a : α) (next : α → Outcome ε β) : (pure a).bind next = next a := rfl

@[simp] lemma map_pure (f : α → β) (a : α) : (pure a : Outcome ε α).map f = pure (f a) := rfl

lemma map_map (f : α → β) (g : β → γ) (o : Outcome ε α) : (o.map f).map g = o.map (g ∘ f) := by
  rcases o with ⟨_, _ | _⟩ <;> rfl

/-! ### Outcomes that succeed -/

variable {o : Outcome ε α} {rs : List Report}

lemma bind_eq_ok {next : α → Outcome ε β} {b : β} :
    o.bind next = ⟨rs, .ok b⟩ ↔
      ∃ a first later, o = ⟨first, .ok a⟩ ∧ next a = ⟨later, .ok b⟩ ∧ rs = first ++ later := by
  constructor
  · rcases o with ⟨first, _ | a⟩
    · simp [bind]
    · intro h
      rcases hnext : next a with ⟨later, result⟩
      simp only [bind, hnext, after, mk.injEq] at h
      obtain ⟨rfl, rfl⟩ := h
      exact ⟨a, first, later, rfl, hnext, rfl⟩
  · rintro ⟨a, first, later, rfl, hnext, rfl⟩
    simp [bind, hnext, after]

lemma map_eq_ok {f : α → β} {b : β} :
    o.map f = ⟨rs, .ok b⟩ ↔ ∃ a, o = ⟨rs, .ok a⟩ ∧ f a = b := by
  rcases o with ⟨reports, _ | a⟩ <;> simp [map, Except.map, and_comm]

@[simp] lemma pure_eq_ok {a b : α} : (pure a : Outcome ε α) = ⟨rs, .ok b⟩ ↔ rs = [] ∧ a = b := by
  simp [pure, eq_comm]

@[simp] lemma drop_ne_ok {fault : Fault} {place : Position} {a : α} :
    (drop fault place : Outcome Refusal α) ≠ ⟨rs, .ok a⟩ := by
  simp [drop, fail]

end Outcome

/-! ### Parses that succeed -/

namespace Parsed

variable {p : Parsed ε α} {rs : List Report} {k : Nat}

lemma bind_eq_ok {next : α → Nat → Parsed ε β} {b : β} :
    p.bind next = ⟨⟨rs, .ok b⟩, k⟩ ↔
      ∃ a first later m j, p = ⟨⟨first, .ok a⟩, m⟩ ∧ next a m = ⟨⟨later, .ok b⟩, j⟩ ∧
        rs = first ++ later ∧ k = m + j := by
  constructor
  · rcases p with ⟨⟨first, _ | a⟩, m⟩
    · simp [bind, result]
    · intro h
      rcases hnext : next a m with ⟨⟨later, outcome⟩, j⟩
      simp only [bind, result, hnext, reports, Outcome.after, mk.injEq, Outcome.mk.injEq] at h
      obtain ⟨⟨rfl, rfl⟩, rfl⟩ := h
      exact ⟨a, first, later, m, j, rfl, hnext, rfl, rfl⟩
  · rintro ⟨a, first, later, m, j, rfl, hnext, rfl, rfl⟩
    simp [bind, result, reports, hnext, Outcome.after]

lemma map_eq_ok {f : α → β} {b : β} :
    p.map f = ⟨⟨rs, .ok b⟩, k⟩ ↔ ∃ a, p = ⟨⟨rs, .ok a⟩, k⟩ ∧ f a = b := by
  rcases p with ⟨⟨reports, _ | a⟩, m⟩ <;>
    simp [map, Outcome.map, Except.map, and_comm, and_left_comm]

lemma after_eq_ok {n : Nat} {a : α} :
    p.after n = ⟨⟨rs, .ok a⟩, k⟩ ↔ ∃ m, p = ⟨⟨rs, .ok a⟩, m⟩ ∧ k = n + m := by
  rcases p with ⟨outcome, m⟩
  simp only [after, mk.injEq]
  constructor
  · rintro ⟨rfl, rfl⟩
    exact ⟨m, ⟨rfl, rfl⟩, rfl⟩
  · rintro ⟨m, ⟨rfl, rfl⟩, rfl⟩
    exact ⟨rfl, rfl⟩

end Parsed

end QuestScript

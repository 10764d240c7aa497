import QuestScript.Proofs.Outcome
import QuestScript.Proofs.Token.Layout

/-!
Correspondences between readers.

Two readers can be compared when they take the same text and differ only in how actions are read and
in what is made of a bad character code. A correspondence says when an outcome of the one answers to
an outcome of the other, and has a law for every way in which readers are put together, so it goes
through all readers at once. It knows the places between which an outcome was read. Reports that are
not about substitutions are the same on both sides.
-/

namespace QuestScript

/-- The report is not about a substitution. -/
def Report.Harmless (r : Report) : Prop := r.fault.kind ≠ .substitution

namespace Outcome

variable {α β γ : Type}

/-- Reading is given up. -/
def IsAborted (o : Outcome Refusal α) : Prop := ∃ cause, o.result = .error (.aborted cause)

/-- Leaves the statement out, if it is refused, and goes on with the report. -/
def recover (o : Outcome Refusal α) : Outcome Refusal (Option α) :=
  match o.result with
  | .ok a => ⟨o.reports, .ok (some a)⟩
  | .error (.dropped report) => ⟨o.reports ++ [report], .ok none⟩
  | .error (.aborted cause) => ⟨o.reports, .error (.aborted cause)⟩

/-- The outcome of a program, as part of a statement. -/
def escalate (o : Outcome Report α) : Outcome Refusal α :=
  ⟨o.reports, o.result.mapError .aborted⟩

/-- Both outcomes have results, which are in the relation, or both leave the statement out. -/
def Meets (R : α → β → Prop) (o : Outcome Refusal α) (o' : Outcome Refusal β) : Prop :=
  (∃ a b, o.result = .ok a ∧ o'.result = .ok b ∧ R a b) ∨
    ∃ r r', o.result = .error (.dropped r) ∧ o'.result = .error (.dropped r')

section

variable {δ : Type} {R : α → β → Prop} {S : γ → δ → Prop} {o : Outcome Refusal α}
  {o' : Outcome Refusal β}

lemma Meets.after (h : o.Meets R o') (rs rs' : List Report) : (o.after rs).Meets R (o'.after rs') :=
  h

lemma Meets.bind {next : α → Outcome Refusal γ} {next' : β → Outcome Refusal δ} (h : o.Meets R o')
    (hnext : ∀ a b, o.result = .ok a → o'.result = .ok b → R a b → (next a).Meets S (next' b)) :
    (o.bind next).Meets S (o'.bind next') := by
  rcases h with ⟨a, b, ha, hb, hab⟩ | ⟨r, r', hr, hr'⟩
  · rw [bind_of_ok ha, bind_of_ok hb]
    exact (hnext a b ha hb hab).after _ _
  · rw [bind_of_error hr, bind_of_error hr']
    exact .inr ⟨r, r', rfl, rfl⟩

lemma Meets.recover (h : o.Meets R o') : o.recover.Meets (Option.Rel R) o'.recover := by
  unfold Outcome.recover
  rcases h with ⟨a, b, ha, hb, hab⟩ | ⟨r, r', hr, hr'⟩
  · rw [ha, hb]
    exact .inl ⟨_, _, rfl, rfl, .some hab⟩
  · rw [hr, hr']
    exact .inl ⟨_, _, rfl, rfl, .none⟩

lemma Meets.exists_of_ok {a : α} (h : o.Meets R o') (ha : o.result = .ok a) :
    ∃ b, o'.result = .ok b ∧ R a b := by
  rcases h with ⟨c, b, hc, hb, hab⟩ | ⟨r, -, hr, -⟩
  · obtain rfl := Except.ok.inj (ha.symm.trans hc)
    exact ⟨b, hb, hab⟩
  · simp [ha] at hr

lemma Meets.exists_of_ok' {b : β} (h : o.Meets R o') (hb : o'.result = .ok b) :
    ∃ a, o.result = .ok a ∧ R a b := by
  rcases h with ⟨a, c, ha, hc, hac⟩ | ⟨-, r', -, hr'⟩
  · obtain rfl := Except.ok.inj (hb.symm.trans hc)
    exact ⟨a, ha, hac⟩
  · simp [hb] at hr'

lemma Meets.not_isAborted (h : o.Meets R o') : ¬o.IsAborted ∧ ¬o'.IsAborted := by
  rcases h with ⟨a, b, ha, hb, -⟩ | ⟨r, r', hr, hr'⟩
  · simp [IsAborted, ha, hb]
  · simp [IsAborted, hr, hr']

end

/-- The outcome has nothing to do with substitutions. -/
structure Harmless (o : Outcome Refusal α) : Prop where
  reports : ∀ r ∈ o.reports, r.Harmless
  refusal : ∀ refusal, o.result = .error refusal → ∃ report, refusal = .dropped report ∧
    report.Harmless

lemma harmless_pure (a : α) : (pure a : Outcome Refusal α).Harmless :=
  ⟨by simp [pure], by simp [pure]⟩

lemma harmless_drop {fault : Fault} (place : Position) (h : fault.kind ≠ .substitution) :
    (drop fault place : Outcome Refusal α).Harmless :=
  ⟨by simp [drop, fail], fun refusal heq => ⟨⟨fault, place⟩,
    by simpa [drop, fail, eq_comm] using heq,
    h⟩⟩

lemma Harmless.map {o : Outcome Refusal α} (h : o.Harmless) (f : α → β) : (o.map f).Harmless := by
  refine ⟨h.reports, fun refusal heq => h.refusal refusal ?_⟩
  rcases o with ⟨reports, e | a⟩ <;> simp_all [Outcome.map, Except.map]

lemma Harmless.bind {o : Outcome Refusal α} {next : α → Outcome Refusal β} (h : o.Harmless)
    (hnext : ∀ a, (next a).Harmless) : (o.bind next).Harmless := by
  rcases o with ⟨reports, e | a⟩
  · exact ⟨h.reports, fun refusal heq => h.refusal refusal (by simpa [Outcome.bind] using heq)⟩
  · refine ⟨fun r hr => ?_, fun refusal heq => (hnext a).refusal refusal heq⟩
    rcases List.mem_append.mp hr with hr | hr
    · exact h.reports r hr
    · exact (hnext a).reports r hr

lemma bind_pure (o : Outcome Refusal α) (f : α → β) : o.bind (fun a => pure (f a)) = o.map f := by
  rcases o with ⟨reports, e | a⟩ <;> simp [bind, pure, map, after, Except.map]

end Outcome

structure Correspondence where
  /-- When two outcomes answer to one another that were read between the given places, and whose
  results have to be in the given relation. -/
  rel {α β : Type} (lo hi : Position) (R : α → β → Prop) (o : Outcome Refusal α)
    (o' : Outcome Refusal β) : Prop
  pure {α β : Type} {R : α → β → Prop} {a : α} {b : β} (p : Position) (h : R a b) :
    rel p p R (.pure a) (.pure b)
  drop {α β : Type} {R : α → β → Prop} {report : Report} (p : Position) (h : report.Harmless) :
    rel p p R (.fail (.dropped report)) (.fail (.dropped report))
  after {α β : Type} {R : α → β → Prop} {lo hi : Position} {o : Outcome Refusal α}
    {o' : Outcome Refusal β} {rs : List Report} (h : ∀ r ∈ rs, r.Harmless) (ho : rel lo hi R o o') :
    rel lo hi R (o.after rs) (o'.after rs)
  bind {α β γ δ : Type} {R : α → β → Prop} {S : γ → δ → Prop} {lo mid hi : Position}
    {o : Outcome Refusal α} {o' : Outcome Refusal β} {next : α → Outcome Refusal γ}
    {next' : β → Outcome Refusal δ} (hlo : lo ≤ mid) (hhi : mid ≤ hi) (ho : rel lo mid R o o')
    (hnext : ∀ a b, o.result = .ok a → o'.result = .ok b → R a b →
      rel mid hi S (next a) (next' b)) : rel lo hi S (o.bind next) (o'.bind next')
  recover {α β : Type} {R : α → β → Prop} {lo hi : Position} {o : Outcome Refusal α}
    {o' : Outcome Refusal β} (ho : rel lo hi R o o') : rel lo hi (Option.Rel R) o.recover o'.recover
  widen {α β : Type} {R : α → β → Prop} {lo hi p q : Position} {o : Outcome Refusal α}
    {o' : Outcome Refusal β} (hlo : p ≤ lo) (hhi : hi ≤ q) (ho : rel lo hi R o o') : rel p q R o o'
  agree {α β : Type} {R : α → β → Prop} {lo hi : Position} {o : Outcome Refusal α}
    {o' : Outcome Refusal β} (ho : rel lo hi R o o') (h : ¬o.IsAborted) (h' : ¬o'.IsAborted) :
    o.Meets R o'

namespace Correspondence

variable (C : Correspondence) {α β γ δ : Type} {R : α → β → Prop} {S : γ → δ → Prop}
  {lo hi p q : Position} {o : Outcome Refusal α} {o' : Outcome Refusal β}

lemma map {f : α → γ} {g : β → δ} (ho : C.rel lo hi R o o') (hle : lo ≤ hi)
    (h : ∀ a b, R a b → S (f a) (g b)) : C.rel lo hi S (o.map f) (o'.map g) := by
  rw [← Outcome.bind_pure, ← Outcome.bind_pure]
  exact C.bind hle (le_refl hi) ho fun a b _ _ hab => C.pure hi (h a b hab)

lemma harmless {R : α → α → Prop} (p : Position) (h : o.Harmless)
    (hR : ∀ a, o.result = .ok a → R a a) : C.rel p p R o o := by
  rcases o with ⟨reports, refusal | a⟩
  · obtain ⟨report, rfl, hreport⟩ := h.refusal refusal rfl
    have := C.after (R := R) h.reports (C.drop p hreport)
    simpa [Outcome.after, Outcome.fail] using this
  · have := C.after h.reports (C.pure p (hR a rfl))
    simpa [Outcome.after, Outcome.pure] using this

/-! ### Readers of lexemes -/

/-- Two parses of one list of lexemes, which lies behind the given place, answer to one another.
They take the same lexemes, unless reading is given up. -/
def Parses (lo : Position) (ts : List Lexeme) (R : α → β → Prop) (x : Parsed Refusal α)
    (y : Parsed Refusal β) : Prop :=
  C.rel lo (Lexeme.reach lo ts x.taken) R x.outcome y.outcome ∧
    (¬x.outcome.IsAborted → ¬y.outcome.IsAborted → x.taken = y.taken)

variable {C} {ts : List Lexeme} {x : Parsed Refusal α} {y : Parsed Refusal β}

open Lexeme (Laid reach)

lemma Parses.pure {a : α} {b : β} (lo : Position) (ts : List Lexeme) (h : R a b) :
    C.Parses lo ts R (.pure a) (.pure b) := by
  refine ⟨?_, fun _ _ => rfl⟩
  simpa [Parsed.pure] using C.pure lo h

lemma Parses.harmless {R : α → α → Prop} (hlaid : Laid lo hi ts) (h : x.outcome.Harmless)
    (hR : ∀ a, x.result = .ok a → R a a) : C.Parses lo ts R x x :=
  ⟨C.widen (le_refl lo) (hlaid.le_reach x.taken) (C.harmless lo h hR), fun _ _ => rfl⟩

lemma Parses.map {f : α → γ} {g : β → δ} (hlaid : Laid lo hi ts) (h : C.Parses lo ts R x y)
    (hS : ∀ a b, R a b → S (f a) (g b)) : C.Parses lo ts S (x.map f) (y.map g) := by
  have haborted {ε ζ : Type} (o : Outcome Refusal ε) (k : ε → ζ) :
      (o.map k).IsAborted ↔ o.IsAborted := by
    rcases o with ⟨reports, refusal | a⟩ <;> simp [Outcome.IsAborted, Outcome.map, Except.map]
  refine ⟨C.map h.1 (hlaid.le_reach x.taken) hS, fun hx hy => h.2 ?_ ?_⟩
  · exact fun hab => hx ((haborted _ _).mpr hab)
  · exact fun hab => hy ((haborted _ _).mpr hab)

lemma Parses.after {n : Nat} (hlaid : Laid lo hi ts)
    (h : C.Parses (reach lo ts n) (ts.drop n) R x y) :
    C.Parses lo ts R (x.after n) (y.after n) := by
  refine ⟨?_, fun hx hy => congrArg (n + ·) (h.2 hx hy)⟩
  simp only [Parsed.after, Lexeme.reach_add]
  exact C.widen (hlaid.le_reach n) (le_refl _) h.1

lemma outcome_bind (x : Parsed Refusal α) (next : α → Nat → Parsed Refusal γ) :
    (x.bind next).outcome = x.outcome.bind fun a => (next a x.taken).outcome := by
  rcases x with ⟨⟨reports, refusal | a⟩, k⟩ <;> rfl

lemma isAborted_after {rs : List Report} : (o.after rs).IsAborted ↔ o.IsAborted := Iff.rfl

lemma isAborted_bind (next : α → Outcome Refusal γ) (h : o.IsAborted) :
    (o.bind next).IsAborted := by
  obtain ⟨cause, hcause⟩ := h
  exact ⟨cause, by rw [Outcome.bind_of_error hcause]⟩

lemma not_isAborted_of_ok {a : α} (h : o.result = .ok a) : ¬o.IsAborted := by
  rintro ⟨cause, hcause⟩
  exact absurd (h.symm.trans hcause) (by simp)

lemma Parses.bind {next : α → Nat → Parsed Refusal γ} {next' : β → Nat → Parsed Refusal δ}
    (hlaid : Laid lo hi ts) (h : C.Parses lo ts R x y)
    (hnext : ∀ a b, x.result = .ok a → R a b →
      C.Parses (reach lo ts x.taken) (ts.drop x.taken) S (next a x.taken) (next' b x.taken)) :
    C.Parses lo ts S (x.bind next) (y.bind next') := by
  obtain ⟨hrel, htaken⟩ := h
  have hsame {a : α} {b : β} (hx : x.result = .ok a) (hy : y.result = .ok b) : x.taken = y.taken :=
    htaken (not_isAborted_of_ok hx) (not_isAborted_of_ok hy)
  have hle : lo ≤ reach lo ts x.taken := hlaid.le_reach x.taken
  constructor
  · -- what is made
    rw [outcome_bind, outcome_bind]
    rcases hx : x.result with refusal | a
    · rw [Parsed.bind_of_error hx]
      refine C.bind hle (le_refl _) hrel fun a b ha _ _ => ?_
      exact absurd (hx.symm.trans ha) (by simp)
    · rw [Parsed.bind_of_ok hx, Lexeme.reach_add]
      refine C.bind hle ((hlaid.drop _).le_reach _) hrel fun a' b ha hb hab => ?_
      obtain rfl := Except.ok.inj (hx.symm.trans ha)
      rw [← hsame hx hb]
      exact (hnext a b hx hab).1
  · -- what is taken, unless one of the two was given up
    intro hbind hbind'
    rw [outcome_bind] at hbind hbind'
    have hx : ¬x.outcome.IsAborted := fun h => hbind (isAborted_bind _ h)
    have hy : ¬y.outcome.IsAborted := fun h => hbind' (isAborted_bind _ h)
    rcases C.agree hrel hx hy with ⟨a, b, ha, hb, hab⟩ | ⟨r, r', hr, hr'⟩
    · rw [Outcome.bind_of_ok ha, isAborted_after] at hbind
      rw [Outcome.bind_of_ok hb, isAborted_after, ← hsame ha hb] at hbind'
      have := (hnext a b ha hab).2 hbind hbind'
      rw [Parsed.bind_of_ok ha, Parsed.bind_of_ok hb, ← hsame ha hb, this]
    · rw [Parsed.bind_of_error hr, Parsed.bind_of_error hr']
      exact htaken hx hy

end Correspondence

end QuestScript

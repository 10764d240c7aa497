import QuestScript.Proofs.Parser.Policy

/-!
Reading up to the limit on nesting.

A reader of actions that gives up where an action nests too deep does what any reader with a higher
limit does, up to the first such action. A reader that has the same limit, and only leaves the
statement out, goes on from there, but has reported it. So a run that reports nothing of the kind is
the run that gives up, and with it all runs with higher limits.
-/

namespace QuestScript

open Lexeme (untilEnd)

/-- The report is about an action that nests too deep. -/
def Report.IsLimit (r : Report) : Prop := ∃ limit, r.fault = .nestingLimit limit

namespace Action

/-- Reads an action, with so many levels of nesting left, and gives up where one nests too deep. -/
def readWithin (options : Options) : Nat → ActionReader
  | budget, place, text =>
    match target? text with
    | some target => .pure (.jump (String.ofList target) place.line)
    | none =>
      match budget with
      | 0 => .fail (.aborted ⟨.nestingLimit options.maxNesting, place⟩)
      | n + 1 =>
        let scan := Scan.read .fresh place text
        let (ts, finish) := untilEnd scan.lexemes
        let program := Program.read ⟨options.policy, readWithin options n, finish⟩ ts
        ofProgram place text scan.reports program.outcome

/-- The program that a text is, up to an action in it that nests too deep. -/
def programWithin (options : Options) (budget : Nat) (place : Position) (text : List Char) :
    Parsed Report Program :=
  let scanned := untilEnd (Scan.read .fresh place text).lexemes
  Program.read ⟨options.policy, readWithin options budget, scanned.2⟩ scanned.1

variable {options : Options} {place : Position} {text target : List Char}

lemma readWithin_of_target? (budget : Nat) (h : target? text = some target) :
    readWithin options budget place text = .pure (.jump (String.ofList target) place.line) := by
  unfold readWithin
  simp only [h]

lemma readWithin_zero (h : target? text = none) :
    readWithin options 0 place text =
      .fail (.aborted ⟨.nestingLimit options.maxNesting, place⟩) := by
  unfold readWithin
  simp only [h]

lemma readWithin_succ (n : Nat) (h : target? text = none) :
    readWithin options (n + 1) place text =
      ofProgram place text (Scan.read .fresh place text).reports
        (programWithin options n place text).outcome := by
  conv_lhs => unfold readWithin
  simp only [h]
  rfl

end Action

/-! ### Two runs up to the limit -/

/-- Two runs do the same, or the first one gave up at the limit. Then the second one has to report
the limit as well, if it must. -/
inductive Outcome.UpToLimit (must : Prop) {α β : Type} (R : α → β → Prop) :
    Outcome Refusal α → Outcome Refusal β → Prop
  | ok {rs : List Report} {a : α} {b : β} (h : R a b) : UpToLimit must R ⟨rs, .ok a⟩ ⟨rs, .ok b⟩
  | error (rs : List Report) (refusal : Refusal) :
      UpToLimit must R ⟨rs, .error refusal⟩ ⟨rs, .error refusal⟩
  | limit {rs : List Report} {cause : Report} {o' : Outcome Refusal β} (hcause : cause.IsLimit)
      (h : must → ∃ r ∈ o'.allReports, r.IsLimit) :
      UpToLimit must R ⟨rs, .error (.aborted cause)⟩ o'

namespace Outcome.UpToLimit

variable {must : Prop} {α β γ δ : Type} {R : α → β → Prop} {S : γ → δ → Prop}
  {o : Outcome Refusal α} {o' : Outcome Refusal β}

lemma after (rs : List Report) (h : o.UpToLimit must R o') :
    (o.after rs).UpToLimit must R (o'.after rs) := by
  cases h with
  | ok h => exact .ok h
  | error first refusal => exact .error _ refusal
  | limit hcause h =>
    refine .limit hcause fun hmust => ?_
    obtain ⟨r, hr, hlimit⟩ := h hmust
    exact ⟨r, by rw [allReports_after]; exact List.mem_append_right rs hr, hlimit⟩

lemma recover (h : o.UpToLimit must R o') :
    o.recover.UpToLimit must (Option.Rel R) o'.recover := by
  cases h with
  | ok h => exact .ok (.some h)
  | error rs refusal =>
    cases refusal with
    | dropped report => exact .ok .none
    | aborted cause => exact .error rs _
  | limit hcause h => exact .limit hcause (by rwa [allReports_recover])

lemma bind {next : α → Outcome Refusal γ} {next' : β → Outcome Refusal δ}
    (h : o.UpToLimit must R o')
    (hnext : ∀ a b, o.result = .ok a → o'.result = .ok b → R a b →
      (next a).UpToLimit must S (next' b)) : (o.bind next).UpToLimit must S (o'.bind next') := by
  cases h with
  | ok h => exact (hnext _ _ rfl rfl h).after _
  | error rs refusal => exact .error rs refusal
  | limit hcause h =>
    refine .limit hcause fun hmust => ?_
    obtain ⟨r, hr, hlimit⟩ := h hmust
    obtain ⟨later, hlater⟩ := exists_allReports_bind o' next'
    exact ⟨r, by rw [hlater]; exact List.mem_append_left later hr, hlimit⟩

lemma meets (h : o.UpToLimit must R o') (hgoes : ¬o.IsAborted) : o.Meets R o' := by
  cases h with
  | ok h => exact .inl ⟨_, _, rfl, rfl, h⟩
  | error rs refusal =>
    cases refusal with
    | dropped report => exact .inr ⟨report, report, rfl, rfl⟩
    | aborted cause => exact absurd ⟨cause, rfl⟩ hgoes
  | limit => exact absurd ⟨_, rfl⟩ hgoes

lemma eq_or {o o' : Outcome Report Program}
    (h : o.escalate.UpToLimit must (fun p p' => List.Forall₂ Eq p.groups p'.groups) o'.escalate) :
    o' = o ∨ ∃ rs cause, o = ⟨rs, .error cause⟩ ∧ cause.IsLimit ∧
      (must → ∃ r ∈ o'.reports, r.IsLimit) := by
  rcases o with ⟨rs, cause | p⟩ <;> rcases o' with ⟨rs', cause' | p'⟩ <;>
    simp only [escalate, Except.mapError] at h
  · cases h with
    | error => exact .inl rfl
    | limit hcause h => exact .inr ⟨rs, cause, rfl, hcause, h⟩
  · cases h with
    | limit hcause h => exact .inr ⟨rs, cause, rfl, hcause, h⟩
  · cases h
  · cases h with
    | ok hgroups =>
      rw [List.forall₂_eq_eq_eq] at hgroups
      obtain rfl : p = p' := congrArg Program.mk hgroups
      exact .inl rfl

end Outcome.UpToLimit

/-- Two runs do the same up to the limit, wherever they are. -/
def Correspondence.upToLimit (must : Prop) : Correspondence where
  rel _ _ R o o' := o.UpToLimit must R o'
  pure _ h := .ok h
  drop _ _ := .error _ _
  after _ ho := ho.after _
  bind _ _ ho hnext := ho.bind hnext
  recover ho := ho.recover
  widen _ _ ho := ho
  agree ho h _ := ho.meets h

namespace Action

variable {options options' : Options} {must : Prop} {n m : Nat}

lemma upToLimit_program_of_actions (hpolicy : options'.policy = options.policy)
    (h : (Correspondence.upToLimit must).Actions Eq (readWithin options n) (read options' m))
    (place : Position) (text : List Char) :
    (programWithin options n place text).outcome.escalate.UpToLimit must
      (fun p p' => List.Forall₂ Eq p.groups p'.groups)
      (program options' m place text).outcome.escalate := by
  have hlaid := (Scan.laid_read .fresh place text).untilEnd
  have hcontexts : (Correspondence.upToLimit must).Contexts Eq
      ⟨options.policy, readWithin options n, (untilEnd (Scan.read .fresh place text).lexemes).2⟩
      ⟨options'.policy, read options' m, (untilEnd (Scan.read .fresh place text).lexemes).2⟩ := by
    refine ⟨rfl, h _ _, fun place code => ?_, .eq⟩
    rw [hpolicy]
    cases options.policy <;> exact .error _ _
  exact (hcontexts.program (Lexeme.token_untilEnd _) hlaid).1

/-- **Actions are the same up to the limit** for a reader that gives up there and for all readers
with higher limits. The reader with the same limit reports it. -/
theorem upToLimit_read (hpolicy : options'.policy = options.policy) (hle : n ≤ m)
    (hmust : must → n = m) :
    (Correspondence.upToLimit must).Actions Eq (readWithin options n) (read options' m) := by
  induction n generalizing m with
  | zero =>
    intro place text _
    rcases htarget : target? text with _ | target
    · -- the first run meets the limit; the second one need not, unless the budgets are equal
      rw [readWithin_zero htarget]
      refine .limit ⟨options.maxNesting, rfl⟩ fun h => ?_
      obtain rfl := hmust h
      rw [read_zero htarget]
      exact ⟨_, List.mem_singleton_self _, options'.maxNesting, rfl⟩
    · rw [readWithin_of_target? 0 htarget, read_of_target? m htarget]
      exact .ok rfl
  | succ n ih =>
    obtain ⟨m, rfl⟩ : ∃ k, m = k + 1 := ⟨m - 1, by omega⟩
    intro place text _
    rcases htarget : target? text with _ | target
    · rw [readWithin_succ n htarget, read_succ m htarget]
      have hactions := ih (m := m) (by omega) fun h => by have := hmust h; omega
      refine Correspondence.ofProgram (C := .upToLimit must) .eq (place.le_right text.length)
        (fun r hr => ?_) (upToLimit_program_of_actions hpolicy hactions place text)
      simp [Report.Harmless, Scan.lexical_of_mem_reports hr]
    · rw [readWithin_of_target? _ htarget, read_of_target? _ htarget]
      exact .ok rfl

/-- A text is the same program for all limits from one on where nothing is reported of the limit
and reading is not given up at it. -/
theorem program_eq_of_not_isLimit {policy : SubstitutionPolicy} {d d' : Nat} {text : List Char}
    {place : Position} (hle : d ≤ d')
    (hreports : ∀ r ∈ (program ⟨d, policy⟩ d place text).reports, ¬r.IsLimit)
    (hcause : ∀ cause, (program ⟨d, policy⟩ d place text).result = .error cause →
      ¬cause.IsLimit) :
    (program ⟨d', policy⟩ d' place text).outcome =
      (program ⟨d, policy⟩ d place text).outcome := by
  have hactions {must : Prop} {m : Nat} (hm : d ≤ m) (hmust : must → d = m) :
      (Correspondence.upToLimit must).Actions Eq (readWithin ⟨d, policy⟩ d)
        (read ⟨m, policy⟩ m) := upToLimit_read rfl hm hmust
  have hsame := (upToLimit_program_of_actions (by rfl)
    (hactions (le_refl d) fun _ : True => rfl) place text).eq_or
  have hmore := (upToLimit_program_of_actions (by rfl) (hactions hle False.elim) place text).eq_or
  rcases hsame with hsame | ⟨-, -, -, -, hreported⟩
  · rw [hsame]
    rcases hmore with hmore | ⟨rs, cause, haborted, hlimit, -⟩
    · exact hmore
    · exact absurd hlimit (hcause cause (by rw [Parsed.result, hsame, haborted]))
  · obtain ⟨r, hr, hlimit⟩ := hreported trivial
    exact absurd hlimit (hreports r hr)

end Action

end QuestScript

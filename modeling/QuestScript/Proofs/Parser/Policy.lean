import QuestScript.Proofs.Parser.Correspondence
import QuestScript.Proofs.Report

/-!
The two policies for bad character codes.

A run that gives up at a bad code and a run that leaves the statement out do the same up to the
first bad code. From there on the first run does nothing, so all its reports are reports of the
second run. That the first bad code met is also the first in the source is a fact about the second
run alone: it meets bad codes in reading order.
-/

namespace QuestScript

/-- Whether the report is about a substitution. -/
def Report.isSubstitution (r : Report) : Bool := r.fault.kind = .substitution

lemma Report.Harmless.isSubstitution {r : Report} (h : r.Harmless) : r.isSubstitution = false := by
  simpa [Report.isSubstitution, Report.Harmless] using h

lemma Report.filter_isSubstitution {rs : List Report} (h : ∀ r ∈ rs, r.Harmless) :
    rs.filter isSubstitution = [] :=
  List.filter_eq_nil_iff.mpr fun r hr => by simp [(h r hr).isSubstitution]

namespace Outcome

variable {α β γ : Type} {o : Outcome Refusal α} {next : α → Outcome Refusal γ}

/-- The reports of an outcome, with the one on which the statement is left out. -/
def allReports (o : Outcome Refusal α) : List Report :=
  match o.result with
  | .error (.dropped report) => o.reports ++ [report]
  | _ => o.reports

lemma allReports_of_ok {a : α} (h : o.result = .ok a) : o.allReports = o.reports := by
  simp [allReports, h]

lemma allReports_after (rs : List Report) (o : Outcome Refusal α) :
    (o.after rs).allReports = rs ++ o.allReports := by
  rcases o with ⟨reports, (report | cause) | a⟩ <;> simp [allReports, after]

lemma allReports_recover (o : Outcome Refusal α) : o.recover.allReports = o.allReports := by
  rcases o with ⟨reports, (report | cause) | a⟩ <;> simp [allReports, recover]

lemma allReports_bind_of_ok {a : α} (h : o.result = .ok a) (next : α → Outcome Refusal γ) :
    (o.bind next).allReports = o.reports ++ (next a).allReports := by
  rw [bind_of_ok h, allReports_after]

lemma allReports_bind_of_error {refusal : Refusal} (h : o.result = .error refusal)
    (next : α → Outcome Refusal γ) : (o.bind next).allReports = o.allReports := by
  rcases o with ⟨reports, (report | cause) | a⟩
  · rfl
  · rfl
  · simp at h

lemma exists_allReports_bind (o : Outcome Refusal α) (next : α → Outcome Refusal γ) :
    ∃ later, (o.bind next).allReports = o.allReports ++ later := by
  rcases h : o.result with refusal | a
  · exact ⟨[], by rw [allReports_bind_of_error h, List.append_nil]⟩
  · exact ⟨_, by rw [allReports_bind_of_ok h, allReports_of_ok h]⟩

end Outcome

/-! ### Two runs up to the first bad code -/

/-- The first run gave up, at the first bad code that the second run reports. -/
structure Outcome.Cut {α β : Type} (o : Outcome Refusal α) (o' : Outcome Refusal β)
    (cause : Report) : Prop where
  result : o.result = .error (.aborted cause)
  harmless : ∀ r ∈ o.reports, r.Harmless
  substitution : cause.fault.kind = .substitution
  reports : ∃ later, o'.allReports = o.reports ++ cause :: later

/-- Two runs do the same without any bad code, or the first one gave up. -/
inductive Outcome.Agree {α β : Type} (R : α → β → Prop) (o : Outcome Refusal α)
    (o' : Outcome Refusal β) : Prop
  | same (meets : o.Meets R o') (reports : o.reports = o'.reports)
      (all : o.allReports = o'.allReports) (harmless : ∀ r ∈ o.allReports, r.Harmless)
  | cut {cause : Report} (h : o.Cut o' cause)

namespace Outcome.Agree

variable {α β γ δ : Type} {R : α → β → Prop} {S : γ → δ → Prop} {o : Outcome Refusal α}
  {o' : Outcome Refusal β} {rs : List Report}

lemma after (hrs : ∀ r ∈ rs, r.Harmless) (h : o.Agree R o') :
    (o.after rs).Agree R (o'.after rs) := by
  have hboth {all : List Report} (hall : ∀ r ∈ all, r.Harmless) : ∀ r ∈ rs ++ all, r.Harmless :=
    fun r hr => (List.mem_append.mp hr).elim (hrs r) (hall r)
  cases h with
  | same meets reports all harmless =>
    refine .same (meets.after _ _) (by simp [Outcome.after, reports]) ?_ ?_
    · rw [allReports_after, allReports_after, all]
    · rw [allReports_after]
      exact hboth harmless
  | cut h =>
    obtain ⟨later, hlater⟩ := h.reports
    refine .cut ⟨h.result, hboth h.harmless, h.substitution, later, ?_⟩
    rw [allReports_after, hlater, Outcome.after, List.append_assoc]

lemma recover (h : o.Agree R o') : o.recover.Agree (Option.Rel R) o'.recover := by
  cases h with
  | same meets reports all harmless =>
    have hmeets := meets.recover
    obtain ⟨a, b, ha, hb, -⟩ : ∃ a b, o.recover.result = .ok a ∧ o'.recover.result = .ok b ∧ _ :=
      hmeets.resolve_right (by
        rintro ⟨r, -, hr, -⟩
        rcases o with ⟨reports, (report | cause) | a⟩ <;> simp [Outcome.recover] at hr)
    have hall : o.recover.allReports = o'.recover.allReports := by
      rw [allReports_recover, allReports_recover, all]
    refine .same hmeets ?_ hall (by rwa [allReports_recover])
    rwa [allReports_of_ok ha, allReports_of_ok hb] at hall
  | @cut cause h =>
    have hrecover : o.recover = ⟨o.reports, .error (.aborted cause)⟩ := by
      rw [Outcome.recover, h.result]
    refine .cut ⟨by rw [hrecover], by rw [hrecover]; exact h.harmless, h.substitution, ?_⟩
    rw [allReports_recover, hrecover]
    exact h.reports

lemma bind {next : α → Outcome Refusal γ} {next' : β → Outcome Refusal δ} (h : o.Agree R o')
    (hnext : ∀ a b, o.result = .ok a → o'.result = .ok b → R a b → (next a).Agree S (next' b)) :
    (o.bind next).Agree S (o'.bind next') := by
  cases h with
  | same meets reports all harmless =>
    -- both runs agree up to here, so the second steps decide
    rcases meets with ⟨a, b, ha, hb, hab⟩ | ⟨r, r', hr, hr'⟩
    · rw [bind_of_ok ha, bind_of_ok hb, ← reports]
      rw [allReports_of_ok ha] at harmless
      exact (hnext a b ha hb hab).after harmless
    · refine .same (.inr ⟨r, r', ?_, ?_⟩) ?_ ?_ ?_
      · rw [bind_of_error hr]
      · rw [bind_of_error hr']
      · rw [bind_of_error hr, bind_of_error hr', reports]
      · rw [allReports_bind_of_error hr, allReports_bind_of_error hr', all]
      · rwa [allReports_bind_of_error hr]
  | cut h =>
    -- the first run gave up before, and the second one only adds reports
    obtain ⟨later, hlater⟩ := h.reports
    obtain ⟨more, hmore⟩ := exists_allReports_bind o' next'
    rw [bind_of_error h.result]
    refine .cut ⟨rfl, h.harmless, h.substitution, later ++ more, ?_⟩
    rw [hmore, hlater, List.append_assoc, List.cons_append]

end Outcome.Agree

/-- Two runs do the same up to the first bad code, wherever they are. -/
def Correspondence.agreement : Correspondence where
  rel _ _ R o o' := o.Agree R o'
  pure p h := .same (.inl ⟨_, _, rfl, rfl, h⟩) rfl rfl (by simp [Outcome.allReports, Outcome.pure])
  drop p h := .same (.inr ⟨_, _, rfl, rfl⟩) rfl rfl
    (by simpa [Outcome.allReports, Outcome.fail] using h)
  after hrs ho := ho.after hrs
  bind _ _ ho hnext := ho.bind hnext
  recover ho := ho.recover
  widen _ _ ho := ho
  agree ho h h' := by
    cases ho with
    | same meets => exact meets
    | cut hcut => exact absurd ⟨_, hcut.result⟩ h

/-! ### Bad codes in reading order -/

/-- The bad codes that were met lie between the given places, in reading order. -/
structure Outcome.InOrder {α : Type} (lo hi : Position) (o : Outcome Refusal α) : Prop where
  within : ∀ r ∈ o.allReports, r.isSubstitution = true → lo ≤ r.place ∧ r.place ≤ hi
  sorted : (o.allReports.filter Report.isSubstitution).Pairwise fun r s => r.place ≤ s.place

namespace Outcome.InOrder

variable {α γ : Type} {lo mid hi p q : Position} {o : Outcome Refusal α} {rs : List Report}

lemma of_harmless (h : ∀ r ∈ o.allReports, r.Harmless) : o.InOrder lo hi where
  within r hr hsub := by simp [(h r hr).isSubstitution] at hsub
  sorted := by simp [Report.filter_isSubstitution h]

lemma widen (h : o.InOrder lo hi) (hlo : p ≤ lo) (hhi : hi ≤ q) : o.InOrder p q where
  within r hr hsub :=
    ⟨le_trans hlo (h.within r hr hsub).1, le_trans (h.within r hr hsub).2 hhi⟩
  sorted := h.sorted

lemma after (h : o.InOrder lo hi) (hrs : ∀ r ∈ rs, r.Harmless) : (o.after rs).InOrder lo hi where
  within r hr hsub := by
    rw [allReports_after, List.mem_append] at hr
    rcases hr with hr | hr
    · simp [(hrs r hr).isSubstitution] at hsub
    · exact h.within r hr hsub
  sorted := by
    rw [allReports_after, List.filter_append, Report.filter_isSubstitution hrs]
    exact h.sorted

lemma recover (h : o.InOrder lo hi) : o.recover.InOrder lo hi where
  within := by simpa only [allReports_recover] using h.within
  sorted := by simpa only [allReports_recover] using h.sorted

lemma bind {next : α → Outcome Refusal γ} (h : o.InOrder lo mid) (hlo : lo ≤ mid) (hhi : mid ≤ hi)
    (hnext : ∀ a, o.result = .ok a → (next a).InOrder mid hi) : (o.bind next).InOrder lo hi := by
  rcases hresult : o.result with refusal | a
  · -- nothing is read behind
    constructor
    · rw [allReports_bind_of_error hresult]
      exact (h.widen (le_refl lo) hhi).within
    · rw [allReports_bind_of_error hresult]
      exact h.sorted
  · have hnext := hnext a hresult
    have hfirst := allReports_of_ok hresult
    have hall := allReports_bind_of_ok hresult next
    constructor
    · -- all reports lie between both ends
      intro r hr hsub
      rw [hall, ← hfirst, List.mem_append] at hr
      rcases hr with hr | hr
      · exact (h.widen (le_refl lo) hhi).within r hr hsub
      · exact (hnext.widen hlo (le_refl hi)).within r hr hsub
    · -- those of the second step lie behind those of the first
      rw [hall, ← hfirst, List.filter_append, List.pairwise_append]
      refine ⟨h.sorted, hnext.sorted, fun r hr s hs => ?_⟩
      obtain ⟨hr, hrsub⟩ := List.mem_filter.mp hr
      obtain ⟨hs, hssub⟩ := List.mem_filter.mp hs
      exact le_trans (h.within r hr hrsub).2 (hnext.within s hs hssub).1

end Outcome.InOrder

/-- Two runs that give nothing up and meet their bad codes in reading order. -/
def Correspondence.order : Correspondence where
  rel lo hi R o o' := o.Meets R o' ∧ o.InOrder lo hi ∧ o'.InOrder lo hi
  pure p h := by
    refine ⟨.inl ⟨_, _, rfl, rfl, h⟩, .of_harmless ?_, .of_harmless ?_⟩ <;>
      simp [Outcome.allReports, Outcome.pure]
  drop p h := by
    refine ⟨.inr ⟨_, _, rfl, rfl⟩, .of_harmless ?_, .of_harmless ?_⟩ <;>
      simpa [Outcome.allReports, Outcome.fail] using h
  after hrs ho := ⟨ho.1.after _ _, ho.2.1.after hrs, ho.2.2.after hrs⟩
  bind hlo hhi ho hnext := by
    obtain ⟨hmeets, horder, horder'⟩ := ho
    refine ⟨hmeets.bind fun a b ha hb hab => (hnext a b ha hb hab).1,
      horder.bind hlo hhi fun a ha => ?_, horder'.bind hlo hhi fun b hb => ?_⟩
    · obtain ⟨b, hb, hab⟩ := hmeets.exists_of_ok ha
      exact (hnext a b ha hb hab).2.1
    · obtain ⟨a, ha, hab⟩ := hmeets.exists_of_ok' hb
      exact (hnext a b ha hb hab).2.2
  recover ho := ⟨ho.1.recover, ho.2.1.recover, ho.2.2.recover⟩
  widen hlo hhi ho := ⟨ho.1, ho.2.1.widen hlo hhi, ho.2.2.widen hlo hhi⟩
  agree ho _ _ := ho.1

/-! ### Sources -/

section

variable (source : String) (limit : Nat)

lemma agree_programBy :
    (programBy (Program.reader .abort) limit source).escalate.outcome.Agree
      (fun p p' => List.Forall₂ Eq p.groups p'.groups)
      (programBy (Program.reader .dropStatement) limit source).escalate.outcome := by
  refine (Correspondence.programs_reader (C := .agreement) .eq fun place code => ?_).sources .eq
    limit source
  exact .cut ⟨rfl, by simp [refuse, Outcome.fail], rfl, [], rfl⟩

lemma order_programBy :
    Correspondence.order.rel .start (Position.start.advance source.toList)
      (fun p p' : Program => List.Forall₂ Eq p.groups p'.groups)
      (programBy (Program.reader .dropStatement) limit source).escalate.outcome
      (programBy (Program.reader .dropStatement) limit source).escalate.outcome := by
  refine (Correspondence.programs_reader .eq fun place code => ?_).sources .eq limit source
  have hone : (refuse .dropStatement ⟨.badCharacterCode code, place⟩ :
      Outcome Refusal Segment).InOrder place place := by
    constructor
    · intro r hr _
      obtain rfl : r = ⟨.badCharacterCode code, place⟩ := by
        simpa [refuse, Outcome.allReports, Outcome.fail] using hr
      exact ⟨le_refl _, le_refl _⟩
    · exact List.Pairwise.sublist List.filter_sublist (List.pairwise_singleton _ _)
  exact ⟨.inr ⟨_, _, rfl, rfl⟩, hone, hone⟩

/-- The run that leaves statements out comes to an end, and meets bad codes in reading order. -/
lemma exists_programBy :
    ∃ reports p n,
      programBy (Program.reader .dropStatement) limit source = ⟨⟨reports, .ok p⟩, n⟩ ∧
        (reports.filter Report.isSubstitution).Pairwise fun r s => r.place ≤ s.place := by
  obtain ⟨hmeets, horder, -⟩ := order_programBy source limit
  rcases hprogram : programBy (Program.reader .dropStatement) limit source with
    ⟨⟨reports, cause | p⟩, n⟩
  · exact absurd ⟨cause, by rw [hprogram]; rfl⟩ hmeets.not_isAborted.1
  · rw [hprogram] at horder
    exact ⟨reports, p, n, rfl, horder.sorted⟩

variable {source limit}

/-- The run that gives up comes to the same, or gives up at the first bad code that the other run
meets. -/
lemma programBy_abort {reports : List Report} {p : Program} {n : Nat}
    (h : programBy (Program.reader .dropStatement) limit source = ⟨⟨reports, .ok p⟩, n⟩) :
    (∃ m, programBy (Program.reader .abort) limit source = ⟨⟨reports, .ok p⟩, m⟩ ∧
      ∀ r ∈ reports, r.Harmless) ∨
    ∃ cause first later m, programBy (Program.reader .abort) limit source =
        ⟨⟨first, .error cause⟩, m⟩ ∧ reports = first ++ cause :: later ∧
      (∀ r ∈ first, r.Harmless) ∧ cause.fault.kind = .substitution := by
  have hagree := agree_programBy source limit
  rw [h] at hagree
  -- the strict run gave up, and that was at the first bad code
  rcases habort : programBy (Program.reader .abort) limit source with ⟨⟨first, cause | q⟩, m⟩
  · rw [habort] at hagree
    cases hagree with
    | same hmeets => exact absurd ⟨cause, rfl⟩ hmeets.not_isAborted.1
    | @cut other hcut =>
      obtain rfl : cause = other := by simpa using hcut.result
      obtain ⟨later, hlater⟩ := hcut.reports
      exact .inr ⟨cause, first, later, m, rfl, hlater, hcut.harmless, hcut.substitution⟩
  · -- the strict run came to its end, so there was no bad code
    rw [habort] at hagree
    cases hagree with
    | same hmeets hreports hall hharmless =>
      obtain ⟨_, hok, hgroups⟩ := hmeets.exists_of_ok rfl
      obtain rfl := Except.ok.inj hok
      rw [List.forall₂_eq_eq_eq] at hgroups
      obtain rfl : q = p := congrArg Program.mk hgroups
      obtain rfl : first = reports := hreports
      exact .inl ⟨m, rfl, hharmless⟩
    | cut hcut => simpa using hcut.result

end

variable {scanned reports : List Report}

lemma Report.find?_sort (hscanned : ∀ r ∈ scanned, r.Harmless)
    (h : (reports.filter isSubstitution).Pairwise fun r s => r.place ≤ s.place) :
    (sort (scanned ++ reports)).find? isSubstitution = reports.find? isSubstitution := by
  have hfilter : (scanned ++ reports).filter isSubstitution = reports.filter isSubstitution := by
    rw [List.filter_append, filter_isSubstitution hscanned, List.nil_append]
  rw [← List.head?_filter, filter_sort (hfilter ▸ h), hfilter, List.head?_filter]

lemma Report.cons_sort_subperm (cause : Report) (scanned first later : List Report) :
    (cause :: sort (scanned ++ first)).Subperm (sort (scanned ++ (first ++ cause :: later))) := by
  have hfront : (cause :: sort (scanned ++ first)).Perm (scanned ++ first ++ [cause]) :=
    ((sort_perm _).cons cause).trans (List.perm_append_singleton _ _).symm
  have hsub := (List.sublist_append_left (scanned ++ first ++ [cause]) later).subperm
  rw [List.append_assoc (scanned ++ first) [cause] later, List.singleton_append,
    List.append_assoc scanned first (cause :: later)] at hsub
  exact hfront.subperm.trans (hsub.trans (sort_perm _).symm.subperm)

/-- **Two policies, one parse.** The run that leaves statements out never gives up. The run that
gives up does so if and only if the other one reports a bad character code, and otherwise both come
to the same. It gives up at the first bad code in the source, and all that it reports is reported by
the other run, as often. -/
theorem parse_policies (source : String) (depth : Nat) :
    ∃ out, parse source ⟨depth, .dropStatement⟩ = .ok out ∧
      ((∃ a, parse source ⟨depth, .abort⟩ = .error a) ↔
        ∃ r ∈ out.reports, r.diagnostic.kind = .substitution) ∧
      ((∀ r ∈ out.reports, r.diagnostic.kind ≠ .substitution) →
        parse source ⟨depth, .abort⟩ = .ok out) ∧
      ∀ a, parse source ⟨depth, .abort⟩ = .error a →
        out.reports.find? (fun r => r.diagnostic.kind = .substitution) = some a.cause ∧
          (a.cause :: a.reports).Subperm out.reports := by
  obtain ⟨reports, p, n, hprogram, hsorted⟩ := exists_programBy source depth
  have hdrop : parse source ⟨depth, .dropStatement⟩ =
      .ok ⟨p, Report.sort ((tokenize source).2 ++ reports)⟩ := by
    rw [parse_eq, parseBy_of_ok hprogram]
  refine ⟨_, hdrop, ?_⟩
  rcases programBy_abort hprogram with
    ⟨m, habort, hharmless⟩ | ⟨cause, first, later, m, habort, rfl, hharmless, hkind⟩
  · -- no bad code is met
    have hsame : parse source ⟨depth, .abort⟩ =
        .ok ⟨p, Report.sort ((tokenize source).2 ++ reports)⟩ := by
      rw [parse_eq, parseBy_of_ok habort]
    have hnone : ∀ r ∈ Report.sort ((tokenize source).2 ++ reports),
        r.diagnostic.kind ≠ .substitution := by
      intro r hr
      rcases List.mem_append.mp ((Report.sort_perm _).mem_iff.mp hr) with hr | hr
      · exact harmless_tokenize source r hr
      · exact hharmless r hr
    refine ⟨⟨?_, ?_⟩, fun _ => hsame, ?_⟩
    · rintro ⟨a, ha⟩
      simp [hsame] at ha
    · rintro ⟨r, hr, hkind⟩
      exact absurd hkind (hnone r hr)
    · intro a ha
      simp [hsame] at ha
  · -- the first bad code is the cause
    have hstop : parse source ⟨depth, .abort⟩ =
        .error ⟨cause, Report.sort ((tokenize source).2 ++ first)⟩ := by
      rw [parse_eq, parseBy_of_error habort]
    have hfirst : (Report.sort ((tokenize source).2 ++ (first ++ cause :: later))).find?
        Report.isSubstitution = some cause := by
      have hnone : first.find? Report.isSubstitution = none :=
        List.find?_eq_none.mpr fun r hr => by simp [(hharmless r hr).isSubstitution]
      rw [Report.find?_sort (harmless_tokenize source) hsorted, List.find?_append, hnone]
      simp [Report.isSubstitution, hkind]
    have hmem := List.mem_of_find?_eq_some hfirst
    refine ⟨⟨fun _ => ⟨cause, hmem, hkind⟩, fun _ => ⟨_, hstop⟩⟩, fun hnone => ?_, ?_⟩
    · exact absurd hkind (hnone cause hmem)
    · intro a ha
      obtain rfl := Except.error.inj (hstop.symm.trans ha)
      exact ⟨hfirst, Report.cons_sort_subperm cause _ first later⟩

end QuestScript

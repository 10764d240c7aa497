import QuestScript.Proofs.Parallel.Line
import QuestScript.Proofs.Program.Composition
import QuestScript.Proofs.Program.Keeps
import QuestScript.Proofs.Token.Shape

/-!
What is reported at the ends of lines.

What is wrong with a line is met at one of its tokens or inside one of its payloads, or at the line
break that a statement breaks off at. Nothing is read of the line behind such a statement, so the
report at the line break is the last one on its line (`pairwise_readGroups`).
-/

namespace QuestScript

variable {K : Position → Prop} {α β : Type}

/-! ### Texts whose places have a property -/

/-- The text stays on its line, and the property holds of its places and of its end. -/
def Position.Keeps (K : Position → Prop) (p : Position) (text : List Char) : Prop :=
  '\n' ∉ text ∧ ∀ n ≤ text.length, K (p.right n)

lemma Position.Keeps.part {p : Position} {front text back : List Char}
    (h : p.Keeps K (front ++ text ++ back)) : (p.right front.length).Keeps K text := by
  refine ⟨fun hmem => h.1 (by simp [hmem]), fun n hn => ?_⟩
  rw [right_right]
  refine h.2 _ ?_
  simp only [List.length_append]
  omega

lemma Position.Keeps.start {p : Position} {text : List Char} (h : p.Keeps K text) : K p :=
  h.2 0 (Nat.zero_le _)

namespace Parallel

open Position (Keeps)

/-- The reading of texts whose places have the property, in parallel with itself. -/
def within (K : Position → Prop) : Parallel := keeping (Keeps K) (fun r => K r.place) id

lemma limits_within (K : Position → Prop) (options : Options) :
    (within K).Limits options options :=
  Inherited.limits ⟨fun h => h.1, fun h => h.part, fun _ => rfl, fun h _ => h.start⟩ options

end Parallel

/-! ### Statements -/

namespace Lexeme

/-- The property holds where the lexeme stands, unless it is a line break, and of the places of its
payload, unless that is the name of a label. -/
structure Keeps (K : Position → Prop) (l : Lexeme) : Prop where
  start (h : l.token ≠ .mark .lineBreak) : K l.start
  payload {carrier : Carrier} {text : String} (h : l.token = .payload carrier text)
    (hcarrier : carrier ≠ .label) : l.payloadStart.Keeps K text.toList

/-- The list starts with a line break, which stands at the place. -/
def BreaksAt (ts : List Lexeme) (p : Position) : Prop :=
  ∃ l rest, ts = l :: rest ∧ l.token = .mark .lineBreak ∧ p = l.start

end Lexeme

open Lexeme (BreaksAt)

/-- The property holds where reports are placed, but that of a refusal may be placed at the line
break that the parse stops at. -/
structure Parsed.Keeps (K : Position → Prop) (ts : List Lexeme) (x : Parsed Refusal α) : Prop where
  reports : ∀ r ∈ x.reports, K r.place
  refusal {r : Report} (h : x.result = .error (.dropped r)) :
    K r.place ∨ BreaksAt (ts.drop x.taken) r.place

namespace Parsed.Keeps

variable {x : Parsed Refusal α} {ts : List Lexeme}

lemma pure {a : α} {n : Nat} : Keeps K ts (⟨.pure a, n⟩ : Parsed Refusal α) :=
  ⟨by simp [Parsed.reports, Outcome.pure], by simp [Parsed.result, Outcome.pure]⟩

lemma dropped {r : Report} {n : Nat} (h : K r.place ∨ BreaksAt (ts.drop n) r.place) :
    Keeps K ts (⟨.fail (.dropped r), n⟩ : Parsed Refusal α) := by
  refine ⟨by simp [Parsed.reports, Outcome.fail], fun hresult => ?_⟩
  obtain rfl := Refusal.dropped.inj (Except.error.inj hresult)
  exact h

lemma map (h : x.Keeps K ts) (f : α → β) : (x.map f).Keeps K ts := by
  rcases x with ⟨⟨reports, refusal | a⟩, n⟩
  · exact ⟨h.reports, fun hresult => h.refusal (congrArg Except.error (Except.error.inj hresult))⟩
  · exact ⟨h.reports, by simp [Parsed.result, Parsed.map, Outcome.map, Except.map]⟩

lemma after {n : Nat} (h : x.Keeps K (ts.drop n)) : (x.after n).Keeps K ts := by
  refine ⟨h.reports, fun hresult => ?_⟩
  have hrefusal := h.refusal hresult
  rwa [List.drop_drop] at hrefusal

lemma bind {next : α → Nat → Parsed Refusal β} (h : x.Keeps K ts)
    (hnext : ∀ a, x.result = .ok a → (next a x.taken).Keeps K (ts.drop x.taken)) :
    (x.bind next).Keeps K ts := by
  rcases hx : x.result with refusal | a
  · rw [bind_of_error hx]
    refine ⟨h.reports, fun hresult => h.refusal ?_⟩
    rw [hx, Except.error.inj hresult]
  · obtain ⟨hreports, hrefusal⟩ := hnext a hx
    rw [bind_of_ok hx]
    refine ⟨fun r hr => ?_, fun hresult => ?_⟩
    · exact (List.mem_append.mp hr).elim (h.reports r) (hreports r)
    · have := hrefusal hresult
      rwa [List.drop_drop] at this

lemma of_outcomes {R : α → α → Prop} {o : Outcome Refusal α} {n : Nat}
    (h : (Parallel.within K).Outcomes R o o) : Keeps K ts ⟨o, n⟩ := by
  rcases o with ⟨reports, result⟩
  cases h with
  | ok hrs _ => exact ⟨fun r hr => (List.forall₂_same.mp hrs r hr).2, by simp [Parsed.result]⟩
  | error hrs hrefusals =>
    refine ⟨fun r hr => (List.forall₂_same.mp hrs r hr).2, fun hresult => .inl ?_⟩
    cases hrefusals with
    | dropped hr =>
      obtain rfl := Refusal.dropped.inj (Except.error.inj hresult)
      exact hr.2
    | aborted _ => simp [Parsed.result] at hresult

end Parsed.Keeps

namespace Statement

open Parsed.Keeps (pure dropped of_outcomes)

variable {ctx : Context} {ts rest : List Lexeme} {l : Lexeme}

/-- The property holds of all that the readers of a context report, and of the end of the source. -/
structure KeptBy (K : Position → Prop) (ctx : Context) : Prop where
  contexts : (Parallel.within K).Contexts ctx ctx
  finish : K ctx.finish.start

variable (h : KeptBy K ctx)

include h

lemma keeps_head (hts : ∀ l ∈ ts, l.Keeps K) :
    K (ts.headD ctx.finish).start ∨ BreaksAt ts (ts.headD ctx.finish).start := by
  rcases ts with _ | ⟨l, rest⟩
  · exact .inl h.finish
  by_cases hl : l.token = .mark .lineBreak
  · exact .inr ⟨l, rest, rfl, hl, rfl⟩
  · exact .inl ((hts l List.mem_cons_self).start hl)

lemma keeps_lift (hts : ∀ l ∈ ts, l.Keeps K) (r : Reading α) : (ctx.lift ts r).Keeps K ts := by
  unfold Context.lift
  split
  · exact pure
  · exact dropped (keeps_head h fun l hl => hts l (List.mem_of_mem_drop hl))

lemma keeps_fail (hts : ∀ l ∈ ts, l.Keeps K) (wanted : Wanted) :
    (⟨.fail (ctx.missing wanted ts), 0⟩ : Parsed Refusal α).Keeps K ts :=
  dropped (keeps_head h hts)

lemma keeps_readPayload {carrier : Carrier} {text : String} {n : Nat} (hl : l.Keeps K)
    (htoken : l.token = .payload carrier text) :
    (⟨readPayload ctx l carrier text.toList, n⟩ : Parsed Refusal Statement).Keeps K ts := by
  have hstart : K l.start := hl.start (by simp [htoken])
  by_cases hcarrier : carrier = .label
  · -- A label reports at its start, whatever its name is.
    subst hcarrier
    simp only [readPayload, requiredName]
    split
    · exact dropped (.inl hstart)
    · exact pure
  · have hkeeps := hl.payload htoken hcarrier
    have hlexemes : (Parallel.within K).Lexemes l l := by
      refine ⟨rfl, ⟨rfl, by simp, fun n hn => ?_⟩, fun htoken' => ⟨rfl, ?_⟩⟩
      · obtain rfl := Nat.le_zero.mp hn
        exact hstart
      · obtain ⟨-, rfl⟩ := Token.payload.inj (htoken.symm.trans htoken')
        exact hkeeps
    exact of_outcomes (h.contexts.readPayload hlexemes carrier ⟨rfl, hkeeps⟩)

lemma keeps_readAssignment (hts : ∀ l ∈ ts, l.Keeps K) (name : String) :
    (readAssignment ctx name ts).Keeps K ts := by
  unfold readAssignment
  simp only
  split
  · refine Parsed.Keeps.after (Parsed.Keeps.map ?_ _)
    rw [List.drop_one]
    exact keeps_lift h (fun l hl => hts l (List.mem_of_mem_tail hl)) _
  · exact dropped (keeps_head h hts)

lemma keeps_readSimple (hts : ∀ o ∈ l :: rest, o.Keeps K) :
    (readSimple ctx l rest).Keeps K (l :: rest) := by
  have hrest : ∀ o ∈ (l :: rest).drop 1, o.Keeps K := fun o ho => hts o (List.mem_of_mem_drop ho)
  have hvariable (make : Option String → Statement) :
      ((readVariable make rest).after 1).Keeps K (l :: rest) := by
    refine Parsed.Keeps.after ?_
    unfold readVariable
    split
    · split <;> exact pure
    · exact pure
  unfold readSimple
  split
  · exact Parsed.Keeps.after (keeps_readAssignment h hrest _)
  · next hl => exact keeps_readPayload h (hts l List.mem_cons_self) hl
  · exact pure
  · exact pure
  · exact pure
  · exact pure
  · exact hvariable _
  · exact hvariable _
  · exact Parsed.Keeps.after ((keeps_lift h hrest _).map _)
  · exact keeps_fail h hts _

lemma keeps_readConditional {line : Nat} (hts : ∀ l ∈ ts, l.Keeps K)
    (hgroup : ∀ n, (readGroup ctx line (ts.drop (n + 1))).Keeps K (ts.drop (n + 1))) :
    (readConditional ctx line ts).Keeps K ts := by
  have hdrop (n : Nat) : ∀ l ∈ ts.drop n, l.Keeps K := fun l hl => hts l (List.mem_of_mem_drop hl)
  rw [readConditional]
  refine (keeps_lift h hts _).bind fun condition _ => ?_
  generalize (ctx.lift ts (BoolExpr.read ts)).taken = k
  refine Parsed.Keeps.bind ?_ fun _ hthen => ?_
  · unfold takeThen
    split
    · exact pure
    · exact keeps_fail h (hdrop k) _
  rw [(taken_of_takeThen hthen).2, List.drop_drop]
  refine (hgroup _).bind fun thenGroup _ => ?_
  rw [List.drop_drop]
  split
  · refine Parsed.Keeps.after ?_
    rw [List.drop_drop]
    exact (hgroup _).map _
  · exact pure

/-- **Statements break off at tokens and line breaks.** All reports but that of a statement that
breaks off at a line break are placed where the property holds. -/
theorem keeps_read (hts : ∀ l ∈ ts, l.Keeps K) : (read ctx ts).Keeps K ts := by
  revert hts
  refine (read.mutual_induct (fun ts => (∀ l ∈ ts, l.Keeps K) → (read ctx ts).Keeps K ts)
    (fun line ts => (∀ l ∈ ts, l.Keeps K) → (readConditional ctx line ts).Keeps K ts)
    (fun line ts => (∀ l ∈ ts, l.Keeps K) → (readGroup ctx line ts).Keeps K ts)
    (fun ts => (∀ l ∈ ts, l.Keeps K) → (readChain ctx ts).Keeps K ts)
    ?nothing ?conditional ?simple ?branches ?group ?chain).1 ts
  case nothing =>
    intro hts
    rw [read]
    exact keeps_fail h hts _
  case conditional =>
    intro l rest hl hconditional hts
    rw [read, if_pos hl]
    exact Parsed.Keeps.after (hconditional fun o ho => hts o (List.mem_cons_of_mem l ho))
  case simple =>
    intro l rest hl hts
    rw [read, if_neg hl]
    exact keeps_readSimple h hts
  case branches =>
    intro line ts hgroup _ hts
    exact keeps_readConditional h hts fun n =>
      hgroup n fun l hl => hts l (List.mem_of_mem_drop hl)
  case group =>
    intro line ts hchain hts
    rw [readGroup]
    exact (hchain hts).map _
  case chain =>
    intro ts hread hchain hts
    rw [readChain]
    refine (hread hts).bind fun s _ => ?_
    rcases ts with _ | ⟨l, rest⟩
    · exact pure
    · simp only
      split
      · refine Parsed.Keeps.after ?_
        rw [List.drop_drop, List.drop_succ_cons]
        exact (hchain _ fun o ho => hts o (List.mem_cons_of_mem l (List.mem_of_mem_drop ho))).map _
      · exact pure

end Statement

/-! ### Lines -/

/-- The property holds where reports are placed, but the last one may be placed at the line break
that the line ends with. -/
def Parsed.KeepsLine (K : Position → Prop) (ts : List Lexeme) (x : Parsed Report α) : Prop :=
  (∀ r ∈ x.reports, K r.place) ∨ ∃ front r, x.reports = front ++ [r] ∧ (∀ s ∈ front, K s.place) ∧
    BreaksAt (ts.drop x.taken) r.place

namespace Parsed.KeepsLine

variable {x : Parsed Report α} {y : Parsed Report β} {ts : List Lexeme} {rs : List Report} {n : Nat}

lemma append (hreports : x.reports = rs ++ y.reports) (htaken : x.taken = n + y.taken)
    (hrs : ∀ r ∈ rs, K r.place) (hy : y.KeepsLine K (ts.drop n)) : x.KeepsLine K ts := by
  rcases hy with hy | ⟨front, r, hy, hfront, hbreak⟩
  · refine .inl fun r hr => ?_
    rw [hreports] at hr
    exact (List.mem_append.mp hr).elim (hrs r) (hy r)
  · refine .inr ⟨rs ++ front, r, by rw [hreports, hy, List.append_assoc], fun s hs => ?_, ?_⟩
    · exact (List.mem_append.mp hs).elim (hrs s) (hfront s)
    · rwa [htaken, ← List.drop_drop]

lemma pairwise (h : x.KeepsLine K ts) : x.reports.Pairwise fun r _ => K r.place := by
  rcases h with h | ⟨front, r, hreports, hfront, -⟩
  · exact List.pairwise_iff_forall_sublist.mpr fun hsub => h _ (hsub.subset List.mem_cons_self)
  · rw [hreports, List.pairwise_append]
    refine ⟨?_, List.pairwise_singleton _ r, fun s hs _ _ => hfront s hs⟩
    exact List.pairwise_iff_forall_sublist.mpr fun hsub =>
      hfront _ (hsub.subset List.mem_cons_self)

end Parsed.KeepsLine

namespace Group

open Statement (KeptBy continues startsWith)

variable {ctx : Context} {ts : List Lexeme}

lemma readRest_of_breaksAt {p : Position} (h : BreaksAt ts p) :
    readRest ctx ts = ⟨.pure [], 0⟩ := by
  obtain ⟨l, rest, rfl, hl, -⟩ := h
  simp [readRest, restBy, Lexeme.statementLength, Lexeme.endsStatement, hl, continues, startsWith]

lemma keepsLine_restBy {line : List Lexeme → Parsed Report (List Statement)}
    (hline : ∀ n, (ts.drop n).length < ts.length → (line (ts.drop n)).KeepsLine K (ts.drop n)) :
    (restBy line ts).KeepsLine K ts := by
  unfold restBy
  simp only
  split
  · next hcontinues =>
    have hlen := length_of_continues hcontinues
    refine .append (y := line (ts.drop (Lexeme.statementLength ts + 1))) rfl rfl
      (List.forall_mem_nil _) (hline _ ?_)
    rw [List.length_drop]
    omega
  · split <;> exact .inl (List.forall_mem_nil _)

lemma keeps_trailing (ctx : Context) (hts : ∀ l ∈ ts, l.Keeps K) :
    ∀ r ∈ trailing ctx ts, K r.place := by
  intro r hr
  rcases ts with _ | ⟨l, rest⟩
  · simp [trailing] at hr
  unfold trailing at hr
  split at hr
  · next hends =>
    obtain rfl := List.mem_singleton.mp hr
    refine (hts l List.mem_cons_self).start fun hl => ?_
    simp [Lexeme.endsStatement, hl] at hends
  · simp at hr

/-- **A report at a line break is the last one on its line.** -/
theorem keepsLine_readLine (h : KeptBy K ctx) (hts : ∀ l ∈ ts, l.Keeps K) :
    (readLine ctx ts).KeepsLine K ts := by
  induction hn : ts.length using Nat.strongRecOn generalizing ts with
  | ind n ih =>
  rcases ts with _ | ⟨l, rest⟩
  · rw [readLine]
    refine .inl fun r hr => ?_
    obtain rfl := List.mem_singleton.mp hr
    exact h.finish
  have hdrop (n : Nat) : ∀ o ∈ (l :: rest).drop n, o.Keeps K :=
    fun o ho => hts o (List.mem_of_mem_drop ho)
  have hkeeps := Statement.keeps_read h hts
  have hrest (i : Nat) : (readRest ctx ((l :: rest).drop i)).KeepsLine K ((l :: rest).drop i) := by
    refine keepsLine_restBy fun m hm => ?_
    rw [List.drop_drop] at hm ⊢
    refine ih _ ?_ (hdrop _) rfl
    simp only [List.length_drop] at hm ⊢
    omega
  -- one of the reports may be placed at the line break, and it is the last
  rcases hread : Statement.read ctx (l :: rest) with ⟨⟨first, (report | cause) | s⟩, i⟩
  · rw [hread] at hkeeps
    have hfirst : ∀ r ∈ first, K r.place := hkeeps.reports
    -- the refusal stands inside of the line
    rcases hkeeps.refusal rfl with hK | hbreak
    · have hboth : ∀ r ∈ first ++ [report], K r.place := fun r hr =>
        (List.mem_append.mp hr).elim (hfirst r) fun hr => List.mem_singleton.mp hr ▸ hK
      by_cases hl : l.token = .mark .ifWord
      · rw [readLine_of_dropped_if hl hread]
        exact .inl hboth
      · rw [readLine_of_dropped hl hread]
        exact .append rfl rfl hboth (hrest i)
    · -- the refusal stands at the line break, so nothing more is read on this line
      refine .inr ⟨first, report, ?_, hfirst, ?_⟩ <;> by_cases hl : l.token = .mark .ifWord
      · rw [readLine_of_dropped_if hl hread]
        rfl
      · rw [readLine_of_dropped hl hread, readRest_of_breaksAt hbreak]
        simp [Parsed.reports, Outcome.pure, Outcome.after]
      · obtain ⟨o, more, hbehind, ho, -⟩ := id hbreak
        simp only at hbehind
        rw [readLine_of_dropped_if hl hread, hbehind, Lexeme.lineLength_eq_zero (by simp [ho])]
        exact hbreak
      · rw [readLine_of_dropped hl hread, readRest_of_breaksAt hbreak]
        exact hbreak
  · rw [readLine_of_aborted hread]
    rw [hread] at hkeeps
    exact .inl hkeeps.reports
  · rw [readLine_of_ok hread]
    rw [hread] at hkeeps
    refine .append rfl rfl (fun r hr => ?_) (hrest i)
    exact (List.mem_append.mp hr).elim (hkeeps.reports r) (keeps_trailing ctx (hdrop i) r)

end Group

/-! ### Programs -/

namespace Program

variable {ctx : Context} {ts : List Lexeme}

lemma line_lt_of_mem_readGroups {n : Nat} {r : Report}
    (hctx : (Parallel.within fun p => n < p.line).Contexts ctx ctx)
    (hfinish : ctx.finish.token = .mark .sourceEnd) (hend : n < ctx.finish.start.line)
    (hts : ∀ l ∈ ts, n < l.start.line) (hone : Lexeme.OneLine ts)
    (hr : r ∈ (readGroups ctx ts).reports) : n < r.place.line := by
  have hlexemes {l : Lexeme} (hl : n < l.start.line)
      (hpayload : ∀ carrier text, l.token = .payload carrier text → '\n' ∉ text.toList) :
      (Parallel.within fun p => n < p.line).Lexemes l l :=
    ⟨rfl, ⟨rfl, by simp, fun _ _ => hl⟩, fun htoken => ⟨rfl, hpayload _ _ htoken, fun _ _ => hl⟩⟩
  have hread := hctx.readGroups hfinish hfinish
    (List.forall₂_same.mpr fun l hl => hlexemes (hts l hl) (hone l hl))
    (.inl (hlexemes hend (by simp [hfinish])))
  rcases hread.of_escalate with ⟨made, made', _, _, hmade, hmade', hreports, -⟩ |
    ⟨made, made', _, _, hmade, hmade', hreports, -⟩
  all_goals
    obtain rfl : made = made' := congrArg Outcome.reports (hmade.symm.trans hmade')
    have hmem : r ∈ made := by rwa [Parsed.reports, hmade] at hr
    exact (List.forall₂_same.mp hreports r hmem).2

/-- **Reports at line breaks stand above all that are made after them.** -/
theorem pairwise_readGroups (hctx : ∀ K, (Parallel.within K).Contexts ctx ctx)
    (hfinish : ctx.finish.token = .mark .sourceEnd) (hend : K ctx.finish.start)
    (hts : ∀ l ∈ ts, l.Keeps K) (hone : Lexeme.OneLine ts)
    (hlines : (ts ++ [ctx.finish]).Pairwise fun l m =>
      l.token = .mark .lineBreak → l.start.line < m.start.line) :
    (readGroups ctx ts).reports.Pairwise fun r s => K r.place ∨ r.place.line < s.place.line := by
  induction hn : ts.length using Nat.strongRecOn generalizing ts with
  | ind n ih =>
  rcases ts with _ | ⟨l, rest⟩
  · simp [readGroups, Parsed.pure, Parsed.reports, Outcome.pure]
  rw [Parsed.reports]
  by_cases hl : l.token = .mark .lineBreak
  · rw [outcome_readGroups_of_lineBreak _ hl]
    exact ih rest.length (by simp [← hn]) (fun o ho => hts o (List.mem_cons_of_mem l ho))
      (hone.drop 1) hlines.tail rfl
  rw [outcome_readGroups_cons hfinish hl]
  have hline := Group.keepsLine_readLine ⟨hctx K, hend⟩ hts
  have htaken := @Group.taken_readLine ctx (l :: rest)
  have hpos : 0 < Lexeme.lineLength (l :: rest) := by
    rw [Lexeme.lineLength_cons hl]
    omega
  rcases hread : Group.readLine ctx (l :: rest) with ⟨⟨made, cause | statements⟩, k⟩
  · -- reading is given up on this line
    rw [hread] at hline
    exact hline.pairwise.imp .inl
  rw [hread] at hline htaken
  obtain rfl : k = Lexeme.lineLength (l :: rest) := htaken hfinish rfl
  generalize Lexeme.lineLength (l :: rest) = k at hline hpos ⊢
  have hbehind : ((l :: rest).drop k ++ [ctx.finish]).Pairwise fun l m =>
      l.token = .mark .lineBreak → l.start.line < m.start.line :=
    hlines.sublist ((List.drop_sublist k _).append_right [ctx.finish])
  have hlater := ih ((l :: rest).drop k).length
    (by simp only [List.length_drop, ← hn, List.length_cons]; omega)
    (fun o ho => hts o (List.mem_of_mem_drop ho)) (hone.drop k) hbehind rfl
  refine List.pairwise_append.mpr ⟨hline.pairwise.imp .inl, hlater, fun r hr s hs => ?_⟩
  -- all reports on the line stand in it, but perhaps the last one
  rcases hline with hline | ⟨front, last, hmade, hfront, o, more, hdrop, ho, hplace⟩
  · exact .inl (hline r hr)
  obtain rfl : made = front ++ [last] := hmade
  rcases List.mem_append.mp hr with hr | hr
  · exact .inl (hfront r hr)
  -- What is read behind the line break stands below it.
  obtain rfl := List.mem_singleton.mp hr
  simp only at hdrop
  have hmore : Lexeme.OneLine (o :: more) := hdrop ▸ hone.drop k
  rw [hdrop] at hbehind hs
  obtain ⟨hbelow, -⟩ := List.pairwise_cons.mp hbehind
  refine .inr (hplace ▸ line_lt_of_mem_readGroups (hctx _) hfinish (hbelow _ (by simp) ho)
    (fun m hm => hbelow m (List.mem_append_left _ hm) ho) (hmore.drop 1) ?_)
  rwa [Parsed.reports, ← outcome_readGroups_of_lineBreak _ ho]

end Program

end QuestScript

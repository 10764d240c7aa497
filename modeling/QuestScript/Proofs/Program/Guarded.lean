import QuestScript.Proofs.Action.Correspondence
import QuestScript.Proofs.Program.Keeps

/-!
Reading that ends a line behind a conditional.

The branches of a conditional run to the end of its line. The reader of lines takes the rest of the
line with a conditional that is broken, but behind one that leaves tokens over it goes on at the
next separator. The guarded reader takes the rest of the line with every conditional. In what it
reads conditionals only stand at the end of their groups.
-/

namespace QuestScript

open Lexeme (OneLine)

def Statement.isConditional : Statement → Bool
  | .conditional _ _ _ => true
  | _ => false

/-- Nothing stands behind a conditional in the group. -/
def Group.ConditionalsLast (g : Group) : Prop :=
  ∀ s ∈ g.statements.dropLast, s.isConditional = false

variable {ctx : Context} {ts : List Lexeme} {rs : List Report} {k : Nat}

/-! ### Branches -/

namespace Statement

lemma continues_of_readChain {statements : List Statement}
    (h : readChain ctx ts = ⟨⟨rs, .ok statements⟩, k⟩) : continues (ts.drop k) = false := by
  induction hn : ts.length using Nat.strongRecOn generalizing ts rs statements k with
  | ind n ih =>
  obtain ⟨s, first, i, hs, hcases⟩ := readChain_eq_ok h
  rcases hcases with ⟨-, -, rfl, hcontinues⟩ | ⟨tail, later, m, hcontinues, htail, -, -, rfl⟩
  · exact hcontinues
  · have hlen := Group.length_of_continues hcontinues
    rw [← List.drop_drop]
    refine ih _ ?_ htail rfl
    rw [List.length_drop]
    omega

lemma continues_of_readGroup {line : Nat} {g : Group}
    (h : readGroup ctx line ts = ⟨⟨rs, .ok g⟩, k⟩) : continues (ts.drop k) = false := by
  rw [readGroup] at h
  obtain ⟨statements, hstatements, -⟩ := Parsed.map_eq_ok.mp h
  exact continues_of_readChain hstatements

lemma isConditional_of_isPlain {s : Statement} (h : s.IsPlain) : s.isConditional = false := by
  cases s <;> simp_all [IsPlain, isConditional]

lemma read_eq_ok_of_if {l : Lexeme} {rest : List Lexeme} {s : Statement}
    (hl : l.token = .mark .ifWord)
    (h : read ctx (l :: rest) = ⟨⟨rs, .ok s⟩, k⟩) :
    s.isConditional = true ∧ continues ((l :: rest).drop k) = false := by
  rw [read, if_pos hl] at h
  obtain ⟨m, hread, rfl⟩ := Parsed.after_eq_ok.mp h
  rw [Nat.add_comm, List.drop_succ_cons]
  obtain ⟨condition, i, thenGroup, first, n, -, -, hgroup, hcases⟩ := readConditional_eq_ok hread
  rcases hcases with ⟨rfl, -, rfl, -⟩ | ⟨elseGroup, later, j, -, hother, rfl, -, rfl⟩
  · rw [← List.drop_drop]
    exact ⟨rfl, continues_of_readGroup hgroup⟩
  · rw [← List.drop_drop]
    exact ⟨rfl, continues_of_readGroup hother⟩

lemma isConditional_of_read {l : Lexeme} {rest : List Lexeme} {s : Statement}
    (hl : l.token ≠ .mark .ifWord) (h : read ctx (l :: rest) = ⟨⟨rs, .ok s⟩, k⟩) :
    s.isConditional = false := by
  rw [read, if_neg hl] at h
  rcases readSimple_eq_ok h with
    ⟨name, value, m, rfl, -, -⟩ | ⟨carrier, text, -, hpayload⟩ | hbrief
  · rfl
  · exact isConditional_of_isPlain (gives_of_readPayload hpayload).1
  · exact isConditional_of_isPlain hbrief.isPlain

end Statement

namespace Group

variable {s : Statement} {statements : List Statement} {line : Nat}

lemma conditionalsLast_single (s : Statement) (line : Nat) : ConditionalsLast ⟨[s], line⟩ := by
  simp [ConditionalsLast]

lemma conditionalsLast_cons (hs : s.isConditional = false)
    (h : ConditionalsLast ⟨statements, line⟩) : ConditionalsLast ⟨s :: statements, line⟩ := by
  rcases statements with _ | ⟨t, tail⟩
  · exact conditionalsLast_single s line
  · intro r hr
    rw [List.dropLast_cons_cons] at hr
    rcases List.mem_cons.mp hr with rfl | hr
    · exact hs
    · exact h r hr

lemma conditionalsLast_of_readChain (h : Statement.readChain ctx ts = ⟨⟨rs, .ok statements⟩, k⟩) :
    ConditionalsLast ⟨statements, line⟩ := by
  induction hn : ts.length using Nat.strongRecOn generalizing ts rs statements k with
  | ind n ih =>
  obtain ⟨s, first, i, hs, hcases⟩ := Statement.readChain_eq_ok h
  rcases hcases with ⟨rfl, -⟩ | ⟨tail, later, m, hcontinues, htail, rfl, -⟩
  · exact conditionalsLast_single s line
  · have hlen := length_of_continues hcontinues
    refine conditionalsLast_cons ?_ (ih _ ?_ htail rfl)
    · rcases ts with _ | ⟨l, rest⟩
      · simp at hlen
      by_cases hl : l.token = .mark .ifWord
      · have := (Statement.read_eq_ok_of_if hl hs).2
        simp [hcontinues] at this
      · exact Statement.isConditional_of_read hl hs
    · rw [List.length_drop]
      omega

/-! ### Guarded lines -/

open Statement (startsWith continues)

/-- A line from its first statement, in front of the given list, and what is left of the line. -/
def lineOf (ctx : Context) (first : Parsed Refusal Statement) (behind : List Lexeme)
    (later : Parsed Report (List Statement)) : Parsed Report (List Statement) :=
  match first.result with
  | .ok statement =>
    ⟨(later.outcome.map (statement :: ·)).after (first.reports ++ trailing ctx behind),
      first.taken + later.taken⟩
  | .error (.dropped report) =>
    ⟨later.outcome.after (first.reports ++ [report]), first.taken + later.taken⟩
  | .error (.aborted cause) => ⟨⟨first.reports, .error cause⟩, first.taken⟩

/-- Reads the statements of a line as `readLine` does, but takes the rest of the line with every
conditional, broken or not. -/
def readGuarded (ctx : Context) (ts : List Lexeme) : Parsed Report (List Statement) :=
  match ts with
  | [] => ⟨⟨[.missing .statement ctx.finish []], .ok []⟩, 0⟩
  | l :: rest =>
    let first := Statement.read ctx (l :: rest)
    let behind := (l :: rest).drop first.taken
    let passed := Lexeme.statementLength behind
    lineOf ctx first behind
      (if l.token = .mark .ifWord then ⟨.pure [], Lexeme.lineLength behind⟩
      else if continues (behind.drop passed) then
        (readGuarded ctx (rest.drop (first.taken + passed))).after (passed + 1)
      else if startsWith .ampersand (behind.drop passed) then ⟨.pure [], passed + 1⟩
      else ⟨.pure [], passed⟩)
termination_by ts.length

/-- What is left of a line that starts with the lexeme, for the guarded reader. -/
def guardedRest (ctx : Context) (l : Lexeme) (behind : List Lexeme) :
    Parsed Report (List Statement) :=
  if l.token = .mark .ifWord then ⟨.pure [], Lexeme.lineLength behind⟩
  else restBy (readGuarded ctx) behind

lemma readGuarded_cons (ctx : Context) (l : Lexeme) (rest : List Lexeme) :
    readGuarded ctx (l :: rest) =
      lineOf ctx (Statement.read ctx (l :: rest))
        ((l :: rest).drop (Statement.read ctx (l :: rest)).taken)
        (guardedRest ctx l ((l :: rest).drop (Statement.read ctx (l :: rest)).taken)) := by
  rw [readGuarded]
  generalize (Statement.read ctx (l :: rest)).taken = k
  have hdrop : rest.drop (k + Lexeme.statementLength ((l :: rest).drop k)) =
      ((l :: rest).drop k).drop (Lexeme.statementLength ((l :: rest).drop k) + 1) := by
    rw [List.drop_drop, ← Nat.add_assoc, List.drop_succ_cons]
  simp only [guardedRest, restBy, hdrop]

lemma lineOf_eq_ok {first : Parsed Refusal Statement} {behind : List Lexeme}
    {later : Parsed Report (List Statement)} {statements : List Statement}
    (h : (lineOf ctx first behind later).result = .ok statements) :
    (∃ s tail, first.result = .ok s ∧ later.result = .ok tail ∧ statements = s :: tail) ∨
      later.result = .ok statements := by
  rcases first with ⟨⟨made, (report | cause) | s⟩, i⟩ <;>
    rcases later with ⟨⟨more, cause | tail⟩, n⟩ <;>
    simp_all [lineOf, Parsed.result, Outcome.after, Outcome.map, Except.map]

lemma taken_lineOf {first : Parsed Refusal Statement} {behind : List Lexeme}
    {later : Parsed Report (List Statement)} {statements : List Statement}
    (h : (lineOf ctx first behind later).result = .ok statements) :
    (lineOf ctx first behind later).taken = first.taken + later.taken := by
  rcases first with ⟨⟨made, (report | cause) | s⟩, i⟩ <;> simp_all [lineOf, Parsed.result]

lemma escalate_lineOf (first : Parsed Refusal Statement) (ts : List Lexeme)
    (later : Nat → Parsed Report (List Statement)) :
    (lineOf ctx first (ts.drop first.taken) (later first.taken)).escalate =
      first.recover.bind fun kept k => joined ctx (ts.drop k) kept (later k) := by
  rcases first with ⟨⟨made, (report | cause) | s⟩, i⟩ <;>
    rcases hlater : later i with ⟨⟨more, cause | tail⟩, n⟩ <;>
    simp [lineOf, hlater, joined, Parsed.result, Parsed.reports, Outcome.after, Parsed.map,
      Outcome.map, Except.map]

lemma escalate_readGuarded (ctx : Context) (l : Lexeme) (rest : List Lexeme) :
    (readGuarded ctx (l :: rest)).escalate =
      (Statement.read ctx (l :: rest)).recover.bind fun kept k =>
        joined ctx ((l :: rest).drop k) kept (guardedRest ctx l ((l :: rest).drop k)) := by
  rw [readGuarded_cons]
  exact escalate_lineOf _ _ fun k => guardedRest ctx l ((l :: rest).drop k)

/-! ### What guarded lines take and give -/

lemma taken_guardedRest {behind : List Lexeme} {later : List Statement}
    (hline : ∀ us statements, us.length < behind.length →
      (readGuarded ctx us).result = .ok statements →
        (readGuarded ctx us).taken = Lexeme.lineLength us)
    (h : (guardedRest ctx l behind).result = .ok later) :
    (guardedRest ctx l behind).taken = Lexeme.lineLength behind := by
  unfold guardedRest at h ⊢
  split
  · rfl
  · next hl =>
    rw [if_neg hl] at h
    exact taken_restBy hline h

/-- A guarded line is read to its end, and not further. -/
theorem taken_readGuarded {statements : List Statement}
    (hfinish : ctx.finish.token = .mark .sourceEnd)
    (h : (readGuarded ctx ts).result = .ok statements) :
    (readGuarded ctx ts).taken = Lexeme.lineLength ts := by
  induction hn : ts.length using Nat.strongRecOn generalizing ts statements with
  | ind n ih =>
  rcases ts with _ | ⟨l, rest⟩
  · simp [readGuarded, Lexeme.lineLength]
  have hstay := Statement.onLine_read hfinish (l :: rest)
  rw [readGuarded_cons] at h ⊢
  rw [taken_lineOf h, Lexeme.lineLength_of_take hstay.forall_mem hstay.le]
  obtain ⟨later, hlater⟩ : ∃ later, (guardedRest ctx l ((l :: rest).drop
      (Statement.read ctx (l :: rest)).taken)).result = .ok later := by
    rcases lineOf_eq_ok h with ⟨s, tail, -, htail, -⟩ | hlater
    · exact ⟨tail, htail⟩
    · exact ⟨statements, hlater⟩
  congr 1
  refine taken_guardedRest (fun us later hus hline => ih us.length ?_ hline rfl) hlater
  rw [List.length_drop] at hus
  omega

lemma everywhere_cons {s : Statement} {later : List Statement} {line : Nat}
    (hs : s.isConditional = false) (hgroups : ∀ g ∈ s.groups, g.Everywhere ConditionalsLast)
    (h : Everywhere ConditionalsLast ⟨later, line⟩) :
    Everywhere ConditionalsLast ⟨s :: later, line⟩ := by
  obtain ⟨hlast, hinside⟩ := everywhere_iff.mp h
  refine everywhere_iff.mpr ⟨conditionalsLast_cons hs hlast, fun t ht => ?_⟩
  rcases List.mem_cons.mp ht with rfl | ht
  · exact hgroups
  · exact hinside t ht

lemma everywhere_nil (line : Nat) : Everywhere ConditionalsLast ⟨[], line⟩ :=
  everywhere_iff.mpr ⟨by simp [ConditionalsLast], by simp⟩

lemma everywhere_single {s : Statement} (line : Nat)
    (h : ∀ g ∈ s.groups, g.Everywhere ConditionalsLast) :
    Everywhere ConditionalsLast ⟨[s], line⟩ :=
  everywhere_iff.mpr ⟨conditionalsLast_single s line, by simpa using h⟩

/-- **Conditionals end guarded lines.** -/
theorem everywhere_of_readGuarded {statements : List Statement} {line : Nat}
    (hctx : ctx.Keeps ConditionalsLast) (hts : OneLine ts)
    (h : (readGuarded ctx ts).result = .ok statements) :
    Everywhere ConditionalsLast ⟨statements, line⟩ := by
  induction hn : ts.length using Nat.strongRecOn generalizing ts statements with
  | ind n ih =>
  rcases ts with _ | ⟨l, rest⟩
  · obtain rfl : [] = statements := by simpa [readGuarded, Parsed.result] using h
    exact everywhere_nil line
  rw [readGuarded_cons] at h
  rcases hread : Statement.read ctx (l :: rest) with ⟨⟨made, result⟩, k⟩
  rw [hread] at h
  -- What is left of the line gives nothing behind a conditional.
  have hlater {later : List Statement}
      (hok : (guardedRest ctx l ((l :: rest).drop k)).result = .ok later) :
      Everywhere ConditionalsLast ⟨later, line⟩ ∧ (l.token = .mark .ifWord → later = []) := by
    unfold guardedRest at hok
    split at hok
    · obtain rfl : [] = later := by simpa [Parsed.result, Outcome.pure] using hok
      exact ⟨everywhere_nil line, fun _ => rfl⟩
    · next hl =>
      refine ⟨?_, fun h => absurd h hl⟩
      rcases restBy_cases (readGuarded ctx) ((l :: rest).drop k) with hnone | ⟨m, hlen, hline⟩
      · obtain rfl : [] = later := by simpa [Parsed.result, hnone, Outcome.pure] using hok
        exact everywhere_nil line
      · rw [Parsed.result, hline] at hok
        refine ih _ ?_ ((hts.drop k).drop m) hok rfl
        simp only [List.length_drop] at hlen ⊢
        omega
  rcases lineOf_eq_ok h with ⟨s, later, hs, hok, rfl⟩ | hok
  · obtain rfl : result = .ok s := hs
    have hgroups := Statement.everywhere_of_read hctx _ hts _ _ _ hread
    obtain ⟨hkept, hnil⟩ := hlater hok
    by_cases hl : l.token = .mark .ifWord
    · -- nothing stands behind a conditional
      rw [hnil hl]
      exact everywhere_single line hgroups
    · -- other statements may be followed by anything
      exact everywhere_cons (Statement.isConditional_of_read hl hread) hgroups hkept
  · -- the statement was left out
    exact (hlater hok).1

end Group

/-! ### Guarded programs -/

lemma Lexeme.Laid.oneLine {lo hi : Position} (h : Laid lo hi ts) : OneLine ts := by
  induction ts generalizing lo with
  | nil => simp [OneLine]
  | cons l rest ih =>
    obtain ⟨-, hsits, hrest⟩ := h
    intro o ho carrier text htoken
    rcases List.mem_cons.mp ho with rfl | ho
    · exact (hsits carrier text htoken).1
    · exact ih hrest o ho carrier text htoken

namespace Program

/-- The guarded reader of programs with the given policy. -/
def guardedReader (policy : SubstitutionPolicy) : ProgramReader :=
  fun action finish ts =>
    (readGroupsBy (Group.readGuarded ⟨policy, action, finish⟩) ts).map (⟨·⟩)

variable {policy : SubstitutionPolicy} {action : ActionReader} {finish : Lexeme} {p : Program}

lemma guardedReader_eq_ok (h : (guardedReader policy action finish ts).result = .ok p) :
    (readGroupsBy (Group.readGuarded ⟨policy, action, finish⟩) ts).result = .ok p.groups := by
  rcases hgroups : readGroupsBy (Group.readGuarded ⟨policy, action, finish⟩) ts with
    ⟨⟨reports, cause | groups⟩, n⟩
  · simp [guardedReader, hgroups, Parsed.result, Parsed.map, Outcome.map, Except.map] at h
  · obtain rfl : Program.mk groups = p := by
      simpa [guardedReader, hgroups, Parsed.result, Parsed.map, Outcome.map, Except.map] using h
    rfl

lemma everywhere_of_guardedReader
    (haction : ∀ place text rs g, '\n' ∉ text → action place text = ⟨rs, .ok g⟩ →
      g.Everywhere Group.ConditionalsLast)
    (hts : OneLine ts) (h : (guardedReader policy action finish ts).result = .ok p) :
    ∀ g ∈ p.groups, ∀ line, Group.Everywhere Group.ConditionalsLast ⟨g.statements, line⟩ := by
  intro g hg line
  obtain ⟨n, hline, -⟩ := exists_of_mem_readGroupsBy (guardedReader_eq_ok h) hg
  have hkeeps : Context.Keeps ⟨policy, action, finish⟩ Group.ConditionalsLast :=
    ⟨fun _ _ => Group.conditionalsLast_single _ _, haction _ _ _ _,
      fun _ _ => Group.conditionalsLast_of_readChain⟩
  exact Group.everywhere_of_readGuarded hkeeps (hts.drop n) hline

end Program

namespace Action

open Lexeme (untilEnd)

/-- Conditionals only stand at the end of groups in guarded actions. -/
theorem everywhere_of_readBy {policy : SubstitutionPolicy} {limit budget : Nat} {place : Position}
    {text : List Char} {g : Group} (hline : '\n' ∉ text)
    (h : readBy (Program.guardedReader policy) limit budget place text = ⟨rs, .ok g⟩) :
    g.Everywhere Group.ConditionalsLast := by
  induction budget generalizing place text rs g with
  | zero =>
    rcases readBy_eq_ok h with ⟨target, rfl⟩ | ⟨n, p, hn, -⟩
    · exact Group.everywhere_jump (Group.conditionalsLast_single _ _)
    · simp at hn
  | succ n ih =>
    rcases readBy_eq_ok h with ⟨target, rfl⟩ | ⟨m, p, hm, rfl, hprogram⟩
    · exact Group.everywhere_jump (Group.conditionalsLast_single _ _)
    obtain rfl : n = m := Nat.succ.inj hm
    have hlaid := (Scan.laid_read .fresh place text).untilEnd
    have hgroups := Program.everywhere_of_guardedReader (fun _ _ _ _ => ih) hlaid.oneLine hprogram
    -- the text is one line, so it makes one group at most
    have hbreak : ∀ l ∈ (untilEnd (Scan.read .fresh place text).lexemes).1,
        l.token ≠ .mark .lineBreak :=
      fun l hl => Scan.ne_lineBreak_of_mem hline ((List.takeWhile_prefix _).subset hl)
    have hone := Program.length_of_readGroupsBy
      (fun _ _ => Group.taken_readGuarded (Lexeme.token_untilEnd _)) hbreak
      (Program.guardedReader_eq_ok hprogram)
    rcases p with ⟨_ | ⟨g, _ | ⟨g', rest⟩⟩⟩
    · exact Group.everywhere_nil place.line
    · simpa [Program.statements] using hgroups g (by simp) place.line
    · simp at hone

end Action

end QuestScript

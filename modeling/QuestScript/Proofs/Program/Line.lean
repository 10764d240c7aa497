import Mathlib.Tactic.Common
import QuestScript.Parser
import QuestScript.Proofs.Text.Trim

/-!
Logical lines, and the programs they make up.

A line is a statement and what is left of the line behind it, and the groups of a program are its
lines. A list of lexemes that a line takes to the end is a program of one group, which holds the
statements of that line and nothing else.
-/

namespace QuestScript

lemma Lexeme.not_of_mem_head?_dropWhile {p : Lexeme → Bool} {ts : List Lexeme} {l : Lexeme}
    (h : l ∈ (ts.drop (ts.takeWhile p).length).head?) : p l = false := by
  have hnot := List.head?_dropWhile_not p ts
  rwa [← Text.drop_takeWhile, Option.mem_def.mp h] at hnot

lemma Lexeme.untilEnd_append {ts : List Lexeme} {finish : Lexeme} (rest : List Lexeme)
    (hts : ∀ l ∈ ts, l.token ≠ .mark .sourceEnd) (hf : finish.token = .mark .sourceEnd) :
    untilEnd (ts ++ finish :: rest) = (ts, finish) := by
  have htake : (ts ++ finish :: rest).takeWhile (fun l => l.token != .mark .sourceEnd) = ts := by
    rw [List.takeWhile_append_of_pos, List.takeWhile_cons_of_neg (by simp [hf]), List.append_nil]
    intro l hl
    simpa using hts l hl
  rw [untilEnd]
  simp only [htake, List.drop_left, List.head?_cons, Option.getD_some]

lemma Statement.exists_of_startsWith {m : Mark} {ts : List Lexeme} (h : startsWith m ts = true) :
    ∃ l rest, ts = l :: rest ∧ l.token = .mark m := by
  rcases ts with _ | ⟨l, rest⟩
  · simp [startsWith] at h
  · exact ⟨l, rest, rfl, by simpa [startsWith] using h⟩

namespace Group

open Statement (startsWith continues)

variable {ctx : Context} {l : Lexeme} {rest : List Lexeme} {first : List Report} {i : Nat}

/-- Reads what is left of a line behind a statement: the statements behind the next separator. -/
def restBy (line : List Lexeme → Parsed Report (List Statement)) (behind : List Lexeme) :
    Parsed Report (List Statement) :=
  let passed := Lexeme.statementLength behind
  if continues (behind.drop passed) then
    (line (behind.drop (passed + 1))).after (passed + 1)
  else if startsWith .ampersand (behind.drop passed) then ⟨.pure [], passed + 1⟩
  else ⟨.pure [], passed⟩

/-- Reads what is left of a line behind a statement. -/
def readRest (ctx : Context) : List Lexeme → Parsed Report (List Statement) :=
  restBy (readLine ctx)

lemma startsWith_of_continues {ts : List Lexeme} (h : continues ts = true) :
    startsWith .ampersand ts = true := by
  simp only [continues, Bool.and_eq_true] at h
  exact h.1.1

lemma length_of_continues {behind : List Lexeme} {n : Nat} (h : continues (behind.drop n) = true) :
    n < behind.length := by
  by_contra hn
  simp [List.drop_eq_nil_iff.mpr (Nat.le_of_not_lt hn), continues, startsWith] at h

lemma statementLength_of_endsStatement {behind : List Lexeme}
    (h : ∀ o ∈ behind.head?, o.endsStatement = true) : Lexeme.statementLength behind = 0 := by
  rcases behind with _ | ⟨o, more⟩
  · rfl
  · simp [Lexeme.statementLength, h o (by simp)]

lemma restBy_cases (line : List Lexeme → Parsed Report (List Statement)) (behind : List Lexeme) :
    (restBy line behind).outcome = .pure [] ∨
      ∃ n, (behind.drop n).length < behind.length ∧
        (restBy line behind).outcome = (line (behind.drop n)).outcome := by
  unfold restBy
  simp only
  split
  · next hc =>
    refine .inr ⟨_, ?_, rfl⟩
    have := length_of_continues hc
    simp only [List.length_drop]
    omega
  · split <;> exact .inl rfl

lemma readLine_of_ok {s : Statement} (h : Statement.read ctx (l :: rest) = ⟨⟨first, .ok s⟩, i⟩) :
    readLine ctx (l :: rest) =
      ⟨((readRest ctx ((l :: rest).drop i)).outcome.map (s :: ·)).after
          (first ++ trailing ctx ((l :: rest).drop i)),
        i + (readRest ctx ((l :: rest).drop i)).taken⟩ := by
  rw [readLine]
  simp only [h, Parsed.result, Parsed.reports, readRest, restBy, List.drop_drop]
  by_cases hc : continues ((l :: rest).drop (i + Lexeme.statementLength ((l :: rest).drop i)))
      = true
  · simp [hc, startsWith_of_continues hc, Parsed.after, ← Nat.add_assoc]
  · by_cases ha : startsWith .ampersand
        ((l :: rest).drop (i + Lexeme.statementLength ((l :: rest).drop i))) = true
    · simp [hc, ha, Outcome.pure, Outcome.map, Except.map, Outcome.after, ← Nat.add_assoc]
    · simp [hc, ha, Outcome.pure, Outcome.map, Except.map, Outcome.after]

lemma readLine_of_dropped {report : Report} (hl : l.token ≠ .mark .ifWord)
    (h : Statement.read ctx (l :: rest) = ⟨⟨first, .error (.dropped report)⟩, i⟩) :
    readLine ctx (l :: rest) =
      ⟨(readRest ctx ((l :: rest).drop i)).outcome.after (first ++ [report]),
        i + (readRest ctx ((l :: rest).drop i)).taken⟩ := by
  have hmap (o : Outcome Report (List Statement)) : o.map ([] ++ ·) = o := by
    rcases o with ⟨_, _ | _⟩ <;> rfl
  rw [readLine]
  simp only [h, Parsed.result, Parsed.reports, readRest, restBy, List.drop_drop, if_neg hl, hmap]
  by_cases hc : continues ((l :: rest).drop (i + Lexeme.statementLength ((l :: rest).drop i)))
      = true
  · simp [hc, startsWith_of_continues hc, Parsed.after, ← Nat.add_assoc]
  · by_cases ha : startsWith .ampersand
        ((l :: rest).drop (i + Lexeme.statementLength ((l :: rest).drop i))) = true
    · simp [hc, ha, Outcome.pure, Outcome.after, ← Nat.add_assoc]
    · simp [hc, ha, Outcome.pure, Outcome.after]

lemma readLine_of_dropped_if {report : Report} (hl : l.token = .mark .ifWord)
    (h : Statement.read ctx (l :: rest) = ⟨⟨first, .error (.dropped report)⟩, i⟩) :
    readLine ctx (l :: rest) =
      ⟨⟨first ++ [report], .ok []⟩, i + Lexeme.lineLength ((l :: rest).drop i)⟩ := by
  rw [readLine]
  simp only [h, Parsed.result, Parsed.reports, if_pos hl]

lemma readLine_of_aborted {cause : Report}
    (h : Statement.read ctx (l :: rest) = ⟨⟨first, .error (.aborted cause)⟩, i⟩) :
    readLine ctx (l :: rest) = ⟨⟨first, .error cause⟩, i⟩ := by
  rw [readLine]
  simp only [h, Parsed.result, Parsed.reports]

lemma readLine_statement {statement : Statement}
    (h : Statement.read ctx (l :: rest) = ⟨⟨first, .ok statement⟩, (l :: rest).length⟩) :
    readLine ctx (l :: rest) = ⟨⟨first, .ok [statement]⟩, (l :: rest).length⟩ := by
  rw [readLine_of_ok h]
  simp [readRest, restBy, trailing, Lexeme.statementLength, startsWith, continues, Outcome.pure,
    Outcome.map, Except.map, Outcome.after]

lemma readLine_of_continues {s : Statement} {statements : List Statement} {later : List Report}
    {m : Nat} (h : Statement.read ctx (l :: rest) = ⟨⟨first, .ok s⟩, i⟩)
    (hcontinues : continues ((l :: rest).drop i) = true)
    (hline : readLine ctx ((l :: rest).drop (i + 1)) = ⟨⟨later, .ok statements⟩, m⟩) :
    readLine ctx (l :: rest) = ⟨⟨first ++ later, .ok (s :: statements)⟩, i + (1 + m)⟩ := by
  obtain ⟨o, more, hdrop, ho⟩ :=
    Statement.exists_of_startsWith (startsWith_of_continues hcontinues)
  have hends : o.endsStatement = true := by simp [Lexeme.endsStatement, ho]
  have hlength : Lexeme.statementLength (o :: more) = 0 :=
    statementLength_of_endsStatement (by simp [hends])
  rw [← List.drop_drop, hdrop, List.drop_one, List.tail_cons] at hline
  rw [hdrop] at hcontinues
  rw [readLine_of_ok h, hdrop]
  simp [readRest, restBy, hlength, hcontinues, hline, trailing, hends, Parsed.after, Outcome.map,
    Except.map, Outcome.after]

end Group

lemma Statement.read_lineBreak {ctx : Context} {l : Lexeme} (rest : List Lexeme)
    (h : l.token = .mark .lineBreak) :
    Statement.read ctx (l :: rest) = ⟨.fail (ctx.missing .statement (l :: rest)), 0⟩ := by
  simp [read, readSimple, h]

/-- A program that one line takes to the end. -/
theorem Program.read_line {ctx : Context} {l : Lexeme} {rest : List Lexeme}
    {reports : List Report} {statements : List Statement} (hl : l.token ≠ .mark .lineBreak)
    (hsome : statements ≠ [])
    (h : Group.readLine ctx (l :: rest) = ⟨⟨reports, .ok statements⟩, (l :: rest).length⟩) :
    Program.read ctx (l :: rest) =
      ⟨⟨reports, .ok ⟨[⟨statements, l.start.line⟩]⟩⟩, (l :: rest).length⟩ := by
  have hgroups : readGroups ctx (l :: rest) =
      ⟨⟨reports, .ok [⟨statements, l.start.line⟩]⟩, (l :: rest).length⟩ := by
    rw [readGroups, if_neg hl]
    simp [h, hsome, Parsed.result, Parsed.reports, readGroups, Parsed.pure, Outcome.pure,
      Outcome.map, Outcome.after, Except.map]
  rw [Program.read, hgroups]
  rfl

/-- A program that one statement takes to the end. -/
theorem Program.read_statement {ctx : Context} {l : Lexeme} {rest : List Lexeme}
    {reports : List Report} {statement : Statement}
    (h : Statement.read ctx (l :: rest) = ⟨⟨reports, .ok statement⟩, (l :: rest).length⟩) :
    Program.read ctx (l :: rest) =
      ⟨⟨reports, .ok ⟨[⟨[statement], l.start.line⟩]⟩⟩, (l :: rest).length⟩ := by
  refine read_line (fun hl => ?_) (by simp) (Group.readLine_statement h)
  rw [Statement.read_lineBreak rest hl] at h
  simp [Outcome.fail] at h

lemma Parser.run_of_read {options : Options} {ls : List Lexeme} {finish : Lexeme}
    {program : Program} (hend : ∀ l ∈ ls, l.token ≠ .mark .sourceEnd)
    (hfinish : finish.token = .mark .sourceEnd)
    (h : ∀ ctx, Program.read ctx ls = ⟨⟨[], .ok program⟩, ls.length⟩) :
    (ofLexemes (ls ++ [finish]) options).run = (.ok program, ⟨options, [], finish, []⟩) := by
  rw [ofLexemes, Lexeme.untilEnd_append [] hend hfinish, run]
  simp [h, Parsed.result, Parsed.reports]

lemma Statement.read_payload {ctx : Context} {l : Lexeme} {carrier : Carrier} {text : String}
    (rest : List Lexeme) (h : l.token = .payload carrier text) :
    Statement.read ctx (l :: rest) = ⟨readPayload ctx l carrier text.toList, 1⟩ := by
  simp [read, readSimple, h]

/-! ### The lines of a program -/

namespace Program

/-- The group of a line, unless nothing was read on it. -/
def groupOfLine (line : Nat) (statements : List Statement) : List Group :=
  if statements.isEmpty then [] else [⟨statements, line⟩]

/-- Reads the groups of a program with a reader of lines. -/
def readGroupsBy (line : List Lexeme → Parsed Report (List Statement)) (ts : List Lexeme) :
    Parsed Report (List Group) :=
  match ts with
  | [] => .pure []
  | l :: rest =>
    if l.token = .mark .lineBreak then (readGroupsBy line rest).after 1
    else
      match (line (l :: rest)).result with
      | .error cause => ⟨⟨(line (l :: rest)).reports, .error cause⟩, (line (l :: rest)).taken⟩
      | .ok statements =>
        let more := (line (l :: rest)).taken - 1
        let later := readGroupsBy line (rest.drop more)
        ⟨(later.outcome.map (groupOfLine l.start.line statements ++ ·)).after
          (line (l :: rest)).reports, more + 1 + later.taken⟩
termination_by ts.length

lemma readGroups_eq (ctx : Context) (ts : List Lexeme) :
    readGroups ctx ts = readGroupsBy (Group.readLine ctx) ts := by
  fun_induction readGroups ctx ts with
  | case1 => rw [readGroupsBy]
  | case2 l rest hl ih => rw [readGroupsBy, if_pos hl, ih]
  | case3 l rest hl line cause hline =>
    rw [readGroupsBy, if_neg hl]
    simp only [line, hline] at *
  | case4 l rest hl line statements hline more group later ih =>
    rw [readGroupsBy, if_neg hl]
    simp only [line, later, more, group] at *
    simp only [hline, ih, groupOfLine, dite_eq_ite]

lemma exists_of_mem_readGroupsBy {line : List Lexeme → Parsed Report (List Statement)}
    {ts : List Lexeme} {groups : List Group} {g : Group}
    (h : (readGroupsBy line ts).result = .ok groups) (hg : g ∈ groups) :
    ∃ n, (line (ts.drop n)).result = .ok g.statements ∧
      (line (ts.drop n)).reports ⊆ (readGroupsBy line ts).reports ∧ g.statements ≠ [] := by
  induction hn : ts.length using Nat.strongRecOn generalizing ts groups with
  | ind n ih =>
  rcases ts with _ | ⟨l, rest⟩
  · obtain rfl : [] = groups := by
      simpa [readGroupsBy, Parsed.pure, Parsed.result, Outcome.pure] using h
    simp at hg
  rw [readGroupsBy] at h ⊢
  split at h
  · next hl =>
    rw [if_pos hl]
    obtain ⟨m, hm, hreports, hne⟩ := ih rest.length (by simp [← hn]) h hg rfl
    exact ⟨m + 1, by rwa [List.drop_succ_cons], hreports, hne⟩
  · next hl =>
    rw [if_neg hl]
    split at h
    · simp [Parsed.result] at h
    next statements hline =>
    simp only at h ⊢
    generalize hlater : readGroupsBy line (rest.drop ((line (l :: rest)).taken - 1)) = later at h ⊢
    rcases later with ⟨⟨more, cause | later⟩, m⟩
    · simp [Parsed.result, Outcome.map, Outcome.after, Except.map] at h
    obtain rfl : groupOfLine l.start.line statements ++ later = groups := by
      simpa [Parsed.result, Outcome.map, Outcome.after, Except.map] using h
    simp only [Parsed.reports, Outcome.map, Outcome.after]
    -- the group is the first line
    rcases List.mem_append.mp hg with hg | hg
    · unfold groupOfLine at hg
      split at hg
      · simp at hg
      · next hsome =>
        obtain rfl := List.mem_singleton.mp hg
        exact ⟨0, hline, List.subset_append_left _ _, by simpa using hsome⟩
    · -- the group is a line behind it
      have hlen : (rest.drop ((line (l :: rest)).taken - 1)).length < n := by
        simp only [← hn, List.length_drop, List.length_cons]
        omega
      obtain ⟨k, hk, hreports, hne⟩ := ih _ hlen (congrArg Parsed.result hlater) hg rfl
      refine ⟨(line (l :: rest)).taken - 1 + k + 1, ?_⟩
      rw [List.drop_succ_cons, ← List.drop_drop]
      rw [hlater] at hreports
      exact ⟨hk, List.subset_append_of_subset_right _ hreports, hne⟩

end Program

end QuestScript

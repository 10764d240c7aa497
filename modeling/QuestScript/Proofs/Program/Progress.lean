import QuestScript.Proofs.Program.Correspondence

/-!
Reading moves on.

Statements, lines and programs take lexemes of their lists only, whether they are read or given up.
A line stays in front of its line break (`Group.onLine_readLine`). What is given up is given up
behind the start, since only a payload can be so wrong, and then its lexeme is taken
(`Program.taken_pos_of_error`). What is read is read to the end (`Program.taken_read_of_ok`).
-/

namespace QuestScript

variable {ctx : Context} {ts : List Lexeme} {l : Lexeme} {rest : List Lexeme}

namespace Statement

lemma readSimple_cases (ctx : Context) (l : Lexeme) (rest : List Lexeme) :
    0 < (readSimple ctx l rest).taken ∨
      readSimple ctx l rest = ⟨.fail (ctx.missing .statement (l :: rest)), 0⟩ := by
  unfold readSimple
  split <;> first
    | exact .inr rfl
    | exact .inl Nat.one_pos
    | exact .inl (Nat.add_pos_left Nat.one_pos _)

lemma taken_pos_of_aborted {cause : Report} (h : (read ctx ts).result = .error (.aborted cause)) :
    0 < (read ctx ts).taken := by
  rcases ts with _ | ⟨l, rest⟩
  · simp [read, Parsed.result, Outcome.fail, Context.missing] at h
  rw [read] at h ⊢
  split
  · exact Nat.add_pos_left Nat.one_pos _
  · next hif =>
    rw [if_neg hif] at h
    rcases readSimple_cases ctx l rest with hpos | hnone
    · exact hpos
    · simp [hnone, Parsed.result, Outcome.fail, Context.missing] at h

end Statement

namespace Group

open Statement (startsWith continues)

lemma onLine_restBy {line : List Lexeme → Parsed Report (List Statement)}
    (hline : ∀ us : List Lexeme, us.length < ts.length → (line us).OnLine us) :
    (restBy line ts).OnLine ts := by
  -- what is passed over holds no line break
  have hpassed : Lexeme.Takes (fun l => l.token ≠ .mark .lineBreak) (Lexeme.statementLength ts)
      ts := by
    refine ⟨Lexeme.statementLength_le ts, fun l hl hbreak => ?_⟩
    simpa [Lexeme.endsStatement, hbreak] using Lexeme.take_statementLength ts l hl
  -- and neither does it with the ampersand behind it
  have hsep (h : startsWith .ampersand (ts.drop (Lexeme.statementLength ts)) = true) :
      Lexeme.Takes (fun l => l.token ≠ .mark .lineBreak) (Lexeme.statementLength ts + 1) ts := by
    obtain ⟨l, rest, hdrop, hl⟩ := Statement.exists_of_startsWith h
    refine hpassed.append ?_
    rw [hdrop]
    exact .cons (by simp [hl]) .zero
  unfold restBy
  simp only
  split
  · next hcontinues =>
    have hlength := length_of_continues hcontinues
    refine (hsep (startsWith_of_continues hcontinues)).append (hline _ ?_)
    rw [List.length_drop]
    omega
  · split
    · next hamp => exact hsep hamp
    · exact hpassed

/-- **A line stays in front of its end**, also where it is given up. -/
theorem onLine_readLine (hfinish : ctx.finish.token = .mark .sourceEnd) (ts : List Lexeme) :
    (readLine ctx ts).OnLine ts := by
  induction hn : ts.length using Nat.strongRecOn generalizing ts with
  | ind n ih =>
  rcases ts with _ | ⟨l, rest⟩
  · rw [readLine]
    exact Parsed.onLine_of_taken rfl
  have hfirst := Statement.onLine_read hfinish (l :: rest)
  have hrest (i : Nat) : (readRest ctx ((l :: rest).drop i)).OnLine ((l :: rest).drop i) := by
    refine onLine_restBy fun us hus => ih us.length ?_ us rfl
    rw [List.length_drop] at hus
    omega
  rcases hread : Statement.read ctx (l :: rest) with ⟨⟨first, (report | cause) | s⟩, i⟩ <;>
    rw [hread] at hfirst
  · by_cases hl : l.token = .mark .ifWord
    · rw [readLine_of_dropped_if hl hread]
      refine hfirst.append ⟨(List.takeWhile_prefix _).length_le, fun o ho => ?_⟩
      rw [Lexeme.lineLength, ← List.prefix_iff_eq_take.mp (List.takeWhile_prefix _)] at ho
      simpa using List.mem_takeWhile_imp ho
    · rw [readLine_of_dropped hl hread]
      exact hfirst.append (hrest i)
  · rw [readLine_of_aborted hread]
    exact hfirst
  · rw [readLine_of_ok hread]
    exact hfirst.append (hrest i)

lemma taken_pos_of_restBy {line : List Lexeme → Parsed Report (List Statement)} {cause : Report}
    (h : (restBy line ts).result = .error cause) : 0 < (restBy line ts).taken := by
  unfold restBy at h ⊢
  simp only at h ⊢
  split
  · exact Nat.add_pos_left (Nat.succ_pos _) _
  · next hcontinues =>
    rw [if_neg hcontinues] at h
    split at h <;> simp [Parsed.result, Outcome.pure] at h

lemma taken_pos_of_error {cause : Report} (h : (readLine ctx ts).result = .error cause) :
    0 < (readLine ctx ts).taken := by
  rcases ts with _ | ⟨l, rest⟩
  · simp [readLine, Parsed.result] at h
  have hrest {i : Nat} {other : Report}
      (h : (readRest ctx ((l :: rest).drop i)).result = .error other) :
      0 < i + (readRest ctx ((l :: rest).drop i)).taken :=
    Nat.add_pos_right i (taken_pos_of_restBy h)
  rcases hread : Statement.read ctx (l :: rest) with ⟨⟨first, (report | other) | s⟩, i⟩
  · by_cases hl : l.token = .mark .ifWord
    · simp [readLine_of_dropped_if hl hread, Parsed.result] at h
    · rw [readLine_of_dropped hl hread] at h ⊢
      exact hrest h
  · -- a statement that gives up was read from a payload
    have haborted : (Statement.read ctx (l :: rest)).result = .error (.aborted other) := by
      rw [hread]
      rfl
    have hpos := Statement.taken_pos_of_aborted haborted
    rw [hread] at hpos
    rwa [readLine_of_aborted hread]
  · rw [readLine_of_ok hread] at h ⊢
    rcases hresult : (readRest ctx ((l :: rest).drop i)).result with other | later
    · exact hrest hresult
    · rw [Parsed.result] at hresult
      simp [Parsed.result, Outcome.map, Outcome.after, Except.map, hresult] at h

end Group

namespace Program

variable {line : List Lexeme → Parsed Report (List Statement)}

lemma taken_readGroupsBy_le (hline : ∀ us : List Lexeme, (line us).taken ≤ us.length)
    (ts : List Lexeme) : (readGroupsBy line ts).taken ≤ ts.length := by
  fun_induction readGroupsBy line ts with
  | case1 => exact Nat.zero_le _
  | case2 l rest hl ih =>
    simp only [Parsed.after, List.length_cons]
    omega
  | case3 l rest hl cause hcause => exact hline (l :: rest)
  | case4 l rest hl statements hok more later ih =>
    have hlater : later.taken ≤ (rest.drop more).length := ih
    have hle := hline (l :: rest)
    simp only [List.length_drop, List.length_cons] at hlater hle ⊢
    omega

lemma taken_readGroupsBy_of_ok (hline : ∀ us : List Lexeme, (line us).taken ≤ us.length)
    {groups : List Group} (h : (readGroupsBy line ts).result = .ok groups) :
    (readGroupsBy line ts).taken = ts.length := by
  fun_induction readGroupsBy line ts generalizing groups with
  | case1 => rfl
  | case2 l rest hl ih =>
    simp only [Parsed.after, List.length_cons, ih h]
    omega
  | case3 l rest hl cause hcause => simp [Parsed.result] at h
  | case4 l rest hl statements hok more later =>
    rename_i ih
    have hle := hline (l :: rest)
    rcases hlater : later.result with cause | groups
    · rw [Parsed.result] at hlater
      simp [Parsed.result, Outcome.map, Outcome.after, Except.map, hlater] at h
    · have htaken : later.taken = (rest.drop more).length := ih hlater
      simp only [List.length_drop, List.length_cons] at htaken hle ⊢
      omega

lemma taken_readGroupsBy_of_error
    (hline : ∀ us cause, (line us).result = .error cause → 0 < (line us).taken) {cause : Report}
    (h : (readGroupsBy line ts).result = .error cause) : 0 < (readGroupsBy line ts).taken := by
  rcases ts with _ | ⟨l, rest⟩
  · simp [readGroupsBy, Parsed.pure, Parsed.result, Outcome.pure] at h
  rw [readGroupsBy]
  split
  · exact Nat.add_pos_left Nat.one_pos _
  · split
    · next other hother => exact hline _ _ hother
    · exact Nat.add_pos_left (Nat.succ_pos _) _

variable (hfinish : ctx.finish.token = .mark .sourceEnd)

include hfinish

/-- **A program is taken from its list**, also where reading is given up. -/
theorem taken_read_le (ts : List Lexeme) : (read ctx ts).taken ≤ ts.length := by
  rw [read, Parsed.map, readGroups_eq]
  exact taken_readGroupsBy_le (fun us => (Group.onLine_readLine hfinish us).le) ts

/-- **A program that is read is read to the end of its list.** -/
theorem taken_read_of_ok {p : Program} (h : (read ctx ts).result = .ok p) :
    (read ctx ts).taken = ts.length := by
  rw [read, Parsed.map, readGroups_eq] at h ⊢
  rcases hgroups : (readGroupsBy (Group.readLine ctx) ts).result with cause | groups
  · rw [Parsed.result] at hgroups
    simp [Parsed.result, Outcome.map, Except.map, hgroups] at h
  · exact taken_readGroupsBy_of_ok (fun us => (Group.onLine_readLine hfinish us).le) hgroups

omit hfinish in
/-- **Where a program is given up, a lexeme was taken.** -/
theorem taken_pos_of_error {cause : Report} (h : (read ctx ts).result = .error cause) :
    0 < (read ctx ts).taken := by
  rw [read, Parsed.map, readGroups_eq] at h ⊢
  rcases hgroups : (readGroupsBy (Group.readLine ctx) ts).result with other | groups
  · exact taken_readGroupsBy_of_error (fun _ _ => Group.taken_pos_of_error) hgroups
  · rw [Parsed.result] at hgroups
    simp [Parsed.result, Outcome.map, Except.map, hgroups] at h

end Program

end QuestScript

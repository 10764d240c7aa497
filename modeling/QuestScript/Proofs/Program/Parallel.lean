import QuestScript.Proofs.Program.Correspondence
import QuestScript.Proofs.Statement.Parallel

/-!
Lines and programs are read in step.

A line is read in step where its statements are. A program is read line by line, so its lexemes have
to answer to one another in full; the end of the source only matters where its last line is not
ended by a line break.
-/

namespace QuestScript

open Statement (startsWith continues)

lemma Program.statements_of_renumber {f : Nat → Nat} {p p' : Program}
    (h : p'.groups = p.groups.map (Group.renumber f)) :
    p'.statements = p.statements.map (Statement.renumber f) := by
  rw [statements, statements, h, List.flatMap_map, List.map_flatMap]
  congr 1
  funext g
  obtain ⟨statements, line⟩ := g
  rw [Group.renumber_mk]

namespace Lexeme

/-- Nothing is left open where the list ends: it is empty, or it ends with a line break. -/
def IsEnded (ts : List Lexeme) : Prop := ∀ l ∈ ts.getLast?, l.token = .mark .lineBreak

lemma IsEnded.drop {ts : List Lexeme} (h : IsEnded ts) (n : Nat) : IsEnded (ts.drop n) := by
  intro l hl
  rw [List.getLast?_drop] at hl
  split at hl
  · simp at hl
  · exact h l hl

end Lexeme

namespace Parallel

variable {P : Parallel} {ctx ctx' : Context} {finish finish' l l' : Lexeme}
  {rest rest' ts ts' : List Lexeme} {α β : Type} {R : α → β → Prop}

lemma Outcomes.of_escalate {o : Outcome Report α} {o' : Outcome Report β}
    (h : P.Outcomes R o.escalate o'.escalate) :
    (∃ made made' a b, o = ⟨made, .ok a⟩ ∧ o' = ⟨made', .ok b⟩ ∧ List.Forall₂ P.report made made' ∧
        R a b) ∨
      ∃ made made' cause cause', o = ⟨made, .error cause⟩ ∧ o' = ⟨made', .error cause'⟩ ∧
        List.Forall₂ P.report made made' ∧ P.report cause cause' := by
  rcases o with ⟨made, cause | a⟩ <;> rcases o' with ⟨made', cause' | b⟩ <;>
    simp only [Outcome.escalate, Except.mapError] at h
  · cases h with
    | error hmade h =>
      cases h with
      | aborted h => exact .inr ⟨made, made', cause, cause', rfl, rfl, hmade, h⟩
  · cases h
  · cases h
  · cases h with
    | ok hmade h => exact .inl ⟨made, made', a, b, rfl, rfl, hmade, h⟩

lemma Outcomes.eq_of_escalate (hreport : P.report = Eq) (hline : P.line = id)
    {o o' : Outcome Report Program}
    (h : P.Outcomes (fun p p' => p'.groups = p.groups.map (Group.renumber P.line)) o.escalate
      o'.escalate) : o' = o := by
  have hid : Group.renumber id = id := funext Group.renumber_id
  have hsame {made made' : List Report} (hmade : List.Forall₂ P.report made made') :
      made' = made := by
    rw [hreport, List.forall₂_eq_eq_eq] at hmade
    exact hmade.symm
  rcases h.of_escalate with ⟨made, made', p, p', rfl, rfl, hmade, hgroups⟩ |
    ⟨made, made', cause, cause', rfl, rfl, hmade, hcause⟩
  · rw [hline, hid, List.map_id] at hgroups
    rw [hsame hmade, show p' = p from congrArg Program.mk hgroups]
  · rw [hreport] at hcause
    rw [hsame hmade, hcause]

/-! ### Lines -/

/-- Two lists that go abreast have equally long fronts of tokens of one kind, unless that kind goes
over the end of the line, and they stay abreast behind these fronts. -/
lemma Abreast.takeWhile {p : Lexeme → Bool} (hp : ∀ l l' : Lexeme, l'.token = l.token → p l' = p l)
    (hbreak : ∀ l : Lexeme, l.token = .mark .lineBreak → p l = false)
    (h : P.Abreast finish finish' ts ts') :
    (ts'.takeWhile p).length = (ts.takeWhile p).length ∧
      P.Abreast finish finish' (ts.drop (ts.takeWhile p).length)
        (ts'.drop (ts.takeWhile p).length) := by
  induction h with
  | ended h => exact ⟨rfl, .ended h⟩
  | lineBreak rest rest' hl htoken =>
    rename_i l l'
    have hneg := hbreak l htoken
    simpa [hneg, hp l l' hl.token] using Abreast.lineBreak rest rest' hl htoken
  | @cons l l' rest rest' hl hrest ih =>
    by_cases hpos : p l = true
    · simpa [hpos, hp l l' hl.token] using ih
    · simpa [hpos, hp l l' hl.token] using Abreast.cons hl hrest

lemma statementLength_of_abreast (h : P.Abreast finish finish' ts ts') :
    Lexeme.statementLength ts' = Lexeme.statementLength ts ∧
      P.Abreast finish finish' (ts.drop (Lexeme.statementLength ts))
        (ts'.drop (Lexeme.statementLength ts)) :=
  h.takeWhile (fun l l' heq => by simp [Lexeme.endsStatement, heq])
    fun l hl => by simp [Lexeme.endsStatement, hl]

lemma lineLength_of_abreast (h : P.Abreast finish finish' ts ts') :
    Lexeme.lineLength ts' = Lexeme.lineLength ts ∧
      P.Abreast finish finish' (ts.drop (Lexeme.lineLength ts))
        (ts'.drop (Lexeme.lineLength ts)) :=
  h.takeWhile (fun l l' heq => by simp [heq]) fun l hl => by simp [hl]

lemma Abreast.drop_one {m : Mark} (h : P.Abreast finish finish' ts ts')
    (hm : startsWith m ts = true) (hbreak : m ≠ .lineBreak) :
    P.Abreast finish finish' (ts.drop 1) (ts'.drop 1) := by
  rcases h.cases_on with ⟨rfl, rfl⟩ | ⟨l, l', rest, rest', rfl, rfl, -⟩
  · simp [startsWith] at hm
  · exact h.tail (Statement.ne_lineBreak_of_startsWith hm hbreak)

lemma Parses.report {x : Parsed Refusal α} {y : Parsed Refusal β} {rs rs' : List Report}
    (hrs : List.Forall₂ P.report rs rs') (h : P.Parses finish finish' ts ts' R x y) :
    P.Parses finish finish' ts ts' R (x.report rs) (y.report rs') :=
  ⟨h.outcomes.after hrs, h.taken, h.rest⟩

/-- The lists of statements differ in line numbers only. -/
abbrev Renumbered (P : Parallel) (ss ss' : List Statement) : Prop :=
  ss' = ss.map (Statement.renumber P.line)

lemma restBy_of_abreast {line line' : List Lexeme → Parsed Report (List Statement)}
    (hline : ∀ us us' : List Lexeme, us.length < ts.length → P.Abreast finish finish' us us' →
      P.Parses finish finish' us us' P.Renumbered (line us).escalate (line' us').escalate)
    (h : P.Abreast finish finish' ts ts') :
    P.Parses finish finish' ts ts' P.Renumbered (Group.restBy line ts).escalate
      (Group.restBy line' ts').escalate := by
  obtain ⟨hlength, hmore⟩ := statementLength_of_abreast h
  have hnothing {n : Nat} (hn : P.Abreast finish finish' (ts.drop n) (ts'.drop n)) :
      P.Parses finish finish' ts ts' P.Renumbered ⟨.pure [], n⟩ ⟨.pure [], n⟩ :=
    ⟨.pure rfl, rfl, hn⟩
  -- the separator is no line break, so both lists can be left behind it
  have hafter (hamp : startsWith .ampersand (ts.drop (Lexeme.statementLength ts)) = true) :
      P.Abreast finish finish' (ts.drop (Lexeme.statementLength ts + 1))
        (ts'.drop (Lexeme.statementLength ts + 1)) := by
    have := hmore.drop_one hamp (by simp)
    rwa [List.drop_drop, List.drop_drop] at this
  unfold Group.restBy
  simp only [hlength, continues_of_abreast hmore, startsWith_of_abreast hmore]
  split
  · next hcontinues =>
    have hlen := Group.length_of_continues hcontinues
    refine Parses.after (hline _ _ ?_ (hafter (Group.startsWith_of_continues hcontinues)))
    rw [List.length_drop]
    omega
  · split
    · next hamp => exact hnothing (hafter hamp)
    · exact hnothing hmore

lemma Lawful.trailing (hP : P.Lawful) (h : P.Abreast ctx.finish ctx'.finish ts ts') :
    List.Forall₂ P.report (Group.trailing ctx ts) (Group.trailing ctx' ts') := by
  have hhead : (ts'.head?.any fun l => !l.endsStatement) =
      ts.head?.any fun l => !l.endsStatement := by
    rcases h.cases_on with ⟨rfl, rfl⟩ | ⟨l, l', rest, rest', rfl, rfl, hl⟩
    · rfl
    · simp [Lexeme.endsStatement, hl.token]
  unfold Group.trailing
  rw [hhead]
  split
  · exact .cons (hP.missing h _) .nil
  · exact .nil

variable (h : P.Contexts ctx ctx') (hfinish : ctx.finish.token = .mark .sourceEnd)

include h

lemma Contexts.joined {kept kept' : Option Statement}
    {later later' : Parsed Report (List Statement)}
    (hkept : Option.Rel (fun s s' => s' = s.renumber P.line) kept kept')
    (hlater : P.Parses ctx.finish ctx'.finish ts ts' P.Renumbered later.escalate later'.escalate)
    (hts : P.Abreast ctx.finish ctx'.finish ts ts') :
    P.Parses ctx.finish ctx'.finish ts ts' P.Renumbered (Group.joined ctx ts kept later)
      (Group.joined ctx' ts' kept' later') := by
  unfold Group.joined
  cases hkept with
  | none => exact Parses.report .nil (hlater.map fun ss ss' hss => by simpa using hss)
  | some hs =>
    refine Parses.report (h.lawful.trailing hts) (hlater.map fun ss ss' hss => ?_)
    simp [Renumbered, hs, hss]

include hfinish

/-- **Lines are read in step.** -/
theorem Contexts.readLine (hts : P.Abreast ctx.finish ctx'.finish ts ts') :
    P.Parses ctx.finish ctx'.finish ts ts' P.Renumbered (Group.readLine ctx ts).escalate
      (Group.readLine ctx' ts').escalate := by
  induction hn : ts.length using Nat.strongRecOn generalizing ts ts' with
  | ind n ih =>
  rcases hts.cases_on with ⟨rfl, rfl⟩ | ⟨l, l', rest, rest', rfl, rfl, hl⟩
  · rw [Group.readLine, Group.readLine]
    exact ⟨.ok (.cons (h.lawful.missing hts _) .nil) rfl, rfl, hts⟩
  rw [Group.escalate_readLine, Group.escalate_readLine]
  refine Parses.bind (h.statements hfinish hts).recover fun kept kept' _ hkept hmore => ?_
  generalize (Statement.read ctx (l :: rest)).recover.taken = k at hmore ⊢
  refine h.joined hkept ?_ hmore
  have hnone : kept = none ↔ kept' = none := by cases hkept <;> simp
  simp only [Group.remainder, ← hnone, hl.token]
  split
  · obtain ⟨hlength, hend⟩ := lineLength_of_abreast hmore
    exact ⟨.pure rfl, hlength, hend⟩
  · refine restBy_of_abreast (fun us us' hus hmore => ih us.length ?_ hmore rfl) hmore
    rw [List.length_drop] at hus
    omega

/-! ### Programs -/

omit h hfinish in
/-- The ends of the sources answer to one another, or nothing is seen of them. -/
def Closed (P : Parallel) (finish finish' : Lexeme) (ts : List Lexeme) : Prop :=
  P.Lexemes finish finish' ∨ Lexeme.IsEnded ts

omit h hfinish in
lemma Closed.drop (hts : P.Closed finish finish' ts) (n : Nat) :
    P.Closed finish finish' (ts.drop n) :=
  hts.imp_right (·.drop n)

omit h hfinish in
lemma Closed.abreast (hclosed : P.Closed finish finish' ts) (hts : List.Forall₂ P.Lexemes ts ts')
    (hne : ts ≠ []) : P.Abreast finish finish' ts ts' :=
  hclosed.elim (abreast_of_forall₂ hts) (abreast_of_getLast? hts hne)

omit h hfinish in
lemma groupOfLine_of_renumbered {line line' : Nat} {ss ss' : List Statement}
    (hline : line' = P.line line) (hss : P.Renumbered ss ss') :
    Program.groupOfLine line' ss' = (Program.groupOfLine line ss).map (Group.renumber P.line) := by
  subst hline hss
  cases ss <;> simp [Program.groupOfLine]

/-- **Groups are read in step.** -/
theorem Contexts.readGroups (hfinish' : ctx'.finish.token = .mark .sourceEnd)
    (hts : List.Forall₂ P.Lexemes ts ts') (hclosed : P.Closed ctx.finish ctx'.finish ts) :
    P.Outcomes (fun gs gs' => gs' = gs.map (Group.renumber P.line))
      (Program.readGroups ctx ts).escalate.outcome
      (Program.readGroups ctx' ts').escalate.outcome := by
  rw [Program.readGroups_eq, Program.readGroups_eq]
  induction hn : ts.length using Nat.strongRecOn generalizing ts ts' with
  | ind n ih =>
  rcases hts with _ | ⟨hl, hrest⟩
  · rw [Program.readGroupsBy, Program.readGroupsBy]
    exact .pure rfl
  rename_i l l' rest rest'
  -- an empty line
  by_cases hbreak : l.token = .mark .lineBreak
  · rw [Program.readGroupsBy, Program.readGroupsBy, if_pos hbreak, if_pos (hl.token.trans hbreak)]
    exact ih rest.length (by simp [← hn]) hrest (hclosed.drop 1) rfl
  have hbreak' : l'.token ≠ .mark .lineBreak := hl.token ▸ hbreak
  have hreads := Program.readsLines hfinish
  rw [Program.escalate_readGroupsBy hreads hbreak,
    Program.escalate_readGroupsBy (Program.readsLines hfinish') hbreak',
    Correspondence.outcome_bind, Correspondence.outcome_bind]
  obtain ⟨houtcomes, htaken, -⟩ :=
    h.readLine hfinish (hclosed.abreast (.cons hl hrest) (List.cons_ne_nil l rest))
  rw [htaken]
  -- A line that is read takes at least one lexeme.
  rcases hline : Group.readLine ctx (l :: rest) with ⟨⟨reports, cause | statements⟩, k⟩
  · -- reading is given up on this line
    rw [hline] at houtcomes
    cases hline' : (Group.readLine ctx' (l' :: rest')).escalate.outcome with
    | mk reports' result' =>
      rw [hline'] at houtcomes
      cases houtcomes with
      | error hrs h => exact .error hrs h
  have hpos : 0 < k := by
    have hok : (Group.readLine ctx (l :: rest)).result = .ok statements := by rw [hline]; rfl
    have := hreads.pos hbreak hok
    rwa [hline] at this
  rw [hline] at houtcomes
  refine houtcomes.bind fun ss ss' hss => ?_
  have hlen : ((l :: rest).drop k).length < n := by
    simp only [List.length_drop, List.length_cons] at hn ⊢
    omega
  refine Outcomes.map (ih _ hlen (List.forall₂_drop k (.cons hl hrest)) (hclosed.drop k) rfl)
    fun gs gs' hgs => ?_
  rw [hgs, groupOfLine_of_renumbered (h.lawful.line hl.start) hss, List.map_append]

/-- **Programs are read in step.** -/
theorem Contexts.readProgram (hfinish' : ctx'.finish.token = .mark .sourceEnd)
    (hts : List.Forall₂ P.Lexemes ts ts') (hclosed : P.Closed ctx.finish ctx'.finish ts) :
    P.Outcomes (fun p p' => p'.groups = p.groups.map (Group.renumber P.line))
      (Program.read ctx ts).outcome.escalate (Program.read ctx' ts').outcome.escalate := by
  have hprogram (ctx : Context) (ts : List Lexeme) : (Program.read ctx ts).outcome.escalate =
      (Program.readGroups ctx ts).escalate.outcome.map (⟨·⟩) :=
    congrArg Parsed.outcome (Parsed.escalate_map Program.mk (Program.readGroups ctx ts))
  rw [hprogram, hprogram]
  exact (h.readGroups hfinish hfinish' hts hclosed).map fun gs gs' heq => heq

end Parallel

end QuestScript

import QuestScript.Proofs.Program.Line
import QuestScript.Proofs.Statement.Correspondence

/-!
Readers of programs correspond.

A line is a statement, which may be left out, and what is left of the line behind it. So lines and
programs are put together by the same means as statements, and correspond where statements do.
-/

namespace QuestScript

open Lexeme (Laid reach)

namespace Parsed

variable {α β : Type}

/-- A parse of a program, as part of a statement. -/
def escalate (p : Parsed Report α) : Parsed Refusal α := ⟨p.outcome.escalate, p.taken⟩

/-- Leaves the statement out, if it is refused. -/
def recover (p : Parsed Refusal α) : Parsed Refusal (Option α) := ⟨p.outcome.recover, p.taken⟩

/-- The parse when reports were made before it. -/
def report (rs : List Report) (p : Parsed Refusal α) : Parsed Refusal α :=
  ⟨p.outcome.after rs, p.taken⟩

lemma escalate_map (f : α → β) (p : Parsed Report α) :
    (p.map f).escalate = p.escalate.map f := by
  rcases p with ⟨⟨reports, cause | a⟩, k⟩ <;> rfl

section

variable {rs first : List Report} {n : Nat} {a : α}

@[simp] lemma escalate_ok : escalate ⟨⟨rs, .ok a⟩, n⟩ = ⟨⟨rs, .ok a⟩, n⟩ := rfl

@[simp] lemma escalate_error {cause : Report} :
    (escalate ⟨⟨rs, .error cause⟩, n⟩ : Parsed Refusal α) = ⟨⟨rs, .error (.aborted cause)⟩, n⟩ :=
      rfl

@[simp] lemma recover_ok : recover ⟨⟨rs, .ok a⟩, n⟩ = ⟨⟨rs, .ok (some a)⟩, n⟩ := rfl

@[simp] lemma recover_dropped {report : Report} :
    (recover ⟨⟨rs, .error (.dropped report)⟩, n⟩ : Parsed Refusal (Option α)) =
      ⟨⟨rs ++ [report], .ok none⟩, n⟩ := rfl

@[simp] lemma recover_aborted {cause : Report} :
    (recover ⟨⟨rs, .error (.aborted cause)⟩, n⟩ : Parsed Refusal (Option α)) =
      ⟨⟨rs, .error (.aborted cause)⟩, n⟩ := rfl

@[simp] lemma mk_ok_bind (next : α → Nat → Parsed Refusal β) :
    bind ⟨⟨rs, .ok a⟩, n⟩ next = ⟨(next a n).outcome.after rs, n + (next a n).taken⟩ := rfl

@[simp] lemma mk_error_bind {refusal : Refusal} (next : α → Nat → Parsed Refusal β) :
    bind ⟨⟨rs, .error refusal⟩, n⟩ next = ⟨⟨rs, .error refusal⟩, n⟩ := rfl

@[simp] lemma report_mk {result : Except Refusal α} :
    report first ⟨⟨rs, result⟩, n⟩ = ⟨⟨first ++ rs, result⟩, n⟩ := rfl

end

lemma exists_of_not_isAborted {p : Parsed Report α} (h : ¬p.escalate.outcome.IsAborted) :
    ∃ a, p.result = .ok a := by
  rcases p with ⟨⟨reports, cause | a⟩, n⟩
  · exact absurd ⟨cause, rfl⟩ h
  · exact ⟨a, rfl⟩

end Parsed

/-! ### Lines and programs, put together from statements -/

namespace Group

variable {ctx : Context} {l : Lexeme} {rest : List Lexeme}

/-- A line from a statement, if it was not left out, and what is left of the line behind it. -/
def joined (ctx : Context) (behind : List Lexeme) (kept : Option Statement)
    (later : Parsed Report (List Statement)) : Parsed Refusal (List Statement) :=
  (later.escalate.map (kept.toList ++ ·)).report (if kept.isSome then trailing ctx behind else [])

/-- What is left of a line that starts with the lexeme, behind a statement that may have been left
out. -/
def remainder (ctx : Context) (l : Lexeme) (behind : List Lexeme) (kept : Option Statement) :
    Parsed Report (List Statement) :=
  if kept = none ∧ l.token = .mark .ifWord then ⟨.pure [], Lexeme.lineLength behind⟩
  else readRest ctx behind

lemma escalate_readLine (ctx : Context) (l : Lexeme) (rest : List Lexeme) :
    (readLine ctx (l :: rest)).escalate =
      (Statement.read ctx (l :: rest)).recover.bind fun kept k =>
        joined ctx ((l :: rest).drop k) kept (remainder ctx l ((l :: rest).drop k) kept) := by
  rcases hread : Statement.read ctx (l :: rest) with ⟨⟨first, (report | cause) | s⟩, i⟩
  · by_cases hl : l.token = .mark .ifWord
    · simp [readLine_of_dropped_if hl hread, remainder, hl, joined, Outcome.pure, Outcome.after,
        Parsed.map, Outcome.map, Except.map]
    · rw [readLine_of_dropped hl hread]
      rcases hrest : readRest ctx ((l :: rest).drop i) with ⟨⟨more, cause | later⟩, n⟩ <;>
        simp [remainder, hl, hrest, joined, Outcome.after, Parsed.map, Outcome.map, Except.map]
  · simp [readLine_of_aborted hread]
  · rw [readLine_of_ok hread]
    rcases hrest : readRest ctx ((l :: rest).drop i) with ⟨⟨more, cause | later⟩, n⟩ <;>
      simp [remainder, hrest, joined, Outcome.after, Parsed.map, Outcome.map, Except.map]

end Group

namespace Program

/-- Reads each line to its end. -/
def ReadsLines (line : List Lexeme → Parsed Report (List Statement)) : Prop :=
  ∀ ts statements, (line ts).result = .ok statements → (line ts).taken = Lexeme.lineLength ts

lemma readsLines {ctx : Context} (hfinish : ctx.finish.token = .mark .sourceEnd) :
    ReadsLines (Group.readLine ctx) :=
  fun _ _ h => Group.taken_readLine hfinish h

variable {line : List Lexeme → Parsed Report (List Statement)} {l : Lexeme}

lemma ReadsLines.pos (h : ReadsLines line) (hl : l.token ≠ .mark .lineBreak) {rest : List Lexeme}
    {statements : List Statement} (hline : (line (l :: rest)).result = .ok statements) :
    0 < (line (l :: rest)).taken := by
  rw [h _ _ hline, Lexeme.lineLength_cons hl]
  omega

lemma length_of_readGroupsBy (h : ReadsLines line) {ts : List Lexeme} {groups : List Group}
    (hts : ∀ l ∈ ts, l.token ≠ .mark .lineBreak)
    (hgroups : (readGroupsBy line ts).result = .ok groups) : groups.length ≤ 1 := by
  rcases ts with _ | ⟨l, rest⟩
  · obtain rfl : [] = groups := by
      simpa [readGroupsBy, Parsed.pure, Parsed.result, Outcome.pure] using hgroups
    simp
  rw [readGroupsBy, if_neg (hts l List.mem_cons_self)] at hgroups
  split at hgroups
  · simp [Parsed.result] at hgroups
  · next statements hline =>
    -- the line takes the whole list
    have hall : Lexeme.lineLength (l :: rest) = (l :: rest).length := by
      rw [Lexeme.lineLength, List.takeWhile_eq_self_iff.mpr]
      simpa using hts
    have hnil : rest.drop ((line (l :: rest)).taken - 1) = [] := by
      rw [h _ _ hline, hall, List.length_cons, Nat.add_sub_cancel, List.drop_length]
    simp only [hnil, readGroupsBy] at hgroups
    obtain rfl : groupOfLine l.start.line statements = groups := by
      simpa [Parsed.result, Parsed.pure, Outcome.pure, Outcome.map, Outcome.after, Except.map] using
        hgroups
    unfold groupOfLine
    split <;> simp

lemma escalate_readGroupsBy (h : ReadsLines line) (hl : l.token ≠ .mark .lineBreak)
    (rest : List Lexeme) :
    (readGroupsBy line (l :: rest)).escalate =
      (line (l :: rest)).escalate.bind fun statements k =>
        (readGroupsBy line ((l :: rest).drop k)).escalate.map
          (groupOfLine l.start.line statements ++ ·) := by
  rw [readGroupsBy, if_neg hl]
  rcases hline : line (l :: rest) with ⟨⟨reports, cause | statements⟩, n⟩
  · simp [Parsed.result, Parsed.reports]
  · have hpos := h.pos hl (by rw [hline]; rfl)
    obtain ⟨k, rfl⟩ : ∃ k, n = k + 1 := ⟨n - 1, by rw [hline] at hpos; simp at hpos; omega⟩
    simp only [Parsed.result, Parsed.reports, Nat.add_sub_cancel, Parsed.escalate_ok,
      Parsed.mk_ok_bind, List.drop_succ_cons]
    rcases readGroupsBy line (rest.drop k) with ⟨⟨more, cause | groups⟩, m⟩ <;>
      simp [Outcome.map, Outcome.after, Except.map, Parsed.map]

end Program

namespace Correspondence

variable {C : Correspondence} {α β : Type} {R : α → β → Prop} {lo hi : Position}
  {ts : List Lexeme}

lemma isAborted_recover {o : Outcome Refusal α} : o.recover.IsAborted ↔ o.IsAborted := by
  rcases o with ⟨reports, (report | cause) | a⟩ <;> simp [Outcome.IsAborted, Outcome.recover]

lemma Parses.recover {x : Parsed Refusal α} {y : Parsed Refusal β} (h : C.Parses lo ts R x y) :
    C.Parses lo ts (Option.Rel R) x.recover y.recover :=
  ⟨C.recover h.1, fun hx hy => h.2 (mt isAborted_recover.mpr hx) (mt isAborted_recover.mpr hy)⟩

lemma Parses.report {x : Parsed Refusal α} {y : Parsed Refusal β} {rs : List Report}
    (hrs : ∀ r ∈ rs, r.Harmless) (h : C.Parses lo ts R x y) :
    C.Parses lo ts R (x.report rs) (y.report rs) :=
  ⟨C.after hrs h.1, h.2⟩

/-! ### Lines -/

/-- Statements that are in the relation as groups. -/
def Matching (G : Group → Group → Prop) (statements statements' : List Statement) : Prop :=
  ∀ line, G ⟨statements, line⟩ ⟨statements', line⟩

variable {G : Group → Group → Prop} {ctx ctx' : Context} {l : Lexeme} {rest : List Lexeme}

lemma harmless_trailing (ctx : Context) (behind : List Lexeme) :
    ∀ r ∈ Group.trailing ctx behind, r.Harmless := by
  intro r hr
  unfold Group.trailing at hr
  split at hr
  · obtain rfl := List.mem_singleton.mp hr
    simp [Report.Harmless, Report.missing, Fault.kind]
  · simp at hr

lemma trailing_congr (h : ctx.finish = ctx'.finish) (behind : List Lexeme) :
    Group.trailing ctx behind = Group.trailing ctx' behind := by
  simp [Group.trailing, h]

lemma Contexts.joined (h : C.Contexts G ctx ctx') (hlaid : Laid lo hi ts)
    {kept kept' : Option Statement} {later later' : Parsed Report (List Statement)}
    (hkept : Option.Rel (Statement.Alike G) kept kept')
    (hlater : C.Parses lo ts (Matching G) later.escalate later'.escalate) :
    C.Parses lo ts (Matching G) (Group.joined ctx ts kept later)
      (Group.joined ctx' ts kept' later') := by
  unfold Group.joined
  rw [← trailing_congr h.finish]
  cases hkept with
  | none => exact Parses.report (by simp) (Parses.map hlaid hlater fun _ _ => id)
  | some hs =>
    exact Parses.report (harmless_trailing ctx ts)
      (Parses.map hlaid hlater fun _ _ hmatch line => h.congruent.cons hs (hmatch line))

lemma Parses.nothing (hG : Congruent G) (hlaid : Laid lo hi ts) (n : Nat) :
    C.Parses lo ts (Matching G) (⟨.pure [], n⟩ : Parsed Refusal (List Statement)) ⟨.pure [], n⟩ :=
  Parses.after hlaid (x := .pure []) (y := .pure []) (Parses.pure _ _ hG.nil)

lemma Parses.restBy {line line' : List Lexeme → Parsed Report (List Statement)} (hG : Congruent G)
    (hline : ∀ us : List Lexeme, us.length < ts.length → ∀ lo hi, Laid lo hi us →
      C.Parses lo us (Matching G) (line us).escalate (line' us).escalate)
    (hlaid : Laid lo hi ts) :
    C.Parses lo ts (Matching G) (Group.restBy line ts).escalate
      (Group.restBy line' ts).escalate := by
  unfold Group.restBy
  simp only
  split
  · next hcontinues =>
    have hlen := Group.length_of_continues hcontinues
    refine Parses.after hlaid (hline _ ?_ _ hi (hlaid.drop _))
    rw [List.length_drop]
    omega
  · split <;> exact Parses.nothing hG hlaid _

lemma Contexts.emptyLine (h : C.Contexts G ctx ctx') (hlaid : Laid lo hi []) :
    C.Parses lo [] (Matching G)
      (⟨⟨[.missing .statement ctx.finish []], .ok []⟩, 0⟩ : Parsed Refusal (List Statement))
      ⟨⟨[.missing .statement ctx'.finish []], .ok []⟩, 0⟩ := by
  rw [← h.finish]
  refine Parses.harmless hlaid ⟨fun r hr => ?_, by simp⟩ fun a ha => ?_
  · obtain rfl := List.mem_singleton.mp hr
    simp [Report.Harmless, Report.missing, Fault.kind]
  · obtain rfl := Except.ok.inj ha
    exact h.congruent.nil

/-- Lines are read alike. -/
theorem Contexts.readLine (h : C.Contexts G ctx ctx') (hlaid : Laid lo hi ts) :
    C.Parses lo ts (Matching G) (Group.readLine ctx ts).escalate
      (Group.readLine ctx' ts).escalate := by
  induction hn : ts.length using Nat.strongRecOn generalizing ts lo hi with
  | ind n ih =>
  rcases ts with _ | ⟨l, rest⟩
  · rw [Group.readLine, Group.readLine]
    exact h.emptyLine hlaid
  rw [Group.escalate_readLine, Group.escalate_readLine]
  refine Parses.bind hlaid (h.statements _ hlaid).recover fun kept kept' _ hkept => ?_
  generalize (Statement.read ctx (l :: rest)).recover.taken = k
  have hlaid := hlaid.drop k
  refine h.joined hlaid hkept ?_
  have hnone : kept = none ↔ kept' = none := by cases hkept <;> simp
  simp only [Group.remainder, hnone]
  split
  · exact Parses.nothing h.congruent hlaid _
  · refine Parses.restBy h.congruent (fun us hus lo hi hlaid => ih us.length ?_ hlaid rfl) hlaid
    rw [List.length_drop] at hus
    omega

/-! ### Programs -/

open Program (ReadsLines groupOfLine readGroupsBy)

lemma Congruent.groupOfLine (hG : Congruent G) {statements statements' : List Statement}
    (line : Nat)
    (h : Matching G statements statements') :
    List.Forall₂ G (groupOfLine line statements) (groupOfLine line statements') := by
  unfold Program.groupOfLine
  rw [hG.isEmpty (h line)]
  split
  · exact .nil
  · exact .cons (h line) .nil

/-- Programs correspond where their lines do. -/
theorem Parses.readGroupsBy {line line' : List Lexeme → Parsed Report (List Statement)}
    (hG : Congruent G) (hline : ReadsLines line) (hline' : ReadsLines line')
    (h : ∀ lo hi us, Laid lo hi us →
      C.Parses lo us (Matching G) (line us).escalate (line' us).escalate)
    (hlaid : Laid lo hi ts) :
    C.Parses lo ts (List.Forall₂ G) (readGroupsBy line ts).escalate
      (readGroupsBy line' ts).escalate := by
  induction hn : ts.length using Nat.strongRecOn generalizing ts lo hi with
  | ind n ih =>
  rcases ts with _ | ⟨l, rest⟩
  · rw [Program.readGroupsBy, Program.readGroupsBy]
    exact Parses.pure _ _ .nil
  -- empty lines are passed over
  by_cases hl : l.token = .mark .lineBreak
  · rw [Program.readGroupsBy, Program.readGroupsBy, if_pos hl, if_pos hl]
    exact Parses.after hlaid (ih rest.length (by simp [← hn]) (hlaid.drop 1) rfl)
  · -- both take a line and go on behind it
    rw [Program.escalate_readGroupsBy hline hl, Program.escalate_readGroupsBy hline' hl]
    refine Parses.bind hlaid (h lo hi _ hlaid) fun statements statements' hread hmatch => ?_
    have hlater := hlaid.drop (line (l :: rest)).taken
    have hresult : (line (l :: rest)).result = .ok statements := by
      rcases hline : line (l :: rest) with ⟨⟨reports, cause | kept⟩, k⟩
      · simp [hline, Parsed.result] at hread
      · simpa [hline, Parsed.result] using hread
    have hpos := hline.pos hl hresult
    have hlen : ((l :: rest).drop (line (l :: rest)).taken).length < n := by
      simp only [List.length_drop, List.length_cons] at hn ⊢
      omega
    exact Parses.map hlater (ih _ hlen hlater rfl) fun groups groups' hgroups =>
      List.rel_append (hG.groupOfLine _ hmatch) hgroups

/-- **Programs are read alike** by corresponding contexts. -/
theorem Contexts.program (h : C.Contexts G ctx ctx') (hfinish : ctx.finish.token = .mark .sourceEnd)
    (hlaid : Laid lo hi ts) :
    C.Parses lo ts (fun p p' => List.Forall₂ G p.groups p'.groups) (Program.read ctx ts).escalate
      (Program.read ctx' ts).escalate := by
  have hgroups := Parses.readGroupsBy h.congruent (Program.readsLines hfinish)
    (Program.readsLines (h.finish ▸ hfinish)) (fun _ _ _ => h.readLine) hlaid
  rw [Program.read, Program.read, Parsed.escalate_map, Parsed.escalate_map, Program.readGroups_eq,
    Program.readGroups_eq]
  exact Parses.map hlaid hgroups fun _ _ => id

end Correspondence

end QuestScript

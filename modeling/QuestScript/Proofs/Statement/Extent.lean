import Mathlib.Data.List.TakeWhile
import QuestScript.Proofs.Expr.Extent

/-!
What statements and lines take.

Statements take no line breaks, also when they fail. So a line takes all its lexemes up to the next
line break and nothing behind it, whatever is wrong with it, unless reading is given up.
-/

namespace QuestScript

/-- The parse of a list takes only lexemes of the list, and none of those is a line break. -/
def Parsed.OnLine {ε α : Type} (ts : List Lexeme) (p : Parsed ε α) : Prop :=
  Lexeme.Takes (fun l => l.token ≠ .mark .lineBreak) p.taken ts

/-- The parse of a list takes only lexemes of the list, and those may stand in a value. -/
def Parsed.Inside {ε α : Type} (ts : List Lexeme) (p : Parsed ε α) : Prop :=
  Lexeme.Takes (fun l => Expr.admits l.token = true) p.taken ts

namespace Parsed

variable {ε α β : Type} {p : Parsed ε α} {ts rest : List Lexeme} {l : Lexeme}

lemma Inside.after (hl : Expr.admits l.token = true) (h : p.Inside rest) :
    (p.after 1).Inside (l :: rest) := .cons hl h

lemma inside_one {o : Outcome ε α} (hl : Expr.admits l.token = true) :
    (⟨o, 1⟩ : Parsed ε α).Inside (l :: rest) :=
  Inside.after (p := ⟨o, 0⟩) hl .zero

lemma Inside.onLine (h : p.Inside ts) : p.OnLine ts := by
  refine ⟨h.le, fun l hl hbreak => ?_⟩
  have := h.forall_mem l hl
  simp [hbreak, Expr.admits, Expr.endsValue] at this

lemma onLine_of_taken (h : p.taken = 0) : p.OnLine ts := by
  rw [OnLine, h]
  exact .zero

lemma OnLine.after (hl : l.token ≠ .mark .lineBreak) (h : p.OnLine rest) :
    (p.after 1).OnLine (l :: rest) := .cons hl h

lemma OnLine.map (h : p.OnLine ts) (f : α → β) : (p.map f).OnLine ts := h

lemma OnLine.bind {next : α → Nat → Parsed ε β} (h : p.OnLine ts)
    (hnext : ∀ a, p.result = .ok a → (next a p.taken).OnLine (ts.drop p.taken)) :
    (p.bind next).OnLine ts := by
  rcases hp : p.result with e | a
  · rw [bind_of_error hp]
    exact h
  · rw [bind_of_ok hp]
    exact .append h (hnext a hp)

end Parsed

namespace Statement

open Parsed (onLine_of_taken inside_one)

variable {ctx : Context} {ts rest : List Lexeme} {l : Lexeme}

lemma ne_lineBreak_of_startsWith {m : Mark} (h : startsWith m (l :: rest) = true)
    (hm : m ≠ .lineBreak) : l.token ≠ .mark .lineBreak := by
  obtain hl : l.token = .mark m := by simpa [startsWith] using h
  simpa [hl] using hm

lemma onLine_after_of_startsWith {α : Type} {m : Mark} {p : Parsed Refusal α}
    (h : startsWith m ts = true) (hm : m ≠ .lineBreak) (hp : p.OnLine (ts.drop 1)) :
    (p.after 1).OnLine ts := by
  rcases ts with _ | ⟨l, rest⟩
  · simp [startsWith] at h
  · exact hp.after (ne_lineBreak_of_startsWith h hm)

lemma taken_lift {α : Type} (ctx : Context) (ts : List Lexeme) (r : Reading α) :
    (ctx.lift ts r).taken = r.taken := by
  unfold Context.lift
  split <;> rfl

lemma inside_lift {α : Type} {r : Reading α} (h : r.Inside ts) : (ctx.lift ts r).Inside ts := by
  rw [Parsed.Inside, taken_lift]
  exact h

lemma inside_readVariable (make : Option String → Statement) (ts : List Lexeme) :
    (readVariable make ts).Inside ts := by
  unfold readVariable
  split
  · split
    · next hname => exact inside_one (by simp [hname, Expr.admits])
    · exact .zero
  · exact .zero

lemma inside_readAssignment (hfinish : ctx.finish.token = .mark .sourceEnd) (name : String)
    (ts : List Lexeme) : (readAssignment ctx name ts).Inside ts := by
  unfold readAssignment
  simp only
  split
  · next heq =>
    rcases ts with _ | ⟨l, rest⟩
    · simp [hfinish] at heq
    · have hl : l.token = .mark .equal := by simpa using heq
      exact Parsed.Inside.after (Expr.admits_of_mark hl rfl) (inside_lift (Expr.inside_read rest))
  · exact .zero

lemma inside_readSimple (hfinish : ctx.finish.token = .mark .sourceEnd) (l : Lexeme)
    (rest : List Lexeme) : (readSimple ctx l rest).Inside (l :: rest) := by
  have hmark {m : Mark} (hl : l.token = .mark m) (hm : Expr.endsValue m = false) :
      Expr.admits l.token = true := Expr.admits_of_mark hl hm
  unfold readSimple
  split
  · next hl => exact (inside_readAssignment hfinish _ rest).after (by simp [hl, Expr.admits])
  · next hl => exact inside_one (by simp [hl, Expr.admits])
  · next hl => exact inside_one (hmark hl rfl)
  · next hl => exact inside_one (hmark hl rfl)
  · next hl => exact inside_one (hmark hl rfl)
  · next hl => exact inside_one (hmark hl rfl)
  · next hl => exact (inside_readVariable _ rest).after (hmark hl rfl)
  · next hl => exact (inside_readVariable _ rest).after (hmark hl rfl)
  · next hl =>
    exact Parsed.Inside.after (hmark hl rfl) (inside_lift (NumberExpr.inside_read rest))
  · exact .zero

lemma taken_of_takeThen {u : Unit} (h : (takeThen ctx ts).result = .ok u) :
    startsWith .thenWord ts = true ∧ (takeThen ctx ts).taken = 1 := by
  unfold takeThen at h ⊢
  split
  · next hthen => exact ⟨hthen, rfl⟩
  · next hthen => simp [hthen, Parsed.result, Outcome.fail] at h

lemma onLine_takeThen (ctx : Context) (ts : List Lexeme) : (takeThen ctx ts).OnLine ts := by
  unfold takeThen
  split
  · next hthen =>
    exact onLine_after_of_startsWith (p := .pure ()) hthen (by simp) (onLine_of_taken rfl)
  · exact onLine_of_taken rfl

lemma onLine_readConditional {line : Nat}
    (hgroup : ∀ n, (readGroup ctx line (ts.drop (n + 1))).OnLine (ts.drop (n + 1))) :
    (readConditional ctx line ts).OnLine ts := by
  rw [readConditional]
  refine (inside_lift (BoolExpr.inside_read ts)).onLine.bind fun condition _ => ?_
  generalize (ctx.lift ts (BoolExpr.read ts)).taken = k
  refine (onLine_takeThen ctx _).bind fun _ hthen => ?_
  rw [(taken_of_takeThen hthen).2, List.drop_drop]
  refine (hgroup _).bind fun thenGroup _ => ?_
  rw [List.drop_drop]
  split
  · next helse =>
    refine onLine_after_of_startsWith helse (by simp) (Parsed.OnLine.map ?_ _)
    rw [List.drop_drop]
    exact hgroup _
  · exact onLine_of_taken rfl

/-- **Statements stay on their line.** Reading a statement takes no line break. -/
theorem onLine_read (hfinish : ctx.finish.token = .mark .sourceEnd) (ts : List Lexeme) :
    (read ctx ts).OnLine ts := by
  refine (read.mutual_induct (fun ts => (read ctx ts).OnLine ts)
    (fun line ts => (readConditional ctx line ts).OnLine ts)
    (fun line ts => (readGroup ctx line ts).OnLine ts) (fun ts => (readChain ctx ts).OnLine ts)
    ?nothing ?conditional ?simple ?branches ?group ?chain).1 ts
  case nothing =>
    rw [read]
    exact onLine_of_taken rfl
  case conditional =>
    intro l rest hl hconditional
    rw [read, if_pos hl]
    exact hconditional.after (by simp [hl])
  case simple =>
    intro l rest hl
    rw [read, if_neg hl]
    exact (inside_readSimple hfinish l rest).onLine
  case branches =>
    intro line ts hgroup _
    exact onLine_readConditional hgroup
  case group =>
    intro line ts hchain
    rw [readGroup]
    exact hchain.map _
  case chain =>
    intro ts hread hchain
    rw [readChain]
    refine hread.bind fun s _ => ?_
    rcases ts with _ | ⟨l, rest⟩
    · exact onLine_of_taken rfl
    · simp only
      split
      · -- behind an ampersand, which stays on the line
        next hcontinues =>
        refine onLine_after_of_startsWith (Group.startsWith_of_continues hcontinues) (by simp) ?_
        rw [List.drop_drop, List.drop_succ_cons]
        exact (hchain _).map _
      · exact onLine_of_taken rfl

end Statement

/-! ### Lines -/

namespace Lexeme

variable {ts : List Lexeme}

lemma lineLength_of_take {k : Nat} (h : ∀ l ∈ ts.take k, l.token ≠ .mark .lineBreak)
    (hk : k ≤ ts.length) : lineLength ts = k + lineLength (ts.drop k) := by
  conv_lhs => rw [← List.take_append_drop k ts]
  rw [lineLength, List.takeWhile_append_of_pos (by simpa using h), List.length_append,
    List.length_take, Nat.min_eq_left hk, lineLength]

lemma take_statementLength (ts : List Lexeme) :
    ∀ l ∈ ts.take (statementLength ts), l.endsStatement = false := by
  intro l hl
  rw [statementLength, ← List.prefix_iff_eq_take.mp (List.takeWhile_prefix _)] at hl
  simpa using List.mem_takeWhile_imp hl

lemma statementLength_le (ts : List Lexeme) : statementLength ts ≤ ts.length :=
  (List.takeWhile_prefix _).length_le

lemma endsStatement_of_mem_head? {l : Lexeme}
    (h : l ∈ (ts.drop (statementLength ts)).head?) : l.endsStatement = true := by
  simpa using not_of_mem_head?_dropWhile h

lemma lineLength_cons {l : Lexeme} {rest : List Lexeme} (h : l.token ≠ .mark .lineBreak) :
    lineLength (l :: rest) = lineLength rest + 1 := by
  simp [lineLength, h]

lemma lineLength_eq_zero (h : ∀ l ∈ ts.head?, l.token = .mark .lineBreak) : lineLength ts = 0 := by
  cases ts with
  | nil => rfl
  | cons l rest => simp [lineLength, h l rfl]

end Lexeme

namespace Group

open Statement (startsWith continues)

variable {ctx : Context} {ts : List Lexeme}

lemma taken_restBy {line : List Lexeme → Parsed Report (List Statement)} {behind : List Lexeme}
    {later : List Statement}
    (hline : ∀ us statements, us.length < behind.length →
      (line us).result = .ok statements → (line us).taken = Lexeme.lineLength us)
    (h : (restBy line behind).result = .ok later) :
    (restBy line behind).taken = Lexeme.lineLength behind := by
  have hlength := Lexeme.lineLength_of_take
    (fun l hl => fun hbreak => by
      simpa [Lexeme.endsStatement, hbreak] using Lexeme.take_statementLength behind l hl)
    (Lexeme.statementLength_le behind)
  rcases hdrop : behind.drop (Lexeme.statementLength behind) with _ | ⟨l, tail⟩
  · -- the line ends with the list
    rw [hlength, hdrop]
    simp [restBy, hdrop, continues, startsWith, Lexeme.lineLength]
  have hends : l.endsStatement = true :=
    Lexeme.endsStatement_of_mem_head?
      (show l ∈ (behind.drop (Lexeme.statementLength behind)).head? by rw [hdrop]; rfl)
  have htail : behind.drop (Lexeme.statementLength behind + 1) = tail := by
    rw [← List.drop_drop, hdrop, List.drop_one, List.tail_cons]
  rw [hlength, hdrop]
  unfold restBy at h ⊢
  simp only [hdrop, htail] at h ⊢
  by_cases hcontinues : continues (l :: tail) = true
  · -- the line goes on behind an ampersand
    have hl : l.token = .mark .ampersand := by
      simpa [startsWith] using startsWith_of_continues hcontinues
    have hlen := congrArg List.length hdrop
    rw [if_pos hcontinues] at h ⊢
    rw [Parsed.after, hline tail later (by simp at hlen; omega) h,
      Lexeme.lineLength_cons (by simp [hl]), Nat.add_assoc, Nat.add_comm 1]
  by_cases hamp : l.token = .mark .ampersand
  · -- an ampersand ends the line
    have hend : ∀ r ∈ tail.head?, r.token = .mark .lineBreak := by
      rcases tail with _ | ⟨r, tail⟩
      · simp
      · simpa [continues, startsWith, hamp] using hcontinues
    rw [if_neg hcontinues, if_pos (by simp [startsWith, hamp]),
      Lexeme.lineLength_cons (by simp [hamp]), Lexeme.lineLength_eq_zero hend]
  · -- a line break ends it
    have hbreak : l.token = .mark .lineBreak := by
      simpa [Lexeme.endsStatement, hamp] using hends
    rw [if_neg hcontinues, if_neg (by simp [startsWith, hamp]),
      Lexeme.lineLength_eq_zero (by simp [hbreak])]
    rfl

/-- **A line is read to its end**, and not further. -/
theorem taken_readLine {statements : List Statement} (hfinish : ctx.finish.token = .mark .sourceEnd)
    (h : (readLine ctx ts).result = .ok statements) :
    (readLine ctx ts).taken = Lexeme.lineLength ts := by
  induction hn : ts.length using Nat.strongRecOn generalizing ts statements with
  | ind n ih =>
  rcases ts with _ | ⟨l, rest⟩
  · simp [readLine, Lexeme.lineLength]
  have hstay := Statement.onLine_read hfinish (l :: rest)
  have hlength := Lexeme.lineLength_of_take hstay.forall_mem hstay.le
  have hrest {i : Nat} {later : List Statement}
      (hlater : (readRest ctx ((l :: rest).drop i)).result = .ok later) :
      (readRest ctx ((l :: rest).drop i)).taken = Lexeme.lineLength ((l :: rest).drop i) := by
    refine taken_restBy (fun us statements hus hline => ih us.length ?_ hline rfl) hlater
    rw [List.length_drop] at hus
    omega
  rcases hread : Statement.read ctx (l :: rest) with ⟨⟨first, (report | cause) | s⟩, i⟩
  · -- a broken conditional takes the whole line, other statements leave the rest
    rw [hread] at hlength
    by_cases hl : l.token = .mark .ifWord
    · rw [readLine_of_dropped_if hl hread, hlength]
    · rw [readLine_of_dropped hl hread] at h ⊢
      simp only [hrest h, hlength]
  · simp [readLine_of_aborted hread, Parsed.result] at h
  · rw [hread] at hlength
    rw [readLine_of_ok hread] at h ⊢
    rcases hlater : (readRest ctx ((l :: rest).drop i)).result with cause | later
    · rw [Parsed.result] at hlater
      simp [Parsed.result, Outcome.map, Outcome.after, Except.map, hlater] at h
    · simp only [hrest hlater, hlength]

end Group

end QuestScript

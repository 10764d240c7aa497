import QuestScript.Proofs.Action.Shorter
import QuestScript.Proofs.Program.Progress

/-!
Runs come to an end and move on.

A parser stands in front of some token of its list, or at the end. A run takes it on from there
(`StandsAt.run`), and to the end if a program is read. A run that is given up takes a token at
least, so a list is given up as often as it has tokens, at most (`add_le_of_errors`).
-/

namespace QuestScript.Parser

open Lexeme (untilEnd)

/-- How many tokens a run takes. -/
def taken (p : Parser) : Nat := (Program.read p.context p.ahead).taken

/-- The parser after so many runs. -/
def after (p : Parser) : Nat → Parser
  | 0 => p
  | k + 1 => (p.after k).run.2

/-- So many tokens of the list are behind the parser, and none of them is the end. -/
structure StandsAt (p : Parser) (ts : List Lexeme) (n : Nat) : Prop where
  le : n ≤ (untilEnd ts).1.length
  ahead : p.ahead = (untilEnd ts).1.drop n
  finish : p.finish = (untilEnd ts).2

/-- What a run does from there: it moves on inside the list. If it reads a program, it moves to the
end, and there is no more to read or to report. If it is given up, it has moved. -/
structure Progresses (p : Parser) (ts : List Lexeme) (n : Nat) : Prop where
  stands : p.StandsAt ts n
  moves : p.run.2.StandsAt ts (n + p.taken)
  ok : ∀ program, p.run.1 = .ok program → n + p.taken = (untilEnd ts).1.length ∧
    ∀ k, (p.run.2.after k).run = (.ok ⟨[]⟩, p.run.2)
  error : ∀ cause, p.run.1 = .error cause → 0 < p.taken

variable {ts : List Lexeme} {options : Options} {p : Parser} {n : Nat}

/-! ### At the end -/

lemma run_of_nil (h : p.ahead = []) : p.run = (.ok ⟨[]⟩, p) := by
  rcases p with ⟨options, ahead, finish, reports⟩
  obtain rfl : ahead = [] := h
  simp [run, Program.read, Program.readGroups, Parsed.map, Parsed.pure, Parsed.result,
    Parsed.reports, Outcome.map, Outcome.pure, Except.map]

lemma after_of_nil (h : p.ahead = []) (k : Nat) : p.after k = p := by
  induction k with
  | zero => rfl
  | succ k ih => rw [after, ih, run_of_nil h]

/-! ### Moving on -/

lemma standsAt_ofLexemes (ts : List Lexeme) (options : Options) :
    (ofLexemes ts options).StandsAt ts 0 :=
  ⟨Nat.zero_le _, rfl, rfl⟩

namespace StandsAt

lemma token_finish (h : p.StandsAt ts n) : p.context.finish.token = .mark .sourceEnd := by
  rw [context, h.finish]
  exact Lexeme.token_untilEnd ts

lemma run (h : p.StandsAt ts n) : p.run.2.StandsAt ts (n + p.taken) := by
  have htaken : p.taken ≤ p.ahead.length := Program.taken_read_le h.token_finish p.ahead
  refine ⟨?_, ?_, h.finish⟩
  · rw [h.ahead, List.length_drop] at htaken
    have := h.le
    omega
  · rw [← List.drop_drop, ← h.ahead]
    rfl

/-- **Every run progresses.** -/
theorem progresses (h : p.StandsAt ts n) : p.Progresses ts n where
  stands := h
  moves := h.run
  ok program hok := by
    have htaken : p.taken = p.ahead.length := Program.taken_read_of_ok h.token_finish hok
    have hend : n + p.taken = (untilEnd ts).1.length := by
      rw [htaken, h.ahead, List.length_drop]
      exact Nat.add_sub_of_le h.le
    have hnil : p.run.2.ahead = [] := by rw [h.run.ahead, hend, List.drop_length]
    exact ⟨hend, fun k => by rw [after_of_nil hnil, run_of_nil hnil]⟩
  error _ herror := Program.taken_pos_of_error herror

end StandsAt

lemma exists_standsAt_after (ts : List Lexeme) (options : Options) (k : Nat) :
    ∃ n, ((ofLexemes ts options).after k).StandsAt ts n := by
  induction k with
  | zero => exact ⟨0, standsAt_ofLexemes ts options⟩
  | succ k ih =>
    obtain ⟨n, h⟩ := ih
    exact ⟨_, h.run⟩

lemma add_le_of_errors {k m : Nat} (hstands : ((ofLexemes ts options).after k).StandsAt ts n)
    (h : ∀ i < m, ∃ cause, ((ofLexemes ts options).after (k + i)).run.1 = .error cause) :
    n + m ≤ (untilEnd ts).1.length := by
  induction m generalizing k n with
  | zero => exact hstands.le
  | succ m ih =>
    obtain ⟨cause, hcause⟩ := h 0 (Nat.succ_pos m)
    have hpos := hstands.progresses.error cause hcause
    have hrest := ih (k := k + 1) hstands.run fun i hi => by
      simpa [Nat.add_assoc, Nat.add_comm 1] using h (i + 1) (by omega)
    omega

/-- **Parsing comes to an end and moves on.** However often a parser was run before, a run stays in
front of the end of the list, stands there if it reads a program, and has moved if it is given up,
so it is given up as often in a row as there are tokens, at most. An action is read by reading
shorter ones only, so that reading comes to an end whatever the limit on nesting is. -/
theorem run_progresses (ts : List Lexeme) (options : Options) :
    (∀ k, ∃ n, ((ofLexemes ts options).after k).Progresses ts n) ∧
      (∀ k m, (∀ i < m, ∃ cause, ((ofLexemes ts options).after (k + i)).run.1 = .error cause) →
        m ≤ (untilEnd ts).1.length) ∧
      ∀ other budget place text, Action.read options budget place text =
        Action.readShorter other options budget place text := by
  refine ⟨fun k => ?_, fun k m h => ?_, fun other budget place text => ?_⟩
  · obtain ⟨n, h⟩ := exists_standsAt_after ts options k
    exact ⟨n, h.progresses⟩
  · obtain ⟨n, hstands⟩ := exists_standsAt_after ts options k
    exact (Nat.le_add_left m n).trans (add_le_of_errors hstands h)
  · exact Action.read_eq_readShorter other options budget place text

/-- Two texts in a list without an end, with a line break in one of them. -/
def Sample.unended : List Lexeme :=
  [⟨.payload (.print false) "##x$", "", .start⟩, ⟨.payload (.print true) "a\n##y$", "", .start⟩]

/-- A list that is given up at each of its tokens. -/
theorem run_progresses_sample :
    ((∀ i < 2, ∃ cause, ((ofLexemes Sample.unended {}).after (0 + i)).run.1 = .error cause) ∧
        2 ≤ (untilEnd Sample.unended).1.length) ∧
      ∃ n, ((ofLexemes Sample.unended {}).after 2).Progresses Sample.unended n := by
  have hgivenUp : ∀ i < 2, ((ofLexemes Sample.unended {}).after (0 + i)).run.1.toBool = false := by
    decide +kernel
  have herrors (i : Nat) (hi : i < 2) :
      ∃ cause, ((ofLexemes Sample.unended {}).after (0 + i)).run.1 = .error cause := by
    have hfalse := hgivenUp i hi
    rcases hrun : ((ofLexemes Sample.unended {}).after (0 + i)).run.1 with cause | program
    · exact ⟨cause, rfl⟩
    · rw [hrun] at hfalse
      simp [Except.toBool] at hfalse
  obtain ⟨hprogresses, hbound, -⟩ := run_progresses Sample.unended {}
  exact ⟨⟨herrors, hbound 0 2 herrors⟩, hprogresses 2⟩

end QuestScript.Parser

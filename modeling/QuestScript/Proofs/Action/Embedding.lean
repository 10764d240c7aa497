import QuestScript.Proofs.Parallel.Embedding
import QuestScript.Proofs.Report

/-!
Actions mean what their texts mean.

An action in a link or button is read as its text is by itself, as quest source: with the levels of
nesting that are left inside it, and with every report moved to where the action stands.
-/

namespace QuestScript

open Lexeme (untilEnd)

namespace Action

variable {options : Options} {depth : Nat} {text : List Char}

/-- **An action means what its text means as a program.** It makes the reports of that program,
moved to where the action stands; it is given up where the program is, for the same cause; and
otherwise it is all the statements of the program as one group on the line of the action, or left
out if there are none. The program has as many levels of nesting as are left inside the action. -/
theorem read_eq_parse (place : Position) (hdepth : depth < options.maxNesting)
    (hline : '\n' ∉ text) (htarget : target? text = none) :
    ∃ reports,
      match parse (String.ofList text) ⟨options.maxNesting - depth - 1, options.policy⟩ with
      | .ok out =>
        reports.Perm (out.reports.map (Report.moved place fun _ => options.maxNesting)) ∧
          read options (options.maxNesting - depth) place text =
            if out.program.statements = [] then
              ⟨reports, .error (.dropped ⟨.emptyAction (String.ofList text), place⟩)⟩
            else
              ⟨reports, .ok ⟨out.program.statements.map (Statement.renumber fun _ => place.line),
                place.line⟩⟩
      | .error abort =>
        reports.Perm (abort.reports.map (Report.moved place fun _ => options.maxNesting)) ∧
          read options (options.maxNesting - depth) place text =
            ⟨reports, .error (.aborted (abort.cause.moved place fun _ => options.maxNesting))⟩ := by
  obtain ⟨n, hn⟩ : ∃ n, options.maxNesting - depth = n + 1 := ⟨_, (Nat.succ_pred (by omega)).symm⟩
  let P := Parallel.embedding place (fun _ => options.maxNesting) fun _ => place.line
  have hlawful : P.Lawful := Parallel.lawful_embedding _ _ _
  have htext : P.text .start place text := ⟨rfl, Position.isCounted_start, rfl, hline⟩
  have hlimits : P.Limits ⟨n, options.policy⟩ options :=
    ⟨hlawful, rfl, fun h => by obtain ⟨rfl, -⟩ := h; rfl⟩
  have hscanned := eq_map_of_forall₂ (hlawful.reports htext)
  have houtcomes := hlimits.program n (hlawful.lexemes htext)
  have htokens : (tokenize (String.ofList text)).2 = (Scan.read .fresh .start text).reports := by
    rw [tokenize, String.toList_ofList]
  -- Sorting the reports of the program keeps all of them.
  have hperm {made made' : List Report} (hmade : List.Forall₂ P.report made made') :
      ((Scan.read .fresh .start text).reports.map
          (Report.moved place fun _ => options.maxNesting) ++
        made').Perm ((Report.sort ((tokenize (String.ofList text)).2 ++ made)).map
          (Report.moved place fun _ => options.maxNesting)) := by
    rw [eq_map_of_forall₂ hmade, htokens, ← List.map_append]
    exact ((Report.sort_perm _).map _).symm
  rw [hn, Nat.add_sub_cancel, parse_eq_program, String.toList_ofList, read_succ n htarget, hscanned]
  rcases houtcomes.of_escalate with ⟨made, made', p, p', hp, hp', hmade, hgroups⟩ |
    ⟨made, made', cause, cause', hcause, hcause', hmade, hmoved⟩
  · -- the text by itself is a program, and so is the one at the place
    have hstatements : p'.statements = p.statements.map (Statement.renumber fun _ => place.line) :=
      Program.statements_of_renumber hgroups
    refine ⟨(Scan.read .fresh .start text).reports.map (Report.moved place fun _ =>
      options.maxNesting) ++ made', ?_⟩
    simp only [Parsed.result, Parsed.reports, hp, hp']
    refine ⟨hperm hmade, ?_⟩
    by_cases hnil : p.statements = []
    · simp [ofProgram, hstatements, hnil]
    · rw [if_neg hnil, ofProgram]
      simp [hstatements, hnil]
  · -- both are given up
    refine ⟨(Scan.read .fresh .start text).reports.map (Report.moved place fun _ =>
      options.maxNesting) ++ made', ?_⟩
    simp only [Parsed.result, Parsed.reports, hcause, hcause']
    exact ⟨hperm hmade, by rw [ofProgram, hmoved]⟩

/-- An action inside another one, with a character and a token that do not belong there. -/
theorem read_eq_parse_sample :
    ∃ reports, reports.Perm
        [⟨.unexpectedToken .separator (.mark .rightParen) none, ⟨3, 11⟩⟩,
          ⟨.unexpectedCharacter '?', ⟨3, 15⟩⟩] ∧
      read ⟨16, .abort⟩ 15 ⟨3, 7⟩ "end ) & ? if a then goto b".toList =
        ⟨reports, .ok ⟨[.finish, .conditional (.var "a") ⟨[.goto "b"], 3⟩ none], 3⟩⟩ := by
  have hparse : parse "end ) & ? if a then goto b" ⟨14, .abort⟩ =
      .ok ⟨⟨[⟨[.finish, .conditional (.var "a") ⟨[.goto "b"], 1⟩ none], 1⟩]⟩,
        [⟨.unexpectedToken .separator (.mark .rightParen) none, ⟨1, 5⟩⟩,
          ⟨.unexpectedCharacter '?', ⟨1, 9⟩⟩]⟩ := by decide +kernel
  obtain ⟨reports, h⟩ := @read_eq_parse ⟨16, .abort⟩ 1 "end ) & ? if a then goto b".toList ⟨3, 7⟩
    (by decide) (by decide) (by decide)
  rw [String.ofList_toList, show 16 - 1 - 1 = 14 from rfl, hparse] at h
  exact ⟨reports, h.1, h.2.trans (by rfl)⟩

end Action

end QuestScript

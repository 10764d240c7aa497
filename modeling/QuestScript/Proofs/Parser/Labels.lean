import QuestScript.Proofs.Parser.Composition
import QuestScript.Proofs.Program.Labels

/-!
The labels of a source.

Every colon that begins a line is a label of the program, on that line, if a name stands behind it.
Nothing that is wrong elsewhere in the source takes a label away, and the search for a label finds
the first one with its name.
-/

namespace QuestScript.Parser

/-- **Labels are always found, at the right line.** The groups of a source that is read stand on
later and later lines. A label has no statement of its group in front of it. The labels of the
program are those among the tokens of the source, in order, and each stands on the line of its
colon. The line of a name is that of the first label with the name, in any ASCII case. -/
theorem parse_labels {source : String} {options : Options} {out : Output}
    (h : parse source options = .ok out) :
    out.program.groups.Pairwise (fun g g' => g.line < g'.line) ∧
    (∀ g ∈ out.program.groups, ∀ front name back,
      g.statements = front ++ .label name :: back → front = []) ∧
    out.program.labels = (tokenize source).1.filterMap Lexeme.label? ∧
    (∀ l ∈ (tokenize source).1, ∀ label ∈ l.label?, ∃ front back,
      source.toList = front ++ ':' :: back ∧
      l.start = .ofOffset source.toList front.length ∧ label.2 = l.start.line) ∧
    ∀ name line, out.program.labelLine? name = some line ↔
      ∃ front label back, out.program.labels = front ++ (label, line) :: back ∧
        Text.sameAsciiLetters label.toList name.toList = true ∧
        ∀ entry ∈ front, Text.sameAsciiLetters entry.1.toList name.toList = false := by
  obtain ⟨made, hprogram, -⟩ := parse_eq_ok_iff.mp h
  obtain ⟨ts, hts, hfree⟩ := Scan.exists_lexemes_eq .fresh .start source.toList
  rw [Action.program_eq options _ hts hfree rfl] at hprogram
  obtain ⟨groups, hgroups, hp⟩ := Outcome.map_eq_ok.mp hprogram
  have hp' : out.program.groups = groups := by rw [← hp]
  -- the order and the shape of the tokens carry over to the groups
  have hshaped := Scan.shaped_read .fresh .start source.toList
  rw [hts] at hshaped
  have hstarts := Scan.pairwise_start .fresh .start source.toList
  have hlines := Scan.pairwise_lexemes .fresh .start source.toList
  have hsublist : ts.Sublist (Scan.read .fresh .start source.toList).lexemes :=
    hts ▸ List.sublist_append_left ts _
  obtain ⟨hlabels, hbegin⟩ := Program.labels_of_readGroups rfl hshaped.left hgroups
  obtain ⟨hpairwise, -⟩ := Program.pairwise_line_of_readGroups rfl (hstarts.sublist hsublist)
    (hlines.sublist hsublist) hgroups
  rw [← hp'] at hlabels hbegin hpairwise
  refine ⟨hpairwise, hbegin, ?_, fun l hl label hlabel => ?_,
    fun name line => Program.labelLine?_eq_some_iff hbegin⟩
  · -- the labels are those of the tokens
    rw [Program.labels, hlabels, tokenize, hts, List.filterMap_append]
    exact (List.append_nil _).symm
  · -- each of them stands where its colon is
    obtain ⟨name, hname, rfl⟩ := Option.map_eq_some_iff.mp (Option.mem_def.mp hlabel)
    obtain ⟨text, htoken⟩ := Lexeme.exists_of_labelName? hname
    obtain ⟨front, back, hsource, hstart⟩ := Scan.exists_colon_of_label hl htoken
    refine ⟨front, back, hsource, ?_, rfl⟩
    rw [hstart, Position.advance_start_left front (':' :: back), ← hsource]

/-- Labels behind a broken line, an empty line, a line without statements and a comment that spans
lines. The colon in the middle of a line begins no label. -/
theorem labelLine?_sample :
    ∃ out, parse "?

:Start & goto End :x
/*
*/:  
:end" = .ok out ∧
      out.program.labels = [("Start", 3), ("end", 6)] ∧ out.program.labelLine? "END" = some 6 := by
  have h : parse "?

:Start & goto End :x
/*
*/:  
:end" =
      .ok ⟨⟨[⟨[.label "Start", .goto "End :x"], 3⟩, ⟨[.label "end"], 6⟩]⟩,
        [⟨.unexpectedCharacter '?', ⟨1, 1⟩⟩, ⟨.blankName .labelName, ⟨5, 3⟩⟩]⟩ := by
    decide +kernel
  refine ⟨_, h, rfl, ((parse_labels h).2.2.2.2 "END" 6).mpr ⟨[("Start", 3)], "end", [], rfl, ?_⟩⟩
  decide

end QuestScript.Parser

import QuestScript.Proofs.Parallel.Embedding
import QuestScript.Proofs.Parser.Pointing
import QuestScript.Proofs.Program.Composition

/-!
Sources one after another.

A source that is no string or comment is left open in can be read by itself: its groups and reports
are the same in front of another source, and those of the other source are only moved down. So
nothing that is wrong in one part of a source is seen in another.
-/

namespace QuestScript

/-- The report so many lines further down. -/
def Report.down (n : Nat) (r : Report) : Report := { r with place := r.place.down n }

namespace Position

variable {front back cs : List Char} {p : Position}

lemma advance_lineFeed (cs : List Char) :
    start.advance (cs ++ ['\n']) = ⟨cs.count '\n' + 1 + 1, 1⟩ := by
  rw [advance_start]
  simp [Nat.add_comm]

lemma one_le_line_advance (cs : List Char) : 1 ≤ (start.advance cs).line :=
  (isCounted_start.advance cs).line

lemma HasLine.line_le (h : HasLine (cs ++ ['\n']) p) : p.line ≤ cs.count '\n' + 1 := by
  obtain ⟨front, back, heq, hback, hline⟩ := h
  obtain ⟨inner, c, rfl⟩ := (List.eq_nil_or_concat back).resolve_left hback
  rw [List.concat_eq_append, ← List.append_assoc] at heq
  obtain ⟨rfl, -⟩ := List.append_inj' heq rfl
  rw [hline, advance_start, List.count_append]
  simp only
  omega

end Position

namespace Parser

variable {source : String} {options : Options}

lemma parse_eq_ok_iff {p : Program} {reports : List Report} :
    parse source options = .ok ⟨p, reports⟩ ↔
      ∃ made, (Action.program options options.maxNesting .start source.toList).outcome =
          ⟨made, .ok p⟩ ∧
        reports = Report.sort ((tokenize source).2 ++ made) := by
  rw [parse_eq_program]
  rcases Action.program options options.maxNesting .start source.toList with
    ⟨⟨made, cause | q⟩, n⟩
  · simp [Parsed.result]
  · simp only [Parsed.result, Parsed.reports, Except.ok.injEq, Output.mk.injEq, Outcome.mk.injEq]
    constructor
    · rintro ⟨rfl, rfl⟩
      exact ⟨made, ⟨rfl, rfl⟩, rfl⟩
    · rintro ⟨made, ⟨rfl, rfl⟩, rfl⟩
      exact ⟨rfl, rfl⟩

/-! ### Programs -/

variable {cs text : List Char} {budget n : Nat}

/-- What is read behind a line that is left open nowhere is read as a program of its own. -/
lemma outcome_program_append (options : Options) (budget : Nat)
    (h : (Scan.read .fresh .start cs).IsTerminated) (behind : List Char) :
    (Action.program options budget .start (cs ++ '\n' :: behind)).outcome =
      (Action.program options budget .start (cs ++ ['\n'])).outcome.bind fun p =>
        (Action.program options budget ⟨cs.count '\n' + 1 + 1, 1⟩ behind).outcome.map fun q =>
          ⟨p.groups ++ q.groups⟩ := by
  obtain ⟨ts, hstart, hread⟩ := Scan.read_append .fresh .start cs h
  rw [Position.advance_lineFeed] at hread
  have hended : Lexeme.IsEnded ts := fun l hl => by
    simpa [Scan.lineStartBehind, Option.mem_def.mp hl] using hstart
  -- The tokens in front of the line feed are all tokens of the first text.
  have hfirst : (Scan.read .fresh .start (cs ++ ['\n'])).lexemes =
      ts ++ [⟨.mark .sourceEnd, "", ⟨cs.count '\n' + 1 + 1, 1⟩⟩] := by
    rw [hread [], Scan.read_nil]
  have hfree : ∀ l ∈ ts, l.token ≠ .mark .sourceEnd := by
    obtain ⟨us, hus, hfree⟩ := Scan.exists_lexemes_eq .fresh .start (cs ++ ['\n'])
    rw [hfirst] at hus
    obtain ⟨rfl, -⟩ := List.append_inj' hus rfl
    exact hfree
  obtain ⟨us, hus, hbehind⟩ :=
    Scan.exists_lexemes_eq .fresh ⟨cs.count '\n' + 1 + 1, 1⟩ behind
  -- the tokens of the whole are those of both parts, one behind the other
  have hwhole : (Scan.read .fresh .start (cs ++ '\n' :: behind)).lexemes =
      (ts ++ us) ++
        [⟨.mark .sourceEnd, "", Position.advance ⟨cs.count '\n' + 1 + 1, 1⟩ behind⟩] := by
    rw [hread behind, hus, List.append_assoc]
  rw [Action.program_eq options budget hwhole
      (fun l hl => (List.mem_append.mp hl).elim (hfree l) (hbehind l)) rfl,
    Action.program_eq options budget hfirst hfree rfl,
    Action.program_eq options budget hus hbehind rfl]
  have hend (p : Position) : (⟨.mark .sourceEnd, "", p⟩ : Lexeme).token = .mark .sourceEnd := rfl
  simp only [Program.read, Parsed.map]
  rw [Program.outcome_readGroups_append (hend _) (hend ⟨cs.count '\n' + 1 + 1, 1⟩) hended us]
  -- reading may be given up in either part
  generalize (Program.readGroups _ ts).outcome = front
  generalize (Program.readGroups _ us).outcome = back
  rcases front with ⟨made, cause | groups⟩ <;> rcases back with ⟨more, cause' | later⟩ <;> rfl

lemma outcome_program_down {p : Program} {made : List Report} (n : Nat)
    (h : (Action.program options budget .start text).outcome = ⟨made, .ok p⟩) :
    (Action.program options budget ⟨n + 1, 1⟩ text).outcome =
      ⟨made.map (Report.down n), .ok ⟨p.groups.map (Group.renumber (· + n))⟩⟩ := by
  have hlimits : (Parallel.embedding ⟨n + 1, 1⟩ id (· + n)).Limits options options :=
    ⟨Parallel.lawful_embedding _ _ _, rfl, fun h => by obtain ⟨rfl, -⟩ := h; rfl⟩
  have hlexemes : List.Forall₂ (Parallel.embedding ⟨n + 1, 1⟩ id (· + n)).Lexemes
      (Scan.read .fresh .start text).lexemes (Scan.read .fresh ⟨n + 1, 1⟩ text).lexemes :=
    Parallel.lexemes_embedding .fresh Position.isCounted_start
      fun l _ => by rw [Position.embed_eq_down]; rfl
  have hreports {rs rs' : List Report} (hrs : List.Forall₂
      (Parallel.embedding ⟨n + 1, 1⟩ id (· + n)).report rs rs') : rs' = rs.map (Report.down n) := by
    rw [eq_map_of_forall₂ hrs]
    refine List.map_congr_left fun r _ => ?_
    rw [Report.moved_id, Report.embed, Position.embed_eq_down, Report.down]
  rcases (hlimits.program budget hlexemes).of_escalate with
    ⟨made, made', p, p', hp, hp', hmade, hgroups⟩ | ⟨_, _, _, _, hcause, -⟩
  · obtain ⟨rfl, rfl⟩ : made = _ ∧ p = _ := by simpa [hp] using h
    rw [hp', hreports hmade]
    exact congrArg (Outcome.mk _ <| .ok ·) (congrArg Program.mk hgroups)
  · simp [hcause] at h

/-! ### Reports -/

lemma sort_append_down {front back front' back' : List Report}
    (h : ∀ r ∈ front ++ front', r.place.line ≤ n) (h' : ∀ r ∈ back ++ back', 1 ≤ r.place.line) :
    Report.sort ((front ++ back.map (Report.down n)) ++ (front' ++ back'.map (Report.down n))) =
      Report.sort (front ++ front') ++ (Report.sort (back ++ back')).map (Report.down n) := by
  let above (r : Report) : Bool := r.place.line ≤ n
  have habove {rs : List Report} (hrs : ∀ r ∈ rs, r.place.line ≤ n) :
      rs.filter above = rs ∧ rs.filter (fun r => !above r) = [] := by
    simpa [above, List.filter_eq_self, List.filter_eq_nil_iff] using hrs
  have hbelow {rs : List Report} (hrs : ∀ r ∈ rs, 1 ≤ r.place.line) :
      (rs.map (Report.down n)).filter above = [] ∧
        (rs.map (Report.down n)).filter (fun r => !above r) = rs.map (Report.down n) := by
    have hlt : ∀ r ∈ rs, n < r.place.line + n := fun r hr => Nat.lt_add_of_pos_left (hrs r hr)
    simpa [above, List.filter_eq_self, List.filter_eq_nil_iff, Report.down, Position.down] using hlt
  -- so the reports fall into those up to line `n` and those below, and both are sorted apart
  obtain ⟨hfront, hfront'⟩ := List.forall_mem_append.mp h
  obtain ⟨hback, hback'⟩ := List.forall_mem_append.mp h'
  have horder (r s : Report) (hr : above r = true) (hs : above s = false) :
      r.place ≤ s.place ∧ ¬s.place ≤ r.place := by
    simp only [above, decide_eq_true_eq, decide_eq_false_iff_not] at hr hs
    simp only [Position.le_iff]
    omega
  rw [Report.sort_eq_append (p := above) fun r _ s _ => horder r s,
    ← Report.sort_map fun r s => Position.down_le_down, List.map_append]
  simp only [List.filter_append, habove hfront, habove hfront', hbelow hback, hbelow hback',
    List.append_nil, List.nil_append]

/-- **Sources are read one after another.** If no string or comment is left open in the first
source, and neither source makes reading impossible, the two with a line feed between them have the
groups and the reports of the one and then those of the other, on lines further down. -/
theorem parse_append {s₁ s₂ : String} {options : Options} {out₁ out₂ : Output}
    (h : ∀ r ∈ (tokenize s₁).2, r.fault ≠ .unterminatedString ∧ r.fault ≠ .unterminatedComment)
    (h₁ : parse (s₁ ++ "\n") options = .ok out₁) (h₂ : parse s₂ options = .ok out₂) :
    parse (s₁ ++ "\n" ++ s₂) options =
      .ok ⟨⟨out₁.program.groups ++
          out₂.program.groups.map (Group.renumber (· + (s₁.toList.count '\n' + 1)))⟩,
        out₁.reports ++ out₂.reports.map (Report.down (s₁.toList.count '\n' + 1))⟩ := by
  obtain ⟨ts, -, hread⟩ := Scan.read_append .fresh .start s₁.toList h
  rw [Position.advance_lineFeed] at hread
  -- the scanner starts anew behind the line feed
  have hfirst : (tokenize (s₁ ++ "\n")).2 = (tokenize s₁).2 := by
    simp [tokenize, hread [], Scan.read_nil]
  have hboth : (tokenize (s₁ ++ "\n" ++ s₂)).2 =
      (tokenize s₁).2 ++ (tokenize s₂).2.map (Report.down (s₁.toList.count '\n' + 1)) := by
    have hmoved := Scan.read_embed ⟨s₁.toList.count '\n' + 1 + 1, 1⟩ .fresh s₂.toList
      Position.isCounted_start
    rw [Position.embed_start] at hmoved
    simp [tokenize, hread s₂.toList, hmoved, Report.embed, Position.embed_eq_down, Report.down]
  -- All reports on the first source stand above those on the second one.
  have hline₁ : ∀ r ∈ out₁.reports, r.place.line ≤ s₁.toList.count '\n' + 1 := by
    intro r hr
    have hpoints : r.PointsInto (s₁ ++ "\n").toList :=
      pointsInto_of_mem_ofResult (by rw [h₁]; exact hr)
    exact Position.HasLine.line_le (by simpa using hpoints.line)
  have hline₂ : ∀ r ∈ out₂.reports, 1 ≤ r.place.line := by
    intro r hr
    have hpoints : r.PointsInto s₂.toList :=
      pointsInto_of_mem_ofResult (by rw [h₂]; exact hr)
    obtain ⟨front, -, -, hplace, -⟩ := hpoints.shown
    exact hplace ▸ Position.one_le_line_advance front
  obtain ⟨made₁, hprogram₁, hreports₁⟩ := parse_eq_ok_iff.mp h₁
  obtain ⟨made₂, hprogram₂, hreports₂⟩ := parse_eq_ok_iff.mp h₂
  refine parse_eq_ok_iff.mpr
    ⟨made₁ ++ made₂.map (Report.down (s₁.toList.count '\n' + 1)), ?_, ?_⟩
  · -- the groups
    have hjoined := outcome_program_append options options.maxNesting h s₂.toList
    have hfront : (s₁ ++ "\n").toList = s₁.toList ++ ['\n'] := by simp
    have hwhole : (s₁ ++ "\n" ++ s₂).toList = s₁.toList ++ '\n' :: s₂.toList := by simp
    rw [hfront] at hprogram₁
    rw [hwhole, hjoined, hprogram₁, outcome_program_down _ hprogram₂]
    rfl
  · -- the reports
    rw [hfirst] at hreports₁
    rw [hreports₁] at hline₁ ⊢
    rw [hreports₂] at hline₂ ⊢
    rw [hboth, sort_append_down (fun r hr => hline₁ r ((Report.sort_perm _).mem_iff.mpr hr))
      fun r hr => hline₂ r ((Report.sort_perm _).mem_iff.mpr hr)]

/-- A line with a token that does not belong there, in front of a conditional and a character that
is no token. -/
theorem parse_append_sample :
    parse "end )\nif a then goto b\n?" = .ok
      ⟨⟨[⟨[.finish], 1⟩, ⟨[.conditional (.var "a") ⟨[.goto "b"], 2⟩ none], 2⟩]⟩,
        [⟨.unexpectedToken .separator (.mark .rightParen) none, ⟨1, 5⟩⟩,
          ⟨.unexpectedCharacter '?', ⟨3, 1⟩⟩]⟩ := by
  have h₁ : parse ("end )" ++ "\n") = .ok ⟨⟨[⟨[.finish], 1⟩]⟩,
      [⟨.unexpectedToken .separator (.mark .rightParen) none, ⟨1, 5⟩⟩]⟩ := by decide +kernel
  have h₂ : parse "if a then goto b\n?" =
      .ok ⟨⟨[⟨[.conditional (.var "a") ⟨[.goto "b"], 1⟩ none], 1⟩]⟩,
        [⟨.unexpectedCharacter '?', ⟨2, 1⟩⟩]⟩ := by decide +kernel
  have hjoin : "end )\nif a then goto b\n?" = "end )" ++ "\n" ++ "if a then goto b\n?" := by
    decide +kernel
  rw [hjoin, parse_append (by decide +kernel) h₁ h₂]
  decide +kernel

end Parser

end QuestScript

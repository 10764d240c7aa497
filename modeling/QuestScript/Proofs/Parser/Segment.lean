import QuestScript.Proofs.Program.Segment

/-!
Errors stay between separators.

What is wrong in one statement of a line is reported there and touches no other statement of the
line. A line of segments without conditionals comes to what its segments come to on lines of their
own, if broken statements are left out.
-/

namespace QuestScript

open Lexeme (AreSegments IsSegment separated)

namespace Lexeme

variable {first : List Lexeme} {others : List (Lexeme × List Lexeme)}

lemma AreSegments.ne (h : AreSegments first others) :
    ∀ l ∈ separated first others, l.token ≠ .mark .lineBreak ∧ l.token ≠ .mark .sourceEnd := by
  have hsegment {seg : List Lexeme} (hseg : IsSegment seg) :
      ∀ l ∈ seg, l.token ≠ .mark .lineBreak ∧ l.token ≠ .mark .sourceEnd :=
    fun l hl => ⟨hseg.ne .lineBreak (by simp) l hl, hseg.ne .sourceEnd (by simp) l hl⟩
  intro l hl
  rcases List.mem_append.mp hl with hl | hl
  · exact hsegment h.first l hl
  obtain ⟨o, ho, hmem⟩ := List.mem_flatMap.mp hl
  obtain ⟨hamp, hseg⟩ := h.others o ho
  rcases List.mem_cons.mp hmem with rfl | hmem
  · simp [hamp]
  · exact hsegment hseg l hmem

end Lexeme

lemma Program.outcome_read_line {ctx : Context} (hfinish : ctx.finish.token = .mark .sourceEnd)
    {l lineEnd : Lexeme} {rest : List Lexeme} {reports : List Report} {statements : List Statement}
    (hts : ∀ o ∈ l :: rest, o.token ≠ .mark .lineBreak)
    (hlineEnd : lineEnd.token = .mark .lineBreak)
    (h : (Group.readLine ctx (l :: rest ++ [lineEnd])).outcome = ⟨reports, .ok statements⟩) :
    (read ctx (l :: rest ++ [lineEnd])).outcome =
      ⟨reports, .ok ⟨groupOfLine l.start.line statements⟩⟩ := by
  -- the line goes up to its end, and nothing stands behind that
  have hlength : Lexeme.lineLength (l :: rest ++ [lineEnd]) = (l :: rest).length := by
    rw [Lexeme.lineLength, List.takeWhile_append_of_pos (by simpa using hts),
      List.takeWhile_cons_of_neg (by simp [hlineEnd]), List.append_nil]
  have hnothing : (readGroups ctx [lineEnd]).outcome = .pure [] := by
    rw [outcome_readGroups_of_lineBreak ctx hlineEnd, readGroups]
    rfl
  have hgroups : (readGroups ctx (l :: rest ++ [lineEnd])).outcome =
      ⟨reports, .ok (groupOfLine l.start.line statements)⟩ := by
    rw [List.cons_append] at h hlength ⊢
    rw [outcome_readGroups_cons hfinish (hts l List.mem_cons_self), h, hlength, ← List.cons_append,
      List.drop_left, hnothing]
    simp [Outcome.bind, Outcome.pure, Outcome.map, Outcome.after, Except.map]
  rw [read, Parsed.map, hgroups]
  rfl

namespace Parser

/-- On a line of their own, whatever marks the ends of the line and of the source, the lexemes are
read as the program, with so many reports. -/
def ReadsAlone (options : Options) (ts : List Lexeme) (program : Program) (n : Nat) : Prop :=
  ∀ lineEnd finish : Lexeme, lineEnd.token = .mark .lineBreak →
    finish.token = .mark .sourceEnd →
      let run := (ofLexemes (ts ++ [lineEnd, finish]) options).run
      run.1 = .ok program ∧ run.2.reports.length = n

variable {depth n : Nat} {l : Lexeme} {rest : List Lexeme} {statements : List Statement}

lemma readsAlone_of_lineReadsAs
    (hts : ∀ o ∈ l :: rest, o.token ≠ .mark .lineBreak ∧ o.token ≠ .mark .sourceEnd)
    (h : Group.LineReadsAs (Action.read ⟨depth, .dropStatement⟩ depth) (l :: rest) statements n) :
    ReadsAlone ⟨depth, .dropStatement⟩ (l :: rest)
      ⟨Program.groupOfLine l.start.line statements⟩ n := by
  intro lineEnd finish hlineEnd hfinish
  obtain ⟨reports, hlength, hline⟩ := h finish lineEnd [] hfinish hlineEnd
  have hprogram := Program.outcome_read_line
    hfinish (fun o ho => (hts o ho).1) hlineEnd hline
  have hend : ∀ o ∈ l :: rest ++ [lineEnd], o.token ≠ .mark .sourceEnd := by
    intro o ho
    rcases List.mem_append.mp ho with ho | ho
    · exact (hts o ho).2
    · simp [List.mem_singleton.mp ho, hlineEnd]
  have hlist : l :: rest ++ [lineEnd, finish] = (l :: rest ++ [lineEnd]) ++ [finish] := by simp
  rw [hlist, ofLexemes, Lexeme.untilEnd_append [] hend hfinish]
  simp only [run, context, Parsed.result, Parsed.reports, hprogram, List.nil_append, hlength,
    and_self]

lemma statements_groupOfLine (line : Nat) (statements : List Statement) :
    (Program.mk (Program.groupOfLine line statements)).statements = statements := by
  unfold Program.groupOfLine
  split
  · next hempty => simp [Program.statements, List.isEmpty_iff.mp hempty]
  · simp [Program.statements]

lemma exists_readsAlone {segments : List (List Lexeme)} {kept : List (Option Statement × Nat)}
    (hsegments : ∀ seg ∈ segments, IsSegment seg)
    (h : List.Forall₂ (fun seg a => Group.ReadsAs (Action.read ⟨depth, .dropStatement⟩ depth) seg
      a.1 a.2) segments kept) :
    ∃ alone : List (Program × Nat),
      List.Forall₂ (fun seg a => ReadsAlone ⟨depth, .dropStatement⟩ seg a.1 a.2 ∧
        a.1.statements.length ≤ 1) segments alone ∧
      (alone.flatMap fun a => a.1.statements) = (kept.flatMap fun a => a.1.toList) ∧
      alone.map Prod.snd = kept.map Prod.snd := by
  induction h with
  | nil => exact ⟨[], .nil, rfl, rfl⟩
  | @cons seg a segments kept hread _ ih =>
    obtain ⟨hseg, hsegments⟩ := List.forall_mem_cons.mp hsegments
    obtain ⟨alone, halone, hstatements, hcounts⟩ := ih hsegments
    obtain ⟨l, rest, rfl⟩ := List.exists_cons_of_ne_nil hseg.ne_nil
    have hne : ∀ o ∈ l :: rest, o.token ≠ .mark .lineBreak ∧ o.token ≠ .mark .sourceEnd :=
      fun o ho => ⟨hseg.ne .lineBreak (by simp) o ho, hseg.ne .sourceEnd (by simp) o ho⟩
    -- a segment is kept as one statement, or left out
    have hlength : a.1.toList.length ≤ 1 := by cases a.1 <;> simp
    refine ⟨(⟨Program.groupOfLine l.start.line a.1.toList⟩, a.2) :: alone,
      .cons ⟨readsAlone_of_lineReadsAs hne hread.line, ?_⟩ halone, ?_, ?_⟩
    · rwa [statements_groupOfLine]
    · rw [List.flatMap_cons, List.flatMap_cons, statements_groupOfLine, hstatements]
    · rw [List.map_cons, List.map_cons, hcounts]

/-- **Errors stay between separators.** Where broken statements are left out, segments behind one
another, each without conditionals, are read as on lines of their own: a program is read, its
statements are those of the segments, at most one from each, and it is reported as often as in all
segments together. -/
theorem run_separated (depth : Nat) {first : List Lexeme} {others : List (Lexeme × List Lexeme)}
    (h : AreSegments first others) :
    ∃ (program : Program) (alone : List (Program × Nat)),
      ReadsAlone ⟨depth, .dropStatement⟩ (separated first others) program
        (alone.map Prod.snd).sum ∧
      List.Forall₂ (fun seg a => ReadsAlone ⟨depth, .dropStatement⟩ seg a.1 a.2 ∧
        a.1.statements.length ≤ 1) (first :: others.map Prod.snd) alone ∧
      program.statements = alone.flatMap fun a => a.1.statements := by
  -- the segments are read one by one
  obtain ⟨kept, hkept, hline⟩ :=
    Group.exists_readsAs_separated (fun place text =>
      Action.not_isAborted_read (show Options.policy ⟨depth, .dropStatement⟩ = _ from rfl) depth
        place text) h
  have hsegments : ∀ seg ∈ first :: others.map Prod.snd, IsSegment seg := by
    intro seg hseg
    rcases List.mem_cons.mp hseg with rfl | hseg
    · exact h.first
    · obtain ⟨o, ho, rfl⟩ := List.mem_map.mp hseg
      exact (h.others o ho).2
  obtain ⟨alone, halone, hstatements, hcounts⟩ := exists_readsAlone hsegments hkept
  obtain ⟨l, rest, hcons, -⟩ := h.exists_cons
  have hne := h.ne
  rw [hcons] at hne hline ⊢
  rw [← hstatements, ← hcounts] at hline
  exact ⟨_, alone, readsAlone_of_lineReadsAs hne hline, halone, statements_groupOfLine _ _⟩

/-- Four segments of a line: one that goes on behind its statement, one that breaks off, a text with
a broken action in a link, and one in which nothing is wrong. -/
def Sample.first : List Lexeme :=
  [⟨.name "a", "a", ⟨1, 1⟩⟩, ⟨.mark .equal, "=", ⟨1, 3⟩⟩, ⟨.string "x", "'x'", ⟨1, 5⟩⟩,
    ⟨.mark .rightParen, ")", ⟨1, 9⟩⟩]

def Sample.others : List (Lexeme × List Lexeme) :=
  [(⟨.mark .ampersand, "&", ⟨1, 11⟩⟩,
      [⟨.name "b", "b", ⟨1, 13⟩⟩, ⟨.mark .equal, "=", ⟨1, 15⟩⟩, ⟨.mark .rightParen, ")", ⟨1, 17⟩⟩]),
    (⟨.mark .ampersand, "&", ⟨1, 19⟩⟩,
      [⟨.payload (.print true) "[[x|y = )]]", "pln [[x|y = )]]", ⟨1, 21⟩⟩]),
    (⟨.mark .ampersand, "&", ⟨1, 37⟩⟩, [⟨.mark .quit, "quit", ⟨1, 39⟩⟩])]

/-- Two statements are kept, and three segments are reported, one of them twice. -/
theorem run_separated_sample :
    AreSegments Sample.first Sample.others ∧
      ∃ (program : Program) (alone : List (Program × Nat)),
        ReadsAlone ⟨1, .dropStatement⟩ (separated Sample.first Sample.others) program
          (alone.map Prod.snd).sum ∧
        List.Forall₂ (fun seg a => ReadsAlone ⟨1, .dropStatement⟩ seg a.1 a.2 ∧
          a.1.statements.length ≤ 1) (Sample.first :: Sample.others.map Prod.snd) alone ∧
        (program.statements = alone.flatMap fun a => a.1.statements) ∧
        program.statements = [.assign "a" (.string (.const "x")), .quit] ∧
        (alone.map Prod.snd).sum = 4 := by
  have hothers : ∀ o ∈ Sample.others, o.1.token = .mark .ampersand ∧ o.2 ≠ [] ∧
      ∀ m ∈ [Mark.ifWord, .ampersand, .lineBreak, .sourceEnd], ∀ l ∈ o.2, l.token ≠ .mark m := by
    decide
  have hsegments : AreSegments Sample.first Sample.others := by
    refine ⟨⟨by decide, by decide⟩, fun o ho => ?_⟩
    obtain ⟨hamp, hne, hplain⟩ := hothers o ho
    exact ⟨hamp, hne, hplain⟩
  obtain ⟨program, alone, hprogram, halone, hstatements⟩ := run_separated 1 hsegments
  let lineEnd : Lexeme := ⟨.mark .lineBreak, "\n", ⟨1, 43⟩⟩
  let finish : Lexeme := ⟨.mark .sourceEnd, "", ⟨2, 1⟩⟩
  let lexemes := separated Sample.first Sample.others ++ [lineEnd, finish]
  have hrun : (ofLexemes lexemes ⟨1, .dropStatement⟩).run.1 =
      .ok ⟨[⟨[.assign "a" (.string (.const "x")), .quit], 1⟩]⟩ := by
    decide +kernel
  have hreports : (ofLexemes lexemes ⟨1, .dropStatement⟩).run.2.reports.length = 4 := by
    decide +kernel
  obtain ⟨hok, hcount⟩ := hprogram lineEnd finish rfl rfl
  obtain rfl := Except.ok.inj (hrun.symm.trans hok)
  exact ⟨hsegments, _, alone, hprogram, halone, hstatements, rfl, hcount.symm.trans hreports⟩

end Parser

end QuestScript

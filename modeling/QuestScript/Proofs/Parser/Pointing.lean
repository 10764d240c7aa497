import QuestScript.Proofs.Parallel.Line
import QuestScript.Proofs.Parser.Correspondence
import QuestScript.Proofs.Position
import QuestScript.Proofs.Report
import QuestScript.Proofs.Token.Locality

/-!
Reports point into the source.

A text that is read inside a link, a button or a quantity is a piece of the source that stands at
the place it is read at. This is a parallel of the reading with itself, so it is kept however deep
texts nest, and every report is placed at a character of the source, or at its end, on one of its
lines. What a report is about stands where it points.
-/

namespace QuestScript

open Position (HasLine)

/-- The place of the report is a place of the source, on one of its lines, and what the report is
about stands there. -/
structure Report.PointsInto (source : List Char) (r : Report) : Prop where
  shown : ∃ front back, source = front ++ back ∧ r.place = Position.start.advance front ∧
    r.fault.ShownAt back
  line : HasLine source r.place

/-- The text stands at the place in the source, on a single one of its lines. -/
structure Position.Shows (source : List Char) (p : Position) (text : List Char) : Prop where
  stands : ∃ front back, source = front ++ text ++ back ∧ p = start.advance front
  line : HasLine source p
  free : '\n' ∉ text

namespace Position.Shows

variable {source front text back : List Char} {p : Position}

lemma part (h : p.Shows source (front ++ text ++ back)) :
    (p.right front.length).Shows source text := by
  obtain ⟨⟨lead, tail, rfl, rfl⟩, hline, hfree⟩ := h
  have hfront : '\n' ∉ front := fun hmem => hfree (by simp [hmem])
  refine ⟨⟨lead ++ front, back ++ tail, by simp, ?_⟩, hline.right _,
    fun hmem => hfree (by simp [hmem])⟩
  rw [advance_append, advance_of_notMem hfront]

lemma pointsInto {fault : Fault} (h : p.Shows source text) (hfault : fault.ShownAt text) :
    Report.PointsInto source ⟨fault, p⟩ := by
  obtain ⟨⟨lead, tail, hsource, hp⟩, hline, -⟩ := h
  exact ⟨⟨lead, text ++ tail, by simp [hsource], hp, hfault.append tail⟩, hline⟩

end Position.Shows

namespace Parallel

variable {source : List Char}

/-- The reading of a source, in parallel with itself. -/
def pointing (source : List Char) : Parallel :=
  keeping (Position.Shows source) (Report.PointsInto source) id

lemma limits_pointing (source : List Char) (options : Options) :
    (pointing source).Limits options options :=
  Inherited.limits ⟨fun h => h.free, fun h => h.part, fun _ => rfl, fun h => h.pointsInto⟩ options

lemma shows_of_mem_lexemes {l : Lexeme} (hl : l ∈ (Scan.read .fresh .start source).lexemes)
    (hend : l.token ≠ .mark .sourceEnd) :
    (pointing source).Lexemes l l := by
  obtain ⟨front, back, rfl, hstart, -, hback⟩ := Scan.exists_of_mem_lexemes hl
  have hline : HasLine (front ++ back) l.start :=
    hstart ▸ Position.hasLine_advance rfl (hback hend)
  refine ⟨rfl, ⟨rfl, ⟨front, back, by simp, hstart⟩, hline, by simp⟩, fun htoken => ⟨rfl, ?_⟩⟩
  obtain ⟨lead, tail, hsource, hplace, hfree, n, hright⟩ := Scan.exists_of_payload hl htoken
  exact ⟨⟨lead, tail, hsource, hplace⟩, hright ▸ hline.right n, hfree⟩

lemma closed_pointing {ts : List Lexeme}
    (hts : (Scan.read .fresh .start source).lexemes =
      ts ++ [⟨.mark .sourceEnd, "", Position.start.advance source⟩]) :
    (pointing source).Closed ⟨.mark .sourceEnd, "", Position.start.advance source⟩
      ⟨.mark .sourceEnd, "", Position.start.advance source⟩ ts := by
  rcases Scan.lineStartBehind_or .fresh .start source with hbreak | hlast
  · refine .inr fun l hl => ?_
    rw [hts, List.dropLast_concat, Scan.lineStartBehind, Option.mem_def.mp hl] at hbreak
    simpa using hbreak
  · rcases eq_or_ne source [] with rfl | hne
    · have hnil : ts = [] := by simpa [Scan.read_nil] using congrArg List.length hts
      exact .inr (by simp [hnil, Lexeme.IsEnded])
    · refine .inl ⟨rfl, ⟨rfl, ⟨source, [], by simp, rfl⟩, ?_, by simp⟩, by simp⟩
      exact Position.hasLine_of_getLast? (List.append_nil source).symm hne hlast

end Parallel

/-! ### Sources -/

/-- Everything that is reported about a source; what made reading impossible comes first. -/
def Report.ofResult : Except Abort Output → List Report
  | .ok out => out.reports
  | .error a => a.cause :: a.reports

namespace Parser

variable {source name : String} {options : Options} {r : Report}

lemma pointsInto_of_mem_program
    (h : r ∈ (Action.program options options.maxNesting .start source.toList).reports ∨
      (Action.program options options.maxNesting .start source.toList).result = .error r) :
    r.PointsInto source.toList := by
  -- the tokens of the source are read in parallel with themselves
  obtain ⟨ts, hts, hfree⟩ := Scan.exists_lexemes_eq .fresh .start source.toList
  have hsame : List.Forall₂ (Parallel.pointing source.toList).Lexemes ts ts :=
    List.forall₂_same.mpr fun l hl =>
      Parallel.shows_of_mem_lexemes (hts ▸ List.mem_append_left _ hl) (hfree l hl)
  have hread := ((Parallel.limits_pointing source.toList options).contexts options.maxNesting
    _ _).readProgram rfl rfl hsame (Parallel.closed_pointing hts)
  rw [← Action.program_eq options options.maxNesting hts hfree rfl] at hread
  have hall {rs rs' : List Report}
      (hrs : List.Forall₂ (Parallel.pointing source.toList).report rs rs')
      (hr : r ∈ rs) : r.PointsInto source.toList := by
    induction hrs with
    | nil => simp at hr
    | cons hfirst _ ih =>
      rcases List.mem_cons.mp hr with rfl | hr
      · exact hfirst.2
      · exact ih hr
  rcases hread.of_escalate with ⟨made, made', q, q', hq, -, hmade, -⟩ |
    ⟨made, made', cause, cause', hcause, -, hmade, hmoved⟩
  · -- the program is read
    rw [Parsed.reports, Parsed.result, hq] at h
    exact hall hmade (h.resolve_right (by simp))
  · -- reading is given up, and the cause points into the source as the reports do
    rw [Parsed.reports, Parsed.result, hcause] at h
    rcases h with h | h
    · exact hall hmade h
    · obtain rfl := Except.error.inj h
      exact hmoved.2

/-- Everything reported about a source points into it. -/
theorem pointsInto_of_mem_ofResult (h : r ∈ Report.ofResult (parse source options)) :
    r.PointsInto source.toList := by
  have hscanned (hr : r ∈ (tokenize source).2) : r.PointsInto source.toList := by
    obtain ⟨front, back, hsource, hplace, hshown, hback⟩ := Scan.exists_of_mem_reports hr
    exact ⟨⟨front, back, hsource, hplace, hshown⟩,
      hplace ▸ Position.hasLine_advance hsource hback⟩
  have hsorted (hr : r ∈ Report.sort ((tokenize source).2 ++
      (Action.program options options.maxNesting .start source.toList).reports)) :
      r.PointsInto source.toList := by
    rcases List.mem_append.mp ((Report.sort_perm _).mem_iff.mp hr) with hr | hr
    · exact hscanned hr
    · exact pointsInto_of_mem_program (.inl hr)
  rw [parse_eq_program] at h
  split at h
  · exact hsorted h
  · next cause hcause =>
    rcases List.mem_cons.mp h with rfl | h
    · exact pointsInto_of_mem_program (.inr hcause)
    · exact hsorted h

/-- **Reports point at the source.** Everything reported about a source, at any depth of nesting,
has the line and column of a character of the source or of its end, on a line of the source file;
and what it is about stands there. -/
theorem place_eq_ofOffset (name : String) (h : r ∈ Report.ofResult (parse source options)) :
    ∃ n ≤ source.toList.length, r.place = .ofOffset source.toList n ∧
      ((SourceFile.ofText name source).line? r.place.line).isSome = true ∧
      r.fault.ShownAt (source.toList.drop n) := by
  obtain ⟨⟨front, back, hsource, hplace, hshown⟩, hline⟩ := pointsInto_of_mem_ofResult h
  refine ⟨front.length, by simp [hsource], ?_, SourceFile.isSome_line? name hline, ?_⟩
  · rw [hplace, hsource, ← Position.advance_start_left]
  · rwa [hsource, List.drop_left]

/-- A bad character code in the action of a link, for which reading is given up. -/
theorem place_eq_ofOffset_sample :
    ⟨.badCharacterCode "x", ⟨2, 21⟩⟩ ∈
        Report.ofResult (parse "pln a\npln [[b|end ? & pln ##x$]]") ∧
      ∃ n ≤ 32, ⟨2, 21⟩ = Position.ofOffset "pln a\npln [[b|end ? & pln ##x$]]".toList n ∧
        ((SourceFile.ofText "" "pln a\npln [[b|end ? & pln ##x$]]").line? 2).isSome = true ∧
        ['#'] <+: "pln a\npln [[b|end ? & pln ##x$]]".toList.drop n := by
  have hmem : ⟨.badCharacterCode "x", ⟨2, 21⟩⟩ ∈
      Report.ofResult (parse "pln a\npln [[b|end ? & pln ##x$]]") := by decide +kernel
  exact ⟨hmem, place_eq_ofOffset "" hmem⟩

end Parser

end QuestScript

import QuestScript.Proofs.Action.Correspondence

/-!
Readers of sources correspond.

A source is read by one reader of programs, which reads the actions in it as well.
-/

namespace QuestScript

open Lexeme (Laid untilEnd)

/-- The program in a source, read by a reader of programs. -/
def programBy (program : ProgramReader) (limit : Nat) (source : String) : Parsed Report Program :=
  program (Action.readBy program limit limit) (untilEnd (tokenize source).1).2
    (untilEnd (tokenize source).1).1

/-- Reads quest source with a reader of programs. -/
def parseBy (program : ProgramReader) (limit : Nat) (source : String) : Except Abort Output :=
  let reports := Report.sort ((tokenize source).2 ++ (programBy program limit source).reports)
  match (programBy program limit source).result with
  | .ok program => .ok ⟨program, reports⟩
  | .error cause => .error ⟨cause, reports⟩

lemma parse_eq (source : String) (options : Options) :
    parse source options = parseBy (Program.reader options.policy) options.maxNesting source := by
  simp only [parse, Parser.run, Parser.ofLexemes, Parser.context, Action.read_eq, List.nil_append]
  rfl

lemma Action.program_eq {place : Position} {text : List Char} {ts : List Lexeme} {finish : Lexeme}
    (options : Options) (budget : Nat)
    (hts : (Scan.read .fresh place text).lexemes = ts ++ [finish])
    (hfree : ∀ l ∈ ts, l.token ≠ .mark .sourceEnd) (hfinish : finish.token = .mark .sourceEnd) :
    program options budget place text =
      Program.read ⟨options.policy, read options budget, finish⟩ ts := by
  rw [program, hts, Lexeme.untilEnd_append [] hfree hfinish]

lemma parse_eq_program (source : String) (options : Options) :
    parse source options =
      match (Action.program options options.maxNesting .start source.toList).result with
      | .ok p =>
        .ok ⟨p, Report.sort ((tokenize source).2 ++
          (Action.program options options.maxNesting .start source.toList).reports)⟩
      | .error cause =>
        .error ⟨cause, Report.sort ((tokenize source).2 ++
          (Action.program options options.maxNesting .start source.toList).reports)⟩ := by
  simp only [parse, Parser.run, Parser.ofLexemes, Parser.context, List.nil_append]
  rfl

variable {program : ProgramReader} {limit : Nat} {source : String}

lemma parseBy_of_ok {p : Program} {reports : List Report} {n : Nat}
    (h : programBy program limit source = ⟨⟨reports, .ok p⟩, n⟩) :
    parseBy program limit source = .ok ⟨p, Report.sort ((tokenize source).2 ++ reports)⟩ := by
  simp [parseBy, h, Parsed.result, Parsed.reports]

lemma parseBy_of_error {cause : Report} {reports : List Report} {n : Nat}
    (h : programBy program limit source = ⟨⟨reports, .error cause⟩, n⟩) :
    parseBy program limit source =
      .error ⟨cause, Report.sort ((tokenize source).2 ++ reports)⟩ := by
  simp [parseBy, h, Parsed.result, Parsed.reports]

lemma exists_of_parseBy_eq_ok {out : Output} (h : parseBy program limit source = .ok out) :
    ∃ reports n, programBy program limit source = ⟨⟨reports, .ok out.program⟩, n⟩ := by
  rcases hprogram : programBy program limit source with ⟨⟨reports, cause | p⟩, n⟩
  · simp [parseBy_of_error hprogram] at h
  · rw [parseBy_of_ok hprogram] at h
    obtain rfl := Except.ok.inj h
    exact ⟨reports, n, rfl⟩

lemma harmless_tokenize (source : String) : ∀ r ∈ (tokenize source).2, r.Harmless := by
  intro r hr
  simp [Report.Harmless, Scan.lexical_of_mem_reports hr]

namespace Correspondence

variable {C : Correspondence} {G : Group → Group → Prop} {program' : ProgramReader}

/-- **Sources are read alike** where programs are. -/
theorem Programs.sources (h : C.Programs G program program') (hG : Congruent G) (limit : Nat)
    (source : String) :
    C.rel .start (Position.start.advance source.toList)
      (fun p p' => List.Forall₂ G p.groups p'.groups)
      (programBy program limit source).escalate.outcome
      (programBy program' limit source).escalate.outcome := by
  have hlaid := (Scan.laid_read .fresh .start source.toList).untilEnd
  exact C.widen (le_refl _) (hlaid.reach_le _)
    (h _ _ _ _ _ _ (Lexeme.token_untilEnd _) (h.actions hG limit limit) hlaid).1

lemma programs_reader (hG : Congruent G) {policy policy' : SubstitutionPolicy}
    (hcode : ∀ place code, C.rel place place (Segment.Alike G)
      (refuse policy ⟨.badCharacterCode code, place⟩)
      (refuse policy' ⟨.badCharacterCode code, place⟩)) :
    C.Programs G (Program.reader policy) (Program.reader policy') := by
  intro action action' finish lo hi ts hfinish haction hlaid
  have hcontexts : C.Contexts G ⟨policy, action, finish⟩ ⟨policy', action', finish⟩ :=
    ⟨rfl, haction _ _, hcode, hG⟩
  exact hcontexts.program hfinish hlaid

end Correspondence

end QuestScript

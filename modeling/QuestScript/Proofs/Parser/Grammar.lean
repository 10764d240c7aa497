import QuestScript.Proofs.Parser.Guarded
import QuestScript.Proofs.Program.Grammar

/-!
What the parser reads without a report is a derivation of all its tokens.

This holds for any list of lexemes, also for one that no source has. The one place where the table
of levels is not what is read is a `not` in front of a comparison: it applies to the comparison.
-/

namespace QuestScript.Parser

open BoolExpr (Layout)

/-- **A clean run is a derivation.** If the parser gives a program and has nothing to report, the
program yields the lexemes in front of the end of the source: every one of them, once and in order.
-/
theorem yields_of_run {ts : List Lexeme} {options : Options} {program : Program} {parser : Parser}
    (h : (ofLexemes ts options).run = (.ok program, parser)) (hclean : parser.reports = []) :
    program.Yields .wide (ofLexemes ts options).context
      (ts.takeWhile fun l => l.token != .mark .sourceEnd) := by
  obtain ⟨hresult, rfl⟩ := Prod.mk.inj h
  rcases hread : (Program.read (ofLexemes ts options).context (ofLexemes ts options).ahead).outcome
    with ⟨rs, result⟩
  rw [Parsed.result, hread] at hresult
  subst hresult
  obtain rfl : rs = [] := by
    simp only [Parsed.reports, hread, List.append_eq_nil_iff] at hclean
    exact hclean.2
  exact Program.yields_of_read (Lexeme.token_untilEnd ts) hread

namespace Sample

/-- The lines `if not a = ( + b ) then goto c & cls else end &` and `s = "t" + n`, with line breaks
around them, and a token behind the end of the source. -/
def derived : List Lexeme := lexemes
  [.mark .lineBreak, .mark .ifWord, .mark .not, .name "a", .mark .equal, .mark .leftParen,
    .mark .plus, .name "b", .mark .rightParen, .mark .thenWord, .payload .goto " c ",
    .mark .ampersand, .mark .clearScreen, .mark .elseWord, .mark .endWord, .mark .ampersand,
    .mark .lineBreak, .mark .lineBreak, .name "s", .mark .equal, .string "t", .mark .plus,
    .name "n", .mark .sourceEnd, .mark .comma]

def derivedProgram : Program :=
  ⟨[⟨[.conditional (.not (.compareNumbers .equal (.var "a") (.var "b")))
        ⟨[.goto "c", .clearScreen], 1⟩ (some ⟨[.finish], 1⟩)], 1⟩,
    ⟨[.assign "s" (.string (.concat (.const "t") (.var "n")))], 1⟩]⟩

/-- The line `x = not a = b`. -/
def negated : List Lexeme := lexemes
  [.name "x", .mark .equal, .mark .not, .name "a", .mark .equal, .name "b", .mark .sourceEnd]

def comparison : BoolExpr := .compareNumbers .equal (.var "a") (.var "b")

def negatedProgram : Program := ⟨[⟨[.assign "x" (.bool (.not comparison))], 1⟩]⟩

end Sample

/-- A conditional with two branches, a trailing ampersand, parentheses and a unary plus. -/
theorem yields_of_run_sample :
    ((ofLexemes Sample.derived {}).run.1 = .ok Sample.derivedProgram ∧
      (ofLexemes Sample.derived {}).run.2.reports = []) ∧
    Sample.derivedProgram.Yields .wide (ofLexemes Sample.derived {}).context
      (Sample.derived.take 23) := by
  have hrun : (ofLexemes Sample.derived {}).run.1 = .ok Sample.derivedProgram := by decide +kernel
  have hclean : (ofLexemes Sample.derived {}).run.2.reports = [] := by decide +kernel
  exact ⟨⟨hrun, hclean⟩, yields_of_run (Prod.ext hrun rfl) hclean⟩

/-- The table of levels alone does not derive what is read: `not` in front of a comparison would
have to apply to the operand on its right. -/
theorem not_yields_table_of_not_comparison :
    ∃ program parser, (ofLexemes Sample.negated {}).run = (.ok program, parser) ∧
      parser.reports = [] ∧
      ¬program.Yields .table (ofLexemes Sample.negated {}).context
        (Sample.negated.takeWhile fun l => l.token != .mark .sourceEnd) := by
  have hrun : (ofLexemes Sample.negated {}).run.1 = .ok Sample.negatedProgram := by decide +kernel
  have hclean : (ofLexemes Sample.negated {}).run.2.reports = [] := by decide +kernel
  refine ⟨_, _, Prod.ext hrun rfl, hclean, fun h => ?_⟩
  have hassign : (Statement.assign "x" (.bool (.not Sample.comparison))).Yields .table
      (ofLexemes Sample.negated {}).context (Sample.negated.take 6) :=
    Program.Yields.of_single h (by decide)
  obtain ⟨l, o, us, hus, hvalue⟩ := hassign.of_assign
  obtain rfl : (Sample.negated.take 6).drop 2 = us := by
    rw [hus, List.drop_succ_cons, List.drop_one, List.tail_cons]
  have hcomparison : Sample.comparison.Yields .table 6 [.name "a", .mark .equal, .name "b"] :=
    BoolExpr.Yields.of_table_not hvalue
  simpa using hcomparison.head?_of_level (by decide) rfl

end QuestScript.Parser

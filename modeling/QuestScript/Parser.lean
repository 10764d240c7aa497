import QuestScript.Action.Reading
import QuestScript.Program.Equality

/-!
The front end: from quest source to a program and its reports.
-/

namespace QuestScript

/-- The tokens of a source, and the characters and literals that are none. -/
def tokenize (source : String) : List Lexeme × List Report :=
  let scan := Scan.read .fresh .start source.toList
  (scan.lexemes, scan.reports)

/-- A reader of programs from a list of lexemes. After an abort it can be run again and goes on
where it stopped; the reports of all runs are kept, in the order they were made in. -/
structure Parser where
  options : Options
  ahead : List Lexeme
  finish : Lexeme
  reports : List Report

namespace Parser

def ofLexemes (ts : List Lexeme) (options : Options) : Parser :=
  let (ahead, finish) := Lexeme.untilEnd ts
  ⟨options, ahead, finish, []⟩

def context (p : Parser) : Context :=
  ⟨p.options.policy, Action.read p.options p.options.maxNesting, p.finish⟩

/-- Reads the program ahead, or what there is of it in front of an abort. -/
def run (p : Parser) : Except Report Program × Parser :=
  let program := Program.read p.context p.ahead
  (program.result,
    { p with ahead := p.ahead.drop program.taken, reports := p.reports ++ program.reports })

end Parser

/-- A program and everything worth reporting about its source, in reading order. -/
structure Output where
  program : Program
  reports : List Report
  deriving DecidableEq

/-- Whether anything is worth reporting. -/
def Output.hasErrors (o : Output) : Bool := !o.reports.isEmpty

/-- What made reading impossible, and everything reported before. -/
structure Abort where
  cause : Report
  reports : List Report
  deriving DecidableEq

/-- The abort on one line. -/
def Abort.summary (a : Abort) : String := "parse aborted: " ++ a.cause.diagnostic.summary

/-- Reads quest source. -/
def parse (source : String) (options : Options := {}) : Except Abort Output :=
  let (lexemes, scanned) := tokenize source
  let (result, parser) := (Parser.ofLexemes lexemes options).run
  let reports := Report.sort (scanned ++ parser.reports)
  match result with
  | .ok program => .ok ⟨program, reports⟩
  | .error cause => .error ⟨cause, reports⟩

end QuestScript

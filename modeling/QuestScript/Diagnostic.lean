import QuestScript.Position
import QuestScript.Text.Basic

/-!
Diagnostics as a reader of quest source sees them: a kind, a message, a place, and hints. A
diagnostic can be written on one line, or shown against the source with a caret under its place.
-/

namespace QuestScript

inductive DiagnosticKind
  | lexical
  | syntactic
  | substitution
  deriving DecidableEq, Repr

def DiagnosticKind.text : DiagnosticKind → String
  | lexical => "lex error"
  | syntactic => "syntax error"
  | substitution => "substitution error"

/-- A problem, worded for the author of the source. -/
structure Diagnostic where
  kind : DiagnosticKind
  message : String
  place : Position
  found : Option String
  expected : Option String
  suggestion : Option String
  deriving DecidableEq, Repr

/-- A named source, by lines. -/
structure SourceFile where
  name : String
  lines : List String
  deriving DecidableEq, Repr

def SourceFile.ofText (name text : String) : SourceFile :=
  ⟨name, (Text.lines text.toList).map String.ofList⟩

/-- The line with the given number, counted from one. -/
def SourceFile.line? (source : SourceFile) : Nat → Option String
  | 0 => none
  | n + 1 => source.lines[n]?

namespace Diagnostic

/-- The diagnostic on one line. -/
def summary (d : Diagnostic) : String :=
  d.kind.text ++ " at " ++ toString d.place.line ++ ":" ++ toString d.place.column ++ ": "
    ++ d.message

/-- Terminal sequences that set and reset the style of text. -/
inductive Style
  | red
  | blue
  | yellow
  | green
  | bold
  | plain

def Style.code : Style → String
  | red => "\x1b[1;31m"
  | blue => "\x1b[1;34m"
  | yellow => "\x1b[1;33m"
  | green => "\x1b[1;32m"
  | bold => "\x1b[1m"
  | plain => "\x1b[0m"

/-- The text in a style, which ends with it. -/
def styled (style : Style) (text : String) : String := style.code ++ text ++ Style.plain.code

def blanks (n : Nat) : String := String.ofList (List.replicate n ' ')

/-- The diagnostic shown against its source: the line it is on and a caret under its column. -/
def render (d : Diagnostic) (source : SourceFile) : String :=
  let number := toString d.place.line
  let margin := "  " ++ blanks number.length ++ " " ++ styled .blue "|"
  let content := String.ofList (Text.trimEnd ((source.line? d.place.line).getD "").toList)
  let pointer := match d.expected with
    | some expected => "expected " ++ expected
    | none => "here"
  let help := match d.suggestion with
    | some suggestion =>
      "  " ++ styled .green "help" ++ ": did you mean `" ++ styled .yellow suggestion ++ "`?\n"
    | none => ""
  styled .red d.kind.text ++ ": " ++ styled .bold d.message ++ "\n"
    ++ "  " ++ styled .blue "-->" ++ " " ++ source.name ++ ":" ++ number ++ ":"
    ++ toString d.place.column ++ "\n"
    ++ margin ++ "\n"
    ++ "  " ++ styled .blue number ++ " " ++ styled .blue "|" ++ " " ++ content ++ "\n"
    ++ margin ++ " " ++ blanks (d.place.column - 1) ++ styled .red ("^--- " ++ pointer) ++ "\n"
    ++ help

end Diagnostic

end QuestScript

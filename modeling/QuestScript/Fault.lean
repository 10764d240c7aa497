import QuestScript.Diagnostic
import QuestScript.Token

/-!
What can be wrong with quest source, as causes. The wording of every message is decided here and
nowhere else.
-/

namespace QuestScript

/-- What a reader of tokens was waiting for. -/
inductive Wanted
  | statement
  | equals
  | thenWord
  | separator
  | condition
  | number
  | string
  | closing
  | quantityEnd
  deriving DecidableEq, Repr

def Wanted.text : Wanted → String
  | statement => "a statement"
  | equals => "`=` after variable name"
  | thenWord => "`then`"
  | separator => "`&` or end of line"
  | condition => "a condition"
  | number => "a number"
  | string => "a string"
  | closing => "`)`"
  | quantityEnd => "end of quantity"

/-- A name that a statement cannot do without. -/
inductive Essential
  | gotoTarget
  | callTarget
  | labelName
  | mediaFile
  deriving DecidableEq, Repr

inductive Fault
  | unterminatedComment
  | unterminatedString
  | unexpectedCharacter (c : Char)
  /-- Another token stands where one was wanted; a keyword may have been meant. -/
  | unexpectedToken (wanted : Wanted) (found : Token) (suggestion : Option String)
  | blankName (what : Essential)
  | linkSeparators (inner : String)
  | buttonWithoutAction
  | buttonWithoutTarget
  | changeWithoutItem
  /-- An action would nest deeper than the limit. -/
  | nestingLimit (limit : Nat)
  /-- An action in which no statement could be read. -/
  | emptyAction (text : String)
  | badCharacterCode (code : String)
  deriving DecidableEq, Repr

namespace Fault

def kind : Fault → DiagnosticKind
  | unterminatedComment | unterminatedString | unexpectedCharacter _ => .lexical
  | badCharacterCode _ => .substitution
  | _ => .syntactic

def message : Fault → String
  | unterminatedComment => "unterminated block comment"
  | unterminatedString => "unterminated string literal"
  | unexpectedCharacter c => "unexpected character `" ++ c.toString ++ "`"
  | unexpectedToken wanted found _ => "expected " ++ wanted.text ++ ", found " ++ found.describe
  | blankName .gotoTarget => "`goto` needs a location name"
  | blankName .callTarget => "`proc` needs a location name"
  | blankName .labelName => "label has no name"
  | blankName .mediaFile => "media statement needs a file name"
  | linkSeparators _ => "link has more than one `|` separator"
  | buttonWithoutAction => "button has no action"
  | buttonWithoutTarget => "`btn` needs a target"
  | changeWithoutItem => "inventory change needs an item"
  | nestingLimit limit => "actions nested more than " ++ toString limit ++ " levels deep"
  | emptyAction _ => "action has no valid statements"
  | badCharacterCode code => "`" ++ code ++ "` is not a decimal character code"

/-- The text at fault, where a message quotes one. -/
def found : Fault → Option String
  | unterminatedString => some "\""
  | unexpectedCharacter c => some c.toString
  | unexpectedToken _ found _ => some found.describe
  | linkSeparators inner => some inner
  | emptyAction text => some text
  | badCharacterCode code => some code
  | _ => none

/-- What would have been right instead. -/
def expected : Fault → Option String
  | unexpectedToken wanted _ _ => some wanted.text
  | linkSeparators _ => some "`[[label]]` or `[[label|action]]`"
  | buttonWithoutAction => some "a location or statements before `,`"
  | buttonWithoutTarget => some "a location name"
  | changeWithoutItem => some "an item name"
  | badCharacterCode _ => some "a decimal character code"
  | _ => none

def suggestion : Fault → Option String
  | unexpectedToken _ _ suggestion => suggestion
  | _ => none

end Fault

/-- A fault and where it was met. -/
structure Report where
  fault : Fault
  place : Position
  deriving DecidableEq, Repr

namespace Report

def diagnostic (r : Report) : Diagnostic where
  kind := r.fault.kind
  message := r.fault.message
  place := r.place
  found := r.fault.found
  expected := r.fault.expected
  suggestion := r.fault.suggestion

/-- The report that something was wanted at the start of the list, or at its end if the list is
empty. -/
def missing (wanted : Wanted) (finish : Lexeme) (ts : List Lexeme) : Report :=
  let met := ts.headD finish
  ⟨.unexpectedToken wanted met.token none, met.start⟩

/-- Puts a report in front of the first report that it is not after. -/
def insert (r : Report) : List Report → List Report
  | [] => [r]
  | s :: rest => if r.place.notAfter s.place then r :: s :: rest else s :: insert r rest

/-- The reports in reading order. Those at one place keep the order they were made in. -/
def sort : List Report → List Report
  | [] => []
  | r :: rest => r.insert (sort rest)

end Report

end QuestScript

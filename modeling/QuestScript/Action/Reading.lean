import QuestScript.Program.Reading

/-!
Reading the actions of links and buttons.

The name of a location alone needs no reading, nor do the word `goto` and such a name. Any other
action is a program of its own, read at its place in the source, whose lines count as one group.
Actions nest, and the reader of an action reads those inside it with a budget that is one smaller;
without budget only plain jumps can be read.
-/

namespace QuestScript.Action

open Text

/-! ### Plain jumps -/

/-- Whether the text is a plain name of a location, made of word characters, points and hyphens. -/
def isBareTarget (text : List Char) : Bool :=
  !text.isEmpty && text.all fun c => isWordChar c || c = '.' || c = '-'

/-- The target of a text that is `goto`, a blank, and a bare target. -/
def directTarget? (text : List Char) : Option (List Char) :=
  let rest := text.drop 4
  let target := trim rest
  if (text.take 4).map Char.toLower = ['g', 'o', 't', 'o'] &&
      (rest.head?.any fun c => c = ' ' || c = '\t') && isBareTarget target then some target
  else none

/-- Where an action jumps to that needs no reading. -/
def target? (text : List Char) : Option (List Char) :=
  if isBareTarget text then some text else directTarget? text

/-! ### Programs -/

/-- The outcome of an action at the given place whose text has been read as a program. -/
def ofProgram (place : Position) (text : List Char) (scanned : List Report)
    (program : Outcome Report Program) : Outcome Refusal Group :=
  let reports := scanned ++ program.reports
  match program.result with
  | .error cause => ⟨reports, .error (.aborted cause)⟩
  | .ok program =>
    if program.statements.isEmpty then
      ⟨reports, .error (.dropped ⟨.emptyAction (String.ofList text), place⟩)⟩
    else ⟨reports, .ok ⟨program.statements, place.line⟩⟩

/-- Reads an action, with so many levels of nesting left. -/
def read (options : Options) : Nat → ActionReader
  | budget, place, text =>
    match target? text with
    | some target => .pure (.jump (String.ofList target) place.line)
    | none =>
      match budget with
      | 0 => .drop (.nestingLimit options.maxNesting) place
      | n + 1 =>
        let scan := Scan.read .fresh place text
        let (ts, finish) := Lexeme.untilEnd scan.lexemes
        let program := Program.read ⟨options.policy, read options n, finish⟩ ts
        ofProgram place text scan.reports program.outcome

end QuestScript.Action

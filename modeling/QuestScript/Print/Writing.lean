import QuestScript.Action.Reading
import QuestScript.Program
import QuestScript.Text.Basic

/-!
Writing segments back as printed text.

In a literal, the characters that could start or end a span are written by their codes, and so are
those that cannot stand on a line. A link is written only if its action is a single jump. Segments
without a written form have no text.
-/

namespace QuestScript.Print

open Text

/-- A character of a literal. -/
def writeChar (c : Char) : List Char :=
  if c = '#' then "##35$".toList
  else if c = '&' then "##38$".toList
  else if c = '[' then "##91$".toList
  else if c = '|' then "##124$".toList
  else if c = '\n' then "#/$".toList
  else if c = '\r' then "##13$".toList
  else [c]

/-- Whether a text between `#` and `$` is the name of a variable and stays on its line. -/
def isPlainName (name : List Char) : Bool :=
  name != [] && name != ['/'] && name.head? != some '#' && name.head? != some '%'
    && !name.any fun c => c = '$' || c = '&' || c = '\n'

/-- Whether a text can stand in a link span as it is, in front of the bar or behind it. -/
def isPlainPart (part : List Char) : Bool :=
  part != [] && trim part = part
    && !part.any fun c => c = '|' || c = '[' || c = ']' || c = '&' || c = '\n'

/-- A link to a location. -/
def writeLink? (label target : List Char) : Option (List Char) :=
  if isPlainPart label && isPlainPart target then
    let inner :=
      if target = label then label
      else if Action.isBareTarget target then label ++ '|' :: target
      else label ++ "|goto ".toList ++ target
    some ('[' :: '[' :: inner ++ [']', ']'])
  else none

def writeSegment? : Segment → Option (List Char)
  | .literal text => some (text.toList.flatMap writeChar)
  | .value name =>
    if isPlainName name.toList then some ('#' :: name.toList ++ ['$']) else none
  | .link label action =>
    match action.jumpTarget? with
    | some target => writeLink? label.toList target.toList
    | none => none

/-- The text from which the segments can be read again. -/
def write? : List Segment → Option (List Char)
  | [] => some []
  | segment :: rest =>
    match writeSegment? segment, write? rest with
    | some text, some texts => some (text ++ texts)
    | _, _ => none

end QuestScript.Print

import QuestScript.LinkSpan
import QuestScript.Text.Basic
import QuestScript.Text.Word

/-!
The extent of payloads, the text that a statement keyword swallows.

A payload runs to the end of the line or to an ampersand, whichever comes first, but an ampersand
inside a link span does not end it. While an `if` of the line waits for its `else`, a free-standing
`else` ends it too. The first field of a button may chain statements, so there the search for the
end starts behind the first comma.
-/

namespace QuestScript.Payload

open Text

/-- What a payload ends at. -/
inductive Stop
  | lineEnd
  | ampersand
  | elseWord
  deriving DecidableEq, Repr

/-- Whether the text starts with the word `else`, in any case. -/
def startsElse (cs : List Char) : Bool :=
  (cs.take 4).map Char.toLower = ['e', 'l', 's', 'e'] && !(cs.drop 4).head?.any isWordChar

/-- A space or a tab. -/
def isGap (c : Char) : Bool := c = ' ' || c = '\t'

/-- The length of the payload at the start of the text, and what it ends at. The word `else` ends
it only where `elseEnds` says so, and only at the start or behind a gap, as `fresh` tells. -/
def extent (elseEnds fresh : Bool) (cs : List Char) : Nat × Stop :=
  match cs with
  | [] => (0, .lineEnd)
  | c :: rest =>
    if c = '\n' then (0, .lineEnd)
    else if c = '&' then (0, .ampersand)
    else if elseEnds && fresh && startsElse (c :: rest) then (0, .elseWord)
    else
      let more := ((LinkSpan.length? (c :: rest)).getD 1) - 1
      let tail := extent elseEnds (more = 0 && isGap c) (rest.drop more)
      (tail.1 + more + 1, tail.2)
termination_by cs.length

/-- How many characters stand in front of the first comma of a payload that may hold ampersands,
if there is a comma. -/
def comma? (elseEnds fresh : Bool) (cs : List Char) : Option Nat :=
  match cs with
  | [] => none
  | c :: rest =>
    if c = '\n' then none
    else if c = ',' then some 0
    else if elseEnds && fresh && startsElse (c :: rest) then none
    else
      let more := ((LinkSpan.length? (c :: rest)).getD 1) - 1
      (comma? elseEnds (more = 0 && isGap c) (rest.drop more)).map (· + more + 1)
termination_by cs.length

/-- The extent of a button's payload. -/
def buttonExtent (elseEnds : Bool) (cs : List Char) : Nat × Stop :=
  match comma? elseEnds true cs with
  | some n =>
    let tail := extent elseEnds true (cs.drop (n + 1))
    (tail.1 + n + 1, tail.2)
  | none => extent elseEnds true cs

/-- The payload without the blanks that belong to what it ends at: a carriage return at the end of
the line, all gaps in front of an ampersand or an `else`. -/
def settle (stop : Stop) (text : List Char) : List Char :=
  match stop with
  | .lineEnd => dropReturn text
  | .ampersand | .elseWord => dropEndWhile (fun c => isGap c || c = '\r') text

end QuestScript.Payload

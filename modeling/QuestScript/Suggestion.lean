import QuestScript.Text.Lowercase

/-!
Suggestions for misspelled keywords, by the number of letters that have to be inserted, removed or
replaced.
-/

namespace QuestScript.Suggestion

open Text

/-- The distances from a text that ends with `a` to all beginnings of a text, from those of the
text without `a`. The first distance is given, and the others follow it. -/
def nextDistances (a : Char) (left : Nat) : List Char → List Nat → List Nat
  | b :: bs, diagonal :: above :: rest =>
    let here := min (min (above + 1) (left + 1)) (diagonal + if a = b then 0 else 1)
    here :: nextDistances a here bs (above :: rest)
  | _, _ => []

/-- The distances from a text to all beginnings of `bs`, from those of a beginning of the text. -/
def distances (bs : List Char) (row : List Nat) : List Char → List Nat
  | [] => row
  | a :: as =>
    let first := row.headD 0 + 1
    distances bs (first :: nextDistances a first bs row) as

/-- The distance between two texts as they are. -/
def exactDistance (as bs : List Char) : Nat :=
  (distances bs (List.range (bs.length + 1)) as).getLastD 0

/-- The distance between two texts in lower case. -/
def distance (a b : String) : Nat := exactDistance (lowercase a.toList) (lowercase b.toList)

/-- The words that a misspelled word may have been meant for. -/
def keywords : List String :=
  ["print", "println", "pln", "btn", "goto", "proc", "forget_proc", "forget_procs", "end",
    "input", "anykey", "save", "quit", "cls", "pause", "play", "music", "image", "invkill",
    "instr", "if", "then", "else", "and", "or", "xor", "not", "true", "false"]

/-- The distance up to which a keyword is suggested, by the size of the word in bytes. -/
def limit (word : String) : Nat := if 4 ≤ word.utf8ByteSize then 2 else 1

/-- Whether the sizes in bytes differ too much for a suggestion. -/
def tooDifferent (word keyword : String) : Bool :=
  word.utf8ByteSize + 2 < keyword.utf8ByteSize || keyword.utf8ByteSize + 2 < word.utf8ByteSize

/-- The nearest of the keywords and the best one so far. There is none for a word that is itself a
keyword. -/
def nearestFrom (word : String) (best : Option (String × Nat)) : List String → Option String
  | [] => best.map Prod.fst
  | keyword :: rest =>
    if tooDifferent word keyword then nearestFrom word best rest
    else
      let d := distance (String.ofList (lowercase word.toList)) keyword
      if d = 0 then none
      else if d ≤ limit word && best.all (d < ·.2) then nearestFrom word (some (keyword, d)) rest
      else nearestFrom word best rest

/-- The keyword that a word was meant for. Words of at most two characters are names. -/
def nearest? (word : String) (keywords : List String) : Option String :=
  if word.length ≤ 2 then none else nearestFrom word none keywords

end QuestScript.Suggestion

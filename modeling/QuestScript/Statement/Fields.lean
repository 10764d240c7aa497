import QuestScript.LinkSpan

/-!
Fields of a payload, separated by commas outside of link spans.

A text is held by its bytes, while the search for commas and link spans goes over its characters. So
three places are kept while the fields are cut out of the text: the character that the search has
come to, the byte where that character starts, which a table tells, and the byte where the field
starts.
-/

namespace QuestScript.Fields

/-- How many characters stand in front of the first comma outside of link spans. -/
def comma? (cs : List Char) : Option Nat :=
  match cs with
  | [] => none
  | c :: rest =>
    if c = ',' then some 0
    else
      let more := ((LinkSpan.length? (c :: rest)).getD 1) - 1
      (comma? (rest.drop more)).map (· + more + 1)
termination_by cs.length

/-- Splits at so many commas. The last field keeps the remaining ones. -/
def split : Nat → List Char → List (List Char)
  | 0, cs => [cs]
  | n + 1, cs =>
    match comma? cs with
    | some k => cs.take k :: split n (cs.drop (k + 1))
    | none => [cs]

/-! ### Fields as slices of a text -/

/-- At which byte each character of a text starts. The text itself starts at the given one. -/
def offsets (start : Nat) : List Char → List Nat
  | [] => []
  | c :: cs => start :: offsets (start + c.utf8Size) cs

/-- The part of a text from one byte up to another. There is none unless both are boundaries between
characters, and in order. -/
def slice? (text : String) (first last : Nat) : Option String := do
  let first ← text.pos? ⟨first⟩
  let last ← text.pos? ⟨last⟩
  let part ← text.slice? first last
  return part.copy

/-- Goes on cutting at the character `i`, where the given rest of the text starts. The fields so far
are given, and the byte where the next one starts. The last field keeps all that is left. -/
def slicesFrom? (text : String) (max : Nat) (fields : List String) (start i : Nat)
    (rest : List Char) : Option (List String) :=
  match rest with
  | [] => (slice? text start text.utf8ByteSize).map (fields ++ [·])
  | c :: rest =>
    if max ≤ fields.length + 1 then (slice? text start text.utf8ByteSize).map (fields ++ [·])
    else match LinkSpan.length? (c :: rest) with
      | some n => slicesFrom? text max fields start (i + n) (rest.drop (n - 1))
      | none =>
        if c = ',' then do
          let comma ← (offsets 0 text.toList)[i]?
          let field ← slice? text start comma
          slicesFrom? text max (fields ++ [field]) (comma + 1) (i + 1) rest
        else slicesFrom? text max fields start (i + 1) rest
termination_by rest.length
decreasing_by
  · exact Nat.lt_succ_of_le (List.drop_sublist (n - 1) rest).length_le
  · exact Nat.lt_succ_self rest.length
  · exact Nat.lt_succ_self rest.length

/-- The fields of a text, at most so many, cut out of its bytes. -/
def slices? (text : String) (max : Nat) : Option (List String) :=
  slicesFrom? text max [] 0 0 text.toList

end QuestScript.Fields

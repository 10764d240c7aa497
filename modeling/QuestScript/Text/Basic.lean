/-!
Texts as lists of characters.

Character properties are tabulated by closed ranges of code points. Blank characters are those with
the Unicode property White_Space, and they are removed from the ends of texts. A line ends at a line
feed, a carriage return right before it belongs to the line end, and a text that ends with a line
feed has no further line behind it.
-/

namespace QuestScript.Text

/-- Whether some range holds the code point. -/
def inRanges (ranges : List (Nat × Nat)) (n : Nat) : Bool :=
  ranges.any fun r => r.1 ≤ n && n ≤ r.2

/-! ### Blanks -/

/-- The blank characters, 25 in all. -/
def blankRanges : List (Nat × Nat) :=
  [(0x09, 0x0D), (0x20, 0x20), (0x85, 0x85), (0xA0, 0xA0), (0x1680, 0x1680), (0x2000, 0x200A),
    (0x2028, 0x2029), (0x202F, 0x202F), (0x205F, 0x205F), (0x3000, 0x3000)]

/-- Whether the character is white space in any script. -/
def isBlank (c : Char) : Bool := inRanges blankRanges c.toNat

/-- The text without the characters of the given kind at its end. -/
def dropEndWhile (p : Char → Bool) (cs : List Char) : List Char :=
  (cs.reverse.dropWhile p).reverse

/-- The text without blanks at its start. -/
def trimStart (cs : List Char) : List Char := cs.dropWhile isBlank

/-- The text without blanks at its end. -/
def trimEnd (cs : List Char) : List Char := dropEndWhile isBlank cs

/-- The text without blanks at either end. -/
def trim (cs : List Char) : List Char := trimEnd (trimStart cs)

/-- How many blanks stand at the start of the text. -/
def leadingBlanks (cs : List Char) : Nat := (cs.takeWhile isBlank).length

/-! ### Lines -/

/-- Removes one carriage return at the end. -/
def dropReturn (line : List Char) : List Char :=
  if line.getLast? = some '\r' then line.dropLast else line

/-- The lines of a text whose first line starts with the characters of `begun`, last one
first. -/
def linesFrom (begun : List Char) : List Char → List (List Char)
  | [] => if begun.isEmpty then [] else [begun.reverse]
  | c :: cs =>
    if c = '\n' then dropReturn begun.reverse :: linesFrom [] cs else linesFrom (c :: begun) cs

/-- The lines of a text, without their ends. -/
def lines (cs : List Char) : List (List Char) := linesFrom [] cs

/-! ### Cutting at a character -/

theorem notMem_takeWhile {p : Char → Bool} {c : Char} (h : p c = false) (cs : List Char) :
    c ∉ cs.takeWhile p := by
  intro hmem
  have hc := List.all_eq_true.1 List.all_takeWhile c hmem
  simp [h] at hc

theorem takeWhile_append_of_notMem {c : Char} {front : List Char} (h : c ∉ front)
    (rest : List Char) : (front ++ c :: rest).takeWhile (· != c) = front := by
  have hall : ∀ d ∈ front, (d != c) = true := fun d hd => by
    simpa using fun heq : d = c => h (heq ▸ hd)
  rw [List.takeWhile_append_of_pos hall, List.takeWhile_cons_of_neg (by simp), List.append_nil]

/-- A character that occurs ends the part in front of its first occurrence. -/
theorem eq_takeWhile_append {c : Char} {cs : List Char} (h : c ∈ cs) :
    ∃ rest, cs = cs.takeWhile (· != c) ++ c :: rest := by
  obtain ⟨front, rest, rfl, hfront⟩ := List.eq_append_cons_of_mem h
  exact ⟨rest, by rw [takeWhile_append_of_notMem hfront]⟩

end QuestScript.Text

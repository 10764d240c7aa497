import QuestScript.Decimal.Reading
import QuestScript.Fault
import QuestScript.Text.Lowercase
import QuestScript.Token.Payload

/-!
From quest source to tokens.

The source is read piece by piece. A piece is a token with its lexeme, or a stretch without one: a
comment, a directive line, or a character that fits nowhere. How some pieces are read depends on
what was read before them, which the mode keeps: whether a line or a statement begins here, and how
many `if`s of the line wait for their `else`. A line break resets the mode.
-/

namespace QuestScript

open Text

/-! ### Reserved words -/

/-- What a reserved word starts. -/
inductive Keyword
  | mark (m : Mark)
  | carrier (c : Carrier)
  /-- An inventory statement if a plus or a minus follows, and a name otherwise. -/
  | inventory
  /-- A line for the player program, which is not read. -/
  | instruction
  deriving DecidableEq, Repr

namespace Keyword

/-- The reserved words in lower case. -/
def table : List (String × Keyword) :=
  [("if", .mark .ifWord), ("then", .mark .thenWord), ("else", .mark .elseWord),
    ("and", .mark .and), ("or", .mark .or), ("xor", .mark .xor), ("not", .mark .not),
    ("true", .mark .true), ("false", .mark .false), ("end", .mark .endWord),
    ("input", .mark .input), ("anykey", .mark .anyKey), ("forget_proc", .mark .forgetCalls),
    ("forget_procs", .mark .forgetCalls), ("quit", .mark .quit), ("cls", .mark .clearScreen),
    ("pause", .mark .pause), ("p", .carrier (.print false)), ("print", .carrier (.print false)),
    ("pln", .carrier (.print true)), ("println", .carrier (.print true)),
    ("btn", .carrier .button), ("goto", .carrier .goto), ("proc", .carrier .call),
    ("save", .carrier .save), ("play", .carrier (.media .play)),
    ("music", .carrier (.media .music)), ("image", .carrier (.media .image)),
    ("inv", .inventory), ("invkill", .carrier .inventoryClear), ("instr", .instruction)]

/-- The keyword that a word is, whatever the case of its letters. -/
def ofWord? (word : List Char) : Option Keyword :=
  table.lookup (String.ofList (Text.lowercase word))

end Keyword

/-! ### Pieces -/

/-- What the tokens so far say about the next one. -/
structure Mode where
  /-- No token of this line has been read. -/
  lineStart : Bool
  /-- The next word begins a statement. -/
  statementStart : Bool
  /-- How many `if`s of this line wait for their `else`. -/
  openIfs : Nat
  deriving DecidableEq, Repr

namespace Mode

/-- The mode in which every line begins. -/
def fresh : Mode := ⟨true, true, 0⟩

/-- Whether `else` ends a payload. -/
def elseEnds (m : Mode) : Bool := 0 < m.openIfs

/-- The mode behind a token. -/
def after (m : Mode) : Token → Mode
  | .mark .lineBreak => fresh
  | .mark .ifWord => ⟨false, false, m.openIfs + 1⟩
  | .mark .elseWord => ⟨false, true, m.openIfs - 1⟩
  | .mark .thenWord | .mark .ampersand => ⟨false, true, m.openIfs⟩
  | _ => ⟨false, false, m.openIfs⟩

end Mode

/-- A stretch of source that is read at once. -/
structure Piece where
  /-- How many characters it covers. -/
  width : Nat
  /-- The token it stands for, with the lexeme of that token. -/
  token : Option (Token × List Char)
  fault : Option Fault
  deriving DecidableEq, Repr

namespace Piece

/-- A stretch that is passed over. -/
def skipped (width : Nat) : Piece := ⟨width, none, none⟩

/-- One character that is passed over and reported. -/
def wrong (fault : Fault) : Piece := ⟨1, none, some fault⟩

/-- A token that covers the first `width` characters of the text. -/
def plain (token : Token) (width : Nat) (cs : List Char) : Piece :=
  ⟨width, some (token, trimEnd (cs.take width)), none⟩

/-- A payload token whose payload starts behind the first `lead` characters of the text. -/
def payload (carrier : Carrier) (lead : Nat) (extent : Nat × Payload.Stop) (cs : List Char) :
    Piece :=
  let text := Payload.settle extent.2 ((cs.drop lead).take extent.1)
  ⟨lead + extent.1, some (.payload carrier (String.ofList text), cs.take lead ++ text), none⟩

/-- The rest of the line, without its end. -/
def lineLength (cs : List Char) : Nat := (cs.takeWhile (· != '\n')).length

/-- A run of line breaks and blanks. -/
def ofLineBreak (cs : List Char) : Piece :=
  let width := (cs.takeWhile fun c => c = '\n' || c = ' ' || c = '\t' || c = '\r').length
  plain (.mark .lineBreak) width cs

/-- How many characters it takes to the end of a comment that has begun. -/
def commentEnd? : List Char → Option Nat
  | [] => none
  | [_] => none
  | c :: d :: cs =>
    if c = '*' && d = '/' then some 2 else (commentEnd? (d :: cs)).map (· + 1)

/-- A block comment. One that spans a line break is a line break. -/
def ofComment (cs : List Char) : Piece :=
  let inside := commentEnd? (cs.drop 2)
  let width := inside.elim cs.length (· + 2)
  let fault := if inside.isSome then none else some .unterminatedComment
  if (cs.take width).contains '\n' then { plain (.mark .lineBreak) width cs with fault }
  else { skipped width with fault }

/-- A label, whose name is the rest of the statement. -/
def ofLabel (mode : Mode) (cs : List Char) : Piece :=
  let gap := (cs.tail.takeWhile fun c => c = ' ' || c = '\t' || c = '\r').length
  let lead := gap + 1
  let extent := Payload.extent mode.elseEnds true (cs.drop lead)
  let name := trimEnd (Payload.settle extent.2 ((cs.drop lead).take extent.1))
  ⟨lead + extent.1, some (.payload .label (String.ofList name), cs.take lead ++ name), none⟩

/-- A string literal. It has no escapes and may span lines. -/
def ofString (cs : List Char) : Piece :=
  if cs.tail.contains '"' then
    let value := cs.tail.takeWhile (· != '"')
    plain (.string (String.ofList value)) (value.length + 2) cs
  else wrong .unterminatedString

def ofNumber (cs : List Char) : Piece :=
  let numeral := Numeral.ofText cs
  plain (.number numeral.value) numeral.text.length cs

/-- A payload token behind a keyword of the given length. One space or tab separates the two. -/
def ofCarrier (mode : Mode) (carrier : Carrier) (length : Nat) (cs : List Char) : Piece :=
  let lead := length + ((cs.drop length).take 1 |>.filter Payload.isGap).length
  let behind := cs.drop lead
  let extent := if carrier = .button then Payload.buttonExtent mode.elseEnds behind
    else Payload.extent mode.elseEnds true behind
  payload carrier lead extent cs

/-- A keyword or a name. -/
def ofWord (mode : Mode) (cs : List Char) : Piece :=
  let word := cs.takeWhile isWordChar
  let name := plain (.name (String.ofList word)) word.length cs
  match Keyword.ofWord? word with
  | some (.mark m) => plain (.mark m) word.length cs
  | some (.carrier c) => ofCarrier mode c word.length cs
  | some .inventory =>
    if mode.statementStart then
      match (cs.drop word.length).head? with
      | some '+' => ofCarrier mode .inventoryAdd (word.length + 1) cs
      | some '-' => ofCarrier mode .inventoryRemove (word.length + 1) cs
      | _ => name
    else name
  | some .instruction => if mode.lineStart then skipped (lineLength cs) else name
  | none => name

/-- The operator that starts with the given character, and how many characters it has. -/
def operator? (c : Char) (next : Option Char) : Option (Mark × Nat) :=
  match c with
  | '&' => some (if next = some '&' then (.and, 2) else (.ampersand, 1))
  | '|' => if next = some '|' then some (.or, 2) else none
  | '^' => if next = some '^' then some (.xor, 2) else none
  | '=' => some (if next = some '=' then (.maskEqual, 2) else (.equal, 1))
  | '!' => if next = some '=' then some (.notEqual, 2) else none
  | '<' =>
    some (if next = some '>' then (.notEqual, 2)
      else if next = some '=' then (.lessEqual, 2) else (.less, 1))
  | '>' => some (if next = some '=' then (.greaterEqual, 2) else (.greater, 1))
  | '/' => some (if next = some '/' then (.doubleSlash, 2) else (.slash, 1))
  | '+' => some (.plus, 1)
  | '-' => some (.minus, 1)
  | '*' => some (.star, 1)
  | '%' => some (.percent, 1)
  | '(' => some (.leftParen, 1)
  | ')' => some (.rightParen, 1)
  | ',' => some (.comma, 1)
  | _ => none

def ofOperator (c : Char) (rest : List Char) : Piece :=
  match operator? c rest.head? with
  | some (m, width) => plain (.mark m) width (c :: rest)
  | none => wrong (.unexpectedCharacter c)

/-- The piece at the start of a text that does not start with a blank. -/
def read (mode : Mode) (c : Char) (rest : List Char) : Piece :=
  let cs := c :: rest
  let next := rest.head?
  if c = '\n' then ofLineBreak cs
  else if c = ';' then skipped (lineLength cs)
  else if c = '/' && next = some '*' then ofComment cs
  else if mode.lineStart && (c = '/' || c = '-') && next = some c then skipped (lineLength cs)
  else if mode.lineStart && c = ':' then ofLabel mode cs
  else if c = '"' then ofString cs
  else if c.isDigit || (c = '.' && next.any Char.isDigit) then ofNumber cs
  else if isAlphabetic c then ofWord mode cs
  else ofOperator c rest

end Piece

/-! ### Whole texts -/

/-- The tokens of a text, the last of them the end of the source, and what was wrong with it. -/
structure Scan where
  lexemes : List Lexeme
  reports : List Report
  deriving DecidableEq, Repr

namespace Scan

/-- A line break behind another one, or in front of everything, is not kept. -/
def keeps (mode : Mode) (token : Token) : Bool := !(mode.lineStart && token = .mark .lineBreak)

/-- Puts what a piece gives in front of what follows it. -/
def add (mode : Mode) (place : Position) (piece : Piece) (later : Scan) : Scan where
  lexemes := match piece.token with
    | some (token, text) =>
      if keeps mode token then ⟨token, String.ofList text, place⟩ :: later.lexemes
      else later.lexemes
    | none => later.lexemes
  reports := match piece.fault with
    | some fault => ⟨fault, place⟩ :: later.reports
    | none => later.reports

/-- Reads a text that starts at the given place, in the given mode. -/
def read (mode : Mode) (place : Position) (cs : List Char) : Scan :=
  match cs with
  | [] => ⟨[⟨.mark .sourceEnd, "", place⟩], []⟩
  | c :: rest =>
    if c = ' ' || c = '\t' || c = '\r' then read mode (place.right 1) rest
    else
      let piece := Piece.read mode c rest
      let more := piece.width - 1
      let behind := (place.next c).advance (rest.take more)
      add mode place piece
        (read (piece.token.elim mode fun t => mode.after t.1) behind (rest.drop more))
termination_by cs.length

end Scan

/-- A reader of tokens from one source. It can be asked for its tokens again and stands at the end
of the source from the first time on; the reports of all times are kept. -/
structure Scanner where
  rest : List Char
  place : Position
  reports : List Report

namespace Scanner

def ofText (source : String) (place : Position) : Scanner := ⟨source.toList, place, []⟩

/-- The tokens from here to the end of the source. -/
def run (s : Scanner) : List Lexeme × Scanner :=
  let scan := Scan.read .fresh s.place s.rest
  (scan.lexemes, ⟨[], s.place.advance s.rest, s.reports ++ scan.reports⟩)

end Scanner

end QuestScript

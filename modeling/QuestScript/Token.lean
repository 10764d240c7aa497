import QuestScript.Decimal.Writing
import QuestScript.Position

/-!
Tokens of quest source.

Most tokens are marks: a keyword, an operator or a line break, with nothing else to say about
them. A payload token is a keyword together with the text it swallows, up to the end of its
statement; what that text means is found out later. Numbers, strings and names carry a value.
-/

namespace QuestScript

/-- What a media statement shows or plays. -/
inductive Media
  | play
  | music
  | image
  deriving DecidableEq, Repr

/-- A token that is told by its kind alone. -/
inductive Mark
  | ifWord
  | thenWord
  | elseWord
  | and
  | or
  | xor
  | not
  | true
  | false
  | endWord
  | input
  | anyKey
  | forgetCalls
  | quit
  | clearScreen
  | pause
  | plus
  | minus
  | star
  | slash
  | doubleSlash
  | percent
  | equal
  | maskEqual
  | notEqual
  | less
  | lessEqual
  | greater
  | greaterEqual
  | leftParen
  | rightParen
  | comma
  | ampersand
  | lineBreak
  | sourceEnd
  deriving DecidableEq, Repr

/-- A statement keyword that swallows the rest of its statement as text. -/
inductive Carrier
  | print (newline : Bool)
  | button
  | goto
  | call
  | save
  | label
  | inventoryAdd
  | inventoryRemove
  | inventoryClear
  | media (kind : Media)
  deriving DecidableEq, Repr

inductive Token
  | mark (m : Mark)
  | payload (carrier : Carrier) (text : String)
  | number (value : Binary64)
  | string (value : String)
  | name (value : String)
  deriving DecidableEq, Repr

/-- How a mark is written. -/
def Mark.spelling : Mark → String
  | ifWord => "if"
  | thenWord => "then"
  | elseWord => "else"
  | and => "and"
  | or => "or"
  | xor => "xor"
  | not => "not"
  | true => "true"
  | false => "false"
  | endWord => "end"
  | input => "input"
  | anyKey => "anykey"
  | forgetCalls => "forget_procs"
  | quit => "quit"
  | clearScreen => "cls"
  | pause => "pause"
  | plus => "+"
  | minus => "-"
  | star => "*"
  | slash => "/"
  | doubleSlash => "//"
  | percent => "%"
  | equal => "="
  | maskEqual => "=="
  | notEqual => "!="
  | less => "<"
  | lessEqual => "<="
  | greater => ">"
  | greaterEqual => ">="
  | leftParen => "("
  | rightParen => ")"
  | comma => ","
  | ampersand => "&"
  | lineBreak => "newline"
  | sourceEnd => "EOF"

/-- How a payload keyword is written. -/
def Carrier.spelling : Carrier → String
  | print newline => if newline then "pln" else "p"
  | button => "btn"
  | goto => "goto"
  | call => "proc"
  | save => "save"
  | label => ":"
  | inventoryAdd => "inv+"
  | inventoryRemove => "inv-"
  | inventoryClear => "invkill"
  | media .play => "play"
  | media .music => "music"
  | media .image => "image"

namespace Token

/-- The text that a payload token swallowed. -/
def text? : Token → Option String
  | payload _ text => some text
  | _ => none

/-- How a message speaks of the token. -/
def describe : Token → String
  | mark .lineBreak => "end of line"
  | mark .sourceEnd => "end of input"
  | mark m => "`" ++ m.spelling ++ "`"
  | payload carrier _ => "`" ++ carrier.spelling ++ "`"
  | number value => "number `" ++ value.plain ++ "`"
  | string value => "string \"" ++ value ++ "\""
  | name value => "identifier `" ++ value ++ "`"

end Token

/-- A token in its place: what was read, the text it was read from, and where that starts. -/
structure Lexeme where
  token : Token
  text : String
  start : Position
  deriving DecidableEq, Repr

namespace Lexeme

/-- Where the text of a payload token starts. It is the end of the lexeme. -/
def payloadStart (l : Lexeme) : Position :=
  l.start.right (l.text.length - (l.token.text?.elim 0 String.length))

/-- Whether the lexeme ends a statement at line level: a separator or a line end. -/
def endsStatement (l : Lexeme) : Bool :=
  l.token = .mark .ampersand || l.token = .mark .lineBreak

/-- The tokens in front of the end of the source, and the lexeme that marks the end. Where the list
has no such lexeme, the end is where the last token is. -/
def untilEnd (ts : List Lexeme) : List Lexeme × Lexeme :=
  let ahead := ts.takeWhile fun l => l.token != .mark .sourceEnd
  let place := (ts.getLast?.map start).getD Position.start
  (ahead, ((ts.drop ahead.length).head?).getD ⟨.mark .sourceEnd, "", place⟩)

end Lexeme

end QuestScript

import QuestScript.Expr
import QuestScript.Text.Word
import QuestScript.Token

/-!
The program tree. A program is a list of groups, one for each logical line with statements on it.
Groups also stand inside statements, as the branches of a conditional and as the actions of links
and buttons.
-/

namespace QuestScript

/-- What an inventory statement does. -/
inductive InventoryChange
  /-- Changes the number of an item. A removal carries a negated quantity. -/
  | change (quantity : NumberExpr) (item : String)
  /-- Removes an item, or all of them, altogether. -/
  | clear (item : Option String)
  deriving DecidableEq, Repr

mutual

inductive Statement
  | assign (name : String) (value : Expr)
  | conditional (condition : BoolExpr) (thenGroup : Group) (elseGroup : Option Group)
  | print (segments : List Segment) (newline : Bool)
  | goto (target : String)
  | label (name : String)
  | button (label : String) (action : Group) (extra : Option String)
  | finish
  | input (into : Option String)
  | anyKey (into : Option String)
  | call (target : String)
  | dropCalls
  | inventory (change : InventoryChange)
  | quit
  | save (slot : Option String)
  | clearScreen
  | pause (duration : NumberExpr)
  | media (kind : Media) (source : String)

/-- Statements chained on one logical line, and the number of that line. -/
structure Group where
  statements : List Statement
  line : Nat

/-- A part of a printed text. -/
inductive Segment
  | literal (text : String)
  /-- The value of a variable. -/
  | value (name : String)
  | link (label : String) (action : Group)

end

namespace Group

/-- The group that only jumps to a location. -/
def jump (target : String) (line : Nat) : Group := ⟨[.goto target], line⟩

/-- Where the group jumps to, if it does nothing else. -/
def jumpTarget? (g : Group) : Option String :=
  match g.statements with
  | [.goto target] => some target
  | _ => none

end Group

structure Program where
  groups : List Group

namespace Program

/-- The statements of all lines, in order. -/
def statements (p : Program) : List Statement := p.groups.flatMap fun g => g.statements

/-- Whether the group begins with the label, in any ASCII case. -/
def beginsWith (name : String) (g : Group) : Bool :=
  match g.statements with
  | .label n :: _ => Text.sameAsciiLetters n.toList name.toList
  | _ => false

/-- The line of a label. -/
def labelLine? (p : Program) (name : String) : Option Nat :=
  (p.groups.find? (beginsWith name)).map Group.line

end Program

end QuestScript

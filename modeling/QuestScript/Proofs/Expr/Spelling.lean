import QuestScript.Expr
import QuestScript.Token

/-!
The canonical spelling of expressions.

Every operator has a level, and an operand is put in parentheses only where it binds less tightly
than its place asks for. Operators of one level group to the left, so the place on the right asks
for one level more than the operator has.
-/

namespace QuestScript

namespace Arithmetic

def mark : Arithmetic → Mark
  | add => .plus
  | subtract => .minus
  | multiply => .star
  | divide => .slash
  | intDivide => .doubleSlash
  | modulo => .percent

def level : Arithmetic → Nat
  | add | subtract => 4
  | _ => 5

end Arithmetic

namespace Connective

def mark : Connective → Mark
  | and => .and
  | or => .or
  | xor => .xor

def level : Connective → Nat
  | and => 2
  | _ => 1

end Connective

def Comparison.mark : Comparison → Mark
  | equal => .equal
  | maskEqual => .maskEqual
  | notEqual => .notEqual
  | less => .less
  | lessEqual => .lessEqual
  | greater => .greater
  | greaterEqual => .greaterEqual

/-- The tokens of an operand of a level, where the place asks for another one. -/
def Token.within (wanted level : Nat) (ts : List Token) : List Token :=
  if level < wanted then .mark .leftParen :: (ts ++ [.mark .rightParen]) else ts

namespace NumberExpr

def level : NumberExpr → Nat
  | binary op _ _ => op.level
  | negate _ => 6
  | _ => 7

def tokens : NumberExpr → List Token
  | const value => [.number value]
  | var name => [.name name]
  | negate operand => .mark .minus :: Token.within 6 operand.level operand.tokens
  | binary op left right =>
    Token.within op.level left.level left.tokens ++
      .mark op.mark :: Token.within (op.level + 1) right.level right.tokens

end NumberExpr

namespace StringExpr

def level : StringExpr → Nat
  | concat _ _ => 4
  | _ => 7

def tokens : StringExpr → List Token
  | const value => [.string value]
  | var name => [.name name]
  | concat left right =>
    Token.within 4 left.level left.tokens ++
      .mark .plus :: Token.within 5 right.level right.tokens

/-- Joined operands group to the left, and there are no parentheses to group them otherwise. -/
def Grouped : StringExpr → Prop
  | concat left right => left.Grouped ∧ right.level = 7
  | _ => True

end StringExpr

namespace BoolExpr

def level : BoolExpr → Nat
  | logical op _ _ => op.level
  | compareNumbers _ _ _ | compareStrings _ _ _ | compareBools _ _ _ => 3
  | not _ => 6
  | _ => 7

/-- The tokens of a condition. The level that `not` asks its operand for is a parameter: `6`, as the
other unary operators do, or `3`, for a comparison needs no parentheses there. -/
def tokens (unary : Nat) : BoolExpr → List Token
  | const value => [.mark (if value then .true else .false)]
  | var name => [.name name]
  | not operand => .mark .not :: Token.within unary operand.level (operand.tokens unary)
  | logical op left right =>
    Token.within op.level left.level (left.tokens unary) ++
      .mark op.mark :: Token.within (op.level + 1) right.level (right.tokens unary)
  | compareNumbers op left right =>
    Token.within 4 left.level left.tokens ++
      .mark op.mark :: Token.within 4 right.level right.tokens
  | compareStrings op left right =>
    Token.within 4 left.level left.tokens ++
      .mark op.mark :: Token.within 4 right.level right.tokens
  | compareBools op left right =>
    Token.within 7 left.level (left.tokens unary) ++
      .mark op.mark :: Token.within 7 right.level (right.tokens unary)

def isVar : BoolExpr → Bool
  | var _ => true
  | _ => false

/-- Conditions that can be read: the operators admit their operands, and what is compared cannot be
taken for something else. -/
def Typed : BoolExpr → Prop
  | const _ | var _ => True
  | not operand => operand.Typed
  | logical _ left right => left.Typed ∧ right.Typed
  | compareNumbers op _ _ => op ≠ .maskEqual
  | compareStrings op left right =>
    op ∈ [.equal, .maskEqual, .notEqual] ∧ left.Grouped ∧ right.Grouped ∧
      (op = .maskEqual ∨ left.hasLiteral ∨ right.hasLiteral)
  | compareBools op left right =>
    op ∈ [.equal, .notEqual] ∧ left.Typed ∧ right.Typed ∧ ¬(left.isVar ∧ right.isVar)

end BoolExpr

namespace Expr

def tokens (unary : Nat) : Expr → List Token
  | bool value => value.tokens unary
  | number value => value.tokens
  | string value => value.tokens

/-- Values that can be read. A bare name is a number, and a text has a literal in it. -/
def Typed : Expr → Prop
  | bool value => value.Typed ∧ ¬value.isVar
  | number _ => True
  | string value => value.Grouped ∧ value.hasLiteral

end Expr

end QuestScript

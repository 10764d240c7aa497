import QuestScript.Decimal.Binary64

/-!
Expressions of the quest language: numbers, strings and conditions. They are three grammars of
their own, so they are three types, and a condition compares values of each of them.
-/

namespace QuestScript

inductive Arithmetic
  | add
  | subtract
  | multiply
  | divide
  | intDivide
  | modulo
  deriving DecidableEq, Repr

inductive Connective
  | and
  | or
  | xor
  deriving DecidableEq, Repr

inductive Comparison
  | equal
  /-- Exact equality of texts. -/
  | maskEqual
  | notEqual
  | less
  | lessEqual
  | greater
  | greaterEqual
  deriving DecidableEq, Repr

inductive NumberExpr
  | const (value : Binary64)
  | var (name : String)
  | negate (operand : NumberExpr)
  | binary (op : Arithmetic) (left right : NumberExpr)
  deriving DecidableEq, Repr

inductive StringExpr
  | const (value : String)
  | var (name : String)
  | concat (left right : StringExpr)
  deriving DecidableEq, Repr

inductive BoolExpr
  | const (value : Bool)
  | var (name : String)
  | not (operand : BoolExpr)
  | logical (op : Connective) (left right : BoolExpr)
  | compareNumbers (op : Comparison) (left right : NumberExpr)
  | compareStrings (op : Comparison) (left right : StringExpr)
  | compareBools (op : Comparison) (left right : BoolExpr)
  deriving DecidableEq, Repr

/-- The value of an assignment. -/
inductive Expr
  | bool (value : BoolExpr)
  | number (value : NumberExpr)
  | string (value : StringExpr)
  deriving DecidableEq, Repr

/-- Whether a string literal occurs in the expression. -/
def StringExpr.hasLiteral : StringExpr → Bool
  | const _ => true
  | var _ => false
  | concat left right => left.hasLiteral || right.hasLiteral

end QuestScript

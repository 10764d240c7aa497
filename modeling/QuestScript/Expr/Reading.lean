import QuestScript.Expr
import QuestScript.Outcome

/-!
Reading expressions.

In numeric expressions sums are made of terms, terms of factors, and a factor is a literal, a name,
a signed factor or a sum in parentheses. String expressions are literals and names joined by plus
signs. In conditions `and` binds tighter than `or` and `xor`, and `not` applies to a whole
comparison. Operators of one level group to the left.

Where a comparison may stand, three grammars compete. It is a comparison of texts if it can be read
as one and is plainly about text: it uses the mask operator, or a literal occurs on some side.
Otherwise it is a comparison of numbers if it can be read as one. Otherwise it is a plain condition,
perhaps compared with another one.

The type of an assigned value is decided by the tokens up to the end of the statement: a logical or
comparison operator makes it a condition; without any, a string literal makes it a text; otherwise
it is a number.
-/

namespace QuestScript

/-! ### Numbers -/

/-- Takes the parenthesis that closes what was read. -/
def Reading.close {α : Type} (a : α) : List Lexeme → Reading α
  | l :: _ => if l.token = .mark .rightParen then (Reading.pure a).after 1 else .fail .closing
  | [] => .fail .closing

namespace NumberExpr

/-- The operators between the terms of a sum. -/
def sumOp? : Token → Option Arithmetic
  | .mark .plus => some .add
  | .mark .minus => some .subtract
  | _ => none

/-- The operators between the factors of a term. -/
def termOp? : Token → Option Arithmetic
  | .mark .star => some .multiply
  | .mark .slash => some .divide
  | .mark .doubleSlash => some .intDivide
  | .mark .percent => some .modulo
  | _ => none

mutual

/-- Reads a sum. -/
def read (ts : List Lexeme) : Reading NumberExpr :=
  (readTerm ts).bind fun left k => readSum left (ts.drop k)
termination_by 3 * ts.length + 2

/-- Reads the terms that follow the sum on the left. -/
def readSum (left : NumberExpr) (ts : List Lexeme) : Reading NumberExpr :=
  match ts with
  | l :: rest =>
    match sumOp? l.token with
    | some op =>
      ((readTerm rest).bind fun right k =>
        readSum (.binary op left right) (rest.drop k)).after 1
    | none => .pure left
  | [] => .pure left
termination_by 3 * ts.length

/-- Reads a term. -/
def readTerm (ts : List Lexeme) : Reading NumberExpr :=
  (readFactor ts).bind fun left k => readProduct left (ts.drop k)
termination_by 3 * ts.length + 1

/-- Reads the factors that follow the product on the left. -/
def readProduct (left : NumberExpr) (ts : List Lexeme) : Reading NumberExpr :=
  match ts with
  | l :: rest =>
    match termOp? l.token with
    | some op =>
      ((readFactor rest).bind fun right k =>
        readProduct (.binary op left right) (rest.drop k)).after 1
    | none => .pure left
  | [] => .pure left
termination_by 3 * ts.length

/-- Reads a factor. A plus sign in front of it leaves no trace. -/
def readFactor (ts : List Lexeme) : Reading NumberExpr :=
  match ts with
  | l :: rest =>
    match l.token with
    | .mark .minus => ((readFactor rest).map negate).after 1
    | .mark .plus => (readFactor rest).after 1
    | .number value => (Reading.pure (const value)).after 1
    | .name name => (Reading.pure (var name)).after 1
    | .mark .leftParen =>
      ((read rest).bind fun inner k => Reading.close inner (rest.drop k)).after 1
    | _ => .fail .number
  | [] => .fail .number
termination_by 3 * ts.length

end

end NumberExpr

/-! ### Texts -/

namespace StringExpr

/-- Reads a literal or a name. -/
def readOperand : List Lexeme → Reading StringExpr
  | l :: _ =>
    match l.token with
    | .string value => (Reading.pure (const value)).after 1
    | .name name => (Reading.pure (var name)).after 1
    | _ => .fail .string
  | [] => .fail .string

/-- Reads the operands that follow the text on the left. -/
def readJoined (left : StringExpr) (ts : List Lexeme) : Reading StringExpr :=
  match ts with
  | l :: rest =>
    if l.token = .mark .plus then
      ((readOperand rest).bind fun right k => readJoined (.concat left right) (rest.drop k)).after 1
    else .pure left
  | [] => .pure left
termination_by ts.length

def read (ts : List Lexeme) : Reading StringExpr :=
  (readOperand ts).bind fun left k => readJoined left (ts.drop k)

end StringExpr

/-! ### Conditions -/

/-- The comparison operators that texts admit. -/
def Comparison.ofTexts? : Token → Option Comparison
  | .mark .equal => some .equal
  | .mark .maskEqual => some .maskEqual
  | .mark .notEqual => some .notEqual
  | _ => none

/-- The comparison operators that numbers admit. -/
def Comparison.ofNumbers? : Token → Option Comparison
  | .mark .equal => some .equal
  | .mark .notEqual => some .notEqual
  | .mark .less => some .less
  | .mark .lessEqual => some .lessEqual
  | .mark .greater => some .greater
  | .mark .greaterEqual => some .greaterEqual
  | _ => none

/-- The comparison operators that conditions admit. -/
def Comparison.ofConditions? : Token → Option Comparison
  | .mark .equal => some .equal
  | .mark .notEqual => some .notEqual
  | _ => none

namespace BoolExpr

/-- The operators between conjunctions. -/
def disjunctionOp? : Token → Option Connective
  | .mark .or => some .or
  | .mark .xor => some .xor
  | _ => none

/-- Two operands of one grammar with an operator between them, and how many lexemes they take. -/
def comparison? {α : Type} (operand : List Lexeme → Reading α) (op? : Token → Option Comparison)
    (ts : List Lexeme) : Option (Comparison × α × α × Nat) :=
  match operand ts with
  | ⟨.ok left, k⟩ =>
    match ts.drop k with
    | l :: rest =>
      match op? l.token, operand rest with
      | some op, ⟨.ok right, n⟩ => some (op, left, right, k + 1 + n)
      | _, _ => none
    | [] => none
  | _ => none

/-- A comparison of texts at the start of the list, if it is plainly about text. -/
def textComparison? (ts : List Lexeme) : Option (BoolExpr × Nat) :=
  match comparison? StringExpr.read Comparison.ofTexts? ts with
  | some (op, left, right, n) =>
    if op = .maskEqual || left.hasLiteral || right.hasLiteral then
      some (.compareStrings op left right, n)
    else none
  | none => none

/-- A comparison of numbers at the start of the list. -/
def numberComparison? (ts : List Lexeme) : Option (BoolExpr × Nat) :=
  match comparison? NumberExpr.read Comparison.ofNumbers? ts with
  | some (op, left, right, n) => some (.compareNumbers op left right, n)
  | none => none

mutual

/-- Reads a condition: conjunctions joined by `or` and `xor`. -/
def read (ts : List Lexeme) : Reading BoolExpr :=
  (readConjunction ts).bind fun left k => readDisjunction left (ts.drop k)
termination_by 4 * ts.length + 3

/-- Reads the conjunctions that follow the condition on the left. -/
def readDisjunction (left : BoolExpr) (ts : List Lexeme) : Reading BoolExpr :=
  match ts with
  | l :: rest =>
    match disjunctionOp? l.token with
    | some op =>
      ((readConjunction rest).bind fun right k =>
        readDisjunction (.logical op left right) (rest.drop k)).after 1
    | none => .pure left
  | [] => .pure left
termination_by 4 * ts.length

/-- Reads terms joined by `and`. -/
def readConjunction (ts : List Lexeme) : Reading BoolExpr :=
  (readTerm ts).bind fun left k => readConjuncts left (ts.drop k)
termination_by 4 * ts.length + 2

/-- Reads the terms that follow the conjunction on the left. -/
def readConjuncts (left : BoolExpr) (ts : List Lexeme) : Reading BoolExpr :=
  match ts with
  | l :: rest =>
    if l.token = .mark .and then
      ((readTerm rest).bind fun right k =>
        readConjuncts (.logical .and left right) (rest.drop k)).after 1
    else .pure left
  | [] => .pure left
termination_by 4 * ts.length

/-- Reads a comparison, a plain condition, or the negation of a term. -/
def readTerm (ts : List Lexeme) : Reading BoolExpr :=
  match ts with
  | l :: rest =>
    if l.token = .mark .not then ((readTerm rest).map BoolExpr.not).after 1
    else
      match (textComparison? (l :: rest)).or (numberComparison? (l :: rest)) with
      | some (e, n) => ⟨.ok e, n⟩
      | none =>
        (readPrimary (l :: rest)).bind fun left k => readEquality left ((l :: rest).drop k)
  | [] => .fail .condition
termination_by 4 * ts.length + 1

/-- Reads the condition that the one on the left is compared with, if there is one. -/
def readEquality (left : BoolExpr) (ts : List Lexeme) : Reading BoolExpr :=
  match ts with
  | l :: rest =>
    match Comparison.ofConditions? l.token with
    | some op => ((readPrimary rest).map (compareBools op left)).after 1
    | none => .pure left
  | [] => .pure left
termination_by 4 * ts.length

/-- Reads a constant, a name, or a condition in parentheses, perhaps negated. -/
def readPrimary (ts : List Lexeme) : Reading BoolExpr :=
  match ts with
  | l :: rest =>
    match l.token with
    | .mark .true => (Reading.pure (const true)).after 1
    | .mark .false => (Reading.pure (const false)).after 1
    | .name name => (Reading.pure (var name)).after 1
    | .mark .not => ((readPrimary rest).map BoolExpr.not).after 1
    | .mark .leftParen =>
      ((read rest).bind fun inner k => Reading.close inner (rest.drop k)).after 1
    | _ => .fail .condition
  | [] => .fail .condition
termination_by 4 * ts.length

end

end BoolExpr

/-! ### Values -/

namespace Expr

inductive Kind
  | bool
  | number
  | string
  deriving DecidableEq, Repr

/-- Whether the mark ends the statement that the value belongs to. -/
def endsValue : Mark → Bool
  | .ampersand | .lineBreak | .sourceEnd | .elseWord | .thenWord => true
  | _ => false

/-- Whether the mark occurs in conditions only. -/
def isLogical : Mark → Bool
  | .and | .or | .xor | .not | .true | .false | .equal | .maskEqual | .notEqual | .less
  | .lessEqual | .greater | .greaterEqual => true
  | _ => false

/-- The kind of the value at the start of the list, by default the given one. -/
def kindOf (default : Kind) : List Lexeme → Kind
  | [] => default
  | l :: rest =>
    match l.token with
    | .mark m => if endsValue m then default else if isLogical m then .bool else kindOf default rest
    | .string _ => kindOf .string rest
    | _ => kindOf default rest

def read (ts : List Lexeme) : Reading Expr :=
  match kindOf .number ts with
  | .bool => (BoolExpr.read ts).map .bool
  | .number => (NumberExpr.read ts).map .number
  | .string => (StringExpr.read ts).map .string

end Expr

end QuestScript

import QuestScript.Decimal.Binary64

/-!
Reading numbers: the number literals of the quest language, and whole texts.

A literal is digits, perhaps a point and more digits, perhaps an exponent. Digits in front of the
point may be missing, those behind it may not.

More texts are numbers than are literals, for example `1.` and `-1`. A sign may stand in front.
Behind it there is `inf`, `infinity` or `nan`, or a decimal number: digits with a point in front of
them, behind them or among them, or without a point, and perhaps an exponent. Letters may be of
either case. No other text is a number.
-/

namespace QuestScript

/-- A number literal by its parts. -/
structure Numeral where
  /-- The digits in front of the point. -/
  whole : List Char
  /-- The digits behind the point. Without any there is no point. -/
  fraction : List Char
  /-- The letter of the exponent and its sign, if it has one. -/
  mark : List Char
  /-- The digits of the exponent. Without any there is no exponent. -/
  power : List Char
  deriving DecidableEq, Repr

namespace Numeral

/-- The digits at the start of the text. -/
def digits (cs : List Char) : List Char := cs.takeWhile Char.isDigit

/-- The digits behind the point at the start of the text. -/
def fractionAt : List Char → List Char
  | c :: cs => if c = '.' then digits cs else []
  | [] => []

/-- The mark and the digits of the exponent at the start of the text. -/
def exponentAt : List Char → List Char × List Char
  | c :: cs =>
    if c = 'e' || c = 'E' then
      let sign := (cs.take 1).filter fun d => d = '+' || d = '-'
      let power := digits (cs.drop sign.length)
      if power.isEmpty then ([], []) else (c :: sign, power)
    else ([], [])
  | [] => ([], [])

/-- The fraction with its point. -/
def pointed (fraction : List Char) : List Char := if fraction.isEmpty then [] else '.' :: fraction

/-- The literal at the start of the text. -/
def ofText (cs : List Char) : Numeral :=
  let whole := digits cs
  let fraction := fractionAt (cs.drop whole.length)
  let (mark, power) := exponentAt (cs.drop (whole.length + (pointed fraction).length))
  ⟨whole, fraction, mark, power⟩

/-- The literal as it is written. -/
def text (n : Numeral) : List Char := n.whole ++ pointed n.fraction ++ n.mark ++ n.power

/-- The number that digits stand for. -/
def digitsValue (ds : List Char) : Nat := ds.foldl (fun v d => 10 * v + (d.toNat - '0'.toNat)) 0

/-- The exponent of the literal, zero if it has none. -/
def exponent (n : Numeral) : Int :=
  if n.mark.contains '-' then -(digitsValue n.power : Int) else digitsValue n.power

/-- The double-precision number nearest to the literal. -/
def value (n : Numeral) : Binary64 :=
  .ofDecimal (digitsValue (n.whole ++ n.fraction)) (n.exponent - n.fraction.length)

example : (ofText "12.5e-1x".toList).text = "12.5e-1".toList := by decide +kernel

example : (ofText "1.e5".toList).text = "1".toList := by decide +kernel

end Numeral

namespace Binary64

open Numeral (digits digitsValue)

def nan : Binary64 := ⟨0x7FF8000000000000⟩

/-- The number with the other sign. -/
def negate (x : Binary64) : Binary64 := ⟨x.bits ^^^ 0x8000000000000000⟩

/-- The natural number that a text of digits stands for. There is at least one digit. -/
def natural? (cs : List Char) : Option Nat :=
  if cs.isEmpty || !cs.all Char.isDigit then none else some (digitsValue cs)

/-- The exponent that a text stands for, with its letter. Without any text it is zero. -/
def exponent? : List Char → Option Int
  | [] => some 0
  | c :: cs =>
    if c = 'e' || c = 'E' then
      match cs with
      | '-' :: ds => (natural? ds).map fun n => -(n : Int)
      | '+' :: ds => (natural? ds).map Int.ofNat
      | ds => (natural? ds).map Int.ofNat
    else none

/-- The digits of a decimal number in front of its point and behind it, and what follows them. -/
def mantissa (cs : List Char) : List Char × List Char × List Char :=
  let whole := digits cs
  match cs.drop whole.length with
  | '.' :: behind => (whole, digits behind, behind.drop (digits behind).length)
  | behind => (whole, [], behind)

/-- The number nearest to the decimal number that a text stands for. -/
def decimal? (cs : List Char) : Option Binary64 :=
  let (whole, fraction, behind) := mantissa cs
  if whole.isEmpty && fraction.isEmpty then none
  else (exponent? behind).map fun e =>
    ofDecimal (digitsValue (whole ++ fraction)) (e - fraction.length)

/-- The number that a text without a sign stands for. -/
def unsigned? (cs : List Char) : Option Binary64 :=
  let name := cs.map Char.toLower
  if name = ['i', 'n', 'f'] || name = ['i', 'n', 'f', 'i', 'n', 'i', 't', 'y'] then some infinity
  else if name = ['n', 'a', 'n'] then some nan
  else decimal? cs

/-- The number that a text stands for. -/
def ofText? : List Char → Option Binary64
  | '-' :: cs => (unsigned? cs).map negate
  | '+' :: cs => unsigned? cs
  | cs => unsigned? cs

example : ofText? "-.5E+1".toList = some ⟨0xC014000000000000⟩ := by decide +kernel

example : ofText? "1e".toList = none := by decide +kernel

end Binary64

end QuestScript

/-!
Double-precision numbers, kept by their bits.

The quest language hands its numeric constants on without computing with them, so a number is
its 64 bits: a sign, eleven bits of exponent and 52 bits of fraction. A finite number is
`m * 2 ^ q` for the magnitude read off below. Decimal numbers are rounded to the nearest number, of
two equally near ones to that with an even last bit, and beyond the largest number to infinity.
-/

namespace QuestScript

/-- A double-precision number. Numbers are the same when their bits are. -/
structure Binary64 where
  bits : UInt64
  deriving DecidableEq, Repr

namespace Binary64

/-- The exponent bits. -/
def exponentBits (x : Binary64) : Nat := x.bits.toNat >>> 52 % 2048

/-- The fraction bits. -/
def fractionBits (x : Binary64) : Nat := x.bits.toNat % 1 <<< 52

def isNegative (x : Binary64) : Bool := 1 <<< 63 ≤ x.bits.toNat

/-- Neither an infinity nor a NaN. -/
def isFinite (x : Binary64) : Bool := x.exponentBits < 2047

def isNaN (x : Binary64) : Bool := !x.isFinite && x.fractionBits != 0

/-- A magnitude `m * 2 ^ q`. -/
structure Magnitude where
  m : Nat
  q : Int
  /-- The next smaller magnitude is only half as far away as the next larger one. -/
  narrowBelow : Bool
  deriving DecidableEq, Repr

/-- The magnitude of a finite number. -/
def magnitude (x : Binary64) : Magnitude :=
  let e := x.exponentBits
  let f := x.fractionBits
  if e = 0 then ⟨f, -1074, false⟩ else ⟨1 <<< 52 + f, (e : Int) - 1075, f = 0 && 1 < e⟩

def zero : Binary64 := ⟨0⟩

def infinity : Binary64 := ⟨0x7FF0000000000000⟩

/-! ### Rounding -/

/-- The quotient rounded to the nearest integer, halves to the even one. -/
def roundQuotient (num den : Nat) : Nat :=
  let q := num / den
  let r := num % den
  if 2 * r < den then q else if den < 2 * r then q + 1 else if q % 2 = 0 then q else q + 1

/-- The greatest `k` with `2 ^ k ≤ num / den`, for positive `num` and `den`. -/
def log2Quotient (num den : Nat) : Int :=
  let k : Int := (num.log2 : Int) - den.log2
  if den <<< k.toNat ≤ num <<< (-k).toNat then k else k - 1

/-- The number nearest to the quotient of two naturals, for a positive divisor.

The quotient is rounded to a multiple of the spacing `2 ^ q` of the numbers around it. Counted in
that spacing, the exponent bits follow from `q` by addition, also where rounding up reaches the
next power of two. -/
def ofQuotient (num den : Nat) : Binary64 :=
  if num = 0 then zero
  else
    let q : Int := max (log2Quotient num den - 52) (-1074)
    let m := roundQuotient (num <<< (-q).toNat) (den <<< q.toNat)
    let bits := m + (q + 1074).toNat <<< 52
    if bits < infinity.bits.toNat then ⟨UInt64.ofNat bits⟩ else infinity

/-- The number of decimal digits of a natural number, counting none for zero. -/
def digitCount (n : Nat) : Nat := if n = 0 then 0 else (Nat.toDigits 10 n).length

/-- The number nearest to `m * 10 ^ e`.

A magnitude of 10 ^ 310 or more is beyond all numbers, and one below 10 ^ -324 is nearer to
zero than to the least positive number; the powers of ten stay small in between. -/
def ofDecimal (m : Nat) (e : Int) : Binary64 :=
  let top : Int := digitCount m + e
  if m = 0 || top < -324 then zero
  else if 310 < top then infinity
  else ofQuotient (m * Nat.pow 10 e.toNat) (Nat.pow 10 (-e).toNat)

example : ofDecimal 9007199254740993 0 = ofDecimal 9007199254740992 0 := by decide +kernel

example : ofDecimal 17976931348623159 292 = infinity := by decide +kernel

example : (ofDecimal 24703282292062328 (-340)).bits = 1 := by decide +kernel

end Binary64

end QuestScript

import QuestScript.Decimal.Binary64

/-!
Plain text of numbers: the fewest decimal digits that read back to the number, written positionally
at every size, without a fraction if there is none.

The reals that round to a number form an interval from halfway to its lower neighbour to halfway
to its upper one, ends included exactly when its last bit is even. For one digit, then two, and so
on, the two neighbours of the number among the decimals with that many digits are compared with
the interval. The first hit is taken, of two hits the nearer, and the larger if they are equally
near.
-/

namespace QuestScript.Binary64

/-! ### The fewest digits -/

/-- The decimal number `digits * 10 ^ exponent`. -/
structure Decimal where
  digits : Nat
  exponent : Int
  deriving DecidableEq, Repr

/-- Compares `a * 10 ^ i` with `n * 2 ^ j`. -/
def compareScaled (a : Nat) (i : Int) (n : Nat) (j : Int) : Ordering :=
  compare ((a * Nat.pow 10 i.toNat) <<< (-j).toNat) ((n * Nat.pow 10 (-i).toNat) <<< j.toNat)

/-- Whether the decimal lies among the reals that round to the magnitude. -/
def Magnitude.readsBack (x : Magnitude) (d : Decimal) : Bool :=
  let closed := x.m % 2 = 0
  let low := compareScaled d.digits d.exponent (4 * x.m - if x.narrowBelow then 1 else 2) (x.q - 2)
  let high := compareScaled d.digits d.exponent (4 * x.m + 2) (x.q - 2)
  (low = .gt || (closed && low = .eq)) && (high = .lt || (closed && high = .eq))

/-- The greatest natural number with at most so many powers of ten in the magnitude. -/
def Magnitude.floorAt (x : Magnitude) (e : Int) : Nat :=
  (x.m * Nat.pow 10 (-e).toNat) <<< x.q.toNat / Nat.pow 10 e.toNat <<< (-x.q).toNat

/-- The least `k` from the given one on with magnitude below `10 ^ k`, tried a few times. -/
def Magnitude.scaleFrom (x : Magnitude) (k : Int) : Nat → Int
  | 0 => k
  | n + 1 => if compareScaled 1 k x.m x.q = .gt then k else x.scaleFrom (k + 1) n

/-- The least `k` with a positive magnitude below `10 ^ k`. -/
def Magnitude.scale (x : Magnitude) : Int :=
  x.scaleFrom (((x.m.log2 : Int) + x.q) * 1233 / 4096) 4

/-- The neighbour of the magnitude among the multiples of `10 ^ e` that reads back to it, the
nearer one if both do. -/
def Magnitude.hitAt (x : Magnitude) (e : Int) : Option Decimal :=
  let below : Decimal := ⟨x.floorAt e, e⟩
  let above : Decimal := ⟨x.floorAt e + 1, e⟩
  match x.readsBack below, x.readsBack above with
  | true, false => some below
  | false, true => some above
  | false, false => none
  | true, true =>
    -- the middle of the two against the magnitude
    if compareScaled (2 * below.digits + 1) e x.m (x.q + 1) = .gt then some below else some above

/-- The decimal without zeros at the end of its digits, up to the given number of them. -/
def Decimal.strip : Nat → Decimal → Decimal
  | 0, d => d
  | n + 1, d => if d.digits % 10 = 0 then Decimal.strip n ⟨d.digits / 10, d.exponent + 1⟩ else d

/-- The decimal with the fewest digits that reads back to a positive magnitude, or the magnitude
itself if seventeen digits do not suffice. -/
def Magnitude.shortest (x : Magnitude) : Decimal :=
  let k := x.scale
  match (List.range 17).findSome? fun (n : Nat) => x.hitAt (k - 1 - n) with
  | some d => d.strip 17
  | none => ⟨(x.m * Nat.pow 5 (-x.q).toNat) <<< x.q.toNat, min x.q 0⟩

/-! ### Positional text -/

/-- The digits of a decimal with its point in place. -/
def Decimal.plain (d : Decimal) : List Char :=
  let ds := Nat.toDigits 10 d.digits
  let places := (-d.exponent).toNat
  if 0 ≤ d.exponent then ds ++ List.replicate d.exponent.toNat '0'
  else if places < ds.length then
    ds.take (ds.length - places) ++ '.' :: ds.drop (ds.length - places)
  else ['0', '.'] ++ List.replicate (places - ds.length) '0' ++ ds

/-- The text of a number without its sign. -/
def plainMagnitude (x : Binary64) : List Char :=
  if x.isFinite then
    if x.magnitude.m = 0 then ['0'] else x.magnitude.shortest.plain
  else ['i', 'n', 'f']

/-- The text of a number. A NaN shows no sign, a negative zero does. -/
def plain (x : Binary64) : String :=
  if x.isNaN then "NaN"
  else String.ofList (if x.isNegative then '-' :: x.plainMagnitude else x.plainMagnitude)

example : plain ⟨0x3FD3333333333334⟩ = "0.30000000000000004" := by decide +kernel

example : plain ⟨0x8000000000000000⟩ = "-0" := by decide +kernel

end QuestScript.Binary64

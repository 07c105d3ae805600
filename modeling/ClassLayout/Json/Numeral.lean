import ClassLayout.Decimal.Nearest

/-!
# ClassLayout.Json.Numeral

Numbers as a JSON text writes them, and the double that one is read as.

That double is close to the number, and the nearest one only where each of these steps is exact. The
leading digits, as many as 64 bits hold, make a natural number, which becomes a double; this is multiplied
or divided by a power of ten. The number is too large if the product is infinite.

* Of the digits before the point the first that does not fit ends the reading, and each digit from there on
  counts as a power of ten. The digits after the point are then appended for as long as they fit.
* An exponent beyond all powers of ten is divided off in several steps, until zero is left.
-/

namespace ClassLayout.Json

/-- A number as it is written. -/
structure Numeral where
  negative : Bool
  /-- The digits before the point. -/
  whole : List Char
  /-- The digits after the point. -/
  fraction : List Char
  exponent : Int
  /-- There is neither a point nor an exponent. -/
  isInteger : Bool
  deriving DecidableEq, Repr, Inhabited

namespace Numeral

/-- The numeral of an integer. -/
def ofInt (n : Int) : Numeral :=
  { negative := n < 0
    whole := Nat.toDigits 10 n.natAbs
    fraction := []
    exponent := 0
    isInteger := true }

/-- The digits before the point as a number. -/
def wholeValue (n : Numeral) : Nat :=
  Decimal.ofDigits n.whole

/-- The integer that the digits before the point write, with the sign. -/
def truncated (n : Numeral) : Int :=
  if n.negative then -n.wholeValue else n.wholeValue

/-- The natural number of 64 bits that a numeral writes: neither a sign nor a point nor an exponent is
admitted. -/
def toNat? (n : Numeral) : Option Nat :=
  if n.isInteger && !n.negative && n.wholeValue < 0x10000000000000000 then some n.wholeValue else none

/-! ## The leading digits -/

/-- Append digits to a number of 64 bits up to the first that does not fit. The second part of the answer is
the number of digits that are left. -/
def append (value : Nat) : List Char → Nat × Nat
  | [] => (value, 0)
  | c :: rest =>
    let next := 10 * value + (c.toNat - 48)
    if next < 0x10000000000000000 then append next rest else (value, rest.length + 1)

/-- The leading digits as a number, and the power of ten that it is to be multiplied by. -/
def leading (n : Numeral) : Nat × Int :=
  let (value, dropped) := append 0 n.whole
  let (value, ignored) := append value n.fraction
  (value, n.exponent + dropped - (n.fraction.length - ignored : Nat))

/-! ## Doubles -/

/-- The exponent of the largest power of ten among the doubles. -/
def largestPower : Nat := 308

/-- The double nearest to a power of ten, up to the largest. -/
def powerOfTen (n : Nat) : Float :=
  let power : Decimal := { negative := false, mantissa := 1, exponent := n }
  power.toFloat?.getD 1.0

/-- A double times a power of ten, if that is not too large. -/
def times? (x : Float) (n : Nat) : Option Float :=
  if n ≤ largestPower then
    let product := x * powerOfTen n
    if product.isInf then none else some product
  else if x == 0.0 then some x
  else none

/-- A double over a power of ten. -/
def dividedBy (x : Float) (n : Nat) : Float :=
  if n ≤ largestPower then x / powerOfTen n
  else if x == 0.0 then x
  else dividedBy (x / powerOfTen largestPower) (n - largestPower)
termination_by n
decreasing_by simp [largestPower] at *; omega

/-- The double of the absolute value, unless the number is too large. -/
def magnitude? (n : Numeral) : Option Float :=
  let (value, exponent) := n.leading
  if 0 ≤ exponent then times? value.toFloat exponent.toNat
  else some (dividedBy value.toFloat (-exponent).toNat)

/-- The double that a number is read as, unless the number is too large. -/
def toFloat? (n : Numeral) : Option Float :=
  n.magnitude?.map fun x => if n.negative then -x else x

/-- Whether a number is not too large for a double. -/
def isInRange (n : Numeral) : Bool :=
  n.magnitude?.isSome

end Numeral

end ClassLayout.Json

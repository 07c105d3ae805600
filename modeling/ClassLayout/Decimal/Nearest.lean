/-!
# ClassLayout.Decimal.Nearest

Decimal numbers as they are written, and the double nearest to one: of two equally near the one with
the even mantissa. The rounding is exact integer arithmetic on a quotient of natural numbers, and a
number too large for a double has none.
-/

namespace ClassLayout

/-- The number `mantissa · 10 ^ exponent`, negated if so marked; zero has a sign too. -/
structure Decimal where
  negative : Bool
  mantissa : Nat
  exponent : Int
  deriving DecidableEq, Repr, Inhabited

namespace Decimal

/-- The value of a string of decimal digits. -/
def ofDigits (digits : List Char) : Nat :=
  digits.foldl (fun value c => 10 * value + (c.toNat - 48)) 0

/-- The number of decimal digits of a natural number. -/
def digitCount (n : Nat) : Nat :=
  (Nat.toDigits 10 n).length

/-- The least exponent `e` for which a double is a natural number below `2 ^ 53` times `2 ^ e`. -/
def leastExponent : Int := -1074

/-- The exponent of the unit of which `num / den` has 53 binary digits before the point, unless that
is below the least one. -/
def unitExponent (num den : Nat) : Int :=
  let gap : Int := (num.log2 : Int) - den.log2
  let below : Bool :=
    if 0 ≤ gap then num < den * Nat.pow 2 gap.toNat else num * Nat.pow 2 (-gap).toNat < den
  max leastExponent (if below then gap - 53 else gap - 52)

/-- The quotient rounded to the nearest natural number, a half to the even one. -/
def roundDiv (num den : Nat) : Nat :=
  let quotient := num / den
  let twice := 2 * (num % den)
  if den < twice || (twice == den && quotient % 2 == 1) then quotient + 1 else quotient

/-- The bits of the non-negative double nearest to `num / den`, were there no largest exponent. A
mantissa that is rounded up to the next power of two carries into the exponent by itself. -/
def nearestBits (num den : Nat) : Nat :=
  if num = 0 then 0
  else
    let e := unitExponent num den
    let mantissa :=
      if 0 ≤ e then roundDiv num (den * Nat.pow 2 e.toNat)
      else roundDiv (num * Nat.pow 2 (-e).toNat) den
    (e - leastExponent).toNat * Nat.pow 2 52 + mantissa

/-- The bits of positive infinity, which no finite double reaches. -/
def infinityBits : Nat := 0x7ff0000000000000

/-- The bits of the double nearest to the absolute value, if there is one. Numbers that are out of
reach by many orders of magnitude are told apart by their digit count alone. -/
def magnitudeBits? (d : Decimal) : Option Nat :=
  let order : Int := digitCount d.mantissa + d.exponent
  if d.mantissa = 0 || order < -330 then some 0
  else if 310 < order then none
  else
    let bits :=
      if 0 ≤ d.exponent then nearestBits (d.mantissa * Nat.pow 10 d.exponent.toNat) 1
      else nearestBits d.mantissa (Nat.pow 10 (-d.exponent).toNat)
    if bits < infinityBits then some bits else none

/-- The double nearest to the number, if the number is not too large for one. -/
def toFloat? (d : Decimal) : Option Float :=
  d.magnitudeBits?.map fun bits =>
    Float.ofBits (UInt64.ofNat (if d.negative then bits + 0x8000000000000000 else bits))

end Decimal

end ClassLayout

import ClassLayout.Decimal.Nearest

/-!
# ClassLayout.Decimal.Shortest

The shortest decimal that reads back as a given double, and its text.

A finite double is `m · 2 ^ q`, and all reals of an interval around it round to it; the ends of the
interval belong to it iff `m` is even. The shortest decimal is found on the coarsest grid of decimals
that has a point in the interval: it is one of the two grid points next to the double, the nearer one
if both are in the interval, the upper one if they are equally near.

All quantities are scaled by one factor that makes them natural numbers, so the comparisons are exact.

The text is positional, without any exponent, and a number without a fraction has no point.
-/

namespace ClassLayout.Decimal

/-- A positive finite double as `mantissa · 2 ^ exponent`. -/
structure Binary where
  mantissa : Nat
  exponent : Int
  deriving DecidableEq, Repr, Inhabited

/-- The mantissa and exponent in the bits of a finite double, its sign aside. -/
def Binary.ofBits (bits : Nat) : Binary :=
  let fraction := bits % Nat.pow 2 52
  let biased : Nat := bits / Nat.pow 2 52 % Nat.pow 2 11
  if biased = 0 then { mantissa := fraction, exponent := leastExponent }
  else { mantissa := Nat.pow 2 52 + fraction, exponent := (biased : Int) - 1 + leastExponent }

/-! ## Scaled quantities -/

/-- The power of two in the common scale: enough for a quarter of the least unit. -/
def binaryScale : Nat := 1100

/-- The power of ten in the common scale: enough for seventeen digits of the least double. -/
def decimalScale : Nat := 400

/-- The number `n · 2 ^ e` in the common scale. -/
def scaledBinary (n : Nat) (e : Int) : Nat :=
  n * Nat.pow 2 (e + binaryScale).toNat * Nat.pow 10 decimalScale

/-- The number `10 ^ k` in the common scale. -/
def scaledPower (k : Int) : Nat :=
  Nat.pow 10 (k + decimalScale).toNat * Nat.pow 2 binaryScale

/-- The double itself. -/
def Binary.scaled (b : Binary) : Nat :=
  scaledBinary b.mantissa b.exponent

/-- The lower end of the reals that round to the double. Below a power of two the doubles are twice as
dense as above it. -/
def Binary.scaledLow (b : Binary) : Nat :=
  if b.mantissa = Nat.pow 2 52 && leastExponent < b.exponent then
    scaledBinary (4 * b.mantissa - 1) (b.exponent - 2)
  else scaledBinary (2 * b.mantissa - 1) (b.exponent - 1)

/-- The upper end of the reals that round to the double. -/
def Binary.scaledHigh (b : Binary) : Nat :=
  scaledBinary (2 * b.mantissa + 1) (b.exponent - 1)

/-- Whether a scaled real rounds to the double. -/
def Binary.covers (b : Binary) (x : Nat) : Bool :=
  if b.mantissa % 2 = 0 then b.scaledLow ≤ x && x ≤ b.scaledHigh
  else b.scaledLow < x && x < b.scaledHigh

/-! ## Search -/

/-- The exponent of the first decimal digit. -/
def Binary.order (b : Binary) : Int :=
  digitCount (b.scaled / Nat.pow 2 binaryScale) - 1 - decimalScale

/-- The number of units `10 ^ k` that reads back as the double, if there is one. -/
def Binary.onGrid? (b : Binary) (k : Int) : Option Nat :=
  let unit := scaledPower k
  let lower := b.scaled / unit
  let upper := lower + 1
  match b.covers (lower * unit), b.covers (upper * unit) with
  | true, true =>
    if b.scaled - lower * unit < upper * unit - b.scaled then some lower else some upper
  | true, false => some lower
  | false, true => some upper
  | false, false => none

/-- The first of the given digit counts with a decimal that reads back as the double; seventeen
digits always do. The upper grid point can be the next power of ten, which has one digit. -/
def Binary.shortestFrom (b : Binary) : List Nat → Nat × Int
  | [] => (0, 0)
  | count :: more =>
    let k := b.order + 1 - count
    match b.onGrid? k with
    | some digits => if digits = Nat.pow 10 count then (1, k + count) else (digits, k)
    | none => b.shortestFrom more

/-- The shortest decimal that reads back as the double, as a number of units `10 ^ k`, and `k`. -/
def Binary.shortest (b : Binary) : Nat × Int :=
  b.shortestFrom (List.range' 1 17)

/-! ## Text -/

/-- Positional notation of `digits · 10 ^ k`. -/
def positional (digits : List Char) (k : Int) : List Char :=
  if 0 ≤ k then digits ++ List.replicate k.toNat '0'
  else
    let places := (-k).toNat
    if places < digits.length then
      digits.take (digits.length - places) ++ '.' :: digits.drop (digits.length - places)
    else '0' :: '.' :: (List.replicate (places - digits.length) '0' ++ digits)

/-- The text of the double with the given bits, its sign aside. -/
def magnitudeText (bits : Nat) : List Char :=
  if bits = infinityBits then ['i', 'n', 'f']
  else if bits = 0 then ['0']
  else
    let (digits, k) := (Binary.ofBits bits).shortest
    positional (Nat.toDigits 10 digits) k

/-- The text of a double: the fewest digits that read back, in positional notation. -/
def text (x : Float) : String :=
  if x.isNaN then "NaN"
  else
    let bits := x.toBits.toNat
    if 0x8000000000000000 ≤ bits then String.ofList ('-' :: magnitudeText (bits - 0x8000000000000000))
    else String.ofList (magnitudeText bits)

end ClassLayout.Decimal

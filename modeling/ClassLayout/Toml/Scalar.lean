import ClassLayout.Decimal.Nearest
import ClassLayout.Text.Split
import ClassLayout.Toml.Value

/-!
# ClassLayout.Toml.Scalar

Values that are written as one word: truth values, numbers, dates and times.

* Digits may be grouped by underscores, each between two digits.
* A decimal number does not start with a superfluous zero; a hexadecimal, octal or binary one has no sign.
* A float has a fraction or an exponent or both, or is an infinity or no number at all.
* Dates exist in the calendar, and times are times of day; a minute may have a leap second, and the
  seconds may be left out.
-/

namespace ClassLayout.Toml.Scalar

/-! ## Integers -/

/-- The digits of a number, without the underscores that group them. -/
def grouped? (isDigit : Char → Bool) (chars : List Char) : Option (List Char) :=
  let groups := Text.split '_' chars
  if groups.all fun group => !group.isEmpty && group.all isDigit then some groups.flatten else none

/-- The digits of a decimal number that does not start with a superfluous zero. -/
def whole? (chars : List Char) : Option (List Char) :=
  match grouped? Char.isDigit chars with
  | some ('0' :: _ :: _) => none
  | digits? => digits?

/-- The value of a digit, up to sixteen. -/
def digitValue (c : Char) : Nat :=
  if c.isDigit then c.toNat - 48
  else if c.isLower then c.toNat - 87
  else c.toNat - 55

/-- Whether a character is a digit to the given base. -/
def isDigitOf (base : Nat) (c : Char) : Bool :=
  c.isAlphanum && digitValue c < base

/-- A number to another base than ten, after the two characters that tell the base. -/
def based? (base : Nat) (chars : List Char) : Option Value :=
  (grouped? (isDigitOf base) chars).map fun digits =>
    .integer (digits.foldl (fun value c => base * value + digitValue c) 0 : Nat)

/-- The sign of a number, and what follows. -/
def splitSign : List Char → Bool × List Char
  | '+' :: rest => (false, rest)
  | '-' :: rest => (true, rest)
  | chars => (false, chars)

/-- A number with its sign. -/
def signed (negative : Bool) (n : Nat) : Int :=
  if negative then -n else n

/-! ## Decimal numbers -/

/-- The digits after a point, if there is one. -/
def fraction? : List Char → Option (List Char)
  | [] => some []
  | _ :: digits => grouped? Char.isDigit digits

/-- The exponent after its letter, if there is one. -/
def exponent? : List Char → Option Int
  | [] => some 0
  | _ :: chars =>
    let (negative, digits) := splitSign chars
    (grouped? Char.isDigit digits).map fun digits => signed negative (Decimal.ofDigits digits)

/-- An integer or a float in decimal digits, after its sign. -/
def decimal? (negative : Bool) (chars : List Char) : Option Value := do
  let (mantissa, exponent) := chars.span fun c => c != 'e' && c != 'E'
  let (whole, fraction) := mantissa.span (· != '.')
  let digits ← whole? whole
  if fraction.isEmpty && exponent.isEmpty then
    return .integer (signed negative (Decimal.ofDigits digits))
  let places ← fraction? fraction
  let power ← exponent? exponent
  let value : Decimal :=
    { negative
      mantissa := Decimal.ofDigits (digits ++ places)
      exponent := power - places.length }
  return .float value.toFloat?

/-- A number, after its sign. -/
def unsigned? (negative : Bool) (chars : List Char) : Option Value :=
  if chars == ['i', 'n', 'f'] then
    some (.float (some (if negative then -1.0 / 0.0 else 1.0 / 0.0)))
  else if chars == ['n', 'a', 'n'] then some (.float (some (0.0 / 0.0)))
  else decimal? negative chars

/-- A number. -/
def number? : List Char → Option Value
  | '0' :: 'x' :: rest => based? 16 rest
  | '0' :: 'o' :: rest => based? 8 rest
  | '0' :: 'b' :: rest => based? 2 rest
  | chars =>
    let (negative, rest) := splitSign chars
    unsigned? negative rest

/-! ## Dates and times -/

/-- The value of decimal digits, if they all are. -/
def digits? (chars : List Char) : Option Nat :=
  if chars.all Char.isDigit then some (Decimal.ofDigits chars) else none

/-- Whether a year has a 29th of February. -/
def isLeapYear (year : Nat) : Bool :=
  year % 4 == 0 && (year % 100 != 0 || year % 400 == 0)

/-- The number of days of a month. -/
def daysOf (year month : Nat) : Nat :=
  if month == 2 then if isLeapYear year then 29 else 28
  else if [4, 6, 9, 11].contains month then 30
  else 31

/-- Read a date; the answer is what follows it. -/
def date? : List Char → Option (List Char)
  | y₁ :: y₂ :: y₃ :: y₄ :: '-' :: m₁ :: m₂ :: '-' :: d₁ :: d₂ :: rest => do
    let year ← digits? [y₁, y₂, y₃, y₄]
    let month ← digits? [m₁, m₂]
    let day ← digits? [d₁, d₂]
    if 1 ≤ month && month ≤ 12 && 1 ≤ day && day ≤ daysOf year month then some rest else none
  | _ => none

/-- Step over a fraction of a second, if there is one. -/
def secondFraction? : List Char → Option (List Char)
  | '.' :: c :: rest => if c.isDigit then some (rest.dropWhile Char.isDigit) else none
  | ['.'] => none
  | rest => some rest

/-- Step over the seconds of a time, if there are any. -/
def seconds? : List Char → Option (List Char)
  | ':' :: s₁ :: s₂ :: rest => do
    let second ← digits? [s₁, s₂]
    if second ≤ 60 then secondFraction? rest else none
  | ':' :: _ => none
  | rest => some rest

/-- Read a time of day; the answer is what follows it. -/
def time? : List Char → Option (List Char)
  | h₁ :: h₂ :: ':' :: m₁ :: m₂ :: rest => do
    let hour ← digits? [h₁, h₂]
    let minute ← digits? [m₁, m₂]
    if hour ≤ 23 && minute ≤ 59 then seconds? rest else none
  | _ => none

/-- Whether a text is the distance from universal time, which may be left out. -/
def isOffset : List Char → Bool
  | [] | ['Z'] | ['z'] => true
  | [sign, h₁, h₂, ':', m₁, m₂] =>
    (sign == '+' || sign == '-')
      && (digits? [h₁, h₂]).any (· ≤ 23) && (digits? [m₁, m₂]).any (· ≤ 59)
  | _ => false

/-- Whether a text is a date without a time. -/
def isDate (chars : List Char) : Bool :=
  (date? chars).any List.isEmpty

/-- Whether a text is a date, a time of day, or both. -/
def isDateTime (chars : List Char) : Bool :=
  match date? chars with
  | some [] => true
  | some (mark :: rest) =>
    (mark == 'T' || mark == 't' || mark == ' ') && (time? rest).any isOffset
  | none => (time? chars).any List.isEmpty

/-- The value that a word writes. -/
def read? (chars : List Char) : Option Value :=
  if chars == ['t', 'r', 'u', 'e'] then some (.bool true)
  else if chars == ['f', 'a', 'l', 's', 'e'] then some (.bool false)
  else if isDateTime chars then some (.dateTime (String.ofList chars))
  else number? chars

end ClassLayout.Toml.Scalar

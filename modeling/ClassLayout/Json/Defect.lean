import ClassLayout.Json.Doc

/-!
# ClassLayout.Json.Defect

Why a text is no JSON, and where.

A text is read from left to right, as one who steps over all of it does, and the first defect counts. So
numbers may be of any size, lists and objects of any depth, and code units need not pair up.

A defect stands where the reading stops: after the first byte of what does not belong there, or at the end
of the text. Lines are counted from one, and a column is the number of bytes of its line that have been read.
-/

namespace ClassLayout.Json

/-- What can be wrong with a text. -/
inductive Defect.Cause where
  | unfinishedList
  | unfinishedObject
  | unfinishedText
  | unfinishedValue
  | expectedColon
  /-- After an item of a list there is neither a comma nor the end of the list. -/
  | expectedListSeparator
  /-- After a field of an object there is neither a comma nor the end of the object. -/
  | expectedObjectSeparator
  /-- A word is misspelt. -/
  | expectedWord
  | expectedValue
  | invalidEscape
  | invalidNumber
  /-- A string has a control character as it is. -/
  | controlCharacter
  | keyNotText
  /-- There is more text after the value. -/
  | trailingText
  deriving DecidableEq, Repr, Inhabited

/-- What is wrong with a text, and the number of its bytes that have not been read by then. -/
structure Defect where
  cause : Defect.Cause
  left : Nat
  deriving DecidableEq, Repr, Inhabited

namespace Defect

/-- The cause in words. -/
def Cause.message : Cause → String
  | .unfinishedList => "EOF while parsing a list"
  | .unfinishedObject => "EOF while parsing an object"
  | .unfinishedText => "EOF while parsing a string"
  | .unfinishedValue => "EOF while parsing a value"
  | .expectedColon => "expected `:`"
  | .expectedListSeparator => "expected `,` or `]`"
  | .expectedObjectSeparator => "expected `,` or `\x7d`"
  | .expectedWord => "expected ident"
  | .expectedValue => "expected value"
  | .invalidEscape => "invalid escape"
  | .invalidNumber => "invalid number"
  | .controlCharacter => "control character (\\u0000-\\u001F) found while parsing a string"
  | .keyNotText => "key must be a string"
  | .trailingText => "trailing characters"

/-! ## Places -/

/-- A defect of what the given text starts with: one byte of it is read. If there is no more text, the
defect is at the end. -/
def starting (cause : Cause) (input : List Char) : Defect :=
  { cause, left := Token.byteCount input - 1 }

/-- The line and the column that some more bytes lead to. -/
def advance (line column bytes : Nat) : List Char → Nat × Nat
  | [] => (line, column)
  | c :: rest =>
    if bytes < c.utf8Size then (line, column + bytes)
    else if c = '\n' then advance (line + 1) 0 (bytes - 1) rest
    else advance line (column + c.utf8Size) (bytes - c.utf8Size) rest

/-- The line and the column of a defect of the given text. -/
def position (defect : Defect) (input : List Char) : Nat × Nat :=
  advance 1 0 (Token.byteCount input - defect.left) input

/-- What is wrong with the given text, and where, in words. -/
def message (defect : Defect) (input : List Char) : String :=
  let (line, column) := defect.position input
  s!"{defect.cause.message} at line {line} column {column}"

/-! ## Strings, words and numbers -/

/-- The defect of an escape whose four bytes are no hexadecimal digits, or are not all there. -/
def ofEscape (input : List Char) : Defect :=
  if Token.byteCount input < 4 then starting .unfinishedText []
  else { cause := .invalidEscape, left := Token.byteCount input - 4 }

/-- The defect of a string whose opening mark is behind. -/
def ofText? : List Char → Option Defect
  | [] | ['\\'] => some (starting .unfinishedText [])
  | '\\' :: 'u' :: a :: b :: c :: d :: input =>
    if (Token.codeUnit? a b c d).isSome then ofText? input
    else some (ofEscape (a :: b :: c :: d :: input))
  | '\\' :: 'u' :: input => some (ofEscape input)
  | '\\' :: c :: input =>
    if (Token.simpleEscape? c).isSome then ofText? input
    else some (starting .invalidEscape (c :: input))
  | c :: input =>
    if c = '"' then none
    else if c.toNat < 0x20 then some (starting .controlCharacter (c :: input))
    else ofText? input

/-- The defect of a word of which the given letters are expected. -/
def ofWord? : List Char → List Char → Option Defect
  | [], _ => none
  | _ :: _, [] => some (starting .unfinishedValue [])
  | e :: expected, c :: input =>
    if c = e then ofWord? expected input else some (starting .expectedWord (c :: input))

/-- The text after the sign of an exponent, if there is one. -/
def dropSign : List Char → List Char
  | '+' :: rest | '-' :: rest => rest
  | rest => rest

/-- The defect of an exponent, if there is one. -/
def ofExponent? (input : List Char) : Option Defect :=
  match input with
  | [] => none
  | c :: rest =>
    if (c = 'e' || c = 'E') && !(dropSign rest).head?.any Char.isDigit then
      some (starting .invalidNumber (dropSign rest))
    else none

/-- The defect of a fraction, if there is one, and of the exponent after it. -/
def ofFraction? : List Char → Option Defect
  | '.' :: rest =>
    if rest.head?.any Char.isDigit then ofExponent? (rest.dropWhile Char.isDigit)
    else some (starting .invalidNumber rest)
  | input => ofExponent? input

/-- The defect of a number whose sign is behind. -/
def ofNumber? (input : List Char) : Option Defect :=
  match input.takeWhile Char.isDigit with
  | [] => some (starting .invalidNumber input)
  | '0' :: _ :: _ => some (starting .invalidNumber (input.drop 1))
  | _ => ofFraction? (input.dropWhile Char.isDigit)

/-! ## The whole text -/

/-- What can be open. -/
inductive Container where
  | list
  | object
  deriving DecidableEq, Repr, Inhabited

/-- What a token leads to, unless it has a defect. -/
abbrev Step := Except Defect (List Container × Doc.Place)

/-- Go on, unless there is a defect. -/
def proceed (defect : Option Defect) (stack : List Container) (place : Doc.Place) : Step :=
  match defect with
  | some defect => .error defect
  | none => .ok (stack, place)

/-- A value is to start with the given character. -/
def stepValue (stack : List Container) (c : Char) (rest : List Char) : Step :=
  match c with
  | '[' => .ok (.list :: stack, .firstItem)
  | '{' => .ok (.object :: stack, .firstKey)
  | '"' => proceed (ofText? rest) stack .separator
  | 'n' => proceed (ofWord? ['u', 'l', 'l'] rest) stack .separator
  | 't' => proceed (ofWord? ['r', 'u', 'e'] rest) stack .separator
  | 'f' => proceed (ofWord? ['a', 'l', 's', 'e'] rest) stack .separator
  | '-' => proceed (ofNumber? rest) stack .separator
  | c =>
    if c.isDigit then proceed (ofNumber? (c :: rest)) stack .separator
    else .error (starting .expectedValue (c :: rest))

/-- The token that starts with the given character is read. -/
def step (stack : List Container) (place : Doc.Place) (c : Char) (rest : List Char) : Step :=
  match place, stack, c with
  | .firstItem, _ :: stack, ']' => .ok (stack, .separator)
  | .value, stack, c | .firstItem, stack, c => stepValue stack c rest
  | .firstKey, _ :: stack, '}' => .ok (stack, .separator)
  | .firstKey, stack, '"' | .key, stack, '"' => proceed (ofText? rest) stack .colon
  | .firstKey, _, c | .key, _, c => .error (starting .keyNotText (c :: rest))
  | .colon, stack, ':' => .ok (stack, .value)
  | .colon, _, c => .error (starting .expectedColon (c :: rest))
  | .separator, .list :: stack, ',' => .ok (.list :: stack, .value)
  | .separator, .list :: stack, ']' => .ok (stack, .separator)
  | .separator, .list :: _, c => .error (starting .expectedListSeparator (c :: rest))
  | .separator, .object :: stack, ',' => .ok (.object :: stack, .key)
  | .separator, .object :: stack, '}' => .ok (stack, .separator)
  | .separator, .object :: _, c => .error (starting .expectedObjectSeparator (c :: rest))
  | .separator, [], c => .error (starting .trailingText (c :: rest))

/-- The defect of a text that ends, if it must not. -/
def atEnd? (stack : List Container) (place : Doc.Place) : Option Defect :=
  match place, stack with
  | .separator, [] => none
  | .separator, .list :: _ | .firstItem, _ => some (starting .unfinishedList [])
  | .separator, .object :: _ | .firstKey, _ | .key, _ | .colon, _ =>
    some (starting .unfinishedObject [])
  | .value, _ => some (starting .unfinishedValue [])

/-- The first defect of the rest of a text. -/
def first? (stack : List Container) (place : Doc.Place) (input : List Char) : Option Defect :=
  match input with
  | [] => atEnd? stack place
  | c :: rest =>
    if Token.isBlank c then first? stack place rest
    else
      match step stack place c rest with
      | .error defect => some defect
      | .ok (stack, place) => first? stack place (Token.scan c rest).2
termination_by input.length
decreasing_by
  · simp
  · have := Token.length_scan c rest
    simp only [List.length_cons]
    omega

/-- The first defect of a text, unless it is JSON. -/
def find? (input : List Char) : Option Defect :=
  first? [] .value input

end Defect

end ClassLayout.Json

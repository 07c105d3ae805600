/-!
# ClassLayout.Json.Value

JSON values as they are written, and the two ways of writing them: compact, and spread over lines
with an indentation of two spaces. Fields keep their order, and numbers are integers: nothing else
is ever written.

A string escapes the quotation mark, the backslash and the control characters, and nothing else.
-/

namespace ClassLayout.Json

/-- A value to be written. -/
inductive Value where
  | null
  | bool (b : Bool)
  | number (n : Int)
  | text (s : String)
  | array (items : List Value)
  | object (fields : List (String × Value))
  deriving Inhabited

namespace Value

/-- A natural number. -/
def ofNat (n : Nat) : Value :=
  .number n

/-- An absent value is written as null. -/
def ofOption (f : α → Value) : Option α → Value
  | some a => f a
  | none => .null

/-- A list of values. -/
def ofList (f : α → Value) (items : List α) : Value :=
  .array (items.map f)

/-! ## Strings and numbers -/

/-- A hexadecimal digit, with small letters. -/
def hexDigit (n : Nat) : Char :=
  if n < 10 then Char.ofNat (48 + n) else Char.ofNat (87 + n)

/-- One character of a string, as it is written between the quotation marks. -/
def escapeChar (c : Char) : List Char :=
  if c = '"' then ['\\', '"']
  else if c = '\\' then ['\\', '\\']
  else if c.toNat = 0x08 then ['\\', 'b']
  else if c.toNat = 0x09 then ['\\', 't']
  else if c.toNat = 0x0a then ['\\', 'n']
  else if c.toNat = 0x0c then ['\\', 'f']
  else if c.toNat = 0x0d then ['\\', 'r']
  else if c.toNat < 0x20 then
    ['\\', 'u', '0', '0', hexDigit (c.toNat / 16), hexDigit (c.toNat % 16)]
  else [c]

/-- A string with its quotation marks. -/
def quote (s : List Char) : List Char :=
  '"' :: s.flatMap escapeChar ++ ['"']

/-- An integer in decimal digits. -/
def digits (n : Int) : List Char :=
  match n with
  | .ofNat n => Nat.toDigits 10 n
  | .negSucc n => '-' :: Nat.toDigits 10 (n + 1)

/-! ## Compact form -/

mutual

/-- The value without any white space. -/
def compact : Value → List Char
  | .null => ['n', 'u', 'l', 'l']
  | .bool true => ['t', 'r', 'u', 'e']
  | .bool false => ['f', 'a', 'l', 's', 'e']
  | .number n => digits n
  | .text s => quote s.toList
  | .array [] => ['[', ']']
  | .array (v :: rest) => '[' :: (compact v ++ compactItems rest)
  | .object [] => ['{', '}']
  | .object ((key, v) :: rest) =>
    '{' :: (quote key.toList ++ ':' :: (compact v ++ compactFields rest))

/-- The items after the first, and the closing bracket. -/
def compactItems : List Value → List Char
  | [] => [']']
  | v :: rest => ',' :: (compact v ++ compactItems rest)

/-- The fields after the first, and the closing brace. -/
def compactFields : List (String × Value) → List Char
  | [] => ['}']
  | (key, v) :: rest => ',' :: (quote key.toList ++ ':' :: (compact v ++ compactFields rest))

end

/-! ## Indented form -/

/-- A new line at the given depth. -/
def newLine (depth : Nat) : List Char :=
  '\n' :: List.replicate (2 * depth) ' '

mutual

/-- The value at the given depth, every item and field on a line of its own. -/
def indented (depth : Nat) : Value → List Char
  | .null => ['n', 'u', 'l', 'l']
  | .bool true => ['t', 'r', 'u', 'e']
  | .bool false => ['f', 'a', 'l', 's', 'e']
  | .number n => digits n
  | .text s => quote s.toList
  | .array [] => ['[', ']']
  | .array (v :: rest) =>
    '[' :: (newLine (depth + 1) ++ indented (depth + 1) v ++ indentedItems depth rest)
  | .object [] => ['{', '}']
  | .object ((key, v) :: rest) =>
    '{' :: (newLine (depth + 1) ++ quote key.toList ++ [':', ' '] ++ indented (depth + 1) v
      ++ indentedFields depth rest)

/-- The items after the first, and the closing bracket. -/
def indentedItems (depth : Nat) : List Value → List Char
  | [] => newLine depth ++ [']']
  | v :: rest =>
    ',' :: (newLine (depth + 1) ++ indented (depth + 1) v ++ indentedItems depth rest)

/-- The fields after the first, and the closing brace. -/
def indentedFields (depth : Nat) : List (String × Value) → List Char
  | [] => newLine depth ++ ['}']
  | (key, v) :: rest =>
    ',' :: (newLine (depth + 1) ++ quote key.toList ++ [':', ' '] ++ indented (depth + 1) v
      ++ indentedFields depth rest)

end

/-- The compact text of a value. -/
def toText (v : Value) : String :=
  String.ofList v.compact

/-- The indented text of a value. -/
def toIndentedText (v : Value) : String :=
  String.ofList (v.indented 0)

end Value

end ClassLayout.Json

/-!
# ClassLayout.Toml.Value

What a TOML text says, as far as settings depend on it.

Numbers may be larger than anything that can be worked with; a number that is read or stepped over must
be in range. A float that is too large for a double has no value.
-/

namespace ClassLayout.Toml

/-- A value. The text of a date or time is known to be a valid one. -/
inductive Value where
  | text (content : String)
  | integer (n : Int)
  | float (x : Option Float)
  | bool (b : Bool)
  | dateTime (content : String)
  | array (items : List Value)
  | table (fields : List (String × Value))
  deriving Inhabited

namespace Value

/-- Integers are in range if 128 bits hold them, with or without a sign. -/
def holds128 (n : Int) : Bool :=
  -0x80000000000000000000000000000000 ≤ n && n < 0x100000000000000000000000000000000

mutual

/-- Whether all numbers in a value are in range. -/
def inRange : Value → Bool
  | .text _ | .bool _ | .dateTime _ => true
  | .integer n => holds128 n
  | .float x => x.isSome
  | .array items => itemsInRange items
  | .table fields => fieldsInRange fields

/-- The same for the items of an array. -/
def itemsInRange : List Value → Bool
  | [] => true
  | value :: rest => inRange value && itemsInRange rest

/-- The same for the fields of a table. -/
def fieldsInRange : List (String × Value) → Bool
  | [] => true
  | (_, value) :: rest => inRange value && fieldsInRange rest

end

end Value

end ClassLayout.Toml

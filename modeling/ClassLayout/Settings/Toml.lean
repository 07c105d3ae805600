import ClassLayout.Error
import ClassLayout.Toml.Statement

/-!
# ClassLayout.Settings.Toml

Settings as TOML. What is left out has its default, and keys of other names are stepped over. Weights stand
in a table, or in an array in their order, of which surplus items are not looked at; a date in the place
of the weights sets none.
-/

namespace ClassLayout

/-- A natural number of 64 bits. -/
def Settings.countOf? : Toml.Value → Option Nat
  | .integer n => if 0 ≤ n && n < 0x10000000000000000 then some n.toNat else none
  | _ => none

/-- A truth value. -/
def Settings.flagOf? : Toml.Value → Option Bool
  | .bool b => some b
  | _ => none

namespace Weights

/-- A weight: a float, or the double nearest to an integer of 64 bits. -/
def weightOf? : Toml.Value → Option Float
  | .float x => x
  | .integer n =>
    if -0x8000000000000000 ≤ n && n < 0x10000000000000000 then
      Decimal.toFloat? { negative := n < 0, mantissa := n.natAbs, exponent := 0 }
    else none
  | _ => none

/-- Read one weight. -/
def put? (weights : Weights) (field : String × Toml.Value) : Option Weights :=
  if names.contains field.1 then (weightOf? field.2).map (weights.set field.1)
  else if field.2.inRange then some weights
  else none

/-- Read weights. -/
def ofToml? : Toml.Value → Option Weights
  | .table fields => fields.foldlM put? {}
  | .array items => (names.zip items).foldlM put? {}
  | .dateTime _ => some {}
  | _ => none

end Weights

namespace Settings

/-- Read one setting. -/
def put? (settings : Settings) (field : String × Toml.Value) : Option Settings :=
  match field.1 with
  | "screen_lines_count" => (countOf? field.2).map fun count => { settings with screenLines := count }
  | "weights" => (Weights.ofToml? field.2).map fun weights => { settings with weights }
  | "constructor_cohesion" =>
    (flagOf? field.2).map fun flag => { settings with constructorCohesion := flag }
  | _ => if field.2.inRange then some settings else none

/-- Read settings from the fields of a table. -/
def ofFields? (fields : List (String × Toml.Value)) : Option Settings :=
  fields.foldlM put? {}

/-- Read settings from a text, usable or not. -/
def parse (input : String) : Except Error Settings :=
  match Toml.read? input.toList with
  | some (.table fields) =>
    match ofFields? fields with
    | some settings => .ok settings
    | none => .error .toml
  | _ => .error .toml

/-- The settings, if they are usable. They may come from a file. -/
def checked (settings : Settings) (path : Option String) : Except Error Settings :=
  match settings.flaw? with
  | none => .ok settings
  | some flaw => .error (.configuration flaw path)

/-- Read usable settings from a text. -/
def ofToml (input : String) : Except Error Settings := do
  let settings ← parse input
  settings.checked none

end Settings

end ClassLayout

import ClassLayout.Flaw
import ClassLayout.Json.Fault
import ClassLayout.Settings

/-!
# ClassLayout.Error

Everything that can go wrong, by its cause, and the words for it.
-/

namespace ClassLayout

/-- Why a file cannot be read as text. -/
inductive ReadFailure where
  | notFound
  | isDirectory
  /-- Something on the way to the file is no directory. -/
  | notDirectory
  /-- A name on the way to the file, or the whole path, is longer than names and paths may be. -/
  | nameTooLong
  /-- The path has a zero character, which ends a path and so stands in none. -/
  | invalidPath
  /-- The bytes of the file are no UTF-8. -/
  | notText
  deriving DecidableEq, Repr, Inhabited

/-- The causes of failure. -/
inductive Error where
  /-- A class declaration is unusable. -/
  | invalidModel (flaw : Flaw)
  /-- A method would be moved out of the class. -/
  | indexOutOfRange (index : Nat) (shift : Int) (size : Nat)
  /-- There is no method at an index. -/
  | noSuchIndex (index size : Nat)
  /-- A proposed order does not hold each method once. -/
  | permutationMismatch (current proposed : List String)
  /-- No method covers a line. -/
  | lineOutsideMethods (line : Nat)
  /-- A method is asked for the property that it exposes, and exposes none. -/
  | notAnAccessor (signature : String)
  /-- Settings are unusable; they may come from a file. -/
  | configuration (flaw : SettingsFlaw) (path : Option String)
  /-- One who is handed the calls of a class fails. -/
  | external (message : String)
  /-- A file cannot be read. -/
  | io (failure : ReadFailure)
  /-- A text is no JSON, or JSON of another shape. -/
  | json (fault : Json.Fault)
  /-- A text is no TOML, or TOML of another shape. -/
  | toml

namespace Error

/-- Whether a class is at odds with its own lines, or an order with its class. -/
def isInvariantViolation : Error → Bool
  | .lineOutsideMethods _ | .permutationMismatch .. => true
  | _ => false

/-- Whether another input would help. -/
def isUserFixable : Error → Bool
  | .invalidModel _ | .configuration .. | .json _ | .toml => true
  | _ => false

end Error

end ClassLayout

import ClassLayout.Search

/-!
# ClassLayout.Finding

What is reported of a class: the first method that does not stand where the search would put it.
-/

namespace ClassLayout

/-- A method that should be declared elsewhere. -/
structure Finding where
  file : String
  className : String
  signature : String
  line : Nat
  /-- By how many places to move it: up if positive. -/
  shift : Int
  deriving DecidableEq, Repr, Inhabited

namespace Finding

/-- The advice. -/
def message (finding : Finding) : String :=
  let distance := finding.shift.natAbs
  let places := if distance = 1 then "position" else "positions"
  let direction := if 0 < finding.shift then "up" else "down"
  s!"method '{finding.signature}' should be moved {distance} {places} {direction}"

/-- The advice with the place that it is about. -/
def text (finding : Finding) : String :=
  finding.file ++ s!":{finding.line}: " ++ finding.message

end Finding

end ClassLayout

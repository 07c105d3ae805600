/-!
# ClassLayout.Call

A call of one method of a class from another, or from itself, and how calls stand inside each other.
-/

namespace ClassLayout

/-- A call site of which both ends are known. -/
structure Call where
  /-- The index of the call site. -/
  site : Nat
  caller : Nat
  callee : Nat
  line : Nat
  column : Nat
  isReference : Bool := false
  /-- The call sites around this one, the nearest first. -/
  enclosingSites : List Nat := []
  deriving DecidableEq, Repr, Inhabited

namespace Call

/-- Whether the call stands inside the other one. -/
def isInside (call other : Call) : Bool :=
  call.site != other.site && call.enclosingSites.contains other.site

/-- Where the call stands in the text; the index of the site tells apart what shares a place. -/
def place (call : Call) : Nat × Nat × Nat :=
  (call.line, call.column, call.site)

/-- Whether the first call stands no later in the text. -/
def notAfter (call other : Call) : Bool :=
  if call.line ≠ other.line then call.line < other.line
  else if call.column ≠ other.column then call.column < other.column
  else call.site ≤ other.site

end Call

end ClassLayout

/-!
# ClassLayout.Json.Fault

What can be wrong with a JSON text, and how one break in a text looks to different readers.

A text is read from left to right, and the first fault ends the reading. Which fault a malformed place
is can depend on who meets it. A reader that wants the value there looks at it closely; a reader that
only steps over it does not check whether escapes pair up; and a reader that expects the name of a
variant decides by the first character.
-/

namespace ClassLayout.Json

/-- The kinds of fault. -/
inductive Fault where
  /-- The text is no JSON. -/
  | malformed
  /-- The text is well formed so far, but of another shape than asked for. -/
  | unfit
  /-- The text ends too early. -/
  | unfinished
  deriving DecidableEq, Repr, Inhabited

/-- The fault of one place, for each kind of reader. -/
structure Breakage where
  /-- For a reader that wants the value. -/
  value : Fault
  /-- For a reader that steps over the value. -/
  skip : Fault
  /-- For a reader that expects the name of a variant. -/
  variant : Fault
  deriving DecidableEq, Repr, Inhabited

/-- A place at which all readers see the same fault. -/
def Breakage.all (fault : Fault) : Breakage :=
  { value := fault, skip := fault, variant := fault }

end ClassLayout.Json

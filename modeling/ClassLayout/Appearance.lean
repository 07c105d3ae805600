import ClassLayout.Call

/-!
# ClassLayout.Appearance

The order in which the calls of one method appear. A call in the arguments or the receiver of another
one comes before it, since it is made first; calls that do not stand inside each other come in the order
of the text.

The calls form a forest: the parent of a call is the nearest call around it that is among the given
ones. The forest is walked so that each call comes after its children, and siblings come in the order of
the text. Calls whose chain of parents runs in a circle belong to no tree and do not appear.
-/

namespace ClassLayout.Appearance

/-- The index of the last call at a site. -/
def indexAt? (calls : List Call) (site : Nat) : Option Nat :=
  (calls.zipIdx.filter fun (call, _) => call.site == site).getLast?.map (·.2)

/-- The index of the nearest call around the given one. -/
def parentOf? (calls : List Call) (call : Call) : Option Nat :=
  call.enclosingSites.findSome? (indexAt? calls)

/-- The calls with their parents and their indices. -/
abbrev Forest := List (Call × Option Nat × Nat)

/-- The forest of the calls. -/
def forest (calls : List Call) : Forest :=
  calls.zipIdx.map fun (call, index) => (call, parentOf? calls call, index)

/-- The calls with the given parent, or without one, in the order of the text. -/
def children (trees : Forest) (parent : Option Nat) : List (Call × Nat) :=
  ((trees.filter fun (_, p, _) => p == parent).map fun (call, _, index) => (call, index)).mergeSort
    fun a b => a.1.notAfter b.1

/-- The trees of the given calls, each call after its children. No tree is deeper than `depth`. -/
def walk (trees : Forest) : (depth : Nat) → List (Call × Nat) → List Call
  | 0, _ => []
  | depth + 1, siblings =>
    siblings.flatMap fun (call, index) => walk trees depth (children trees (some index)) ++ [call]

/-- The calls in the order of their appearance. -/
def order (calls : List Call) : List Call :=
  let trees := forest calls
  walk trees calls.length (children trees none)

/-- The methods that are called, in the order of their first appearance. -/
def dependencies (calls : List Call) : List Nat :=
  ((order calls).map (·.callee)).eraseDups

end ClassLayout.Appearance

import ClassLayout.Arrangement

/-!
# ClassLayout.Seed

The method with which an order starts: the constructor with the fewest parameters; in a class without
constructors the method that calls the most others; and if none calls any, the one that is declared
first. Of several equal ones the first in the arrangement at hand is taken.
-/

namespace ClassLayout

/-- The first of the best items, where `beats` tells which of two items is better. -/
def firstBest? (beats : α → α → Bool) : List α → Option α
  | [] => none
  | a :: rest =>
    match firstBest? beats rest with
    | none => some a
    | some b => if beats b a then some b else some a

/-- The first of the items with the least key. -/
def firstLeast? (key : α → Nat) : List α → Option α :=
  firstBest? fun b a => key b < key a

/-- The first of the items with the greatest key. -/
def firstGreatest? (key : α → Nat) : List α → Option α :=
  firstBest? fun b a => key a < key b

/-- The number of parameters that are declared. -/
def Method.parameterCount (method : Method) : Nat :=
  method.argCount + method.variableArity.toNat

namespace Arrangement

/-- The constructor with the fewest parameters. -/
def smallestConstructor? (arrangement : Arrangement) : Option Nat :=
  (firstLeast? Method.parameterCount (arrangement.methods.filter (·.isConstructor))).map (·.id)

/-- The method that calls the most others, if any calls others. -/
def busiest? (arrangement : Arrangement) : Option Nat :=
  let callCount := fun id => (arrangement.graph.dependenciesOf id).length
  firstGreatest? callCount (arrangement.order.filter fun id => 0 < callCount id)

/-- The method with which an order starts. -/
def seed? (arrangement : Arrangement) : Option Nat :=
  arrangement.smallestConstructor?.or <| arrangement.busiest?.or <|
    (List.range arrangement.graph.size).head?

end Arrangement

end ClassLayout

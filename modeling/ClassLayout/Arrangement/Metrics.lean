import ClassLayout.Arrangement

/-!
# ClassLayout.Arrangement.Metrics

How disorderly an arrangement is: eight counts. Those about calls look at pairs of different methods
that call each other, however often they do so; a call is distant if the method that it calls starts
more than a screen away from it.
-/

namespace ClassLayout

/-- How many more indices a group spans than it has members: nothing, if its members stand together. -/
def groupSplit (indices : List Nat) : Nat :=
  match indices.max?, indices.min? with
  | some last, some first => (last - first + 1) - indices.length
  | _, _ => 0

/-- Numbers added up. -/
def total : List Nat → Nat
  | [] => 0
  | n :: rest => n + total rest

namespace Arrangement

/-- The pairs of a method and one that it calls. -/
def dependencyPairs (arrangement : Arrangement) : List (Nat × Nat) :=
  arrangement.order.flatMap fun caller =>
    (arrangement.graph.dependenciesOf caller).map fun callee => (caller, callee)

/-- The distance between two indices. -/
def gap (index other : Nat) : Nat :=
  (index - other) + (other - index)

/-- The distances between methods and those that they call, added up. -/
def totalDistance (arrangement : Arrangement) : Nat :=
  total <| arrangement.dependencyPairs.map fun (caller, callee) =>
    gap (arrangement.position callee) (arrangement.position caller)

/-- The number of dependencies that stand above their callers. -/
def declarationBeforeUsage (arrangement : Arrangement) : Nat :=
  arrangement.dependencyPairs.countP fun (caller, callee) =>
    arrangement.position callee < arrangement.position caller

/-- How far a group is split. -/
def splitOf (arrangement : Arrangement) (group : List Nat) : Nat :=
  groupSplit (group.map arrangement.position)

/-- How far the groups are split, added up. -/
def splitOfAll (arrangement : Arrangement) (groups : List (List Nat)) : Nat :=
  total (groups.map arrangement.splitOf)

/-- How far the overriding methods are split. -/
def overrideSplit (arrangement : Arrangement) : Nat :=
  arrangement.splitOf arrangement.graph.groups.overrides

/-- How far the methods of one name are split. -/
def overloadSplit (arrangement : Arrangement) : Nat :=
  arrangement.splitOfAll arrangement.graph.groups.overloads

/-- How far the accessors of one property are split. -/
def accessorSplit (arrangement : Arrangement) : Nat :=
  arrangement.splitOfAll arrangement.graph.groups.accessors

/-- How far the constructors are split. -/
def constructorSplit (arrangement : Arrangement) : Nat :=
  arrangement.splitOf arrangement.graph.groups.constructors

/-- The number of indices that are below a bound or below one before them. -/
def inversions (bound : Nat) : List Nat → Nat
  | [] => 0
  | index :: rest => if index < bound then inversions bound rest + 1 else inversions index rest

/-- The number of dependencies that stand above one which appears earlier in the same caller. -/
def relativeOrderInconsistency (arrangement : Arrangement) : Nat :=
  total <| arrangement.order.map fun caller => inversions 0 (arrangement.dependencyIndices caller)

/-- The number of lines from a call to the start of the method that it calls. -/
def callDistance (arrangement : Arrangement) (call : Call) : Int :=
  subSigned (arrangement.startLine call.callee) (arrangement.lineWith call.caller call.line)

/-- Whether a call is more than so many lines away from the start of the method that it calls. -/
def isDistant (arrangement : Arrangement) (screen : Nat) (call : Call) : Bool :=
  signedWord screen < absSigned (arrangement.callDistance call)

/-- The number of dependencies with a distant call. -/
def distantDependency (arrangement : Arrangement) (screen : Nat) : Nat :=
  total <| (List.range arrangement.graph.size).map fun caller =>
    let distant := (arrangement.graph.invocationsOf caller).filter (arrangement.isDistant screen)
    (arrangement.graph.dependenciesOf caller).countP fun callee =>
      distant.any (·.callee == callee)

end Arrangement

end ClassLayout

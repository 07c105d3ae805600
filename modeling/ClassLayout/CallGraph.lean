import ClassLayout.Appearance
import ClassLayout.Groups
import ClassLayout.Resolution

/-!
# ClassLayout.CallGraph

Which method of a class calls which. Everything here is independent of the order in which the methods
are arranged, so it is computed once:

* the calls of each method, in the order of their appearance;
* its dependencies, the different methods that it calls, in the same order;
* its dependants, the different methods that call it, in the order of declaration;
* the groups of the class.
-/

namespace ClassLayout

/-- The calls between the methods of a class. -/
structure CallGraph where
  outline : Outline
  /-- All calls, in the order of their sites. -/
  calls : List Call
  /-- The calls of each method, in the order of their appearance. -/
  invocations : Array (List Call)
  /-- The methods that each method calls, in the order of their first appearance. -/
  dependencies : Array (List Nat)
  /-- The methods by which each method is called, in the order of declaration. -/
  dependants : Array (List Nat)
  groups : Groups
  deriving DecidableEq, Repr, Inhabited

namespace CallGraph

/-- The graph of the given calls. A call from or to a method that does not exist is left out. -/
def ofCalls (outline : Outline) (given : List Call) : CallGraph :=
  let size := outline.size
  let calls := given.filter fun call => call.caller < size && call.callee < size
  let ids := List.range size
  { outline
    calls
    invocations :=
      (ids.map fun id => Appearance.order (calls.filter (·.caller == id))).toArray
    dependencies :=
      (ids.map fun id => Appearance.dependencies (calls.filter (·.caller == id))).toArray
    dependants :=
      (ids.map fun id =>
        let callers := (calls.filter (·.callee == id)).map (·.caller)
        ids.filter callers.contains).toArray
    groups := outline.groups }

/-- The graph of a class, or its first flaw. -/
def ofDeclaration (declaration : ClassDeclaration) : Except Flaw CallGraph := do
  let outline ← Outline.ofDeclaration declaration
  let calls ← outline.resolve declaration.callSites
  return ofCalls outline calls

/-- The number of methods. -/
def size (graph : CallGraph) : Nat :=
  graph.outline.size

/-- The method with the given index. -/
def method? (graph : CallGraph) (id : Nat) : Option Method :=
  graph.outline.methods[id]?

/-- The different methods that a method calls, in the order of their first appearance. -/
def dependenciesOf (graph : CallGraph) (id : Nat) : List Nat :=
  graph.dependencies[id]?.getD []

/-- The different methods by which a method is called, in the order of declaration. -/
def dependantsOf (graph : CallGraph) (id : Nat) : List Nat :=
  graph.dependants[id]?.getD []

/-- The calls of a method, in the order of their appearance. -/
def invocationsOf (graph : CallGraph) (id : Nat) : List Call :=
  graph.invocations[id]?.getD []

/-- The calls of all methods, method by method. -/
def allInvocations (graph : CallGraph) : List Call :=
  graph.invocations.toList.flatten

/-- Whether one method calls another. -/
def dependsOn (graph : CallGraph) (caller callee : Nat) : Bool :=
  (graph.dependenciesOf caller).contains callee

/-- The call at a site; the last one, if there are several. -/
def callAt? (graph : CallGraph) (site : Nat) : Option Call :=
  graph.calls.reverse.find? (·.site == site)

/-- Whether the call at one site stands inside the call at the other. -/
def isInside (graph : CallGraph) (inner outer : Nat) : Bool :=
  match graph.callAt? inner, graph.callAt? outer with
  | some inner, some outer => inner.isInside outer
  | _, _ => false

/-- All pairs of sites of which the first stands inside the second. -/
def nestingPairs (graph : CallGraph) : List (Nat × Nat) :=
  graph.calls.flatMap fun inner =>
    (graph.calls.filter inner.isInside).map fun outer => (inner.site, outer.site)

end CallGraph

end ClassLayout

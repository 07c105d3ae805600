import ClassLayout.Arrangement

/-!
# ClassLayout.Proposal

Ways to propose another order of the methods. A way that does not apply to the arrangement at hand
proposes nothing.

* Breadth first: from a seed outward along dependencies; when nothing more can be reached, go on with
  the first declared method that is left.
* Gather a group: its members move down to the last one.
* Align a caller: its dependencies take the places that they hold now, in the order of their appearance.
* Pull a caller's dependencies up, right below the caller.
* Put the constructors first.
-/

namespace ClassLayout.Proposal

/-! ## Breadth first -/

/-- A walk from method to method. -/
structure Walk where
  /-- The methods that wait for their turn. -/
  queue : List Nat
  /-- Which methods have been met. -/
  visited : Array Bool
  /-- Every method before this one has been met. -/
  restart : Nat

namespace Walk

/-- A walk starts with one method. -/
def start (size seed : Nat) : Walk :=
  { queue := [seed]
    visited := (Array.replicate size false).setIfInBounds seed true
    restart := 0 }

/-- The first method that has not been met among `count` ones from `index` on. -/
def unvisited? (visited : Array Bool) : (count index : Nat) → Option Nat
  | 0, _ => none
  | count + 1, index =>
    if visited[index]? = some false then some index else unvisited? visited count (index + 1)

/-- The next method: from the queue, or else the first declared one that has not been met. -/
def next? (walk : Walk) : Option (Nat × Walk) :=
  match walk.queue with
  | id :: queue => some (id, { walk with queue })
  | [] =>
    (unvisited? walk.visited (walk.visited.size - walk.restart) walk.restart).map fun id =>
      (id, { walk with visited := walk.visited.setIfInBounds id true, restart := id })

/-- A method that has not been met is met and put in the queue. -/
def meet (walk : Walk) (id : Nat) : Walk :=
  if walk.visited[id]? = some false then
    { walk with queue := walk.queue ++ [id], visited := walk.visited.setIfInBounds id true }
  else walk

/-- List so many methods. -/
def list (graph : CallGraph) : (count : Nat) → Walk → List Nat
  | 0, _ => []
  | count + 1, walk =>
    match walk.next? with
    | none => []
    | some (id, walk) => id :: list graph count ((graph.dependenciesOf id).foldl meet walk)

end Walk

/-- All methods, breadth first from the seed. -/
def breadthFirst (arrangement : Arrangement) (seed : Nat) : List Nat :=
  Walk.list arrangement.graph arrangement.size (.start arrangement.size seed)

/-! ## Groups -/

/-- The groups of at least two members, in the order in which their first members stand. -/
def groupsByFirstAppearance (arrangement : Arrangement) (groups : List (List Nat)) :
    List (List Nat) :=
  (groups.filter fun group => 1 < group.length).mergeSort fun group other =>
    (group.map arrangement.position).min?.getD 0 ≤ (other.map arrangement.position).min?.getD 0

/-- The member of a group that stands last. -/
def lastMember? (arrangement : Arrangement) : List Nat → Option Nat
  | [] => none
  | id :: rest =>
    match lastMember? arrangement rest with
    | none => some id
    | some other =>
      if arrangement.position other < arrangement.position id then some id else some other

/-- Move the members of a group down to the last one. -/
def gatherGroup (arrangement : Arrangement) (group : List Nat) : Option (List Nat) :=
  if group.length < 2 then none
  else do
    let last ← lastMember? arrangement group
    let moved := arrangement.order.filter fun id => group.contains id && id != last
    return arrangement.order.flatMap fun id =>
      if id = last then moved ++ [id] else if group.contains id then [] else [id]

/-! ## Dependencies -/

/-- Put methods at indices. -/
def setAll (order : List Nat) (slots : List (Nat × Nat)) : List Nat :=
  slots.foldl (fun order slot => order.set slot.1 slot.2) order

/-- Let the dependencies of a caller swap places so that they stand in the order of their appearance. -/
def alignRelativeOrder (arrangement : Arrangement) (caller : Nat) : Option (List Nat) :=
  let dependencies := arrangement.graph.dependenciesOf caller
  if dependencies.length < 2 then none
  else
    let slots := (arrangement.dependencyIndices caller).mergeSort
    some (setAll arrangement.order (slots.zip dependencies))

/-- Move the dependencies of a caller up to it, if all of them stand below. -/
def pullDependencies (arrangement : Arrangement) (caller : Nat) : Option (List Nat) :=
  let dependencies := arrangement.graph.dependenciesOf caller
  let index := arrangement.position caller
  if dependencies.isEmpty || dependencies.any (arrangement.position · ≤ index) then none
  else
    some <| arrangement.order.flatMap fun id =>
      if dependencies.contains id then []
      else if id = caller then id :: dependencies
      else [id]

/-! ## Constructors -/

/-- Whether a method is a constructor. -/
def isConstructor (arrangement : Arrangement) (id : Nat) : Bool :=
  (arrangement.method? id).any (·.isConstructor)

/-- Move the constructors to the top. -/
def constructorsFirst (arrangement : Arrangement) : Option (List Nat) :=
  if arrangement.graph.groups.constructors.isEmpty then none
  else
    some (arrangement.order.filter (isConstructor arrangement)
      ++ arrangement.order.filter fun id => !isConstructor arrangement id)

end ClassLayout.Proposal

namespace ClassLayout

/-- A way to propose another order, with the methods that it is about. -/
inductive Pass where
  | breadthFirst (seed : Nat)
  | gatherGroup (group : List Nat)
  | alignRelativeOrder (caller : Nat)
  | pullDependencies (caller : Nat)
  | constructorsFirst
  deriving DecidableEq, Repr, Inhabited

namespace Pass

/-- The methods whose places the pass looks up. A group of one is not looked at. -/
def subjects : Pass → List Nat
  | .breadthFirst seed => [seed]
  | .gatherGroup group => if group.length < 2 then [] else group
  | .alignRelativeOrder caller | .pullDependencies caller => [caller]
  | .constructorsFirst => []

/-- Whether the pass is about methods of the class. -/
def isAbout (pass : Pass) (arrangement : Arrangement) : Bool :=
  pass.subjects.all arrangement.hasMethod

/-- The proposal of a pass. -/
def proposal? (pass : Pass) (arrangement : Arrangement) : Option (List Nat) :=
  match pass with
  | .breadthFirst seed => some (Proposal.breadthFirst arrangement seed)
  | .gatherGroup group => Proposal.gatherGroup arrangement group
  | .alignRelativeOrder caller => Proposal.alignRelativeOrder arrangement caller
  | .pullDependencies caller => Proposal.pullDependencies arrangement caller
  | .constructorsFirst => Proposal.constructorsFirst arrangement

end Pass

end ClassLayout

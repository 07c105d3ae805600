import ClassLayout.CallGraph
import ClassLayout.Text.Quoted
import ClassLayout.Word

/-!
# ClassLayout.Arrangement

One order in which the methods of a class could be declared. An arrangement is a value: moving a method
gives another arrangement.

With the order come the index of each method in it and the number of lines of the methods before it.
When a method moves, the lines of its body move with it: a line of the source is shifted by the
difference between the lines before its method now and in the declaration.
-/

namespace ClassLayout

/-- An order of the methods of a class. -/
structure Arrangement where
  graph : CallGraph
  /-- The methods in this order. -/
  order : List Nat
  /-- The index of each method in the order. -/
  positions : Array Nat
  /-- The lengths, added up, of the methods before each method in the order: 64 bits of the sum. -/
  preceding : Array Nat
  /-- The same in the order of declaration. -/
  initialPreceding : Array Nat
  deriving Inhabited

/-- The first method that does not stand at the index of its declaration. -/
structure Misplaced where
  id : Nat
  signature : String
  /-- The line of the declaration. -/
  line : Nat
  /-- How far it is declared below the index at which it stands. -/
  shift : Int
  deriving DecidableEq, Repr, Inhabited

namespace Arrangement

/-! ## Indices and lines -/

/-- Indices and preceding lengths by method. -/
structure Table where
  positions : Array Nat
  preceding : Array Nat

/-- The length of a method. -/
def lengthOf (graph : CallGraph) (id : Nat) : Nat :=
  ((graph.method? id).map (·.length)).getD 0

/-- Enter the methods of an order, of which the first has the given index and the given number of lines
before it. -/
def enter (graph : CallGraph) (index lines : Nat) : List Nat → Table → Table
  | [], table => table
  | id :: rest, table =>
    enter graph (index + 1) (addWords lines (lengthOf graph id)) rest
      { positions := table.positions.setIfInBounds id index
        preceding := table.preceding.setIfInBounds id lines }

/-- The table of an order. -/
def tableOf (graph : CallGraph) (order : List Nat) : Table :=
  let blank := Array.replicate order.length 0
  enter graph 0 0 order { positions := blank, preceding := blank }

/-- The order of declaration. -/
def initial (graph : CallGraph) : Arrangement :=
  let order := List.range graph.size
  let table := tableOf graph order
  { graph
    order
    positions := table.positions
    preceding := table.preceding
    initialPreceding := table.preceding }

/-- Another order of the same class. The order is to hold each method once. -/
def withOrder (arrangement : Arrangement) (order : List Nat) : Arrangement :=
  let table := tableOf arrangement.graph order
  { arrangement with order, positions := table.positions, preceding := table.preceding }

/-! ## Queries -/

/-- The number of methods. -/
def size (arrangement : Arrangement) : Nat :=
  arrangement.order.length

/-- The method with the given index in the declaration. -/
def method? (arrangement : Arrangement) (id : Nat) : Option Method :=
  arrangement.graph.method? id

/-- Whether the class has a method of the given index. -/
def hasMethod (arrangement : Arrangement) (id : Nat) : Bool :=
  id < arrangement.size

/-- The methods in this order. -/
def methods (arrangement : Arrangement) : List Method :=
  arrangement.order.filterMap arrangement.method?

/-- The signatures in this order. -/
def signatures (arrangement : Arrangement) : List String :=
  arrangement.methods.map (·.signature)

/-- The index of a method of the class. -/
def position (arrangement : Arrangement) (id : Nat) : Nat :=
  arrangement.positions[id]?.getD 0

/-- The index of a method, if the class has such a method. -/
def indexOf (arrangement : Arrangement) (id : Nat) : Except Error Nat :=
  match arrangement.positions[id]? with
  | some index => .ok index
  | none => .error (.noSuchIndex id arrangement.size)

/-- The method at an index of this order. -/
def methodAt (arrangement : Arrangement) (index : Nat) : Except Error Method :=
  match arrangement.order[index]?.bind arrangement.method? with
  | some method => .ok method
  | none => .error (.noSuchIndex index arrangement.size)

/-- The method at an index of the declaration. -/
def declaredAt (arrangement : Arrangement) (index : Nat) : Except Error Method :=
  match arrangement.method? index with
  | some method => .ok method
  | none => .error (.noSuchIndex index arrangement.size)

/-- The indices of the methods that a method calls, in the order of their first appearance. -/
def dependencyIndices (arrangement : Arrangement) (caller : Nat) : List Nat :=
  (arrangement.graph.dependenciesOf caller).map arrangement.position

/-- Whether a method calls none and is called by none. -/
def isIsolated (arrangement : Arrangement) (id : Nat) : Bool :=
  (arrangement.graph.dependenciesOf id).isEmpty && (arrangement.graph.dependantsOf id).isEmpty

/-- Whether a method is public and isolated. -/
def isInterfaceMethod (arrangement : Arrangement) (id : Nat) : Bool :=
  ((arrangement.method? id).any (·.accessibility == .publicAccess)) && arrangement.isIsolated id

/-- Whether two arrangements of a class are the same. -/
def sameOrder (arrangement other : Arrangement) : Bool :=
  arrangement.order == other.order

/-! ## Distances and lines -/

/-- The number of indices from the caller to the callee. -/
def indexDistance (arrangement : Arrangement) (caller callee : Nat) : Except Error Int := do
  let there ← arrangement.indexOf callee
  let here ← arrangement.indexOf caller
  return subSigned (signedWord there) (signedWord here)

/-- The lines before a method. -/
def linesBefore (arrangement : Arrangement) (id : Nat) : Nat :=
  arrangement.preceding[id]?.getD 0

/-- The lines before a method in the order of declaration. -/
def initialLinesBefore (arrangement : Arrangement) (id : Nat) : Nat :=
  arrangement.initialPreceding[id]?.getD 0

/-- The number of lines by which the body of a method has moved. -/
def lineShift (arrangement : Arrangement) (id : Nat) : Int :=
  subSigned (signedWord (arrangement.linesBefore id))
    (signedWord (arrangement.initialLinesBefore id))

/-- Where a line of the source is that moves with the given method. -/
def lineWith (arrangement : Arrangement) (id line : Nat) : Int :=
  addSigned (signedWord line) (arrangement.lineShift id)

/-- The line on which a method starts in this order. -/
def startLine (arrangement : Arrangement) (id : Nat) : Int :=
  arrangement.lineWith id (((arrangement.method? id).map (·.line)).getD 0)

/-- The number of lines from the start of the caller to the start of the callee. -/
def lineDistance (arrangement : Arrangement) (caller callee : Nat) : Except Error Int := do
  let _ ← arrangement.indexOf caller
  let _ ← arrangement.indexOf callee
  return subSigned (arrangement.startLine callee) (arrangement.startLine caller)

/-- Whether a method covers a line of the source. -/
def covers (arrangement : Arrangement) (line id : Nat) : Bool :=
  (arrangement.method? id).any (·.covers line)

/-- Where a line of the source is in this order. If several methods cover it, the first one counts. -/
def shiftedLine (arrangement : Arrangement) (line : Nat) : Except Error Int :=
  match arrangement.order.find? (arrangement.covers line) with
  | some id => .ok (arrangement.lineWith id line)
  | none => .error (.lineOutsideMethods line)

/-! ## Changes -/

/-- Move a method by so many indices, towards the top if the number is negative. -/
def move (arrangement : Arrangement) (id : Nat) (shift : Int) : Except Error Arrangement := do
  let index ← arrangement.indexOf id
  let target : Int := index + shift
  if target < 0 || (arrangement.size : Int) ≤ target then
    .error (.indexOutOfRange index shift arrangement.size)
  else
    return arrangement.withOrder ((arrangement.order.eraseIdx index).insertIdx target.toNat id)

/-- Tick methods off, one after the other, in a table with a mark for each. This fails at a method that
the table does not have or that is ticked off already. -/
def ticksOff (marks : Array Bool) : List Nat → Bool
  | [] => true
  | id :: rest =>
    match marks[id]? with
    | some false => ticksOff (marks.setIfInBounds id true) rest
    | _ => false

/-- Whether a list holds each of the numbers below `size` once. -/
def isOrderOf (size : Nat) (order : List Nat) : Bool :=
  order.length == size && ticksOff (Array.replicate size false) order

/-- The signature of a method; a number for one that the class does not have. -/
def label (arrangement : Arrangement) (id : Nat) : String :=
  match arrangement.method? id with
  | some method => method.signature
  | none => s!"#{id}"

/-- The given order of the same class. -/
def reorder (arrangement : Arrangement) (order : List Nat) : Except Error Arrangement :=
  if isOrderOf arrangement.size order then .ok (arrangement.withOrder order)
  else .error (.permutationMismatch arrangement.signatures (order.map arrangement.label))

/-- The first method that does not stand at the index of its declaration. -/
def firstMisplaced? (arrangement : Arrangement) : Option Misplaced := do
  let (id, index) ← arrangement.order.zipIdx.find? fun (id, index) => id != index
  let method ← arrangement.method? id
  return { id, signature := method.signature, line := method.line, shift := (id : Int) - index }

/-! ## Text -/

/-- The class and its signatures in this order. -/
def summary (arrangement : Arrangement) : String :=
  arrangement.graph.outline.name ++ " [" ++ ", ".intercalate arrangement.signatures ++ "]"

/-- The same with all texts in quotation marks. -/
def inspection (arrangement : Arrangement) : String :=
  "Ordering \x7b class: " ++ Text.quoted arrangement.graph.outline.name ++ ", methods: ["
    ++ ", ".intercalate (arrangement.signatures.map Text.quoted) ++ "] \x7d"

end Arrangement

end ClassLayout

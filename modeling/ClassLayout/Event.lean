/-!
# ClassLayout.Event

What happens during an analysis, for those who want to follow it.
-/

namespace ClassLayout

/-- The kinds of proposal in the search for a better order. -/
inductive ProposalKind where
  | overrideGroup
  | overloadGroup
  | accessorGroup
  | relativeOrder
  | pullDependencies
  | constructorsFirst
  deriving DecidableEq, Repr, Inhabited

/-- The name of a kind of proposal. -/
def ProposalKind.label : ProposalKind → String
  | .overrideGroup => "override_group"
  | .overloadGroup => "overload_group"
  | .accessorGroup => "accessor_group"
  | .relativeOrder => "relative_order"
  | .pullDependencies => "pull_dependencies"
  | .constructorsFirst => "constructors_first"

/-- Something that happened. -/
inductive Event where
  /-- The analysis of a class begins. -/
  | analysisStarted (file className : String)
  /-- A call site means no method of the class. -/
  | siteDropped (site : Nat) (name : String) (line : Nat)
  /-- The calls of a class are known. -/
  | graphBuilt (className : String) (methods sites resolved : Nat)
  /-- A round of the search begins; rounds are numbered from 1. -/
  | roundStarted (round : Nat)
  /-- A proposal was compared with the order at hand. -/
  | proposed (kind : ProposalKind) (oldCost newCost : Float) (accepted : Bool)
  /-- The outcome of a round was compared with the best order so far. -/
  | roundFinished (oldCost newCost : Float) (accepted : Bool)
  /-- A method does not stand where it should. -/
  | misplacedFound (file method : String) (shift : Int)
  deriving DecidableEq, Inhabited

end ClassLayout

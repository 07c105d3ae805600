import ClassLayout.Event
import ClassLayout.Penalty
import ClassLayout.Proposal
import ClassLayout.Seed

/-!
# ClassLayout.Search

The search for an order with a smaller penalty. It goes in rounds:

1. the methods are listed breadth first from the seed of the best order so far;
2. on that order each proposal in turn is taken if it lowers the penalty: gathering the overriding
   methods, the methods of each name, the accessors of each property; aligning each caller; pulling
   each caller's dependencies; and, if they are to be kept together, putting constructors first;
3. if the outcome is cheaper than the best order so far, it is the best one and another round follows.

A round depends on the best order only through its seed. A seed that has led to a better order leads to
the same one again, which is then no better, so there are at most as many rounds as methods and one more.
-/

namespace ClassLayout.Search

/-- The order at hand in a round, its penalty, and what has happened. -/
structure State where
  arrangement : Arrangement
  cost : Float
  log : List Event

/-- A round starts with an order. -/
def State.start (settings : Settings) (arrangement : Arrangement) : State :=
  { arrangement, cost := settings.penalty arrangement, log := [] }

/-- Take a proposal if it lowers the penalty. -/
def propose (settings : Settings) (kind : ProposalKind) (state : State)
    (proposal : Option (List Nat)) : Except Error State :=
  match proposal with
  | none => .ok state
  | some order => do
    let candidate ← state.arrangement.reorder order
    let cost := settings.penalty candidate
    if cost < state.cost then
      return {
        arrangement := candidate
        cost
        log := state.log ++ [.proposed kind state.cost cost true] }
    else
      return { state with log := state.log ++ [.proposed kind state.cost cost false] }

/-- Propose to gather each group in turn. -/
def gatherAll (settings : Settings) (kind : ProposalKind) (groups : List (List Nat)) (state : State) :
    Except Error State :=
  groups.foldlM
    (fun state group => propose settings kind state (Proposal.gatherGroup state.arrangement group))
    state

/-- Propose something for each caller in turn, in the order at hand when it starts. -/
def forCallers (settings : Settings) (kind : ProposalKind)
    (proposal : Arrangement → Nat → Option (List Nat)) (state : State) : Except Error State :=
  state.arrangement.order.foldlM
    (fun state caller => propose settings kind state (proposal state.arrangement caller))
    state

/-- The order with which a round starts. -/
def linearize (arrangement : Arrangement) : Except Error Arrangement :=
  match arrangement.seed? with
  | some seed => arrangement.reorder (Proposal.breadthFirst arrangement seed)
  | none => .ok arrangement

/-- All proposals of a round. -/
def improve (settings : Settings) (state : State) : Except Error State := do
  let groups := state.arrangement.graph.groups
  let state ← gatherAll settings .overrideGroup [groups.overrides] state
  let state ←
    gatherAll settings .overloadGroup
      (Proposal.groupsByFirstAppearance state.arrangement groups.overloads) state
  let state ←
    gatherAll settings .accessorGroup
      (Proposal.groupsByFirstAppearance state.arrangement groups.accessors) state
  let state ← forCallers settings .relativeOrder Proposal.alignRelativeOrder state
  let state ← forCallers settings .pullDependencies Proposal.pullDependencies state
  if settings.constructorCohesion then
    propose settings .constructorsFirst state (Proposal.constructorsFirst state.arrangement)
  else return state

/-- One round. -/
def round (settings : Settings) (arrangement : Arrangement) : Except Error State := do
  let linear ← linearize arrangement
  improve settings (State.start settings linear)

/-- The best order found, and what has happened. -/
structure Outcome where
  arrangement : Arrangement
  log : List Event

/-- At most `limit` rounds, the first of which has the given number. -/
def rounds (settings : Settings) :
    (limit number : Nat) → (best : Arrangement) → (cost : Float) → Except Error Outcome
  | 0, _, best, _ => .ok { arrangement := best, log := [] }
  | limit + 1, number, best, cost => do
    let state ← round settings best
    let newCost := settings.penalty state.arrangement
    let accepted : Bool := newCost < cost
    let log := .roundStarted number :: state.log ++ [.roundFinished cost newCost accepted]
    if accepted then
      let outcome ← rounds settings limit (number + 1) state.arrangement newCost
      return { outcome with log := log ++ outcome.log }
    else return { arrangement := best, log }

/-- Search for a better order, starting from the given one. -/
def run (settings : Settings) (arrangement : Arrangement) : Except Error Outcome :=
  if arrangement.size < 2 then .ok { arrangement, log := [] }
  else rounds settings (arrangement.size + 1) 1 arrangement (settings.penalty arrangement)

/-- The best order that the search finds from the given one. -/
def optimize (settings : Settings) (arrangement : Arrangement) : Except Error Arrangement :=
  (run settings arrangement).map (·.arrangement)

end ClassLayout.Search

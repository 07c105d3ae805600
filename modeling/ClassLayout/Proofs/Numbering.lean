import ClassLayout.Proofs.Search

/-!
# ClassLayout.Proofs.Numbering

A graph remembers at which site each call stands. Sites are numbered as they are listed, and the
search never looks at the numbers.

`bare` forgets them: of a call it leaves the two ends, the place in the text and whether it is a
reference. Each part of the search then does the same to a bare arrangement as to the arrangement
itself.

1. What is read off an arrangement is the same: its penalty (`penalty_bare`), its seed
   (`seed?_bare`) and what a pass proposes (`proposal?_bare`).
2. What is made of it is the same but bare: one proposal (`propose_bare`), a stage
   (`runStage_bare`), a round (`round_bare`), and by induction all rounds (`rounds_bare`).
3. So classes whose graphs are the same when bare are brought into the same order
   (`order_optimize_eq`).
-/

namespace ClassLayout

/-! ## Forgetting the sites -/

/-- A call apart from its site: its two ends, its place in the text, and whether it is a reference.
-/
def Call.bare (call : Call) : Call :=
  { call with site := 0, enclosingSites := [] }

/-- A graph apart from the sites of its calls. -/
def CallGraph.bare (graph : CallGraph) : CallGraph :=
  { graph with
    calls := []
    invocations := graph.invocations.map fun calls => calls.map Call.bare }

theorem CallGraph.invocationsOf_bare (graph : CallGraph) (id : Nat) :
    graph.bare.invocationsOf id = (graph.invocationsOf id).map Call.bare := by
  rw [invocationsOf, invocationsOf, bare, Array.getElem?_map]
  cases graph.invocations[id]? with
  | none => rfl
  | some calls => rfl

namespace Arrangement

/-- An arrangement of the bare graph. -/
def bare (arrangement : Arrangement) : Arrangement :=
  { arrangement with graph := arrangement.graph.bare }

variable (graph : CallGraph) (arrangement : Arrangement) (order : List Nat)

theorem bare_graph : arrangement.bare.graph = arrangement.graph.bare := rfl

/-! ## What is read off an arrangement -/

theorem enter_bare (index lines : Nat) (table : Table) :
    enter graph.bare index lines order table = enter graph index lines order table := by
  induction order generalizing index lines table with
  | nil => rfl
  | cons id order ih => exact ih _ _ _

theorem initial_bare : initial graph.bare = (initial graph).bare := by
  simp only [initial, tableOf, enter_bare]
  rfl

theorem withOrder_bare : arrangement.bare.withOrder order = (arrangement.withOrder order).bare := by
  simp only [withOrder, tableOf, bare, enter_bare]

theorem reorder_bare :
    arrangement.bare.reorder order = (arrangement.reorder order).map bare := by
  simp only [reorder, withOrder_bare]
  by_cases h : isOrderOf arrangement.size order = true
  · rw [if_pos h, if_pos (show isOrderOf arrangement.bare.size order = true from h)]
    rfl
  · rw [if_neg h, if_neg (show ¬ isOrderOf arrangement.bare.size order = true from h)]
    rfl

theorem lineShift_bare (id : Nat) : arrangement.bare.lineShift id = arrangement.lineShift id := rfl

theorem lineWith_bare (id line : Nat) :
    arrangement.bare.lineWith id line = arrangement.lineWith id line := by
  rw [lineWith, lineWith, lineShift_bare]

theorem startLine_bare (id : Nat) : arrangement.bare.startLine id = arrangement.startLine id := by
  rw [startLine, startLine, lineWith_bare]
  rfl

/-- How far away a call is depends on its ends and its line. -/
theorem callDistance_bare (call : Call) :
    arrangement.bare.callDistance call.bare = arrangement.callDistance call := by
  simp only [callDistance, startLine_bare, lineWith_bare, Call.bare]

theorem isDistant_bare (screen : Nat) (call : Call) :
    arrangement.bare.isDistant screen call.bare = arrangement.isDistant screen call := by
  rw [isDistant, isDistant, callDistance_bare]

theorem distantDependency_bare (screen : Nat) :
    arrangement.bare.distantDependency screen = arrangement.distantDependency screen := by
  have hdistant : ∀ caller callee,
      ((arrangement.bare.graph.invocationsOf caller).filter
        (arrangement.bare.isDistant screen)).any (·.callee == callee) =
      ((arrangement.graph.invocationsOf caller).filter
        (arrangement.isDistant screen)).any (·.callee == callee) := by
    intro caller callee
    have hcalls := CallGraph.invocationsOf_bare arrangement.graph caller
    have hdistant := funext (isDistant_bare arrangement screen)
    rw [bare_graph, hcalls, List.filter_map, List.any_map, Function.comp_def, hdistant]
    rfl
  simp only [distantDependency, hdistant]
  rfl

theorem seed?_bare : arrangement.bare.seed? = arrangement.seed? := rfl

end Arrangement

theorem Settings.penalty_bare (settings : Settings) (arrangement : Arrangement) :
    settings.penalty arrangement.bare = settings.penalty arrangement := by
  have hbreakdown : settings.breakdown arrangement.bare = settings.breakdown arrangement := by
    rw [breakdown, Arrangement.distantDependency_bare]
    rfl
  rw [penalty, hbreakdown, penalty]

namespace Proposal

theorem Walk.list_bare (graph : CallGraph) (count : Nat) (walk : Walk) :
    Walk.list graph.bare count walk = Walk.list graph count walk := by
  induction count generalizing walk with
  | zero => rfl
  | succ count ih =>
      rw [Walk.list, Walk.list]
      cases walk.next? with
      | none => rfl
      | some next => exact congrArg (next.1 :: ·) (ih _)

theorem breadthFirst_bare (arrangement : Arrangement) (seed : Nat) :
    breadthFirst arrangement.bare seed = breadthFirst arrangement seed :=
  Walk.list_bare _ _ _

theorem lastMember?_bare (arrangement : Arrangement) (group : List Nat) :
    lastMember? arrangement.bare group = lastMember? arrangement group := by
  induction group with
  | nil => rfl
  | cons id group ih =>
      rw [lastMember?, lastMember?, ih]
      rfl

end Proposal

theorem Pass.proposal?_bare (pass : Pass) (arrangement : Arrangement) :
    pass.proposal? arrangement.bare = pass.proposal? arrangement := by
  cases pass with
  | breadthFirst seed => exact congrArg some (Proposal.breadthFirst_bare arrangement seed)
  | gatherGroup group =>
      simp only [proposal?, Proposal.gatherGroup, Proposal.lastMember?_bare]
      rfl
  | alignRelativeOrder caller => rfl
  | pullDependencies caller => rfl
  | constructorsFirst => rfl

/-! ## What is made of an arrangement -/

namespace Search

variable (settings : Settings)

/-- The state of a round over the bare graph. -/
def State.bare (state : State) : State :=
  { state with arrangement := state.arrangement.bare }

/-- The outcome of a search over the bare graph. -/
def Outcome.bare (outcome : Outcome) : Outcome :=
  { outcome with arrangement := outcome.arrangement.bare }

theorem start_bare (arrangement : Arrangement) :
    State.start settings arrangement.bare = (State.start settings arrangement).bare := by
  rw [State.start, Settings.penalty_bare]
  rfl

theorem propose_bare (kind : ProposalKind) (state : State) (proposal : Option (List Nat)) :
    propose settings kind state.bare proposal =
      (propose settings kind state proposal).map State.bare := by
  cases proposal with
  | none => rfl
  | some order =>
      simp only [propose, State.bare, Arrangement.reorder_bare]
      cases state.arrangement.reorder order with
      | error e => rfl
      | ok candidate =>
          simp only [Except.map, bind, Except.bind, Settings.penalty_bare]
          by_cases hcheaper : settings.penalty candidate < state.cost
          · rw [if_pos hcheaper, if_pos hcheaper]
            rfl
          · rw [if_neg hcheaper, if_neg hcheaper]
            rfl

theorem attempt_bare (kind : ProposalKind) (state : State) (pass : Pass) :
    attempt settings kind state.bare pass = (attempt settings kind state pass).map State.bare := by
  rw [attempt, attempt, ← propose_bare, State.bare, Pass.proposal?_bare]

/-- The passes of a stage are listed by places and groups. -/
theorem passes_bare (hstage : stage ∈ stages settings groups) (arrangement : Arrangement) :
    stage.passes arrangement.bare = stage.passes arrangement := by
  simp only [stages, List.mem_append, List.mem_cons, List.not_mem_nil, or_false] at hstage
  rcases hstage with (rfl | rfl | rfl | rfl | rfl) | hlast
  · rfl
  · rfl
  · rfl
  · rfl
  · rfl
  · split at hlast
    · rw [List.mem_singleton.mp hlast]
    · contradiction

theorem runStage_bare (hstage : stage ∈ stages settings groups) (state : State) :
    runStage settings state.bare stage = (runStage settings state stage).map State.bare := by
  rw [runStage, runStage, State.bare, passes_bare settings hstage]
  exact foldlM_map_state State.bare (fun state pass _ => attempt_bare settings _ state pass) state

theorem improve_bare (state : State) :
    improve settings state.bare = (improve settings state).map State.bare := by
  rw [improve_eq_stages, improve_eq_stages]
  refine foldlM_map_state State.bare ?_ state
  intro state stage hstage
  exact runStage_bare settings hstage state

theorem linearize_bare (arrangement : Arrangement) :
    linearize arrangement.bare = (linearize arrangement).map Arrangement.bare := by
  rw [linearize, linearize, Arrangement.seed?_bare]
  cases arrangement.seed? with
  | none => rfl
  | some seed =>
      dsimp only
      rw [Proposal.breadthFirst_bare, Arrangement.reorder_bare]

theorem round_bare (arrangement : Arrangement) :
    round settings arrangement.bare = (round settings arrangement).map State.bare := by
  rw [round, round, linearize_bare]
  cases linearize arrangement with
  | error e => rfl
  | ok linear =>
      simp only [Except.map, bind, Except.bind]
      rw [start_bare, improve_bare]
      rfl

theorem rounds_bare (limit number : Nat) (best : Arrangement) (cost : Float) :
    rounds settings limit number best.bare cost =
      (rounds settings limit number best cost).map Outcome.bare := by
  induction limit generalizing number best cost with
  | zero => rfl
  | succ limit ih =>
      rw [rounds, rounds, round_bare]
      cases round settings best with
      | error e => rfl
      | ok state =>
          simp only [Except.map, bind, Except.bind, State.bare, Settings.penalty_bare, ih]
          by_cases haccepted : settings.penalty state.arrangement < cost
          · simp only [haccepted, decide_true, if_true]
            cases rounds settings limit (number + 1) state.arrangement
              (settings.penalty state.arrangement) with
            | error e => rfl
            | ok outcome => rfl
          · simp only [haccepted, decide_false, Bool.false_eq_true, if_false]
            rfl

theorem optimize_bare (arrangement : Arrangement) :
    optimize settings arrangement.bare = (optimize settings arrangement).map Arrangement.bare := by
  have hrun : run settings arrangement.bare = (run settings arrangement).map Outcome.bare := by
    rw [run, run, Settings.penalty_bare, rounds_bare]
    by_cases hsmall : arrangement.size < 2
    · rw [if_pos hsmall, if_pos (show arrangement.bare.size < 2 from hsmall)]
      rfl
    · rw [if_neg hsmall, if_neg (show ¬ arrangement.bare.size < 2 from hsmall)]
      rfl
  rw [optimize, optimize, hrun]
  cases run settings arrangement with
  | error e => rfl
  | ok outcome => rfl

/-- The search brings classes into the same order whose graphs differ in the sites only. -/
theorem order_optimize_eq {graph other : CallGraph} (h : graph.bare = other.bare)
    (hbest : optimize settings (.initial graph) = .ok best)
    (hother : optimize settings (.initial other) = .ok best') : best.order = best'.order := by
  have hbare := optimize_bare settings (.initial graph)
  rw [← Arrangement.initial_bare, h, Arrangement.initial_bare, optimize_bare, hbest,
    hother] at hbare
  have hsame : best'.bare = best.bare := Except.ok.inj hbare
  exact (congrArg Arrangement.order hsame).symm

end Search

end ClassLayout

import ClassLayout.Proofs.Search

/-!
# ClassLayout.Proofs.Chronicle

What the log of a search tells about its costs. A round keeps the cost of the order at hand beside
the order and replaces both when it accepts a proposal; the search does the same with the best order.
The log is right if what was kept is the penalty at every moment.

1. `Course settings groups start log last` says that the events lead from one order at hand to
   another, each of them a proposal that a pass of the kind made for the order at hand, compared
   with it. Its costs are penalties, so they form a chain (`Course.explained`).
2. `Advances` says that a state follows another one along a course, with the right cost. It holds of
   an attempt (`attempt_advances`), of the passes of a stage and of all stages.
3. `RoundTold` collects what the log of a round tells, and `Chronicle` puts the rounds together. The
   rounds follow every descent that way (`rounds_eq_of_chronicle`).
-/

namespace ClassLayout

/-! ## Events -/

namespace Event

/-- The new cost, if the event is a proposal that was accepted. -/
def acceptedCost? : Event → Option Float
  | .proposed _ _ newCost true => some newCost
  | _ => none

/-- The name of the pass, if the event is a proposal. -/
def pass? : Event → Option String
  | .proposed kind _ _ _ => some kind.label
  | _ => none

/-- The number of the round, if one begins. -/
def roundNumber? : Event → Option Nat
  | .roundStarted number => some number
  | _ => none

/-- Whether the outcome is accepted, if a round ends. -/
def roundAccepted? : Event → Option Bool
  | .roundFinished _ _ accepted => some accepted
  | _ => none

end Event

namespace Search

open Arrangement

variable {settings : Settings} {declaration : ClassDeclaration}
  {start current last best final : Arrangement} {bests : List Arrangement} {state next : State}
  {log log' before after events events' : List Event} {kind : ProposalKind} {pass : Pass}
  {groups : Groups} {oldCost newCost : Float} {accepted : Bool} {number limit : Nat}

/-! ## Courses -/

/-- The events lead from one order at hand to another. Each of them is a proposal that a pass of the
kind makes for the order at hand, and takes its place if it is cheaper. -/
inductive Course (settings : Settings) (groups : Groups) :
    Arrangement → List Event → Arrangement → Prop
  | done (current : Arrangement) : Course settings groups current [] current
  | accept {current candidate last : Arrangement} {log : List Event} {kind : ProposalKind}
      {pass : Pass} {order : List Nat} (hkind : PassOf groups kind pass)
      (hproposal : pass.proposal? current = some order)
      (hcandidate : current.reorder order = .ok candidate)
      (hcheaper : settings.penalty candidate < settings.penalty current)
      (hrest : Course settings groups candidate log last) :
      Course settings groups current
        (.proposed kind (settings.penalty current) (settings.penalty candidate) true :: log) last
  | reject {current candidate last : Arrangement} {log : List Event} {kind : ProposalKind}
      {pass : Pass} {order : List Nat} (hkind : PassOf groups kind pass)
      (hproposal : pass.proposal? current = some order)
      (hcandidate : current.reorder order = .ok candidate)
      (hdearer : ¬ settings.penalty candidate < settings.penalty current)
      (hrest : Course settings groups current log last) :
      Course settings groups current
        (.proposed kind (settings.penalty current) (settings.penalty candidate) false :: log) last

namespace Course

theorem append (h : Course settings groups start log current)
    (h' : Course settings groups current log' last) :
    Course settings groups start (log ++ log') last := by
  induction h with
  | done => exact h'
  | accept hkind hproposal hcandidate hcheaper _ ih =>
      exact .accept hkind hproposal hcandidate hcheaper (ih h')
  | reject hkind hproposal hcandidate hdearer _ ih =>
      exact .reject hkind hproposal hcandidate hdearer (ih h')

/-- A proposal is compared with the cost of the latest one that was accepted before it, or else with
the cost of the first order, and accepted if it is less. -/
theorem explained (h : Course settings groups start log last)
    (hlog : log = before ++ .proposed kind oldCost newCost accepted :: after) :
    oldCost = (before.filterMap Event.acceptedCost?).getLast?.getD (settings.penalty start) ∧
      (accepted = true ↔ newCost < oldCost) := by
  induction h generalizing before with
  | done => simp at hlog
  | accept _ _ _ hcheaper _ ih =>
      cases before with
      | nil =>
          simp only [List.nil_append, List.cons.injEq, Event.proposed.injEq] at hlog
          obtain ⟨⟨-, rfl, rfl, rfl⟩, -⟩ := hlog
          exact ⟨rfl, by simpa using hcheaper⟩
      | cons event before =>
          simp only [List.cons_append, List.cons.injEq] at hlog
          obtain ⟨rfl, hlog⟩ := hlog
          obtain ⟨hold, haccepted⟩ := ih hlog
          refine ⟨?_, haccepted⟩
          rw [hold, List.filterMap_cons_some (f := Event.acceptedCost?) rfl, List.getLast?_cons,
            Option.getD_some]
  | reject _ _ _ hdearer _ ih =>
      cases before with
      | nil =>
          simp only [List.nil_append, List.cons.injEq, Event.proposed.injEq] at hlog
          obtain ⟨⟨-, rfl, rfl, rfl⟩, -⟩ := hlog
          exact ⟨rfl, by simpa using hdearer⟩
      | cons event before =>
          simp only [List.cons_append, List.cons.injEq] at hlog
          obtain ⟨rfl, hlog⟩ := hlog
          rw [List.filterMap_cons_none rfl]
          exact ih hlog

/-- No round begins or ends among proposals. -/
theorem filterMap_eq_nil (h : Course settings groups start log last) :
    log.filterMap Event.roundNumber? = [] ∧ log.filterMap Event.roundAccepted? = [] := by
  induction h with
  | done => simp
  | accept _ _ _ _ _ ih => simpa [Event.roundNumber?, Event.roundAccepted?] using ih
  | reject _ _ _ _ _ ih => simpa [Event.roundNumber?, Event.roundAccepted?] using ih

end Course

/-! ## Passes -/

/-- The names of the passes, in the order in which a round comes to them. -/
def passNames : List String :=
  ["override_group", "overload_group", "accessor_group", "relative_order", "pull_dependencies",
   "constructors_first"]

/-- No pass is followed by one that a round comes to before it. -/
def PassesInOrder (log : List Event) : Prop :=
  (log.filterMap Event.pass?).Pairwise fun a b => passNames.idxOf a ≤ passNames.idxOf b

/-- The stages of a round have the names of the passes. -/
theorem map_label_stages (settings : Settings) (groups : Groups) :
    (stages settings groups).map (fun stage => stage.kind.label) =
      if settings.constructorCohesion then passNames else passNames.dropLast := by
  unfold stages
  cases settings.constructorCohesion <;> rfl

/-- Events of one pass come in order, and so do events of passes that come in order. -/
theorem passesInOrder_append {name : String} (hname : ∀ event ∈ log, event.pass? = some name)
    (hrest : PassesInOrder log')
    (hlater : ∀ other ∈ log'.filterMap Event.pass?, passNames.idxOf name ≤ passNames.idxOf other) :
    PassesInOrder (log ++ log') := by
  have hsame : ∀ other ∈ log.filterMap Event.pass?, other = name := by
    intro other hother
    obtain ⟨event, hevent, hpass⟩ := List.mem_filterMap.mp hother
    exact Option.some.inj (hpass.symm.trans (hname event hevent))
  rw [PassesInOrder, List.filterMap_append, List.pairwise_append]
  refine ⟨?_, hrest, ?_⟩
  · refine List.pairwise_of_forall_mem_list ?_
    intro a ha b hb
    rw [hsame a ha, hsame b hb]
  · intro a ha b hb
    rw [hsame a ha]
    exact hlater b hb

/-! ## States -/

/-- A state follows another one: the log goes on with the events, which lead to the order at hand,
and the cost is the penalty of this order. -/
structure Advances (settings : Settings) (groups : Groups) (events : List Event)
    (state next : State) : Prop where
  log_eq : next.log = state.log ++ events
  course : Course settings groups state.arrangement events next.arrangement
  cost_eq : next.cost = settings.penalty next.arrangement

namespace Advances

theorem refl (hcost : state.cost = settings.penalty state.arrangement) :
    Advances settings groups [] state state where
  log_eq := by simp
  course := .done _
  cost_eq := hcost

theorem trans {later : State} (h : Advances settings groups events state next)
    (h' : Advances settings groups events' next later) :
    Advances settings groups (events ++ events') state later where
  log_eq := by rw [h'.log_eq, h.log_eq, List.append_assoc]
  course := h.course.append h'.course
  cost_eq := h'.cost_eq

end Advances

/-- An attempt adds at most one event, and the cost stays right. -/
theorem attempt_advances (hkind : PassOf groups kind pass)
    (hcost : state.cost = settings.penalty state.arrangement)
    (h : attempt settings kind state pass = .ok next) :
    ∃ events, Advances settings groups events state next ∧
      ∀ event ∈ events, event.pass? = some kind.label := by
  unfold attempt at h
  cases hproposal : pass.proposal? state.arrangement with
  | none =>
      rw [hproposal] at h
      obtain rfl : state = next := Except.ok.inj h
      exact ⟨[], .refl hcost, by simp⟩
  | some order =>
      rw [hproposal, propose_eq_ok, hcost] at h
      obtain ⟨candidate, hcandidate, ⟨hcheaper, rfl⟩ | ⟨hdearer, rfl⟩⟩ := h
      · refine ⟨_, ⟨rfl, .accept hkind hproposal hcandidate hcheaper (.done _), rfl⟩, ?_⟩
        simp [Event.pass?]
      · refine ⟨_, ⟨rfl, .reject hkind hproposal hcandidate hdearer (.done _), rfl⟩, ?_⟩
        simp [Event.pass?]

theorem attempts_advance {passes : List Pass} (hpasses : ∀ pass ∈ passes, PassOf groups kind pass)
    (hcost : state.cost = settings.penalty state.arrangement)
    (h : passes.foldlM (attempt settings kind) state = .ok next) :
    ∃ events, Advances settings groups events state next ∧
      ∀ event ∈ events, event.pass? = some kind.label := by
  induction passes generalizing state with
  | nil =>
      obtain rfl : state = next := Except.ok.inj h
      exact ⟨[], .refl hcost, by simp⟩
  | cons pass passes ih =>
      rw [List.foldlM_cons, bind_eq_ok] at h
      obtain ⟨middle, hfirst, hrest⟩ := h
      rw [List.forall_mem_cons] at hpasses
      obtain ⟨events, hadvances, hname⟩ := attempt_advances hpasses.1 hcost hfirst
      obtain ⟨events', hadvances', hname'⟩ := ih hpasses.2 hadvances.cost_eq hrest
      refine ⟨events ++ events', hadvances.trans hadvances', ?_⟩
      rw [List.forall_mem_append]
      exact ⟨hname, hname'⟩

/-- The stages come one after the other, and so do the names of their passes. -/
theorem stages_advance {part : List Stage}
    (hstages : ∀ stage ∈ part, stage ∈ stages settings groups)
    (hcost : state.cost = settings.penalty state.arrangement)
    (hpart : (part.map fun stage => stage.kind.label).Pairwise
      fun a b => passNames.idxOf a ≤ passNames.idxOf b)
    (h : part.foldlM (runStage settings) state = .ok next) :
    ∃ events, Advances settings groups events state next ∧ PassesInOrder events ∧
      ∀ name ∈ events.filterMap Event.pass?, name ∈ part.map fun stage => stage.kind.label := by
  induction part generalizing state with
  | nil =>
      obtain rfl : state = next := Except.ok.inj h
      exact ⟨[], .refl hcost, .nil, by simp⟩
  | cons stage part ih =>
      rw [List.foldlM_cons, bind_eq_ok] at h
      obtain ⟨middle, hfirst, hrest⟩ := h
      rw [List.map_cons, List.pairwise_cons] at hpart
      rw [List.forall_mem_cons] at hstages
      obtain ⟨events, hadvances, hkind⟩ := attempts_advance
        (fun _ hpass => (passOf_of_mem_stages hstages.1 hpass).1) hcost hfirst
      obtain ⟨events', hadvances', horder, hnames⟩ :=
        ih hstages.2 hadvances.cost_eq hpart.2 hrest
      refine ⟨events ++ events', hadvances.trans hadvances', ?_, ?_⟩
      · refine passesInOrder_append hkind horder ?_
        intro other hother
        exact hpart.1 other (hnames other hother)
      · intro name hname
        rw [List.filterMap_append, List.mem_append] at hname
        rw [List.map_cons, List.mem_cons]
        rcases hname with hname | hname
        · left
          obtain ⟨event, hevent, hpass⟩ := List.mem_filterMap.mp hname
          exact Option.some.inj (hpass.symm.trans (hkind event hevent))
        · exact .inr (hnames name hname)

theorem pairwise_passNames (settings : Settings) (groups : Groups) :
    ((stages settings groups).map fun stage => stage.kind.label).Pairwise
      fun a b => passNames.idxOf a ≤ passNames.idxOf b := by
  rw [map_label_stages]
  split <;> decide

/-! ## Rounds -/

/-- A state that a round from the best order so far comes to, with the earlier stages and some of
the passes of a stage done. -/
inductive AtHand (settings : Settings) (best : Arrangement) : State → Prop
  | intro {linear : Arrangement} {earlier later : List Stage} {stage : Stage}
      {done pending : List Pass} {entry state : State}
      (hlinear : linearize best = .ok linear)
      (hstages : stages settings linear.graph.groups = earlier ++ stage :: later)
      (hentry : earlier.foldlM (runStage settings) (State.start settings linear) = .ok entry)
      (hpasses : stage.passes entry.arrangement = done ++ pending)
      (hstate : done.foldlM (attempt settings stage.kind) entry = .ok state) :
      AtHand settings best state

/-- The cost at hand is the penalty of the order at hand, at every moment. -/
theorem AtHand.cost_eq (h : AtHand settings best state) :
    state.cost = settings.penalty state.arrangement := by
  cases h with
  | @intro linear earlier later stage done pending entry _ _ hstages hentry hpasses hstate =>
      have hsorted := pairwise_passNames settings linear.graph.groups
      rw [hstages, List.map_append, List.pairwise_append] at hsorted
      have hkind : ∀ pass ∈ done, PassOf linear.graph.groups stage.kind pass := fun pass hpass =>
        (passOf_of_mem_stages (hstages ▸ List.mem_append_right _ List.mem_cons_self)
          (hpasses ▸ List.mem_append_left _ hpass)).1
      obtain ⟨_, hadvances, -⟩ := stages_advance
        (fun _ hstage => hstages ▸ List.mem_append_left _ hstage) rfl hsorted.1 hentry
      obtain ⟨_, hadvances', -⟩ := attempts_advance hkind hadvances.cost_eq hstate
      exact hadvances'.cost_eq

/-- All passes of the last stage are done when the round ends. -/
theorem atHand_of_round (h : round settings best = .ok state) : AtHand settings best state := by
  rw [round, bind_eq_ok] at h
  obtain ⟨linear, hlinear, himprove⟩ := h
  rw [improve_eq_stages] at himprove
  obtain ⟨earlier, stage, hstages⟩ :
      ∃ earlier stage, stages settings linear.graph.groups = earlier ++ [stage] := by
    have hsplit := List.eq_nil_or_concat (stages settings linear.graph.groups)
    simpa [stages] using hsplit
  change List.foldlM _ _ (stages settings linear.graph.groups) = _ at himprove
  rw [hstages, List.foldlM_append, bind_eq_ok] at himprove
  obtain ⟨entry, hentry, hlast⟩ := himprove
  rw [List.foldlM_cons, bind_eq_ok] at hlast
  obtain ⟨final, hstage, hfinal⟩ := hlast
  obtain rfl : final = state := Except.ok.inj hfinal
  exact .intro hlinear hstages hentry (List.append_nil _).symm hstage

/-- What the log of a round tells that starts from the best order so far, first lists it breadth
first and then comes to a state. -/
structure RoundTold (settings : Settings) (best linear : Arrangement) (state : State) : Prop where
  linearize_eq : linearize best = .ok linear
  round_eq : round settings best = .ok state
  /-- All events are proposals of passes of their kind. Each old cost is the penalty of the order for
  which the proposal was made, and each new cost that of the order which was proposed. -/
  course : Course settings linear.graph.groups linear state.log state.arrangement
  /-- The old cost is the penalty of the first order until a proposal is accepted, and the new cost
  of the latest one afterwards. What is cheaper is accepted. -/
  chained : ∀ before kind oldCost newCost accepted after,
    state.log = before ++ .proposed kind oldCost newCost accepted :: after →
      oldCost = (before.filterMap Event.acceptedCost?).getLast?.getD (settings.penalty linear) ∧
        (accepted = true ↔ newCost < oldCost)
  inOrder : PassesInOrder state.log
  /-- All passes have a name, and that of the last one stands for keeping constructors together. -/
  names : ∀ name ∈ state.log.filterMap Event.pass?, name ∈ passNames ∧
    (name = "constructors_first" → settings.constructorCohesion = true)
  /-- The cost that is kept beside the order at hand is right throughout the round. -/
  cached : AtHand settings best state ∧ ∀ moment, AtHand settings best moment →
    moment.cost = settings.penalty moment.arrangement

theorem roundTold_of_round (h : round settings best = .ok state) :
    ∃ linear, RoundTold settings best linear state := by
  have hround := h
  rw [round, bind_eq_ok] at h
  obtain ⟨linear, hlinear, himprove⟩ := h
  rw [improve_eq_stages] at himprove
  obtain ⟨events, hadvances, horder, hnames⟩ :=
    stages_advance (fun _ hstage => hstage) rfl (pairwise_passNames settings _) himprove
  have hlog : state.log = events := hadvances.log_eq
  refine ⟨linear, hlinear, hround, hlog ▸ hadvances.course, ?_, hlog ▸ horder, ?_,
    atHand_of_round hround, fun _ hmoment => hmoment.cost_eq⟩
  · intro before kind oldCost newCost accepted after hsplit
    exact hadvances.course.explained (hlog ▸ hsplit)
  · intro name hname
    have hmem := hnames name (hlog ▸ hname)
    rw [map_label_stages] at hmem
    cases hcohesion : settings.constructorCohesion with
    | true =>
        rw [hcohesion, if_pos rfl] at hmem
        exact ⟨hmem, fun _ => rfl⟩
    | false =>
        rw [hcohesion, if_neg (by decide)] at hmem
        refine ⟨List.dropLast_subset _ hmem, ?_⟩
        rintro rfl
        exact absurd hmem (by decide)

/-! ## The search -/

/-- The log of a search: rounds with numbers from the given one on, each of them accepted but the
last. At the end of a round the penalty of its outcome is compared with that of the best order so
far. -/
inductive Chronicle (settings : Settings) : Nat → Arrangement → List Event → Arrangement → Prop
  | stop {number : Nat} {best linear : Arrangement} {state : State}
      (htold : RoundTold settings best linear state)
      (hrejected : ¬ settings.penalty state.arrangement < settings.penalty best) :
      Chronicle settings number best
        (.roundStarted number :: state.log
          ++ [.roundFinished (settings.penalty best) (settings.penalty state.arrangement) false])
        best
  | next {number : Nat} {best linear final : Arrangement} {state : State} {log : List Event}
      (htold : RoundTold settings best linear state)
      (haccepted : settings.penalty state.arrangement < settings.penalty best)
      (hrest : Chronicle settings (number + 1) state.arrangement log final) :
      Chronicle settings number best
        (.roundStarted number :: state.log
          ++ [.roundFinished (settings.penalty best) (settings.penalty state.arrangement) true]
          ++ log)
        final

/-- Rounds are numbered one by one, and all are accepted but the last. -/
theorem Chronicle.numbered (h : Chronicle settings number best log final) :
    ∃ more, log.filterMap Event.roundNumber? = List.range' number (more + 1) ∧
      log.filterMap Event.roundAccepted? = List.replicate more true ++ [false] := by
  induction h with
  | stop htold _ =>
      obtain ⟨hnumbers, hverdicts⟩ := htold.course.filterMap_eq_nil
      refine ⟨0, ?_, ?_⟩
      · simp [List.filterMap_cons, Event.roundNumber?, hnumbers]
      · simp [List.filterMap_cons, Event.roundAccepted?, hverdicts]
  | next htold _ _ ih =>
      obtain ⟨hnumbers, hverdicts⟩ := htold.course.filterMap_eq_nil
      obtain ⟨more, hmore, hmore'⟩ := ih
      refine ⟨more + 1, ?_, ?_⟩
      · simp [List.filterMap_cons, Event.roundNumber?, hnumbers, hmore, List.range'_succ]
      · simp [List.filterMap_cons, Event.roundAccepted?, hverdicts, hmore', List.replicate_succ]

/-- The rounds with a limit write the log of a descent that is shorter than the limit. -/
theorem rounds_eq_of_chronicle (hdescent : Descent settings best bests final)
    (hlimit : bests.length < limit) (number : Nat) :
    ∃ outcome, rounds settings limit number best (settings.penalty best) = .ok outcome ∧
      Chronicle settings number best outcome.log outcome.arrangement := by
  induction hdescent generalizing limit number with
  | stop hround hrejected =>
      obtain ⟨limit, rfl⟩ : ∃ rest, limit = rest + 1 := ⟨limit - 1, by omega⟩
      obtain ⟨linear, htold⟩ := roundTold_of_round hround
      exact ⟨_, rounds_of_rejected hround hrejected, .stop htold hrejected⟩
  | next hround haccepted _ ih =>
      rw [List.length_cons] at hlimit
      obtain ⟨limit, rfl⟩ : ∃ rest, limit = rest + 1 := ⟨limit - 1, by omega⟩
      obtain ⟨linear, htold⟩ := roundTold_of_round hround
      obtain ⟨outcome, hrest, hchronicle⟩ := ih (Nat.lt_of_succ_lt_succ hlimit) (number + 1)
      exact ⟨_, rounds_of_accepted hround haccepted hrest, .next htold haccepted hchronicle⟩

/-- **Costs**: whatever calls are given and whatever the settings, the costs in the log of a search
over two methods or more are penalties and form one chain. Rounds are numbered from 1 and accepted
but for the last one; each is compared with the best order so far. Within a round each proposal is
compared with the order at hand, the passes come in their order, and the cost that is kept is that
of the order at hand. -/
theorem costs_form_chain {outline : Outline} {arrangement : Arrangement}
    (built : Outline.ofDeclaration declaration = .ok outline) (calls : List Call)
    (settings : Settings) (reached : Reachable (CallGraph.ofCalls outline calls) arrangement)
    (two : 2 ≤ arrangement.size) :
    ∃ outcome, run settings arrangement = .ok outcome ∧
      Chronicle settings 1 arrangement outcome.log outcome.arrangement ∧
      ∃ more, outcome.log.filterMap Event.roundNumber? = List.range' 1 (more + 1) ∧
        outcome.log.filterMap Event.roundAccepted? = List.replicate more true ++ [false] := by
  have wf := CallGraph.wellFormed_ofCalls (Outline.numbered_of_ofDeclaration built) calls
  obtain ⟨bests, final, -, hdescent, -, -, -, hlength⟩ :=
    exists_descent built wf settings reached (by omega)
  obtain ⟨outcome, hrounds, hchronicle⟩ :=
    rounds_eq_of_chronicle hdescent (Nat.lt_succ_of_le hlength) 1
  refine ⟨outcome, ?_, hchronicle, hchronicle.numbered⟩
  rw [run, if_neg (by omega), hrounds]

/-- A class with two constructors, of which the second is declared last. -/
def point : ClassDeclaration where
  name := "Point"
  methods := [
    { name := "norm", line := 1, endLine := 3 },
    { name := "Point", isConstructor := true, line := 4, endLine := 6 },
    { name := "scale", line := 7, endLine := 9 },
    { name := "Point", parameters := [{ typeName := "int" }], isConstructor := true,
      line := 10, endLine := 12 } ]

/-- Its outline. -/
def pointOutline : Outline :=
  (Outline.ofDeclaration point).toOption.getD default

theorem point_built : Outline.ofDeclaration point = .ok pointOutline := by rfl

/-- A call of `scale` in `norm`. -/
def pointCalls : List Call := [{ site := 0, caller := 0, callee := 2, line := 2, column := 4 }]

/-- Which methods call which. -/
def pointGraph : CallGraph :=
  CallGraph.ofCalls pointOutline pointCalls

/-- Breadth first the constructors stand far apart, which costs 9. To pull `scale` up to `norm`, where
it is already, makes no difference, and putting constructors first lowers the cost to 1. The declared
order costs 6, so the first round is accepted, and the second one comes to the same. -/
theorem costs_form_chain_point :
    let start := initial pointGraph
    2 ≤ start.size ∧ ∃ outcome, run {} start = .ok outcome ∧
      Chronicle {} 1 start outcome.log outcome.arrangement ∧
      outcome.log = [
        .roundStarted 1, .proposed .pullDependencies 9 9 false,
        .proposed .constructorsFirst 9 1 true, .roundFinished 6 1 true,
        .roundStarted 2, .proposed .pullDependencies 9 9 false,
        .proposed .constructorsFirst 9 1 true, .roundFinished 1 1 false] := by
  intro start
  have reached : Reachable pointGraph start := .initial
  obtain ⟨outcome, hrun, hchronicle, -⟩ :=
    costs_form_chain point_built pointCalls {} reached (by decide)
  have hlog : (run {} start).toOption.map Outcome.log = some [
      .roundStarted 1, .proposed .pullDependencies 9 9 false,
      .proposed .constructorsFirst 9 1 true, .roundFinished 6 1 true,
      .roundStarted 2, .proposed .pullDependencies 9 9 false,
      .proposed .constructorsFirst 9 1 true, .roundFinished 1 1 false] := by decide +kernel
  rw [hrun] at hlog
  exact ⟨by decide, outcome, hrun, hchronicle, Option.some.inj hlog⟩

end Search

end ClassLayout

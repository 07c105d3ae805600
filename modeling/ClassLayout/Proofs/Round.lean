import ClassLayout.Proofs.FloatOrder
import ClassLayout.Proofs.Proposal
import ClassLayout.Proofs.Seed
import ClassLayout.Search

/-!
# ClassLayout.Proofs.Round

One round of the search, seen as a list of stages. A stage tries passes of one kind one after the
other; which ones is settled when it begins (`passOf_of_mem_stages`), but each is tried on the order
at hand by then.

1. `propose_eq_ok` says all that a proposal can do to the state.
2. `attempt_improves`: an attempt succeeds and keeps the invariant `Improves`, which says that the
   order at hand is reachable, that its cost is its penalty and that it is no worse than the first
   one.
3. `improve_improves` and `exists_round` carry this to all stages and to the round.

`round_eq_of_seed` is what ends the search: a round depends on the best order only through its seed.
-/

namespace ClassLayout

open Arrangement

/-! ## Passes on reachable arrangements -/

namespace Pass

variable {graph : CallGraph} {arrangement : Arrangement} {pass : Pass}

/-- Every arrangement of a class has the same methods. -/
theorem isAbout_iff (h : Reachable graph arrangement) :
    pass.isAbout arrangement = true ↔ ∀ id ∈ pass.subjects, id < graph.size := by
  simp [isAbout, hasMethod, h.size_eq]

/-- Gathering a group of the class is about methods of the class. -/
theorem subjects_gatherGroup_lt (wf : graph.WellFormed) (hgroup : group ∈ graph.groups.all) :
    ∀ id ∈ (Pass.gatherGroup group).subjects, id < graph.size := by
  intro id hid
  rw [subjects] at hid
  split at hid
  · contradiction
  · exact wf.groups_lt hgroup hid

/-- What a pass about methods of the class proposes is accepted. -/
theorem exists_reorder_of_proposal? (wf : graph.WellFormed) (h : Reachable graph arrangement)
    (habout : ∀ id ∈ pass.subjects, id < graph.size)
    (hproposal : pass.proposal? arrangement = some proposed) :
    ∃ result, arrangement.reorder proposed = .ok result ∧ Reachable graph result := by
  have hisAbout := (isAbout_iff h).mpr habout
  obtain ⟨order, horder, rfl⟩ := h.exists_order
  have hproposed := isOrder_of_proposal? wf horder hisAbout hproposal
  exact ⟨_, (reorder_ofOrder_eq_ok horder).mpr ⟨hproposed, rfl⟩, reachable_ofOrder hproposed⟩

end Pass

/-! ## Cheaper orders -/

/-- The first order is the second one or costs less. -/
def Settings.Prefers (settings : Settings) (arrangement other : Arrangement) : Prop :=
  arrangement = other ∨ settings.penalty arrangement < settings.penalty other

namespace Settings.Prefers

variable {settings : Settings} {a b c : Arrangement}

theorem refl (a : Arrangement) : settings.Prefers a a := .inl rfl

theorem lt_of_lt (h : settings.Prefers b c) (hlt : settings.penalty a < settings.penalty b) :
    settings.penalty a < settings.penalty c := by
  rcases h with rfl | h
  · exact hlt
  · exact FloatOrder.lt_of_lt_of_lt hlt h

theorem lt_trans (h : settings.Prefers a b) (hlt : settings.penalty b < settings.penalty c) :
    settings.penalty a < settings.penalty c := by
  rcases h with rfl | h
  · exact hlt
  · exact FloatOrder.lt_of_lt_of_lt h hlt

theorem trans (h : settings.Prefers a b) (h' : settings.Prefers b c) : settings.Prefers a c := by
  rcases h with rfl | h
  · exact h'
  · exact .inr (h'.lt_of_lt h)

theorem not_lt (h : settings.Prefers a b) : ¬ settings.penalty b < settings.penalty a := fun hlt =>
  FloatOrder.not_lt_self _ (h.lt_of_lt hlt)

end Settings.Prefers

/-! ## Events of the search as a whole -/

/-- Whether a round begins. -/
def Event.isRoundStart : Event → Bool
  | .roundStarted _ => true
  | _ => false

/-- Whether the outcome of a round is accepted. -/
def Event.isRoundAccepted : Event → Bool
  | .roundFinished _ _ accepted => accepted
  | _ => false

namespace Search

variable {settings : Settings} {graph : CallGraph} {state next : State} {pass : Pass}

/-! ## Stages -/

/-- Passes of one kind, listed for the order at hand when the stage begins. -/
structure Stage where
  kind : ProposalKind
  passes : Arrangement → List Pass

/-- The stages of a round over a class with the given groups. -/
def stages (settings : Settings) (groups : Groups) : List Stage :=
  [ { kind := .overrideGroup
      passes := fun _ => [.gatherGroup groups.overrides] },
    { kind := .overloadGroup
      passes := fun arrangement =>
        (Proposal.groupsByFirstAppearance arrangement groups.overloads).map .gatherGroup },
    { kind := .accessorGroup
      passes := fun arrangement =>
        (Proposal.groupsByFirstAppearance arrangement groups.accessors).map .gatherGroup },
    { kind := .relativeOrder
      passes := fun arrangement => arrangement.order.map .alignRelativeOrder },
    { kind := .pullDependencies
      passes := fun arrangement => arrangement.order.map .pullDependencies } ]
    ++ if settings.constructorCohesion then
      [{ kind := .constructorsFirst, passes := fun _ => [.constructorsFirst] }]
    else []

/-- Try a pass on the order at hand. -/
def attempt (settings : Settings) (kind : ProposalKind) (state : State) (pass : Pass) :
    Except Error State :=
  propose settings kind state (pass.proposal? state.arrangement)

/-- Try the passes of a stage one after the other. -/
def runStage (settings : Settings) (state : State) (stage : Stage) : Except Error State :=
  (stage.passes state.arrangement).foldlM (attempt settings stage.kind) state

/-- The proposals of a round are its stages, one after the other. -/
theorem improve_eq_stages (settings : Settings) (state : State) :
    improve settings state =
      (stages settings state.arrangement.graph.groups).foldlM (runStage settings) state := by
  unfold improve stages
  cases settings.constructorCohesion with
  | true =>
      simp only [runStage, gatherAll, forCallers, List.foldlM_map, List.foldlM_cons,
        List.foldlM_nil, List.cons_append, List.nil_append, bind_pure, if_true]
      rfl
  | false =>
      simp only [runStage, gatherAll, forCallers, List.foldlM_map, List.foldlM_cons,
        List.foldlM_nil, List.append_nil, Bool.false_eq_true, if_false]
      rfl

/-- The passes of each kind over a class with the given groups. -/
inductive PassOf (groups : Groups) : ProposalKind → Pass → Prop
  | overrideGroup : PassOf groups .overrideGroup (.gatherGroup groups.overrides)
  | overloadGroup {group : List Nat} (hgroup : group ∈ groups.overloads) :
      PassOf groups .overloadGroup (.gatherGroup group)
  | accessorGroup {group : List Nat} (hgroup : group ∈ groups.accessors) :
      PassOf groups .accessorGroup (.gatherGroup group)
  | relativeOrder (caller : Nat) : PassOf groups .relativeOrder (.alignRelativeOrder caller)
  | pullDependencies (caller : Nat) : PassOf groups .pullDependencies (.pullDependencies caller)
  | constructorsFirst : PassOf groups .constructorsFirst .constructorsFirst

/-- A stage has passes of its kind only. Those that are not about a group are about methods of the
order that the stage begins with. -/
theorem passOf_of_mem_stages (hstage : stage ∈ stages settings groups)
    (hpass : pass ∈ stage.passes arrangement) :
    PassOf groups stage.kind pass ∧
      ((∀ group, pass ≠ .gatherGroup group) → pass.subjects ⊆ arrangement.order) := by
  simp only [stages, List.mem_append, List.mem_cons, List.not_mem_nil, or_false] at hstage
  rcases hstage with (rfl | rfl | rfl | rfl | rfl) | hlast
  · rw [List.mem_singleton.mp hpass]
    exact ⟨.overrideGroup, fun hother => absurd rfl (hother _)⟩
  · obtain ⟨group, hgroup, rfl⟩ := List.mem_map.mp hpass
    exact ⟨.overloadGroup (Proposal.mem_of_mem_groupsByFirstAppearance hgroup),
      fun hother => absurd rfl (hother group)⟩
  · obtain ⟨group, hgroup, rfl⟩ := List.mem_map.mp hpass
    exact ⟨.accessorGroup (Proposal.mem_of_mem_groupsByFirstAppearance hgroup),
      fun hother => absurd rfl (hother group)⟩
  · obtain ⟨caller, hcaller, rfl⟩ := List.mem_map.mp hpass
    exact ⟨.relativeOrder caller, by simpa [Pass.subjects] using hcaller⟩
  · obtain ⟨caller, hcaller, rfl⟩ := List.mem_map.mp hpass
    exact ⟨.pullDependencies caller, by simpa [Pass.subjects] using hcaller⟩
  · split at hlast
    · rw [List.mem_singleton] at hlast
      subst hlast
      rw [List.mem_singleton.mp hpass]
      exact ⟨.constructorsFirst, fun _ => List.nil_subset _⟩
    · contradiction

/-- Every pass of a round is about methods of the class. -/
theorem subjects_lt_of_mem_stages (wf : graph.WellFormed) (h : Reachable graph arrangement)
    (hstage : stage ∈ stages settings graph.groups) (hpass : pass ∈ stage.passes arrangement) :
    ∀ id ∈ pass.subjects, id < graph.size := by
  obtain ⟨hkind, hsubjects⟩ := passOf_of_mem_stages hstage hpass
  have hcallers : (∀ group, pass ≠ .gatherGroup group) → ∀ id ∈ pass.subjects, id < graph.size :=
    fun hother id hid => h.isOrder.mem_iff.mp (hsubjects hother hid)
  generalize stage.kind = kind at hkind
  cases hkind with
  | overrideGroup => exact Pass.subjects_gatherGroup_lt wf (by simp [Groups.all])
  | overloadGroup hgroup => exact Pass.subjects_gatherGroup_lt wf (by simp [Groups.all, hgroup])
  | accessorGroup hgroup => exact Pass.subjects_gatherGroup_lt wf (by simp [Groups.all, hgroup])
  | relativeOrder caller => exact hcallers (by simp)
  | pullDependencies caller => exact hcallers (by simp)
  | constructorsFirst => exact hcallers (by simp)

/-! ## One attempt -/

/-- A proposal is compared with the order at hand and replaces it if it is cheaper. -/
theorem propose_eq_ok :
    propose settings kind state (some proposed) = .ok next ↔
      ∃ candidate, state.arrangement.reorder proposed = .ok candidate ∧
        ((settings.penalty candidate < state.cost ∧
          next = {
            arrangement := candidate
            cost := settings.penalty candidate
            log := state.log ++ [.proposed kind state.cost (settings.penalty candidate) true] }) ∨
        (¬ settings.penalty candidate < state.cost ∧
          next = { state with
            log := state.log
              ++ [.proposed kind state.cost (settings.penalty candidate) false] })) := by
  rw [propose, bind_eq_ok]
  refine exists_congr fun candidate => and_congr_right fun _ => ?_
  dsimp only
  split
  · next h => simp [h, pure, Except.pure, eq_comm]
  · next h => simp [h, pure, Except.pure, eq_comm]

/-- What holds of the state throughout a round that starts with the given order. -/
structure Improves (settings : Settings) (graph : CallGraph) (start : Arrangement) (state : State) :
    Prop where
  reachable : Reachable graph state.arrangement
  cost_eq : state.cost = settings.penalty state.arrangement
  /-- The order at hand is the first one until a cheaper one takes its place. -/
  prefers : settings.Prefers state.arrangement start
  /-- Within a round no round begins or ends. -/
  log : ∀ event ∈ state.log, event.isRoundStart = false ∧ event.isRoundAccepted = false

theorem improves_start (h : Reachable graph start) :
    Improves settings graph start (State.start settings start) where
  reachable := h
  cost_eq := rfl
  prefers := .refl start
  log := by simp [State.start]

/-- An attempt succeeds, and afterwards the order at hand is still no worse than the first one. -/
theorem attempt_improves (wf : graph.WellFormed) (h : Improves settings graph start state)
    (habout : ∀ id ∈ pass.subjects, id < graph.size) :
    ∃ next, attempt settings kind state pass = .ok next ∧ Improves settings graph start next := by
  unfold attempt
  cases hproposal : pass.proposal? state.arrangement with
  | none => exact ⟨state, rfl, h⟩
  | some proposed =>
      obtain ⟨candidate, hcandidate, hreachable⟩ :=
        Pass.exists_reorder_of_proposal? wf h.reachable habout hproposal
      have hlog : ∀ cost accepted,
          ∀ event ∈ state.log ++ [.proposed kind state.cost cost accepted],
            event.isRoundStart = false ∧ event.isRoundAccepted = false := by
        intro cost accepted event hevent
        rcases List.mem_append.mp hevent with hevent | hevent
        · exact h.log event hevent
        · rw [List.mem_singleton.mp hevent]
          exact ⟨rfl, rfl⟩
      by_cases hcheaper : settings.penalty candidate < state.cost
      · refine ⟨_, propose_eq_ok.mpr ⟨candidate, hcandidate, .inl ⟨hcheaper, rfl⟩⟩, ?_⟩
        rw [h.cost_eq] at hcheaper
        exact ⟨hreachable, rfl, .inr (h.prefers.lt_of_lt hcheaper), hlog _ _⟩
      · exact ⟨_, propose_eq_ok.mpr ⟨candidate, hcandidate, .inr ⟨hcheaper, rfl⟩⟩,
          h.reachable, h.cost_eq, h.prefers, hlog _ _⟩

/-! ## All attempts -/

theorem attempts_improve {passes : List Pass} (wf : graph.WellFormed)
    (h : Improves settings graph start state)
    (habout : ∀ pass ∈ passes, ∀ id ∈ pass.subjects, id < graph.size) :
    ∃ next, passes.foldlM (attempt settings kind) state = .ok next ∧
      Improves settings graph start next :=
  foldlM_preserves (Improves settings graph start)
    (fun _ h pass hpass => attempt_improves wf h (habout pass hpass)) h

theorem stages_improve {part : List Stage} (wf : graph.WellFormed)
    (h : Improves settings graph start state)
    (hstages : ∀ stage ∈ part, stage ∈ stages settings graph.groups) :
    ∃ next, part.foldlM (runStage settings) state = .ok next ∧
      Improves settings graph start next := by
  refine foldlM_preserves (Improves settings graph start) ?_ h
  intro state h stage hstage
  exact attempts_improve wf h fun pass hpass =>
    subjects_lt_of_mem_stages wf h.reachable (hstages stage hstage) hpass

theorem improve_improves (wf : graph.WellFormed) (h : Improves settings graph start state) :
    ∃ next, improve settings state = .ok next ∧ Improves settings graph start next := by
  rw [improve_eq_stages, h.reachable.graph_eq]
  exact stages_improve wf h fun _ hstage => hstage

/-! ## A round -/

section Round

variable {declaration : ClassDeclaration} {best other : Arrangement}

/-- Breadth first takes no notice of the order at hand. -/
theorem breadthFirst_eq_initial (h : Reachable graph best) (seed : Nat) :
    Proposal.breadthFirst best seed = Proposal.breadthFirst (initial graph) seed := by
  rw [Proposal.breadthFirst, Proposal.breadthFirst, h.graph_eq, h.size_eq,
    Reachable.initial.graph_eq, Reachable.initial.size_eq]

section

variable (built : Outline.ofDeclaration declaration = .ok graph.outline)

include built

/-- The seed is a method of the class. -/
theorem seed_lt (h : Reachable graph best) (hseed : best.seed? = some seed) : seed < graph.size :=
  lt_of_mem_seedCandidates built (h.seed_mem built hseed)

/-- A round starts with the methods listed breadth first from the seed. -/
theorem linearize_eq (wf : graph.WellFormed) (h : Reachable graph best)
    (hseed : best.seed? = some seed) :
    linearize best = .ok (ofOrder graph (Proposal.breadthFirst (initial graph) seed)) := by
  have hlt := seed_lt built h hseed
  rw [linearize, hseed]
  dsimp only
  rw [breadthFirst_eq_initial h]
  obtain ⟨order, horder, rfl⟩ := h.exists_order
  rw [reorder_ofOrder_eq_ok horder]
  exact ⟨Proposal.breadthFirst_isOrder wf (List.Perm.refl _) hlt, rfl⟩

theorem exists_linearize (wf : graph.WellFormed) (h : Reachable graph best) :
    ∃ linear, linearize best = .ok linear ∧ Reachable graph linear := by
  cases hseed : best.seed? with
  | none =>
      refine ⟨best, ?_, h⟩
      rw [linearize, hseed]
  | some seed =>
      refine ⟨_, linearize_eq built wf h hseed, reachable_ofOrder ?_⟩
      exact Proposal.breadthFirst_isOrder wf (List.Perm.refl _) (seed_lt built h hseed)

/-- A round succeeds, and its outcome is no worse than the order with which it starts. -/
theorem exists_round (settings : Settings) (wf : graph.WellFormed) (h : Reachable graph best) :
    ∃ linear state, linearize best = .ok linear ∧ round settings best = .ok state ∧
      Improves settings graph linear state := by
  obtain ⟨linear, hlinear, hreachable⟩ := exists_linearize built wf h
  obtain ⟨state, hstate, himproves⟩ := improve_improves wf (improves_start hreachable)
  refine ⟨linear, state, hlinear, ?_, himproves⟩
  rw [round, bind_eq_ok]
  exact ⟨linear, hlinear, hstate⟩

/-- A round depends on the order it is given only through the seed. -/
theorem round_eq_of_seed (settings : Settings) (wf : graph.WellFormed) (h : Reachable graph best)
    (h' : Reachable graph other) (hseed : best.seed? = some seed)
    (hseed' : other.seed? = some seed) :
    round settings best = round settings other := by
  rw [round, round, linearize_eq built wf h hseed, linearize_eq built wf h' hseed']

end

/-! ## What a round tries -/

/-- A round from the best order so far comes to try a pass on an order. -/
inductive Tries (settings : Settings) (best : Arrangement) : Arrangement → Pass → Prop
  /-- First the methods are listed breadth first from the seed. -/
  | linearize {seed : Nat} (hseed : best.seed? = some seed) :
      Tries settings best best (.breadthFirst seed)
  /-- After that a pass is tried once the earlier stages and the earlier passes of its stage are
  done. -/
  | improve {linear : Arrangement} {earlier later : List Stage} {stage : Stage}
      {done pending : List Pass} {pass : Pass} {entry state : State}
      (hlinear : Search.linearize best = .ok linear)
      (hstages : stages settings linear.graph.groups = earlier ++ stage :: later)
      (hentry : earlier.foldlM (runStage settings) (State.start settings linear) = .ok entry)
      (hpasses : stage.passes entry.arrangement = done ++ pass :: pending)
      (hstate : done.foldlM (attempt settings stage.kind) entry = .ok state) :
      Tries settings best state.arrangement pass

/-- Nothing goes wrong in a round: every pass that it tries is about methods that are known, what it
proposes is accepted as an order, and all that is looked up on the way is there. -/
def RoundSafe (settings : Settings) (best : Arrangement) : Prop :=
  ∀ current pass, Tries settings best current pass →
    current.InRange ∧ (∀ id ∈ pass.subjects, current.Knows id) ∧
    ∀ proposed, pass.proposal? current = some proposed →
      ∃ candidate, current.reorder proposed = .ok candidate ∧ candidate.InRange

section

variable (built : Outline.ofDeclaration declaration = .ok graph.outline) (wf : graph.WellFormed)
  (h : Reachable graph best)

include built wf h

/-- All that is tried is about methods of the class, and is tried on a reachable order. -/
theorem Tries.sound {arrangement : Arrangement}
    (htries : Tries settings best arrangement pass) :
    Reachable graph arrangement ∧ ∀ id ∈ pass.subjects, id < graph.size := by
  cases htries with
  | linearize hseed =>
      refine ⟨h, ?_⟩
      simpa [Pass.subjects] using seed_lt built h hseed
  | @improve linear earlier later stage done pending _ entry state
      hlinear hstages hentry hpasses hstate =>
      obtain ⟨linear', hlinear', hreachable⟩ := exists_linearize built wf h
      obtain rfl := Except.ok.inj (hlinear'.symm.trans hlinear)
      rw [hreachable.graph_eq] at hstages
      obtain ⟨entry', hentry', hentered⟩ := stages_improve wf (improves_start hreachable)
        fun _ hstage => hstages ▸ List.mem_append_left _ hstage
      obtain rfl := Except.ok.inj (hentry'.symm.trans hentry)
      have habout : ∀ tried ∈ done ++ pass :: pending, ∀ id ∈ tried.subjects, id < graph.size :=
        hpasses ▸ fun _ htried => subjects_lt_of_mem_stages wf hentered.reachable
          (hstages ▸ List.mem_append_right _ List.mem_cons_self) htried
      obtain ⟨state', hstate', hcurrent⟩ := attempts_improve wf hentered
        fun tried htried => habout tried (List.mem_append_left _ htried)
      obtain rfl := Except.ok.inj (hstate'.symm.trans hstate)
      exact ⟨hcurrent.reachable, habout pass (List.mem_append_right _ List.mem_cons_self)⟩

/-- Every pass of every stage has its turn. -/
theorem exists_tries (hstages : stages settings graph.groups = earlier ++ stage :: later) :
    ∃ entry, Reachable graph entry ∧
      ∀ pass ∈ stage.passes entry, ∃ current, Tries settings best current pass := by
  obtain ⟨linear, hlinear, hreachable⟩ := exists_linearize built wf h
  obtain ⟨entry, hentry, hentered⟩ := stages_improve wf (improves_start hreachable)
    fun _ hstage => hstages ▸ List.mem_append_left _ hstage
  refine ⟨entry.arrangement, hentered.reachable, ?_⟩
  intro pass hpass
  obtain ⟨done, pending, hpasses⟩ := List.append_of_mem hpass
  obtain ⟨state, hstate, -⟩ := attempts_improve wf hentered fun _ htried =>
    subjects_lt_of_mem_stages wf hentered.reachable
      (hstages ▸ List.mem_append_right _ List.mem_cons_self)
      (hpasses ▸ List.mem_append_left _ htried)
  rw [← hreachable.graph_eq] at hstages
  exact ⟨state.arrangement, .improve hlinear hstages hentry hpasses hstate⟩

theorem roundSafe : RoundSafe settings best := by
  intro current pass htries
  obtain ⟨hcurrent, habout⟩ := htries.sound built wf h
  refine ⟨hcurrent.inRange wf, fun id hid => hcurrent.knows wf (habout id hid), ?_⟩
  intro proposed hproposed
  obtain ⟨candidate, hcandidate, hreached⟩ :=
    Pass.exists_reorder_of_proposal? wf hcurrent habout hproposed
  exact ⟨candidate, hcandidate, hreached.inRange wf⟩

end

end Round

end Search

end ClassLayout

import ClassLayout.Proofs.Round
import Mathlib.Data.Finset.Card

/-!
# ClassLayout.Proofs.Search

What the search achieves, whatever the settings. Its rounds are told by a relation without a limit:
`Descent settings best bests final` says that the rounds from `best` go down along `bests`, each of
which is followed by something cheaper, and end with `final`, which is not.

1. Every round uses up its seed: `Spent` says that the best order so far is preferred to whatever a
   seed used before leads to. Hence there is a descent, along different seeds
   (`exists_descent_of_spent`).
2. `rounds_eq_of_descent`: the rounds with a limit follow the descent, if the limit is large enough.
3. `exists_run` puts both together, as there are no more seeds than methods (`exists_descent`).
-/

namespace ClassLayout.Search

open Arrangement

variable {settings : Settings} {declaration : ClassDeclaration} {graph : CallGraph}
  {best final : Arrangement} {bests : List Arrangement} {state : State}

/-! ## Descents -/

/-- The rounds from an order, each of which is accepted but the last. -/
inductive Descent (settings : Settings) : Arrangement → List Arrangement → Arrangement → Prop
  | stop {best : Arrangement} {state : State} (hround : round settings best = .ok state)
      (hrejected : ¬ settings.penalty state.arrangement < settings.penalty best) :
      Descent settings best [] best
  | next {best final : Arrangement} {bests : List Arrangement} {state : State}
      (hround : round settings best = .ok state)
      (haccepted : settings.penalty state.arrangement < settings.penalty best)
      (hrest : Descent settings state.arrangement bests final) :
      Descent settings best (best :: bests) final

namespace Descent

/-- The last order is preferred to the first one. -/
theorem prefers (h : Descent settings best bests final) : settings.Prefers final best := by
  induction h with
  | stop => exact .refl _
  | next _ haccepted _ ih => exact ih.trans (.inr haccepted)

/-- The outcome of the first round is not cheaper than the last order. -/
theorem not_lt_of_round (h : Descent settings best bests final)
    (hround : round settings best = .ok state) :
    ¬ settings.penalty state.arrangement < settings.penalty final := by
  cases h with
  | stop hround' hrejected =>
      obtain rfl := Except.ok.inj (hround.symm.trans hround')
      exact hrejected
  | next hround' _ hrest =>
      obtain rfl := Except.ok.inj (hround.symm.trans hround')
      exact hrest.prefers.not_lt

/-- One more round from the last order is rejected. -/
theorem stop_final (h : Descent settings best bests final) : Descent settings final [] final := by
  induction h with
  | stop hround hrejected => exact .stop hround hrejected
  | next _ _ _ ih => exact ih

end Descent

/-! ## Rounds with a limit -/

theorem rounds_of_rejected (hround : round settings best = .ok state)
    (hrejected : ¬ settings.penalty state.arrangement < cost) :
    rounds settings (limit + 1) number best cost = .ok {
      arrangement := best
      log := .roundStarted number :: state.log
        ++ [.roundFinished cost (settings.penalty state.arrangement) false] } := by
  rw [rounds, bind_eq_ok]
  refine ⟨state, hround, ?_⟩
  simp [hrejected, pure, Except.pure]

theorem rounds_of_accepted (hround : round settings best = .ok state)
    (haccepted : settings.penalty state.arrangement < cost)
    (hrest : rounds settings limit (number + 1) state.arrangement
      (settings.penalty state.arrangement) = .ok outcome) :
    rounds settings (limit + 1) number best cost = .ok {
      arrangement := outcome.arrangement
      log := .roundStarted number :: state.log
        ++ [.roundFinished cost (settings.penalty state.arrangement) true] ++ outcome.log } := by
  rw [rounds, bind_eq_ok]
  refine ⟨state, hround, ?_⟩
  simp [haccepted, hrest, bind, Except.bind, pure, Except.pure]

/-- An order from which a round leads to nothing cheaper is kept. -/
theorem optimize_of_stop (h : Descent settings best [] best) :
    optimize settings best = .ok best := by
  cases h with
  | stop hround hrejected =>
      rw [optimize, run, rounds_of_rejected hround hrejected]
      split <;> rfl

/-! ## Spent seeds -/

/-- The order is preferred to whatever a round leads to from one of these seeds. -/
def Spent (settings : Settings) (graph : CallGraph) (used : Finset Nat) (best : Arrangement) :
    Prop :=
  ∀ seed ∈ used, ∀ other state, Reachable graph other → other.seed? = some seed →
    round settings other = .ok state → settings.Prefers best state.arrangement

/-- What a spent seed leads to is not accepted again. -/
theorem Spent.not_mem {used : Finset Nat} (hspent : Spent settings graph used best)
    (h : Reachable graph best) (hseed : best.seed? = some seed)
    (hround : round settings best = .ok state)
    (haccepted : settings.penalty state.arrangement < settings.penalty best) : seed ∉ used :=
  fun hmem => (hspent seed hmem best state h hseed hround).not_lt haccepted

section

variable (built : Outline.ofDeclaration declaration = .ok graph.outline) (wf : graph.WellFormed)

include built wf

theorem reachable_of_round (h : Reachable graph best) (hround : round settings best = .ok state) :
    Reachable graph state.arrangement := by
  obtain ⟨_, state', -, hround', himproves⟩ := exists_round built settings wf h
  obtain rfl : state' = state := Except.ok.inj (hround'.symm.trans hround)
  exact himproves.reachable

/-- All orders along a descent are reachable. -/
theorem Descent.reachable (hdescent : Descent settings best bests final)
    (h : Reachable graph best) :
    ∀ current ∈ bests ++ [final], Reachable graph current := by
  induction hdescent with
  | stop =>
      intro current hcurrent
      rwa [List.mem_singleton.mp hcurrent]
  | next hround _ _ ih =>
      intro current hcurrent
      rcases List.mem_cons.mp hcurrent with rfl | hcurrent
      · exact h
      · exact ih (reachable_of_round built wf h hround) current hcurrent

/-- The seed of a round that is accepted is spent after it. -/
theorem Spent.insert {used : Finset Nat} (hspent : Spent settings graph used best)
    (h : Reachable graph best) (hseed : best.seed? = some seed)
    (hround : round settings best = .ok state)
    (haccepted : settings.penalty state.arrangement < settings.penalty best) :
    Spent settings graph (insert seed used) state.arrangement := by
  intro seed' hmem other state' hother hseed' hround'
  rcases Finset.mem_insert.mp hmem with rfl | hmem
  · -- the same seed leads to the same order
    rw [round_eq_of_seed built settings wf hother h hseed' hseed, hround] at hround'
    injection hround' with hround'
    rw [hround']
    exact .refl _
  · have hbest := hspent seed' hmem other state' hother hseed' hround'
    exact .inr (hbest.lt_of_lt haccepted)

/-- The rounds end: each one that is accepted uses up one more candidate. -/
theorem exists_descent_of_spent (hsize : 0 < graph.size) {used : Finset Nat}
    (h : Reachable graph best) (hspent : Spent settings graph used best) :
    ∃ (bests : List Arrangement) (final : Arrangement) (seeds : List Nat),
      Descent settings best bests final ∧ bests.map seed? = seeds.map some ∧ seeds.Nodup ∧
        ∀ seed ∈ seeds, seed ∈ declaration.seedCandidates graph \ used := by
  -- on the number of candidates that are left
  induction hleft : (declaration.seedCandidates graph \ used).card using Nat.strong_induction_on
    generalizing used best with
  | _ left ih =>
      obtain ⟨_, state, -, hround, himproves⟩ := exists_round built settings wf h
      obtain ⟨seed, hseed⟩ := h.exists_seed hsize
      by_cases haccepted : settings.penalty state.arrangement < settings.penalty best
      · have hunused := hspent.not_mem h hseed hround haccepted
        have hmem : seed ∈ declaration.seedCandidates graph \ used :=
          Finset.mem_sdiff.mpr ⟨h.seed_mem built hseed, hunused⟩
        have hfewer : (declaration.seedCandidates graph \ insert seed used).card < left := by
          rw [← hleft, Finset.sdiff_insert]
          exact Finset.card_erase_lt_of_mem hmem
        obtain ⟨bests, final, seeds, hdescent, hseeds, hnodup, hsub⟩ :=
          ih _ hfewer himproves.reachable (hspent.insert built wf h hseed hround haccepted) rfl
        have hrest : ∀ other ∈ seeds,
            other ∈ declaration.seedCandidates graph \ used ∧ other ≠ seed := by
          intro other hother
          have hother := hsub other hother
          rw [Finset.sdiff_insert, Finset.mem_erase] at hother
          exact ⟨hother.2, hother.1⟩
        refine ⟨best :: bests, final, seed :: seeds, .next hround haccepted hdescent, ?_, ?_, ?_⟩
        · rw [List.map_cons, List.map_cons, hseed, hseeds]
        · exact List.nodup_cons.mpr ⟨fun hother => (hrest seed hother).2 rfl, hnodup⟩
        · intro other hother
          rcases List.mem_cons.mp hother with rfl | hother
          · exact hmem
          · exact (hrest other hother).1
      · refine ⟨[], best, [], .stop hround haccepted, rfl, List.nodup_nil, ?_⟩
        intro seed hseed
        contradiction

/-! ## The search -/

/-- What a round logs is neither the start of a round nor its acceptance. -/
theorem countP_log_of_round (h : Reachable graph best) (hround : round settings best = .ok state) :
    state.log.countP Event.isRoundStart = 0 ∧ state.log.countP Event.isRoundAccepted = 0 := by
  obtain ⟨_, state', -, hround', himproves⟩ := exists_round built settings wf h
  obtain rfl := Except.ok.inj (hround'.symm.trans hround)
  rw [List.countP_eq_zero, List.countP_eq_zero]
  constructor
  · intro event hevent
    simp [(himproves.log event hevent).1]
  · intro event hevent
    simp [(himproves.log event hevent).2]

/-- The rounds with a limit follow a descent that is shorter than the limit. The log tells how many
there are. -/
theorem rounds_eq_of_descent (hdescent : Descent settings best bests final)
    (h : Reachable graph best) (hlimit : bests.length < limit) :
    ∃ outcome, rounds settings limit number best (settings.penalty best) = .ok outcome ∧
      outcome.arrangement = final ∧
      outcome.log.countP Event.isRoundAccepted = bests.length ∧
      outcome.log.countP Event.isRoundStart = bests.length + 1 := by
  induction hdescent generalizing limit number with
  | stop hround hrejected =>
      obtain ⟨limit, rfl⟩ : ∃ rest, limit = rest + 1 := ⟨limit - 1, by omega⟩
      obtain ⟨hstart, haccepted⟩ := countP_log_of_round built wf h hround
      refine ⟨_, rounds_of_rejected hround hrejected, rfl, ?_, ?_⟩
      · simp [haccepted, Event.isRoundAccepted]
      · simp [List.countP_cons, hstart, Event.isRoundStart]
  | next hround haccepted _ ih =>
      rw [List.length_cons] at hlimit
      obtain ⟨limit, rfl⟩ : ∃ rest, limit = rest + 1 := ⟨limit - 1, by omega⟩
      obtain ⟨hstart, haccept⟩ := countP_log_of_round built wf h hround
      obtain ⟨outcome, hrest, hfinal, hrestAccept, hrestStart⟩ :=
        ih (reachable_of_round built wf h hround) (Nat.lt_of_succ_lt_succ hlimit)
      refine ⟨_, rounds_of_accepted hround haccepted hrest, hfinal, ?_, ?_⟩
      · simp [List.countP_cons, haccept, hrestAccept, Event.isRoundAccepted]
      · simp [List.countP_cons, hstart, hrestStart, Event.isRoundStart]

/-- There is a descent along different seeds, all of which are candidates, so no more of them than
methods. -/
theorem exists_descent (settings : Settings) (h : Reachable graph arrangement)
    (hsize : 0 < arrangement.size) :
    ∃ (bests : List Arrangement) (final : Arrangement) (seeds : List Nat),
      Descent settings arrangement bests final ∧ bests.map seed? = seeds.map some ∧ seeds.Nodup ∧
      (∀ seed ∈ seeds, seed ∈ declaration.seedCandidates graph) ∧
      bests.length ≤ arrangement.size := by
  rw [h.size_eq] at hsize ⊢
  have hspent : Spent settings graph ∅ arrangement := by
    intro seed hseed
    contradiction
  obtain ⟨bests, final, seeds, hdescent, hseeds, hnodup, hsub⟩ :=
    exists_descent_of_spent built wf hsize h hspent
  rw [Finset.sdiff_empty] at hsub
  refine ⟨bests, final, seeds, hdescent, hseeds, hnodup, hsub, ?_⟩
  have hrange : seeds ⊆ List.range graph.size := fun seed hseed =>
    List.mem_range.mpr (lt_of_mem_seedCandidates built (hsub seed hseed))
  calc
    bests.length = seeds.length := by rw [← List.length_map seed?, hseeds, List.length_map]
    _ ≤ (List.range graph.size).length := (List.subperm_of_subset hnodup hrange).length_le
    _ = graph.size := List.length_range

/-- The search goes down along different seeds, all of which are candidates. -/
theorem exists_run (settings : Settings) (h : Reachable graph arrangement)
    (htwo : 2 ≤ arrangement.size) :
    ∃ (bests : List Arrangement) (seeds : List Nat) (outcome : Outcome),
      run settings arrangement = .ok outcome ∧
      Descent settings arrangement bests outcome.arrangement ∧
      bests.map seed? = seeds.map some ∧ seeds.Nodup ∧
      (∀ seed ∈ seeds, seed ∈ declaration.seedCandidates graph) ∧
      outcome.log.countP Event.isRoundAccepted = bests.length ∧
      outcome.log.countP Event.isRoundStart = bests.length + 1 := by
  obtain ⟨bests, final, seeds, hdescent, hseeds, hnodup, hsub, hlength⟩ :=
    exists_descent built wf settings h (by omega)
  obtain ⟨outcome, hrounds, rfl, haccepted, hstarted⟩ :=
    rounds_eq_of_descent built wf hdescent h (Nat.lt_succ_of_le hlength)
  refine ⟨bests, seeds, outcome, ?_, hdescent, hseeds, hnodup, hsub, haccepted, hstarted⟩
  rw [run, if_neg (by omega), hrounds]

/-- What is found is the given order itself or what a descent ends with. -/
theorem exists_optimize (settings : Settings) (h : Reachable graph arrangement) :
    ∃ result, optimize settings arrangement = .ok result ∧ Reachable graph result ∧
      (arrangement.size < 2 ∧ result = arrangement ∨
        2 ≤ arrangement.size ∧ ∃ bests, Descent settings arrangement bests result) := by
  by_cases hsmall : arrangement.size < 2
  · refine ⟨arrangement, ?_, h, .inl ⟨hsmall, rfl⟩⟩
    rw [optimize, run, if_pos hsmall]
    rfl
  · have htwo : 2 ≤ arrangement.size := by omega
    obtain ⟨bests, -, outcome, hrun, hdescent, -⟩ := exists_run built wf settings h htwo
    have hreached := hdescent.reachable built wf h outcome.arrangement (by simp)
    refine ⟨outcome.arrangement, ?_, hreached, .inr ⟨htwo, bests, hdescent⟩⟩
    rw [optimize, hrun]
    rfl

end

/-! ## A class to try things on -/

/-- A class with two constructors of one parameter each, which an order may start with, a method
that overrides another and the accessors of a property. -/
def account : ClassDeclaration where
  name := "Account"
  methods := [
    { name := "toString", annotations := ["Override"], line := 1, endLine := 3 },
    { name := "Account", parameters := [{ typeName := "int" }], isConstructor := true,
      line := 4, endLine := 6 },
    { name := "getBalance", returnType := .named "int", line := 7, endLine := 9 },
    { name := "Account", parameters := [{ typeName := "long" }], isConstructor := true,
      line := 10, endLine := 12 },
    { name := "setBalance", parameters := [{ typeName := "int" }], line := 13, endLine := 15 } ]

/-- Its outline. -/
def accountOutline : Outline :=
  (Outline.ofDeclaration account).toOption.getD default

theorem account_built : Outline.ofDeclaration account = .ok accountOutline := by rfl

/-- Calls in a circle, of a method from itself, and of a method that does not exist. -/
def accountCalls : List Call := [
  { site := 0, caller := 0, callee := 2, line := 2, column := 4 },
  { site := 1, caller := 0, callee := 0, line := 2, column := 8 },
  { site := 2, caller := 1, callee := 4, line := 5, column := 4 },
  { site := 3, caller := 2, callee := 4, line := 8, column := 4 },
  { site := 4, caller := 4, callee := 2, line := 14, column := 4 },
  { site := 5, caller := 3, callee := 9, line := 11, column := 4 } ]

/-- Which methods call which. -/
def accountGraph : CallGraph :=
  CallGraph.ofCalls accountOutline accountCalls

/-! ## Results -/

section Results

variable {outline : Outline} {arrangement : Arrangement}

/-- **Safety**: whatever calls are given and whatever the settings, the search finds an order of all
methods. In no round is a pass tried that proposes anything but an order of all methods, and neither
the passes nor the penalties look up anything that is not there, the penalty with which the search
begins included, however few methods there are. -/
theorem optimize_safe (built : Outline.ofDeclaration declaration = .ok outline) (calls : List Call)
    (settings : Settings) (reached : Reachable (CallGraph.ofCalls outline calls) arrangement) :
    ∃ result, optimize settings arrangement = .ok result ∧
      result.order.Perm (List.range outline.size) ∧ arrangement.InRange ∧ result.InRange ∧
      (2 ≤ arrangement.size → ∃ bests, Descent settings arrangement bests result ∧
        ∀ best ∈ bests ++ [result], RoundSafe settings best) := by
  have wf := CallGraph.wellFormed_ofCalls (Outline.numbered_of_ofDeclaration built) calls
  obtain ⟨result, hresult, hreached, hcourse⟩ := exists_optimize built wf settings reached
  refine ⟨result, hresult, hreached.isOrder, reached.inRange wf, hreached.inRange wf, ?_⟩
  intro htwo
  rcases hcourse with ⟨hsmall, -⟩ | ⟨-, bests, hdescent⟩
  · omega
  · refine ⟨bests, hdescent, ?_⟩
    intro best hbest
    exact roundSafe built wf (hdescent.reachable built wf reached best hbest)

/-- A weight that is no number does no harm, and the last pass of a round has its turn as well. -/
theorem optimize_safe_account :
    let settings : Settings := { weights := { overrideSplit := 0 / 0 } }
    let start := ofOrder accountGraph [4, 3, 2, 1, 0]
    2 ≤ start.size ∧ (∃ current, Tries settings start current .constructorsFirst) ∧
    ∃ result, optimize settings start = .ok result ∧ result.order.Perm (List.range 5) ∧
      start.InRange ∧ result.InRange ∧ ∃ bests, Descent settings start bests result ∧
        ∀ best ∈ bests ++ [result], RoundSafe settings best := by
  intro settings start
  have wf : accountGraph.WellFormed :=
    CallGraph.wellFormed_ofCalls (Outline.numbered_of_ofDeclaration account_built) accountCalls
  have reached : Reachable accountGraph start := reachable_ofOrder (by decide)
  obtain ⟨result, hresult, hperm, hstart, hfound, hsafe⟩ :=
    optimize_safe account_built accountCalls settings reached
  refine ⟨by decide, ?_, result, hresult, hperm, hstart, hfound, hsafe (by decide)⟩
  have hlast : stages settings accountGraph.groups = (stages settings accountGraph.groups).take 5
      ++ { kind := .constructorsFirst, passes := fun _ => [.constructorsFirst] } :: [] := rfl
  obtain ⟨_, -, htries⟩ := exists_tries account_built wf reached hlast
  exact htries .constructorsFirst List.mem_cons_self

/-- **No loss**: the search returns the order that it was given or a cheaper one, and nothing dearer
than the methods listed breadth first from the seed. -/
theorem optimize_never_worse (built : Outline.ofDeclaration declaration = .ok outline)
    (calls : List Call) (settings : Settings)
    (reached : Reachable (CallGraph.ofCalls outline calls) arrangement) :
    ∃ result, optimize settings arrangement = .ok result ∧
      (result = arrangement ∨ settings.penalty result < settings.penalty arrangement) ∧
      (2 ≤ arrangement.size → ∃ seed linear, arrangement.seed? = some seed ∧
        arrangement.reorder (Proposal.breadthFirst arrangement seed) = .ok linear ∧
        ¬ settings.penalty linear < settings.penalty result) := by
  have wf := CallGraph.wellFormed_ofCalls (Outline.numbered_of_ofDeclaration built) calls
  obtain ⟨result, hresult, -, ⟨hsmall, rfl⟩ | ⟨htwo, bests, hdescent⟩⟩ :=
    exists_optimize built wf settings reached
  · exact ⟨result, hresult, .inl rfl, fun htwo => by omega⟩
  · refine ⟨result, hresult, hdescent.prefers, fun _ => ?_⟩
    obtain ⟨seed, hseed⟩ := reached.exists_seed (by rw [← reached.size_eq]; omega)
    obtain ⟨linear, state, hlinear, hround, himproves⟩ := exists_round built settings wf reached
    refine ⟨seed, linear, hseed, ?_, ?_⟩
    · rwa [linearize, hseed] at hlinear
    · intro hcheaper
      exact hdescent.not_lt_of_round hround (himproves.prefers.lt_trans hcheaper)

theorem optimize_never_worse_account :
    let start := initial accountGraph
    2 ≤ start.size ∧ ∃ result, optimize {} start = .ok result ∧
      (result = start ∨ Settings.penalty {} result < Settings.penalty {} start) ∧
      ∃ seed linear, start.seed? = some seed ∧
        start.reorder (Proposal.breadthFirst start seed) = .ok linear ∧
        ¬ Settings.penalty {} linear < Settings.penalty {} result := by
  intro start
  have reached : Reachable accountGraph start := .initial
  obtain ⟨result, hresult, hprefers, hlinear⟩ :=
    optimize_never_worse account_built accountCalls {} reached
  exact ⟨by decide, result, hresult, hprefers, hlinear (by decide)⟩

/-- **Rounds**: the rounds that are accepted start from different seeds. The seed is a candidate
whatever the order, so there are no more such rounds than candidates, and one more that is not
accepted. -/
theorem accepted_rounds_le_candidates (built : Outline.ofDeclaration declaration = .ok outline)
    (calls : List Call) (settings : Settings)
    (reached : Reachable (CallGraph.ofCalls outline calls) arrangement)
    (two : 2 ≤ arrangement.size) :
    let graph := CallGraph.ofCalls outline calls
    let candidates := declaration.seedCandidates graph
    (∀ current, Reachable graph current → ∃ seed ∈ candidates, current.seed? = some seed) ∧
    ∃ (bests : List Arrangement) (seeds : List Nat) (outcome : Outcome),
      run settings arrangement = .ok outcome ∧
      Descent settings arrangement bests outcome.arrangement ∧
      bests.map seed? = seeds.map some ∧ seeds.Nodup ∧ (∀ seed ∈ seeds, seed ∈ candidates) ∧
      bests.length ≤ candidates.card ∧
      outcome.log.countP Event.isRoundAccepted = bests.length ∧
      outcome.log.countP Event.isRoundStart = bests.length + 1 := by
  intro graph candidates
  have wf := CallGraph.wellFormed_ofCalls (Outline.numbered_of_ofDeclaration built) calls
  constructor
  · intro current hcurrent
    obtain ⟨seed, hseed⟩ := hcurrent.exists_seed (by rw [← reached.size_eq]; omega)
    exact ⟨seed, hcurrent.seed_mem built hseed, hseed⟩
  · obtain ⟨bests, seeds, outcome, hrun, hdescent, hseeds, hnodup, hsub, hlog⟩ :=
      exists_run built wf settings reached two
    refine ⟨bests, seeds, outcome, hrun, hdescent, hseeds, hnodup, hsub, ?_, hlog⟩
    calc
      bests.length = seeds.length := by rw [← List.length_map seed?, hseeds, List.length_map]
      _ = seeds.toFinset.card := (List.toFinset_card_of_nodup hnodup).symm
      _ ≤ candidates.card := by
        refine Finset.card_le_card ?_
        intro seed hseed
        exact hsub seed (List.mem_toFinset.mp hseed)

/-- Both constructors can be the seed, so at most three rounds are run. -/
theorem accepted_rounds_account :
    let start := initial accountGraph
    2 ≤ start.size ∧ account.seedCandidates accountGraph = {1, 3} ∧
    ∃ (bests : List Arrangement) (seeds : List Nat) (outcome : Outcome),
      run {} start = .ok outcome ∧ Descent {} start bests outcome.arrangement ∧
      bests.map seed? = seeds.map some ∧ seeds.Nodup ∧ (∀ seed ∈ seeds, seed = 1 ∨ seed = 3) ∧
      outcome.log.countP Event.isRoundAccepted ≤ 2 ∧
      outcome.log.countP Event.isRoundStart ≤ 3 := by
  intro start
  have reached : Reachable accountGraph start := .initial
  have hcandidates :
      account.seedCandidates (CallGraph.ofCalls accountOutline accountCalls) = {1, 3} := by decide
  obtain ⟨-, bests, seeds, outcome, hrun, hdescent, hseeds, hnodup, hsub, hlength, haccepted,
      hstarted⟩ :=
    accepted_rounds_le_candidates account_built accountCalls {} reached (by decide)
  rw [hcandidates] at hsub hlength
  have hlength : bests.length ≤ 2 := hlength
  refine ⟨by decide, hcandidates, bests, seeds, outcome, hrun, hdescent, hseeds, hnodup, ?_,
    by omega, by omega⟩
  intro seed hseed
  simpa using hsub seed hseed

/-- **Idempotence**: what the search finds is what it finds from there, as one more round leads to
nothing cheaper. -/
theorem optimize_idempotent (built : Outline.ofDeclaration declaration = .ok outline)
    (calls : List Call) (settings : Settings)
    (reached : Reachable (CallGraph.ofCalls outline calls) arrangement) :
    ∃ result, optimize settings arrangement = .ok result ∧ optimize settings result = .ok result ∧
      ∃ state, round settings result = .ok state ∧
        ¬ settings.penalty state.arrangement < settings.penalty result := by
  have wf := CallGraph.wellFormed_ofCalls (Outline.numbered_of_ofDeclaration built) calls
  obtain ⟨result, hresult, hreached, hcourse⟩ := exists_optimize built wf settings reached
  have hstop : Descent settings result [] result := by
    rcases hcourse with ⟨hsmall, -⟩ | ⟨-, bests, hdescent⟩
    · obtain ⟨_, state, -, hround, himproves⟩ := exists_round built settings wf hreached
      rw [reached.size_eq] at hsmall
      have hsame := himproves.reachable.eq_of_size_lt_two hsmall hreached
      exact .stop hround (hsame ▸ FloatOrder.not_lt_self _)
    · exact hdescent.stop_final
  refine ⟨result, hresult, optimize_of_stop hstop, ?_⟩
  cases hstop with
  | stop hround hrejected => exact ⟨_, hround, hrejected⟩

theorem optimize_idempotent_account :
    let start := ofOrder accountGraph [2, 3, 0, 1, 4]
    Reachable accountGraph start ∧ ∃ result, optimize {} start = .ok result ∧
      optimize {} result = .ok result ∧
      ∃ state, round {} result = .ok state ∧
        ¬ Settings.penalty {} state.arrangement < Settings.penalty {} result := by
  intro start
  have reached : Reachable accountGraph start := reachable_ofOrder (by decide)
  exact ⟨reached, optimize_idempotent account_built accountCalls {} reached⟩

end Results

end ClassLayout.Search

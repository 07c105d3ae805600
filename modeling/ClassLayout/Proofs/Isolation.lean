import ClassLayout.Proofs.Edges
import ClassLayout.Proofs.RelativeOrder

/-!
# ClassLayout.Proofs.Isolation

What the counts make of a method that calls none and is called by none. No edge ends in it, so two
counts that only ask which of two methods comes first cannot tell where it stands, as long as the
others keep their order (`declarationBeforeUsage_eq_of_keepsOrder`,
`relativeOrderInconsistency_eq_of_keepsOrder`).

It can only be in the way: an edge from above it to below it is longer by one index than it would be
without it. Placed first or last it is in nobody's way (`gap_remap`).
-/

namespace ClassLayout.Arrangement

variable {graph : CallGraph} {arrangement before after : Arrangement} {ids : List Nat}
  {pair : Nat × Nat} {id target : Nat}

/-! ## Counts that compare places -/

/-- Who is overtaken depends only on which of two methods comes first. -/
theorem overtaken_congr {position position' : Nat → Nat}
    (h : ∀ a ∈ ids, ∀ b ∈ ids, (position' a < position' b ↔ position a < position b)) :
    Overtaken position' ids id ↔ Overtaken position ids id := by
  refine exists_congr fun earlier => and_congr_right fun hearlier => and_congr_right fun hpair => ?_
  exact h id (hpair.subset (by simp)) earlier hearlier

section KeepsOrder

variable {p : Nat → Prop} (wf : graph.WellFormed) (hbefore : Reachable graph before)
  (hafter : Reachable graph after) (hkeeps : KeepsOrder p before after)
  (hends : ∀ pair ∈ graph.edges, p pair.1 ∧ p pair.2)
include wf hbefore hafter hkeeps hends

theorem declarationBeforeUsage_eq_of_keepsOrder :
    after.declarationBeforeUsage = before.declarationBeforeUsage := by
  rw [declarationBeforeUsage_eq_card wf hafter, declarationBeforeUsage_eq_card wf hbefore]
  congr 1
  refine Finset.filter_congr fun pair hpair => ?_
  obtain ⟨hcaller, hcallee⟩ := CallGraph.lt_of_mem_edges hpair
  rw [← hbefore.size_eq] at hcaller hcallee
  exact hkeeps _ hcallee _ hcaller (hends pair hpair).2 (hends pair hpair).1

theorem relativeOrderInconsistency_eq_of_keepsOrder :
    after.relativeOrderInconsistency = before.relativeOrderInconsistency := by
  rw [relativeOrderInconsistency_eq_card wf hafter, relativeOrderInconsistency_eq_card wf hbefore,
    overtakenPairs, overtakenPairs, hafter.size_eq, hafter.graph_eq, hbefore.size_eq,
    hbefore.graph_eq]
  have hdependency : ∀ caller, ∀ callee ∈ graph.dependenciesOf caller,
      callee < before.size ∧ p callee := by
    intro caller callee hmem
    rw [hbefore.size_eq]
    exact ⟨wf.dependencies_lt caller callee hmem,
      (hends (caller, callee) (wf.mem_edges.mpr hmem)).2⟩
  congr 1
  refine Finset.filter_congr fun pair _ => overtaken_congr ?_
  intro a ha b hb
  obtain ⟨ha, hpa⟩ := hdependency _ a ha
  obtain ⟨hb, hpb⟩ := hdependency _ b hb
  exact hkeeps a ha b hb hpa hpb

end KeepsOrder

/-! ## Edges across a method -/

/-- One end of the pair stands above the method and the other one below it. -/
def Across (arrangement : Arrangement) (id : Nat) (pair : Nat × Nat) : Prop :=
  (arrangement.position pair.1 < arrangement.position id ∧
    arrangement.position id < arrangement.position pair.2) ∨
  (arrangement.position pair.2 < arrangement.position id ∧
    arrangement.position id < arrangement.position pair.1)

instance (arrangement : Arrangement) (id : Nat) (pair : Nat × Nat) :
    Decidable (arrangement.Across id pair) :=
  inferInstanceAs (Decidable (_ ∨ _))

/-- The pairs of a caller and a dependency that the method stands between. -/
def edgesAcross (arrangement : Arrangement) (id : Nat) : Finset (Nat × Nat) :=
  {pair ∈ arrangement.graph.edges | arrangement.Across id pair}

theorem remap_first {origin index : Nat} (hne : index ≠ origin) :
    remap origin 0 index = if index < origin then index + 1 else index := by
  simp only [remap, if_neg hne]
  grind

theorem remap_last {origin index : Nat} (horigin : origin ≤ target) (hindex : index ≤ target)
    (hne : index ≠ origin) :
    remap origin target index = if origin < index then index - 1 else index := by
  simp only [remap, if_neg hne]
  grind

/-- What goes to one end of the order shortens by one the gaps in which it stood, and no others. -/
theorem gap_remap {size origin index other : Nat} (hend : target = 0 ∨ target + 1 = size)
    (horigin : origin < size) (hindex : index < size) (hother : other < size)
    (hne : index ≠ origin) (hne' : other ≠ origin) :
    gap (remap origin target index) (remap origin target other) +
      (if other < origin ∧ origin < index ∨ index < origin ∧ origin < other then 1 else 0) =
    gap index other := by
  rcases hend with rfl | rfl
  · rw [remap_first hne, remap_first hne']
    unfold gap
    grind
  · rw [remap_last (by omega) (by omega) hne, remap_last (by omega) (by omega) hne']
    unfold gap
    grind

theorem MovesTo.totalDistance_add_card (h : MovesTo graph id target before after)
    (wf : graph.WellFormed) (hisolated : ∀ pair ∈ graph.edges, pair.1 ≠ id ∧ pair.2 ≠ id)
    (hend : target = 0 ∨ target + 1 = graph.size) :
    after.totalDistance + (before.edgesAcross id).card = before.totalDistance := by
  rw [totalDistance_eq_sum wf h.result, totalDistance_eq_sum wf h.start, edgesAcross,
    Finset.card_filter, h.start.graph_eq, ← Finset.sum_add_distrib]
  refine Finset.sum_congr rfl fun pair hpair => ?_
  obtain ⟨hcaller, hcallee⟩ := CallGraph.lt_of_mem_edges hpair
  obtain ⟨hne, hne'⟩ := hisolated pair hpair
  rw [h.position pair.1 hcaller, h.position pair.2 hcallee]
  exact gap_remap hend (h.start.position_lt h.id_lt) (h.start.position_lt hcallee)
    (h.start.position_lt hcaller) (h.position_ne hcallee hne') (h.position_ne hcaller hne)

/-! ## Isolated methods -/

/-- No edge ends in an isolated method. Which calls the graph was made of does not matter: what
calls the method is among its dependants even if the call never appears. -/
theorem ne_of_isIsolated {outline : Outline} {calls : List Call}
    (hgraph : arrangement.graph = CallGraph.ofCalls outline calls)
    (hisolated : arrangement.isIsolated id = true)
    (hpair : pair ∈ (CallGraph.ofCalls outline calls).edges) : pair.1 ≠ id ∧ pair.2 ≠ id := by
  rw [isIsolated, hgraph, Bool.and_eq_true, List.isEmpty_iff, List.isEmpty_iff] at hisolated
  obtain ⟨hdependencies, hdependants⟩ := hisolated
  have hmem := (Finset.mem_filter.mp hpair).2
  constructor
  · intro hcaller
    rw [hcaller, hdependencies] at hmem
    contradiction
  · intro hcallee
    rw [CallGraph.dependenciesOf_ofCalls] at hmem
    obtain ⟨call, hcall, hends⟩ := Appearance.exists_call_of_mem_dependencies hmem
    obtain ⟨hkept, hcaller⟩ := List.mem_filter.mp hcall
    have hdependant : pair.1 ∈ (CallGraph.ofCalls outline calls).dependantsOf id :=
      (CallGraph.mem_dependantsOf_ofCalls outline calls).mpr
        ⟨call, hkept, by simpa using hcaller, hends.trans hcallee⟩
    rw [hdependants] at hdependant
    contradiction

/-- **Isolated methods**: a method that calls none and is called by none can be moved to every
index. Wherever it goes, as many dependencies as before stand above their callers and above others
that appear earlier. If it goes to the first or the last index, the distances shrink by one for each
pair of a caller and a dependency that it stood between. -/
theorem isolated_moves_freely
    (built : Outline.ofDeclaration declaration = .ok outline) (calls : List Call)
    (reached : Reachable (CallGraph.ofCalls outline calls) arrangement)
    (hid : id < arrangement.size) (hisolated : arrangement.isIsolated id = true)
    (htarget : target < arrangement.size) :
    ∃ after, arrangement.move id ((target : Int) - arrangement.position id) = .ok after ∧
      after.position id = target ∧
      after.declarationBeforeUsage = arrangement.declarationBeforeUsage ∧
      after.relativeOrderInconsistency = arrangement.relativeOrderInconsistency ∧
      (target = 0 ∨ target + 1 = arrangement.size →
        after.totalDistance + (arrangement.edgesAcross id).card = arrangement.totalDistance) := by
  have wf := CallGraph.wellFormed_ofCalls (Outline.numbered_of_ofDeclaration built) calls
  have hends : ∀ pair ∈ (CallGraph.ofCalls outline calls).edges, pair.1 ≠ id ∧ pair.2 ≠ id :=
    fun pair => ne_of_isIsolated reached.graph_eq hisolated
  rw [reached.size_eq] at hid htarget ⊢
  obtain ⟨after, hmove, h⟩ := reached.exists_movesTo hid htarget
  refine ⟨after, hmove, h.position_self, ?_, ?_, h.totalDistance_add_card wf hends⟩
  · exact declarationBeforeUsage_eq_of_keepsOrder wf reached h.result h.keepsOrder hends
  · exact relativeOrderInconsistency_eq_of_keepsOrder wf reached h.result h.keepsOrder hends

open Proposal (switchboardOutline switchboard_built)

/-- Calls that `hold` has no part in. Two of them stand inside each other, so they never appear. -/
def nightCalls : List Call := [
  { site := 0, caller := 0, callee := 5, line := 2, column := 4 },
  { site := 1, caller := 0, callee := 1, line := 3, column := 4 },
  { site := 2, caller := 5, callee := 1, line := 51, column := 4 },
  { site := 3, caller := 4, callee := 3, line := 41, column := 4 },
  { site := 4, caller := 1, callee := 4, line := 11, column := 4, enclosingSites := [5] },
  { site := 5, caller := 1, callee := 3, line := 12, column := 4, enclosingSites := [4] } ]

/-- Which methods call which then. -/
def nightGraph : CallGraph :=
  CallGraph.ofCalls switchboardOutline nightCalls

theorem nightGraph_eq :
    nightGraph = CallGraph.ofCallsAsGiven switchboardOutline nightCalls :=
  CallGraph.ofCalls_eq_ofCallsAsGiven (by decide)

theorem isIsolated_night : (ofOrder nightGraph [1, 3, 2, 0, 5, 4]).isIsolated 2 = true := by
  rw [nightGraph_eq]
  decide +kernel

theorem edgesAcross_night :
    (ofOrder nightGraph [1, 3, 2, 0, 5, 4]).edgesAcross 2 = {(0, 1), (4, 3), (5, 1)} := by
  rw [nightGraph_eq]
  decide +kernel

theorem totalDistance_night : (ofOrder nightGraph [1, 3, 2, 0, 5, 4]).totalDistance = 12 := by
  rw [nightGraph_eq]
  decide +kernel

/-- Three edges run past `hold`. At the end of the class it is in the way of none of them; one index
further up it makes no difference to the other two counts either. -/
theorem isolated_moves_freely_night :
    let start := ofOrder nightGraph [1, 3, 2, 0, 5, 4]
    Reachable nightGraph start ∧ start.isIsolated 2 = true ∧
      start.edgesAcross 2 = {(0, 1), (4, 3), (5, 1)} ∧ start.totalDistance = 12 ∧
      (∃ after, start.move 2 3 = .ok after ∧ after.position 2 = 5 ∧ after.totalDistance = 9) ∧
      ∃ after, start.move 2 2 = .ok after ∧ after.position 2 = 4 ∧
        after.declarationBeforeUsage = start.declarationBeforeUsage ∧
        after.relativeOrderInconsistency = start.relativeOrderInconsistency := by
  intro start
  have reached : Reachable nightGraph start := reachable_ofOrder (by decide)
  obtain ⟨last, hlast, hposition, -, -, hshorter⟩ :=
    isolated_moves_freely switchboard_built nightCalls reached (show 2 < start.size by decide)
      isIsolated_night (show 5 < start.size by decide)
  obtain ⟨lower, hlower, hposition', habove, hinconsistent, -⟩ :=
    isolated_moves_freely switchboard_built nightCalls reached (show 2 < start.size by decide)
      isIsolated_night (show 4 < start.size by decide)
  have hdistance := hshorter (.inr (by decide))
  rw [edgesAcross_night, totalDistance_night] at hdistance
  refine ⟨reached, isIsolated_night, edgesAcross_night, totalDistance_night,
    ⟨last, hlast, hposition, ?_⟩, lower, hlower, hposition', habove, hinconsistent⟩
  exact Nat.add_right_cancel hdistance

end ClassLayout.Arrangement

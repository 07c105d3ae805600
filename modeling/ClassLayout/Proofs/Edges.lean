import ClassLayout.Proofs.Metrics
import ClassLayout.Proofs.Views

/-!
# ClassLayout.Proofs.Edges

Two counts ask of a dependency only where it stands and where its caller stands: the distances and
the dependencies above their callers. Both go through the pairs of a caller and a dependency, caller
by caller along the order, and meet each pair once. So they are sums over the set of these pairs
(`totalDistance_eq_sum`, `declarationBeforeUsage_eq_card`), whatever the order of enumeration.

For a class that is accepted, the set is that of the ends of its calls (`edges_eq_callPairs`): how
often, where and in which nesting one method calls another makes no difference.
-/

namespace ClassLayout

open Finset (range)

variable {graph : CallGraph} {arrangement : Arrangement} {pair : Nat × Nat}

namespace CallGraph

/-- The pairs of a method and one of its dependencies. -/
def edges (graph : CallGraph) : Finset (Nat × Nat) :=
  {pair ∈ range graph.size ×ˢ range graph.size | pair.2 ∈ graph.dependenciesOf pair.1}

/-- The pairs of a caller and a callee that the calls have, however many calls have them. -/
def callPairs (graph : CallGraph) : Finset (Nat × Nat) :=
  (graph.calls.map fun call => (call.caller, call.callee)).toFinset

theorem mem_callPairs :
    pair ∈ graph.callPairs ↔ ∃ call ∈ graph.calls, call.caller = pair.1 ∧ call.callee = pair.2 := by
  simp [callPairs, Prod.ext_iff]

theorem WellFormed.mem_edges (wf : graph.WellFormed) :
    pair ∈ graph.edges ↔ pair.2 ∈ graph.dependenciesOf pair.1 := by
  rw [edges, Finset.mem_filter, Finset.mem_product, Finset.mem_range, Finset.mem_range]
  refine and_iff_right_of_imp ?_
  intro hmem
  exact ⟨wf.lt_of_dependencies (List.ne_nil_of_mem hmem), wf.dependencies_lt _ _ hmem⟩

theorem lt_of_mem_edges (h : pair ∈ graph.edges) : pair.1 < graph.size ∧ pair.2 < graph.size := by
  simpa using (Finset.mem_filter.mp h).1

/-- An accepted class loses none of its calls, so its edges are their ends. -/
theorem edges_eq_callPairs (built : ofDeclaration declaration = .ok graph) :
    graph.edges = graph.callPairs := by
  ext pair
  rw [(wellFormed built).mem_edges, mem_dependenciesOf built, mem_callPairs]

end CallGraph

namespace Arrangement

/-- The gap between two indices is the absolute value of their difference. -/
theorem gap_eq_natAbs (index other : Nat) : gap index other = ((index : Int) - other).natAbs := by
  unfold gap
  omega

/-! ## The pairs that are enumerated -/

section Pairs

variable (wf : graph.WellFormed) (reached : Reachable graph arrangement)
include wf reached

/-- No pair is met twice: callers do not repeat, and neither do the dependencies of one of them. -/
theorem nodup_dependencyPairs : arrangement.dependencyPairs.Nodup := by
  rw [dependencyPairs, reached.graph_eq, List.Nodup, List.pairwise_flatMap]
  constructor
  · intro caller _
    rw [List.pairwise_map]
    exact (wf.dependencies_nodup caller).imp fun hne hsame => hne (congrArg Prod.snd hsame)
  · refine reached.isOrder.nodup.imp ?_
    intro caller other hne pair hpair pair' hpair' hsame
    obtain ⟨callee, -, rfl⟩ := List.mem_map.mp hpair
    obtain ⟨callee', -, rfl⟩ := List.mem_map.mp hpair'
    exact hne (congrArg Prod.fst hsame)

theorem toFinset_dependencyPairs : arrangement.dependencyPairs.toFinset = graph.edges := by
  ext ⟨caller, callee⟩
  simp only [dependencyPairs, reached.graph_eq, List.mem_toFinset, List.mem_flatMap, List.mem_map,
    Prod.mk.injEq, wf.mem_edges]
  constructor
  · rintro ⟨caller, -, callee, hmem, rfl, rfl⟩
    exact hmem
  · intro hmem
    have hcaller := wf.lt_of_dependencies (List.ne_nil_of_mem hmem)
    exact ⟨caller, reached.isOrder.mem_iff.mpr hcaller, callee, hmem, rfl, rfl⟩

theorem totalDistance_eq_sum :
    arrangement.totalDistance =
      ∑ pair ∈ graph.edges, gap (arrangement.position pair.2) (arrangement.position pair.1) := by
  rw [totalDistance, total_eq_sum, ← toFinset_dependencyPairs wf reached,
    List.sum_toFinset _ (nodup_dependencyPairs wf reached)]

/-- What is counted along the order is counted over the edges. -/
theorem countP_dependencyPairs (p : Nat × Nat → Bool) :
    arrangement.dependencyPairs.countP p = Finset.card {pair ∈ graph.edges | p pair = true} := by
  have hnodup := nodup_dependencyPairs wf reached
  rw [List.countP_eq_length_filter, ← List.toFinset_card_of_nodup (hnodup.filter _),
    List.toFinset_filter, toFinset_dependencyPairs wf reached]

theorem declarationBeforeUsage_eq_card :
    arrangement.declarationBeforeUsage =
      Finset.card {pair ∈ graph.edges |
        arrangement.position pair.2 < arrangement.position pair.1} := by
  rw [declarationBeforeUsage, countP_dependencyPairs wf reached]
  simp

end Pairs

/-! ## Accepted classes -/

section Accepted

variable (built : CallGraph.ofDeclaration declaration = .ok graph)
  (reached : Reachable graph arrangement)
include built reached

theorem totalDistance_eq_sum_callPairs :
    arrangement.totalDistance = ∑ pair ∈ graph.callPairs,
      ((arrangement.order.idxOf pair.2 : Int) - arrangement.order.idxOf pair.1).natAbs := by
  rw [totalDistance_eq_sum (CallGraph.wellFormed built) reached,
    ← CallGraph.edges_eq_callPairs built]
  refine Finset.sum_congr rfl fun pair hpair => ?_
  obtain ⟨hcaller, hcallee⟩ := CallGraph.lt_of_mem_edges hpair
  rw [reached.position_eq hcaller, reached.position_eq hcallee, gap_eq_natAbs]

theorem declarationBeforeUsage_eq_card_callPairs :
    arrangement.declarationBeforeUsage = Finset.card {pair ∈ graph.callPairs |
      arrangement.order.idxOf pair.2 < arrangement.order.idxOf pair.1} := by
  rw [declarationBeforeUsage_eq_card (CallGraph.wellFormed built) reached,
    ← CallGraph.edges_eq_callPairs built]
  congr 1
  refine Finset.filter_congr fun pair hpair => ?_
  obtain ⟨hcaller, hcallee⟩ := CallGraph.lt_of_mem_edges hpair
  rw [reached.position_eq hcaller, reached.position_eq hcallee]

end Accepted

/-- **Pairs count once**: of an accepted class, the distances are those between the ends of its
calls, each pair of ends taken once, and so are the dependencies above their callers. Hence classes
whose calls have the same pairs of ends have the same counts in every order. -/
theorem counts_depend_on_pairs (built : CallGraph.ofDeclaration declaration = .ok graph)
    (reached : Reachable graph arrangement) :
    let index := fun id => arrangement.order.idxOf id
    arrangement.totalDistance =
      ∑ pair ∈ graph.callPairs, ((index pair.2 : Int) - index pair.1).natAbs ∧
    arrangement.declarationBeforeUsage =
      Finset.card {pair ∈ graph.callPairs | index pair.2 < index pair.1} ∧
    ∀ declaration' graph' other, CallGraph.ofDeclaration declaration' = .ok graph' →
      graph'.callPairs = graph.callPairs → Reachable graph' other →
      other.order = arrangement.order →
      other.totalDistance = arrangement.totalDistance ∧
        other.declarationBeforeUsage = arrangement.declarationBeforeUsage := by
  refine ⟨totalDistance_eq_sum_callPairs built reached,
    declarationBeforeUsage_eq_card_callPairs built reached, ?_⟩
  intro declaration' graph' other built' hpairs reached' horder
  constructor
  · rw [totalDistance_eq_sum_callPairs built' reached', hpairs, horder,
      totalDistance_eq_sum_callPairs built reached]
  · rw [declarationBeforeUsage_eq_card_callPairs built' reached', hpairs, horder,
      declarationBeforeUsage_eq_card_callPairs built reached]

/-- The methods of `mailer`, but with other calls: the call of `log` stands inside that of `render`,
and there are more of them. -/
def busyMailer : ClassDeclaration :=
  { mailer with
    callSites := [
      (CallSite.call "render" 1 2 4).inside 0,
      ((CallSite.call "log" 1 2 11).inside 0).nestedIn 0,
      (CallSite.call "log" 1 8 4).inside 0,
      ((CallSite.call "log" 1 13 8).inside 1).nestedIn 4,
      (CallSite.call "log" 1 13 4).inside 1 ] }

/-- Which methods of it call which. -/
def busyMailerGraph : CallGraph :=
  (CallGraph.ofDeclaration busyMailer).toOption.getD default

theorem busyMailer_built : CallGraph.ofDeclaration busyMailer = .ok busyMailerGraph := by rfl

/-- Three pairs of methods call each other. With `log` in front, their distances are 1, 1 and 2, and
it stands above both of its callers. -/
theorem counts_depend_on_pairs_mailer :
    let start := ofOrder mailerGraph [2, 0, 1]
    let other := ofOrder busyMailerGraph [2, 0, 1]
    Reachable mailerGraph start ∧ Reachable busyMailerGraph other ∧
      mailerGraph.calls ≠ busyMailerGraph.calls ∧
      mailerGraph.callPairs = {(0, 1), (0, 2), (1, 2)} ∧
      busyMailerGraph.callPairs = mailerGraph.callPairs ∧
      start.totalDistance = 4 ∧ start.declarationBeforeUsage = 2 ∧
      other.totalDistance = 4 ∧ other.declarationBeforeUsage = 2 := by
  intro start other
  have reached : Reachable mailerGraph start := reachable_ofOrder (by decide)
  have reached' : Reachable busyMailerGraph other := reachable_ofOrder (by decide)
  have hpairs : mailerGraph.callPairs = {(0, 1), (0, 2), (1, 2)} := by decide
  have hsame : busyMailerGraph.callPairs = mailerGraph.callPairs := by decide
  obtain ⟨hdistance, habove, hagree⟩ := counts_depend_on_pairs mailer_built reached
  obtain ⟨hdistance', habove'⟩ := hagree _ _ other busyMailer_built hsame reached' rfl
  have hfour : start.totalDistance = 4 := by
    rw [hdistance, hpairs]
    decide
  have htwo : start.declarationBeforeUsage = 2 := by
    rw [habove, hpairs]
    decide
  exact ⟨reached, reached', by decide, hpairs, hsame, hfour, htwo, hdistance'.trans hfour,
    habove'.trans htwo⟩

end Arrangement

end ClassLayout

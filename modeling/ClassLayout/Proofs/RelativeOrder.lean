import ClassLayout.Proofs.Callers
import Mathlib.Algebra.BigOperators.Group.Finset.Piecewise
import Mathlib.Algebra.BigOperators.Group.Finset.Sigma

/-!
# ClassLayout.Proofs.RelativeOrder

What the inconsistencies of an arrangement are. A dependency is *overtaken* if another one appears
earlier in the caller but stands further down. Going through the dependencies as they appear, the
greatest index so far is all that has to be kept in mind: what stands above it is overtaken
(`inversions_map`). So what is counted over all callers is the pairs of a caller and a dependency
that is overtaken in it.
-/

namespace ClassLayout.Arrangement

open Finset (range)

variable {graph : CallGraph} {arrangement : Arrangement} {ids : List Nat} {position : Nat → Nat}
  {caller callee id first : Nat}

/-! ## One list -/

/-- A method of the list stands above one that comes before it in the list. -/
def Overtaken (position : Nat → Nat) (ids : List Nat) (id : Nat) : Prop :=
  ∃ earlier ∈ ids, [earlier, id].Sublist ids ∧ position id < position earlier

instance (position : Nat → Nat) (ids : List Nat) (id : Nat) :
    Decidable (Overtaken position ids id) :=
  inferInstanceAs (Decidable (∃ earlier ∈ ids, _))

theorem mem_of_overtaken (h : Overtaken position ids id) : id ∈ ids := by
  obtain ⟨earlier, -, hpair, -⟩ := h
  exact hpair.subset (by simp)

/-- Another method at the front of the list overtakes what stands above it. -/
theorem overtaken_cons :
    Overtaken position (first :: ids) id ↔
      id ∈ ids ∧ position id < position first ∨ Overtaken position ids id := by
  simp only [Overtaken, List.cons_sublist_cons', List.singleton_sublist]
  constructor
  · rintro ⟨earlier, -, hpair | ⟨rfl, hid⟩, hlt⟩
    · exact .inr ⟨earlier, hpair.subset (by simp), hpair, hlt⟩
    · exact .inl ⟨hid, hlt⟩
  · rintro (⟨hid, hlt⟩ | ⟨earlier, hmem, hpair, hlt⟩)
    · exact ⟨first, List.mem_cons_self, .inr ⟨rfl, hid⟩, hlt⟩
    · exact ⟨earlier, List.mem_cons_of_mem _ hmem, .inl hpair, hlt⟩

/-- The bound becomes the greater one of the bound and the index. -/
theorem inversions_cons (bound index : Nat) (indices : List Nat) :
    inversions bound (index :: indices) =
      inversions (max bound index) indices + if index < bound then 1 else 0 := by
  rw [inversions]
  by_cases hbelow : index < bound
  · simp [hbelow, Nat.max_eq_left hbelow.le]
  · simp [hbelow, Nat.max_eq_right (Nat.le_of_not_lt hbelow)]

/-- What is counted is below the bound or overtaken. -/
theorem inversions_map (bound : Nat) (hnodup : ids.Nodup) :
    inversions bound (ids.map position) =
      ids.countP fun id => position id < bound ∨ Overtaken position ids id := by
  induction ids generalizing bound with
  | nil => rfl
  | cons first ids ih =>
      rw [List.nodup_cons] at hnodup
      have hfirst : ¬ Overtaken position (first :: ids) first := by
        rw [overtaken_cons]
        rintro (⟨hmem, -⟩ | hovertaken)
        · exact hnodup.1 hmem
        · exact hnodup.1 (mem_of_overtaken hovertaken)
      -- the bound that is handed on stands for the first index: what is below it is overtaken
      have hrest : ids.countP
            (fun id => position id < max bound (position first) ∨ Overtaken position ids id) =
          ids.countP fun id => position id < bound ∨ Overtaken position (first :: ids) id := by
        refine List.countP_congr fun id hid => ?_
        simp [overtaken_cons, hid, or_assoc]
      rw [List.map_cons, inversions_cons, ih _ hnodup.2, List.countP_cons, hrest]
      simp [hfirst]

/-! ## All callers -/

/-- The pairs of a caller and a dependency that stands above one which appears earlier in it. -/
def overtakenPairs (arrangement : Arrangement) : Finset (Nat × Nat) :=
  {pair ∈ range arrangement.size ×ˢ range arrangement.size |
    Overtaken arrangement.position (arrangement.graph.dependenciesOf pair.1) pair.2}

section Callers

variable (wf : graph.WellFormed) (reached : Reachable graph arrangement)
include wf reached

theorem inconsistencyOf_eq_card (caller : Nat) :
    arrangement.inconsistencyOf caller =
      Finset.card {callee ∈ range graph.size |
        Overtaken arrangement.position (graph.dependenciesOf caller) callee} := by
  have hnodup := wf.dependencies_nodup caller
  rw [inconsistencyOf, dependencyIndices, reached.graph_eq, inversions_map 0 hnodup,
    List.countP_eq_length_filter, ← List.toFinset_card_of_nodup (hnodup.filter _)]
  congr 1
  ext callee
  simp only [Nat.not_lt_zero, false_or, List.mem_toFinset, List.mem_filter, decide_eq_true_eq,
    Finset.mem_filter, Finset.mem_range]
  constructor
  · rintro ⟨hmem, hovertaken⟩
    exact ⟨wf.dependencies_lt caller callee hmem, hovertaken⟩
  · rintro ⟨-, hovertaken⟩
    exact ⟨mem_of_overtaken hovertaken, hovertaken⟩

theorem relativeOrderInconsistency_eq_card :
    arrangement.relativeOrderInconsistency = arrangement.overtakenPairs.card := by
  rw [relativeOrderInconsistency_eq, reached.total_map_order, overtakenPairs, Finset.card_filter,
    Finset.sum_product, reached.size_eq, reached.graph_eq]
  refine Finset.sum_congr rfl fun caller _ => ?_
  rw [inconsistencyOf_eq_card wf reached, Finset.card_filter]

/-- A caller is consistent exactly if its dependencies stand in the order of their appearance. -/
theorem inconsistencyOf_eq_zero_iff :
    arrangement.inconsistencyOf caller = 0 ↔
      (arrangement.dependencyIndices caller).Pairwise (· < ·) := by
  refine ⟨?_, Proposal.inconsistencyOf_eq_zero⟩
  intro hzero
  obtain ⟨order, horder, rfl⟩ := reached.exists_order
  have hle := inversions_zero_eq_zero_iff.mp hzero
  have hnodup := Proposal.nodup_dependencyIndices wf horder caller
  exact hle.imp₂ (fun _ _ => Nat.lt_of_le_of_ne) hnodup

end Callers

/-- **Relative order**: the inconsistencies are the pairs of a caller and a dependency such that
another dependency appears earlier in the caller and stands further down. There are none exactly if
the dependencies of every caller stand in the order of their appearance. -/
theorem inconsistencies_are_overtaken
    (built : Outline.ofDeclaration declaration = .ok outline) (calls : List Call)
    (reached : Reachable (CallGraph.ofCalls outline calls) arrangement) :
    arrangement.relativeOrderInconsistency = arrangement.overtakenPairs.card ∧
    (arrangement.relativeOrderInconsistency = 0 ↔
      ∀ caller < arrangement.size, (arrangement.dependencyIndices caller).Pairwise (· < ·)) := by
  have wf := CallGraph.wellFormed_ofCalls (Outline.numbered_of_ofDeclaration built) calls
  refine ⟨relativeOrderInconsistency_eq_card wf reached, ?_⟩
  rw [relativeOrderInconsistency_eq, reached.total_map_order, Finset.sum_eq_zero_iff,
    reached.size_eq]
  simp [inconsistencyOf_eq_zero_iff wf reached]

open Proposal

theorem relativeOrderInconsistency_redial :
    (ofOrder redialGraph [5, 0, 4, 3, 2, 1]).relativeOrderInconsistency = 3 := by
  rw [redialGraph_eq]
  decide +kernel

theorem relativeOrderInconsistency_switchboard :
    (ofOrder switchboardGraph [0, 2, 4, 1, 3, 5]).relativeOrderInconsistency = 0 := by
  rw [switchboardGraph_eq]
  decide +kernel

/-- Three dependencies are overtaken: one that `connect` calls and two that `hangUp` calls. In the
other arrangement none is. -/
theorem inconsistencies_are_overtaken_redial :
    let start := ofOrder redialGraph [5, 0, 4, 3, 2, 1]
    let other := ofOrder switchboardGraph [0, 2, 4, 1, 3, 5]
    Reachable redialGraph start ∧ start.relativeOrderInconsistency = 3 ∧
      start.overtakenPairs = {(1, 3), (3, 0), (3, 5)} ∧
      Reachable switchboardGraph other ∧ other.relativeOrderInconsistency = 0 ∧
      ∀ caller < 6, (other.dependencyIndices caller).Pairwise (· < ·) := by
  intro start other
  have reached : Reachable redialGraph start := reachable_ofOrder (by decide)
  have reached' : Reachable switchboardGraph other := reachable_ofOrder (by decide)
  obtain ⟨hcard, -⟩ := inconsistencies_are_overtaken switchboard_built redialCalls reached
  obtain ⟨-, hzero⟩ := inconsistencies_are_overtaken switchboard_built switchboardCalls reached'
  refine ⟨reached, relativeOrderInconsistency_redial, ?_, reached',
    relativeOrderInconsistency_switchboard, hzero.mp relativeOrderInconsistency_switchboard⟩
  have hsub : {(1, 3), (3, 0), (3, 5)} ⊆ start.overtakenPairs := by
    have hhangUp : start.graph.dependenciesOf 3 = [3, 0, 5] := dependencies_redial.1
    have hconnect : start.graph.dependenciesOf 1 = [2, 3] := dependencies_redial.2.1
    simp only [overtakenPairs, Finset.insert_subset_iff, Finset.singleton_subset_iff,
      Finset.mem_filter, hhangUp, hconnect]
    decide
  refine (Finset.eq_of_subset_of_card_le hsub ?_).symm
  rw [← hcard, relativeOrderInconsistency_redial]
  decide

end ClassLayout.Arrangement

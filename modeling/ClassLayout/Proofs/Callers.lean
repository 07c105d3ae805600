import ClassLayout.Proofs.BreadthFirst
import ClassLayout.Proofs.Metrics
import ClassLayout.Proofs.Moves

/-!
# ClassLayout.Proofs.Callers

What it means for an arrangement that the dependencies of a caller change places.

* Aligned, they stand in the same places as before, each in the place whose turn it is: read in the
  order of their appearance, their indices are the old ones, sorted (`dependencyIndices_align`).
* Pulled up, they are the next methods after the caller: read in the order of their appearance,
  their indices count up from the index of the caller (`dependencyIndices_pull`).

Either way the indices increase, so nothing is left that is inconsistent with the caller.
-/

namespace ClassLayout.Proposal

open Arrangement

variable {graph : CallGraph} {arrangement : Arrangement} {order front rest : List Nat}
  {caller id index : Nat}

/-- The caller is consistent if its dependencies stand in the order of their appearance. -/
theorem inconsistencyOf_eq_zero (h : (arrangement.dependencyIndices caller).Pairwise (· < ·)) :
    arrangement.inconsistencyOf caller = 0 :=
  inversions_zero_eq_zero_iff.mpr (h.imp Nat.le_of_lt)

/-! ## Aligning -/

section Align

variable (wf : graph.WellFormed) (horder : graph.IsOrder order)
include wf horder

theorem sortedLT_slots : (slots (ofOrder graph order) caller).SortedLT :=
  List.sortedLE_mergeSort.sortedLT_of_nodup (nodup_slots wf horder)

/-- The dependencies, as they appear, take the places from top to bottom. -/
theorem dependencyIndices_align (caller : Nat) :
    (ofOrder graph (align (ofOrder graph order) caller)).dependencyIndices caller =
      slots (ofOrder graph order) caller := by
  have hlength := length_slots (ofOrder graph order) caller
  rw [graph_ofOrder] at hlength
  refine List.ext_getElem (by rw [dependencyIndices, graph_ofOrder, List.length_map, hlength]) ?_
  intro j hj hj'
  have hdependency : j < (graph.dependenciesOf caller).length := by omega
  have hplace := getElem?_align_of_mem wf horder (List.getElem?_eq_getElem hj')
    (List.getElem?_eq_getElem hdependency)
  simpa [dependencyIndices] using position_of_getElem? (align_isOrder wf horder) hplace

/-- Aligning twice is aligning once. -/
theorem align_align (caller : Nat) :
    align (ofOrder graph (align (ofOrder graph order) caller)) caller =
      align (ofOrder graph order) caller := by
  have hslots : slots (ofOrder graph (align (ofOrder graph order) caller)) caller =
      slots (ofOrder graph order) caller := by
    rw [slots, dependencyIndices_align wf horder]
    exact List.mergeSort_eq_self _ (sortedLT_slots wf horder).sortedLE.pairwise
  rw [align, hslots, order_ofOrder, graph_ofOrder]
  refine setAll_eq_self ?_
  intro slot hslot
  obtain ⟨j, hj⟩ := List.mem_iff_getElem?.mp hslot
  rw [List.getElem?_zip_eq_some] at hj
  exact getElem?_align_of_mem wf horder hj.1 hj.2

end Align

/-- What has happened when the dependencies of a caller have been aligned. -/
structure Aligned (caller : Nat) (before after : Arrangement) : Prop where
  /-- The other methods keep their indices. -/
  others : ∀ id < before.size, id ∉ before.graph.dependenciesOf caller →
    after.position id = before.position id
  /-- The dependencies have the same indices among them. -/
  places : ∀ index,
    index ∈ after.dependencyIndices caller ↔ index ∈ before.dependencyIndices caller
  /-- In the order of appearance these increase. -/
  increasing : (after.dependencyIndices caller).Pairwise (· < ·)

theorem aligned_align (wf : graph.WellFormed) (horder : graph.IsOrder order) (caller : Nat) :
    Aligned caller (ofOrder graph order) (ofOrder graph (align (ofOrder graph order) caller)) where
  others := by
    intro id hsize hother
    rw [size_ofOrder, horder.length_eq] at hsize
    rw [position_ofOrder horder hsize]
    exact position_of_getElem? (align_isOrder wf horder)
      (getElem?_align_of_not_mem wf horder hsize hother)
  places := by
    intro index
    rw [dependencyIndices_align wf horder, (slots_perm _ caller).mem_iff]
  increasing := by
    rw [dependencyIndices_align wf horder]
    exact (sortedLT_slots wf horder).pairwise

/-! ## Pulling up -/

/-- What has happened when the dependencies of a caller have been pulled up. -/
structure Pulled (caller : Nat) (before after : Arrangement) : Prop where
  /-- Down to the caller everything is as it was. -/
  above : ∀ index ≤ before.position caller, after.order[index]? = before.order[index]?
  /-- Then come the dependencies in the order of their appearance. -/
  next : ∀ j < (before.graph.dependenciesOf caller).length,
    after.order[before.position caller + 1 + j]? = (before.graph.dependenciesOf caller)[j]?
  /-- Below them come the methods that were below the caller, too. -/
  below : ∀ id < before.size, id ∉ before.graph.dependenciesOf caller →
    before.position caller < before.position id →
    before.position caller + (before.graph.dependenciesOf caller).length < after.position id
  others : KeepsOrder (· ∉ before.graph.dependenciesOf caller) before after

section Pull

variable (wf : graph.WellFormed) (horder : graph.IsOrder (front ++ caller :: rest))
  (hbelow : ∀ id ∈ graph.dependenciesOf caller, id ∈ rest)

/-- Right after the caller the dependencies come as they appear. -/
theorem getElem?_pull (front rest : List Nat) (hj : j < (graph.dependenciesOf caller).length) :
    (pull graph front caller rest)[front.length + 1 + j]? = (graph.dependenciesOf caller)[j]? := by
  rw [pull, List.getElem?_append_right (by omega),
    show front.length + 1 + j - front.length = j + 1 by omega, List.getElem?_cons_succ,
    List.getElem?_append_left hj]

/-- What is below the caller and no dependency comes after the dependencies. -/
theorem lt_idxOf_pull (hnodup : (front ++ caller :: rest).Nodup) (hrest : id ∈ rest)
    (hid : id ∉ graph.dependenciesOf caller) :
    front.length + (graph.dependenciesOf caller).length <
      (pull graph front caller rest).idxOf id := by
  have hnext : id ∉ front ++ caller :: graph.dependenciesOf caller := by grind
  rw [pull, ← List.cons_append, ← List.append_assoc, List.idxOf_append_of_notMem hnext,
    List.length_append, List.length_cons]
  omega

include wf horder hbelow

theorem dependencyIndices_pull :
    (ofOrder graph (pull graph front caller rest)).dependencyIndices caller =
      List.range' (front.length + 1) (graph.dependenciesOf caller).length := by
  refine List.ext_getElem (by simp [dependencyIndices]) ?_
  intro j hj hj'
  have hdependency : j < (graph.dependenciesOf caller).length := by simpa using hj'
  have hplace := getElem?_pull front rest hdependency
  rw [List.getElem?_eq_getElem hdependency] at hplace
  simpa [dependencyIndices] using position_of_getElem? (pull_isOrder wf horder hbelow) hplace

theorem pulled_pull :
    Pulled caller (ofOrder graph (front ++ caller :: rest))
      (ofOrder graph (pull graph front caller rest)) := by
  have hother : graph.IsOrder (pull graph front caller rest) := pull_isOrder wf horder hbelow
  have hcaller := position_split horder
  constructor
  · intro index hindex
    rw [hcaller] at hindex
    rw [order_ofOrder, order_ofOrder, pull]
    grind
  · intro j hj
    rw [hcaller]
    exact getElem?_pull front rest hj
  · intro id hsize hdependency hlt
    rw [size_ofOrder, horder.length_eq] at hsize
    rw [position_ofOrder horder (horder.mem_iff.mp (by simp)), position_ofOrder horder hsize] at hlt
    rw [hcaller, position_ofOrder hother hsize]
    have hrest : id ∈ rest := (mem_after_iff rfl horder.nodup).mpr ⟨horder.mem_iff.mpr hsize, hlt⟩
    exact lt_idxOf_pull horder.nodup hrest hdependency
  · have hnone : ((graph.dependenciesOf caller).filter fun id =>
        !decide (id ∈ graph.dependenciesOf caller)) = [] := by
      simp [List.filter_eq_nil_iff]
    refine keepsOrder_of_filter_eq (· ∉ graph.dependenciesOf caller) horder hother (by simp) ?_
    simp [pull, List.filter_cons, hnone]

theorem position_pull :
    (ofOrder graph (pull graph front caller rest)).position caller = front.length :=
  position_split (pull_isOrder wf horder hbelow)

theorem distanceOf_pull :
    (ofOrder graph (pull graph front caller rest)).distanceOf caller =
      (graph.dependenciesOf caller).length * ((graph.dependenciesOf caller).length + 1) / 2 := by
  rw [distanceOf, dependencyIndices_pull wf horder hbelow,
    position_pull wf horder hbelow, total_gap_range']

theorem aboveOf_pull : (ofOrder graph (pull graph front caller rest)).aboveOf caller = 0 := by
  rw [aboveOf, dependencyIndices_pull wf horder hbelow,
    position_pull wf horder hbelow, List.countP_eq_zero]
  intro index hindex
  have hlt := (List.mem_range'_1.mp hindex).1
  simp only [decide_eq_true_eq, Nat.not_lt]
  omega

theorem inconsistencyOf_pull :
    (ofOrder graph (pull graph front caller rest)).inconsistencyOf caller = 0 := by
  refine inconsistencyOf_eq_zero ?_
  rw [dependencyIndices_pull wf horder hbelow]
  exact List.pairwise_lt_range'

end Pull

/-! ## Results -/

/-- **Aligning a caller**: its dependencies swap places so that they stand in the order of their
appearance, and no other method moves. So the caller contributes nothing to the inconsistencies, and
aligning it again changes nothing. -/
theorem alignRelativeOrder_aligns
    (built : Outline.ofDeclaration declaration = .ok outline) (calls : List Call)
    (reached : Reachable (CallGraph.ofCalls outline calls) arrangement)
    (hdependencies : 2 ≤ (arrangement.graph.dependenciesOf caller).length) :
    ∃ after, alignRelativeOrder arrangement caller = some after.order ∧
      arrangement.reorder after.order = .ok after ∧
      Aligned caller arrangement after ∧
      after.Contributes after.relativeOrderInconsistency after.inconsistencyOf caller 0 ∧
      alignRelativeOrder after caller = some after.order := by
  have wf := CallGraph.wellFormed_ofCalls (Outline.numbered_of_ofDeclaration built) calls
  obtain ⟨order, horder, rfl⟩ := reached.exists_order
  let graph := CallGraph.ofCalls outline calls
  let after := ofOrder graph (align (ofOrder graph order) caller)
  have hother : graph.IsOrder after.order := align_isOrder wf horder
  have haligned : Aligned caller (ofOrder graph order) after := aligned_align wf horder caller
  have hcaller : caller ∈ after.order :=
    hother.mem_iff.mpr (wf.lt_of_dependencies (List.ne_nil_of_length_pos
      (Nat.lt_of_lt_of_le Nat.zero_lt_two hdependencies)))
  refine ⟨after, ?_, ?_, haligned, ?_, ?_⟩
  · exact alignRelativeOrder_eq_some.mpr ⟨hdependencies, rfl⟩
  · exact (reorder_ofOrder_eq_ok horder).mpr ⟨hother, rfl⟩
  · exact contributes_of_mem hcaller (relativeOrderInconsistency_eq after)
      (inconsistencyOf_eq_zero haligned.increasing)
  · exact alignRelativeOrder_eq_some.mpr ⟨hdependencies, (align_align wf horder caller).symm⟩

/-- The calls of `switchboardCalls`, but `hangUp` goes on to call two others after itself. -/
def redialCalls : List Call := switchboardCalls ++ [
  { site := 10, caller := 3, callee := 0, line := 32, column := 4 },
  { site := 11, caller := 3, callee := 5, line := 33, column := 4 } ]

/-- Which methods call which then. -/
def redialGraph : CallGraph :=
  CallGraph.ofCalls switchboardOutline redialCalls

theorem redialGraph_eq :
    redialGraph = CallGraph.ofCallsAsGiven switchboardOutline redialCalls :=
  CallGraph.ofCalls_eq_ofCallsAsGiven (by decide)

theorem dependencies_redial :
    redialGraph.dependenciesOf 3 = [3, 0, 5] ∧ redialGraph.dependenciesOf 1 = [2, 3] ∧
      redialGraph.dependenciesOf 0 = [2, 1] := by
  rw [redialGraph_eq]
  decide +kernel

theorem align_redial :
    alignRelativeOrder (ofOrder redialGraph [5, 0, 4, 3, 2, 1]) 3 = some [3, 0, 4, 5, 2, 1] := by
  rw [alignRelativeOrder_eq_some, align, slots_eq_insertionSort, redialGraph_eq]
  decide +kernel

theorem inconsistencyOf_redial :
    (ofOrder redialGraph [5, 0, 4, 3, 2, 1]).inconsistencyOf 3 = 2 := by
  rw [redialGraph_eq]
  decide +kernel

/-- The three methods that `hangUp` calls stand in the opposite order. One of them is `hangUp`
itself, which moves up to the first place. -/
theorem alignRelativeOrder_aligns_redial :
    let start := ofOrder redialGraph [5, 0, 4, 3, 2, 1]
    Reachable redialGraph start ∧ start.graph.dependenciesOf 3 = [3, 0, 5] ∧
      start.inconsistencyOf 3 = 2 ∧
      ∃ after, after.order = [3, 0, 4, 5, 2, 1] ∧ start.reorder after.order = .ok after ∧
        Aligned 3 start after ∧ after.inconsistencyOf 3 = 0 ∧
        alignRelativeOrder after 3 = some after.order := by
  intro start
  have reached : Reachable redialGraph start := reachable_ofOrder (by decide)
  have hdependencies : start.graph.dependenciesOf 3 = [3, 0, 5] := dependencies_redial.1
  obtain ⟨after, hproposed, haccepted, haligned, hcontributes, hagain⟩ :=
    alignRelativeOrder_aligns switchboard_built redialCalls reached
      (show 2 ≤ (start.graph.dependenciesOf 3).length by rw [hdependencies]; decide)
  refine ⟨reached, hdependencies, inconsistencyOf_redial, after, ?_, haccepted, haligned,
    hcontributes.1, hagain⟩
  rw [align_redial] at hproposed
  exact (Option.some.inj hproposed).symm

/-- **Pulling up dependencies**: this is proposed exactly if the caller has dependencies and all of
them stand below it. Then everything down to the caller stays, the dependencies are the next methods
in the order of their appearance, and the others follow in the order they had. So the distances from
the caller are 1, 2 and so on, and it contributes nothing to the other two counts. -/
theorem pullDependencies_pulls
    (built : Outline.ofDeclaration declaration = .ok outline) (calls : List Call)
    (reached : Reachable (CallGraph.ofCalls outline calls) arrangement)
    (hcaller : caller < arrangement.size) :
    let dependencies := arrangement.graph.dependenciesOf caller
    let count := dependencies.length
    ((∃ pulled, pullDependencies arrangement caller = some pulled) ↔
      dependencies ≠ [] ∧
        ∀ id ∈ dependencies, arrangement.position caller < arrangement.position id) ∧
    ∀ pulled, pullDependencies arrangement caller = some pulled →
      ∃ after, after.order = pulled ∧ arrangement.reorder pulled = .ok after ∧
        Pulled caller arrangement after ∧
        after.Contributes after.totalDistance after.distanceOf caller (count * (count + 1) / 2) ∧
        after.Contributes after.declarationBeforeUsage after.aboveOf caller 0 ∧
        after.Contributes after.relativeOrderInconsistency after.inconsistencyOf caller 0 := by
  have wf := CallGraph.wellFormed_ofCalls (Outline.numbered_of_ofDeclaration built) calls
  obtain ⟨order, horder, rfl⟩ := reached.exists_order
  rw [size_ofOrder, horder.length_eq] at hcaller
  intro dependencies count
  refine ⟨by simp [pullDependencies_eq_some, dependencies], ?_⟩
  intro pulled hpulled
  obtain ⟨front, rest, rfl, hbelow, rfl⟩ := exists_eq_pull wf horder hcaller hpulled
  have hother := pull_isOrder wf horder hbelow
  have hmem := hother.mem_iff.mpr hcaller
  refine ⟨ofOrder _ (pull _ front caller rest), rfl, ?_, pulled_pull wf horder hbelow, ?_, ?_, ?_⟩
  · exact (reorder_ofOrder_eq_ok horder).mpr ⟨hother, rfl⟩
  · exact contributes_of_mem hmem (totalDistance_eq _) (distanceOf_pull wf horder hbelow)
  · exact contributes_of_mem hmem (declarationBeforeUsage_eq _) (aboveOf_pull wf horder hbelow)
  · exact contributes_of_mem hmem (relativeOrderInconsistency_eq _)
      (inconsistencyOf_pull wf horder hbelow)

theorem pull_redial :
    pullDependencies (ofOrder redialGraph [4, 1, 0, 3, 5, 2]) 1 = some [4, 1, 2, 3, 0, 5] := by
  rw [redialGraph_eq]
  decide +kernel

theorem distanceOf_redial : (ofOrder redialGraph [4, 1, 0, 3, 5, 2]).distanceOf 1 = 6 := by
  rw [redialGraph_eq]
  decide +kernel

/-- The two methods that `connect` calls come up from below three others. From `ring` nothing can be
pulled up, as it calls `connect`, which stands above it. -/
theorem pullDependencies_pulls_redial :
    let start := ofOrder redialGraph [4, 1, 0, 3, 5, 2]
    Reachable redialGraph start ∧ start.graph.dependenciesOf 1 = [2, 3] ∧
      start.graph.dependenciesOf 0 = [2, 1] ∧ start.distanceOf 1 = 6 ∧
      (∃ after, after.order = [4, 1, 2, 3, 0, 5] ∧ start.reorder after.order = .ok after ∧
        Pulled 1 start after ∧ after.distanceOf 1 = 3 ∧ after.inconsistencyOf 1 = 0) ∧
      ¬ ∃ pulled, pullDependencies start 0 = some pulled := by
  intro start
  have reached : Reachable redialGraph start := reachable_ofOrder (by decide)
  have hconnect : start.graph.dependenciesOf 1 = [2, 3] := dependencies_redial.2.1
  have hring : start.graph.dependenciesOf 0 = [2, 1] := dependencies_redial.2.2
  obtain ⟨-, hpulls⟩ := pullDependencies_pulls switchboard_built redialCalls reached
    (show 1 < start.size by decide)
  obtain ⟨after, hafter, haccepted, hpulled, hdistance, -, hconsistent⟩ := hpulls _ pull_redial
  obtain ⟨hguard, -⟩ := pullDependencies_pulls switchboard_built redialCalls reached
    (show 0 < start.size by decide)
  refine ⟨reached, hconnect, hring, distanceOf_redial,
    ⟨after, hafter, hafter ▸ haccepted, hpulled, ?_, hconsistent.1⟩, ?_⟩
  · rw [hdistance.1, hconnect]
    decide
  · rw [hguard, hring]
    rintro ⟨-, hall⟩
    exact absurd (hall 1 (by decide)) (by decide)

end ClassLayout.Proposal

import ClassLayout.Proofs.Walk

/-!
# ClassLayout.Proofs.Proposal

Every proposal is an order: it holds each method once. So it is never refused, whatever the graph
is:

* `breadthFirst_isOrder`: the queue and the methods that are left hold together each method that is
  not listed yet, once;
* `gatherGroup_isOrder`, `pullDependencies_isOrder`: what is dropped in one place is put back in
  another;
* `alignRelativeOrder_isOrder`: the dependencies fill the places that they held;
* `constructorsFirst_isOrder`: the methods are split in two.

`Pass.isOrder_of_proposal?` says it of all of them at once.
-/

namespace ClassLayout.Proposal

open Arrangement

variable {graph : CallGraph} {order : List Nat}

/-! ## Breadth first -/

/-- The methods that a visit finds move from those that are left into the queue. -/
theorem found_perm (wf : graph.WellFormed) (hpending : pending.Nodup) (id : Nat) :
    let found := (graph.dependenciesOf id).filter pending.contains
    (found ++ pending.filter fun other => !found.contains other).Perm pending := by
  intro found
  have hfound : found.Nodup := (wf.dependencies_nodup id).filter _
  refine append_filter_perm hfound hpending ?_
  intro other hother
  exact List.contains_iff_mem.mp (List.mem_filter.mp hother).2

/-- A visit lists the queue and the methods that are left, each once, if it may go on for so long.
-/
theorem visit_perm (wf : graph.WellFormed) (hpending : pending.Nodup)
    (hcount : queue.length + pending.length = count) :
    (visit graph count queue pending).Perm (queue ++ pending) := by
  induction count generalizing queue pending with
  | zero =>
      have hqueue : queue = [] := List.length_eq_zero_iff.mp (by omega)
      have hleft : pending = [] := List.length_eq_zero_iff.mp (by omega)
      rw [hqueue, hleft]
      exact List.Perm.refl _
  | succ count ih =>
      -- one method is listed; what it finds only changes sides
      have step : ∀ (id : Nat) (queue pending : List Nat), pending.Nodup →
          queue.length + pending.length = count →
          let found := (graph.dependenciesOf id).filter pending.contains
          (id :: visit graph count (queue ++ found)
            (pending.filter fun other => !found.contains other)).Perm
              (id :: (queue ++ pending)) := by
        intro id queue pending hpending hcount found
        have hfound : (found ++ pending.filter fun other => !found.contains other).Perm pending :=
          found_perm wf hpending id
        have hcount' : (queue ++ found).length
            + (pending.filter fun other => !found.contains other).length = count := by
          rw [List.length_append, Nat.add_assoc, ← List.length_append, hfound.length_eq]
          exact hcount
        have hrest := ih (hpending.filter _) hcount'
        rw [List.append_assoc] at hrest
        exact (hrest.trans (hfound.append_left queue)).cons id
      cases queue with
      | cons id queue =>
          rw [List.length_cons] at hcount
          exact step id queue pending hpending (by omega)
      | nil =>
          cases pending with
          | nil => contradiction
          | cons id pending =>
              rw [List.length_nil, List.length_cons] at hcount
              exact step id [] pending (List.nodup_cons.mp hpending).2
                (by rw [List.length_nil]; omega)

/-- From a method of the class, every method is listed once. -/
theorem breadthFirst_isOrder (wf : graph.WellFormed) (horder : graph.IsOrder order)
    (hseed : seed < graph.size) : graph.IsOrder (breadthFirst (ofOrder graph order) seed) := by
  have hmem : seed ∈ List.range graph.size := List.mem_range.mpr hseed
  have hcount : [seed].length + ((List.range graph.size).erase seed).length = graph.size := by
    rw [List.length_erase_of_mem hmem, List.length_range, List.length_singleton]
    omega
  rw [breadthFirst_eq_visit wf, size_ofOrder, horder.length_eq, graph_ofOrder]
  exact (visit_perm wf (List.nodup_range.erase seed) hcount).trans (List.perm_cons_erase hmem).symm

/-! ## Groups -/

/-- The groups are only put in another order, and some are left out. -/
theorem mem_of_mem_groupsByFirstAppearance
    (h : group ∈ groupsByFirstAppearance arrangement groups) : group ∈ groups := by
  rw [groupsByFirstAppearance, List.mem_mergeSort] at h
  exact (List.mem_filter.mp h).1

/-- The last member of a group is a member. -/
theorem mem_of_lastMember? (h : lastMember? arrangement group = some last) : last ∈ group := by
  induction group with
  | nil => contradiction
  | cons id group ih =>
      rw [lastMember?] at h
      split at h
      · injection h with h
        exact h ▸ List.mem_cons_self
      · next other hother =>
          split at h <;> injection h with h
          · exact h ▸ List.mem_cons_self
          · exact List.mem_cons_of_mem id (ih (h ▸ hother))

/-- A group of one is not gathered. -/
theorem two_le_length_of_gatherGroup (h : gatherGroup arrangement group = some gathered) :
    2 ≤ group.length := by
  by_contra hshort
  rw [gatherGroup, if_pos (by omega)] at h
  contradiction

/-- Gathering leaves everything else in place around the last member. -/
theorem gatherGroup_eq (hnodup : (before ++ last :: after).Nodup)
    (hlast : lastMember? (ofOrder graph (before ++ last :: after)) group = some last)
    (hgroup : 2 ≤ group.length) :
    gatherGroup (ofOrder graph (before ++ last :: after)) group =
      some (before.filter (fun id => !group.contains id)
        ++ ((before.filter group.contains ++ after.filter group.contains ++ [last])
        ++ after.filter fun id => !group.contains id)) := by
  have hbefore : ∀ id ∈ before, id ≠ last := fun id h heq =>
    (List.nodup_append.mp hnodup).2.2 id h last List.mem_cons_self heq
  have hafter : ∀ id ∈ after, id ≠ last := fun id h heq =>
    (List.nodup_cons.mp (List.nodup_append.mp hnodup).2.1).1 (heq ▸ h)
  have hmoved : ((before ++ last :: after).filter fun id => group.contains id && id != last) =
      before.filter group.contains ++ after.filter group.contains := by
    rw [List.filter_append, List.filter_cons_of_neg (by simp)]
    congr 1
    · refine List.filter_congr fun id h => ?_
      simp [hbefore id h]
    · refine List.filter_congr fun id h => ?_
      simp [hafter id h]
  rw [gatherGroup, if_neg (by omega), hlast]
  simp only [bind, Option.bind, order_ofOrder, hmoved]
  refine congrArg some (flatMap_pivot ?_ ?_ hnodup)
  · exact if_pos rfl
  · intro id hid
    exact if_neg hid

theorem gatherGroup_isOrder (horder : graph.IsOrder order) (hgroup : ∀ id ∈ group, id < graph.size)
    (h : gatherGroup (ofOrder graph order) group = some gathered) : graph.IsOrder gathered := by
  have hlength := two_le_length_of_gatherGroup h
  obtain ⟨last, hlast⟩ : ∃ last, lastMember? (ofOrder graph order) group = some last := by
    rw [gatherGroup, if_neg (by omega)] at h
    obtain ⟨last, hlast, -⟩ := Option.bind_eq_some_iff.mp h
    exact ⟨last, hlast⟩
  obtain ⟨before, after, rfl⟩ :=
    List.append_of_mem (horder.mem_iff.mpr (hgroup last (mem_of_lastMember? hlast)))
  rw [gatherGroup_eq horder.nodup hlast hlength] at h
  injection h with h
  rw [← h]
  exact (perm_of_block_perm (List.perm_append_singleton last _)).trans horder

/-! ## Places -/

theorem length_setAll (order : List Nat) (slots : List (Nat × Nat)) :
    (setAll order slots).length = order.length := by
  induction slots generalizing order with
  | nil => rfl
  | cons slot slots ih =>
      rw [setAll, List.foldl_cons, ← setAll, ih, List.length_set]

/-- A place that is not among those that are filled keeps its method. -/
theorem getElem?_setAll_of_not_mem (hindex : index ∉ slots.map (·.1)) :
    (setAll order slots)[index]? = order[index]? := by
  induction slots generalizing order with
  | nil => rfl
  | cons slot slots ih =>
      rw [List.map_cons, List.mem_cons, not_or] at hindex
      rw [setAll, List.foldl_cons, ← setAll, ih hindex.2, List.getElem?_set_ne (Ne.symm hindex.1)]

/-- A place that is filled once holds what it is filled with. -/
theorem getElem?_setAll_of_mem {id : Nat} (hslots : (slots.map (·.1)).Nodup)
    (hmem : (index, id) ∈ slots) (hindex : index < order.length) :
    (setAll order slots)[index]? = some id := by
  induction slots generalizing order with
  | nil => contradiction
  | cons slot slots ih =>
      rw [List.map_cons, List.nodup_cons] at hslots
      rw [setAll, List.foldl_cons, ← setAll]
      rcases List.mem_cons.mp hmem with rfl | hmem
      · rw [getElem?_setAll_of_not_mem hslots.1, List.getElem?_set_self hindex]
      · exact ih hslots.2 hmem (by rw [List.length_set]; exact hindex)

/-- Nothing changes if the places hold already what they are filled with. -/
theorem setAll_eq_self (h : ∀ slot ∈ slots, order[slot.1]? = some slot.2) :
    setAll order slots = order := by
  induction slots with
  | nil => rfl
  | cons slot slots ih =>
      rw [List.forall_mem_cons] at h
      obtain ⟨hlt, hat⟩ := List.getElem?_eq_some_iff.mp h.1
      rw [setAll, List.foldl_cons, ← hat, List.set_getElem_self, ← setAll]
      exact ih h.2

/-! ## Dependencies -/

/-- The dependencies of a caller stand at their indices. -/
theorem dependencyIndices_ofOrder (wf : graph.WellFormed) (horder : graph.IsOrder order)
    (caller : Nat) :
    (ofOrder graph order).dependencyIndices caller =
      (graph.dependenciesOf caller).map fun id => order.idxOf id := by
  rw [dependencyIndices, graph_ofOrder]
  exact List.map_congr_left fun id hid =>
    position_ofOrder horder (wf.dependencies_lt caller id hid)

/-- Different dependencies stand in different places. -/
theorem nodup_dependencyIndices (wf : graph.WellFormed) (horder : graph.IsOrder order)
    (caller : Nat) : ((ofOrder graph order).dependencyIndices caller).Nodup := by
  rw [dependencyIndices_ofOrder wf horder]
  refine List.Nodup.map_on ?_ (wf.dependencies_nodup caller)
  intro id hid other _ hsame
  exact (List.idxOf_inj (horder.mem_iff.mpr (wf.dependencies_lt caller id hid))).mp hsame

/-- The places of the dependencies of a caller, from top to bottom. -/
def slots (arrangement : Arrangement) (caller : Nat) : List Nat :=
  (arrangement.dependencyIndices caller).mergeSort

/-- The order in which these places are filled with the dependencies as they appear. -/
def align (arrangement : Arrangement) (caller : Nat) : List Nat :=
  setAll arrangement.order
    ((slots arrangement caller).zip (arrangement.graph.dependenciesOf caller))

theorem alignRelativeOrder_eq_some :
    alignRelativeOrder arrangement caller = some aligned ↔
      2 ≤ (arrangement.graph.dependenciesOf caller).length ∧
        aligned = align arrangement caller := by
  unfold alignRelativeOrder
  dsimp only
  split
  · next hshort => simp [hshort]
  · next hlong =>
      rw [Option.some.injEq, eq_comm, ← slots, ← align]
      exact ⟨fun h => ⟨Nat.le_of_not_lt hlong, h⟩, fun h => h.2⟩

theorem slots_perm (arrangement : Arrangement) (caller : Nat) :
    (slots arrangement caller).Perm (arrangement.dependencyIndices caller) :=
  List.mergeSort_perm _ _

/-- However the places are sorted, the result is the same. -/
theorem slots_eq_insertionSort (arrangement : Arrangement) (caller : Nat) :
    slots arrangement caller = (arrangement.dependencyIndices caller).insertionSort (· ≤ ·) :=
  List.mergeSort_eq_insertionSort (· ≤ ·) _

theorem length_slots (arrangement : Arrangement) (caller : Nat) :
    (slots arrangement caller).length = (arrangement.graph.dependenciesOf caller).length := by
  rw [(slots_perm arrangement caller).length_eq, dependencyIndices, List.length_map]

theorem map_fst_zip_slots (arrangement : Arrangement) (caller : Nat) :
    ((slots arrangement caller).zip (arrangement.graph.dependenciesOf caller)).map (·.1) =
      slots arrangement caller :=
  List.map_fst_zip (length_slots arrangement caller).le

section Align

variable (wf : graph.WellFormed) (horder : graph.IsOrder order) {caller id index j : Nat}
include wf horder

theorem nodup_slots : (slots (ofOrder graph order) caller).Nodup :=
  (slots_perm _ caller).nodup_iff.mpr (nodup_dependencyIndices wf horder caller)

/-- The places are where the dependencies stand. -/
theorem mem_slots :
    index ∈ slots (ofOrder graph order) caller ↔
      ∃ id ∈ graph.dependenciesOf caller, order.idxOf id = index := by
  rw [(slots_perm _ caller).mem_iff, dependencyIndices_ofOrder wf horder, List.mem_map]

/-- A dependency gets the place that comes when it is its turn. -/
theorem getElem?_align_of_mem (hslot : (slots (ofOrder graph order) caller)[j]? = some index)
    (hid : (graph.dependenciesOf caller)[j]? = some id) :
    (align (ofOrder graph order) caller)[index]? = some id := by
  have hfilled : (index, id) ∈
      (slots (ofOrder graph order) caller).zip (graph.dependenciesOf caller) :=
    List.mem_iff_getElem?.mpr ⟨j, by simp [List.getElem?_zip_eq_some, hslot, hid]⟩
  have hnodup : (((slots (ofOrder graph order) caller).zip
      ((ofOrder graph order).graph.dependenciesOf caller)).map (·.1)).Nodup := by
    rw [map_fst_zip_slots]
    exact nodup_slots wf horder
  refine getElem?_setAll_of_mem hnodup hfilled ?_
  obtain ⟨other, hother, rfl⟩ := (mem_slots wf horder).mp (List.mem_of_getElem? hslot)
  rw [order_ofOrder, List.idxOf_lt_length_iff, horder.mem_iff]
  exact wf.dependencies_lt caller other hother

/-- Any other method keeps its place. -/
theorem getElem?_align_of_not_mem (hid : id < graph.size)
    (hother : id ∉ graph.dependenciesOf caller) :
    (align (ofOrder graph order) caller)[order.idxOf id]? = some id := by
  have hmem : id ∈ order := horder.mem_iff.mpr hid
  rw [align, getElem?_setAll_of_not_mem, order_ofOrder, List.getElem?_idxOf hmem]
  rw [map_fst_zip_slots, mem_slots wf horder]
  rintro ⟨dependency, hdependency, hsame⟩
  exact hother ((List.idxOf_inj hmem).mp hsame.symm ▸ hdependency)

/-- Every method is found in the aligned order, so it is found once. -/
theorem align_isOrder : graph.IsOrder (align (ofOrder graph order) caller) := by
  have hsurjective : List.range graph.size ⊆ align (ofOrder graph order) caller := by
    intro id hid
    by_cases hdependency : id ∈ graph.dependenciesOf caller
    · obtain ⟨j, hj⟩ := List.mem_iff_getElem?.mp hdependency
      have hlt : j < (slots (ofOrder graph order) caller).length := by
        rw [length_slots]
        exact (List.getElem?_eq_some_iff.mp hj).1
      exact List.mem_of_getElem? (getElem?_align_of_mem wf horder (List.getElem?_eq_getElem hlt) hj)
    · exact List.mem_of_getElem?
        (getElem?_align_of_not_mem wf horder (List.mem_range.mp hid) hdependency)
  have hshort : (align (ofOrder graph order) caller).length ≤ (List.range graph.size).length := by
    rw [align, length_setAll, order_ofOrder, horder.length_eq, List.length_range]
  exact ((List.subperm_of_subset List.nodup_range hsurjective).perm_of_length_le hshort).symm

theorem alignRelativeOrder_isOrder
    (h : alignRelativeOrder (ofOrder graph order) caller = some aligned) :
    graph.IsOrder aligned := by
  rw [(alignRelativeOrder_eq_some.mp h).2]
  exact align_isOrder wf horder

end Align

/-- There is something to pull up exactly if the caller has dependencies and all stand below it. -/
theorem pullDependencies_eq_some :
    pullDependencies arrangement caller = some pulled ↔
      (arrangement.graph.dependenciesOf caller ≠ [] ∧
        ∀ id ∈ arrangement.graph.dependenciesOf caller,
          arrangement.position caller < arrangement.position id) ∧
      pulled = arrangement.order.flatMap fun id =>
        if (arrangement.graph.dependenciesOf caller).contains id then []
        else if id = caller then id :: arrangement.graph.dependenciesOf caller
        else [id] := by
  unfold pullDependencies
  dsimp only
  split
  · next hguard =>
      rw [Bool.or_eq_true, List.isEmpty_iff, List.any_eq_true] at hguard
      grind
  · next hguard =>
      rw [Bool.or_eq_true, List.isEmpty_iff, List.any_eq_true] at hguard
      grind

/-- The order in which the dependencies of a caller are the next methods after it. -/
def pull (graph : CallGraph) (front : List Nat) (caller : Nat) (rest : List Nat) : List Nat :=
  front ++ caller :: (graph.dependenciesOf caller
    ++ rest.filter fun id => !(graph.dependenciesOf caller).contains id)

/-- Pulling up changes only what is below the caller. -/
theorem flatMap_eq_pull (hnodup : (front ++ caller :: rest).Nodup)
    (hbelow : ∀ id ∈ graph.dependenciesOf caller, id ∈ rest) :
    ((front ++ caller :: rest).flatMap fun id =>
      if (graph.dependenciesOf caller).contains id then []
      else if id = caller then id :: graph.dependenciesOf caller
      else [id]) = pull graph front caller rest := by
  have hcaller : caller ∉ graph.dependenciesOf caller := by grind
  have hfront : (front.filter fun id => !(graph.dependenciesOf caller).contains id) = front := by
    rw [List.filter_eq_self]
    grind
  rw [pull, ← List.cons_append]
  nth_rewrite 2 [← hfront]
  refine flatMap_pivot ?_ ?_ hnodup
  · rw [if_neg (by simpa using hcaller), if_pos rfl]
  · intro id hid
    rw [if_neg hid]

theorem exists_eq_pull (wf : graph.WellFormed) (horder : graph.IsOrder order)
    (hcaller : caller < graph.size)
    (h : pullDependencies (ofOrder graph order) caller = some pulled) :
    ∃ front rest, order = front ++ caller :: rest ∧
      (∀ id ∈ graph.dependenciesOf caller, id ∈ rest) ∧ pulled = pull graph front caller rest := by
  obtain ⟨⟨-, hguard⟩, rfl⟩ := pullDependencies_eq_some.mp h
  obtain ⟨front, rest, rfl⟩ := List.append_of_mem (horder.mem_iff.mpr hcaller)
  have hbelow : ∀ id ∈ graph.dependenciesOf caller, id ∈ rest := by
    intro id hid
    have hlt := hguard id hid
    have hsize := wf.dependencies_lt caller id hid
    rw [position_ofOrder horder hcaller, position_ofOrder horder hsize] at hlt
    exact (mem_after_iff rfl horder.nodup).mpr ⟨horder.mem_iff.mpr hsize, hlt⟩
  exact ⟨front, rest, rfl, hbelow, flatMap_eq_pull horder.nodup hbelow⟩

theorem pull_isOrder (wf : graph.WellFormed) (horder : graph.IsOrder (front ++ caller :: rest))
    (hbelow : ∀ id ∈ graph.dependenciesOf caller, id ∈ rest) :
    graph.IsOrder (pull graph front caller rest) := by
  have hrest : rest.Nodup := (List.nodup_cons.mp (List.nodup_append.mp horder.nodup).2.1).2
  have hperm := append_filter_perm (wf.dependencies_nodup caller) hrest hbelow
  exact ((hperm.cons caller).append_left front).trans horder

theorem pullDependencies_isOrder (wf : graph.WellFormed) (horder : graph.IsOrder order)
    (hcaller : caller < graph.size)
    (h : pullDependencies (ofOrder graph order) caller = some pulled) : graph.IsOrder pulled := by
  obtain ⟨front, rest, rfl, hbelow, rfl⟩ := exists_eq_pull wf horder hcaller h
  exact pull_isOrder wf horder hbelow

/-! ## Constructors -/

theorem constructorsFirst_isOrder (horder : graph.IsOrder order)
    (h : constructorsFirst (ofOrder graph order) = some first) : graph.IsOrder first := by
  unfold constructorsFirst at h
  split at h
  · contradiction
  · injection h with h
    rw [← h]
    exact (List.filter_append_perm _ _).trans horder

end ClassLayout.Proposal

namespace ClassLayout.Pass

open Arrangement

/-- **Proposals are orders**: what a pass about methods of the class proposes is an order of them.
-/
theorem isOrder_of_proposal? {graph : CallGraph} {order proposed : List Nat} {pass : Pass}
    (wf : graph.WellFormed) (horder : graph.IsOrder order)
    (habout : pass.isAbout (ofOrder graph order))
    (h : pass.proposal? (ofOrder graph order) = some proposed) : graph.IsOrder proposed := by
  have hsubject : ∀ id ∈ pass.subjects, id < graph.size := by
    intro id hid
    have hhas := List.all_eq_true.mp habout id hid
    rw [hasMethod, size_ofOrder, horder.length_eq, decide_eq_true_eq] at hhas
    exact hhas
  cases pass with
  | breadthFirst seed =>
      injection h with h
      rw [← h]
      exact Proposal.breadthFirst_isOrder wf horder (hsubject seed (by simp [subjects]))
  | gatherGroup group =>
      have hlength := Proposal.two_le_length_of_gatherGroup h
      rw [subjects, if_neg (by omega)] at hsubject
      exact Proposal.gatherGroup_isOrder horder hsubject h
  | alignRelativeOrder caller => exact Proposal.alignRelativeOrder_isOrder wf horder h
  | pullDependencies caller =>
      exact Proposal.pullDependencies_isOrder wf horder (hsubject caller (by simp [subjects])) h
  | constructorsFirst => exact Proposal.constructorsFirst_isOrder horder h

end ClassLayout.Pass

import ClassLayout.Arrangement
import ClassLayout.Proofs.CallGraph
import Mathlib.Data.List.Sort

/-!
# ClassLayout.Proofs.Arrangement

An arrangement carries tables along with its order. They are computed anew for every order, so an
arrangement that moves and reorderings lead to is no more than its graph and its order:

* `ofOrder graph order` is the arrangement of an order;
* `Reachable graph` are the arrangements that moves and reorderings lead to from the declaration;
* `Reachable.exists_order`: each of them is `ofOrder graph order` for a rearrangement of the
  methods.

Whether a list is such a rearrangement is found out by its length and by ticking its methods off. It
is enough that none is ticked off twice, for then none is left out either (`CallGraph.isOrder_iff`).

All that is proved about arrangements is proved about `ofOrder`.
-/

namespace ClassLayout

/-! ## Orders -/

/-- A rearrangement of the methods of a graph. -/
def CallGraph.IsOrder (graph : CallGraph) (order : List Nat) : Prop :=
  order.Perm (List.range graph.size)

instance (graph : CallGraph) (order : List Nat) : Decidable (graph.IsOrder order) :=
  inferInstanceAs (Decidable (order.Perm _))

namespace CallGraph.IsOrder

variable {graph : CallGraph} {order : List Nat} {id : Nat}

theorem length_eq (h : graph.IsOrder order) : order.length = graph.size := by
  rw [List.Perm.length_eq h, List.length_range]

theorem nodup (h : graph.IsOrder order) : order.Nodup :=
  (List.Perm.nodup_iff h).mpr List.nodup_range

theorem mem_iff (h : graph.IsOrder order) : id ∈ order ↔ id < graph.size := by
  rw [List.Perm.mem_iff h, List.mem_range]

end CallGraph.IsOrder

/-- A list of as many different methods as the class has leaves none of them out. -/
theorem CallGraph.isOrder_iff {graph : CallGraph} {order : List Nat} :
    graph.IsOrder order ↔
      order.length = graph.size ∧ order.Nodup ∧ ∀ id ∈ order, id < graph.size := by
  constructor
  · intro horder
    exact ⟨horder.length_eq, horder.nodup, fun id => horder.mem_iff.mp⟩
  · rintro ⟨hlength, hnodup, hlt⟩
    have hfits : List.Subperm order (List.range graph.size) :=
      List.subperm_of_subset hnodup fun id hid => List.mem_range.mpr (hlt id hid)
    exact hfits.perm_of_length_le (by simp [hlength])

namespace Arrangement

variable {graph : CallGraph} {order : List Nat} {id : Nat}

/-! ## Ticking off -/

section Ticks

variable {marks : Array Bool}

theorem ticksOff_cons :
    ticksOff marks (id :: order) = true ↔
      marks[id]? = some false ∧ ticksOff (marks.setIfInBounds id true) order = true := by
  rw [ticksOff]
  split
  · next hopen => simp [hopen]
  · next hother => simp [show ¬ marks[id]? = some false from hother]

/-- Ticking a method off leaves every other one as open as it was. -/
theorem open_after_tick (hopen : marks[id]? = some false) (other : Nat) :
    (marks.setIfInBounds id true)[other]? = some false ↔
      other ≠ id ∧ marks[other]? = some false := by
  have hlt : id < marks.size := (Array.getElem?_eq_some_iff.mp hopen).1
  by_cases hother : other = id
  · simp [hother, Array.getElem?_setIfInBounds_self_of_lt hlt]
  · simp [hother, Array.getElem?_setIfInBounds_ne (Ne.symm hother)]

/-- A whole list is ticked off exactly if nothing in it repeats and all of it was open. -/
theorem ticksOff_iff :
    ticksOff marks order = true ↔ order.Nodup ∧ ∀ id ∈ order, marks[id]? = some false := by
  induction order generalizing marks with
  | nil => simp [ticksOff]
  | cons id order ih =>
      rw [ticksOff_cons, List.nodup_cons, List.forall_mem_cons]
      by_cases hopen : marks[id]? = some false
      · simp only [ih, open_after_tick hopen]
        grind
      · simp [hopen]

end Ticks

/-- A list is accepted as an order exactly if it is a rearrangement of the methods. -/
theorem isOrderOf_iff : isOrderOf graph.size order = true ↔ graph.IsOrder order := by
  rw [isOrderOf, CallGraph.isOrder_iff, Bool.and_eq_true, beq_iff_eq, ticksOff_iff]
  simp [Array.getElem?_replicate]

/-! ## Arrangements of orders -/

/-- The arrangement of an order. -/
def ofOrder (graph : CallGraph) (order : List Nat) : Arrangement :=
  (initial graph).withOrder order

section OfOrder

variable (graph : CallGraph) (order : List Nat)

theorem initial_eq_ofOrder : initial graph = ofOrder graph (List.range graph.size) := rfl

@[simp] theorem graph_ofOrder : (ofOrder graph order).graph = graph := rfl

@[simp] theorem order_ofOrder : (ofOrder graph order).order = order := rfl

@[simp] theorem size_ofOrder : (ofOrder graph order).size = order.length := rfl

@[simp] theorem withOrder_ofOrder (other : List Nat) :
    (ofOrder graph order).withOrder other = ofOrder graph other := rfl

end OfOrder

/-! ## The table of an order -/

theorem size_positions_enter (graph : CallGraph) (index lines : Nat) (order : List Nat)
    (table : Table) :
    (enter graph index lines order table).positions.size = table.positions.size := by
  induction order generalizing index lines table with
  | nil => rfl
  | cons id order ih => rw [enter, ih, Array.size_setIfInBounds]

theorem size_preceding_enter (graph : CallGraph) (index lines : Nat) (order : List Nat)
    (table : Table) :
    (enter graph index lines order table).preceding.size = table.preceding.size := by
  induction order generalizing index lines table with
  | nil => rfl
  | cons id order ih => rw [enter, ih, Array.size_setIfInBounds]

/-- Entering methods leaves the index of every other one as it is. -/
theorem positions_enter_of_not_mem (hid : id ∉ order) :
    (enter graph index lines order table).positions[id]? = table.positions[id]? := by
  induction order generalizing index lines table with
  | nil => rfl
  | cons other order ih =>
      rw [List.mem_cons, not_or] at hid
      rw [enter, ih hid.2, Array.getElem?_setIfInBounds_ne (Ne.symm hid.1)]

/-- A method that is entered has the index at which it stands. -/
theorem positions_enter_of_mem (hnodup : order.Nodup) (hid : id ∈ order)
    (hsize : id < table.positions.size) :
    (enter graph index lines order table).positions[id]? = some (index + order.idxOf id) := by
  induction order generalizing index lines table with
  | nil => contradiction
  | cons other order ih =>
      rw [List.nodup_cons] at hnodup
      by_cases hother : other = id
      · subst hother
        rw [enter, positions_enter_of_not_mem hnodup.1, List.idxOf_cons_self, Nat.add_zero]
        exact Array.getElem?_setIfInBounds_self_of_lt hsize
      · have hmem : id ∈ order := (List.mem_cons.mp hid).resolve_left (Ne.symm hother)
        rw [enter, ih hnodup.2 hmem (by rw [Array.size_setIfInBounds]; exact hsize),
          List.idxOf_cons_ne order hother]
        congr 1
        omega

/-- The table of a rearrangement of the methods knows where each of them stands. -/
theorem getElem?_positions_ofOrder (horder : graph.IsOrder order)
    (hid : id < graph.size) : (ofOrder graph order).positions[id]? = some (order.idxOf id) := by
  have hsize : id < (Array.replicate order.length 0).size := by
    rw [Array.size_replicate, horder.length_eq]
    exact hid
  show (tableOf graph order).positions[id]? = some (order.idxOf id)
  rw [tableOf, positions_enter_of_mem horder.nodup (horder.mem_iff.mpr hid) hsize, Nat.zero_add]

theorem position_ofOrder (horder : graph.IsOrder order) (hid : id < graph.size) :
    (ofOrder graph order).position id = order.idxOf id := by
  rw [position, getElem?_positions_ofOrder horder hid, Option.getD_some]

/-- Different methods stand at different indices. -/
theorem position_inj {other : Nat} (horder : graph.IsOrder order) (hid : id < graph.size)
    (hother : other < graph.size) :
    (ofOrder graph order).position id = (ofOrder graph order).position other ↔ id = other := by
  rw [position_ofOrder horder hid, position_ofOrder horder hother,
    List.idxOf_inj (horder.mem_iff.mpr hid)]

theorem position_lt (horder : graph.IsOrder order) (hid : id < graph.size) :
    (ofOrder graph order).position id < graph.size := by
  rw [position_ofOrder horder hid, ← horder.length_eq]
  exact List.idxOf_lt_length_of_mem (horder.mem_iff.mpr hid)

theorem size_positions_ofOrder : (ofOrder graph order).positions.size = order.length := by
  show (tableOf graph order).positions.size = order.length
  rw [tableOf, size_positions_enter, Array.size_replicate]

theorem size_preceding_ofOrder : (ofOrder graph order).preceding.size = order.length := by
  show (tableOf graph order).preceding.size = order.length
  rw [tableOf, size_preceding_enter, Array.size_replicate]

theorem size_initialPreceding_ofOrder :
    (ofOrder graph order).initialPreceding.size = graph.size := by
  show (tableOf graph (List.range graph.size)).preceding.size = graph.size
  rw [tableOf, size_preceding_enter, Array.size_replicate, List.length_range]

/-! ## Changes of an arrangement -/

/-- Only rearrangements of the methods are accepted, and each of them is. -/
theorem reorder_ofOrder_eq_ok (horder : graph.IsOrder order) :
    (ofOrder graph order).reorder other = .ok result ↔
      graph.IsOrder other ∧ result = ofOrder graph other := by
  rw [← isOrderOf_iff, reorder, size_ofOrder, horder.length_eq, withOrder_ofOrder]
  split
  · next h => simp [h, eq_comm]
  · next h => simp [h]

/-- A method of the class has the index at which it stands, and no other number has one. -/
theorem indexOf_ofOrder_eq_ok (horder : graph.IsOrder order) :
    (ofOrder graph order).indexOf id = .ok index ↔ id < graph.size ∧ index = order.idxOf id := by
  unfold indexOf
  by_cases hid : id < graph.size
  · rw [getElem?_positions_ofOrder horder hid]
    simp [hid, eq_comm]
  · rw [Array.getElem?_eq_none (by rw [size_positions_ofOrder, horder.length_eq]; omega)]
    simp [hid]

/-- A method that is moved is taken out of the order and put back in elsewhere. -/
theorem move_eq_ok {arrangement : Arrangement} :
    arrangement.move id shift = .ok result ↔
      ∃ index : Nat, arrangement.indexOf id = .ok index ∧
        (0 ≤ index + shift ∧ index + shift < arrangement.size) ∧
        result = arrangement.withOrder
          ((arrangement.order.eraseIdx index).insertIdx (index + shift).toNat id) := by
  rw [move, bind_eq_ok]
  refine exists_congr fun index => and_congr_right fun _ => ?_
  dsimp only
  split
  · next h =>
      simp only [Bool.or_eq_true, decide_eq_true_eq] at h
      constructor
      · intro herror
        contradiction
      · rintro ⟨hrange, -⟩
        omega
  · next h =>
      simp only [Bool.or_eq_true, decide_eq_true_eq] at h
      constructor
      · intro hok
        injection hok with hok
        exact ⟨by omega, hok.symm⟩
      · rintro ⟨-, rfl⟩
        rfl

theorem move_ofOrder_eq_ok (horder : graph.IsOrder order)
    (h : (ofOrder graph order).move id shift = .ok result) :
    ∃ other, graph.IsOrder other ∧ result = ofOrder graph other := by
  obtain ⟨index, hindex, hrange, rfl⟩ := move_eq_ok.mp h
  obtain ⟨hid, rfl⟩ := (indexOf_ofOrder_eq_ok horder).mp hindex
  have hmem : id ∈ order := horder.mem_iff.mpr hid
  refine ⟨_, ?_, withOrder_ofOrder ..⟩
  rw [order_ofOrder, List.eraseIdx_idxOf_eq_erase]
  rw [size_ofOrder] at hrange
  have hback : ((order.idxOf id : Int) + shift).toNat ≤ (order.erase id).length := by
    rw [List.length_erase_of_mem hmem]
    omega
  exact (List.perm_insertIdx id _ hback).trans ((List.perm_cons_erase hmem).symm.trans horder)

/-- The arrangements that moves and reorderings lead to from the order of declaration. -/
inductive Reachable (graph : CallGraph) : Arrangement → Prop
  | initial : Reachable graph (Arrangement.initial graph)
  | move {arrangement result : Arrangement} {id : Nat} {shift : Int}
      (before : Reachable graph arrangement) (step : arrangement.move id shift = .ok result) :
      Reachable graph result
  | reorder {arrangement result : Arrangement} {order : List Nat}
      (before : Reachable graph arrangement) (step : arrangement.reorder order = .ok result) :
      Reachable graph result

/-- What is reached is the arrangement of its order, and its order is a rearrangement of the
methods. -/
theorem Reachable.exists_order (h : Reachable graph arrangement) :
    ∃ order, graph.IsOrder order ∧ arrangement = ofOrder graph order := by
  induction h with
  | initial => exact ⟨_, List.Perm.refl _, initial_eq_ofOrder graph⟩
  | move _ step ih =>
      obtain ⟨order, horder, rfl⟩ := ih
      exact move_ofOrder_eq_ok horder step
  | reorder _ step ih =>
      obtain ⟨order, horder, rfl⟩ := ih
      exact ⟨_, (reorder_ofOrder_eq_ok horder).mp step⟩

/-- Every rearrangement of the methods is reached, in one step. -/
theorem reachable_ofOrder (horder : graph.IsOrder order) :
    Reachable graph (ofOrder graph order) :=
  .reorder .initial ((reorder_ofOrder_eq_ok (List.Perm.refl _)).mpr ⟨horder, rfl⟩)

theorem Reachable.graph_eq (h : Reachable graph arrangement) : arrangement.graph = graph := by
  obtain ⟨order, -, rfl⟩ := h.exists_order
  rfl

/-- Moves and reorderings neither lose nor add methods. -/
theorem Reachable.size_eq (h : Reachable graph arrangement) : arrangement.size = graph.size := by
  obtain ⟨order, horder, rfl⟩ := h.exists_order
  exact horder.length_eq

theorem Reachable.isOrder (h : Reachable graph arrangement) : graph.IsOrder arrangement.order := by
  obtain ⟨order, horder, rfl⟩ := h.exists_order
  exact horder

theorem Reachable.position_eq (h : Reachable graph arrangement) (hid : id < graph.size) :
    arrangement.position id = arrangement.order.idxOf id := by
  obtain ⟨order, horder, rfl⟩ := h.exists_order
  exact position_ofOrder horder hid

theorem Reachable.position_inj {other : Nat} (h : Reachable graph arrangement)
    (hid : id < graph.size) (hother : other < graph.size) :
    arrangement.position id = arrangement.position other ↔ id = other := by
  obtain ⟨order, horder, rfl⟩ := h.exists_order
  exact Arrangement.position_inj horder hid hother

theorem Reachable.position_lt (h : Reachable graph arrangement) (hid : id < graph.size) :
    arrangement.position id < graph.size := by
  obtain ⟨order, horder, rfl⟩ := h.exists_order
  exact Arrangement.position_lt horder hid

/-- There is but one way to arrange less than two methods. -/
theorem Reachable.eq_of_size_lt_two (hsize : graph.size < 2) (h : Reachable graph arrangement)
    (h' : Reachable graph other) : arrangement = other := by
  have hone : ∀ order, graph.IsOrder order → order = List.range graph.size := by
    intro order horder
    rw [CallGraph.IsOrder] at horder
    obtain hzero | hone : graph.size = 0 ∨ graph.size = 1 := by omega
    · rw [hzero] at horder ⊢
      exact horder.eq_nil
    · rw [hone] at horder ⊢
      exact List.perm_singleton.mp horder
  obtain ⟨order, horder, rfl⟩ := h.exists_order
  obtain ⟨order', horder', rfl⟩ := h'.exists_order
  rw [hone order horder, hone order' horder']

/-! ## Lookups -/

/-- Every table has an entry for the method, and the place that is noted for it is one of the order.
-/
structure Knows (arrangement : Arrangement) (id : Nat) : Prop where
  method : id < arrangement.graph.outline.methods.size
  dependencies : id < arrangement.graph.dependencies.size
  dependants : id < arrangement.graph.dependants.size
  invocations : id < arrangement.graph.invocations.size
  position : id < arrangement.positions.size
  preceding : id < arrangement.preceding.size
  initialPreceding : id < arrangement.initialPreceding.size
  place : arrangement.position id < arrangement.order.length

/-- Whatever leads to a method, the order, a dependency, a call or a group, leads to one that the
tables know. -/
structure InRange (arrangement : Arrangement) : Prop where
  order : ∀ id ∈ arrangement.order, arrangement.Knows id
  dependencies : ∀ caller, ∀ id ∈ arrangement.graph.dependenciesOf caller, arrangement.Knows id
  invocations : ∀ caller, ∀ call ∈ arrangement.graph.invocationsOf caller,
    arrangement.Knows call.caller ∧ arrangement.Knows call.callee
  groups : ∀ group ∈ arrangement.graph.groups.all, ∀ id ∈ group, arrangement.Knows id

/-- The methods of the class are known. -/
theorem Reachable.knows (wf : graph.WellFormed) (h : Reachable graph arrangement)
    (hid : id < graph.size) : arrangement.Knows id := by
  obtain ⟨order, horder, rfl⟩ := h.exists_order
  have hlength := horder.length_eq
  constructor
  · exact hid
  · rwa [graph_ofOrder, wf.dependencies_size]
  · rwa [graph_ofOrder, wf.dependants_size]
  · rwa [graph_ofOrder, wf.invocations_size]
  · rwa [size_positions_ofOrder, hlength]
  · rwa [size_preceding_ofOrder, hlength]
  · rwa [size_initialPreceding_ofOrder]
  · rw [order_ofOrder, hlength]
    exact h.position_lt hid

theorem Reachable.inRange (wf : graph.WellFormed) (h : Reachable graph arrangement) :
    arrangement.InRange := by
  have hknows : ∀ id, id < graph.size → arrangement.Knows id := fun _ hid => h.knows wf hid
  obtain ⟨order, horder, rfl⟩ := h.exists_order
  constructor
  · intro id hid
    exact hknows id (horder.mem_iff.mp hid)
  · intro caller id hid
    exact hknows id (wf.dependencies_lt caller id hid)
  · intro caller call hcall
    obtain ⟨hcaller, hcallee⟩ := wf.invocations_lt caller call hcall
    exact ⟨hknows _ hcaller, hknows _ hcallee⟩
  · intro group hgroup id hid
    exact hknows id (wf.groups_lt hgroup hid)

end Arrangement

end ClassLayout

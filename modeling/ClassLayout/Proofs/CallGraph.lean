import ClassLayout.CallGraph
import ClassLayout.Proofs.Appearance
import ClassLayout.Proofs.Outline

/-!
# ClassLayout.Proofs.CallGraph

A graph is made of any calls whatsoever: repeated ones, calls from or to methods that do not exist,
calls whose nesting makes no sense. Whatever they are, the graph speaks of methods of its class
only, and it lists no dependency twice. `WellFormed` says so in one place, and nothing else about a
graph is needed to see that orders of its methods stay orders of its methods.

The graph of calls in the order of the text can be computed (`ofCalls_eq_ofCallsAsGiven`).
-/

namespace ClassLayout

/-- A dependency is what one of the calls calls. -/
theorem Appearance.exists_call_of_mem_dependencies (h : callee ∈ dependencies calls) :
    ∃ call ∈ calls, call.callee = callee := by
  rw [dependencies, List.mem_eraseDups, List.mem_map] at h
  obtain ⟨call, hcall, rfl⟩ := h
  exact ⟨call, mem_of_mem_order hcall, rfl⟩

namespace CallGraph

/-! ## The parts of a graph -/

section Parts

variable (outline : Outline) (given : List Call)

/-- The calls that a graph keeps: those from and to methods of its class. -/
theorem mem_calls_ofCalls :
    call ∈ (ofCalls outline given).calls ↔
      call ∈ given ∧ call.caller < outline.size ∧ call.callee < outline.size := by
  simp [ofCalls]

/-- Nothing is called from what is no method. -/
theorem filter_caller_eq_nil {id : Nat} (h : ¬ id < outline.size) :
    (ofCalls outline given).calls.filter (·.caller == id) = [] := by
  rw [List.filter_eq_nil_iff]
  intro call hcall
  have hcaller := ((mem_calls_ofCalls outline given).mp hcall).2.1
  simp only [beq_iff_eq]
  omega

theorem dependenciesOf_ofCalls (id : Nat) :
    (ofCalls outline given).dependenciesOf id =
      Appearance.dependencies ((ofCalls outline given).calls.filter (·.caller == id)) := by
  by_cases h : id < outline.size
  · simp [dependenciesOf, ofCalls, h]
  · rw [filter_caller_eq_nil outline given h]
    simp [dependenciesOf, ofCalls, h, Appearance.dependencies, Appearance.order, Appearance.walk]

theorem invocationsOf_ofCalls (id : Nat) :
    (ofCalls outline given).invocationsOf id =
      Appearance.order ((ofCalls outline given).calls.filter (·.caller == id)) := by
  by_cases h : id < outline.size
  · simp [invocationsOf, ofCalls, h]
  · rw [filter_caller_eq_nil outline given h]
    simp [invocationsOf, ofCalls, h, Appearance.order, Appearance.walk]

end Parts

/-! ## Well-formedness -/

/-- All that a graph says is about methods of its class. -/
structure WellFormed (graph : CallGraph) : Prop where
  /-- Each method stands at its own index. -/
  numbered : graph.outline.Numbered
  groups_eq : graph.groups = graph.outline.groups
  dependencies_size : graph.dependencies.size = graph.size
  dependencies_lt : ∀ id, ∀ dependency ∈ graph.dependenciesOf id, dependency < graph.size
  dependencies_nodup : ∀ id, (graph.dependenciesOf id).Nodup
  dependants_size : graph.dependants.size = graph.size
  invocations_size : graph.invocations.size = graph.size
  invocations_lt : ∀ id, ∀ call ∈ graph.invocationsOf id,
    call.caller < graph.size ∧ call.callee < graph.size

/-- A graph is well formed whatever calls it is made of. -/
theorem wellFormed_ofCalls {outline : Outline} (h : outline.Numbered) (given : List Call) :
    (ofCalls outline given).WellFormed where
  numbered := h
  groups_eq := rfl
  dependencies_size := by simp [ofCalls, size]
  dependencies_lt := by
    intro id dependency hmem
    rw [dependenciesOf_ofCalls] at hmem
    obtain ⟨call, hcall, rfl⟩ := Appearance.exists_call_of_mem_dependencies hmem
    exact ((mem_calls_ofCalls outline given).mp (List.mem_filter.mp hcall).1).2.2
  dependencies_nodup := by
    intro id
    rw [dependenciesOf_ofCalls]
    exact nodup_eraseDups _
  dependants_size := by simp [ofCalls, size]
  invocations_size := by simp [ofCalls, size]
  invocations_lt := by
    intro id call hmem
    rw [invocationsOf_ofCalls] at hmem
    have hcall := (List.mem_filter.mp (Appearance.mem_of_mem_order hmem)).1
    exact ((mem_calls_ofCalls outline given).mp hcall).2

/-- Only a method of the class has dependencies. -/
theorem WellFormed.lt_of_dependencies {graph : CallGraph} {id : Nat} (wf : graph.WellFormed)
    (h : graph.dependenciesOf id ≠ []) : id < graph.size := by
  by_contra hout
  rw [dependenciesOf, Array.getElem?_eq_none (by rw [wf.dependencies_size]; omega)] at h
  contradiction

/-- The groups of a well-formed graph hold methods of its class only. -/
theorem WellFormed.groups_lt {graph : CallGraph} {id : Nat} (wf : graph.WellFormed)
    (hgroup : group ∈ graph.groups.all) (hid : id ∈ group) : id < graph.size := by
  rw [wf.groups_eq] at hgroup
  exact wf.numbered.lt_of_mem_groups hgroup hid

/-- No group of a well-formed graph holds a method twice. -/
theorem WellFormed.groups_nodup {graph : CallGraph} (wf : graph.WellFormed)
    (hgroup : group ∈ graph.groups.all) : group.Nodup := by
  rw [wf.groups_eq] at hgroup
  exact (wf.numbered.pairwise_of_mem_groups hgroup).imp Nat.ne_of_lt

/-! ## Calls in the order of the text -/

/-- The graph of calls that are given in the order of the text, as far as one method makes them. -/
def ofCallsAsGiven (outline : Outline) (given : List Call) : CallGraph :=
  let graph := ofCalls outline given
  let orderOf := fun id => Appearance.orderAsGiven (graph.calls.filter (·.caller == id))
  { graph with
    invocations := ((List.range outline.size).map orderOf).toArray
    dependencies :=
      ((List.range outline.size).map fun id => ((orderOf id).map (·.callee)).eraseDups).toArray }

theorem ofCalls_eq_ofCallsAsGiven {outline : Outline} {given : List Call}
    (h : given.Pairwise fun a b => a.caller = b.caller → a.notAfter b = true) :
    ofCalls outline given = ofCallsAsGiven outline given := by
  have horder : ∀ id,
      Appearance.orderAsGiven ((ofCalls outline given).calls.filter (·.caller == id)) =
        Appearance.order ((ofCalls outline given).calls.filter (·.caller == id)) := by
    intro id
    refine (Appearance.order_eq_orderAsGiven ?_).symm
    rw [List.pairwise_filter]
    refine (h.filter _).imp ?_
    intro a b hab ha hb
    exact hab ((beq_iff_eq.mp ha).trans (beq_iff_eq.mp hb).symm)
  simp only [ofCallsAsGiven, horder]
  rfl

end CallGraph

end ClassLayout

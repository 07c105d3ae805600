import ClassLayout.Proofs.Resolution

/-!
# ClassLayout.Proofs.Views

A graph tells in several ways which method calls which: by its calls, by the calls of each method in
the order of their appearance, by the dependencies and by the dependants. All of them are made from
the calls. For a class that is accepted no call is lost on the way, so they agree (`views_agree`),
and the calls of a method appear in the order in which they are made (`calls_appear_in_order`).
-/

namespace ClassLayout.CallGraph

variable {declaration : ClassDeclaration} {graph : CallGraph} {a b : Nat}

/-! ## Views of any calls -/

section Parts

variable (outline : Outline) (given : List Call)

/-- The dependants of a method are those that call it. -/
theorem mem_dependantsOf_ofCalls :
    a ∈ (ofCalls outline given).dependantsOf b ↔
      ∃ call ∈ (ofCalls outline given).calls, call.caller = a ∧ call.callee = b := by
  by_cases hb : b < outline.size
  · simp only [dependantsOf, ofCalls, hb, List.getElem?_toArray, List.getElem?_map,
      List.getElem?_range, Option.map_some, Option.getD_some, List.mem_filter, List.mem_range,
      List.contains_iff_mem, List.mem_map, Bool.and_eq_true, decide_eq_true_eq, beq_iff_eq]
    grind
  · have hnone : (ofCalls outline given).dependantsOf b = [] := by simp [dependantsOf, ofCalls, hb]
    rw [hnone]
    refine ⟨fun ha => absurd ha List.not_mem_nil, ?_⟩
    rintro ⟨call, hcall, -, rfl⟩
    exact absurd ((mem_calls_ofCalls outline given).mp hcall).2.2 hb

/-- Dependants come in the order of declaration. -/
theorem pairwise_dependantsOf_ofCalls (b : Nat) :
    ((ofCalls outline given).dependantsOf b).Pairwise (· < ·) := by
  by_cases hb : b < outline.size
  · simp only [dependantsOf, ofCalls, hb, List.getElem?_toArray, List.getElem?_map,
      List.getElem?_range, Option.map_some, Option.getD_some]
    exact List.pairwise_lt_range.filter _
  · simp [dependantsOf, ofCalls, hb]

theorem allInvocations_ofCalls :
    (ofCalls outline given).allInvocations =
      (List.range outline.size).flatMap (ofCalls outline given).invocationsOf := by
  have hlists : (ofCalls outline given).invocations.toList =
      (List.range outline.size).map (ofCalls outline given).invocationsOf := by
    rw [funext (invocationsOf_ofCalls outline given)]
    rfl
  rw [allInvocations, hlists, List.flatMap]

end Parts

/-! ## Views of an accepted class -/

section Accepted

variable (built : ofDeclaration declaration = .ok graph)

include built

/-- The calls of a method are all listed. -/
theorem invocationsOf_perm (a : Nat) :
    (graph.invocationsOf a).Perm (graph.calls.filter (·.caller == a)) := by
  obtain ⟨-, -, hgraph⟩ := resolve_of_ofDeclaration built
  rw [hgraph, invocationsOf_ofCalls, ← hgraph]
  exact ((nested_calls built).filter _).order_perm

/-- The dependencies are what the calls of a method call, without repetitions. -/
theorem dependenciesOf_eq (a : Nat) :
    graph.dependenciesOf a = ((graph.invocationsOf a).map (·.callee)).eraseDups := by
  obtain ⟨-, -, hgraph⟩ := resolve_of_ofDeclaration built
  rw [hgraph, dependenciesOf_ofCalls, invocationsOf_ofCalls, Appearance.dependencies]

theorem mem_dependenciesOf :
    b ∈ graph.dependenciesOf a ↔ ∃ call ∈ graph.calls, call.caller = a ∧ call.callee = b := by
  rw [dependenciesOf_eq built, List.mem_eraseDups, List.mem_map]
  simp only [(invocationsOf_perm built a).mem_iff, List.mem_filter, beq_iff_eq, and_assoc]

/-- All calls together are the calls of each method. -/
theorem allInvocations_perm : graph.allInvocations.Perm graph.calls := by
  obtain ⟨-, -, hgraph⟩ := resolve_of_ofDeclaration built
  have hall : graph.calls.filter (fun call => call.caller < graph.size) = graph.calls := by
    rw [List.filter_eq_self]
    intro call hcall
    rw [hgraph] at hcall
    exact decide_eq_true ((mem_calls_ofCalls _ _).mp hcall).2.1
  calc
    graph.allInvocations = (List.range graph.size).flatMap graph.invocationsOf := by
      rw [hgraph]
      exact allInvocations_ofCalls _ _
    List.Perm _ ((List.range graph.size).flatMap fun a => graph.calls.filter (·.caller == a)) :=
      List.Perm.flatMap_left _ fun a _ => invocationsOf_perm built a
    List.Perm _ (graph.calls.filter fun call => call.caller < graph.size) :=
      flatMap_filter_perm _ _ _
    _ = graph.calls := hall

end Accepted

/-! ## Results -/

/-- **Appearance**: each call of a method is listed once. A call that stands inside another one
comes before it. Of two calls of which none stands inside the other, the one comes first whose side
stands earlier in the text: the outermost call that holds it and does not hold the other. -/
theorem calls_appear_in_order (built : ofDeclaration declaration = .ok graph) (caller : Nat) :
    let calls := graph.calls.filter (·.caller == caller)
    let listed := Appearance.order calls
    listed.Perm calls ∧ listed.Nodup ∧
    ∀ x ∈ calls, ∀ y ∈ calls, x ≠ y →
      (x.isInside y = true → listed.idxOf x < listed.idxOf y) ∧
      (x.isInside y = false → y.isInside x = false →
        (∃ a, Appearance.Branch calls x y a) ∧
        ∀ a b, Appearance.Branch calls x y a → Appearance.Branch calls y x b →
          (listed.idxOf x < listed.idxOf y ↔ a.Earlier b)) := by
  intro calls listed
  have hnested : Appearance.Nested calls := (nested_calls built).filter _
  refine ⟨hnested.order_perm, hnested.order_perm.nodup_iff.mpr hnested.nodup, ?_⟩
  intro x hx y hy hne
  have hfirst := hnested.idxOf_lt_iff hx hy hne
  refine ⟨fun hinside => hfirst.mpr (.inl hinside), ?_⟩
  intro hxy hyx
  refine ⟨hnested.exists_branch hx hy hne hxy hyx, ?_⟩
  intro a b ha hb
  rw [hfirst]
  constructor
  · rintro (hinside | ⟨a', b', ha', hb', hearlier⟩)
    · simp [hxy] at hinside
    · rwa [hnested.branch_unique ha ha', hnested.branch_unique hb hb']
  · exact fun hearlier => .inr ⟨a, b, ha, hb, hearlier⟩

/-- The inner call of `render` comes before the call of `log` around it, although the site between
them means no method, and before the other call of `render`, although it is written below it. -/
theorem calls_appear_in_order_mailer :
    let log : Call := { site := 0, caller := 0, callee := 2, line := 3, column := 4 }
    let inner : Call :=
      { site := 2, caller := 0, callee := 1, line := 6, column := 12, enclosingSites := [1, 0] }
    let render : Call := { site := 3, caller := 0, callee := 1, line := 5, column := 4 }
    let listed := Appearance.order [log, inner, render]
    mailerGraph.calls.filter (·.caller == 0) = [log, inner, render] ∧
      listed.idxOf inner < listed.idxOf log ∧
      render.Earlier inner ∧ listed.idxOf inner < listed.idxOf render := by
  intro log inner render listed
  have hcalls : mailerGraph.calls.filter (·.caller == 0) = [log, inner, render] := by rfl
  obtain ⟨-, -, hfirst⟩ := calls_appear_in_order mailer_built 0
  rw [hcalls] at hfirst
  have hlog : Appearance.Branch [log, inner, render] inner render log :=
    ⟨by decide, by decide, by decide, by decide⟩
  have hrender : Appearance.Branch [log, inner, render] render inner render :=
    ⟨by decide, by decide, by decide, by decide⟩
  refine ⟨hcalls, ?_, by simp [Call.earlier_iff, render, inner], ?_⟩
  · exact (hfirst inner (by decide) log (by decide) (by decide)).1 (by decide)
  · have hinner := hfirst inner (by decide) render (by decide) (by decide)
    obtain ⟨-, hapart⟩ := hinner.2 (by decide) (by decide)
    refine (hapart log render hlog hrender).mpr ?_
    simp [Call.earlier_iff, log, render]

/-- **Agreement**: dependencies, dependants, `dependsOn` and the calls tell of the same edges. The
dependencies of a method are listed once each, in the order in which its invocations first call
them, the dependants in the order of declaration; and the invocations of all methods are the calls.
-/
theorem views_agree (built : ofDeclaration declaration = .ok graph) :
    (∀ a b, (b ∈ graph.dependenciesOf a ↔ a ∈ graph.dependantsOf b) ∧
      (b ∈ graph.dependenciesOf a ↔ graph.dependsOn a b = true) ∧
      (b ∈ graph.dependenciesOf a ↔
        ∃ call ∈ graph.calls, call.caller = a ∧ call.callee = b)) ∧
    (∀ a, (graph.dependenciesOf a).Nodup ∧
      (∀ b, b ∈ graph.dependenciesOf a ↔ b ∈ (graph.invocationsOf a).map (·.callee)) ∧
      (graph.dependenciesOf a).Pairwise fun b c =>
        ((graph.invocationsOf a).map (·.callee)).idxOf b <
          ((graph.invocationsOf a).map (·.callee)).idxOf c) ∧
    (∀ b, (graph.dependantsOf b).Pairwise (· < ·)) ∧
    graph.allInvocations.Perm graph.calls := by
  obtain ⟨-, -, hgraph⟩ := resolve_of_ofDeclaration built
  refine ⟨?_, ?_, ?_, allInvocations_perm built⟩
  · intro a b
    refine ⟨?_, ?_, mem_dependenciesOf built⟩
    · rw [mem_dependenciesOf built, hgraph, mem_dependantsOf_ofCalls]
    · rw [dependsOn, List.contains_iff_mem]
  · intro a
    rw [dependenciesOf_eq built]
    exact ⟨nodup_eraseDups _, fun b => List.mem_eraseDups, pairwise_idxOf_eraseDups _⟩
  · intro b
    rw [hgraph]
    exact pairwise_dependantsOf_ofCalls _ _ b

/-- Two methods call `log`, one of them from around a call of `render`. -/
theorem views_agree_mailer :
    mailerGraph.dependsOn 0 2 = true ∧ 0 ∈ mailerGraph.dependantsOf 2 ∧
      1 ∈ mailerGraph.dependantsOf 2 ∧ 2 ∉ mailerGraph.dependenciesOf 2 ∧
      (mailerGraph.dependenciesOf 0).Nodup ∧
      mailerGraph.allInvocations.Perm mailerGraph.calls := by
  obtain ⟨hedges, hlists, -, hall⟩ := views_agree mailer_built
  have hsend : 2 ∈ mailerGraph.dependenciesOf 0 := (hedges 0 2).2.2.mpr (by decide)
  have hrender : 2 ∈ mailerGraph.dependenciesOf 1 := (hedges 1 2).2.2.mpr (by decide)
  refine ⟨(hedges 0 2).2.1.mp hsend, (hedges 0 2).1.mp hsend, (hedges 1 2).1.mp hrender, ?_,
    (hlists 0).1, hall⟩
  rw [(hedges 2 2).2.2]
  decide

end ClassLayout.CallGraph

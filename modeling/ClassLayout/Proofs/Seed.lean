import ClassLayout.Proofs.Arrangement
import ClassLayout.Seed
import Mathlib.Data.Finset.Card

/-!
# ClassLayout.Proofs.Seed

Which methods an order can start with. The seed depends on the arrangement at hand, but only among
equals: it is always one of the class's seed candidates, and these are known from the declaration
and the calls.

1. If the class has constructors, the candidates are those with the fewest parameters.
2. If it has none, they are the methods with the most dependencies, as long as some method has any.
3. Else the method that is declared first is the only one.
-/

namespace ClassLayout

/-! ## The best of some items -/

section Best

variable {beats : α → α → Bool} {l : List α}

/-- There is a best item unless there is none at all. -/
theorem firstBest?_eq_none : firstBest? beats l = none ↔ l = [] := by
  cases l with
  | nil => simp [firstBest?]
  | cons a l =>
      rw [firstBest?]
      split
      · simp
      · split <;> simp

/-- The best item is one of the items and none beats it. -/
theorem firstBest?_eq_some (hasymm : ∀ a b, beats a b → ¬ beats b a)
    (hbetween : ∀ a b c, beats a c → beats a b ∨ beats b c) (h : firstBest? beats l = some best) :
    best ∈ l ∧ ∀ a ∈ l, ¬ beats a best := by
  induction l generalizing best with
  | nil => contradiction
  | cons c l ih =>
      rw [firstBest?] at h
      split at h
      · next hnone =>
          injection h with h
          rw [firstBest?_eq_none.mp hnone, ← h]
          refine ⟨List.mem_cons_self, ?_⟩
          intro a ha
          rw [List.mem_singleton.mp ha]
          exact fun h => hasymm c c h h
      · next b hb =>
          obtain ⟨hmem, hbest⟩ := ih hb
          split at h
          · next hbeats =>
              injection h with h
              rw [← h]
              refine ⟨List.mem_cons_of_mem c hmem, ?_⟩
              intro a ha
              rcases List.mem_cons.mp ha with rfl | ha
              · exact hasymm b a hbeats
              · exact hbest a ha
          · next hbeats =>
              injection h with h
              rw [← h]
              refine ⟨List.mem_cons_self, ?_⟩
              intro a ha
              rcases List.mem_cons.mp ha with rfl | ha
              · exact fun h => hasymm a a h h
              · intro habove
                rcases hbetween a b c habove with hab | hbc
                · exact hbest a ha hab
                · exact hbeats hbc

theorem firstLeast?_eq_some {key : α → Nat} (h : firstLeast? key l = some best) :
    best ∈ l ∧ ∀ a ∈ l, key best ≤ key a := by
  obtain ⟨hmem, hbest⟩ := firstBest?_eq_some (by simp; omega) (by simp; omega) h
  exact ⟨hmem, fun a ha => by simpa using hbest a ha⟩

theorem firstGreatest?_eq_some {key : α → Nat} (h : firstGreatest? key l = some best) :
    best ∈ l ∧ ∀ a ∈ l, key a ≤ key best := by
  obtain ⟨hmem, hbest⟩ := firstBest?_eq_some (by simp; omega) (by simp; omega) h
  exact ⟨hmem, fun a ha => by simpa using hbest a ha⟩

end Best

/-! ## Candidates -/

namespace ClassDeclaration

/-- The indices of the constructors. -/
def constructorIds (declaration : ClassDeclaration) : Finset Nat :=
  (Finset.range declaration.methods.length).filter fun id =>
    declaration.methods[id]?.any (·.isConstructor)

/-- The number of parameters of a method. -/
def parameterCount (declaration : ClassDeclaration) (id : Nat) : Nat :=
  (declaration.methods[id]?.map (·.parameters.length)).getD 0

/-- The methods with which an order of a class may start, given which methods call which. -/
def seedCandidates (declaration : ClassDeclaration) (graph : CallGraph) : Finset Nat :=
  let constructors := declaration.constructorIds
  let callCount := fun id => (graph.dependenciesOf id).length
  let callers := (Finset.range graph.size).filter fun id => 0 < callCount id
  if constructors.Nonempty then
    constructors.filter fun id =>
      ∀ other ∈ constructors, declaration.parameterCount id ≤ declaration.parameterCount other
  else if callers.Nonempty then
    callers.filter fun id => ∀ other ∈ callers, callCount other ≤ callCount id
  else (Finset.range graph.size).filter (· = 0)

end ClassDeclaration

/-! ## Methods in an arrangement -/

/-- The parameters of a method are counted as they are declared. -/
theorem Method.parameterCount_of_ofDeclaration {id : Nat} {method : Method}
    (h : ofDeclaration id shared declaration = .ok method) :
    method.parameterCount = declaration.parameters.length := by
  obtain ⟨-, -, hcount, harity⟩ := ofDeclaration_eq_ok h
  rw [parameterCount, hcount, harity, Signature.argCount]
  cases hlast : declaration.parameters.getLast? with
  | none =>
      have harity : Signature.isVariableArity declaration.parameters = false := by
        rw [Signature.isVariableArity, hlast]
      rw [harity]
      rfl
  | some last =>
      have hpos : 0 < declaration.parameters.length := by
        rw [List.length_pos_iff]
        intro hnil
        rw [hnil] at hlast
        contradiction
      split
      · next harity =>
          rw [harity, Bool.toNat_true]
          omega
      · next harity =>
          rw [Bool.eq_false_of_not_eq_true harity, Bool.toNat_false]
          rfl

namespace Arrangement

variable {declaration : ClassDeclaration} {graph : CallGraph} {order : List Nat}

/-- An order arranges all methods of the class. -/
theorem mem_methods_ofOrder (horder : graph.IsOrder order) :
    method ∈ (ofOrder graph order).methods ↔ ∃ id, graph.method? id = some method := by
  rw [methods, order_ofOrder, List.mem_filterMap]
  constructor
  · rintro ⟨id, -, hid⟩
    exact ⟨id, hid⟩
  · rintro ⟨id, hid⟩
    exact ⟨id, horder.mem_iff.mpr (Array.getElem?_eq_some_iff.mp hid).1, hid⟩

section Constructors

variable (built : Outline.ofDeclaration declaration = .ok graph.outline)
  (horder : graph.IsOrder order)

include built

/-- At each index the declared method and the one of the class agree. -/
theorem declared_of_method? {id : Nat} {method : Method} (hid : graph.method? id = some method) :
    ∃ declared, declaration.methods[id]? = some declared ∧ method.id = id ∧
      method.isConstructor = declared.isConstructor ∧
      method.parameterCount = declared.parameters.length := by
  have hlt : id < graph.outline.size := (Array.getElem?_eq_some_iff.mp hid).1
  obtain ⟨method', declared, hmethod', hdeclared, hmade⟩ :=
    Outline.exists_method_of_ofDeclaration built hlt
  obtain rfl : method = method' := Option.some.inj (hid.symm.trans hmethod')
  obtain ⟨hid, hconstructor, -⟩ := Method.ofDeclaration_eq_ok hmade
  exact ⟨declared, hdeclared, hid, hconstructor, Method.parameterCount_of_ofDeclaration hmade⟩

include horder

/-- A constructor in an arrangement is declared, with as many parameters. -/
theorem constructor_of_mem
    (hmem : method ∈ (ofOrder graph order).methods.filter (·.isConstructor)) :
    method.id ∈ declaration.constructorIds ∧
      method.parameterCount = declaration.parameterCount method.id := by
  obtain ⟨hmem, hconstructor⟩ := List.mem_filter.mp hmem
  obtain ⟨index, hindex⟩ := (mem_methods_ofOrder horder).mp hmem
  obtain ⟨declared, hdeclared, hid, hsame, hcount⟩ := declared_of_method? built hindex
  rw [ClassDeclaration.constructorIds, Finset.mem_filter, Finset.mem_range,
    ClassDeclaration.parameterCount, hid, hdeclared]
  refine ⟨⟨(List.getElem?_eq_some_iff.mp hdeclared).1, ?_⟩, hcount⟩
  rw [Option.any_some, ← hsame]
  exact hconstructor

/-- A constructor that is declared is in every arrangement. -/
theorem exists_constructor (hid : seed ∈ declaration.constructorIds) :
    ∃ method ∈ (ofOrder graph order).methods.filter (·.isConstructor), method.id = seed := by
  rw [ClassDeclaration.constructorIds, Finset.mem_filter, Finset.mem_range,
    ← Outline.size_of_ofDeclaration built] at hid
  obtain ⟨method, -, hmethod, -⟩ := Outline.exists_method_of_ofDeclaration built hid.1
  obtain ⟨declared, hdeclared, heq, hsame, -⟩ := declared_of_method? built hmethod
  refine ⟨method, List.mem_filter.mpr ⟨(mem_methods_ofOrder horder).mpr ⟨seed, hmethod⟩, ?_⟩, heq⟩
  rw [hdeclared, Option.any_some] at hid
  rw [hsame]
  exact hid.2

theorem smallestConstructor?_eq_some
    (h : (ofOrder graph order).smallestConstructor? = some seed) :
    seed ∈ declaration.constructorIds ∧ ∀ other ∈ declaration.constructorIds,
      declaration.parameterCount seed ≤ declaration.parameterCount other := by
  obtain ⟨method, hmethod, rfl⟩ := Option.map_eq_some_iff.mp h
  obtain ⟨hmem, hleast⟩ := firstLeast?_eq_some hmethod
  obtain ⟨hseed, hcount⟩ := constructor_of_mem built horder hmem
  refine ⟨hseed, ?_⟩
  intro other hother
  obtain ⟨method', hmem', rfl⟩ := exists_constructor built horder hother
  rw [← hcount, ← (constructor_of_mem built horder hmem').2]
  exact hleast method' hmem'

theorem smallestConstructor?_eq_none
    (h : (ofOrder graph order).smallestConstructor? = none) : declaration.constructorIds = ∅ := by
  have hempty := firstBest?_eq_none.mp (Option.map_eq_none_iff.mp h)
  rw [Finset.eq_empty_iff_forall_notMem]
  intro id hid
  obtain ⟨method, hmem, -⟩ := exists_constructor built horder hid
  rw [hempty] at hmem
  contradiction

end Constructors

/-! ## The seed -/

/-- The methods that call others, in whatever order. -/
theorem mem_callers (horder : graph.IsOrder order) :
    seed ∈ order.filter (fun id => 0 < (graph.dependenciesOf id).length) ↔
      seed ∈ (Finset.range graph.size).filter fun id => 0 < (graph.dependenciesOf id).length := by
  rw [List.mem_filter, Finset.mem_filter, Finset.mem_range, horder.mem_iff, decide_eq_true_eq]

/-- The seed is a candidate. -/
theorem Reachable.seed_mem (built : Outline.ofDeclaration declaration = .ok graph.outline)
    (reached : Reachable graph arrangement) (h : arrangement.seed? = some seed) :
    seed ∈ declaration.seedCandidates graph := by
  obtain ⟨order, horder, rfl⟩ := reached.exists_order
  rw [seed?, Option.or_eq_some_iff] at h
  unfold ClassDeclaration.seedCandidates
  dsimp only
  rcases h with hconstructor | ⟨hnone, h⟩
  · obtain ⟨hmem, hleast⟩ := smallestConstructor?_eq_some built horder hconstructor
    rw [if_pos ⟨seed, hmem⟩, Finset.mem_filter]
    exact ⟨hmem, hleast⟩
  · rw [smallestConstructor?_eq_none built horder hnone, if_neg Finset.not_nonempty_empty]
    rw [Option.or_eq_some_iff] at h
    rcases h with hbusiest | ⟨hnone, hfirst⟩
    · obtain ⟨hmem, hgreatest⟩ := firstGreatest?_eq_some hbusiest
      have hcaller := (mem_callers horder).mp hmem
      rw [if_pos ⟨seed, hcaller⟩, Finset.mem_filter]
      exact ⟨hcaller, fun other hother => hgreatest other ((mem_callers horder).mpr hother)⟩
    · have hempty := firstBest?_eq_none.mp hnone
      rw [if_neg, Finset.mem_filter, Finset.mem_range]
      · rw [List.head?_range, Option.ite_none_left_eq_some] at hfirst
        have hzero : 0 = seed := Option.some.inj hfirst.2
        exact ⟨hzero ▸ Nat.pos_of_ne_zero hfirst.1, hzero.symm⟩
      · rintro ⟨caller, hcaller⟩
        have hmem := (mem_callers horder).mpr hcaller
        exact List.not_mem_nil (hempty ▸ hmem)

/-- A class with methods has a seed. -/
theorem Reachable.exists_seed (reached : Reachable graph arrangement) (hsize : 0 < graph.size) :
    ∃ seed, arrangement.seed? = some seed := by
  obtain ⟨order, -, rfl⟩ := reached.exists_order
  have hfirst : (List.range graph.size).head? = some 0 := by
    rw [List.head?_range, if_neg (by omega)]
  rw [seed?, graph_ofOrder, hfirst, ← Option.isSome_iff_exists, Option.isSome_or, Option.isSome_or]
  simp

/-- A candidate is a method of the class. -/
theorem lt_of_mem_seedCandidates (built : Outline.ofDeclaration declaration = .ok graph.outline)
    (h : seed ∈ declaration.seedCandidates graph) : seed < graph.size := by
  have hsize := Outline.size_of_ofDeclaration built
  unfold ClassDeclaration.seedCandidates at h
  dsimp only at h
  split at h
  · have hmem := (Finset.mem_filter.mp h).1
    rw [ClassDeclaration.constructorIds, Finset.mem_filter, Finset.mem_range, ← hsize] at hmem
    exact hmem.1
  · split at h
    · exact Finset.mem_range.mp (Finset.mem_filter.mp (Finset.mem_filter.mp h).1).1
    · exact Finset.mem_range.mp (Finset.mem_filter.mp h).1

end Arrangement

end ClassLayout

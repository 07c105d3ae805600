import ClassLayout.Arrangement.Metrics
import ClassLayout.Proofs.Arrangement
import Mathlib.Algebra.BigOperators.Group.Finset.Basic
import Mathlib.Algebra.Order.Ring.Nat

/-!
# ClassLayout.Proofs.Metrics

Three of the counts are sums over the callers: the distances, the dependencies above their callers,
and the dependencies above others that appear earlier. What one caller adds to them depends only on
its own place and on those of its dependencies (`distanceOf`, `aboveOf`, `inconsistencyOf`). So what
a change does to a count can be told caller by caller (`Contributes`).
-/

namespace ClassLayout

/-- A total is a sum of the standard library. -/
theorem total_eq_sum (l : List Nat) : total l = l.sum := by
  induction l with
  | nil => rfl
  | cons n l ih => rw [total, ih, List.sum_cons]

/-! ## Groups and sequences -/

/-- Indices that fit into as many places as there are of them are not split. -/
theorem groupSplit_eq_zero {indices : List Nat} (low : Nat)
    (h : ∀ index ∈ indices, low ≤ index ∧ index < low + indices.length) :
    groupSplit indices = 0 := by
  rw [groupSplit]
  split
  · next last first hlast hfirst =>
      have hhigh := h last (List.max?_mem hlast)
      have hlow := h first (List.min?_mem hfirst)
      omega
  · rfl

namespace Arrangement

variable {arrangement : Arrangement} {caller : Nat}

/-- There are no inversions exactly if nothing is below what comes before it. -/
theorem inversions_eq_zero_iff {bound : Nat} {indices : List Nat} :
    inversions bound indices = 0 ↔ (bound :: indices).Pairwise (· ≤ ·) := by
  induction indices generalizing bound with
  | nil => simp [inversions]
  | cons index indices ih =>
      rw [inversions]
      by_cases hbelow : index < bound
      · simp [hbelow]
      · simp only [if_neg hbelow, ih, List.pairwise_cons]
        grind

/-- Indices without inversions from 0 on never decrease. -/
theorem inversions_zero_eq_zero_iff {indices : List Nat} :
    inversions 0 indices = 0 ↔ indices.Pairwise (· ≤ ·) := by
  simp [inversions_eq_zero_iff]

/-- The distances from the places right below an index to that index. -/
theorem total_gap_range' (index count : Nat) :
    total ((List.range' (index + 1) count).map fun place => gap place index) =
      count * (count + 1) / 2 := by
  have hgaps : (List.range' (index + 1) count).map (fun place => gap place index) =
      List.range' 1 count := by
    refine List.ext_getElem (by simp) fun place _ _ => ?_
    simp [gap]
    omega
  have htwice : count * (count + 1) = count * (count - 1) + count * 2 := by
    cases count with
    | zero => rfl
    | succ count => grind
  rw [hgaps, total_eq_sum, List.sum_range', htwice]
  omega

/-! ## What a caller contributes -/

/-- The distances between a caller and the methods that it calls, added up. -/
def distanceOf (arrangement : Arrangement) (caller : Nat) : Nat :=
  total ((arrangement.dependencyIndices caller).map fun index =>
    gap index (arrangement.position caller))

/-- The number of methods above a caller that it calls. -/
def aboveOf (arrangement : Arrangement) (caller : Nat) : Nat :=
  (arrangement.dependencyIndices caller).countP (· < arrangement.position caller)

/-- The number of dependencies of a caller above one that appears earlier in it. -/
def inconsistencyOf (arrangement : Arrangement) (caller : Nat) : Nat :=
  inversions 0 (arrangement.dependencyIndices caller)

theorem totalDistance_eq (arrangement : Arrangement) :
    arrangement.totalDistance = total (arrangement.order.map arrangement.distanceOf) := by
  rw [totalDistance, dependencyPairs, List.map_flatMap, total_eq_sum, List.flatMap_def,
    List.sum_flatten, List.map_map, total_eq_sum]
  refine congrArg List.sum (List.map_congr_left fun caller _ => ?_)
  simp [distanceOf, dependencyIndices, total_eq_sum, Function.comp_def]

theorem declarationBeforeUsage_eq (arrangement : Arrangement) :
    arrangement.declarationBeforeUsage = total (arrangement.order.map arrangement.aboveOf) := by
  rw [declarationBeforeUsage, dependencyPairs, List.countP_flatMap, total_eq_sum]
  refine congrArg List.sum (List.map_congr_left fun caller _ => ?_)
  simp [aboveOf, dependencyIndices, List.countP_map, Function.comp_def]

theorem relativeOrderInconsistency_eq (arrangement : Arrangement) :
    arrangement.relativeOrderInconsistency =
      total (arrangement.order.map arrangement.inconsistencyOf) := rfl

/-- What is added up in the order of the methods can be added up in any order. -/
theorem Reachable.total_map_order {graph : CallGraph} (reached : Reachable graph arrangement)
    (part : Nat → Nat) :
    total (arrangement.order.map part) = ∑ caller ∈ Finset.range graph.size, part caller := by
  have horder := reached.isOrder
  have hall : arrangement.order.toFinset = Finset.range graph.size := by
    ext caller
    simp [horder.mem_iff]
  rw [total_eq_sum, ← hall, List.sum_toFinset part horder.nodup]

/-- Of a count that is added up over the callers, one caller contributes the given amount and the
others all the rest. -/
def Contributes (arrangement : Arrangement) (count : Nat) (part : Nat → Nat) (caller amount : Nat) :
    Prop :=
  part caller = amount ∧ count = amount + total ((arrangement.order.erase caller).map part)

theorem contributes_of_mem {count amount : Nat} {part : Nat → Nat}
    (hcaller : caller ∈ arrangement.order) (hcount : count = total (arrangement.order.map part))
    (hpart : part caller = amount) :
    arrangement.Contributes count part caller amount := by
  refine ⟨hpart, ?_⟩
  have hperm := (List.perm_cons_erase hcaller).map part
  rw [hcount, total_eq_sum, total_eq_sum, hperm.sum_nat, List.map_cons, List.sum_cons, hpart]

end Arrangement

end ClassLayout

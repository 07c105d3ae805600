import ClassLayout.Proofs.Analysis
import ClassLayout.Proofs.BreadthFirst
import ClassLayout.Proofs.Moves

/-!
# ClassLayout.Proofs.Advice

What the report of a misplaced method is good for. The first method that is away stands above the
place of its declaration, and all methods before it are at home (`FirstAway`). To take it out of the
declaration and put it where it stands therefore changes nothing above that place
(`FirstAway.getElem?_place`): the declaration comes to agree with the arrangement by one more index.
-/

namespace ClassLayout

open Arrangement

variable {graph : CallGraph} {order : List Nat} {spot id : Nat}

namespace FirstAway

/-- The method is one of the class. -/
theorem id_lt (h : FirstAway order spot id) (horder : graph.IsOrder order) : id < graph.size :=
  horder.mem_iff.mp (List.mem_of_getElem? h.stands)

/-- The declaration agrees with the order at each index above the spot, but not there. -/
theorem getElem?_range (h : FirstAway order spot id) (horder : graph.IsOrder order) :
    (∀ index < spot, (List.range graph.size)[index]? = order[index]?) ∧
      (List.range graph.size)[spot]? ≠ order[spot]? := by
  have hlt := h.lt horder.nodup
  have hid := h.id_lt horder
  constructor
  · intro index hindex
    simp [h.before index hindex, show index < graph.size by omega]
  · simp [h.stands, show spot < graph.size by omega, h.away.symm]

/-- With the method put in its spot, the declaration agrees there as well. -/
theorem getElem?_place (h : FirstAway order spot id) (horder : graph.IsOrder order)
    {index : Nat} (hindex : index ≤ spot) :
    (place (List.range graph.size) id spot)[index]? = order[index]? := by
  have hlt := h.lt horder.nodup
  have hid := h.id_lt horder
  by_cases hspot : index = spot
  · subst hspot
    rw [h.stands]
    exact getElem?_place_self (by simpa using hid) (by simp; omega)
  · rw [getElem?_place_of_lt (by rw [idxOf_range hid]; omega) (by omega)]
    exact (h.getElem?_range horder).1 index (by omega)

/-- To put it there is to move it up by as many indices as it stands above its declaration. -/
theorem move_initial (h : FirstAway order spot id) (horder : graph.IsOrder order) :
    (initial graph).move id (-((id : Int) - spot)) =
      .ok (ofOrder graph (place (List.range graph.size) id spot)) := by
  have hlt := h.lt horder.nodup
  have hid := h.id_lt horder
  rw [initial_eq_ofOrder, move_ofOrder (List.Perm.refl _) hid, idxOf_range hid, List.length_range,
    if_pos (by omega), show ((id : Int) + -((id : Int) - spot)).toNat = spot by omega]

end FirstAway

namespace Arrangement

open Proposal (switchboardGraph)

/-- At every index below the bound the same method stands in both arrangements. -/
def AgreesBefore (bound : Nat) (arrangement other : Arrangement) : Prop :=
  ∀ index < bound, arrangement.order[index]? = other.order[index]?

/-- What there is to the advice of moving a misplaced method, which stands at the given spot. -/
structure Advises (graph : CallGraph) (arrangement : Arrangement) (misplaced : Misplaced)
    (spot : Nat) : Prop where
  stands : arrangement.indexOf misplaced.id = .ok spot
  /-- The method is told by its signature and the line where it is declared. -/
  names : ∃ method, graph.method? misplaced.id = some method ∧
    misplaced.signature = method.signature ∧ misplaced.line = method.line
  /-- It is to be moved up. -/
  up : 0 < misplaced.shift
  /-- The declaration agrees with the arrangement before the spot only. -/
  before : AgreesBefore spot (initial graph) arrangement
  differs : (initial graph).order[spot]? ≠ arrangement.order[spot]?
  /-- With the method moved, it agrees at the spot, too. -/
  followed : ∃ moved, (initial graph).move misplaced.id (-misplaced.shift) = .ok moved ∧
    AgreesBefore (spot + 1) moved arrangement

/-- The first method that is away is worth moving. -/
theorem advises_of_firstAway (haway : FirstAway order spot id) (horder : graph.IsOrder order) :
    ∃ misplaced, (ofOrder graph order).firstMisplaced? = some misplaced ∧
      Advises graph (ofOrder graph order) misplaced spot := by
  have hid := haway.id_lt horder
  have hlt := haway.lt horder.nodup
  have hmethod : graph.method? id = some graph.outline.methods[id] := Array.getElem?_eq_getElem hid
  refine ⟨_, firstMisplaced?_ofOrder_of_firstAway haway hmethod, ?_⟩
  constructor
  · exact (indexOf_ofOrder_eq_ok horder).mpr
      ⟨hid, (idxOf_of_getElem? horder.nodup haway.stands).symm⟩
  · exact ⟨_, hmethod, rfl, rfl⟩
  · simp [hlt]
  · exact (haway.getElem?_range horder).1
  · exact (haway.getElem?_range horder).2
  · exact ⟨_, haway.move_initial horder, fun index hindex =>
      haway.getElem?_place horder (Nat.le_of_lt_succ hindex)⟩

/-- **Advice**: in the declaration nothing is misplaced. In any other arrangement a method is, and
moving it from where it is declared, by what is reported, makes the declaration agree with the
arrangement down to that method, one index further than before. -/
theorem firstMisplaced_advises (reached : Reachable graph arrangement) :
    (arrangement = initial graph → arrangement.firstMisplaced? = none) ∧
    (arrangement ≠ initial graph → ∃ misplaced spot,
      arrangement.firstMisplaced? = some misplaced ∧
      Advises graph arrangement misplaced spot) := by
  obtain ⟨order, horder, rfl⟩ := reached.exists_order
  rw [initial_eq_ofOrder]
  constructor
  · intro hsame
    exact (firstMisplaced?_ofOrder_eq_none horder).mpr (congrArg Arrangement.order hsame)
  · intro hother
    have hne : order ≠ List.range order.length := by
      rw [horder.length_eq]
      exact fun hrange => hother (by rw [hrange])
    obtain ⟨spot, id, haway⟩ := exists_firstAway_of_ne hne
    obtain ⟨misplaced, hmisplaced, hadvises⟩ := advises_of_firstAway haway horder
    exact ⟨misplaced, spot, hmisplaced, hadvises⟩

/-- The last method stands second. From the declaration it goes up by four indices, after which two
methods are in place where there was one. -/
theorem firstMisplaced_advises_switchboard :
    let start := ofOrder switchboardGraph [0, 5, 3, 1, 4, 2]
    Reachable switchboardGraph start ∧ start ≠ initial switchboardGraph ∧
      (initial switchboardGraph).firstMisplaced? = none ∧
      ∃ misplaced, start.firstMisplaced? = some misplaced ∧ misplaced.signature = "audit()" ∧
        misplaced.line = 50 ∧ misplaced.shift = 4 ∧ Advises switchboardGraph start misplaced 1 ∧
        ∃ moved, (initial switchboardGraph).move 5 (-4) = .ok moved ∧
          moved.order = [0, 5, 1, 2, 3, 4] ∧ AgreesBefore 2 moved start := by
  intro start
  have reached : Reachable switchboardGraph start := reachable_ofOrder (by decide)
  have hother : start ≠ initial switchboardGraph := fun hsame =>
    absurd (congrArg Arrangement.order hsame) (by decide)
  obtain ⟨misplaced, spot, hmisplaced, hadvises⟩ := (firstMisplaced_advises reached).2 hother
  have hfound : start.firstMisplaced? = some ⟨5, "audit()", 50, 4⟩ := by rfl
  obtain rfl := Option.some.inj (hmisplaced.symm.trans hfound)
  obtain rfl : 1 = spot := Except.ok.inj hadvises.stands
  obtain ⟨moved, hmoved, hagrees⟩ := hadvises.followed
  refine ⟨reached, hother, (firstMisplaced_advises .initial).1 rfl, _, hmisplaced, rfl, rfl, rfl,
    hadvises, moved, hmoved, ?_, hagrees⟩
  have hmove : (initial switchboardGraph).move 5 (-4) =
      .ok (ofOrder switchboardGraph [0, 5, 1, 2, 3, 4]) := by rfl
  obtain rfl := Except.ok.inj (hmoved.symm.trans hmove)
  rfl

end Arrangement

end ClassLayout

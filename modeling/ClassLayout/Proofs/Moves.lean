import ClassLayout.Proofs.Arrangement
import ClassLayout.Proofs.Resolution

/-!
# ClassLayout.Proofs.Moves

A method that is moved is taken out of the order and put back elsewhere: `place order id index`.
What is left without the method is the same before and after (`erase_place`), so a second move
starts from where the first one did, and only the last place counts (`place_place`). Hence moves
add up.

Other changes than moves keep some of the methods in their order, too. `KeepsOrder` is what this
means for the places of the methods, and `keepsOrder_of_filter_eq` how it is seen from the orders.

What a move does to the places is said once, by `MovesTo`: the method comes to stand at its target,
and every other index goes where `remap` sends it. All that a move changes follows from this.

An order can also be given as a whole (`reorder_takes_orders`).
-/

namespace ClassLayout.Arrangement

variable {graph : CallGraph} {order other : List Nat} {id index : Nat}

/-! ## Places -/

/-- Where a method stands can be read off the order. -/
theorem position_of_getElem? (horder : graph.IsOrder order) (h : order[index]? = some id) :
    (ofOrder graph order).position id = index := by
  rw [position_ofOrder horder (horder.mem_iff.mp (List.mem_of_getElem? h))]
  exact idxOf_of_getElem? horder.nodup h

theorem getElem?_position (horder : graph.IsOrder order) (hid : id < graph.size) :
    order[(ofOrder graph order).position id]? = some id := by
  rw [position_ofOrder horder hid, List.getElem?_idxOf (horder.mem_iff.mpr hid)]

/-- At every index there is a method. -/
theorem exists_position_eq (horder : graph.IsOrder order) (hindex : index < graph.size) :
    ∃ id < graph.size, (ofOrder graph order).position id = index := by
  have hlt : index < order.length := by rwa [horder.length_eq]
  exact ⟨order[index], horder.mem_iff.mp (List.getElem_mem hlt),
    position_of_getElem? horder (List.getElem?_eq_getElem hlt)⟩

theorem position_split (horder : graph.IsOrder (front ++ id :: rest)) :
    (ofOrder graph (front ++ id :: rest)).position id = front.length :=
  position_of_getElem? horder (by simp)

/-! ## Relative order -/

/-- Of two methods that satisfy `p`, the same one comes first in both arrangements. -/
def KeepsOrder (p : Nat → Prop) (before after : Arrangement) : Prop :=
  ∀ a < before.size, ∀ b < before.size, p a → p b →
    (after.position a < after.position b ↔ before.position a < before.position b)

/-- Methods keep their order if the others can be left out of both orders to the same effect. -/
theorem keepsOrder_of_filter_eq {p : Nat → Prop} (kept : Nat → Bool) (horder : graph.IsOrder order)
    (hother : graph.IsOrder other) (hkept : ∀ id, p id → kept id = true)
    (hfilter : other.filter kept = order.filter kept) :
    KeepsOrder p (ofOrder graph order) (ofOrder graph other) := by
  intro a ha b hb hpa hpb
  rw [size_ofOrder, horder.length_eq] at ha hb
  rw [position_ofOrder hother ha, position_ofOrder hother hb, position_ofOrder horder ha,
    position_ofOrder horder hb]
  have hpa := hkept a hpa
  have hpb := hkept b hpb
  calc other.idxOf a < other.idxOf b
    _ ↔ (other.filter kept).idxOf a < (other.filter kept).idxOf b :=
        ⟨idxOf_filter_lt hpa hpb (hother.mem_iff.mpr ha), idxOf_lt_of_filter hpa hpb⟩
    _ ↔ (order.filter kept).idxOf a < (order.filter kept).idxOf b := by rw [hfilter]
    _ ↔ order.idxOf a < order.idxOf b :=
        ⟨idxOf_lt_of_filter hpa hpb, idxOf_filter_lt hpa hpb (horder.mem_iff.mpr ha)⟩

/-! ## One method elsewhere -/

/-- The order in which one method is at the given index and the others are as they were. -/
def place (order : List Nat) (id index : Nat) : List Nat :=
  (order.erase id).insertIdx index id

section Place

variable (hnodup : order.Nodup) (hid : id ∈ order) (hindex : index < order.length)
include hid hindex

theorem le_length_erase : index ≤ (order.erase id).length := by
  rw [List.length_erase_of_mem hid]
  omega

theorem place_perm : (place order id index).Perm order :=
  (List.perm_insertIdx id _ (le_length_erase hid hindex)).trans (List.perm_cons_erase hid).symm

theorem getElem?_place_self : (place order id index)[index]? = some id := by
  simp [place, List.getElem?_insertIdx_self, le_length_erase hid hindex]

include hnodup

theorem idxOf_place : (place order id index).idxOf id = index :=
  idxOf_of_getElem? ((place_perm hid hindex).nodup_iff.mpr hnodup) (getElem?_place_self hid hindex)

/-- Without the method that is placed, nothing has changed. -/
theorem erase_place : (place order id index).erase id = order.erase id := by
  rw [← List.eraseIdx_idxOf_eq_erase, idxOf_place hnodup hid hindex, place,
    List.eraseIdx_insertIdx_self]

theorem filter_place :
    (place order id index).filter (· != id) = order.filter (· != id) := by
  have hplaced := (place_perm hid hindex).nodup_iff.mpr hnodup
  rw [← hplaced.erase_eq_filter, erase_place hnodup hid hindex, hnodup.erase_eq_filter]

/-- Only the last place of a method counts. -/
theorem place_place (target : Nat) :
    place (place order id index) id target = place order id target := by
  rw [place, erase_place hnodup hid hindex, place]

end Place

/-- A method that goes up leaves alone what stands above its new place. -/
theorem getElem?_place_of_lt {target : Nat} (hup : target ≤ order.idxOf id)
    (hindex : index < target) :
    (place order id target)[index]? = order[index]? := by
  rw [place, List.getElem?_insertIdx_of_lt hindex, ← List.eraseIdx_idxOf_eq_erase,
    List.getElem?_eraseIdx_of_lt (by omega)]

/-- A method that is put back where it was has not moved. -/
theorem place_idxOf (hid : id ∈ order) : place order id (order.idxOf id) = order := by
  have hback := List.insertIdx_eraseIdx_getElem (List.idxOf_lt_length_of_mem hid)
  rwa [List.getElem_idxOf, List.eraseIdx_idxOf_eq_erase] at hback

/-- Where the method at an index stands once the one at `origin` has been placed at `target`: the
methods in between make room, each by one index. -/
def remap (origin target index : Nat) : Nat :=
  if index = origin then target
  else if origin < index ∧ index ≤ target then index - 1
  else if target ≤ index ∧ index < origin then index + 1
  else index

theorem remap_lt_remap_iff {origin target index other : Nat} (hne : index ≠ origin)
    (hne' : other ≠ origin) :
    remap origin target index < remap origin target other ↔ index < other := by
  simp only [remap, if_neg hne, if_neg hne']
  grind

/-- What stood at an index is found where `remap` says. -/
theorem getElem?_place_remap {target : Nat} (hid : id ∈ order) (htarget : target < order.length)
    (index : Nat) :
    (place order id target)[remap (order.idxOf id) target index]? = order[index]? := by
  by_cases hself : index = order.idxOf id
  · rw [hself, remap, if_pos rfl, getElem?_place_self hid htarget, List.getElem?_idxOf hid]
  · have horigin := List.idxOf_lt_length_of_mem hid
    rw [place, ← List.eraseIdx_idxOf_eq_erase]
    simp only [List.getElem?_insertIdx, List.getElem?_eraseIdx, remap]
    grind

section PlaceOrder

variable {target : Nat} (horder : graph.IsOrder order) (hid : id < graph.size)
  (htarget : target < graph.size)
include horder hid htarget

theorem place_isOrder : graph.IsOrder (place order id target) :=
  (place_perm (horder.mem_iff.mpr hid) (by rwa [horder.length_eq])).trans horder

theorem position_place {which : Nat} (hwhich : which < graph.size) :
    (ofOrder graph (place order id target)).position which =
      remap ((ofOrder graph order).position id) target ((ofOrder graph order).position which) := by
  have hlength : target < order.length := by rwa [horder.length_eq]
  have hfound := getElem?_place_remap (horder.mem_iff.mpr hid) hlength
    ((ofOrder graph order).position which)
  rw [getElem?_position horder hwhich] at hfound
  rw [position_ofOrder horder hid]
  exact position_of_getElem? (place_isOrder horder hid htarget) hfound

end PlaceOrder

/-! ## Moves -/

/-- A move puts the method so many indices away, if there is such an index. -/
theorem move_ofOrder (horder : graph.IsOrder order) (hid : id < graph.size) (shift : Int) :
    (ofOrder graph order).move id shift =
      if 0 ≤ order.idxOf id + shift ∧ order.idxOf id + shift < order.length then
        .ok (ofOrder graph (place order id (order.idxOf id + shift).toNat))
      else .error (.indexOutOfRange (order.idxOf id) shift order.length) := by
  have hindex := (indexOf_ofOrder_eq_ok horder).mpr ⟨hid, rfl⟩
  by_cases hrange : 0 ≤ order.idxOf id + shift ∧ order.idxOf id + shift < order.length
  · rw [if_pos hrange, move_eq_ok]
    refine ⟨order.idxOf id, hindex, hrange, ?_⟩
    rw [withOrder_ofOrder, order_ofOrder, List.eraseIdx_idxOf_eq_erase, place]
  · rw [if_neg hrange]
    simp only [move, hindex, bind, Except.bind]
    rw [if_pos, size_ofOrder]
    rw [Bool.or_eq_true, decide_eq_true_iff, decide_eq_true_iff, size_ofOrder]
    omega

/-- What it means to move a method to an index: it stands there, and the methods in between have made
room. -/
structure MovesTo (graph : CallGraph) (id target : Nat) (before after : Arrangement) : Prop where
  id_lt : id < graph.size
  target_lt : target < graph.size
  start : Reachable graph before
  result : Reachable graph after
  position : ∀ other < graph.size,
    after.position other = remap (before.position id) target (before.position other)

theorem movesTo_place {target : Nat} (horder : graph.IsOrder order) (hid : id < graph.size)
    (htarget : target < graph.size) :
    MovesTo graph id target (ofOrder graph order) (ofOrder graph (place order id target)) :=
  ⟨hid, htarget, reachable_ofOrder horder, reachable_ofOrder (place_isOrder horder hid htarget),
    fun _ => position_place horder hid htarget⟩

/-- A move leads to an index, and nowhere else. -/
theorem Reachable.movesTo (reached : Reachable graph arrangement)
    (hmoved : arrangement.move id shift = .ok after) :
    ∃ target : Nat, (target : Int) = arrangement.position id + shift ∧
      MovesTo graph id target arrangement after := by
  obtain ⟨order, horder, rfl⟩ := reached.exists_order
  obtain ⟨index, hindex, -⟩ := move_eq_ok.mp hmoved
  obtain ⟨hid, rfl⟩ := (indexOf_ofOrder_eq_ok horder).mp hindex
  rw [move_ofOrder horder hid, horder.length_eq] at hmoved
  split at hmoved
  · next hrange =>
      obtain rfl := Except.ok.inj hmoved
      rw [position_ofOrder horder hid]
      exact ⟨(order.idxOf id + shift).toNat, by omega, movesTo_place horder hid (by omega)⟩
  · contradiction

/-- A move can lead to any index. -/
theorem Reachable.exists_movesTo {target : Nat} (reached : Reachable graph arrangement)
    (hid : id < graph.size) (htarget : target < graph.size) :
    ∃ after, arrangement.move id ((target : Int) - arrangement.position id) = .ok after ∧
      MovesTo graph id target arrangement after := by
  obtain ⟨order, horder, rfl⟩ := reached.exists_order
  refine ⟨_, ?_, movesTo_place horder hid htarget⟩
  rw [move_ofOrder horder hid, position_ofOrder horder hid, horder.length_eq, if_pos (by omega),
    show ((order.idxOf id : Int) + (target - order.idxOf id)).toNat = target by omega]

namespace MovesTo

variable {target other : Nat} {before after : Arrangement}
  (h : MovesTo graph id target before after)
include h

theorem position_self : after.position id = target := by
  rw [h.position id h.id_lt, remap, if_pos rfl]

theorem position_ne (hother : other < graph.size) (hne : other ≠ id) :
    before.position other ≠ before.position id := by
  rwa [Ne, h.start.position_inj hother h.id_lt]

/-- The methods that are not moved keep their order. -/
theorem keepsOrder : KeepsOrder (· ≠ id) before after := by
  intro a ha b hb hne hne'
  rw [h.start.size_eq] at ha hb
  rw [h.position a ha, h.position b hb]
  exact remap_lt_remap_iff (h.position_ne ha hne) (h.position_ne hb hne')

end MovesTo

theorem move_zero (horder : graph.IsOrder order) (hid : id < graph.size) :
    (ofOrder graph order).move id 0 = .ok (ofOrder graph order) := by
  have hmem : id ∈ order := horder.mem_iff.mpr hid
  have hlt := List.idxOf_lt_length_of_mem hmem
  rw [move_ofOrder horder hid, if_pos (by omega), Int.add_zero, Int.toNat_natCast,
    place_idxOf hmem]

/-- Moving by `a` and then by `b` is moving by `a + b`. -/
theorem move_move (horder : graph.IsOrder order) (hid : id < graph.size) {a : Int}
    (hmoved : (ofOrder graph order).move id a = .ok after) (b : Int) :
    after.move id b = .ok final ↔ (ofOrder graph order).move id (a + b) = .ok final := by
  have hmem : id ∈ order := horder.mem_iff.mpr hid
  rw [move_ofOrder horder hid] at hmoved
  split at hmoved
  · next hrange =>
      have hindex : (order.idxOf id + a).toNat < order.length := by omega
      have hplaced := place_perm hmem hindex
      obtain rfl := Except.ok.inj hmoved
      rw [move_ofOrder horder hid, move_ofOrder (hplaced.trans horder) hid, hplaced.length_eq,
        idxOf_place horder.nodup hmem hindex, place_place horder.nodup hmem hindex,
        show ((order.idxOf id + a).toNat : Int) + b = order.idxOf id + (a + b) by omega]
      by_cases hsum : 0 ≤ order.idxOf id + (a + b) ∧ order.idxOf id + (a + b) < order.length
      · simp [hsum]
      · simp [hsum]
  · contradiction

/-- **Moves add up**: a method can be moved to the indices that there are and to no others. There it
stands while the others keep their order. What a second move does is what one move by the sum would
have done, so moving a method back restores the arrangement. -/
theorem moves_add_up (reached : Reachable graph arrangement)
    (hindex : arrangement.indexOf id = .ok index) (a b : Int) :
    ((∃ after, arrangement.move id a = .ok after) ↔
      0 ≤ index + a ∧ index + a < arrangement.size) ∧
    (¬ (0 ≤ index + a ∧ index + a < arrangement.size) →
      arrangement.move id a = .error (.indexOutOfRange index a arrangement.size)) ∧
    ∀ after, arrangement.move id a = .ok after →
      after.indexOf id = .ok (index + a).toNat ∧
      KeepsOrder (· ≠ id) arrangement after ∧
      (∀ final, after.move id b = .ok final ↔ arrangement.move id (a + b) = .ok final) ∧
      after.move id (-a) = .ok arrangement := by
  obtain ⟨order, horder, rfl⟩ := reached.exists_order
  obtain ⟨hid, rfl⟩ := (indexOf_ofOrder_eq_ok horder).mp hindex
  have hmem : id ∈ order := horder.mem_iff.mpr hid
  have hmove := move_ofOrder horder hid a
  rw [size_ofOrder]
  by_cases hrange : 0 ≤ order.idxOf id + a ∧ order.idxOf id + a < order.length
  · rw [if_pos hrange] at hmove
    refine ⟨⟨fun _ => hrange, fun _ => ⟨_, hmove⟩⟩, fun hout => absurd hrange hout, ?_⟩
    intro after hafter
    obtain rfl := Except.ok.inj (hmove.symm.trans hafter)
    have hlt : (order.idxOf id + a).toNat < order.length := by omega
    have hplaced := (place_perm hmem hlt).trans horder
    refine ⟨?_, ?_, fun final => move_move horder hid hafter b, ?_⟩
    · rw [indexOf_ofOrder_eq_ok hplaced, idxOf_place horder.nodup hmem hlt]
      exact ⟨hid, rfl⟩
    · exact keepsOrder_of_filter_eq (· != id) horder hplaced (fun _ hne => bne_iff_ne.mpr hne)
        (filter_place horder.nodup hmem hlt)
    · rw [move_move horder hid hafter, Int.add_right_neg]
      exact move_zero horder hid
  · rw [if_neg hrange] at hmove
    simp [hmove, hrange]

/-- From the middle to the end and back up to the front: the same as one step up. -/
theorem moves_add_up_mailer :
    let start := ofOrder mailerGraph [2, 0, 1]
    Reachable mailerGraph start ∧ start.indexOf 0 = .ok 1 ∧
      start.move 0 2 = .error (.indexOutOfRange 1 2 3) ∧
      ∃ down up, start.move 0 1 = .ok down ∧ down.order = [2, 1, 0] ∧
        KeepsOrder (· ≠ 0) start down ∧ down.move 0 (-1) = .ok start ∧
        down.move 0 (-2) = .ok up ∧ start.move 0 (-1) = .ok up ∧ up.order = [0, 2, 1] := by
  have reached : Reachable mailerGraph (ofOrder mailerGraph [2, 0, 1]) :=
    reachable_ofOrder (by decide)
  have hindex : (ofOrder mailerGraph [2, 0, 1]).indexOf 0 = .ok 1 := by rfl
  have hdown : (ofOrder mailerGraph [2, 0, 1]).move 0 1 =
      .ok (ofOrder mailerGraph [2, 1, 0]) := by rfl
  have hup : (ofOrder mailerGraph [2, 0, 1]).move 0 (-1) =
      .ok (ofOrder mailerGraph [0, 2, 1]) := by rfl
  obtain ⟨-, hrefused, -⟩ := moves_add_up reached hindex 2 0
  obtain ⟨-, -, hmoved⟩ := moves_add_up reached hindex 1 (-2)
  obtain ⟨-, hkeeps, hsum, hback⟩ := hmoved _ hdown
  exact ⟨reached, hindex, hrefused (by decide), _, _, hdown, rfl, hkeeps, hback, (hsum _).mpr hup,
    hup, rfl⟩

/-! ## Given orders -/

/-- An order holds each method once and nothing else. -/
theorem isOrder_iff_count :
    graph.IsOrder order ↔ ∀ id, order.count id = if id < graph.size then 1 else 0 := by
  simp [CallGraph.IsOrder, List.perm_iff_count, List.nodup_range.count]

/-- What is no order is refused, with the names of all that was given. -/
theorem reorder_ofOrder_of_not_isOrder (horder : graph.IsOrder order)
    (hother : ¬ graph.IsOrder other) :
    (ofOrder graph order).reorder other =
      .error (.permutationMismatch (ofOrder graph order).signatures
        (other.map (ofOrder graph order).label)) := by
  rw [← isOrderOf_iff] at hother
  simp [reorder, horder.length_eq, hother]

/-- **Reordering**: a list is taken for the order exactly if it holds each method once and nothing
else. Then it is the order, whatever the methods stood like before; any other list is refused. -/
theorem reorder_takes_orders (reached : Reachable graph arrangement) (given : List Nat) :
    let once := ∀ id, given.count id = if id < arrangement.size then 1 else 0
    ((∃ after, arrangement.reorder given = .ok after) ↔ once) ∧
    (∀ after, arrangement.reorder given = .ok after →
      after.order = given ∧ after.graph = arrangement.graph) ∧
    (¬ once → arrangement.reorder given =
      .error (.permutationMismatch arrangement.signatures (given.map arrangement.label))) := by
  obtain ⟨order, horder, rfl⟩ := reached.exists_order
  simp only [size_ofOrder, horder.length_eq, ← isOrder_iff_count]
  refine ⟨?_, ?_, reorder_ofOrder_of_not_isOrder horder⟩
  · simp [reorder_ofOrder_eq_ok horder]
  · intro after hafter
    obtain ⟨-, rfl⟩ := (reorder_ofOrder_eq_ok horder).mp hafter
    simp

/-- A repetition, a method too few and a number too many, one as bad as the other. -/
theorem reorder_takes_orders_mailer :
    let start := ofOrder mailerGraph [2, 1, 0]
    let current := ["log(String)", "render(int)", "send()"]
    Reachable mailerGraph start ∧
      (∃ after, start.reorder [1, 2, 0] = .ok after ∧ after.order = [1, 2, 0]) ∧
      start.reorder [0, 0, 1] =
        .error (.permutationMismatch current ["send()", "send()", "render(int)"]) ∧
      start.reorder [0, 1] = .error (.permutationMismatch current ["send()", "render(int)"]) ∧
      start.reorder [0, 1, 2, 9] =
        .error (.permutationMismatch current ["send()", "render(int)", "log(String)", "#9"]) := by
  intro start current
  have reached : Reachable mailerGraph start := reachable_ofOrder (by decide)
  have honce : mailerGraph.IsOrder [1, 2, 0] := by decide
  obtain ⟨htaken, horder, -⟩ := reorder_takes_orders reached [1, 2, 0]
  obtain ⟨after, hafter⟩ := htaken.mpr (isOrder_iff_count.mp honce)
  refine ⟨reached, ⟨after, hafter, (horder after hafter).1⟩, ?_, ?_, ?_⟩
  · exact (reorder_takes_orders reached _).2.2 fun honce => absurd (honce 0) (by decide)
  · exact (reorder_takes_orders reached _).2.2 fun honce => absurd (honce 2) (by decide)
  · exact (reorder_takes_orders reached _).2.2 fun honce => absurd (honce 9) (by decide)

end ClassLayout.Arrangement

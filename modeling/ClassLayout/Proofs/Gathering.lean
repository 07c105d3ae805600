import ClassLayout.Proofs.BreadthFirst
import ClassLayout.Proofs.Metrics
import ClassLayout.Proofs.Moves

/-!
# ClassLayout.Proofs.Gathering

What it means for an arrangement that a group is gathered. Split the order at the last member of
the group, `front ++ last :: rest`. There are no members in `rest`, and gathering sorts `front`:

```
gather group front ++ last :: rest
```

where the members come behind the others (`Split.gatherGroup_eq_some`). This is a split at the last
member again, and sorting once more changes nothing. The members are now the methods whose indices
lie between the number of the others in `front` and the index of `last` (`Split.mem_group_iff`).
-/

namespace ClassLayout.Proposal

open Arrangement

variable {graph : CallGraph} {group order front rest : List Nat} {last id : Nat}

/-! ## The last member -/

theorem lastMember?_eq_none : lastMember? arrangement group = none ↔ group = [] := by
  cases group with
  | nil => simp [lastMember?]
  | cons id group =>
      simp only [lastMember?, reduceCtorEq, iff_false]
      cases lastMember? arrangement group with
      | none => simp
      | some other =>
          by_cases hid : arrangement.position other < arrangement.position id
          · simp [hid]
          · simp [hid]

/-- No member stands after the last member. -/
theorem position_le_of_lastMember? (h : lastMember? arrangement group = some last)
    (hid : id ∈ group) : arrangement.position id ≤ arrangement.position last := by
  induction group generalizing last with
  | nil => contradiction
  | cons first group ih =>
      rw [lastMember?] at h
      cases hother : lastMember? arrangement group with
      | none =>
          obtain rfl := lastMember?_eq_none.mp hother
          simp_all [lastMember?]
      | some other =>
          rw [hother] at h
          have hle := ih hother
          by_cases hfirst : arrangement.position other < arrangement.position first
          · simp only [if_pos hfirst, Option.some.injEq] at h
            grind
          · simp only [if_neg hfirst, Option.some.injEq] at h
            grind

/-! ## The gathered order -/

/-- A list with the members of the group behind the others, both in the order they had. -/
def gather (group front : List Nat) : List Nat :=
  front.filter (· ∉ group) ++ front.filter (· ∈ group)

theorem gather_perm (group front : List Nat) : (gather group front).Perm front := by
  simpa [gather] using List.perm_append_comm.trans (List.filter_append_perm (· ∈ group) front)

theorem length_gather (group front : List Nat) : (gather group front).length = front.length :=
  (gather_perm group front).length_eq

theorem filter_gather (group front : List Nat) :
    (gather group front).filter (· ∈ group) = front.filter (· ∈ group) ∧
      (gather group front).filter (· ∉ group) = front.filter (· ∉ group) := by
  simp [gather]

theorem gather_gather (group front : List Nat) :
    gather group (gather group front) = gather group front := by
  rw [gather, (filter_gather group front).1, (filter_gather group front).2, gather]

/-- An order of the methods is split at the last member of a group. -/
structure Split (graph : CallGraph) (group front : List Nat) (last : Nat) (rest : List Nat) :
    Prop where
  isOrder : graph.IsOrder (front ++ last :: rest)
  valid : ∀ id ∈ group, id < graph.size
  last_mem : last ∈ group
  rest_not_mem : ∀ id ∈ rest, id ∉ group

/-- Every order can be split so. -/
theorem exists_split (horder : graph.IsOrder order) (hvalid : ∀ id ∈ group, id < graph.size)
    (hne : group ≠ []) :
    ∃ front last rest, order = front ++ last :: rest ∧ Split graph group front last rest := by
  cases hlast : lastMember? (ofOrder graph order) group with
  | none => exact absurd (lastMember?_eq_none.mp hlast) hne
  | some last =>
      have hmem := mem_of_lastMember? hlast
      obtain ⟨front, rest, rfl⟩ := List.append_of_mem (horder.mem_iff.mpr (hvalid last hmem))
      refine ⟨front, last, rest, rfl, horder, hvalid, hmem, ?_⟩
      intro id hrest hid
      have hle := position_le_of_lastMember? hlast hid
      rw [position_ofOrder horder (hvalid id hid),
        position_ofOrder horder (hvalid last hmem)] at hle
      exact Nat.not_lt_of_le hle ((mem_after_iff rfl horder.nodup).mp hrest).2

namespace Split

theorem lastMember?_eq_some (h : Split graph group front last rest) :
    lastMember? (ofOrder graph (front ++ last :: rest)) group = some last := by
  cases hother : lastMember? (ofOrder graph (front ++ last :: rest)) group with
  | none =>
      have hlast := h.last_mem
      rw [lastMember?_eq_none.mp hother] at hlast
      contradiction
  | some other =>
      have hmem := mem_of_lastMember? hother
      have hle := position_le_of_lastMember? hother h.last_mem
      rw [position_ofOrder h.isOrder (h.valid last h.last_mem),
        position_ofOrder h.isOrder (h.valid other hmem)] at hle
      have hin : other ∈ front ++ last :: rest := h.isOrder.mem_iff.mpr (h.valid other hmem)
      have hbehind : ¬ (front ++ last :: rest).idxOf last < (front ++ last :: rest).idxOf other :=
        fun hlt => h.rest_not_mem other ((mem_after_iff rfl h.isOrder.nodup).mpr ⟨hin, hlt⟩) hmem
      have hsame : other = last := (List.idxOf_inj hin).mp (by omega)
      rw [hsame]

/-- Gathering sorts what is in front of the last member. -/
theorem gatherGroup_eq_some (h : Split graph group front last rest) (hlength : 2 ≤ group.length) :
    gatherGroup (ofOrder graph (front ++ last :: rest)) group =
      some (gather group front ++ last :: rest) := by
  have hmoved : rest.filter group.contains = [] := by simpa using h.rest_not_mem
  have hkept : (rest.filter fun id => !group.contains id) = rest := by
    simpa using h.rest_not_mem
  have hcontains : group.contains = fun id => decide (id ∈ group) :=
    funext fun id => List.contains_eq_mem id group
  rw [gatherGroup_eq h.isOrder.nodup h.lastMember?_eq_some hlength, hmoved, hkept]
  simp [gather, hcontains]

/-- The gathered order is split at the same member. -/
theorem gather_front (h : Split graph group front last rest) :
    Split graph group (gather group front) last rest :=
  { h with isOrder := ((gather_perm group front).append_right _).trans h.isOrder }

/-- In the gathered order the members are the methods from a certain index on, up to the last
member. -/
theorem mem_group_iff (h : Split graph group front last rest) (hid : id < graph.size) :
    id ∈ group ↔
      (front.filter (· ∉ group)).length ≤ (gather group front ++ last :: rest).idxOf id ∧
        (gather group front ++ last :: rest).idxOf id ≤ front.length := by
  have hin : id ∈ front ++ last :: rest := h.isOrder.mem_iff.mpr hid
  have hlast := h.last_mem
  have hrest := h.rest_not_mem
  have hsplit : gather group front ++ last :: rest =
      front.filter (· ∉ group) ++ ((front.filter (· ∈ group) ++ [last]) ++ rest) := by
    simp [gather]
  have hlength := length_gather group front
  rw [gather, List.length_append] at hlength
  by_cases hmem : id ∈ group
  · have hothers : id ∉ front.filter (· ∉ group) := by simp [hmem]
    have hmembers : id ∈ front.filter (· ∈ group) ++ [last] := by grind
    have hlt := List.idxOf_lt_length_of_mem hmembers
    rw [List.length_append, List.length_singleton] at hlt
    rw [hsplit, List.idxOf_append_of_notMem hothers, List.idxOf_append_of_mem hmembers]
    simp only [hmem, true_iff]
    omega
  · have hmembers : id ∉ front.filter (· ∈ group) ++ [last] := by grind
    by_cases hothers : id ∈ front.filter (· ∉ group)
    · have hlt := List.idxOf_lt_length_of_mem hothers
      rw [hsplit, List.idxOf_append_of_mem hothers]
      simp only [hmem, false_iff]
      omega
    · rw [hsplit, List.idxOf_append_of_notMem hothers, List.idxOf_append_of_notMem hmembers,
        List.length_append, List.length_singleton]
      simp only [hmem, false_iff]
      omega

end Split

/-! ## What gathering does -/

/-- What has happened when a group has been gathered. -/
structure Gathered (group : List Nat) (last : Nat) (before after : Arrangement) : Prop where
  mem : last ∈ group
  /-- Of the members, `last` is the one with the highest index. -/
  highest : ∀ id ∈ group, before.position id ≤ before.position last
  /-- It keeps that index. -/
  stays : after.position last = before.position last
  /-- From any member on there are only members, down to the last one. -/
  together : ∀ id ∈ group, ∀ other < before.size, after.position id ≤ after.position other →
    after.position other ≤ after.position last → other ∈ group
  members : KeepsOrder (· ∈ group) before after
  others : KeepsOrder (· ∉ group) before after
  /-- Below the last member everything is as it was. -/
  below : ∀ index, before.position last < index → after.order[index]? = before.order[index]?

/-- Sorting what is in front of the last member has gathered the group. -/
theorem Split.gathered (h : Split graph group front last rest) :
    Gathered group last (ofOrder graph (front ++ last :: rest))
      (ofOrder graph (gather group front ++ last :: rest)) := by
  have hlength := length_gather group front
  have hbefore := position_split h.isOrder
  have hafter := position_split h.gather_front.isOrder
  rw [hlength] at hafter
  constructor
  · exact h.last_mem
  · intro id hid
    exact position_le_of_lastMember? h.lastMember?_eq_some hid
  · rw [hbefore, hafter]
  · intro id hid other hsize hle hle'
    rw [size_ofOrder, h.isOrder.length_eq] at hsize
    rw [position_ofOrder h.gather_front.isOrder (h.valid id hid),
      position_ofOrder h.gather_front.isOrder hsize] at hle
    rw [hafter, position_ofOrder h.gather_front.isOrder hsize] at hle'
    have hplace := (h.mem_group_iff (h.valid id hid)).mp hid
    exact (h.mem_group_iff hsize).mpr ⟨hplace.1.trans hle, hle'⟩
  · refine keepsOrder_of_filter_eq (· ∈ group) h.isOrder h.gather_front.isOrder (by simp) ?_
    rw [List.filter_append, List.filter_append, (filter_gather group front).1]
  · refine keepsOrder_of_filter_eq (· ∉ group) h.isOrder h.gather_front.isOrder (by simp) ?_
    rw [List.filter_append, List.filter_append, (filter_gather group front).2]
  · intro index hindex
    rw [hbefore] at hindex
    rw [order_ofOrder, order_ofOrder, List.getElem?_append_right (by omega),
      List.getElem?_append_right (by omega), hlength]

/-- A gathered group is not split. -/
theorem Split.splitOf_eq_zero (h : Split graph group front last rest) :
    (ofOrder graph (gather group front ++ last :: rest)).splitOf group = 0 := by
  -- each of the places is taken by another member, so there are no more of them than members
  have hfits : (front.filter (· ∈ group) ++ [last]).length ≤ group.length := by
    have hsub : List.Sublist (front.filter (· ∈ group) ++ [last]) (front ++ last :: rest) :=
      List.filter_sublist.append (List.Sublist.cons_cons last (List.nil_sublist rest))
    have hmembers : front.filter (· ∈ group) ++ [last] ⊆ group := by
      have hlast := h.last_mem
      intro id hid
      grind
    exact (List.subperm_of_subset (h.isOrder.nodup.sublist hsub) hmembers).length_le
  have hlength := length_gather group front
  rw [gather, List.length_append] at hlength
  rw [List.length_append, List.length_singleton] at hfits
  refine groupSplit_eq_zero (front.filter (· ∉ group)).length ?_
  intro index hindex
  obtain ⟨id, hid, rfl⟩ := List.mem_map.mp hindex
  have hplace := (h.mem_group_iff (h.valid id hid)).mp hid
  rw [List.length_map, position_ofOrder h.gather_front.isOrder (h.valid id hid)]
  omega

/-! ## Results -/

/-- **Gathering a group**: the last member keeps its place and the others come right before it, in
the order they had; the methods that are no members keep their order, too, and what is behind the
last member stays where it is. So the group is not split, and gathering it again changes nothing. -/
theorem gatherGroup_gathers (reached : Reachable graph arrangement) (hlength : 2 ≤ group.length)
    (hgroup : ∀ id ∈ group, id < graph.size) :
    ∃ after last, gatherGroup arrangement group = some after.order ∧
      arrangement.reorder after.order = .ok after ∧
      Gathered group last arrangement after ∧
      after.splitOf group = 0 ∧
      gatherGroup after group = some after.order := by
  obtain ⟨order, horder, rfl⟩ := reached.exists_order
  have hne : group ≠ [] := List.ne_nil_of_length_pos (by omega)
  obtain ⟨front, last, rest, rfl, hsplit⟩ := exists_split horder hgroup hne
  refine ⟨ofOrder graph (gather group front ++ last :: rest), last, ?_, ?_, ?_, ?_, ?_⟩
  · exact hsplit.gatherGroup_eq_some hlength
  · exact (reorder_ofOrder_eq_ok horder).mpr ⟨hsplit.gather_front.isOrder, rfl⟩
  · exact hsplit.gathered
  · exact hsplit.splitOf_eq_zero
  · rw [hsplit.gather_front.gatherGroup_eq_some hlength, gather_gather, order_ofOrder]

/-- Two methods move down to `connect`, which the group names twice. -/
theorem gatherGroup_gathers_switchboard :
    let start := ofOrder switchboardGraph [5, 4, 3, 2, 1, 0]
    Reachable switchboardGraph start ∧ (∀ id ∈ [1, 4, 1, 5], id < switchboardGraph.size) ∧
      start.splitOf [1, 4, 1, 5] = 1 ∧
      ∃ after, after.order = [3, 2, 5, 4, 1, 0] ∧ start.reorder after.order = .ok after ∧
        Gathered [1, 4, 1, 5] 1 start after ∧ after.splitOf [1, 4, 1, 5] = 0 ∧
        gatherGroup after [1, 4, 1, 5] = some after.order := by
  intro start
  have reached : Reachable switchboardGraph start := reachable_ofOrder (by decide)
  have hgroup : ∀ id ∈ [1, 4, 1, 5], id < switchboardGraph.size := by decide
  obtain ⟨after, last, hproposed, haccepted, hgathered, hsplit, hagain⟩ :=
    gatherGroup_gathers reached (show 2 ≤ [1, 4, 1, 5].length by decide) hgroup
  have horder : gatherGroup start [1, 4, 1, 5] = some [3, 2, 5, 4, 1, 0] := by decide
  have hbelow : ∀ id ∈ [1, 4, 1, 5], start.position 1 ≤ start.position id → id = 1 := by decide
  obtain rfl := hbelow last hgathered.mem (hgathered.highest 1 (by decide))
  refine ⟨reached, hgroup, by decide, after, ?_, haccepted, hgathered, hsplit, hagain⟩
  rw [horder] at hproposed
  exact (Option.some.inj hproposed).symm

end ClassLayout.Proposal

import ClassLayout.Proofs.Metrics
import ClassLayout.Proofs.Moves
import Mathlib.Data.Finset.Max
import Mathlib.Order.Interval.Finset.Nat

/-!
# ClassLayout.Proofs.Cohesion

What the split of a group counts. The places from the first member of a group to the last are taken
by members and by *intruders*, methods that are no members, and each place by one of them
(`length_add_card_intruders`). So the split, which is the number of these places less that of the
members, is the number of intruders.

If there are none, the members are as many as these places, so they are all that stands there: a
piece of the order (`contiguous_of_splitOf_eq_zero`).
-/

namespace ClassLayout

open Finset (range)

/-- Different indices fill the places from `first` to `last` together with the gaps between them. -/
theorem length_add_card_gaps {indices : List Nat} {first last : Nat} (hnodup : indices.Nodup)
    (hwithin : ∀ index ∈ indices, first ≤ index ∧ index ≤ last) (hle : first ≤ last) :
    indices.length + (Finset.Icc first last \ indices.toFinset).card = last - first + 1 := by
  have hsub : indices.toFinset ⊆ Finset.Icc first last := by
    intro index hindex
    simpa using hwithin index (by simpa using hindex)
  have hcard := Finset.card_sdiff_add_card_eq_card hsub
  rw [List.toFinset_card_of_nodup hnodup, Nat.card_Icc] at hcard
  omega

namespace Arrangement

variable {graph : CallGraph} {arrangement : Arrangement} {order group : List Nat}
  {id first last : Nat}

/-! ## Members and intruders -/

/-- A member of the group stands above the method, and another one below it. -/
def Between (arrangement : Arrangement) (group : List Nat) (id : Nat) : Prop :=
  (∃ above ∈ group, arrangement.position above < arrangement.position id) ∧
    ∃ below ∈ group, arrangement.position id < arrangement.position below

instance (arrangement : Arrangement) (group : List Nat) (id : Nat) :
    Decidable (arrangement.Between group id) :=
  inferInstanceAs (Decidable (_ ∧ _))

/-- The methods that stand between members of the group and are no members. -/
def intruders (arrangement : Arrangement) (group : List Nat) : Finset Nat :=
  {id ∈ range arrangement.size | id ∉ group ∧ arrangement.Between group id}

/-- The members of the group, in some order, are a piece of the arrangement. -/
def Contiguous (arrangement : Arrangement) (group : List Nat) : Prop :=
  ∃ block, block.Perm group ∧ block <:+: arrangement.order

/-- Of the members of the group, `first` stands highest and `last` lowest. -/
structure Extends (arrangement : Arrangement) (group : List Nat) (first last : Nat) : Prop where
  first_mem : first ∈ group
  last_mem : last ∈ group
  within : ∀ id ∈ group, arrangement.position first ≤ arrangement.position id ∧
    arrangement.position id ≤ arrangement.position last

theorem exists_extends (arrangement : Arrangement) (hne : group ≠ []) :
    ∃ first last, arrangement.Extends group first last := by
  have hsome : group.toFinset.Nonempty := by simpa [List.toFinset_nonempty_iff] using hne
  obtain ⟨first, hfirst, hleast⟩ := group.toFinset.exists_min_image arrangement.position hsome
  obtain ⟨last, hlast, hgreatest⟩ := group.toFinset.exists_max_image arrangement.position hsome
  simp only [List.mem_toFinset] at hfirst hleast hlast hgreatest
  exact ⟨first, last, hfirst, hlast, fun id hid => ⟨hleast id hid, hgreatest id hid⟩⟩

namespace Extends

variable (h : arrangement.Extends group first last)
include h

theorem splitOf_eq :
    arrangement.splitOf group =
      (arrangement.position last - arrangement.position first + 1) - group.length := by
  have hmax : (group.map arrangement.position).max? = some (arrangement.position last) := by
    rw [List.max?_eq_some_iff]
    exact ⟨List.mem_map_of_mem h.last_mem, by simpa using fun id hid => (h.within id hid).2⟩
  have hmin : (group.map arrangement.position).min? = some (arrangement.position first) := by
    rw [List.min?_eq_some_iff]
    exact ⟨List.mem_map_of_mem h.first_mem, by simpa using fun id hid => (h.within id hid).1⟩
  simp [splitOf, groupSplit, hmax, hmin]

/-- What stands between members stands between the first and the last one. -/
theorem between_iff :
    arrangement.Between group id ↔ arrangement.position first < arrangement.position id ∧
      arrangement.position id < arrangement.position last := by
  constructor
  · rintro ⟨⟨above, habove, hlt⟩, below, hbelow, hlt'⟩
    exact ⟨(h.within above habove).1.trans_lt hlt, hlt'.trans_le (h.within below hbelow).2⟩
  · intro hbetween
    exact ⟨⟨first, h.first_mem, hbetween.1⟩, last, h.last_mem, hbetween.2⟩

end Extends

/-! ## Filled places -/

section Places

variable (horder : graph.IsOrder order) (hvalid : ∀ id ∈ group, id < graph.size)
include horder

theorem mem_intruders :
    id ∈ (ofOrder graph order).intruders group ↔
      id < graph.size ∧ id ∉ group ∧ (ofOrder graph order).Between group id := by
  simp [intruders, horder.length_eq]

include hvalid

theorem position_mem_map_iff (hid : id < graph.size) :
    (ofOrder graph order).position id ∈ group.map (ofOrder graph order).position ↔ id ∈ group := by
  constructor
  · intro hmem
    obtain ⟨member, hmember, hsame⟩ := List.mem_map.mp hmem
    rwa [← (position_inj horder (hvalid member hmember) hid).mp hsame]
  · exact fun hmem => List.mem_map_of_mem hmem

/-- The intruders stand in the gaps between the members. -/
theorem image_intruders (h : (ofOrder graph order).Extends group first last) :
    ((ofOrder graph order).intruders group).image (ofOrder graph order).position =
      Finset.Icc ((ofOrder graph order).position first) ((ofOrder graph order).position last) \
        (group.map (ofOrder graph order).position).toFinset := by
  have hlast := position_lt horder (hvalid last h.last_mem)
  ext index
  simp only [Finset.mem_image, mem_intruders horder, h.between_iff, Finset.mem_sdiff,
    Finset.mem_Icc, List.mem_toFinset]
  constructor
  · rintro ⟨id, ⟨hid, hother, hbetween⟩, rfl⟩
    rw [position_mem_map_iff horder hvalid hid]
    exact ⟨by omega, hother⟩
  · rintro ⟨hwithin, hgap⟩
    obtain ⟨id, hid, rfl⟩ := exists_position_eq horder (hwithin.2.trans_lt hlast)
    rw [position_mem_map_iff horder hvalid hid] at hgap
    have hne : ∀ member ∈ group,
        (ofOrder graph order).position id ≠ (ofOrder graph order).position member :=
      fun member hmember hsame =>
        hgap ((position_inj horder hid (hvalid member hmember)).mp hsame ▸ hmember)
    have hfirst := hne first h.first_mem
    have hlast := hne last h.last_mem
    exact ⟨id, ⟨hid, hgap, by omega⟩, rfl⟩

variable (hnodup : group.Nodup)
include hnodup

/-- The members and the intruders fill the places from the first member to the last. -/
theorem length_add_card_intruders (h : (ofOrder graph order).Extends group first last) :
    group.length + ((ofOrder graph order).intruders group).card =
      (ofOrder graph order).position last - (ofOrder graph order).position first + 1 := by
  have hmembers : (group.map (ofOrder graph order).position).Nodup :=
    hnodup.map_on fun id hid other hother hsame =>
      (position_inj horder (hvalid id hid) (hvalid other hother)).mp hsame
  have hintruders : Set.InjOn (ofOrder graph order).position
      ((ofOrder graph order).intruders group) := fun id hid other hother hsame =>
    (position_inj horder ((mem_intruders horder).mp hid).1 ((mem_intruders horder).mp hother).1).mp
      hsame
  have hfill := length_add_card_gaps hmembers (by simpa using h.within)
    (h.within first h.first_mem).2
  rwa [List.length_map, ← image_intruders horder hvalid h,
    Finset.card_image_of_injOn hintruders] at hfill

theorem splitOf_eq_card_intruders :
    (ofOrder graph order).splitOf group = ((ofOrder graph order).intruders group).card := by
  by_cases hempty : group = []
  · simp [hempty, splitOf, groupSplit, intruders, Between]
  · obtain ⟨first, last, h⟩ := exists_extends (ofOrder graph order) hempty
    have hfill := length_add_card_intruders horder hvalid hnodup h
    rw [h.splitOf_eq]
    omega

/-! ## Pieces of the order -/

omit hvalid hnodup in
/-- The members of a piece fit into its places. -/
theorem splitOf_eq_zero_of_contiguous (h : (ofOrder graph order).Contiguous group) :
    (ofOrder graph order).splitOf group = 0 := by
  obtain ⟨block, hperm, front, rest, rfl⟩ := h
  refine groupSplit_eq_zero front.length ?_
  intro index hindex
  obtain ⟨id, hid, rfl⟩ := List.mem_map.mp hindex
  have hblock : id ∈ block := hperm.mem_iff.mpr hid
  have hfront : id ∉ front := by
    have hnodup := horder.nodup
    grind
  have hlt := List.idxOf_lt_length_of_mem hblock
  rw [position_ofOrder horder (horder.mem_iff.mp (by simp [hblock])), List.append_assoc,
    List.idxOf_append_of_notMem hfront, List.idxOf_append_of_mem hblock, List.length_map,
    ← hperm.length_eq]
  omega

/-- Members that are not split are all there is from the first to the last of them. -/
theorem contiguous_of_splitOf_eq_zero (hzero : (ofOrder graph order).splitOf group = 0) :
    (ofOrder graph order).Contiguous group := by
  by_cases hempty : group = []
  · exact ⟨[], by simp [hempty], List.nil_infix⟩
  · obtain ⟨first, last, h⟩ := exists_extends (ofOrder graph order) hempty
    have hfill := length_add_card_intruders horder hvalid hnodup h
    rw [← splitOf_eq_card_intruders horder hvalid hnodup, hzero, Nat.add_zero] at hfill
    let block := (order.drop ((ofOrder graph order).position first)).take group.length
    have hsub : group ⊆ block := by
      intro id hid
      have hwithin := h.within id hid
      have hstands := getElem?_position horder (hvalid id hid)
      refine List.mem_iff_getElem?.mpr
        ⟨(ofOrder graph order).position id - (ofOrder graph order).position first, ?_⟩
      rw [List.getElem?_take, List.getElem?_drop, if_pos (by omega),
        Nat.add_sub_cancel' hwithin.1, hstands]
    -- the piece has no room for anything else
    have hperm : group.Perm block :=
      (List.subperm_of_subset hnodup hsub).perm_of_length_le (List.length_take_le _ _)
    exact ⟨block, hperm.symm,
      (List.take_prefix _ _).isInfix.trans (List.drop_suffix _ _).isInfix⟩

end Places

/-! ## Results -/

/-- What the split of a group counts. -/
structure CountsIntruders (arrangement : Arrangement) (group : List Nat) : Prop where
  count : arrangement.splitOf group = (arrangement.intruders group).card
  /-- The members never outnumber the places from the first of them to the last. -/
  fills : group ≠ [] → ∃ first last, arrangement.Extends group first last ∧
    group.length + arrangement.splitOf group =
      arrangement.position last - arrangement.position first + 1
  eq_zero_iff : arrangement.splitOf group = 0 ↔ arrangement.Contiguous group

theorem countsIntruders_ofOrder (horder : graph.IsOrder order)
    (hvalid : ∀ id ∈ group, id < graph.size) (hnodup : group.Nodup) :
    (ofOrder graph order).CountsIntruders group where
  count := splitOf_eq_card_intruders horder hvalid hnodup
  fills hne := by
    obtain ⟨first, last, h⟩ := exists_extends (ofOrder graph order) hne
    rw [splitOf_eq_card_intruders horder hvalid hnodup]
    exact ⟨first, last, h, length_add_card_intruders horder hvalid hnodup h⟩
  eq_zero_iff :=
    ⟨contiguous_of_splitOf_eq_zero horder hvalid hnodup, splitOf_eq_zero_of_contiguous horder⟩

section Kinds

variable (wf : graph.WellFormed) (horder : graph.IsOrder order)
include wf horder

theorem splitOf_of_mem_groups (hgroup : group ∈ graph.groups.all) :
    (ofOrder graph order).splitOf group = ((ofOrder graph order).intruders group).card :=
  splitOf_eq_card_intruders horder (fun _ => wf.groups_lt hgroup) (wf.groups_nodup hgroup)

theorem splitOfAll_of_mem_groups {kind : List (List Nat)}
    (hkind : ∀ group ∈ kind, group ∈ graph.groups.all) :
    (ofOrder graph order).splitOfAll kind =
      (kind.map fun group => ((ofOrder graph order).intruders group).card).sum := by
  rw [splitOfAll, total_eq_sum]
  exact congrArg List.sum
    (List.map_congr_left fun group hgroup => splitOf_of_mem_groups wf horder (hkind group hgroup))

end Kinds

/-- **Splits**: the split of a group is the number of methods between its first and its last member
that are no members, and there are none exactly if the members are a piece of the order. What is
counted of the groups of a kind is the sum of these numbers. -/
theorem splits_count_intruders
    (built : Outline.ofDeclaration declaration = .ok outline) (calls : List Call)
    (reached : Reachable (CallGraph.ofCalls outline calls) arrangement) :
    let groups := arrangement.graph.groups
    let count := fun group => (arrangement.intruders group).card
    (∀ group : List Nat, group.Nodup → (∀ id ∈ group, id < arrangement.size) →
      arrangement.CountsIntruders group) ∧
    arrangement.overloadSplit = (groups.overloads.map count).sum ∧
    arrangement.accessorSplit = (groups.accessors.map count).sum ∧
    arrangement.overrideSplit = count groups.overrides ∧
    arrangement.constructorSplit = count groups.constructors := by
  have wf := CallGraph.wellFormed_ofCalls (Outline.numbered_of_ofDeclaration built) calls
  obtain ⟨order, horder, rfl⟩ := reached.exists_order
  refine ⟨?_, ?_, ?_, ?_, ?_⟩
  · intro group hnodup hvalid
    rw [size_ofOrder, horder.length_eq] at hvalid
    exact countsIntruders_ofOrder horder hvalid hnodup
  · exact splitOfAll_of_mem_groups wf horder (by simp +contextual [Groups.all])
  · exact splitOfAll_of_mem_groups wf horder (by simp +contextual [Groups.all])
  · exact splitOf_of_mem_groups wf horder (by simp [Groups.all])
  · exact splitOf_of_mem_groups wf horder (by simp [Groups.all])

/-- A class with two methods of one name and two accessors of one property. -/
def box : ClassDeclaration where
  name := "Box"
  methods := [
    { name := "setWidth", parameters := [{ typeName := "int" }], accessibility := .publicAccess,
      line := 1, endLine := 3 },
    { name := "put", line := 4, endLine := 6 },
    { name := "put", parameters := [{ typeName := "int" }], line := 7, endLine := 9 },
    { name := "getWidth", accessibility := .publicAccess, returnType := .named "int", line := 10,
      endLine := 12 },
    { name := "clear", line := 13, endLine := 15 } ]

/-- The methods of it. -/
def boxOutline : Outline :=
  (Outline.ofDeclaration box).toOption.getD default

theorem box_built : Outline.ofDeclaration box = .ok boxOutline := by rfl

/-- The setter stands between the methods called `put`, and two methods stand between the accessors.
The setter and the methods called `put` stand together. -/
theorem splits_count_intruders_box :
    let start := ofOrder (CallGraph.ofCalls boxOutline []) [1, 0, 2, 4, 3]
    Reachable (CallGraph.ofCalls boxOutline []) start ∧
      start.intruders [1, 2] = {0} ∧ start.overloadSplit = 1 ∧
      start.intruders [0, 3] = {2, 4} ∧ start.accessorSplit = 2 ∧
      start.intruders [2, 0, 1] = ∅ ∧ start.Contiguous [2, 0, 1] ∧ start.splitOf [] = 0 := by
  intro start
  have reached : Reachable (CallGraph.ofCalls boxOutline []) start := reachable_ofOrder (by decide)
  obtain ⟨hcounts, hoverloads, haccessors, -⟩ := splits_count_intruders box_built [] reached
  have hgroups : start.graph.groups = ⟨[], [[1, 2]], [[0, 3]], []⟩ := by rfl
  have hput : start.intruders [1, 2] = {0} := by decide
  have hwidth : start.intruders [0, 3] = {2, 4} := by decide
  have htogether : start.intruders [2, 0, 1] = ∅ := by decide
  have hthree := hcounts [2, 0, 1] (by decide) (by decide)
  have hempty := hcounts [] (by decide) (by decide)
  refine ⟨reached, hput, ?_, hwidth, ?_, htogether, ?_, ?_⟩
  · simp [hoverloads, hgroups, hput]
  · simp [haccessors, hgroups, hwidth]
  · rw [← hthree.eq_zero_iff, hthree.count, htogether, Finset.card_empty]
  · rw [hempty.count]
    decide

end Arrangement

end ClassLayout

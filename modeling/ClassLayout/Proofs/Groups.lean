import ClassLayout.Proofs.Accessor
import ClassLayout.Proofs.Outline
import Mathlib.Data.List.Nodup

/-!
# ClassLayout.Proofs.Groups

What the groups of a class are. Overloads and accessors are grouped in the same way, by a text that
some of the methods have: `GroupedBy has groups` says that there is one group for each text, that it
holds all methods with the text, and that groups and their members come in order.

What is given in order is grouped by its keys (`groupedBy_groupByKey`). So it remains to see which
methods are given, and with which keys: those that share their names, constructors left out, with
their names (`mem_overloadKeys`), and getters and setters with their properties
(`mem_accessorKeys`).
-/

namespace ClassLayout

variable {declaration : ClassDeclaration} {outline : Outline} {keyed : List (String × Nat)}
  {groups : List (List Nat)} {key key' : String} {id : Nat}

/-! ## Groups by a key -/

/-- One group for each key that some index has, with all indices that have it. Indices increase
within each group, and the first indices increase from group to group. -/
structure GroupedBy (has : Nat → String → Prop) (groups : List (List Nat)) : Prop where
  whole : ∀ group ∈ groups, ∃ key, ∀ id, id ∈ group ↔ has id key
  once : ∀ id key, has id key → groups.countP (fun group => id ∈ group) = 1
  nonempty : ∀ group ∈ groups, group ≠ []
  increasing : ∀ group ∈ groups, group.Pairwise (· < ·)
  ordered : groups.Pairwise fun group other =>
    ∀ first ∈ group.head?, ∀ second ∈ other.head?, first < second

/-- Two indices are in the same group if they have the same key. -/
theorem GroupedBy.same_group_iff {has : Nat → String → Prop} {other : Nat}
    (h : GroupedBy has groups) (hunique : ∀ id key key', has id key → has id key' → key = key')
    (hid : has id key) (hother : has other key') :
    (∃ group ∈ groups, id ∈ group ∧ other ∈ group) ↔ key = key' := by
  constructor
  · rintro ⟨group, hgroup, hmem, hmem'⟩
    obtain ⟨shared, hshared⟩ := h.whole group hgroup
    rw [hunique id key shared hid ((hshared id).mp hmem),
      hunique other key' shared hother ((hshared other).mp hmem')]
  · rintro rfl
    have hone := h.once id key hid
    obtain ⟨group, hgroup, hmem⟩ := List.countP_pos_iff.mp (by rw [hone]; decide)
    obtain ⟨shared, hshared⟩ := h.whole group hgroup
    have hmem := of_decide_eq_true hmem
    obtain rfl := hunique id key shared hid ((hshared id).mp hmem)
    exact ⟨group, hgroup, hmem, (hshared other).mpr hother⟩

namespace Outline

theorem map_snd_groupByKey :
    (groupByKey keyed).map (·.2) =
      (keyed.map (·.1)).eraseDups.map fun key => (keyed.filter (·.1 == key)).map (·.2) := by
  simp [groupByKey, Function.comp_def]

theorem mem_group_iff : id ∈ (keyed.filter (·.1 == key)).map (·.2) ↔ (key, id) ∈ keyed := by
  simp

/-- The first index of a group stands where its key first occurs. -/
theorem getElem?_idxOf_of_head? {first : Nat}
    (h : first ∈ ((keyed.filter (·.1 == key)).map (·.2)).head?) :
    keyed[(keyed.map (·.1)).idxOf key]? = some (key, first) := by
  rw [List.head?_map, List.head?_filter, Option.mem_def, Option.map_eq_some_iff] at h
  obtain ⟨⟨found, first⟩, hfound, rfl⟩ := h
  obtain ⟨hkey, before, after, rfl, hbefore⟩ := List.find?_eq_some_iff_append.mp hfound
  obtain rfl : found = key := beq_iff_eq.mp hkey
  have hnot : found ∉ before.map (·.1) := by
    intro hmem
    obtain ⟨pair, hpair, rfl⟩ := List.mem_map.mp hmem
    simpa using hbefore pair hpair
  have hindex : ((before ++ (found, first) :: after).map (·.1)).idxOf found = before.length := by
    rw [List.map_append, List.idxOf_append_of_notMem hnot]
    simp
  rw [hindex]
  simp

section Given

variable (given : keyed.Pairwise fun pair other => pair.2 < other.2)
include given

/-- What is given in order is given once, so each index has one key. -/
theorem key_unique (hmem : (key, id) ∈ keyed) (hmem' : (key', id) ∈ keyed) : key = key' := by
  have hnodup : (keyed.map (·.2)).Nodup := List.pairwise_map.mpr (given.imp Nat.ne_of_lt)
  exact congrArg Prod.fst (List.inj_on_of_nodup_map hnodup hmem hmem' rfl)

/-- What is given in order is grouped by its keys. -/
theorem groupedBy_groupByKey :
    GroupedBy (fun id key => (key, id) ∈ keyed) ((groupByKey keyed).map (·.2)) := by
  rw [map_snd_groupByKey]
  constructor
  case whole =>
    intro group hgroup
    obtain ⟨key, -, rfl⟩ := List.mem_map.mp hgroup
    exact ⟨key, fun id => mem_group_iff⟩
  case once =>
    intro id key hmem
    have hone : (keyed.map (·.1)).eraseDups.count key = 1 :=
      List.count_eq_one_of_mem (nodup_eraseDups _)
        (List.mem_eraseDups.mpr (List.mem_map.mpr ⟨_, hmem, rfl⟩))
    rw [List.countP_map, ← hone, List.count_eq_countP]
    refine List.countP_congr fun other _ => ?_
    simp only [Function.comp_apply, decide_eq_true_eq, beq_iff_eq, mem_group_iff]
    constructor
    · intro hother
      exact key_unique given hother hmem
    · rintro rfl
      exact hmem
  case nonempty =>
    intro group hgroup
    obtain ⟨key, hkey, rfl⟩ := List.mem_map.mp hgroup
    obtain ⟨pair, hpair, rfl⟩ := List.mem_map.mp (List.mem_eraseDups.mp hkey)
    exact List.ne_nil_of_mem (mem_group_iff.mpr hpair)
  case increasing =>
    intro group hgroup
    obtain ⟨key, -, rfl⟩ := List.mem_map.mp hgroup
    exact List.pairwise_map.mpr (given.filter _)
  case ordered =>
    rw [List.pairwise_map]
    refine (pairwise_idxOf_eraseDups _).imp ?_
    intro key other hlt first hfirst second hsecond
    obtain ⟨hi, hi'⟩ := List.getElem?_eq_some_iff.mp (getElem?_idxOf_of_head? hfirst)
    obtain ⟨hj, hj'⟩ := List.getElem?_eq_some_iff.mp (getElem?_idxOf_of_head? hsecond)
    have hpair := List.pairwise_iff_getElem.mp given _ _ hi hj hlt
    rwa [hi', hj'] at hpair

end Given

end Outline

/-! ## Declared methods -/

namespace ClassDeclaration

/-- The method at an index is no constructor, and it shares its name with another method, which may
be a constructor. -/
def Overloads (declaration : ClassDeclaration) (id : Nat) (name : String) : Prop :=
  ∃ declared, declaration.methods[id]? = some declared ∧ declared.isConstructor = false ∧
    declared.name = name ∧ ∃ other declared', other ≠ id ∧
      declaration.methods[other]? = some declared' ∧ declared'.name = name

/-- The method at an index is a getter or a setter of the property. -/
def Exposes (declaration : ClassDeclaration) (id : Nat) (property : String) : Prop :=
  ∃ declared, declaration.methods[id]? = some declared ∧
    (declared.isGetter = true ∨ declared.isSetter = true) ∧
    Accessor.propertyName? declared.name = some property

theorem Exposes.unique {property property' : String} (h : declaration.Exposes id property)
    (h' : declaration.Exposes id property') : property = property' := by
  obtain ⟨declared, hdeclared, -, hproperty⟩ := h
  obtain ⟨declared', hdeclared', -, hproperty'⟩ := h'
  obtain rfl := Option.some.inj (hdeclared.symm.trans hdeclared')
  exact Option.some.inj (hproperty.symm.trans hproperty')

/-- Every getter and every setter exposes a property. -/
theorem exists_exposes {declared : MethodDeclaration}
    (hdeclared : declaration.methods[id]? = some declared)
    (h : declared.isGetter = true ∨ declared.isSetter = true) :
    ∃ property, declaration.Exposes id property := by
  obtain ⟨property, hproperty⟩ := MethodDeclaration.exists_property h
  exact ⟨property, declared, hdeclared, h, hproperty⟩

end ClassDeclaration

/-- No constructor is a getter or a setter. -/
theorem MethodDeclaration.isConstructor_eq_false {declared : MethodDeclaration}
    (h : declared.isGetter = true ∨ declared.isSetter = true) :
    declared.isConstructor = false := by
  simp only [isGetter, isSetter, Bool.and_eq_true, Bool.not_eq_true'] at h
  rcases h with ⟨⟨⟨⟨-, hget⟩, -⟩, -⟩, -⟩ | ⟨⟨⟨⟨⟨-, hset⟩, -⟩, -⟩, -⟩, -⟩
  · exact hget
  · exact hset

/-- What a declared method becomes, for each field that groups read. -/
theorem Method.groups_of_ofDeclaration {method : Method}
    (h : ofDeclaration id shared declared = .ok method) :
    method.isOverloaded = shared ∧ method.accessor = declared.accessor? ∧
      method.isOverride =
        (!declared.isConstructor && declared.annotations.any isOverrideAnnotation) := by
  unfold ofDeclaration at h
  split at h
  · contradiction
  · injection h with h
    rw [← h]
    exact ⟨rfl, rfl, rfl⟩

namespace Outline

/-- A method that is declared shares its name if another index has a method of that name. -/
theorem sharesName_iff {declared : MethodDeclaration}
    (hdeclared : declaration.methods[id]? = some declared) :
    sharesName declaration.methods declared = true ↔ ∃ other declared', other ≠ id ∧
      declaration.methods[other]? = some declared' ∧ declared'.name = declared.name := by
  rw [sharesName, decide_eq_true_eq,
    one_lt_countP_iff (p := (·.name == declared.name)) hdeclared (beq_self_eq_true _)]
  simp only [beq_iff_eq]

section Built

variable (built : ofDeclaration declaration = .ok outline)
include built

/-- What holds of the methods in an outline holds of what was declared. -/
theorem exists_mem_methods_iff {p : Method → Prop} {q : MethodDeclaration → Prop}
    (hmade : ∀ declared method,
      Method.ofDeclaration id (sharesName declaration.methods declared) declared = .ok method →
      (p method ↔ q declared)) :
    (∃ method ∈ outline.methods.toList, p method ∧ method.id = id) ↔
      ∃ declared, declaration.methods[id]? = some declared ∧ q declared := by
  have numbered := numbered_of_ofDeclaration built
  constructor
  · rintro ⟨method, hmem, hp, rfl⟩
    obtain ⟨i, hi⟩ := List.mem_iff_getElem?.mp hmem
    rw [Array.getElem?_toList] at hi
    obtain ⟨method', declared, hmethod', hdeclared, hof⟩ :=
      exists_method_of_ofDeclaration built (numbered.id_lt hmem)
    rw [← numbered i method hi] at hi
    obtain rfl := Option.some.inj (hi.symm.trans hmethod')
    exact ⟨declared, hdeclared, (hmade declared method hof).mp hp⟩
  · rintro ⟨declared, hdeclared, hq⟩
    have hlt : id < outline.size := by
      rw [size_of_ofDeclaration built]
      exact (List.getElem?_eq_some_iff.mp hdeclared).1
    obtain ⟨method, declared', hmethod, hdeclared', hof⟩ := exists_method_of_ofDeclaration built hlt
    obtain rfl := Option.some.inj (hdeclared.symm.trans hdeclared')
    rw [← Array.getElem?_toList] at hmethod
    exact ⟨method, List.mem_of_getElem? hmethod, (hmade declared method hof).mpr hq,
      (Method.ofDeclaration_eq_ok hof).1⟩

theorem mem_overloadKeys {name : String} :
    (name, id) ∈ outline.overloadKeys ↔ declaration.Overloads id name := by
  have hform : (name, id) ∈ outline.overloadKeys ↔ ∃ method ∈ outline.methods.toList,
      ((method.isOverloaded = true ∧ method.isConstructor = false) ∧ method.name = name) ∧
        method.id = id := by
    simp [overloadKeys, and_assoc]
  rw [hform, exists_mem_methods_iff built (q := fun declared =>
    (sharesName declaration.methods declared = true ∧ declared.isConstructor = false) ∧
      declared.name = name)]
  · refine exists_congr fun declared => and_congr_right fun hdeclared => ?_
    rw [sharesName_iff hdeclared]
    constructor
    · rintro ⟨⟨hshared, hconstructor⟩, rfl⟩
      exact ⟨hconstructor, rfl, hshared⟩
    · rintro ⟨hconstructor, rfl, hshared⟩
      exact ⟨⟨hshared, hconstructor⟩, rfl⟩
  · intro declared method hof
    rw [(Method.groups_of_ofDeclaration hof).1, (Method.ofDeclaration_eq_ok hof).2.1,
      (Method.name_of_ofDeclaration hof).1]

theorem mem_accessorKeys {property : String} :
    (property, id) ∈ outline.accessorKeys ↔ declaration.Exposes id property := by
  have hform : (property, id) ∈ outline.accessorKeys ↔ ∃ method ∈ outline.methods.toList,
      method.property? = some property ∧ method.id = id := by
    simp [accessorKeys]
  rw [hform, exists_mem_methods_iff built (q := fun declared =>
    (declared.isGetter = true ∨ declared.isSetter = true) ∧
      Accessor.propertyName? declared.name = some property)]
  · rfl
  · intro declared method hof
    rw [Method.property?, (Method.groups_of_ofDeclaration hof).2.1]
    exact MethodDeclaration.accessor?_property_eq_some_iff

/-- Overloads are grouped by name. -/
theorem groupedBy_overloads : GroupedBy declaration.Overloads outline.groups.overloads := by
  have hgrouped := groupedBy_groupByKey (numbered_of_ofDeclaration built).pairwise_overloadKeys
  simp only [mem_overloadKeys built] at hgrouped
  exact hgrouped

/-- Accessors are grouped by property. -/
theorem groupedBy_accessors : GroupedBy declaration.Exposes outline.groups.accessors := by
  have hgrouped := groupedBy_groupByKey (numbered_of_ofDeclaration built).pairwise_accessorKeys
  simp only [mem_accessorKeys built] at hgrouped
  exact hgrouped

/-- A constructor overrides nothing. -/
theorem not_mem_overrides {declared : MethodDeclaration}
    (hdeclared : declaration.methods[id]? = some declared)
    (hconstructor : declared.isConstructor = true) : id ∉ outline.groups.overrides := by
  intro hmem
  have hform : ∃ method ∈ outline.methods.toList, method.isOverride = true ∧ method.id = id := by
    simpa [groups, and_assoc] using hmem
  rw [exists_mem_methods_iff built (q := fun declared =>
    (!declared.isConstructor && declared.annotations.any Method.isOverrideAnnotation) = true)]
    at hform
  · obtain ⟨declared', hdeclared', hoverride⟩ := hform
    obtain rfl := Option.some.inj (hdeclared.symm.trans hdeclared')
    simp [hconstructor] at hoverride
  · intro declared method hof
    rw [(Method.groups_of_ofDeclaration hof).2.2]

end Built

/-- **Groups**: the overloads of a class are grouped by their names and its getters and setters by
their properties, each group is in the order of declaration, and no constructor is in a group of
overriding methods, of overloads or of accessors. -/
theorem groups_partition_methods (built : ofDeclaration declaration = .ok outline) :
    GroupedBy declaration.Overloads outline.groups.overloads ∧
    GroupedBy declaration.Exposes outline.groups.accessors ∧
    (∀ group ∈ outline.groups.all, group.Pairwise (· < ·)) ∧
    ∀ (id : Nat) (declared : MethodDeclaration), declaration.methods[id]? = some declared →
      (declared.isGetter = true ∨ declared.isSetter = true →
        ∃ property, declaration.Exposes id property) ∧
      (declared.isConstructor = true → id ∉ outline.groups.overrides ∧
        ∀ group ∈ outline.groups.overloads ++ outline.groups.accessors, id ∉ group) := by
  refine ⟨groupedBy_overloads built, groupedBy_accessors built,
    fun group => (numbered_of_ofDeclaration built).pairwise_of_mem_groups, ?_⟩
  intro id declared hdeclared
  refine ⟨ClassDeclaration.exists_exposes hdeclared, fun hconstructor =>
    ⟨not_mem_overrides built hdeclared hconstructor, ?_⟩⟩
  intro group hgroup hmem
  rcases List.mem_append.mp hgroup with hoverloads | haccessors
  · obtain ⟨name, hwhole⟩ := (groupedBy_overloads built).whole group hoverloads
    obtain ⟨declared', hdeclared', hnot, -⟩ := (hwhole id).mp hmem
    obtain rfl := Option.some.inj (hdeclared.symm.trans hdeclared')
    simp [hconstructor] at hnot
  · obtain ⟨property, hwhole⟩ := (groupedBy_accessors built).whole group haccessors
    obtain ⟨declared', hdeclared', haccessor, -⟩ := (hwhole id).mp hmem
    obtain rfl := Option.some.inj (hdeclared.symm.trans hdeclared')
    simp [MethodDeclaration.isConstructor_eq_false haccessor] at hconstructor

end Outline

/-- A class with a method that is called like its constructor, two methods of another name, two
accessors of one property and one of another. -/
def shelf : ClassDeclaration where
  name := "Shelf"
  methods := [
    { name := "Shelf", isConstructor := true, annotations := ["Override"], line := 1,
      endLine := 2 },
    { name := "setWidth", parameters := [{ typeName := "int" }], accessibility := .publicAccess,
      line := 3, endLine := 4 },
    { name := "Shelf", parameters := [{ typeName := "int" }], line := 5, endLine := 6 },
    { name := "put", line := 7, endLine := 8 },
    { name := "getWidth", accessibility := .publicAccess, returnType := .named "int", line := 9,
      endLine := 10 },
    { name := "put", parameters := [{ typeName := "int" }], line := 11, endLine := 12 },
    { name := "isFull", accessibility := .publicAccess, returnType := .boolean, line := 13,
      endLine := 14 },
    { name := "equals", parameters := [{ typeName := "Object" }], annotations := ["Override"],
      line := 15, endLine := 16 } ]

/-- The methods of it. -/
def shelfOutline : Outline :=
  (Outline.ofDeclaration shelf).toOption.getD default

theorem shelf_built : Outline.ofDeclaration shelf = .ok shelfOutline := by rfl

theorem shelf_groups : shelfOutline.groups = ⟨[7], [[2], [3, 5]], [[1, 4], [6]], [0]⟩ := by rfl

/-- The method that is called like the constructor is an overload, and alone in its group. -/
theorem groups_partition_methods_shelf :
    GroupedBy shelf.Overloads [[2], [3, 5]] ∧ shelf.Overloads 2 "Shelf" ∧
      GroupedBy shelf.Exposes [[1, 4], [6]] ∧ (∃ property, shelf.Exposes 4 property) ∧
      0 ∉ [7] ∧ ∀ group ∈ [[2], [3, 5]] ++ [[1, 4], [6]], 0 ∉ group := by
  obtain ⟨hoverloads, haccessors, -, hmethods⟩ := Outline.groups_partition_methods shelf_built
  rw [shelf_groups] at hoverloads haccessors hmethods
  have hshared : shelf.Overloads 2 "Shelf" :=
    ⟨_, rfl, rfl, rfl, 0, _, by decide, rfl, rfl⟩
  exact ⟨hoverloads, hshared, haccessors, (hmethods 4 _ rfl).1 (.inl (by decide)),
    (hmethods 0 _ rfl).2 rfl⟩

namespace Accessor

/-- **Accessor names**: a name has a property exactly if it spells a suffix, and names have the same
property exactly if they spell the same suffix. Every getter and every setter is an accessor of the
property in its name, and two accessors of a class are in the same group exactly if their names
spell the same suffix. -/
theorem suffixes_tell_properties :
    (∀ name, (propertyName? name).isSome = true ↔ ∃ suffix, Spells name suffix) ∧
    (∀ name other suffix suffix', Spells name suffix → Spells other suffix' →
      (propertyName? name = propertyName? other ↔ suffix = suffix')) ∧
    (∀ declared : MethodDeclaration, declared.isGetter = true ∨ declared.isSetter = true →
      ∃ accessor, declared.accessor? = some accessor ∧
        propertyName? declared.name = some accessor.property) ∧
    ∀ declaration outline, Outline.ofDeclaration declaration = .ok outline →
      ∀ (i j : Nat) (method other : MethodDeclaration), declaration.methods[i]? = some method →
        declaration.methods[j]? = some other → method.accessor?.isSome = true →
        other.accessor?.isSome = true →
        ((∃ group ∈ outline.groups.accessors, i ∈ group ∧ j ∈ group) ↔
          ∃ suffix, Spells method.name suffix ∧ Spells other.name suffix) := by
  refine ⟨fun name => propertyName?_isSome_iff,
    fun name other suffix suffix' h h' => h.propertyName?_eq_iff h', ?_, ?_⟩
  · intro declared h
    obtain ⟨accessor, haccessor⟩ :=
      Option.isSome_iff_exists.mp (MethodDeclaration.accessor?_isSome_iff.mpr h)
    refine ⟨accessor, haccessor, ?_⟩
    exact (MethodDeclaration.accessor?_property_eq_some_iff.mp (by rw [haccessor]; rfl)).2
  · intro declaration outline built i j method other hmethod hother haccessor haccessor'
    have hkind := MethodDeclaration.accessor?_isSome_iff.mp haccessor
    have hkind' := MethodDeclaration.accessor?_isSome_iff.mp haccessor'
    obtain ⟨property, hproperty⟩ := MethodDeclaration.exists_property hkind
    obtain ⟨property', hproperty'⟩ := MethodDeclaration.exists_property hkind'
    rw [(Outline.groupedBy_accessors built).same_group_iff
        (fun _ _ _ => ClassDeclaration.Exposes.unique) ⟨method, hmethod, hkind, hproperty⟩
        ⟨other, hother, hkind', hproperty'⟩,
      ← propertyName?_eq_iff_exists (by simp [hproperty]) (by simp [hproperty']), hproperty,
      hproperty', Option.some_inj]

/-- The accessors `setWidth` and `getWidth` are in one group, and `isFull` is in another. -/
theorem suffixes_tell_properties_shelf :
    Spells "setWidth" "Width" ∧ Spells "getWidth" "Width" ∧ Spells "isFull" "Full" ∧
      (propertyName? "isFull").isSome = true ∧
      propertyName? "setWidth" = propertyName? "getWidth" ∧
      (∃ group ∈ shelfOutline.groups.accessors, 1 ∈ group ∧ 4 ∈ group) ∧
      ¬ ∃ group ∈ shelfOutline.groups.accessors, 4 ∈ group ∧ 6 ∈ group := by
  obtain ⟨hsome, hprops, -, hgroups⟩ := suffixes_tell_properties
  have hset : Spells "setWidth" "Width" := suffix?_eq_some_iff.mp (by decide)
  have hget : Spells "getWidth" "Width" := suffix?_eq_some_iff.mp (by decide)
  have hfull : Spells "isFull" "Full" := suffix?_eq_some_iff.mp (by decide)
  refine ⟨hset, hget, hfull, (hsome _).mpr ⟨_, hfull⟩, (hprops _ _ _ _ hset hget).mpr rfl, ?_, ?_⟩
  · rw [hgroups shelf shelfOutline shelf_built 1 4 _ _ rfl rfl (by decide) (by decide)]
    exact ⟨"Width", hset, hget⟩
  · rw [hgroups shelf shelfOutline shelf_built 4 6 _ _ rfl rfl (by decide) (by decide)]
    rintro ⟨suffix, hwidth, hfull'⟩
    obtain rfl := (hprops _ _ _ _ hwidth hget).mp rfl
    have hsame := (hprops _ _ _ _ hfull' hfull).mp rfl
    revert hsame
    decide

end Accessor

end ClassLayout

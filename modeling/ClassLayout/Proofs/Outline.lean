import ClassLayout.Groups
import ClassLayout.Proofs.Plumbing

/-!
# ClassLayout.Proofs.Outline

Which declarations have an outline (`Outline.exists_ofDeclaration`), and what it looks like. Its
methods are those of the declaration, one for one and in their order, so each method stands at its
own index and covers the lines that were declared. Hence every index that a group holds is the index
of a method, and no group holds one twice.
-/

namespace ClassLayout

/-! ## Methods of a declaration -/

/-- What a declared method becomes, for each field that the search reads. -/
theorem Method.ofDeclaration_eq_ok {id : Nat} {method : Method}
    (h : ofDeclaration id shared declaration = .ok method) :
    method.id = id ∧ method.isConstructor = declaration.isConstructor ∧
      method.argCount = Signature.argCount declaration.parameters ∧
      method.variableArity = Signature.isVariableArity declaration.parameters := by
  unfold ofDeclaration at h
  split at h
  · contradiction
  · injection h with h
    subst h
    exact ⟨rfl, rfl, rfl, rfl⟩

/-- A method is made unless it ends before it starts. -/
theorem Method.exists_ofDeclaration {id : Nat} :
    (∃ method, ofDeclaration id shared declared = .ok method) ↔
      declared.line ≤ declared.endLine := by
  unfold ofDeclaration
  split
  · next h => simp [Nat.not_le.mpr h]
  · next h => simp [Nat.not_lt.mp h]

/-- A method keeps its signature and the lines that it covers. -/
theorem Method.covers_of_ofDeclaration {id : Nat} {method : Method}
    (h : ofDeclaration id shared declared = .ok method) :
    method.signature = Signature.render declared.name declared.parameters ∧
      ∀ line, method.covers line = true ↔ declared.line ≤ line ∧ line ≤ declared.endLine := by
  unfold ofDeclaration at h
  split at h
  · contradiction
  · next hspan =>
      injection h with h
      subst h
      have hend : declared.line + (declared.endLine - declared.line) = declared.endLine := by omega
      exact ⟨rfl, fun line => by simp [covers, endLine, hend]⟩

/-- What a call site tells a method by. -/
theorem Method.name_of_ofDeclaration {id : Nat} {method : Method}
    (h : ofDeclaration id shared declared = .ok method) :
    method.name = declared.name ∧ method.isStatic = declared.isStatic := by
  unfold ofDeclaration at h
  split at h
  · contradiction
  · injection h with h
    rw [← h]
    exact ⟨rfl, rfl⟩

namespace Outline

/-- The methods of declarations are made one by one. -/
theorem methodsFrom_cons_eq_ok {methods : List Method} :
    methodsFrom all index (declaration :: declarations) = .ok methods ↔
      ∃ method others,
        Method.ofDeclaration index (sharesName all declaration) declaration = .ok method ∧
        methodsFrom all (index + 1) declarations = .ok others ∧ methods = method :: others := by
  rw [methodsFrom, bind_eq_ok]
  refine exists_congr fun method => ?_
  rw [bind_eq_ok, ← exists_and_left]
  refine exists_congr fun others => and_congr_right fun _ => and_congr_right fun _ => ?_
  simp [pure, Except.pure, eq_comm]

/-- They are numbered on from the first index. -/
theorem getElem?_methodsFrom {methods : List Method}
    (h : methodsFrom all index declarations = .ok methods) (i : Nat) :
    methods[i]? = none ∧ declarations[i]? = none ∨
      ∃ method declaration, methods[i]? = some method ∧ declarations[i]? = some declaration ∧
        Method.ofDeclaration (index + i) (sharesName all declaration) declaration = .ok method := by
  induction declarations generalizing index methods i with
  | nil =>
      injection h with h
      subst h
      exact .inl ⟨rfl, rfl⟩
  | cons declaration declarations ih =>
      obtain ⟨method, others, hmethod, hothers, rfl⟩ := methodsFrom_cons_eq_ok.mp h
      cases i with
      | zero => exact .inr ⟨method, declaration, rfl, rfl, hmethod⟩
      | succ i =>
          have hi := ih hothers i
          rw [Nat.add_right_comm] at hi
          exact hi

/-- An outline has the methods that its declaration makes, and they have different signatures. -/
theorem ofDeclaration_eq_ok (h : ofDeclaration declaration = .ok outline) :
    methodsFrom declaration.methods 0 declaration.methods = .ok outline.methods.toList ∧
      firstRepeated? [] (outline.methods.toList.map (·.signature)) = none ∧
      outline.name = declaration.name := by
  rw [ofDeclaration, bind_eq_ok] at h
  obtain ⟨methods, hmethods, h⟩ := h
  split at h
  · contradiction
  · next hfresh =>
      injection h with h
      subst h
      exact ⟨by simpa using hmethods, by simpa using hfresh, rfl⟩

theorem length_methodsFrom {methods : List Method}
    (h : methodsFrom all index declarations = .ok methods) :
    methods.length = declarations.length := by
  induction declarations generalizing index methods with
  | nil =>
      injection h with h
      rw [← h]
      rfl
  | cons declaration declarations ih =>
      obtain ⟨method, others, -, hothers, rfl⟩ := methodsFrom_cons_eq_ok.mp h
      rw [List.length_cons, List.length_cons, ih hothers]

theorem signatures_methodsFrom {methods : List Method}
    (h : methodsFrom all index declarations = .ok methods) :
    methods.map (·.signature) =
      declarations.map fun declared => Signature.render declared.name declared.parameters := by
  induction declarations generalizing index methods with
  | nil =>
      injection h with h
      rw [← h]
      rfl
  | cons declaration declarations ih =>
      obtain ⟨method, others, hmethod, hothers, rfl⟩ := methodsFrom_cons_eq_ok.mp h
      rw [List.map_cons, List.map_cons, ih hothers, (Method.covers_of_ofDeclaration hmethod).1]

/-- All methods are made unless one of them ends before it starts. -/
theorem exists_methodsFrom :
    (∃ methods, methodsFrom all index declarations = .ok methods) ↔
      ∀ declared ∈ declarations, declared.line ≤ declared.endLine := by
  induction declarations generalizing index with
  | nil => simp [methodsFrom]
  | cons declaration declarations ih =>
      rw [List.forall_mem_cons]
      constructor
      · rintro ⟨methods, h⟩
        obtain ⟨method, others, hmethod, hothers, -⟩ := methodsFrom_cons_eq_ok.mp h
        exact ⟨Method.exists_ofDeclaration.mp ⟨method, hmethod⟩, ih.mp ⟨others, hothers⟩⟩
      · rintro ⟨hspan, hspans⟩
        obtain ⟨method, hmethod⟩ := Method.exists_ofDeclaration.mpr hspan
        obtain ⟨others, hothers⟩ := ih.mpr hspans
        exact ⟨_, methodsFrom_cons_eq_ok.mpr ⟨method, others, hmethod, hothers, rfl⟩⟩

end Outline

/-- A text is repeated if it occurs twice or is among those seen. -/
theorem firstRepeated?_eq_none {seen texts : List String} :
    firstRepeated? seen texts = none ↔ texts.Nodup ∧ ∀ text ∈ texts, text ∉ seen := by
  induction texts generalizing seen with
  | nil => simp [firstRepeated?]
  | cons text texts ih =>
      rw [firstRepeated?]
      split
      · next hseen => simp [hseen]
      · next hseen =>
          rw [ih]
          grind

namespace Outline

/-- There is an outline unless a method ends before it starts or two have the same signature. -/
theorem exists_ofDeclaration :
    (∃ outline, ofDeclaration declaration = .ok outline) ↔
      (∀ method ∈ declaration.methods, method.line ≤ method.endLine) ∧
      (declaration.methods.map fun method =>
        Signature.render method.name method.parameters).Nodup := by
  rw [← exists_methodsFrom]
  constructor
  · rintro ⟨outline, h⟩
    obtain ⟨hmethods, hfresh, -⟩ := ofDeclaration_eq_ok h
    rw [signatures_methodsFrom hmethods] at hfresh
    exact ⟨⟨_, hmethods⟩, (firstRepeated?_eq_none.mp hfresh).1⟩
  · rintro ⟨⟨methods, hmethods⟩, hnodup⟩
    have hfresh : firstRepeated? [] (methods.map (·.signature)) = none := by
      rw [signatures_methodsFrom hmethods, firstRepeated?_eq_none]
      simp [hnodup]
    refine ⟨{ name := declaration.name, methods := methods.toArray }, ?_⟩
    rw [ofDeclaration, bind_eq_ok]
    refine ⟨methods, hmethods, ?_⟩
    rw [hfresh]
    rfl

/-- A class has as many methods as are declared. -/
theorem size_of_ofDeclaration (h : ofDeclaration declaration = .ok outline) :
    outline.size = declaration.methods.length := by
  rw [size, ← Array.length_toList]
  exact length_methodsFrom (ofDeclaration_eq_ok h).1

/-- Every index below the number of methods is that of a declared method and of what it becomes. -/
theorem exists_method_of_ofDeclaration {id : Nat} (h : ofDeclaration declaration = .ok outline)
    (hid : id < outline.size) :
    ∃ method declared, outline.methods[id]? = some method ∧
      declaration.methods[id]? = some declared ∧
      Method.ofDeclaration id (sharesName declaration.methods declared) declared = .ok method := by
  have hmethods := getElem?_methodsFrom (ofDeclaration_eq_ok h).1 id
  rw [Array.getElem?_toList, Nat.zero_add] at hmethods
  rcases hmethods with ⟨hnone, -⟩ | hsome
  · rw [Array.getElem?_eq_none_iff] at hnone
    exact absurd hid (Nat.not_lt.mpr hnone)
  · exact hsome

/-- A method covers a line if it was declared so. -/
theorem exists_covers_iff {id line : Nat} (h : ofDeclaration declaration = .ok outline) :
    (∃ method, outline.methods[id]? = some method ∧ method.covers line = true) ↔
      ∃ declared, declaration.methods[id]? = some declared ∧
        declared.line ≤ line ∧ line ≤ declared.endLine := by
  by_cases hid : id < outline.size
  · obtain ⟨method, declared, hmethod, hdeclared, hmade⟩ := exists_method_of_ofDeclaration h hid
    simp [hmethod, hdeclared, (Method.covers_of_ofDeclaration hmade).2]
  · have hnone : declaration.methods[id]? = none :=
      List.getElem?_eq_none (by rw [← size_of_ofDeclaration h]; omega)
    have hnone' : outline.methods[id]? = none := Array.getElem?_eq_none (Nat.not_lt.mp hid)
    simp [hnone, hnone']

/-- Each method stands at its own index. -/
def Numbered (outline : Outline) : Prop :=
  ∀ (id : Nat) (method : Method), outline.methods[id]? = some method → method.id = id

/-- The methods of a class are numbered in the order of their declaration. -/
theorem numbered_of_ofDeclaration (h : ofDeclaration declaration = .ok outline) :
    outline.Numbered := by
  intro id method hid
  have hlt : id < outline.size := (Array.getElem?_eq_some_iff.mp hid).1
  obtain ⟨method', declared, hmethod', -, hmade⟩ := exists_method_of_ofDeclaration h hlt
  have hsame : method = method' := Option.some.inj (hid.symm.trans hmethod')
  rw [hsame]
  exact (Method.ofDeclaration_eq_ok hmade).1

/-- The methods stand in the order of their indices. -/
theorem Numbered.pairwise_id {outline : Outline} (h : outline.Numbered) :
    outline.methods.toList.Pairwise fun method other => method.id < other.id := by
  rw [List.pairwise_iff_getElem]
  intro i j hi hj hlt
  have hid : ∀ (k : Nat) (hk : k < outline.methods.toList.length),
      outline.methods.toList[k].id = k := by
    intro k hk
    refine h k _ ?_
    rw [← Array.getElem?_toList, List.getElem?_eq_getElem hk]
  rwa [hid i hi, hid j hj]

/-- The index of a method is below the number of methods. -/
theorem Numbered.id_lt {outline : Outline} {method : Method} (h : outline.Numbered)
    (hmem : method ∈ outline.methods.toList) : method.id < outline.size := by
  obtain ⟨id, hid⟩ := List.mem_iff_getElem?.mp hmem
  rw [Array.getElem?_toList] at hid
  rw [h id method hid]
  exact (Array.getElem?_eq_some_iff.mp hid).1

end Outline

/-! ## Groups -/

/-- The groups of all kinds. -/
def Groups.all (groups : Groups) : List (List Nat) :=
  groups.overrides :: groups.constructors :: (groups.overloads ++ groups.accessors)

namespace Outline

/-- A group of one key holds only what was given. -/
theorem mem_of_mem_groupByKey {id : Nat} (hgroup : group ∈ groupByKey keyed) (hid : id ∈ group.2) :
    ∃ key, (key, id) ∈ keyed := by
  unfold groupByKey at hgroup
  obtain ⟨key, _, rfl⟩ := List.mem_map.mp hgroup
  obtain ⟨pair, hpair, rfl⟩ := List.mem_map.mp hid
  exact ⟨pair.1, (List.mem_filter.mp hpair).1⟩

/-- Every group holds methods of the class only. -/
theorem Numbered.lt_of_mem_groups {outline : Outline} {id : Nat} (h : outline.Numbered)
    (hgroup : group ∈ outline.groups.all) (hid : id ∈ group) : id < outline.size := by
  have hmap : ∀ p : Method → Bool, id ∈ (outline.methods.toList.filter p).map (·.id) →
      id < outline.size := by
    intro p hmem
    obtain ⟨method, hmethod, rfl⟩ := List.mem_map.mp hmem
    exact h.id_lt (List.mem_filter.mp hmethod).1
  simp only [Groups.all, groups, List.mem_cons, List.mem_append, List.mem_map] at hgroup
  rcases hgroup with rfl | rfl | ⟨keyed, hkeyed, rfl⟩ | ⟨keyed, hkeyed, rfl⟩
  · exact hmap _ hid
  · exact hmap _ hid
  · obtain ⟨key, hkey⟩ := mem_of_mem_groupByKey hkeyed hid
    obtain ⟨method, hmethod, heq⟩ := List.mem_map.mp hkey
    injection heq with _ heq
    rw [← heq]
    exact h.id_lt (List.mem_filter.mp hmethod).1
  · obtain ⟨key, hkey⟩ := mem_of_mem_groupByKey hkeyed hid
    obtain ⟨method, hmethod, heq⟩ := List.mem_filterMap.mp hkey
    obtain ⟨property, _, heq⟩ := Option.map_eq_some_iff.mp heq
    injection heq with _ heq
    rw [← heq]
    exact h.id_lt hmethod

/-- The methods that share their names, with their names. Constructors are left out. -/
def overloadKeys (outline : Outline) : List (String × Nat) :=
  (outline.methods.toList.filter fun method => method.isOverloaded && !method.isConstructor).map
    fun method => (method.name, method.id)

/-- The accessors, with their properties. -/
def accessorKeys (outline : Outline) : List (String × Nat) :=
  outline.methods.toList.filterMap fun method =>
    method.property?.map fun property => (property, method.id)

theorem Numbered.pairwise_overloadKeys {outline : Outline} (h : outline.Numbered) :
    outline.overloadKeys.Pairwise fun pair other => pair.2 < other.2 :=
  List.pairwise_map.mpr (h.pairwise_id.filter _)

theorem Numbered.pairwise_accessorKeys {outline : Outline} (h : outline.Numbered) :
    outline.accessorKeys.Pairwise fun pair other => pair.2 < other.2 := by
  refine List.pairwise_filterMap.mpr (h.pairwise_id.imp ?_)
  intro method other hlt pair hpair pair' hpair'
  obtain ⟨_, _, rfl⟩ := Option.map_eq_some_iff.mp hpair
  obtain ⟨_, _, rfl⟩ := Option.map_eq_some_iff.mp hpair'
  exact hlt

/-- A group of one key keeps the order in which its members were given. -/
theorem pairwise_of_mem_groupByKey (h : keyed.Pairwise fun pair other => pair.2 < other.2)
    (hgroup : group ∈ groupByKey keyed) : group.2.Pairwise (· < ·) := by
  unfold groupByKey at hgroup
  obtain ⟨key, -, rfl⟩ := List.mem_map.mp hgroup
  exact List.pairwise_map.mpr (h.filter _)

/-- Every group is in the order of declaration. -/
theorem Numbered.pairwise_of_mem_groups {outline : Outline} (h : outline.Numbered)
    (hgroup : group ∈ outline.groups.all) : group.Pairwise (· < ·) := by
  have hids := h.pairwise_id
  simp only [Groups.all, groups, List.mem_cons, List.mem_append, List.mem_map] at hgroup
  rcases hgroup with rfl | rfl | ⟨keyed, hkeyed, rfl⟩ | ⟨keyed, hkeyed, rfl⟩
  · exact List.pairwise_map.mpr (hids.filter _)
  · exact List.pairwise_map.mpr (hids.filter _)
  · exact pairwise_of_mem_groupByKey h.pairwise_overloadKeys hkeyed
  · exact pairwise_of_mem_groupByKey h.pairwise_accessorKeys hkeyed

end Outline

end ClassLayout

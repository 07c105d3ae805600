import ClassLayout.Accessor

/-!
# ClassLayout.Proofs.Accessor

Which names speak of a property. `Spells name suffix` is the rule: the name is `get`, `is` or `set`,
followed by a suffix that starts with a capital letter and goes on with letters, digits and
underscores.

1. The suffix that is found in a name is the one that it spells (`suffix?_eq_some_iff`). No two of
   the three beginnings start alike, so a name is read in one way only.
2. Making the first letter small merges no two suffixes (`uncapitalise_inj`), so names have the same
   property exactly if they spell the same suffix.
3. Getters and setters are recognised by one of the beginnings each. Their names therefore have a
   property, and none of them is lost (`accessor?_isSome_iff`).
-/

namespace ClassLayout

namespace Accessor

variable {c d : Char}

/-- A capital letter, then letters, digits and underscores, all of them ASCII. -/
def Capitalised (suffix : String) : Prop :=
  ∃ first rest, suffix.toList = first :: rest ∧ ('A' ≤ first ∧ first ≤ 'Z') ∧
    ∀ c ∈ rest, ('A' ≤ c ∧ c ≤ 'Z') ∨ ('a' ≤ c ∧ c ≤ 'z') ∨ ('0' ≤ c ∧ c ≤ '9') ∨ c = '_'

/-- The name is that of an accessor, and the suffix is how it spells the property. -/
structure Spells (name suffix : String) : Prop where
  capitalised : Capitalised suffix
  start : ∃ start ∈ ["get", "is", "set"], name = start ++ suffix

/-! ## Characters -/

theorem isUpper_iff : c.isUpper = true ↔ 'A' ≤ c ∧ c ≤ 'Z' :=
  decide_eq_true_iff

theorem isLower_iff : c.isLower = true ↔ 'a' ≤ c ∧ c ≤ 'z' := by
  change (decide _ && decide _) = true ↔ _
  rw [Bool.and_eq_true, decide_eq_true_iff, decide_eq_true_iff]
  rfl

theorem isDigit_iff : c.isDigit = true ↔ '0' ≤ c ∧ c ≤ '9' := by
  change (decide _ && decide _) = true ↔ _
  rw [Bool.and_eq_true, decide_eq_true_iff, decide_eq_true_iff]
  rfl

theorem isNameChar_iff :
    isNameChar c = true ↔
      ('A' ≤ c ∧ c ≤ 'Z') ∨ ('a' ≤ c ∧ c ≤ 'z') ∨ ('0' ≤ c ∧ c ≤ '9') ∨ c = '_' := by
  change (((c.isUpper || c.isLower) || c.isDigit) || c == '_') = true ↔ _
  rw [Bool.or_eq_true, Bool.or_eq_true, Bool.or_eq_true, isUpper_iff, isLower_iff, isDigit_iff,
    beq_iff_eq, or_assoc, or_assoc]

theorem isCapitalised_iff {suffix : String} :
    isCapitalised suffix.toList = true ↔ Capitalised suffix := by
  unfold Capitalised
  cases suffix.toList with
  | nil => simp [isCapitalised]
  | cons first rest =>
      simp only [isCapitalised, Bool.and_eq_true, List.all_eq_true, isUpper_iff, isNameChar_iff]
      constructor
      · intro h
        exact ⟨first, rest, rfl, h⟩
      · rintro ⟨_, _, heq, h⟩
        obtain ⟨rfl, rfl⟩ := List.cons.inj heq
        exact h

/-- Capital letters stay different when they are made small. -/
theorem toLower_inj_of_isUpper (hc : c.isUpper = true) (hd : d.isUpper = true) :
    c.toLower = d.toLower ↔ c = d := by
  have hlower : ∀ {e : Char}, e.isUpper = true → e.toLower.toNat = e.toNat + 32 := by
    intro e he
    have hrange := of_decide_eq_true he
    unfold Char.toLower
    rw [dif_pos hrange]
    have hle : e.val.toNat ≤ 90 := UInt32.le_iff_toNat_le.mp hrange.2
    change (e.val.toNat + 32) % 2 ^ 32 = e.val.toNat + 32
    omega
  rw [← Char.toNat_inj, ← Char.toNat_inj, hlower hc, hlower hd]
  omega

/-! ## Suffixes -/

/-- The suffix after a beginning is all that follows it. -/
theorem suffixAfter?_eq_some_iff {start name suffix : List Char} :
    suffixAfter? start name = some suffix ↔
      name = start ++ suffix ∧ isCapitalised suffix = true := by
  simp only [suffixAfter?, Bool.and_eq_true, List.isPrefixOf_iff_prefix]
  constructor
  · intro h
    split at h
    · next hname =>
        obtain ⟨⟨rest, rfl⟩, hrest⟩ := hname
        rw [List.drop_left] at h hrest
        cases h
        exact ⟨rfl, hrest⟩
    · contradiction
  · rintro ⟨rfl, hsuffix⟩
    simp [hsuffix]

/-- A name with a beginning of another first letter has no suffix after this one. -/
theorem suffixAfter?_eq_none {a b : Char} {start name : List Char} (hne : a ≠ b) :
    suffixAfter? (a :: start) (b :: name) = none := by
  simp [suffixAfter?, hne]

/-- The suffix that is found in a name is the one that it spells. -/
theorem suffix?_eq_some_iff {name suffix : String} :
    suffix? name.toList = some suffix.toList ↔ Spells name suffix := by
  have hstart : ∀ start : String, suffixAfter? start.toList name.toList = some suffix.toList ↔
      name = start ++ suffix ∧ Capitalised suffix := by
    intro start
    rw [suffixAfter?_eq_some_iff, isCapitalised_iff, ← String.toList_append, String.toList_inj]
  constructor
  · intro h
    rw [suffix?, Option.or_eq_some_iff, Option.or_eq_some_iff] at h
    rcases h with hget | ⟨-, his | ⟨-, hset⟩⟩
    · obtain ⟨hname, hsuffix⟩ := (hstart "get").mp hget
      exact ⟨hsuffix, "get", by simp, hname⟩
    · obtain ⟨hname, hsuffix⟩ := (hstart "is").mp his
      exact ⟨hsuffix, "is", by simp, hname⟩
    · obtain ⟨hname, hsuffix⟩ := (hstart "set").mp hset
      exact ⟨hsuffix, "set", by simp, hname⟩
  · rintro ⟨hsuffix, start, hmem, hname⟩
    have hfound := (hstart start).mpr ⟨hname, hsuffix⟩
    have hname := congrArg String.toList hname
    rw [String.toList_append] at hname
    simp only [List.mem_cons, List.not_mem_nil, or_false] at hmem
    -- the first letter of the name rules out the beginnings that are tried before
    rcases hmem with rfl | rfl | rfl
    · change suffixAfter? ['g', 'e', 't'] name.toList = _ at hfound
      rw [suffix?, hfound, Option.some_or]
    · have hget : suffixAfter? ['g', 'e', 't'] name.toList = none :=
        hname ▸ suffixAfter?_eq_none (by decide)
      change suffixAfter? ['i', 's'] name.toList = _ at hfound
      rw [suffix?, hget, hfound, Option.none_or, Option.some_or]
    · have hget : suffixAfter? ['g', 'e', 't'] name.toList = none :=
        hname ▸ suffixAfter?_eq_none (by decide)
      have his : suffixAfter? ['i', 's'] name.toList = none :=
        hname ▸ suffixAfter?_eq_none (by decide)
      change suffixAfter? ['s', 'e', 't'] name.toList = _ at hfound
      rw [suffix?, hget, his, hfound, Option.none_or, Option.none_or]

/-- Suffixes stay different when their first letters are made small. -/
theorem uncapitalise_inj {suffix suffix' : List Char} (h : isCapitalised suffix = true)
    (h' : isCapitalised suffix' = true) :
    uncapitalise suffix = uncapitalise suffix' ↔ suffix = suffix' := by
  cases suffix with
  | nil => simp [isCapitalised] at h
  | cons c rest =>
      cases suffix' with
      | nil => simp [isCapitalised] at h'
      | cons d rest' =>
          simp only [isCapitalised, Bool.and_eq_true] at h h'
          simp only [uncapitalise, List.cons.injEq, toLower_inj_of_isUpper h.1 h'.1]

/-! ## Properties -/

section Properties

variable {name other suffix suffix' : String}

/-- The property in a name is the suffix that it spells, with a small first letter. -/
theorem Spells.propertyName?_eq (h : Spells name suffix) :
    propertyName? name = some (String.ofList (uncapitalise suffix.toList)) := by
  rw [propertyName?, suffix?_eq_some_iff.mpr h, Option.map_some]

/-- A name has a property if it spells a suffix. -/
theorem propertyName?_isSome_iff :
    (propertyName? name).isSome = true ↔ ∃ suffix, Spells name suffix := by
  rw [propertyName?, Option.isSome_map, Option.isSome_iff_exists]
  constructor
  · rintro ⟨suffix, hsuffix⟩
    exact ⟨String.ofList suffix, suffix?_eq_some_iff.mp (by rw [hsuffix, String.toList_ofList])⟩
  · rintro ⟨suffix, hspells⟩
    exact ⟨suffix.toList, suffix?_eq_some_iff.mpr hspells⟩

/-- Names have the same property if they spell the same suffix. -/
theorem Spells.propertyName?_eq_iff (h : Spells name suffix) (h' : Spells other suffix') :
    propertyName? name = propertyName? other ↔ suffix = suffix' := by
  rw [h.propertyName?_eq, h'.propertyName?_eq, Option.some_inj, String.ofList_inj,
    uncapitalise_inj (isCapitalised_iff.mpr h.capitalised) (isCapitalised_iff.mpr h'.capitalised),
    String.toList_inj]

/-- Names that have properties have the same one if there is a suffix that both spell. -/
theorem propertyName?_eq_iff_exists (h : (propertyName? name).isSome = true)
    (h' : (propertyName? other).isSome = true) :
    propertyName? name = propertyName? other ↔
      ∃ suffix, Spells name suffix ∧ Spells other suffix := by
  obtain ⟨suffix, hspells⟩ := propertyName?_isSome_iff.mp h
  obtain ⟨suffix', hspells'⟩ := propertyName?_isSome_iff.mp h'
  constructor
  · intro heq
    obtain rfl := (hspells.propertyName?_eq_iff hspells').mp heq
    exact ⟨suffix, hspells, hspells'⟩
  · rintro ⟨common, hcommon, hcommon'⟩
    exact (hcommon.propertyName?_eq_iff hcommon').mpr rfl

end Properties

end Accessor

namespace MethodDeclaration

open Accessor

variable {method : MethodDeclaration}

/-- A name with a suffix after one of the beginnings spells it. -/
theorem exists_spells_of_suffixAfter? (start : String) {name : String}
    (hstart : start ∈ ["get", "is", "set"])
    (h : (suffixAfter? start.toList name.toList).isSome = true) : ∃ suffix, Spells name suffix := by
  obtain ⟨suffix, hsuffix⟩ := Option.isSome_iff_exists.mp h
  obtain ⟨hname, hcapital⟩ := suffixAfter?_eq_some_iff.mp hsuffix
  refine ⟨String.ofList suffix, isCapitalised_iff.mp (by rwa [String.toList_ofList]), start, hstart,
    ?_⟩
  rw [← String.toList_inj, String.toList_append, String.toList_ofList, hname]

/-- The name of a getter or setter spells a suffix. -/
theorem exists_spells (h : method.isGetter = true ∨ method.isSetter = true) :
    ∃ suffix, Spells method.name suffix := by
  simp only [isGetter, isSetter, Bool.and_eq_true, Bool.or_eq_true] at h
  rcases h with ⟨-, hget | ⟨his, -⟩⟩ | ⟨-, hset⟩
  · exact exists_spells_of_suffixAfter? "get" (by decide) hget
  · exact exists_spells_of_suffixAfter? "is" (by decide) his
  · exact exists_spells_of_suffixAfter? "set" (by decide) hset

/-- Hence it has a property. -/
theorem exists_property (h : method.isGetter = true ∨ method.isSetter = true) :
    ∃ property, propertyName? method.name = some property :=
  Option.isSome_iff_exists.mp (propertyName?_isSome_iff.mpr (exists_spells h))

/-- An accessor is a getter or a setter, and it exposes the property in its name. -/
theorem accessor?_property_eq_some_iff {property : String} :
    method.accessor?.map (·.property) = some property ↔
      (method.isGetter = true ∨ method.isSetter = true) ∧
        propertyName? method.name = some property := by
  cases hget : method.isGetter with
  | true => simp [accessor?, hget, Function.comp_def]
  | false =>
      cases hset : method.isSetter with
      | true => simp [accessor?, hget, hset, Function.comp_def]
      | false => simp [accessor?, hget, hset]

/-- Every getter and every setter is an accessor, and nothing else is. -/
theorem accessor?_isSome_iff :
    method.accessor?.isSome = true ↔ method.isGetter = true ∨ method.isSetter = true := by
  rw [← Option.isSome_map (f := Accessor.property), Option.isSome_iff_exists]
  constructor
  · rintro ⟨property, hproperty⟩
    exact (accessor?_property_eq_some_iff.mp hproperty).1
  · intro h
    obtain ⟨property, hproperty⟩ := exists_property h
    exact ⟨property, accessor?_property_eq_some_iff.mpr ⟨h, hproperty⟩⟩

end MethodDeclaration

end ClassLayout

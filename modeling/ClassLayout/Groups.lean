import ClassLayout.Outline

/-!
# ClassLayout.Groups

Methods that belong together and are expected to stand together: the overriding methods, the methods of
one name, the accessors of one property, the constructors. Each group is in the order of declaration,
and groups of one kind are in the order of their first members.
-/

namespace ClassLayout

/-- The groups of a class. -/
structure Groups where
  overrides : List Nat
  /-- One group for each name that methods share; constructors are left out. -/
  overloads : List (List Nat)
  /-- One group for each property. -/
  accessors : List (List Nat)
  constructors : List Nat
  deriving DecidableEq, Repr, Inhabited

/-- The groups of the methods in an outline. -/
def Outline.groups (outline : Outline) : Groups :=
  let methods := outline.methods.toList
  let overloaded := methods.filter fun method => method.isOverloaded && !method.isConstructor
  { overrides := (methods.filter (·.isOverride)).map (·.id)
    overloads :=
      (groupByKey (overloaded.map fun method => (method.name, method.id))).map (·.2)
    accessors := outline.accessorsByProperty.map (·.2)
    constructors := (methods.filter (·.isConstructor)).map (·.id) }

end ClassLayout

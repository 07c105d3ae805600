import ClassLayout.Decimal.Shortest

/-!
# ClassLayout.Settings

What a user can set: how many lines fit on a screen, how much each kind of disorder weighs, and whether
constructors are kept together at the top.

Settings are usable if a screen has a line and every weight is a finite number that is not negative.
-/

namespace ClassLayout

/-- The weight of each kind of disorder. -/
structure Weights where
  /-- Of a dependency that is declared above its caller. -/
  declarationBeforeUsage : Float := 4
  /-- Of a method between overriding methods. -/
  overrideSplit : Float := 3
  /-- Of a method between methods of one name. -/
  overloadSplit : Float := 5
  /-- Of a method between the accessors of one property. -/
  accessorSplit : Float := 3
  /-- Of a dependency that is declared in another order than it appears in its caller. -/
  relativeOrderInconsistency : Float := 1
  /-- Of a dependency that is more than a screen away from a call. -/
  distantDependency : Float := 3
  /-- Of a method between constructors. -/
  constructorSplit : Float := 4
  deriving Inhabited

/-- Everything that can be set. -/
structure Settings where
  screenLines : Nat := 50
  weights : Weights := {}
  /-- Constructors are kept together at the top of the class. -/
  constructorCohesion : Bool := true
  deriving Inhabited

/-- What makes settings unusable. -/
inductive SettingsFlaw where
  | emptyScreen
  | badWeight (name : String) (weight : Float)

/-- The flaw in words. -/
def SettingsFlaw.message : SettingsFlaw → String
  | .emptyScreen => "screen_lines_count must be at least 1"
  | .badWeight name weight =>
    name ++ " weight must be a finite non-negative number, got " ++ Decimal.text weight

namespace Weights

/-- The weights with their names, in the order in which they are checked. -/
def named (weights : Weights) : List (String × Float) :=
  [("declaration_before_usage", weights.declarationBeforeUsage),
   ("override_split", weights.overrideSplit),
   ("overload_split", weights.overloadSplit),
   ("accessor_split", weights.accessorSplit),
   ("relative_order_inconsistency", weights.relativeOrderInconsistency),
   ("distant_dependency", weights.distantDependency),
   ("constructor_split", weights.constructorSplit)]

/-- Set the weight of the given name. -/
def set (weights : Weights) (name : String) (weight : Float) : Weights :=
  match name with
  | "declaration_before_usage" => { weights with declarationBeforeUsage := weight }
  | "override_split" => { weights with overrideSplit := weight }
  | "overload_split" => { weights with overloadSplit := weight }
  | "accessor_split" => { weights with accessorSplit := weight }
  | "relative_order_inconsistency" => { weights with relativeOrderInconsistency := weight }
  | "distant_dependency" => { weights with distantDependency := weight }
  | "constructor_split" => { weights with constructorSplit := weight }
  | _ => weights

/-- The names of the weights. -/
def names : List String :=
  ({} : Weights).named.map (·.1)

/-- The defaults, but for the given weights. -/
def ofNamed (given : List (String × Float)) : Weights :=
  given.foldl (fun weights (name, weight) => weights.set name weight) {}

/-- Whether a weight can be used. -/
def isUsable (weight : Float) : Bool :=
  weight.isFinite && weight ≥ 0

/-- The flaw of a weight. -/
def flaw? (name : String) (weight : Float) : Option SettingsFlaw :=
  if isUsable weight then none else some (.badWeight name weight)

end Weights

namespace Settings

/-- The first flaw of the settings. -/
def flaw? (settings : Settings) : Option SettingsFlaw :=
  if settings.screenLines = 0 then some .emptyScreen
  else settings.weights.named.findSome? fun (name, weight) => Weights.flaw? name weight

/-- Whether nothing differs from what is set by default. -/
def isDefault (settings : Settings) : Bool :=
  let standard : Settings := {}
  settings.screenLines == standard.screenLines
    && settings.constructorCohesion == standard.constructorCohesion
    && (settings.weights.named.zip standard.weights.named).all fun (set, standard) =>
      set.2 == standard.2

end Settings

end ClassLayout

import ClassLayout.Arrangement.Metrics

/-!
# ClassLayout.Penalty

The penalty of an arrangement: its counts of disorder, each times its weight, added from left to right
as doubles. Constructors count only if they are to be kept together.
-/

namespace ClassLayout

/-- The counts of disorder. -/
structure Breakdown where
  totalDistance : Nat := 0
  declarationBeforeUsage : Nat := 0
  overrideSplit : Nat := 0
  overloadSplit : Nat := 0
  accessorSplit : Nat := 0
  relativeOrderInconsistency : Nat := 0
  distantDependency : Nat := 0
  /-- Absent if constructors are not kept together. -/
  constructorSplit : Option Nat := none
  deriving DecidableEq, Repr, Inhabited

/-- The penalty of the counts. -/
def Breakdown.cost (breakdown : Breakdown) (weights : Weights) : Float :=
  breakdown.totalDistance.toFloat
    + breakdown.declarationBeforeUsage.toFloat * weights.declarationBeforeUsage
    + breakdown.overrideSplit.toFloat * weights.overrideSplit
    + breakdown.overloadSplit.toFloat * weights.overloadSplit
    + breakdown.accessorSplit.toFloat * weights.accessorSplit
    + breakdown.relativeOrderInconsistency.toFloat * weights.relativeOrderInconsistency
    + breakdown.distantDependency.toFloat * weights.distantDependency
    + (breakdown.constructorSplit.getD 0).toFloat * weights.constructorSplit

/-- The counts in words. -/
def Breakdown.summary (breakdown : Breakdown) : String :=
  let always :=
    s!"distance={breakdown.totalDistance} before_usage={breakdown.declarationBeforeUsage}"
      ++ s!" override_split={breakdown.overrideSplit} overload_split={breakdown.overloadSplit}"
      ++ s!" accessor_split={breakdown.accessorSplit}"
      ++ s!" inconsistency={breakdown.relativeOrderInconsistency}"
      ++ s!" distant={breakdown.distantDependency}"
  match breakdown.constructorSplit with
  | some split => always ++ s!" constructor_split={split}"
  | none => always

/-- The counts of an arrangement. -/
def Settings.breakdown (settings : Settings) (arrangement : Arrangement) : Breakdown :=
  { totalDistance := arrangement.totalDistance
    declarationBeforeUsage := arrangement.declarationBeforeUsage
    overrideSplit := arrangement.overrideSplit
    overloadSplit := arrangement.overloadSplit
    accessorSplit := arrangement.accessorSplit
    relativeOrderInconsistency := arrangement.relativeOrderInconsistency
    distantDependency := arrangement.distantDependency settings.screenLines
    constructorSplit :=
      if settings.constructorCohesion then some arrangement.constructorSplit else none }

/-- The penalty of an arrangement. -/
def Settings.penalty (settings : Settings) (arrangement : Arrangement) : Float :=
  (settings.breakdown arrangement).cost settings.weights

end ClassLayout

import ClassLayout.Json.Decode
import ClassLayout.Settings

/-!
# ClassLayout.Settings.Json

Settings as JSON. What is left out has its default; whether the settings are usable is not asked here.
-/

namespace ClassLayout

open Json

/-- The weights that have been read, with their names. -/
abbrev Weights.Draft := List (String × Float)

/-- Read one weight. -/
def Weights.Draft.put (draft : Draft) (key : String) (doc : Doc) : Except Fault Draft :=
  if Weights.names.contains key then do
    if draft.any (·.1 == key) then .error .unfit
    let weight ← Decode.float doc
    return (key, weight) :: draft
  else do
    Decode.skip doc
    return draft

/-- Read weights. -/
def Weights.decode : Decoder Weights :=
  Decode.record Weights.names Weights.Draft.put [] fun draft => .ok (Weights.ofNamed draft)

/-- The settings that have been read. -/
structure Settings.Draft where
  screenLines : Option Nat := none
  weights : Option Weights := none
  constructorCohesion : Option Bool := none

/-- Read one setting. -/
def Settings.Draft.put (draft : Draft) (key : String) (doc : Doc) : Except Fault Draft :=
  match key with
  | "screen_lines_count" => do
    return { draft with screenLines := ← Decode.once Decode.nat draft.screenLines doc }
  | "weights" => do
    return { draft with weights := ← Decode.once Weights.decode draft.weights doc }
  | "constructor_cohesion" => do
    return { draft with
      constructorCohesion := ← Decode.once Decode.bool draft.constructorCohesion doc }
  | _ => do
    Decode.skip doc
    return draft

/-- The defaults, but for the settings that have been read. -/
def Settings.Draft.finish (draft : Draft) : Settings :=
  let standard : Settings := {}
  { screenLines := draft.screenLines.getD standard.screenLines
    weights := draft.weights.getD standard.weights
    constructorCohesion := draft.constructorCohesion.getD standard.constructorCohesion }

/-- Read settings. -/
def Settings.decode : Decoder Settings :=
  Decode.record ["screen_lines_count", "weights", "constructor_cohesion"]
    Settings.Draft.put {} fun draft => .ok draft.finish

end ClassLayout

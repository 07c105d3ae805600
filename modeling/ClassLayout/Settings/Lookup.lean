import ClassLayout.Path
import ClassLayout.Settings.Toml

/-!
# ClassLayout.Settings.Lookup

Where settings come from: a file of a fixed name in a directory or in one of those above it.

The nearest file that can be read and holds usable settings counts. A file that cannot be read, or whose
settings are not usable, is passed over with a warning; a file that does not exist, without one. How a file
is read is left to the caller, so nothing here depends on a file system.
-/

namespace ClassLayout.Lookup

/-- How to read the text of the file at a path. -/
abbrev Reader := String → Except ReadFailure String

/-- What is said about a search for settings. -/
inductive Notice where
  | loaded (path : String)
  | unreadable (path : String) (failure : ReadFailure)
  | ignored (path : String) (error : Error)
  | noneFound
  | noCurrentDirectory

/-- The name of the file with the settings. -/
def fileName : String := ".method-order.toml"

/-- The number of directories in which to look. -/
def depthLimit : Nat := 10

namespace Notice

/-- Whether the notice is a warning. -/
def isWarning : Notice → Bool
  | .unreadable .. | .ignored .. | .noCurrentDirectory => true
  | .loaded _ | .noneFound => false

/-- The notice in words, without the cause of a failure. -/
def text : Notice → String
  | .loaded path => "Loaded config from " ++ path
  | .unreadable path _ => "Failed to read config file " ++ path
  | .ignored path _ => "Ignoring invalid config file " ++ path
  | .noneFound =>
    s!"No config found after checking {depthLimit} directories. Using default config."
  | .noCurrentDirectory => "Failed to get current directory"

end Notice

/-- The settings in a file. -/
def load (read : Reader) (path : String) : Except Error Settings :=
  match read path with
  | .error failure => .error (.io failure)
  | .ok content => do
    let settings ← Settings.parse content
    settings.checked (some path)

/-- What is said about a file that was asked for. -/
def loadNotices (read : Reader) (path : String) : List Notice :=
  match load read path with
  | .ok _ => [.loaded path]
  | .error _ => []

/-- What is said about a file that has been tried and passed over. -/
def passedOver (path : String) : Error → List Notice
  | .io .notFound => []
  | .io failure => [.unreadable path failure]
  | error => [.ignored path error]

/-- The settings in the first file that has usable ones, and what is said on the way. -/
def firstUsable (read : Reader) : List String → Option Settings × List Notice
  | [] => (none, [])
  | path :: rest =>
    match load read path with
    | .ok settings => (some settings, [.loaded path])
    | .error error =>
      let (settings, notices) := firstUsable read rest
      (settings, passedOver path error ++ notices)

/-- The files in which settings are looked for, the nearest first. -/
def candidates (start : String) : List String :=
  (Path.ancestors start depthLimit).map (Path.join · fileName)

/-- The settings for a directory, and what is said on the way. -/
def find (read : Reader) (start : String) : Settings × List Notice :=
  match firstUsable read (candidates start) with
  | (some settings, notices) => (settings, notices)
  | (none, notices) => ({}, notices ++ [.noneFound])

/-- The settings for the current directory, which may be gone. -/
def findHere (read : Reader) (current : Option String) : Settings × List Notice :=
  match current with
  | some start => find read start
  | none => ({}, [.noCurrentDirectory])

end ClassLayout.Lookup

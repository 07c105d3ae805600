import ClassLayout.Error
import ClassLayout.Path

/-!
# ClassLayout.FileTree

Directories and files, as far as reading a file by its path depends on them.

A place in the tree is the list of the names that lead to it. A path is followed name by name: an empty
name and a dot stay, two dots go up, and each step must start in a directory. Names have at most 255 bytes
and paths at most 4095, and neither has a zero character.
-/

namespace ClassLayout

/-- What is found at a place. -/
inductive FileTree.Entry where
  | directory
  | file (content : ByteArray)

/-- The entries of a tree below its root, which is a directory; of two at one place the first counts. -/
structure FileTree where
  entries : List (List String × FileTree.Entry)

namespace FileTree

/-- The tree that has only a root. -/
def empty : FileTree :=
  { entries := [] }

/-- What is found at a place. -/
def entry? (tree : FileTree) : List String → Option Entry
  | [] => some .directory
  | place => tree.entries.lookup place

/-- Where one step leads. -/
def next (place : List String) (name : String) : List String :=
  if name.isEmpty || name == "." then place
  else if name == ".." then place.dropLast
  else place ++ [name]

/-- The names in a path. -/
def names (path : String) : List String :=
  (Path.segments path.toList).map String.ofList

/-- The number of bytes that a name may have. -/
def nameLimit : Nat := 255

/-- The number of bytes that a path may have. -/
def pathLimit : Nat := 4095

/-- Follow names from a place. -/
def walk (tree : FileTree) (place : List String) : List String → Except ReadFailure (List String)
  | [] => .ok place
  | name :: rest =>
    match tree.entry? place with
    | none => .error .notFound
    | some (.file _) => .error .notDirectory
    | some .directory =>
      if nameLimit < name.utf8ByteSize then .error .nameTooLong
      else
        match tree.entry? (next place name) with
        | none => .error .notFound
        | some _ => tree.walk (next place name) rest

/-- The place that a path from the root leads to. A path that is none is refused before it is followed. -/
def find (tree : FileTree) (path : String) : Except ReadFailure (List String) :=
  if path.toList.contains '\x00' then .error .invalidPath
  else if pathLimit < path.utf8ByteSize then .error .nameTooLong
  else tree.walk [] (names path)

/-- Read the text of a file, given its path from the root. -/
def read (tree : FileTree) (path : String) : Except ReadFailure String := do
  let place ← tree.find path
  match tree.entry? place with
  | none => .error .notFound
  | some .directory => .error .isDirectory
  | some (.file content) =>
    match String.fromUTF8? content with
    | some text => .ok text
    | none => .error .notText

/-- The path from the root without detours, if the given one leads anywhere. -/
def realPath? (tree : FileTree) (path : String) : Option String :=
  match tree.find path with
  | .ok place => some ("/" ++ "/".intercalate place)
  | .error _ => none

/-- Put an entry at a place. -/
def put (tree : FileTree) (place : List String) (entry : Entry) : FileTree :=
  { entries := (place, entry) :: tree.entries }

/-- Make the directories that lead from a place along names. -/
def makeDirectories (tree : FileTree) (place : List String) : List String → FileTree
  | [] => tree
  | name :: rest =>
    let there := next place name
    match tree.entry? there with
    | some _ => tree.makeDirectories there rest
    | none => (tree.put there .directory).makeDirectories there rest

/-- Make a directory, and those that lead to it. -/
def addDirectory (tree : FileTree) (path : String) : FileTree :=
  tree.makeDirectories [] (names path)

/-- Put a file at a path. -/
def addFile (tree : FileTree) (path : String) (content : ByteArray) : FileTree :=
  tree.put ((names path).foldl next []) (.file content)

end FileTree

end ClassLayout

import ClassLayout.Text.Split

/-!
# ClassLayout.Path

Paths as texts, and the directories above a path.

A path is a base and a body. The base is the leading slash of an absolute path, or the leading dot of one
that starts at the current directory, or nothing. The slashes of the body divide it into segments; empty
segments and single dots name nothing. The parent of a path is the text up to the end of the last segment
but one that names something.
-/

namespace ClassLayout.Path

/-- Whether the path starts with a slash. -/
def isAbsolute (path : List Char) : Bool :=
  path.head? == some '/'

/-- Whether the path starts with a dot that stands for the current directory. -/
def startsHere (path : List Char) : Bool :=
  path.head? == some '.' && (path.tail.isEmpty || isAbsolute path.tail)

/-- The base and the body of a path. -/
def split (path : List Char) : List Char × List Char :=
  if isAbsolute path || startsHere path then (path.take 1, path.drop 1) else ([], path)

/-- The pieces between the slashes. -/
def segments (body : List Char) : List (List Char) :=
  Text.split '/' body

/-- Whether a segment names nothing. -/
def isIdle (segment : List Char) : Bool :=
  segment.isEmpty || segment == ['.']

/-- The segments up to the last one that names something. -/
def dropIdle (segments : List (List Char)) : List (List Char) :=
  (segments.reverse.dropWhile isIdle).reverse

/-- The parent of a path. A root has none, and neither has the empty path; the current directory has
the empty path for a parent. -/
def parentChars? (path : List Char) : Option (List Char) :=
  let (base, body) := split path
  match dropIdle (segments body) with
  | [] => if startsHere path then some [] else none
  | named => some (base ++ Text.unite '/' (dropIdle named.dropLast))

/-- The path of the directory that holds what a path names. -/
def parent? (path : String) : Option String :=
  (parentChars? path.toList).map String.ofList

/-- A path and the directories above it, the nearest first, at most `limit` in all. -/
def ancestors (start : String) : (limit : Nat) → List String
  | 0 => []
  | limit + 1 =>
    start ::
      match parent? start with
      | some parent => ancestors parent limit
      | none => []

/-- The path of a name in a directory. An absolute name stands for itself. -/
def join (directory name : String) : String :=
  if isAbsolute name.toList || directory.isEmpty then name
  else if directory.toList.getLast? == some '/' then directory ++ name
  else directory ++ "/" ++ name

end ClassLayout.Path

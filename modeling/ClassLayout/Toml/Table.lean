import ClassLayout.Toml.Value

/-!
# ClassLayout.Toml.Table

Tables while a text is read, and which part of a text may add to which table.

A table is declared by a header of its own, or implied by a longer header, or made by a dotted key.
A header may declare an implied table later, but no table twice and none that a dotted key has made.
A dotted key passes through tables that no header has declared, and adds to one that a dotted key has
made. Values, and with them the tables that are written in braces, are closed to both.
-/

namespace ClassLayout.Toml

/-- How a table came to be. -/
inductive Origin where
  | declared
  | implied
  | dotted
  deriving DecidableEq, Repr

/-- What a key of a table stands for. -/
inductive Entry where
  | value (content : Value)
  | table (origin : Origin) (fields : List (String × Entry))
  /-- The tables of a list that headers have declared one by one, the last first. -/
  | tables (items : List (List (String × Entry)))

/-- The keys of a table with what they stand for. -/
abbrev Fields := List (String × Entry)

namespace Fields

/-- Let a key stand for something else, or add it. -/
def set (fields : Fields) (key : String) (entry : Entry) : Fields :=
  match fields with
  | [] => [(key, entry)]
  | field :: rest => if field.1 = key then (key, entry) :: rest else field :: set rest key entry

/-- Change the table at the end of a path, making those that are missing. Dotted keys and headers differ in
the tables that they make and that they may pass through. -/
def descend (isDotted : Bool) (change : Origin → Fields → Option Fields) (origin : Origin)
    (fields : Fields) : List String → Option Fields
  | [] => change origin fields
  | key :: path =>
    match fields.lookup key with
    | none => do
      let made := if isDotted then .dotted else .implied
      let inner ← descend isDotted change made [] path
      return set fields key (.table made inner)
    | some (.table origin inner) => do
      if isDotted && origin == .declared then none
      let inner ← descend isDotted change origin inner path
      return set fields key (.table origin inner)
    | some (.tables (last :: before)) => do
      let last ← descend isDotted change .declared last path
      return set fields key (.tables (last :: before))
    | some _ => none

/-- Add a value under a dotted key. -/
def insert (path : List String) (value : Value) (origin : Origin) (fields : Fields) :
    Option Fields := do
  let key ← path.getLast?
  let parents := path.dropLast
  descend true
    (fun origin fields =>
      if (origin == .dotted) == parents.isEmpty || (fields.lookup key).isSome then none
      else some (fields.set key (.value value)))
    origin fields parents

/-- Declare a table by its header. -/
def declareTable (path : List String) (fields : Fields) : Option Fields := do
  let key ← path.getLast?
  descend false
    (fun _ fields =>
      match fields.lookup key with
      | none => some (fields.set key (.table .declared []))
      | some (.table .implied inner) => some (fields.set key (.table .declared inner))
      | some _ => none)
    .declared fields path.dropLast

/-- Declare the next table of a list by its header. -/
def declareItem (path : List String) (fields : Fields) : Option Fields := do
  let key ← path.getLast?
  descend false
    (fun _ fields =>
      match fields.lookup key with
      | none => some (fields.set key (.tables [[]]))
      | some (.tables items) => some (fields.set key (.tables ([] :: items)))
      | some _ => none)
    .declared fields path.dropLast

end Fields

/-! ## The values of tables -/

mutual

/-- The value of an entry. -/
def Entry.toValue : Entry → Value
  | .value content => content
  | .table _ fields => .table (Entry.valuesOf fields)
  | .tables items => .array (Entry.tablesOf items).reverse

/-- The values of the fields of a table. -/
def Entry.valuesOf : List (String × Entry) → List (String × Value)
  | [] => []
  | (key, entry) :: rest => (key, entry.toValue) :: Entry.valuesOf rest

/-- The values of tables. -/
def Entry.tablesOf : List (List (String × Entry)) → List Value
  | [] => []
  | fields :: rest => .table (Entry.valuesOf fields) :: Entry.tablesOf rest

end

/-- The value of a table. -/
def Fields.toValue (fields : Fields) : Value :=
  .table (Entry.valuesOf fields)

/-- The table in braces with the given keys and values. -/
def Fields.ofPairs? (pairs : List (List String × Value)) : Option Fields :=
  pairs.foldlM (fun fields pair => Fields.insert pair.1 pair.2 .declared fields) []

end ClassLayout.Toml

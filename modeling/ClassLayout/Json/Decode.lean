import ClassLayout.Json.Doc

/-!
# ClassLayout.Json.Decode

Readers of documents. A reader walks through a document from left to right and answers a value or the
first fault that it meets.

* A scalar of the wrong kind is read in full before it is refused, so a fault of its own wins; an array
  or object is refused unread.
* A record is an object, or an array of its fields in their order. Of the fields of an object each is
  read when its turn comes; a key that occurs again is refused before its value is looked at; what is
  missing shows when the object ends. Other fields are stepped over.
* A variant is its name, or an object with its name as the only key.
-/

namespace ClassLayout.Json

/-- A reader of documents. -/
abbrev Decoder (α : Type) := Doc → Except Fault α

namespace Decode

/-- The fault of a document that is of another kind than the one asked for. -/
def mismatch : Doc → Fault
  | .null | .bool _ | .array .. | .object .. => .unfit
  | .number n => if n.isInRange then .unfit else .malformed
  | .text (.ok _) => .unfit
  | .text (.error fault) => fault
  | .broken breakage => breakage.value

/-- The end of an array or object, for one who reads it. -/
def ending : Option Breakage → Except Fault Unit
  | none => .ok ()
  | some breakage => .error breakage.value

/-! ## Scalars -/

/-- A string. -/
def text : Decoder String
  | .text content => content
  | doc => .error (mismatch doc)

/-- A truth value. -/
def bool : Decoder Bool
  | .bool b => .ok b
  | doc => .error (mismatch doc)

/-- A natural number of 64 bits. -/
def nat : Decoder Nat
  | .number n =>
    match n.toNat? with
    | some value => .ok value
    | none => .error (mismatch (.number n))
  | doc => .error (mismatch doc)

/-- A double. -/
def float : Decoder Float
  | .number n =>
    match n.toFloat? with
    | some x => .ok x
    | none => .error .malformed
  | doc => .error (mismatch doc)

/-- The value may be null. -/
def option (decode : Decoder α) : Decoder (Option α)
  | .null => .ok none
  | doc => (decode doc).map some

/-- Null, and nothing else. -/
def null : Decoder Unit
  | .null => .ok ()
  | doc => .error (mismatch doc)

/-! ## Arrays -/

/-- An array of any length. -/
def list (decode : Decoder α) : Decoder (List α)
  | .array items close => do
    let values ← items.mapM decode
    ending close
    return values
  | doc => .error (mismatch doc)

/-! ## Stepping over a value -/

mutual

/-- Step over a value, at any depth. -/
def skip : Doc → Except Fault Unit
  | .null | .bool _ | .number _ | .text _ => .ok ()
  | .array items close => do
    skipItems items
    skipEnding close
  | .object fields close => do
    skipFields fields
    skipEnding close
  | .broken breakage => .error breakage.skip

/-- Step over the items of an array. -/
def skipItems : List Doc → Except Fault Unit
  | [] => .ok ()
  | doc :: rest => do
    skip doc
    skipItems rest

/-- Step over the fields of an object. -/
def skipFields : List (Key × Doc) → Except Fault Unit
  | [] => .ok ()
  | (_, doc) :: rest => do
    skip doc
    skipFields rest

/-- The end of an array or object, for one who steps over it. -/
def skipEnding : Option Breakage → Except Fault Unit
  | none => .ok ()
  | some breakage => .error breakage.skip

end

/-! ## Keeping a value for later -/

/-- The number of arrays and objects that may be open at once in a value that is kept. -/
def depthLimit : Nat := 127

mutual

/-- Look at a value closely, in full, when `depth` arrays and objects are open around it. -/
def inspect (depth : Nat) : Doc → Except Fault Unit
  | .null | .bool _ => .ok ()
  | .number n => if n.isInRange then .ok () else .error .malformed
  | .text content => content.map fun _ => ()
  | .array items close =>
    if depth < depthLimit then do
      inspectItems (depth + 1) items
      ending close
    else .error .malformed
  | .object fields close =>
    if depth < depthLimit then do
      inspectFields (depth + 1) fields
      ending close
    else .error .malformed
  | .broken breakage => .error breakage.value

/-- Look at the items of an array. -/
def inspectItems (depth : Nat) : List Doc → Except Fault Unit
  | [] => .ok ()
  | doc :: rest => do
    inspect depth doc
    inspectItems depth rest

/-- Look at the fields of an object. -/
def inspectFields (depth : Nat) : List (Key × Doc) → Except Fault Unit
  | [] => .ok ()
  | (key, doc) :: rest => do
    let _ ← key
    inspect depth doc
    inspectFields depth rest

end

/-! ## Records -/

/-- Read a field that may be given once. -/
def once (decode : Decoder α) (slot : Option α) (doc : Doc) : Except Fault (Option α) :=
  match slot with
  | some _ => .error .unfit
  | none => (decode doc).map some

/-- The value of a field that must be given. -/
def required (slot : Option α) : Except Fault α :=
  match slot with
  | some value => .ok value
  | none => .error .unfit

/-- Read the fields of an object one after another. -/
def fields (put : σ → String → Doc → Except Fault σ) (draft : σ) (given : List (Key × Doc)) :
    Except Fault σ :=
  given.foldlM
    (fun draft field => do
      let key ← field.1
      put draft key field.2)
    draft

/-- A record that is written as an object. -/
def object (put : σ → String → Doc → Except Fault σ) (draft : σ) (finish : σ → Except Fault α) :
    Decoder α
  | .object given close => do
    let draft ← fields put draft given
    ending close
    finish draft
  | doc => .error (mismatch doc)

/-- A record that is written as an object, or as an array of its fields in the order of `names`. -/
def record (names : List String) (put : σ → String → Doc → Except Fault σ) (draft : σ)
    (finish : σ → Except Fault α) : Decoder α
  | .array items close => do
    let draft ←
      (names.zip items).foldlM (fun draft field => put draft field.1 field.2) draft
    if names.length < items.length then .error .malformed
    ending close
    finish draft
  | doc => object put draft finish doc

/-! ## Variants -/

/-- A variant, by the names of those without content and the readers of those with content. -/
def variant (plain? : String → Option α) (content? : String → Option (Decoder α)) : Decoder α
  | .text content => do
    let name ← content
    match plain? name with
    | some value => .ok value
    | none => .error .unfit
  | .object [] none => .error .malformed
  | .object [] (some breakage) => .error breakage.variant
  | .object ((key, doc) :: rest) close => do
    let name ← key
    let value ←
      match plain? name, content? name with
      | some value, _ => (null doc).map fun _ => value
      | none, some decode => decode doc
      | none, none => .error .unfit
    match rest, close with
    | [], none => .ok value
    | [], some breakage => .error breakage.variant
    | _ :: _, _ => .error .malformed
  | .broken breakage => .error breakage.variant
  | _ => .error .malformed

end Decode

/-- Read a whole document: nothing may follow the value. -/
def Document.decode (decode : Decoder α) (document : Document) : Except Fault α := do
  let value ← decode document.root
  if document.hasMore then .error .malformed
  return value

end ClassLayout.Json

import ClassLayout.Json.Token
import ClassLayout.Json.Value

/-!
# ClassLayout.Json.Doc

What a JSON text says, as far as it can be read.

A document keeps everything that a reader may ask for: fields in their order, keys that occur twice,
numbers as they are written. Of a malformed text it holds what stands before the first fault, and the
fault in its place. So one who walks through a document from left to right meets either what is wrong
for its own purpose or the fault of the text, whichever comes first.

The text's tokens drive a machine with a stack of the arrays and objects that are open. The machine
reads each token once.
-/

namespace ClassLayout.Json

/-- A key, or the fault of one whose escapes do not pair up. -/
abbrev Key := Except Fault String

/-- A value as it was read. An array or object that is not closed ends with the fault that stands in
the place of its next part. -/
inductive Doc where
  | null
  | bool (b : Bool)
  | number (n : Numeral)
  | text (content : Except Fault String)
  | array (items : List Doc) (ending : Option Breakage)
  | object (fields : List (Key × Doc)) (ending : Option Breakage)
  /-- There is no proper value here. -/
  | broken (breakage : Breakage)

/-- A document: its value, and whether any text follows. -/
structure Document where
  root : Doc
  hasMore : Bool

namespace Doc

/-! ## The machine -/

/-- An array or object that is open, with what it holds so far, the last part first. -/
inductive Frame where
  | array (before : List Doc)
  | object (before : List (Key × Doc))
  /-- An object of which a key has been read and its value has not. -/
  | field (before : List (Key × Doc)) (key : Key)

/-- What comes next. -/
inductive Place where
  | value
  /-- The first item of an array, or its end. -/
  | firstItem
  /-- The first key of an object, or its end. -/
  | firstKey
  /-- A key after a comma. -/
  | key
  | colon
  /-- A comma or the end of the innermost array or object. -/
  | separator

/-- What a token leads to. -/
inductive Step where
  | next (stack : List Frame) (place : Place)
  /-- The outermost value is complete. -/
  | done (root : Doc)
  /-- The text is malformed here. -/
  | stop (root : Doc)

/-- The whole value, when the text breaks off after the given innermost part. -/
def abandon (part : Doc) : List Frame → Doc
  | [] => part
  | .array before :: stack => abandon (.array (part :: before).reverse none) stack
  | .object before :: stack => abandon (.object before.reverse none) stack
  | .field before key :: stack => abandon (.object ((key, part) :: before).reverse none) stack

/-- The whole value, when the innermost array or object breaks off with the given fault. -/
def cutOff (breakage : Breakage) : List Frame → Doc
  | [] => .broken breakage
  | .array before :: stack => abandon (.array before.reverse (some breakage)) stack
  | .object before :: stack => abandon (.object before.reverse (some breakage)) stack
  | .field before key :: stack => abandon (.broken breakage) (.field before key :: stack)

/-- A value is complete. -/
def supply (part : Doc) : List Frame → Step
  | [] => .done part
  | .array before :: stack => .next (.array (part :: before) :: stack) .separator
  | .object before :: stack => .next (.object before :: stack) .separator
  | .field before key :: stack => .next (.object ((key, part) :: before) :: stack) .separator

/-- A value is to start with the token. -/
def stepValue (stack : List Frame) : Token → Step
  | .openArray => .next (.array [] :: stack) .firstItem
  | .openObject => .next (.object [] :: stack) .firstKey
  | .null => supply .null stack
  | .bool b => supply (.bool b) stack
  | .number n => supply (.number n) stack
  | .text content => supply (.text content) stack
  | .brokenText value skip => .stop (abandon (.broken { value, skip, variant := value }) stack)
  | .broken breakage => .stop (abandon (.broken breakage) stack)
  | .closeArray | .closeObject | .comma | .colon =>
    .stop (abandon (.broken (.all .malformed)) stack)

/-- The machine reads one token. -/
def step (stack : List Frame) (place : Place) (token : Token) : Step :=
  match place, stack, token with
  | .value, stack, token => stepValue stack token
  | .firstItem, .array before :: stack, .closeArray => supply (.array before.reverse none) stack
  | .firstItem, stack, token => stepValue stack token
  | .firstKey, .object before :: stack, .closeObject => supply (.object before.reverse none) stack
  | .firstKey, .object before :: stack, .text key => .next (.field before key :: stack) .colon
  | .firstKey, stack, .brokenText value skip => .stop (cutOff { value, skip, variant := value } stack)
  | .firstKey, stack, _ => .stop (cutOff (.all .malformed) stack)
  | .key, .object before :: stack, .text key => .next (.field before key :: stack) .colon
  | .key, stack, .brokenText value skip => .stop (cutOff { value, skip, variant := .malformed } stack)
  | .key, stack, _ => .stop (cutOff (.all .malformed) stack)
  | .colon, stack, .colon => .next stack .value
  | .colon, stack, _ => .stop (cutOff (.all .malformed) stack)
  | .separator, .array before :: stack, .comma => .next (.array before :: stack) .value
  | .separator, .array before :: stack, .closeArray => supply (.array before.reverse none) stack
  | .separator, .object before :: stack, .comma => .next (.object before :: stack) .key
  | .separator, .object before :: stack, .closeObject => supply (.object before.reverse none) stack
  | .separator, stack, _ => .stop (cutOff (.all .malformed) stack)

/-- The whole value when the text ends. -/
def atEnd (stack : List Frame) : Place → Doc
  | .value | .firstItem => abandon (.broken (.all .unfinished)) stack
  | .firstKey | .colon | .separator => cutOff (.all .unfinished) stack
  | .key => cutOff { value := .unfinished, skip := .unfinished, variant := .malformed } stack

/-- The machine reads all tokens. -/
def run (stack : List Frame) (place : Place) : List Token → Document
  | [] => { root := atEnd stack place, hasMore := false }
  | token :: rest =>
    match step stack place token with
    | .next stack place => run stack place rest
    | .done root => { root, hasMore := !rest.isEmpty }
    | .stop root => { root, hasMore := false }

end Doc

/-- What a text says. -/
def Document.read (input : List Char) : Document :=
  Doc.run [] .value (tokens input)

mutual

/-- The document of a value that is written. -/
def Doc.ofValue : Value → Doc
  | .null => .null
  | .bool b => .bool b
  | .number n => .number (.ofInt n)
  | .text s => .text (.ok s)
  | .array items => .array (Doc.ofItems items) none
  | .object fields => .object (Doc.ofFields fields) none

/-- The documents of the items of an array. -/
def Doc.ofItems : List Value → List Doc
  | [] => []
  | v :: rest => Doc.ofValue v :: Doc.ofItems rest

/-- The documents of the fields of an object. -/
def Doc.ofFields : List (String × Value) → List (Key × Doc)
  | [] => []
  | (key, v) :: rest => (.ok key, Doc.ofValue v) :: Doc.ofFields rest

end

end ClassLayout.Json

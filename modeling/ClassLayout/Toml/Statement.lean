import ClassLayout.Toml.Scalar
import ClassLayout.Toml.Table
import ClassLayout.Toml.Token

/-!
# ClassLayout.Toml.Statement

A TOML text as a list of statements: headers, and keys with their values.

The tokens drive a machine with a stack of the arrays and tables that are open. An array or a table in
braces may be spread over lines and have a comma after its last part, but a key stands on one line. A date
and a time with a single space between them are one value.
-/

namespace ClassLayout.Toml

/-- A statement. -/
inductive Statement where
  | header (path : List String)
  | itemHeader (path : List String)
  | pair (path : List String) (value : Value)

namespace Statement

/-- What is open while a value is read. Parts read before stand in reverse. -/
inductive Frame where
  /-- The value of a statement. -/
  | pair (path : List String)
  | array (before : List Value)
  | table (before : List (List String × Value))
  /-- A table of which a key has been read and its value has not. -/
  | field (before : List (List String × Value)) (path : List String)

/-- What a key is read for. -/
inductive KeyUse where
  | header
  | itemHeader
  | pair
  /-- A field of the innermost table. -/
  | field

/-- What comes next. -/
inductive Place where
  /-- A statement, or nothing. -/
  | line
  /-- The end of a line. -/
  | lineEnd
  /-- The key of a header, or the second bracket of an item's header. -/
  | header
  /-- A part of a key, after the given parts. -/
  | key (use : KeyUse) (before : List String)
  /-- A dot, or the end of a key. -/
  | keyEnd (use : KeyUse) (parts : List String)
  /-- The equals sign of a field, on a line after its key. -/
  | fieldEquals (parts : List String)
  /-- The second closing bracket of an item's header. -/
  | secondBracket (parts : List String)
  | value
  /-- An item of an array, or its end. -/
  | item
  /-- A field of a table, or its end. -/
  | field
  /-- More of the word that starts so. -/
  | word (chars : List Char)
  /-- A time, after a date and a space. -/
  | time (date : List Char)
  /-- A comma or the end of the innermost array or table, or else the end of the line. -/
  | separator

/-- The state of the machine; the statements stand in reverse. -/
structure State where
  done : List Statement
  stack : List Frame
  place : Place

/-- The number of arrays and tables that may be open at once. -/
def depthLimit : Nat := 80

/-- The number of parts that a key may have. -/
def partLimit : Nat := 80

/-- The part of a key that a token is. -/
def keyPart? : Token → Option String
  | .word chars =>
    if chars.all fun c => c.isAlphanum || c == '_' || c == '-' then some (String.ofList chars)
    else none
  | .text content false => some (String.ofList content)
  | _ => none

namespace State

/-- Go on elsewhere. -/
def goto (state : State) (place : Place) : State :=
  { state with place }

/-- A statement is complete. -/
def finish (state : State) (statement : Statement) : State :=
  { done := statement :: state.done, stack := [], place := .lineEnd }

/-- Open an array or table, unless too many are open. -/
def opened? (state : State) (frame : Frame) (place : Place) : Option State :=
  if state.stack.length ≤ depthLimit then
    some { state with stack := frame :: state.stack, place }
  else none

/-- A value is complete. -/
def supply? (state : State) (value : Value) : Option State :=
  match state.stack with
  | [.pair path] => some (state.finish (.pair path value))
  | .array before :: stack =>
    some { state with stack := .array (value :: before) :: stack, place := .separator }
  | .field before path :: stack =>
    some { state with stack := .table ((path, value) :: before) :: stack, place := .separator }
  | _ => none

/-- The innermost array or table ends. -/
def close? (state : State) : Option State :=
  match state.stack with
  | .array before :: stack => { state with stack }.supply? (.array before.reverse)
  | .table before :: stack => do
    let fields ← Fields.ofPairs? before.reverse
    { state with stack }.supply? fields.toValue
  | _ => none

/-- A word is complete. -/
def supplyWord? (state : State) (chars : List Char) : Option State := do
  let value ← Scalar.read? chars
  state.supply? value

/-- A value is to start with the token. -/
def startValue? (state : State) : Token → Option State
  | .openBracket => state.opened? (.array []) .item
  | .openBrace => state.opened? (.table []) .field
  | .text content _ => state.supply? (.text (String.ofList content))
  | .word chars => some (state.goto (.word chars))
  | .dot => some (state.goto (.word ['.']))
  | _ => none

/-- A further part of a key is to come, unless it has too many. -/
def nextPart? (state : State) (use : KeyUse) (parts : List String) : Option State :=
  if parts.length < partLimit then some (state.goto (.key use parts)) else none

/-- A key is complete, and the token after it is read. -/
def endKey? (state : State) (use : KeyUse) (parts : List String) (token : Token) : Option State :=
  match use, token with
  | .header, .closeBracket => some (state.finish (.header parts.reverse))
  | .itemHeader, .closeBracket => some (state.goto (.secondBracket parts))
  | .pair, .equals => some { state with stack := [.pair parts.reverse], place := .value }
  | .field, .equals =>
    match state.stack with
    | .table before :: stack =>
      some { state with stack := .field before parts.reverse :: stack, place := .value }
    | _ => none
  | .field, .newLine => some (state.goto (.fieldEquals parts))
  | _, _ => none

/-- Whether a value may stand on a line after the equals sign. -/
def startsFieldValue (state : State) : Bool :=
  match state.stack with
  | .field .. :: _ => true
  | _ => false

/-- A token after a complete value. -/
def separate? (state : State) (token : Token) : Option State :=
  match state.stack, token with
  | [], .newLine => some (state.goto .line)
  | _, .blank _ => some state
  | .array _ :: _, .newLine => some state
  | .array _ :: _, .comma => some (state.goto .item)
  | .array _ :: _, .closeBracket => state.close?
  | .table _ :: _, .newLine => some state
  | .table _ :: _, .comma => some (state.goto .field)
  | .table _ :: _, .closeBrace => state.close?
  | _, _ => none

/-- The machine reads one token. -/
def step? (state : State) (token : Token) : Option State :=
  match state.place, token with
  | .line, .newLine | .line, .blank _ => some state
  | .line, .openBracket => some (state.goto .header)
  | .line, token => (keyPart? token).map fun part => state.goto (.keyEnd .pair [part])
  | .header, .openBracket => some (state.goto (.key .itemHeader []))
  | .header, .blank _ => some (state.goto (.key .header []))
  | .header, token => (keyPart? token).map fun part => state.goto (.keyEnd .header [part])
  | .key .., .blank _ => some state
  | .key use before, token => (keyPart? token).map fun part => state.goto (.keyEnd use (part :: before))
  | .keyEnd .., .blank _ => some state
  | .keyEnd use parts, .dot => state.nextPart? use parts
  | .keyEnd use parts, token => state.endKey? use parts token
  | .fieldEquals _, .blank _ | .fieldEquals _, .newLine => some state
  | .fieldEquals parts, .equals => state.endKey? .field parts .equals
  | .fieldEquals _, _ => none
  | .secondBracket parts, .closeBracket => some (state.finish (.itemHeader parts.reverse))
  | .secondBracket _, _ => none
  | .value, .blank _ => some state
  | .value, .newLine => if state.startsFieldValue then some state else none
  | .value, token => state.startValue? token
  | .item, .blank _ | .item, .newLine => some state
  | .item, .closeBracket => state.close?
  | .item, token => state.startValue? token
  | .field, .blank _ | .field, .newLine => some state
  | .field, .closeBrace => state.close?
  | .field, token => (keyPart? token).map fun part => state.goto (.keyEnd .field [part])
  | .word chars, .word more => some (state.goto (.word (chars ++ more)))
  | .word chars, .dot => some (state.goto (.word (chars ++ ['.'])))
  | .word chars, .blank isSpace =>
    if isSpace && Scalar.isDate chars then some (state.goto (.time chars))
    else state.supplyWord? chars
  | .word chars, token => do
    let state ← state.supplyWord? chars
    state.separate? token
  | .time date, .word more =>
    if more.head?.any Char.isDigit then some (state.goto (.word (date ++ ' ' :: more))) else none
  | .time date, token => do
    let state ← state.supplyWord? date
    state.separate? token
  | .lineEnd, token | .separator, token => state.separate? token

/-- The statements, when the text ends. -/
def statements? (state : State) : Option (List Statement) :=
  match state.place with
  | .line | .lineEnd => some state.done.reverse
  | .word chars | .time chars => do
    let state ← state.supplyWord? chars
    if state.stack.isEmpty then some state.done.reverse else none
  | _ => none

end State

/-- The statements of a text. A byte order mark at its start does not count. -/
def read? (input : List Char) : Option (List Statement) := do
  let input := if input.head? = some '\ufeff' then input.tail else input
  let tokens ← tokens? input
  let state ← tokens.foldlM State.step? { done := [], stack := [], place := .line }
  state.statements?

end Statement

/-! ## Documents -/

/-- The tables of the statements read so far, and the path of the header that the next ones stand under. -/
structure Document where
  fields : Fields := []
  current : List String := []

/-- Read one statement. -/
def Document.add? (document : Document) : Statement → Option Document
  | .header path => (document.fields.declareTable path).map ({ fields := ·, current := path })
  | .itemHeader path => (document.fields.declareItem path).map ({ fields := ·, current := path })
  | .pair path value =>
    (Fields.descend false (Fields.insert path value) .declared document.fields document.current).map
      ({ document with fields := · })

/-- The table that a text writes. -/
def read? (input : List Char) : Option Value := do
  let statements ← Statement.read? input
  let document ← statements.foldlM Document.add? {}
  return document.fields.toValue

end ClassLayout.Toml

import ClassLayout.Declaration
import ClassLayout.Json.Decode

/-!
# ClassLayout.Declaration.Json

Class declarations as JSON: how they are written, and how they are read.

Writing gives every field, in the order of the declaration. Reading takes the fields in any order and
fills in what is left out. Most records may also be given as an array of their fields; a call site
may not, since the fields of its kind stand among its own: `kind` says whether it is a call or a
reference, `qualifier` and `arg_count` belong to the kind. These are kept until the object ends, since
`kind` may come last.
-/

namespace ClassLayout

open Json

/-! ## Writing -/

/-- The name of an access modifier. -/
def Accessibility.label : Accessibility → String
  | .publicAccess => "public"
  | .protectedAccess => "protected"
  | .packageAccess => "package"
  | .privateAccess => "private"

/-- An access modifier is written as its name. -/
def Accessibility.toJson (accessibility : Accessibility) : Value :=
  .text accessibility.label

/-- A return type is written as its keyword, or as the name of the type under `named`. -/
def ReturnType.toJson : ReturnType → Value
  | .void => .text "void"
  | .boolean => .text "boolean"
  | .named type => .object [("named", .text type)]

/-- A parameter with all its fields. -/
def Parameter.toJson (parameter : Parameter) : Value :=
  .object
    [("type_name", .text parameter.typeName),
     ("array_dimensions", .ofNat parameter.arrayDimensions),
     ("variable_arity", .bool parameter.variableArity)]

/-- A method with all its fields. -/
def MethodDeclaration.toJson (method : MethodDeclaration) : Value :=
  .object
    [("name", .text method.name),
     ("parameters", .ofList Parameter.toJson method.parameters),
     ("accessibility", method.accessibility.toJson),
     ("is_static", .bool method.isStatic),
     ("is_constructor", .bool method.isConstructor),
     ("annotations", .ofList .text method.annotations),
     ("return_type", method.returnType.toJson),
     ("line", .ofNat method.line),
     ("column", .ofNat method.column),
     ("end_line", .ofNat method.endLine)]

/-- A qualifier is written as a word, or as the text before the dot under `named`. -/
def Qualifier.toJson : Qualifier → Value
  | .unqualified => .text "unqualified"
  | .this => .text "this"
  | .named receiver => .object [("named", .text receiver)]

/-- The fields of a kind, which stand among those of the call site. -/
def CallKind.toFields : CallKind → List (String × Value)
  | .call qualifier argCount =>
    [("kind", .text "call"), ("qualifier", qualifier.toJson), ("arg_count", .ofNat argCount)]
  | .reference qualifier => [("kind", .text "method_reference"), ("qualifier", qualifier.toJson)]

/-- A call site with its own fields and those of its kind. -/
def CallSite.toJson (site : CallSite) : Value :=
  .object <|
    ("name", .text site.name) :: site.kind.toFields ++
      [("line", .ofNat site.line),
       ("column", .ofNat site.column),
       ("enclosing_method", .ofOption .ofNat site.enclosingMethod),
       ("parent", .ofOption .ofNat site.parent)]

/-- A class with its methods and call sites. -/
def ClassDeclaration.toJson (declaration : ClassDeclaration) : Value :=
  .object
    [("name", .text declaration.name),
     ("methods", .ofList MethodDeclaration.toJson declaration.methods),
     ("call_sites", .ofList CallSite.toJson declaration.callSites)]

/-! ## Reading -/

/-- The access modifier of the given name. -/
def Accessibility.ofLabel? : String → Option Accessibility
  | "public" => some .publicAccess
  | "protected" => some .protectedAccess
  | "package" => some .packageAccess
  | "private" => some .privateAccess
  | _ => none

/-- Read an access modifier. -/
def Accessibility.decode : Decoder Accessibility :=
  Decode.variant Accessibility.ofLabel? fun _ => none

/-- Read a return type. -/
def ReturnType.decode : Decoder ReturnType :=
  Decode.variant
    (fun
      | "void" => some .void
      | "boolean" => some .boolean
      | _ => none)
    (fun
      | "named" => some fun doc => (Decode.text doc).map .named
      | _ => none)

/-- Read a qualifier that stands on its own. -/
def Qualifier.decode : Decoder Qualifier :=
  Decode.variant
    (fun
      | "unqualified" => some .unqualified
      | "this" => some .this
      | _ => none)
    (fun
      | "named" => some fun doc => (Decode.text doc).map .named
      | _ => none)

/-- The fields of a parameter that have been read. -/
structure Parameter.Draft where
  typeName : Option String := none
  arrayDimensions : Option Nat := none
  variableArity : Option Bool := none

/-- Read one field of a parameter. -/
def Parameter.Draft.put (draft : Draft) (key : String) (doc : Doc) : Except Fault Draft :=
  match key with
  | "type_name" => do
    return { draft with typeName := ← Decode.once Decode.text draft.typeName doc }
  | "array_dimensions" => do
    return { draft with arrayDimensions := ← Decode.once Decode.nat draft.arrayDimensions doc }
  | "variable_arity" => do
    return { draft with variableArity := ← Decode.once Decode.bool draft.variableArity doc }
  | _ => do
    Decode.skip doc
    return draft

/-- The parameter with the fields that have been read. -/
def Parameter.Draft.finish (draft : Draft) : Except Fault Parameter := do
  let typeName ← Decode.required draft.typeName
  return {
    typeName
    arrayDimensions := draft.arrayDimensions.getD 0
    variableArity := draft.variableArity.getD false }

/-- Read a parameter. -/
def Parameter.decode : Decoder Parameter :=
  Decode.record ["type_name", "array_dimensions", "variable_arity"]
    Parameter.Draft.put {} Parameter.Draft.finish

/-- The fields of a method that have been read. -/
structure MethodDeclaration.Draft where
  name : Option String := none
  parameters : Option (List Parameter) := none
  accessibility : Option Accessibility := none
  isStatic : Option Bool := none
  isConstructor : Option Bool := none
  annotations : Option (List String) := none
  returnType : Option ReturnType := none
  line : Option Nat := none
  column : Option Nat := none
  endLine : Option Nat := none

/-- Read one field of a method. -/
def MethodDeclaration.Draft.put (draft : Draft) (key : String) (doc : Doc) : Except Fault Draft :=
  match key with
  | "name" => do
    return { draft with name := ← Decode.once Decode.text draft.name doc }
  | "parameters" => do
    return { draft with
      parameters := ← Decode.once (Decode.list Parameter.decode) draft.parameters doc }
  | "accessibility" => do
    return { draft with
      accessibility := ← Decode.once Accessibility.decode draft.accessibility doc }
  | "is_static" => do
    return { draft with isStatic := ← Decode.once Decode.bool draft.isStatic doc }
  | "is_constructor" => do
    return { draft with isConstructor := ← Decode.once Decode.bool draft.isConstructor doc }
  | "annotations" => do
    return { draft with
      annotations := ← Decode.once (Decode.list Decode.text) draft.annotations doc }
  | "return_type" => do
    return { draft with returnType := ← Decode.once ReturnType.decode draft.returnType doc }
  | "line" => do
    return { draft with line := ← Decode.once Decode.nat draft.line doc }
  | "column" => do
    return { draft with column := ← Decode.once Decode.nat draft.column doc }
  | "end_line" => do
    return { draft with endLine := ← Decode.once Decode.nat draft.endLine doc }
  | _ => do
    Decode.skip doc
    return draft

/-- The method with the fields that have been read. -/
def MethodDeclaration.Draft.finish (draft : Draft) : Except Fault MethodDeclaration := do
  let name ← Decode.required draft.name
  let line ← Decode.required draft.line
  let endLine ← Decode.required draft.endLine
  return {
    name
    parameters := draft.parameters.getD []
    accessibility := draft.accessibility.getD .packageAccess
    isStatic := draft.isStatic.getD false
    isConstructor := draft.isConstructor.getD false
    annotations := draft.annotations.getD []
    returnType := draft.returnType.getD .void
    line
    column := draft.column.getD 0
    endLine }

/-- Read a method. -/
def MethodDeclaration.decode : Decoder MethodDeclaration :=
  Decode.record
    ["name", "parameters", "accessibility", "is_static", "is_constructor", "annotations",
     "return_type", "line", "column", "end_line"]
    MethodDeclaration.Draft.put {} MethodDeclaration.Draft.finish

/-! ### Call sites

The fields of a call site's kind are looked at when the object is complete, and then every fault is
one of shape. -/

/-- The qualifier in a field that was kept. The content of a variant without one is null or an empty
object. -/
def Qualifier.ofKept? : Doc → Option Qualifier
  | .text (.ok "unqualified") => some .unqualified
  | .text (.ok "this") => some .this
  | .object [(.ok "unqualified", .null)] _ => some .unqualified
  | .object [(.ok "unqualified", .object [] _)] _ => some .unqualified
  | .object [(.ok "this", .null)] _ => some .this
  | .object [(.ok "this", .object [] _)] _ => some .this
  | .object [(.ok "named", .text (.ok receiver))] _ => some (.named receiver)
  | _ => none

/-- The number in a field that was kept. -/
def natOfKept? : Doc → Option Nat
  | .number n => n.toNat?
  | _ => none

/-- The values of the fields with the given name among those that were kept. -/
def keptAs (name : String) (kept : List (String × Doc)) : List Doc :=
  (kept.filter (·.1 == name)).map (·.2)

/-- The value of a field that may be given once among those that were kept. -/
def keptOnce? (read? : Doc → Option α) (default? : Option α) : List Doc → Option α
  | [] => default?
  | [doc] => read? doc
  | _ => none

/-- Which kind of site the field `kind` says: by its name, or by its number. -/
def isReferenceOfKept? : Doc → Option Bool
  | .text (.ok "call") => some false
  | .text (.ok "method_reference") => some true
  | .number n =>
    match n.toNat? with
    | some 0 => some false
    | some 1 => some true
    | _ => none
  | _ => none

/-- The kind of a call site, from the fields that were kept. -/
def CallKind.ofKept? (kept : List (String × Doc)) : Option CallKind := do
  let isReference ← keptOnce? isReferenceOfKept? none (keptAs "kind" kept)
  if isReference then
    let qualifier ← keptOnce? Qualifier.ofKept? none (keptAs "qualifier" kept)
    return .reference qualifier
  else
    let qualifier ←
      keptOnce? Qualifier.ofKept? (some .unqualified) (keptAs "qualifier" kept)
    let argCount ← keptOnce? natOfKept? (some 0) (keptAs "arg_count" kept)
    return .call qualifier argCount

/-- The fields of a call site that have been read, and those that were kept, the last first. -/
structure CallSite.Draft where
  name : Option String := none
  line : Option Nat := none
  column : Option Nat := none
  enclosingMethod : Option (Option Nat) := none
  parent : Option (Option Nat) := none
  kept : List (String × Doc) := []

/-- The arrays and objects that are open around a field of a call site: the class, its list of sites
and the site. -/
def CallSite.depth : Nat := 3

/-- Read one field of a call site, or keep it. -/
def CallSite.Draft.put (draft : Draft) (key : String) (doc : Doc) : Except Fault Draft :=
  match key with
  | "name" => do
    return { draft with name := ← Decode.once Decode.text draft.name doc }
  | "line" => do
    return { draft with line := ← Decode.once Decode.nat draft.line doc }
  | "column" => do
    return { draft with column := ← Decode.once Decode.nat draft.column doc }
  | "enclosing_method" => do
    return { draft with
      enclosingMethod := ← Decode.once (Decode.option Decode.nat) draft.enclosingMethod doc }
  | "parent" => do
    return { draft with parent := ← Decode.once (Decode.option Decode.nat) draft.parent doc }
  | key => do
    Decode.inspect CallSite.depth doc
    return { draft with kept := (key, doc) :: draft.kept }

/-- The call site with the fields that have been read. -/
def CallSite.Draft.finish (draft : Draft) : Except Fault CallSite := do
  let name ← Decode.required draft.name
  let line ← Decode.required draft.line
  let kind ← Decode.required (CallKind.ofKept? draft.kept)
  return {
    name
    kind
    line
    column := draft.column.getD 0
    enclosingMethod := draft.enclosingMethod.getD none
    parent := draft.parent.getD none }

/-- Read a call site, which is an object. -/
def CallSite.decode : Decoder CallSite :=
  Decode.object CallSite.Draft.put {} CallSite.Draft.finish

/-! ### Classes -/

/-- The fields of a class that have been read. -/
structure ClassDeclaration.Draft where
  name : Option String := none
  methods : Option (List MethodDeclaration) := none
  callSites : Option (List CallSite) := none

/-- Read one field of a class. -/
def ClassDeclaration.Draft.put (draft : Draft) (key : String) (doc : Doc) : Except Fault Draft :=
  match key with
  | "name" => do
    return { draft with name := ← Decode.once Decode.text draft.name doc }
  | "methods" => do
    return { draft with
      methods := ← Decode.once (Decode.list MethodDeclaration.decode) draft.methods doc }
  | "call_sites" => do
    return { draft with
      callSites := ← Decode.once (Decode.list CallSite.decode) draft.callSites doc }
  | _ => do
    Decode.skip doc
    return draft

/-- The class with the fields that have been read. -/
def ClassDeclaration.Draft.finish (draft : Draft) : Except Fault ClassDeclaration := do
  let name ← Decode.required draft.name
  return {
    name
    methods := draft.methods.getD []
    callSites := draft.callSites.getD [] }

/-- Read a class. -/
def ClassDeclaration.decode : Decoder ClassDeclaration :=
  Decode.record ["name", "methods", "call_sites"]
    ClassDeclaration.Draft.put {} ClassDeclaration.Draft.finish

/-- Read a class declaration from its JSON text. -/
def ClassDeclaration.ofJson (input : String) : Except Fault ClassDeclaration :=
  (Document.read input.toList).decode ClassDeclaration.decode

end ClassLayout

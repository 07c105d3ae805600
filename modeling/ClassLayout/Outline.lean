import ClassLayout.Accessor
import ClassLayout.Error

/-!
# ClassLayout.Outline

The outline of a class: its methods in the order of declaration, each with all that is known of it
before calls are looked at. A method is known by its index in that order.

An outline exists only for a class whose methods end no earlier than they start and have pairwise
different signatures.
-/

namespace ClassLayout

/-- A declared method with everything derived from its declaration. -/
structure Method where
  /-- The index in the order of declaration. -/
  id : Nat
  signature : String
  name : String
  line : Nat
  column : Nat
  /-- The number of lines from the declaration to the closing brace. -/
  length : Nat
  /-- The least number of arguments. -/
  argCount : Nat
  variableArity : Bool
  isStatic : Bool
  accessibility : Accessibility
  isOverride : Bool
  /-- Another method of the class has the same name. -/
  isOverloaded : Bool
  isConstructor : Bool
  returnsVoid : Bool
  accessor : Option Accessor
  deriving DecidableEq, Repr, Inhabited

namespace Method

/-- The line of the closing brace. -/
def endLine (method : Method) : Nat :=
  method.line + method.length

/-- Whether the method covers a line. -/
def covers (method : Method) (line : Nat) : Bool :=
  method.line ≤ line && line ≤ method.endLine

/-- Whether an accessor of the given kind. -/
def isAccessorOf (method : Method) (kind : AccessorKind) : Bool :=
  method.accessor.any (·.kind == kind)

/-- The property that the method exposes, if it is an accessor. -/
def property? (method : Method) : Option String :=
  method.accessor.map (·.property)

/-- The property that the method exposes. -/
def property (method : Method) : Except Error String :=
  match method.property? with
  | some property => .ok property
  | none => .error (.notAnAccessor method.signature)

/-- Whether two methods, of the same class or of two classes, have the same signature. -/
def sameSignature (method other : Method) : Bool :=
  method.signature == other.signature

/-- Whether an annotation of the given name says that a method overrides one of a superclass. -/
def isOverrideAnnotation (name : String) : Bool :=
  Text.afterLastDot name.toList == ['O', 'v', 'e', 'r', 'r', 'i', 'd', 'e']

/-- The method of a declaration, given its index and whether its name is shared. -/
def ofDeclaration (id : Nat) (isOverloaded : Bool) (declaration : MethodDeclaration) :
    Except Flaw Method :=
  if declaration.endLine < declaration.line then
    .error (.endsBeforeStart declaration.name declaration.endLine declaration.line)
  else
    .ok {
      id
      signature := Signature.render declaration.name declaration.parameters
      name := declaration.name
      line := declaration.line
      column := declaration.column
      length := declaration.endLine - declaration.line
      argCount := Signature.argCount declaration.parameters
      variableArity := Signature.isVariableArity declaration.parameters
      isStatic := declaration.isStatic
      accessibility := declaration.accessibility
      isOverride := !declaration.isConstructor && declaration.annotations.any isOverrideAnnotation
      isOverloaded
      isConstructor := declaration.isConstructor
      returnsVoid := !declaration.isConstructor && declaration.returnType.isVoid
      accessor := declaration.accessor? }

end Method

/-- The methods of a class, each at its index. -/
structure Outline where
  name : String
  methods : Array Method
  deriving DecidableEq, Repr, Inhabited

/-- The first text that occurs before it, or among `seen`. -/
def firstRepeated? (seen : List String) : List String → Option String
  | [] => none
  | text :: rest => if text ∈ seen then some text else firstRepeated? (text :: seen) rest

namespace Outline

/-- The number of methods. -/
def size (outline : Outline) : Nat :=
  outline.methods.size

/-- Whether another declaration has the same name. Constructors count. -/
def sharesName (declarations : List MethodDeclaration) (declaration : MethodDeclaration) : Bool :=
  1 < declarations.countP (·.name == declaration.name)

/-- The methods of the declarations, from the given index on. -/
def methodsFrom (all : List MethodDeclaration) (index : Nat) :
    List MethodDeclaration → Except Flaw (List Method)
  | [] => .ok []
  | declaration :: rest => do
    let method ← Method.ofDeclaration index (sharesName all declaration) declaration
    let others ← methodsFrom all (index + 1) rest
    return method :: others

/-- The outline of a class, or the first flaw of its methods. -/
def ofDeclaration (declaration : ClassDeclaration) : Except Flaw Outline := do
  let methods ← methodsFrom declaration.methods 0 declaration.methods
  match firstRepeated? [] (methods.map (·.signature)) with
  | some signature => .error (.duplicateSignature declaration.name signature)
  | none => return { name := declaration.name, methods := methods.toArray }

/-- The methods with the given name. -/
def named (outline : Outline) (name : String) : List Method :=
  outline.methods.toList.filter (·.name == name)

/-- The static methods with the given name. -/
def staticNamed (outline : Outline) (name : String) : List Method :=
  (outline.named name).filter (·.isStatic)

/-- The methods of objects with the given name. -/
def instanceNamed (outline : Outline) (name : String) : List Method :=
  (outline.named name).filter (!·.isStatic)

/-- The method with the given signature. -/
def withSignature? (outline : Outline) (signature : String) : Option Method :=
  outline.methods.toList.find? (·.signature == signature)

/-- Split indices into groups of one key, in the order in which the keys first occur. -/
def groupByKey (keyed : List (String × Nat)) : List (String × List Nat) :=
  (keyed.map (·.1)).eraseDups.map fun key =>
    (key, (keyed.filter (·.1 == key)).map (·.2))

/-- The accessors of each property. -/
def accessorsByProperty (outline : Outline) : List (String × List Nat) :=
  groupByKey <| outline.methods.toList.filterMap fun method =>
    method.property?.map fun property => (property, method.id)

end Outline

end ClassLayout

/-!
# ClassLayout.Declaration

A class as its source declares it: the methods in the order they are written, and every place in
which a method is called or referred to. These are plain data; all that is derived from them lives
in other modules.

* A method covers the lines from its declaration to its closing brace.
* A call site names a method, says how the receiver is written, and points to the method whose body
  holds it and to the call site in whose arguments or receiver it stands.
-/

namespace ClassLayout

/-- The access modifier of a method; a method without one is visible in its package. -/
inductive Accessibility where
  | publicAccess
  | protectedAccess
  | packageAccess
  | privateAccess
  deriving DecidableEq, Repr, Inhabited

/-- The declared return type, as far as accessors need it. -/
inductive ReturnType where
  | void
  | boolean
  | named (type : String)
  deriving DecidableEq, Repr, Inhabited

/-- Nothing is returned. -/
def ReturnType.isVoid : ReturnType → Bool
  | .void => true
  | _ => false

/-- The primitive truth values, or the class that boxes them. -/
def ReturnType.isBoolean : ReturnType → Bool
  | .void => false
  | .boolean => true
  | .named type => type == "Boolean" || type == "java.lang.Boolean"

/-- A formal parameter. The type is kept as it is written, modifiers and type arguments included. -/
structure Parameter where
  typeName : String
  arrayDimensions : Nat := 0
  variableArity : Bool := false
  deriving DecidableEq, Repr, Inhabited

/-- A method or a constructor. -/
structure MethodDeclaration where
  name : String
  parameters : List Parameter := []
  accessibility : Accessibility := .packageAccess
  isStatic : Bool := false
  isConstructor : Bool := false
  /-- Names of the annotations, simple or qualified. -/
  annotations : List String := []
  /-- Without meaning for a constructor. -/
  returnType : ReturnType := .void
  line : Nat
  column : Nat := 0
  /-- The line of the closing brace. -/
  endLine : Nat
  deriving DecidableEq, Repr, Inhabited

/-- A constructor is public unless something else is said. -/
def MethodDeclaration.constructor (name : String) (line endLine : Nat) : MethodDeclaration :=
  { name, line, endLine, isConstructor := true, accessibility := .publicAccess }

/-- What stands before the name at a call site. -/
inductive Qualifier where
  /-- Nothing, as in `f()`. -/
  | unqualified
  /-- The object itself, as in `this.f()` or `this::f`. -/
  | this
  /-- Another receiver or a type, as in `other.f()` or `Type::f`. -/
  | named (receiver : String)
  deriving DecidableEq, Repr, Inhabited

/-- How a call site uses the method that it names. -/
inductive CallKind where
  /-- An invocation with so many arguments. -/
  | call (qualifier : Qualifier) (argCount : Nat)
  /-- A reference `qualifier::name`, which invokes nothing at the place itself. -/
  | reference (qualifier : Qualifier)
  deriving DecidableEq, Repr, Inhabited

/-- One place in which a method is called or referred to. -/
structure CallSite where
  /-- Name of the method that is called. -/
  name : String
  kind : CallKind
  line : Nat
  column : Nat := 0
  /-- Index of the method whose body holds the site directly; absent for field initialisers and for
  the bodies of nested classes. -/
  enclosingMethod : Option Nat := none
  /-- Index of the nearest call site around this one. -/
  parent : Option Nat := none
  deriving DecidableEq, Repr, Inhabited

namespace CallSite

/-- An unqualified call. -/
def call (name : String) (argCount line column : Nat) : CallSite :=
  { name, kind := .call .unqualified argCount, line, column }

/-- A call with a receiver. -/
def qualifiedCall (qualifier : Qualifier) (name : String) (argCount line column : Nat) : CallSite :=
  { name, kind := .call qualifier argCount, line, column }

/-- A method reference. -/
def reference (qualifier : Qualifier) (name : String) (line column : Nat) : CallSite :=
  { name, kind := .reference qualifier, line, column }

/-- The same site in the body of a method. -/
def inside (site : CallSite) (method : Nat) : CallSite :=
  { site with enclosingMethod := some method }

/-- The same site within another one. -/
def nestedIn (site : CallSite) (parent : Nat) : CallSite :=
  { site with parent := some parent }

/-- Whether the site is a method reference. -/
def isReference (site : CallSite) : Bool :=
  match site.kind with
  | .call .. => false
  | .reference _ => true

end CallSite

/-- A class with its methods and call sites, each list in source order. -/
structure ClassDeclaration where
  /-- The simple name, by which references to the class's static methods are recognised. -/
  name : String
  methods : List MethodDeclaration := []
  callSites : List CallSite := []
  deriving DecidableEq, Repr, Inhabited

end ClassLayout

import ClassLayout.Signature

/-!
# ClassLayout.Accessor

Getters and setters, recognised by their names and their types.

* A getter is public, takes nothing, returns something and is called `get` or, if it returns a truth
  value, `is`, followed by a property.
* A setter is public, takes one argument, returns nothing and is called `set`, followed by a
  property.
* The property in such a name starts with a capital letter and goes on with letters, digits and
  underscores, all of them ASCII; the property itself starts with the small letter.
-/

namespace ClassLayout

/-- What an accessor does with its property. -/
inductive AccessorKind where
  | getter
  | setter
  deriving DecidableEq, Repr, Inhabited

/-- A getter or setter, and the property that it exposes. -/
structure Accessor where
  kind : AccessorKind
  property : String
  deriving DecidableEq, Repr, Inhabited

namespace Accessor

/-- A letter, a digit or an underscore. -/
def isNameChar (c : Char) : Bool :=
  c.isAlphanum || c == '_'

/-- Whether a text is a property as accessor names spell it. -/
def isCapitalised : List Char → Bool
  | [] => false
  | c :: rest => c.isUpper && rest.all isNameChar

/-- What follows `start` in the name, if that is a capitalised property. -/
def suffixAfter? (start : List Char) (name : List Char) : Option (List Char) :=
  if start.isPrefixOf name && isCapitalised (name.drop start.length) then
    some (name.drop start.length)
  else none

/-- The capitalised property in a name that starts as an accessor's does. -/
def suffix? (name : List Char) : Option (List Char) :=
  (suffixAfter? ['g', 'e', 't'] name).or <|
    (suffixAfter? ['i', 's'] name).or (suffixAfter? ['s', 'e', 't'] name)

/-- The property's own spelling: the first letter is small. -/
def uncapitalise : List Char → List Char
  | [] => []
  | c :: rest => c.toLower :: rest

/-- The property that a method's name speaks of, as in `getFirstName` and `firstName`. -/
def propertyName? (name : String) : Option String :=
  (suffix? name.toList).map fun suffix => String.ofList (uncapitalise suffix)

end Accessor

namespace MethodDeclaration

open Accessor

/-- Whether the declaration is a getter. -/
def isGetter (method : MethodDeclaration) : Bool :=
  method.accessibility == .publicAccess && !method.isConstructor && method.parameters.isEmpty
    && !method.returnType.isVoid
    && ((suffixAfter? ['g', 'e', 't'] method.name.toList).isSome
      || (suffixAfter? ['i', 's'] method.name.toList).isSome && method.returnType.isBoolean)

/-- Whether the declaration is a setter. -/
def isSetter (method : MethodDeclaration) : Bool :=
  method.accessibility == .publicAccess && !method.isConstructor
    && Signature.argCount method.parameters == 1 && !Signature.isVariableArity method.parameters
    && method.returnType.isVoid
    && (suffixAfter? ['s', 'e', 't'] method.name.toList).isSome

/-- The accessor that the declaration is, if any. -/
def accessor? (method : MethodDeclaration) : Option Accessor :=
  if method.isGetter then
    (propertyName? method.name).map fun property => { kind := .getter, property }
  else if method.isSetter then
    (propertyName? method.name).map fun property => { kind := .setter, property }
  else none

end MethodDeclaration

end ClassLayout

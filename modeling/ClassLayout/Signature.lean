import ClassLayout.Declaration
import ClassLayout.Text.Blank
import ClassLayout.Word

/-!
# ClassLayout.Signature

The signature of a method: its name and, in parentheses, the types of its parameters, as in
`process(List,int[],String...)`. Two methods of a class are told apart by their signatures.

A parameter's type is rendered from the text in which it is written:

1. type arguments in angle brackets are dropped;
2. the pairs `[` `]` at the end are taken off and counted, white space between them ignored;
3. an ellipsis at the end of what is left marks variable arity;
4. of the words that are left, modifiers and annotations apart, the last one is the type, and of it
   the part after the last dot;
5. the pairs, those of the declaration added, are written after it, and last the ellipsis.
-/

namespace ClassLayout

namespace TypeText

open Text

/-- The characters that mark variable arity. -/
def ellipsis : List Char := ['.', '.', '.']

/-- The text outside of angle brackets, when `depth` of them are open. The brackets themselves are
dropped wherever they stand, and one that closes nothing is ignored. -/
def outsideGenerics (depth : Nat) : List Char → List Char
  | [] => []
  | c :: rest =>
    if c = '<' then outsideGenerics (depth + 1) rest
    else if c = '>' then outsideGenerics (depth - 1) rest
    else if depth = 0 then c :: outsideGenerics depth rest
    else outsideGenerics depth rest

/-- Take pairs of square brackets off a text that is read from its end, with white space around the
brackets ignored. `rest` is what remains and `count` the number of pairs so far; `closed` says that
a closing bracket waits for its partner. -/
def peelPairs (rest : List Char) (count : Nat) (closed : Bool) : List Char → List Char × Nat
  | [] => (rest, count)
  | c :: text =>
    if isBlank c then peelPairs rest count closed text
    else if closed then
      if c = '[' then peelPairs text (count + 1) false text else (rest, count)
    else if c = ']' then peelPairs rest count true text
    else (rest, count)

/-- The text without its trailing pairs of square brackets, and their number. -/
def splitArraySuffix (text : List Char) : List Char × Nat :=
  let backwards := text.reverse.dropWhile isBlank
  let (rest, count) := peelPairs backwards 0 false backwards
  (rest.reverse, count)

/-- Take whole ellipses off a text that is read from its end. -/
def dropDots : List Char → List Char
  | '.' :: '.' :: '.' :: rest => dropDots rest
  | text => text

/-- A word that can be the type: neither the modifier `final` nor an annotation. -/
def isTypeWord (word : List Char) : Bool :=
  word != ['f', 'i', 'n', 'a', 'l'] && word.head? != some '@'

/-- The simple name of the type that a text without brackets writes. -/
def simpleName (text : List Char) : List Char :=
  let core := (dropDots text.reverse).reverse
  match ((words core).filter isTypeWord).getLast? with
  | some word => afterLastDot word
  | none => []

/-- Whether a text ends with an ellipsis, white space after it aside. -/
def endsInEllipsis (text : List Char) : Bool :=
  endsWith (trimEnd text) ellipsis

/-- The type as a signature shows it. -/
def render (text : List Char) (arrayDimensions : Nat) (variableArity : Bool) : List Char :=
  let (base, written) := splitArraySuffix (outsideGenerics 0 text)
  simpleName base
    ++ (List.replicate (addWords arrayDimensions written) ['[', ']']).flatten
    ++ (if variableArity || endsInEllipsis base then ellipsis else [])

end TypeText

/-- The type of a parameter as a signature shows it. -/
def Parameter.renderType (parameter : Parameter) : String :=
  String.ofList <|
    TypeText.render parameter.typeName.toList parameter.arrayDimensions parameter.variableArity

/-- A parameter takes any number of arguments if it is declared so or its type is written so. -/
def Parameter.isVariableArity (parameter : Parameter) : Bool :=
  parameter.variableArity || TypeText.endsInEllipsis parameter.typeName.toList

namespace Signature

/-- The signature of a method. -/
def render (name : String) (parameters : List Parameter) : String :=
  name ++ "(" ++ ",".intercalate (parameters.map Parameter.renderType) ++ ")"

/-- Whether the last parameter takes any number of arguments; no other one can. -/
def isVariableArity (parameters : List Parameter) : Bool :=
  match parameters.getLast? with
  | some last => last.isVariableArity
  | none => false

/-- The least number of arguments of a call: a parameter of variable arity asks for none. -/
def argCount (parameters : List Parameter) : Nat :=
  if isVariableArity parameters then parameters.length - 1 else parameters.length

end Signature

end ClassLayout

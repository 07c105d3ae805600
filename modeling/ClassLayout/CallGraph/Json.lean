import ClassLayout.CallGraph
import ClassLayout.Declaration.Json

/-!
# ClassLayout.CallGraph.Json

The outline of a class and the calls between its methods, written as JSON.
-/

namespace ClassLayout

open Json

/-- The name of a kind of accessor. -/
def AccessorKind.label : AccessorKind → String
  | .getter => "getter"
  | .setter => "setter"

/-- An accessor with its kind and its property. -/
def Accessor.toJson (accessor : Accessor) : Value :=
  .object [("kind", .text accessor.kind.label), ("property", .text accessor.property)]

/-- A method with everything that is known of it. -/
def Method.toJson (method : Method) : Value :=
  .object
    [("id", .ofNat method.id),
     ("signature", .text method.signature),
     ("name", .text method.name),
     ("line", .ofNat method.line),
     ("column", .ofNat method.column),
     ("length", .ofNat method.length),
     ("arg_count", .ofNat method.argCount),
     ("variable_arity", .bool method.variableArity),
     ("is_static", .bool method.isStatic),
     ("accessibility", method.accessibility.toJson),
     ("is_override", .bool method.isOverride),
     ("is_overloaded", .bool method.isOverloaded),
     ("is_constructor", .bool method.isConstructor),
     ("returns_void", .bool method.returnsVoid),
     ("accessor", .ofOption Accessor.toJson method.accessor)]

/-- A call with the sites around it. -/
def Call.toJson (call : Call) : Value :=
  .object
    [("site", .ofNat call.site),
     ("caller", .ofNat call.caller),
     ("callee", .ofNat call.callee),
     ("line", .ofNat call.line),
     ("column", .ofNat call.column),
     ("is_method_reference", .bool call.isReference),
     ("enclosing_sites", .ofList .ofNat call.enclosingSites)]

/-- A class with its methods. -/
def Outline.toJson (outline : Outline) : Value :=
  .object
    [("name", .text outline.name),
     ("methods", .ofList Method.toJson outline.methods.toList)]

/-- A class and the calls between its methods. -/
def CallGraph.toJson (graph : CallGraph) : Value :=
  .object
    [("class", graph.outline.toJson),
     ("calls", .ofList Call.toJson graph.calls)]

end ClassLayout

import ClassLayout.Call
import ClassLayout.Outline

/-!
# ClassLayout.Resolution

Which method of the class a call site means, if any. A site that means none, because its receiver is
another object, because there is no such name or because the number of arguments does not fit, is
dropped. Overloads of the same arity are not told apart: the one declared first is meant.

Before that, the sites as a whole are checked: parents and methods must exist, a site must be on a line
of its method, and nesting must not run in a circle.
-/

namespace ClassLayout

/-! ## One site -/

/-- Whether a method can be called with so many arguments. -/
def Method.takes (method : Method) (argCount : Nat) : Bool :=
  method.argCount == argCount || method.variableArity && method.argCount ≤ argCount

/-- The methods of the class that a call or reference may mean, in the order of declaration. -/
def Outline.candidates (outline : Outline) (site : CallSite) : List Method :=
  match site.kind with
  | .call .unqualified argCount | .call .this argCount =>
    (outline.named site.name).filter (·.takes argCount)
  | .call (.named _) _ => []
  | .reference (.named receiver) =>
    if receiver == outline.name then outline.staticNamed site.name else []
  | .reference .this => outline.instanceNamed site.name
  | .reference .unqualified => []

/-- The two ends of a call site: the method that holds it and the method that it means. -/
def Outline.resolveSite? (outline : Outline) (site : CallSite) : Option (Nat × Nat) := do
  let caller ← site.enclosingMethod
  let callee ← (outline.candidates site).head?
  return (caller, callee.id)

/-! ## Nesting -/

/-- The sites around a site, the nearest first, as far as `limit` steps lead. -/
def ancestors (parents : Array (Option Nat)) : (limit : Nat) → (site : Nat) → List Nat
  | 0, _ => []
  | limit + 1, site =>
    match parents[site]? with
    | some (some parent) => parent :: ancestors parents limit parent
    | _ => []

/-- The parents of all sites. -/
def parentsOf (sites : List CallSite) : Array (Option Nat) :=
  (sites.map (·.parent)).toArray

/-! ## Checking the sites -/

/-- The first flaw of a site by itself. -/
def Outline.siteFlaw? (outline : Outline) (siteCount : Nat) (index : Nat) (site : CallSite) :
    Option Flaw :=
  let parentFlaw := site.parent.bind fun parent =>
    if siteCount ≤ parent || parent == index then some (.badParent index parent siteCount) else none
  parentFlaw.or <| site.enclosingMethod.bind fun id =>
    match outline.methods[id]? with
    | none => some (.badMethod index id outline.name outline.size)
    | some method =>
      if method.covers site.line then none
      else some (.outsideMethod index site.line method.signature method.line method.endLine)

/-- Whether more steps lead outward from a site than there are sites. -/
def isCyclic (parents : Array (Option Nat)) (site : Nat) : Bool :=
  parents.size < (ancestors parents (parents.size + 1) site).length

/-- The first flaw of the sites: those that a site has by itself come before circles. -/
def Outline.sitesFlaw? (outline : Outline) (sites : List CallSite) : Option Flaw :=
  let parents := parentsOf sites
  (sites.zipIdx.findSome? fun (site, index) => outline.siteFlaw? sites.length index site).or <|
    ((List.range sites.length).find? (isCyclic parents)).map .cyclicNesting

/-! ## All sites -/

/-- The call of a site, if both ends are known. -/
def Outline.callOf? (outline : Outline) (parents : Array (Option Nat)) (index : Nat)
    (site : CallSite) : Option Call :=
  (outline.resolveSite? site).map fun (caller, callee) =>
    { site := index
      caller
      callee
      line := site.line
      column := site.column
      isReference := site.isReference
      enclosingSites := ancestors parents parents.size index }

/-- The calls of all sites, in the order of the sites; or a flaw. -/
def Outline.resolve (outline : Outline) (sites : List CallSite) : Except Flaw (List Call) :=
  match outline.sitesFlaw? sites with
  | some flaw => .error flaw
  | none =>
    let parents := parentsOf sites
    .ok (sites.zipIdx.filterMap fun (site, index) => outline.callOf? parents index site)

/-- The sites that are dropped, with their indices. -/
def Outline.dropped (outline : Outline) (sites : List CallSite) : List (CallSite × Nat) :=
  sites.zipIdx.filter fun (site, _) => (outline.resolveSite? site).isNone

end ClassLayout

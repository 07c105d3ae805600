/-!
# ClassLayout.Flaw

What makes a class declaration unusable: spans and signatures of its methods, or the indices and lines
of its call sites.
-/

namespace ClassLayout

/-- A flaw of a class declaration. -/
inductive Flaw where
  /-- A method ends before the line on which it is declared. -/
  | endsBeforeStart (method : String) (endLine line : Nat)
  /-- Two methods have the same signature. -/
  | duplicateSignature (className signature : String)
  /-- A call site is nested in itself, or in a site that does not exist. -/
  | badParent (site parent siteCount : Nat)
  /-- A call site is in a method that does not exist. -/
  | badMethod (site method : Nat) (className : String) (methodCount : Nat)
  /-- A call site is not on a line of its method. -/
  | outsideMethod (site line : Nat) (signature : String) (firstLine lastLine : Nat)
  /-- A call site has no outermost call around it, since the nesting runs in a circle. -/
  | cyclicNesting (site : Nat)
  deriving DecidableEq, Repr, Inhabited

/-- The flaw in words. -/
def Flaw.message : Flaw → String
  | .endsBeforeStart method endLine line =>
    s!"method {method} ends at line {endLine} before its declaration at line {line}"
  | .duplicateSignature className signature => s!"class {className} declares {signature} more than once"
  | .badParent site parent siteCount =>
    s!"call site #{site} refers to parent site #{parent} of {siteCount}"
  | .badMethod site method className methodCount =>
    s!"call site #{site} lies in method #{method} but class {className} has {methodCount} methods"
  | .outsideMethod site line signature firstLine lastLine =>
    s!"call site #{site} at line {line} is outside {signature} (lines {firstLine}-{lastLine})"
  | .cyclicNesting site => s!"call site #{site} has a cyclic parent chain"

end ClassLayout

import ClassLayout.Proofs.Resolution
import ClassLayout.Proofs.TypeText
import Mathlib.Order.Bounds.Basic

/-!
# ClassLayout.Proofs.Candidates

Which calls the sites of a class make, told from its declaration alone.

1. A declared method fits a number of arguments by its parameters (`MethodDeclaration.Fits`). That
   the last of them takes any number may be declared or be written in its type
   (`Parameter.TakesAny`).
2. `ClassDeclaration.IsCandidate` says which declared methods a site may mean, by their names, by
   how the receiver is written and by the arguments. The outline finds the same methods
   (`Outline.isCandidate_iff`), the first declared one first.
3. So a site makes a call exactly if it is in a method and has a candidate, and the call means the
   first one (`Outline.resolveSite?_eq_some`).
-/

namespace ClassLayout

/-! ## Arguments -/

/-- The parameter takes any number of arguments: it is declared so, or its type is written with an
ellipsis at the end, white space after it aside. -/
def Parameter.TakesAny (parameter : Parameter) : Prop :=
  parameter.variableArity = true ∨
    ∃ type blanks, parameter.typeName.toList = type ++ TypeText.ellipsis ++ blanks ∧
      ∀ c ∈ blanks, Text.isBlank c = true

/-- The method can be called with so many arguments: it has as many parameters and the last one does
not take any number, or it does and the others are no more than the arguments. -/
def MethodDeclaration.Fits (declared : MethodDeclaration) (argCount : Nat) : Prop :=
  ((∀ last, declared.parameters.getLast? = some last → ¬ last.TakesAny) ∧
    declared.parameters.length = argCount) ∨
  ∃ others last, declared.parameters = others ++ [last] ∧ last.TakesAny ∧ others.length ≤ argCount

theorem Parameter.isVariableArity_iff {parameter : Parameter} :
    parameter.isVariableArity = true ↔ parameter.TakesAny := by
  rw [isVariableArity, Bool.or_eq_true, TypeText.endsInEllipsis_iff]
  rfl

/-- A method takes as many arguments as its declaration fits. -/
theorem Method.takes_iff {id argCount : Nat} {declared : MethodDeclaration} {method : Method}
    (h : ofDeclaration id shared declared = .ok method) :
    method.takes argCount = true ↔ declared.Fits argCount := by
  obtain ⟨-, -, hcount, harity⟩ := ofDeclaration_eq_ok h
  rw [takes, hcount, harity, MethodDeclaration.Fits, Signature.argCount, Signature.isVariableArity]
  rcases List.eq_nil_or_concat declared.parameters with hnil | ⟨others, last, hsplit⟩
  · simp [hnil]
  · rw [hsplit]
    cases hlast : last.isVariableArity with
    | true =>
        have htakes := Parameter.isVariableArity_iff.mp hlast
        simpa [hlast, htakes] using Nat.le_of_eq
    | false =>
        have htakes : ¬ last.TakesAny := by
          rw [← Parameter.isVariableArity_iff, hlast]
          decide
        simp [hlast, htakes]

/-! ## Candidates -/

/-- What a site asks of the method that it names, by how it uses it and how the receiver is written.
-/
def CallKind.Admits (className : String) (declared : MethodDeclaration) : CallKind → Prop
  | .call .unqualified argCount => declared.Fits argCount
  | .call .this argCount => declared.Fits argCount
  | .call (.named _) _ => False
  | .reference .unqualified => False
  | .reference .this => declared.isStatic = false
  | .reference (.named receiver) => receiver = className ∧ declared.isStatic = true

/-- The method declared at the index is one that the site may mean. -/
def ClassDeclaration.IsCandidate (declaration : ClassDeclaration) (site : CallSite) (id : Nat) :
    Prop :=
  ∃ declared, declaration.methods[id]? = some declared ∧ declared.name = site.name ∧
    site.kind.Admits declaration.name declared

namespace Outline

variable {declaration : ClassDeclaration} {outline : Outline} {sites : List CallSite}
  {site : CallSite}

/-- Candidates come in the order of declaration. -/
theorem candidates_sublist (outline : Outline) (site : CallSite) :
    (outline.candidates site).Sublist outline.methods.toList := by
  have hnamed : (outline.named site.name).Sublist outline.methods.toList := List.filter_sublist
  unfold candidates
  split
  · exact List.filter_sublist.trans hnamed
  · exact List.filter_sublist.trans hnamed
  · exact List.nil_sublist _
  · split
    · exact List.filter_sublist.trans hnamed
    · exact List.nil_sublist _
  · exact List.filter_sublist.trans hnamed
  · exact List.nil_sublist _

/-- A method is a candidate if it has the name and its declaration is admitted. -/
theorem mem_candidates {id : Nat} {method : Method} {declared : MethodDeclaration}
    (hmem : method ∈ outline.methods.toList)
    (hmade : Method.ofDeclaration id shared declared = .ok method) :
    method ∈ outline.candidates site ↔
      declared.name = site.name ∧ site.kind.Admits outline.name declared := by
  obtain ⟨hname, hstatic⟩ := Method.name_of_ofDeclaration hmade
  have hnamed : method ∈ outline.named site.name ↔ declared.name = site.name := by
    rw [named, List.mem_filter, beq_iff_eq, hname]
    exact and_iff_right hmem
  unfold candidates
  split
  · next hkind => rw [hkind, List.mem_filter, hnamed, Method.takes_iff hmade]; rfl
  · next hkind => rw [hkind, List.mem_filter, hnamed, Method.takes_iff hmade]; rfl
  · next hkind => simp [hkind, CallKind.Admits]
  · next hkind =>
      rw [hkind]
      split
      · next hreceiver =>
          rw [staticNamed, List.mem_filter, hnamed, hstatic, CallKind.Admits,
            and_iff_right (beq_iff_eq.mp hreceiver)]
      · next hreceiver => simp [CallKind.Admits, beq_iff_eq.not.mp hreceiver]
  · next hkind => simp [hkind, instanceNamed, hnamed, hstatic, CallKind.Admits]
  · next hkind => simp [hkind, CallKind.Admits]

section Declared

variable (built : ofDeclaration declaration = .ok outline)

include built

/-- The outline finds the candidates among the declared methods. -/
theorem isCandidate_iff {id : Nat} :
    declaration.IsCandidate site id ↔ ∃ method ∈ outline.candidates site, method.id = id := by
  have hname : outline.name = declaration.name := (ofDeclaration_eq_ok built).2.2
  constructor
  · rintro ⟨declared, hdeclared, hcandidate⟩
    have hid : id < outline.size := by
      rw [size_of_ofDeclaration built]
      exact (List.getElem?_eq_some_iff.mp hdeclared).1
    obtain ⟨method, declared', hmethod, hdeclared', hmade⟩ :=
      exists_method_of_ofDeclaration built hid
    obtain rfl : declared' = declared := Option.some.inj (hdeclared'.symm.trans hdeclared)
    have hmem : method ∈ outline.methods.toList :=
      List.mem_of_getElem? (Array.getElem?_toList ▸ hmethod)
    rw [← hname] at hcandidate
    exact ⟨method, (mem_candidates hmem hmade).mpr hcandidate,
      (Method.ofDeclaration_eq_ok hmade).1⟩
  · rintro ⟨method, hmethod, rfl⟩
    have hmem := (candidates_sublist outline site).subset hmethod
    obtain ⟨id, hid⟩ := List.mem_iff_getElem?.mp hmem
    rw [Array.getElem?_toList] at hid
    have hlt : id < outline.size := (Array.getElem?_eq_some_iff.mp hid).1
    obtain ⟨method', declared, hmethod', hdeclared, hmade⟩ :=
      exists_method_of_ofDeclaration built hlt
    obtain rfl : method' = method := Option.some.inj (hmethod'.symm.trans hid)
    rw [mem_candidates hmem hmade, hname] at hmethod
    rw [(Method.ofDeclaration_eq_ok hmade).1]
    exact ⟨declared, hdeclared, hmethod⟩

/-- What a site means is the candidate that is declared first. -/
theorem head?_candidates_iff {callee : Nat} :
    (∃ method, (outline.candidates site).head? = some method ∧ method.id = callee) ↔
      IsLeast {id | declaration.IsCandidate site id} callee := by
  have hsorted : (outline.candidates site).Pairwise fun method other => method.id < other.id :=
    (numbered_of_ofDeclaration built).pairwise_id.sublist (candidates_sublist outline site)
  have hmem : ∀ id, declaration.IsCandidate site id ↔
      ∃ method ∈ outline.candidates site, method.id = id := fun _ => isCandidate_iff built
  simp only [IsLeast, lowerBounds, Set.mem_ofPred_eq, hmem]
  cases hcandidates : outline.candidates site with
  | nil => simp
  | cons first others =>
      rw [hcandidates, List.pairwise_cons] at hsorted
      constructor
      · rintro ⟨method, hfirst, rfl⟩
        obtain rfl : first = method := Option.some.inj hfirst
        refine ⟨⟨first, List.mem_cons_self, rfl⟩, ?_⟩
        rintro _ ⟨other, hother, rfl⟩
        rcases List.mem_cons.mp hother with rfl | hother
        · exact Nat.le_refl _
        · exact Nat.le_of_lt (hsorted.1 other hother)
      · rintro ⟨⟨method, hmethod, rfl⟩, hleast⟩
        refine ⟨first, rfl, Nat.le_antisymm ?_ (hleast ⟨first, List.mem_cons_self, rfl⟩)⟩
        rcases List.mem_cons.mp hmethod with rfl | hmethod
        · exact Nat.le_refl _
        · exact Nat.le_of_lt (hsorted.1 method hmethod)

/-- A site in a method means the candidate that is declared first, and nothing without one. -/
theorem resolveSite?_eq_some {caller callee : Nat} :
    outline.resolveSite? site = some (caller, callee) ↔
      site.enclosingMethod = some caller ∧
        IsLeast {id | declaration.IsCandidate site id} callee := by
  rw [← head?_candidates_iff built]
  simp only [resolveSite?, Option.bind_eq_bind, Option.bind_eq_some_iff, Option.pure_def,
    Option.some.injEq, Prod.mk.injEq]
  grind

/-- A call is that of a site in its method, and means the candidate that is declared first. -/
theorem exists_site_of_mem_resolve (hresolved : outline.resolve sites = .ok calls) {call : Call}
    (hcall : call ∈ calls) :
    ∃ site, sites[call.site]? = some site ∧ site.enclosingMethod = some call.caller ∧
      IsLeast {id | declaration.IsCandidate site id} call.callee ∧
      call.line = site.line ∧ call.column = site.column ∧
      call.isReference = site.isReference := by
  obtain ⟨site, hsite, hmade⟩ := (mem_resolve hresolved).mp hcall
  obtain ⟨ends, hends, hparts⟩ := Option.map_eq_some_iff.mp hmade
  obtain ⟨hcaller, hcallee⟩ := (resolveSite?_eq_some built).mp hends
  refine ⟨site, hsite, ?_⟩
  rw [← hparts]
  exact ⟨hcaller, hcallee, rfl, rfl, rfl⟩

/-- A site in a method that has a candidate makes a call. -/
theorem exists_call_of_isCandidate (hresolved : outline.resolve sites = .ok calls) {index id : Nat}
    (hsite : sites[index]? = some site) (hinside : site.enclosingMethod.isSome = true)
    (hcandidate : declaration.IsCandidate site id) : ∃ call ∈ calls, call.site = index := by
  obtain ⟨caller, hcaller⟩ := Option.isSome_iff_exists.mp hinside
  obtain ⟨method, hmethod, rfl⟩ := (isCandidate_iff built).mp hcandidate
  obtain ⟨first, hfirst⟩ := Option.isSome_iff_exists.mp
    (List.isSome_head?.mpr (List.ne_nil_of_mem hmethod))
  have hends := (resolveSite?_eq_some built).mpr
    ⟨hcaller, (head?_candidates_iff built).mp ⟨first, hfirst, rfl⟩⟩
  obtain ⟨call, hcall⟩ : ∃ call, outline.callOf? (parentsOf sites) index site = some call := by
    rw [callOf?, hends]
    exact ⟨_, rfl⟩
  obtain rfl := (callOf?_eq_some hcall).1
  exact ⟨call, (mem_resolve hresolved).mpr ⟨site, hsite, hcall⟩, rfl⟩

end Declared

/-! ## Results -/

/-- **Resolution**: sites without a flaw make calls, in their order, one for each site that is in a
method and has a candidate and none for the others. The call comes from the method around the site
and means the candidate that is declared first; its place is that of the site. -/
theorem resolve_means_first_candidate (built : ofDeclaration declaration = .ok outline)
    (valid : outline.sitesFlaw? sites = none) :
    ∃ calls, outline.resolve sites = .ok calls ∧
      (calls.map (·.site)).Pairwise (· < ·) ∧
      (∀ index, (∃ call ∈ calls, call.site = index) ↔
        ∃ site, sites[index]? = some site ∧ site.enclosingMethod.isSome = true ∧
          ∃ id, declaration.IsCandidate site id) ∧
      ∀ call ∈ calls, ∃ site, sites[call.site]? = some site ∧
        site.enclosingMethod = some call.caller ∧
        IsLeast {id | declaration.IsCandidate site id} call.callee ∧
        call.line = site.line ∧ call.column = site.column ∧
        call.isReference = site.isReference := by
  have hresolved := resolve_eq_ok.mpr ⟨valid, rfl⟩
  refine ⟨_, hresolved, ?_, ?_, fun call => exists_site_of_mem_resolve built hresolved⟩
  · exact List.pairwise_map.mpr (pairwise_site_of_resolve hresolved)
  · intro index
    constructor
    · rintro ⟨call, hcall, rfl⟩
      obtain ⟨site, hsite, hcaller, hcallee, -⟩ :=
        exists_site_of_mem_resolve built hresolved hcall
      exact ⟨site, hsite, by rw [hcaller, Option.isSome_some], call.callee, hcallee.1⟩
    · rintro ⟨site, hsite, hinside, id, hcandidate⟩
      exact exists_call_of_isCandidate built hresolved hsite hinside hcandidate

end Outline

/-- A class with overloads of each kind: the first one takes any number of arguments after the first
by the way in which its type is written, the third one any number by its declaration. -/
def printer : ClassDeclaration where
  name := "Printer"
  methods := [
    { name := "print", parameters := [{ typeName := "String" }, { typeName := "Object ... " }],
      line := 1, endLine := 9 },
    { name := "print", parameters := [{ typeName := "String" }], isStatic := true, line := 10,
      endLine := 14 },
    { name := "print", parameters := [{ typeName := "int", variableArity := true }], line := 15,
      endLine := 19 },
    { name := "flush", line := 20, endLine := 24 } ]
  callSites := [
    (CallSite.call "print" 1 2 4).inside 0,
    (CallSite.qualifiedCall .this "print" 0 3 4).inside 0,
    (CallSite.qualifiedCall (.named "out") "print" 1 4 4).inside 0,
    (CallSite.call "flush" 1 5 4).inside 0,
    CallSite.call "flush" 0 6 4,
    (CallSite.reference (.named "Printer") "print" 11 4).inside 1,
    (CallSite.reference .this "print" 12 4).inside 1,
    (CallSite.reference .unqualified "flush" 13 4).inside 1 ]

/-- The methods of it. -/
def printerOutline : Outline :=
  (Outline.ofDeclaration printer).toOption.getD default

/-- With one argument the first overload is meant, although the second one takes just one. A call on
another receiver, one with too many arguments, one outside of methods and a reference to nothing in
particular mean no method. -/
theorem resolve_printer :
    Outline.ofDeclaration printer = .ok printerOutline ∧
      printerOutline.sitesFlaw? printer.callSites = none ∧
      ∃ calls, printerOutline.resolve printer.callSites = .ok calls ∧
        calls.map (fun call => (call.site, call.caller, call.callee)) =
          [(0, 0, 0), (1, 0, 2), (5, 1, 1), (6, 1, 0)] ∧
        (∀ index, (∃ call ∈ calls, call.site = index) ↔
          ∃ site, printer.callSites[index]? = some site ∧ site.enclosingMethod.isSome = true ∧
            ∃ id, printer.IsCandidate site id) := by
  have built : Outline.ofDeclaration printer = .ok printerOutline := by rfl
  have valid : printerOutline.sitesFlaw? printer.callSites = none := by rfl
  obtain ⟨calls, hresolved, -, hsites, -⟩ := Outline.resolve_means_first_candidate built valid
  refine ⟨built, valid, calls, hresolved, ?_, hsites⟩
  obtain ⟨-, rfl⟩ := Outline.resolve_eq_ok.mp hresolved
  rfl

end ClassLayout

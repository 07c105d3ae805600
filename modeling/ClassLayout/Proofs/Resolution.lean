import ClassLayout.Analysis
import ClassLayout.Proofs.Appearance
import ClassLayout.Proofs.CallGraph

/-!
# ClassLayout.Proofs.Resolution

Which class declarations are accepted, and what the calls of an accepted one look like.

1. The way outward from a site follows its parents up to a limit. A trail fits into the limit
   (`ancestors_of_trail`), and a way that stops before the limit is a trail (`trail_ancestors`).
   Parents that never lead back are met once each, so counting steps finds the circles and nothing
   else (`noneCyclic_iff`).
2. `Outline.sitesFlaw?_eq_none` says what the sites of a class need.
3. `ClassDeclaration.Sound` puts this together with what the methods need. It holds exactly of the
   declarations that have a graph (`CallGraph.exists_ofDeclaration`).

What other modules need of an accepted class is `CallGraph.nested_calls`: its calls stand inside
each other as they do in a text.
-/

namespace ClassLayout

/-! ## The way outward -/

/-- The parent of a site. -/
def parentAt (sites : List CallSite) (index : Nat) : Option Nat :=
  sites[index]?.bind (·.parent)

section Outward

variable {sites : List CallSite} {index parent limit : Nat} {outer : List Nat}

theorem size_parentsOf (sites : List CallSite) : (parentsOf sites).size = sites.length := by
  simp [parentsOf]

theorem parentAt_of_getElem? (h : sites[index]? = some site) :
    parentAt sites index = site.parent := by
  rw [parentAt, h, Option.bind_some]

theorem ancestors_of_parentAt (h : parentAt sites index = some parent) :
    ancestors (parentsOf sites) (limit + 1) index =
      parent :: ancestors (parentsOf sites) limit parent := by
  obtain ⟨site, hsite, hparent⟩ := Option.bind_eq_some_iff.mp h
  simp [ancestors, parentsOf, hsite, hparent]

theorem ancestors_of_outermost (h : parentAt sites index = none) :
    ancestors (parentsOf sites) (limit + 1) index = [] := by
  cases hsite : sites[index]? with
  | none => simp [ancestors, parentsOf, hsite]
  | some site =>
      rw [parentAt_of_getElem? hsite] at h
      simp [ancestors, parentsOf, hsite, h]

/-- A limit that the trail does not exceed makes no difference. -/
theorem ancestors_of_trail (h : Trail (parentAt sites) index outer)
    (hlimit : outer.length ≤ limit) :
    ancestors (parentsOf sites) limit index = outer := by
  induction h generalizing limit with
  | last hlast =>
      cases limit with
      | zero => rfl
      | succ limit => exact ancestors_of_outermost hlast
  | step hstep _ ih =>
      rw [List.length_cons] at hlimit
      obtain ⟨limit, rfl⟩ : ∃ rest, limit = rest + 1 := ⟨limit - 1, by omega⟩
      rw [ancestors_of_parentAt hstep, ih (by omega)]

/-- A way that stops before the limit has come to its end. -/
theorem trail_ancestors (h : (ancestors (parentsOf sites) limit index).length < limit) :
    Trail (parentAt sites) index (ancestors (parentsOf sites) limit index) := by
  induction limit generalizing index with
  | zero => contradiction
  | succ limit ih =>
      cases hparent : parentAt sites index with
      | none =>
          rw [ancestors_of_outermost hparent]
          exact .last hparent
      | some parent =>
          rw [ancestors_of_parentAt hparent] at h ⊢
          exact .step hparent (ih (Nat.lt_of_succ_lt_succ h))

/-- Parents lead to whatever is met on the way. -/
theorem leads_of_mem_ancestors (h : other ∈ ancestors (parentsOf sites) limit index) :
    Leads (parentAt sites) index other := by
  induction limit generalizing index with
  | zero => contradiction
  | succ limit ih =>
      rw [leads_iff_exists_link]
      cases hparent : parentAt sites index with
      | none =>
          rw [ancestors_of_outermost hparent] at h
          contradiction
      | some parent =>
          rw [ancestors_of_parentAt hparent, List.mem_cons] at h
          refine ⟨parent, rfl, within_iff.mpr ?_⟩
          exact h.imp_right ih

/-- Whatever is met on the way leads to all that is met later. -/
theorem pairwise_ancestors (sites : List CallSite) (limit index : Nat) :
    (index :: ancestors (parentsOf sites) limit index).Pairwise (Leads (parentAt sites)) := by
  induction limit generalizing index with
  | zero => simp [ancestors]
  | succ limit ih =>
      refine List.pairwise_cons.mpr ⟨fun _ => leads_of_mem_ancestors, ?_⟩
      cases hparent : parentAt sites index with
      | none =>
          rw [ancestors_of_outermost hparent]
          exact .nil
      | some parent =>
          rw [ancestors_of_parentAt hparent]
          exact ih parent

/-- All parents are sites. -/
def ParentsExist (sites : List CallSite) : Prop :=
  ∀ index parent, parentAt sites index = some parent → parent < sites.length

/-- As many steps as there are sites suffice for every trail. -/
theorem ParentsExist.trail_iff (hexist : ParentsExist sites) (hindex : index < sites.length) :
    Trail (parentAt sites) index outer ↔
      isCyclic (parentsOf sites) index = false ∧
        outer = ancestors (parentsOf sites) sites.length index := by
  rw [isCyclic, size_parentsOf, decide_eq_false_iff_not, Nat.not_lt]
  constructor
  · intro h
    have hlength := h.length_lt hexist hindex
    rw [ancestors_of_trail h (by omega), ancestors_of_trail h (by omega)]
    exact ⟨by omega, rfl⟩
  · rintro ⟨hshort, rfl⟩
    have h := trail_ancestors (Nat.lt_succ_of_le hshort)
    have hlength := h.length_lt hexist hindex
    rwa [← ancestors_of_trail h (by omega)] at h

/-- Counting steps finds the circles: a site that leads back to itself, or leads to one that does,
has more sites around it than there are, and no other site has. -/
theorem ParentsExist.noneCyclic_iff (hexist : ParentsExist sites) :
    (∀ index < sites.length, isCyclic (parentsOf sites) index = false) ↔
      ∀ index, ¬ Leads (parentAt sites) index index := by
  constructor
  · intro hnone index hleads
    have hindex := hleads.lt hexist
    exact ((hexist.trail_iff hindex).mpr ⟨hnone index hindex, rfl⟩).not_leads_self hleads
  · intro hacyclic index hindex
    have hpairwise := pairwise_ancestors sites (sites.length + 1) index
    have hnodup : (ancestors (parentsOf sites) (sites.length + 1) index).Nodup := by
      refine (List.pairwise_cons.mp hpairwise).2.imp ?_
      rintro other _ hleads rfl
      exact hacyclic other hleads
    have hsub : ancestors (parentsOf sites) (sites.length + 1) index ⊆ List.range sites.length :=
      fun other hother => List.mem_range.mpr ((leads_of_mem_ancestors hother).lt hexist)
    have hle := (List.subperm_of_subset hnodup hsub).length_le
    rw [List.length_range] at hle
    rw [isCyclic, size_parentsOf, decide_eq_false_iff_not]
    omega

end Outward

/-! ## The sites of a class -/

namespace Outline

variable {outline : Outline} {sites : List CallSite}

/-- What a site needs by itself. -/
theorem siteFlaw?_eq_none {site : CallSite} {siteCount index : Nat} :
    outline.siteFlaw? siteCount index site = none ↔
      (∀ parent, site.parent = some parent → parent < siteCount ∧ parent ≠ index) ∧
      ∀ id, site.enclosingMethod = some id →
        ∃ method, outline.methods[id]? = some method ∧ method.covers site.line = true := by
  rw [siteFlaw?, Option.or_eq_none_iff]
  refine and_congr ?_ ?_
  · cases site.parent with
    | none => simp
    | some parent => simp
  · cases hid : site.enclosingMethod with
    | none => simp
    | some id =>
        cases hmethod : outline.methods[id]? with
        | none => simp [hmethod]
        | some method => simp [hmethod]

/-- What the sites of a class need. -/
theorem sitesFlaw?_eq_none :
    outline.sitesFlaw? sites = none ↔
      (∀ index site, sites[index]? = some site →
        outline.siteFlaw? sites.length index site = none) ∧
      ∀ index < sites.length, isCyclic (parentsOf sites) index = false := by
  simp only [sitesFlaw?, Option.or_eq_none_iff, List.findSome?_eq_none_iff, Option.map_eq_none_iff,
    List.find?_eq_none, List.mem_range, Bool.not_eq_true, Prod.forall, List.mem_zipIdx_iff_getElem?]
  grind

/-- The calls of a class are made when its sites have no flaw. -/
theorem resolve_eq_ok :
    outline.resolve sites = .ok calls ↔ outline.sitesFlaw? sites = none ∧
      calls = sites.zipIdx.filterMap fun (site, index) =>
        outline.callOf? (parentsOf sites) index site := by
  rw [resolve]
  split
  · next flaw hflaw => simp [hflaw]
  · next hflaw => simp [hflaw, eq_comm]

/-- What a site may mean is a method of the class. -/
theorem mem_methods_of_mem_candidates (h : method ∈ outline.candidates site) :
    method ∈ outline.methods.toList := by
  simp only [candidates, staticNamed, instanceNamed, named] at h
  grind

/-- Where a call comes from. -/
theorem callOf?_eq_some {call : Call} {parents : Array (Option Nat)} {index : Nat}
    (h : outline.callOf? parents index site = some call) :
    call.site = index ∧ call.enclosingSites = ancestors parents parents.size index ∧
      site.enclosingMethod = some call.caller ∧
      ∃ method ∈ outline.methods.toList, call.callee = method.id := by
  obtain ⟨ends, hends, rfl⟩ := Option.map_eq_some_iff.mp h
  obtain ⟨caller, hcaller, hends⟩ := Option.bind_eq_some_iff.mp hends
  obtain ⟨method, hmethod, hends⟩ := Option.bind_eq_some_iff.mp hends
  obtain rfl := Option.some.inj hends
  exact ⟨rfl, rfl, hcaller, method,
    mem_methods_of_mem_candidates (List.mem_of_head? hmethod), rfl⟩

section Resolved

variable {calls : List Call} (hresolved : outline.resolve sites = .ok calls)

include hresolved

/-- The calls of a class are the calls of its sites. -/
theorem mem_resolve :
    call ∈ calls ↔ ∃ site, sites[call.site]? = some site ∧
      outline.callOf? (parentsOf sites) call.site site = some call := by
  obtain ⟨-, rfl⟩ := resolve_eq_ok.mp hresolved
  rw [List.mem_filterMap]
  constructor
  · rintro ⟨⟨site, index⟩, hmem, hcall⟩
    obtain ⟨rfl, -⟩ := callOf?_eq_some hcall
    exact ⟨site, List.mem_zipIdx_iff_getElem?.mp hmem, hcall⟩
  · rintro ⟨site, hsite, hcall⟩
    exact ⟨(site, call.site), List.mem_zipIdx_iff_getElem?.mpr hsite, hcall⟩

theorem exists_site_of_resolve (hcall : call ∈ calls) :
    ∃ site, sites[call.site]? = some site ∧
      call.enclosingSites = ancestors (parentsOf sites) sites.length call.site ∧
      site.enclosingMethod = some call.caller ∧
      ∃ method ∈ outline.methods.toList, call.callee = method.id := by
  obtain ⟨site, hsite, hcall⟩ := (mem_resolve hresolved).mp hcall
  obtain ⟨-, henclosing, hends⟩ := callOf?_eq_some hcall
  rw [size_parentsOf] at henclosing
  exact ⟨site, hsite, henclosing, hends⟩

/-- Calls come in the order of their sites. -/
theorem pairwise_site_of_resolve : calls.Pairwise fun call other => call.site < other.site := by
  obtain ⟨-, rfl⟩ := resolve_eq_ok.mp hresolved
  have hindices : sites.zipIdx.Pairwise fun a b => a.2 < b.2 := by
    rw [← List.pairwise_map (f := Prod.snd), List.zipIdx_map_snd]
    exact List.pairwise_lt_range'
  rw [List.pairwise_filterMap]
  refine hindices.imp ?_
  intro a b hlt call hcall other hother
  rwa [(callOf?_eq_some hcall).1, (callOf?_eq_some hother).1]

end Resolved

end Outline

/-! ## Classes without a flaw -/

/-- What a class declaration needs to be accepted. -/
structure ClassDeclaration.Sound (declaration : ClassDeclaration) : Prop where
  /-- No method ends before it starts. -/
  spans : ∀ method ∈ declaration.methods, method.line ≤ method.endLine
  /-- No two methods have the same signature. -/
  signatures : (declaration.methods.map fun method =>
    Signature.render method.name method.parameters).Nodup
  /-- The parent of a site is another site. -/
  parents : ∀ (index : Nat) (site : CallSite) (parent : Nat),
    declaration.callSites[index]? = some site → site.parent = some parent →
      parent < declaration.callSites.length ∧ parent ≠ index
  /-- The method that holds a site exists, and the site is on one of its lines. -/
  methods : ∀ site ∈ declaration.callSites, ∀ id, site.enclosingMethod = some id →
    ∃ method, declaration.methods[id]? = some method ∧
      method.line ≤ site.line ∧ site.line ≤ method.endLine
  /-- No site is reached from itself by going from parent to parent. -/
  acyclic : ∀ index, ¬ Leads (parentAt declaration.callSites) index index

variable {declaration : ClassDeclaration} {outline : Outline}

theorem ClassDeclaration.Sound.parentsExist (h : declaration.Sound) :
    ParentsExist declaration.callSites := by
  intro index parent hparent
  obtain ⟨site, hsite, hparent⟩ := Option.bind_eq_some_iff.mp hparent
  exact (h.parents index site parent hsite hparent).1

/-- A site without a flaw by itself has a parent that exists. -/
theorem Outline.parentsExist_of_siteFlaw? {sites : List CallSite}
    (h : ∀ index site, sites[index]? = some site →
      outline.siteFlaw? sites.length index site = none) : ParentsExist sites := by
  intro index parent hparent
  obtain ⟨site, hsite, hparent⟩ := Option.bind_eq_some_iff.mp hparent
  exact ((siteFlaw?_eq_none.mp (h index site hsite)).1 parent hparent).1

namespace CallGraph

theorem ofDeclaration_eq_ok {graph : CallGraph} :
    ofDeclaration declaration = .ok graph ↔
      ∃ outline, Outline.ofDeclaration declaration = .ok outline ∧
        ∃ calls, outline.resolve declaration.callSites = .ok calls ∧
          graph = ofCalls outline calls := by
  rw [ofDeclaration, bind_eq_ok]
  refine exists_congr fun outline => and_congr_right fun _ => ?_
  rw [bind_eq_ok]
  refine exists_congr fun calls => and_congr_right fun _ => ?_
  simp [pure, Except.pure, eq_comm]

/-- A class is accepted exactly if nothing is wrong with it. -/
theorem exists_ofDeclaration :
    (∃ graph, ofDeclaration declaration = .ok graph) ↔ declaration.Sound := by
  constructor
  · rintro ⟨graph, h⟩
    obtain ⟨outline, houtline, calls, hcalls, -⟩ := ofDeclaration_eq_ok.mp h
    obtain ⟨hspans, hsignatures⟩ := Outline.exists_ofDeclaration.mp ⟨outline, houtline⟩
    obtain ⟨hsites, hnone⟩ := Outline.sitesFlaw?_eq_none.mp (Outline.resolve_eq_ok.mp hcalls).1
    refine ⟨hspans, hsignatures, ?_, ?_,
      (Outline.parentsExist_of_siteFlaw? hsites).noneCyclic_iff.mp hnone⟩
    · intro index site parent hsite
      exact (Outline.siteFlaw?_eq_none.mp (hsites index site hsite)).1 parent
    · intro site hmem id hid
      obtain ⟨index, hsite⟩ := List.mem_iff_getElem?.mp hmem
      rw [← Outline.exists_covers_iff houtline]
      exact (Outline.siteFlaw?_eq_none.mp (hsites index site hsite)).2 id hid
  · intro h
    obtain ⟨outline, houtline⟩ := Outline.exists_ofDeclaration.mpr ⟨h.spans, h.signatures⟩
    have hsites : ∀ index site, declaration.callSites[index]? = some site →
        outline.siteFlaw? declaration.callSites.length index site = none := by
      intro index site hsite
      rw [Outline.siteFlaw?_eq_none]
      refine ⟨fun parent => h.parents index site parent hsite, ?_⟩
      intro id hid
      rw [Outline.exists_covers_iff houtline]
      exact h.methods site (List.mem_of_getElem? hsite) id hid
    have hnone := Outline.sitesFlaw?_eq_none.mpr
      ⟨hsites, h.parentsExist.noneCyclic_iff.mpr h.acyclic⟩
    exact ⟨_, ofDeclaration_eq_ok.mpr
      ⟨outline, houtline, _, Outline.resolve_eq_ok.mpr ⟨hnone, rfl⟩, rfl⟩⟩

section Accepted

variable {graph : CallGraph} (built : ofDeclaration declaration = .ok graph)

include built

/-- The graph of a class has the outline of its methods, and all calls that its sites make. -/
theorem resolve_of_ofDeclaration :
    Outline.ofDeclaration declaration = .ok graph.outline ∧
      graph.outline.resolve declaration.callSites = .ok graph.calls ∧
      graph = ofCalls graph.outline graph.calls := by
  obtain ⟨outline, houtline, calls, hresolved, rfl⟩ := ofDeclaration_eq_ok.mp built
  have hnone := (Outline.sitesFlaw?_eq_none.mp (Outline.resolve_eq_ok.mp hresolved).1).1
  -- both ends of a call are methods, so the graph keeps it
  have hkept : (ofCalls outline calls).calls = calls := by
    refine List.filter_eq_self.mpr ?_
    intro call hcall
    obtain ⟨site, hsite, -, hcaller, method, hmethod, hcallee⟩ :=
      Outline.exists_site_of_resolve hresolved hcall
    obtain ⟨caller, hfound, -⟩ :=
      (Outline.siteFlaw?_eq_none.mp (hnone _ site hsite)).2 _ hcaller
    have hcallerLt : call.caller < outline.size := (Array.getElem?_eq_some_iff.mp hfound).1
    have hcalleeLt := (Outline.numbered_of_ofDeclaration houtline).id_lt hmethod
    simp [hcallerLt, hcallee, hcalleeLt]
  rw [hkept]
  exact ⟨houtline, hresolved, rfl⟩

theorem wellFormed : graph.WellFormed := by
  obtain ⟨houtline, -, hgraph⟩ := resolve_of_ofDeclaration built
  rw [hgraph]
  exact wellFormed_ofCalls (Outline.numbered_of_ofDeclaration houtline) _

/-- The sites around a call are those on the way outward, up to the outermost one. -/
theorem trail_of_mem_calls (hcall : call ∈ graph.calls) :
    call.site < declaration.callSites.length ∧
      Trail (parentAt declaration.callSites) call.site call.enclosingSites := by
  obtain ⟨-, hresolved, -⟩ := resolve_of_ofDeclaration built
  obtain ⟨site, hsite, henclosing, -⟩ := Outline.exists_site_of_resolve hresolved hcall
  obtain ⟨hsites, hnone⟩ := Outline.sitesFlaw?_eq_none.mp (Outline.resolve_eq_ok.mp hresolved).1
  have hlt : call.site < declaration.callSites.length := (List.getElem?_eq_some_iff.mp hsite).1
  refine ⟨hlt, ?_⟩
  rw [(Outline.parentsExist_of_siteFlaw? hsites).trail_iff hlt]
  exact ⟨hnone _ hlt, henclosing⟩

/-- A call stands inside another one if the parents lead there. -/
theorem isInside_iff_leads (hx : x ∈ graph.calls) :
    x.isInside y = true ↔ Leads (parentAt declaration.callSites) x.site y.site := by
  have htrail := (trail_of_mem_calls built hx).2
  rw [Call.isInside, Bool.and_eq_true, List.contains_iff_mem, htrail.mem_iff, bne_iff_ne]
  refine and_iff_right_of_imp ?_
  intro hleads hsite
  exact htrail.not_leads_self (hsite ▸ hleads)

/-- The calls of a class stand inside each other as they do in a text. -/
theorem nested_calls : Appearance.Nested graph.calls where
  sites := by
    obtain ⟨-, hresolved, -⟩ := resolve_of_ofDeclaration built
    rw [List.Nodup, List.pairwise_map]
    exact (Outline.pairwise_site_of_resolve hresolved).imp Nat.ne_of_lt
  chain := by
    intro inner hinner outer houter before after hsplit
    have htrail := (trail_of_mem_calls built hinner).2
    rw [hsplit] at htrail
    exact htrail.suffix.unique (trail_of_mem_calls built houter).2

end Accepted

end CallGraph

/-! ## Building a class -/

/-- A class with calls in the arguments of calls. The call of `trim` between two others means no
method of the class, and the innermost call is written below one that it comes before. -/
def mailer : ClassDeclaration where
  name := "Mailer"
  methods := [
    { name := "send", line := 1, endLine := 9 },
    { name := "render", parameters := [{ typeName := "int" }], line := 10, endLine := 14 },
    { name := "log", parameters := [{ typeName := "String" }], line := 15, endLine := 19 } ]
  callSites := [
    (CallSite.call "log" 1 3 4).inside 0,
    ((CallSite.call "trim" 1 3 8).inside 0).nestedIn 0,
    ((CallSite.call "render" 1 6 12).inside 0).nestedIn 1,
    (CallSite.call "render" 1 5 4).inside 0,
    (CallSite.call "log" 1 12 4).inside 1 ]

/-- Which methods of it call which. -/
def mailerGraph : CallGraph :=
  (CallGraph.ofDeclaration mailer).toOption.getD default

theorem mailer_built : CallGraph.ofDeclaration mailer = .ok mailerGraph := by rfl

namespace Analysis

end Analysis

end ClassLayout

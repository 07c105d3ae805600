import ClassLayout.Proofs.Numbering
import ClassLayout.Proofs.Views

/-!
# ClassLayout.Proofs.Sites

When two lists of call sites tell the same of a class.

1. Calls that stand inside each other and in the text as some others do appear in the same order
   (`Appearance.Renamed.order_eq`), since there is only one order in which each call appears before
   the next ones.
2. `Recounts outline origin sites' sites` says that each site of a list is one of another list,
   inside the same ones, and that what it leaves out means no method. Then the calls are the same
   under other names (`Recounts.perm`).
3. So the class is accepted with these sites as well, and its graph differs in the sites only
   (`CallGraph.exists_bare_eq`).
-/

namespace ClassLayout

/-! ## Calls under other names -/

namespace Appearance

/-- The calls are the others under other names, which keep what the order of appearance is told by.
-/
structure Renamed (name : Call → Call) (others calls : List Call) : Prop where
  perm : calls.Perm (others.map name)
  inside : ∀ x ∈ others, ∀ y ∈ others, (name x).isInside (name y) = x.isInside y
  earlier : ∀ x ∈ others, ∀ y ∈ others, x.Earlier y → (name x).Earlier (name y)

namespace Renamed

variable {name : Call → Call} {others calls : List Call} {x y a : Call}

theorem mem (h : Renamed name others calls) (hx : x ∈ others) : name x ∈ calls :=
  h.perm.mem_iff.mpr (List.mem_map_of_mem hx)

/-- No two calls get one name. -/
theorem name_inj (h : Renamed name others calls) (hcalls : Nested calls) (hx : x ∈ others)
    (hy : y ∈ others) : name x = name y ↔ x = y := by
  have hnodup := h.perm.nodup_iff.mp hcalls.nodup
  exact ⟨fun hname => List.inj_on_of_nodup_map hnodup hx hy hname, congrArg name⟩

theorem holds_iff (h : Renamed name others calls) (hcalls : Nested calls) (hx : x ∈ others)
    (hy : y ∈ others) : Holds (name x) (name y) ↔ Holds x y := by
  rw [Holds, Holds, h.name_inj hcalls hx hy, h.inside y hy x hx]

theorem branch (h : Renamed name others calls) (hcalls : Nested calls) (hx : x ∈ others)
    (hy : y ∈ others) (ha : Branch others x y a) : Branch calls (name x) (name y) (name a) := by
  refine ⟨h.mem ha.mem, (h.holds_iff hcalls ha.mem hx).mpr ha.holds, ?_, ?_⟩
  · rw [h.holds_iff hcalls ha.mem hy]
    exact ha.apart
  · intro third hthird hholds hapart
    obtain ⟨other, hother, rfl⟩ := List.mem_map.mp (h.perm.mem_iff.mp hthird)
    rw [h.holds_iff hcalls hother hx] at hholds
    rw [h.holds_iff hcalls hother hy] at hapart
    exact (h.holds_iff hcalls ha.mem hother).mpr (ha.outermost other hother hholds hapart)

theorem appearsBefore (h : Renamed name others calls) (hcalls : Nested calls) (hx : x ∈ others)
    (hy : y ∈ others) (hxy : AppearsBefore others x y) :
    AppearsBefore calls (name x) (name y) := by
  rcases hxy with hinside | ⟨a, b, ha, hb, hab⟩
  · exact .inl ((h.inside x hx y hy).trans hinside)
  · exact .inr ⟨name a, name b, h.branch hcalls hx hy ha, h.branch hcalls hy hx hb,
      h.earlier a ha.mem b hb.mem hab⟩

/-- The calls appear in the order of the others. -/
theorem order_eq (h : Renamed name others calls) (hcalls : Nested calls) (hothers : Nested others) :
    order calls = (order others).map name := by
  have hperm : (order calls).Perm ((order others).map name) :=
    hcalls.order_perm.trans (h.perm.trans (hothers.order_perm.map name).symm)
  have hnamed : ((order others).map name).Pairwise (AppearsBefore calls) := by
    rw [List.pairwise_map]
    refine hothers.pairwise_order.imp_of_mem ?_
    intro x y hx hy hxy
    exact h.appearsBefore hcalls (mem_of_mem_order hx) (mem_of_mem_order hy) hxy
  refine hperm.eq_of_pairwise ?_ hcalls.pairwise_order hnamed
  intro x y hx hy hxy hyx
  have hy := hperm.mem_iff.mpr hy
  exact absurd hyx (hcalls.appearsBefore_asymm (mem_of_mem_order hx) (mem_of_mem_order hy) hxy)

end Renamed

end Appearance

/-! ## Sites told again -/

/-- Both sites are in the body of one method, at one place. -/
def CallSite.Coincides (site other : CallSite) : Prop :=
  site.enclosingMethod.isSome = true ∧ site.enclosingMethod = other.enclosingMethod ∧
    site.line = other.line ∧ site.column = other.column

instance (site other : CallSite) : Decidable (site.Coincides other) :=
  inferInstanceAs (Decidable (_ ∧ _))

theorem CallSite.Coincides.symm {site other : CallSite} (h : site.Coincides other) :
    other.Coincides site :=
  ⟨h.2.1 ▸ h.1, h.2.1.symm, h.2.2.1.symm, h.2.2.2.symm⟩

/-- No two of the sites coincide. -/
def SitesApart (sites : List CallSite) : Prop :=
  sites.Pairwise fun site other => ¬ site.Coincides other

instance (sites : List CallSite) : Decidable (SitesApart sites) :=
  inferInstanceAs (Decidable (List.Pairwise _ _))

theorem SitesApart.eq_of_coincides {sites : List CallSite} {site other : CallSite} {i j : Nat}
    (h : SitesApart sites) (hsite : sites[i]? = some site) (hother : sites[j]? = some other)
    (hcoincide : site.Coincides other) : i = j := by
  obtain ⟨hi, rfl⟩ := List.getElem?_eq_some_iff.mp hsite
  obtain ⟨hj, rfl⟩ := List.getElem?_eq_some_iff.mp hother
  have hpairs := List.pairwise_iff_getElem.mp h
  rcases Nat.lt_trichotomy i j with hlt | hsame | hgt
  · exact absurd hcoincide (hpairs i j hi hj hlt)
  · exact hsame
  · exact absurd hcoincide.symm (hpairs j i hj hi hgt)

/-- One list of sites tells the same as another one. Each site is that of the other list which
`origin` points to, except for the number of its parent. -/
structure Recounts (outline : Outline) (origin : Nat → Nat) (sites' sites : List CallSite) :
    Prop where
  parentsExist : ParentsExist sites'
  site : ∀ index site', sites'[index]? = some site' →
    ∃ site, sites[origin index]? = some site ∧ site' = { site with parent := site'.parent }
  injective : ∀ i < sites'.length, ∀ j < sites'.length, origin i = origin j → i = j
  /-- Sites stand inside each other as they did. -/
  leads : ∀ i < sites'.length, ∀ j < sites'.length,
    (Leads (parentAt sites') i j ↔ Leads (parentAt sites) (origin i) (origin j))
  /-- What is left out means no method. -/
  complete : ∀ index site, sites[index]? = some site → outline.resolveSite? site ≠ none →
    ∃ index' < sites'.length, origin index' = index
  /-- Sites that only their numbers tell apart stay in order. -/
  ordered : ∀ i j site other, sites'[i]? = some site → sites'[j]? = some other →
    site.Coincides other → i < j → origin i < origin j

/-- Calls from one method at one place are those of sites that coincide. -/
theorem Outline.coincides_of_callOf? {outline : Outline} {parents : Array (Option Nat)}
    {i j : Nat} {x y : Call} {site other : CallSite} (hx : outline.callOf? parents i site = some x)
    (hy : outline.callOf? parents j other = some y) (hcaller : x.caller = y.caller)
    (hline : x.line = y.line) (hcolumn : x.column = y.column) : site.Coincides other := by
  obtain ⟨-, -, hxcaller, -⟩ := callOf?_eq_some hx
  obtain ⟨-, -, hycaller, -⟩ := callOf?_eq_some hy
  obtain ⟨_, -, rfl⟩ := Option.map_eq_some_iff.mp hx
  obtain ⟨_, -, rfl⟩ := Option.map_eq_some_iff.mp hy
  refine ⟨?_, ?_, hline, hcolumn⟩
  · rw [hxcaller, Option.isSome_some]
  · rw [hxcaller, hycaller, hcaller]

namespace Recounts

variable {outline : Outline} {origin : Nat → Nat} {sites' sites : List CallSite}
  {calls' calls : List Call} {x y : Call}

/-- The call of the site that `origin` points to. -/
def name (origin : Nat → Nat) (sites : List CallSite) (call : Call) : Call :=
  { call with
    site := origin call.site
    enclosingSites := ancestors (parentsOf sites) sites.length (origin call.site) }

/-- A site makes the call of the site that it stands for. -/
theorem callOf?_origin (h : Recounts outline origin sites' sites) {index : Nat} {site' : CallSite}
    (hsite' : sites'[index]? = some site') :
    ∃ site, sites[origin index]? = some site ∧
      outline.callOf? (parentsOf sites) (origin index) site =
        (outline.callOf? (parentsOf sites') index site').map (name origin sites) := by
  obtain ⟨site, hsite, hsame⟩ := h.site index site' hsite'
  refine ⟨site, hsite, ?_⟩
  have hends : outline.resolveSite? site' = outline.resolveSite? site := by
    rw [hsame]
    rfl
  rw [Outline.callOf?, Outline.callOf?, hends, Option.map_map, size_parentsOf, hsame]
  rfl

/-- Different calls get different names. -/
theorem nodup_map_name (h : Recounts outline origin sites' sites)
    (hresolved' : outline.resolve sites' = .ok calls') :
    (calls'.map (name origin sites)).Nodup := by
  have hlt : ∀ x ∈ calls', x.site < sites'.length := by
    intro x hx
    obtain ⟨site, hsite, -⟩ := (Outline.mem_resolve hresolved').mp hx
    exact (List.getElem?_eq_some_iff.mp hsite).1
  rw [List.Nodup, List.pairwise_map]
  refine (Outline.pairwise_site_of_resolve hresolved').imp_of_mem ?_
  intro x y hx hy hsites hname
  have hsame := h.injective _ (hlt x hx) _ (hlt y hy) (congrArg Call.site hname)
  exact Nat.ne_of_lt hsites hsame

/-- A call is one of the other sites, under the name that these give it. -/
theorem mem_iff (h : Recounts outline origin sites' sites)
    (hresolved' : outline.resolve sites' = .ok calls')
    (hresolved : outline.resolve sites = .ok calls) :
    call ∈ calls ↔ ∃ other ∈ calls', name origin sites other = call := by
  rw [Outline.mem_resolve hresolved]
  constructor
  · rintro ⟨site, hsite, hcall⟩
    have hmeans : outline.resolveSite? site ≠ none := by
      intro hnone
      simp [Outline.callOf?, hnone] at hcall
    obtain ⟨index, hindex, horigin⟩ := h.complete _ site hsite hmeans
    have hsite' := List.getElem?_eq_getElem hindex
    obtain ⟨site₀, hsite₀, hsame⟩ := h.callOf?_origin hsite'
    rw [horigin] at hsite₀ hsame
    obtain rfl : site₀ = site := Option.some.inj (hsite₀.symm.trans hsite)
    obtain ⟨other, hother, hname⟩ := Option.map_eq_some_iff.mp (hsame.symm.trans hcall)
    refine ⟨other, (Outline.mem_resolve hresolved').mpr ⟨sites'[index], ?_⟩, hname⟩
    have hindex' : other.site = index := (Outline.callOf?_eq_some hother).1
    rw [hindex']
    exact ⟨hsite', hother⟩
  · rintro ⟨other, hother, rfl⟩
    obtain ⟨site', hsite', hcall'⟩ := (Outline.mem_resolve hresolved').mp hother
    obtain ⟨site, hsite, hsame⟩ := h.callOf?_origin hsite'
    rw [hcall', Option.map_some] at hsame
    exact ⟨site, hsite, hsame⟩

/-- The calls are the calls of the other sites, under the names that these give them. -/
theorem perm (h : Recounts outline origin sites' sites)
    (hresolved' : outline.resolve sites' = .ok calls')
    (hresolved : outline.resolve sites = .ok calls) :
    calls.Perm (calls'.map (name origin sites)) := by
  have hnodup : calls.Nodup := (Outline.pairwise_site_of_resolve hresolved).imp
    fun hsites heq => Nat.ne_of_lt hsites (congrArg _ heq)
  rw [List.perm_ext_iff_of_nodup hnodup (h.nodup_map_name hresolved')]
  intro call
  rw [List.mem_map, h.mem_iff hresolved' hresolved]

end Recounts

/-! ## Graphs that differ in the sites only -/

namespace CallGraph

variable {declaration : ClassDeclaration} {graph other : CallGraph} {origin : Nat → Nat}
  {sites' : List CallSite}

/-- What is told of the methods is the same in graphs that differ in the sites only. -/
theorem views_eq (h : other.bare = graph.bare) (id : Nat) :
    other.dependenciesOf id = graph.dependenciesOf id ∧
      other.dependantsOf id = graph.dependantsOf id ∧
      (other.invocationsOf id).map Call.bare = (graph.invocationsOf id).map Call.bare := by
  have hdependencies : other.bare.dependenciesOf id = graph.bare.dependenciesOf id := by rw [h]
  have hdependants : other.bare.dependantsOf id = graph.bare.dependantsOf id := by rw [h]
  refine ⟨hdependencies, hdependants, ?_⟩
  rw [← invocationsOf_bare, ← invocationsOf_bare, h]

/-- A graph apart from the sites is what it tells of the methods. -/
theorem WellFormed.bare_eq (wf' : other.WellFormed) (wf : graph.WellFormed)
    (houtline : other.outline = graph.outline)
    (hviews : ∀ id, other.dependenciesOf id = graph.dependenciesOf id ∧
      other.dependantsOf id = graph.dependantsOf id ∧
      (other.invocationsOf id).map Call.bare = (graph.invocationsOf id).map Call.bare) :
    other.bare = graph.bare := by
  have hsize : other.size = graph.size := congrArg Outline.size houtline
  have hdependencies : other.dependencies = graph.dependencies := by
    refine array_eq_of_getD ?_ fun id => (hviews id).1
    rw [wf'.dependencies_size, wf.dependencies_size, hsize]
  have hdependants : other.dependants = graph.dependants := by
    refine array_eq_of_getD ?_ fun id => (hviews id).2.1
    rw [wf'.dependants_size, wf.dependants_size, hsize]
  have hinvocations : other.bare.invocations = graph.bare.invocations := by
    refine array_eq_of_getD ?_ fun id => ?_
    · simp only [bare, Array.size_map, wf'.invocations_size, wf.invocations_size, hsize]
    · have hcalls := (hviews id).2.2
      rwa [← invocationsOf_bare, ← invocationsOf_bare] at hcalls
  have hgroups : other.groups = graph.groups := by rw [wf'.groups_eq, wf.groups_eq, houtline]
  simp only [bare] at hinvocations ⊢
  rw [houtline, hdependencies, hdependants, hinvocations, hgroups]

section Accepted

variable (built : ofDeclaration declaration = .ok graph)

include built

/-- Dependants are told by the ends of the calls. -/
theorem dependantsOf_eq (built' : ofDeclaration declaration' = .ok other)
    (hends : ∀ a b, (∃ call ∈ other.calls, call.caller = a ∧ call.callee = b) ↔
      ∃ call ∈ graph.calls, call.caller = a ∧ call.callee = b) (id : Nat) :
    other.dependantsOf id = graph.dependantsOf id := by
  obtain ⟨-, -, hgraph⟩ := resolve_of_ofDeclaration built
  obtain ⟨-, -, hother⟩ := resolve_of_ofDeclaration built'
  have hsorted := pairwise_dependantsOf_ofCalls graph.outline graph.calls id
  have hsorted' := pairwise_dependantsOf_ofCalls other.outline other.calls id
  rw [← hgraph] at hsorted
  rw [← hother] at hsorted'
  have hsame : ∀ a, a ∈ other.dependantsOf id ↔ a ∈ graph.dependantsOf id := by
    intro a
    have hleft := mem_dependantsOf_ofCalls (a := a) (b := id) other.outline other.calls
    have hright := mem_dependantsOf_ofCalls (a := a) (b := id) graph.outline graph.calls
    rw [← hother] at hleft
    rw [← hgraph] at hright
    rw [hleft, hright, hends]
  have hperm := (List.perm_ext_iff_of_nodup (hsorted'.imp Nat.ne_of_lt)
    (hsorted.imp Nat.ne_of_lt)).mpr hsame
  refine hperm.eq_of_pairwise ?_ hsorted' hsorted
  intro a b _ _ hab hba
  omega

/-- A class whose sites tell the same has nothing wrong with it either. -/
theorem sound_of_recounts (h : Recounts graph.outline origin sites' declaration.callSites) :
    ({ declaration with callSites := sites' } : ClassDeclaration).Sound := by
  have hsound := exists_ofDeclaration.mp ⟨graph, built⟩
  have hlt : ∀ {index outer : Nat}, parentAt sites' index = some outer → index < sites'.length := by
    intro index outer hparent
    obtain ⟨site, hsite, -⟩ := Option.bind_eq_some_iff.mp hparent
    exact (List.getElem?_eq_some_iff.mp hsite).1
  have hacyclic : ∀ index, ¬ Leads (parentAt sites') index index := by
    intro index hleads
    obtain ⟨outer, hparent, -⟩ := leads_iff_exists_link.mp hleads
    exact hsound.acyclic _ ((h.leads _ (hlt hparent) _ (hlt hparent)).mp hleads)
  refine ⟨hsound.spans, hsound.signatures, ?_, ?_, hacyclic⟩
  · intro index site parent hsite hparent
    have hlink : parentAt sites' index = some parent := (parentAt_of_getElem? hsite).trans hparent
    refine ⟨h.parentsExist index parent hlink, ?_⟩
    rintro rfl
    exact hacyclic parent (leads_iff_exists_link.mpr ⟨parent, hlink, .refl _ _⟩)
  · intro site' hsite' id hid
    obtain ⟨index, hindex⟩ := List.mem_iff_getElem?.mp hsite'
    obtain ⟨site, hsite, hsame⟩ := h.site index site' hindex
    rw [hsame] at hid ⊢
    exact hsound.methods site (List.mem_of_getElem? hsite) id hid

/-- The calls of each method are those of the other class, under the names that the sites give them.
-/
theorem renamed_of_recounts (h : Recounts graph.outline origin sites' declaration.callSites)
    (built' : ofDeclaration { declaration with callSites := sites' } = .ok other)
    (hperm : graph.calls.Perm (other.calls.map (Recounts.name origin declaration.callSites)))
    (id : Nat) :
    Appearance.Renamed (Recounts.name origin declaration.callSites)
      (other.calls.filter (·.caller == id)) (graph.calls.filter (·.caller == id)) where
  perm := by
    have hfiltered := hperm.filter (·.caller == id)
    rwa [List.filter_map] at hfiltered
  inside := by
    intro x hx y hy
    have hx := (List.mem_filter.mp hx).1
    have hy := (List.mem_filter.mp hy).1
    have hname := hperm.mem_iff.mpr (List.mem_map_of_mem hx)
    have hxlt := (trail_of_mem_calls built' hx).1
    have hylt := (trail_of_mem_calls built' hy).1
    rw [Bool.eq_iff_iff, isInside_iff_leads built hname, isInside_iff_leads built' hx]
    exact (h.leads _ hxlt _ hylt).symm
  earlier := by
    intro x hx y hy hearlier
    obtain ⟨hx, hxcaller⟩ := List.mem_filter.mp hx
    obtain ⟨hy, hycaller⟩ := List.mem_filter.mp hy
    obtain ⟨-, hresolved', -⟩ := resolve_of_ofDeclaration built'
    obtain ⟨site, hsite, hcall⟩ := (Outline.mem_resolve hresolved').mp hx
    obtain ⟨site', hsite', hcall'⟩ := (Outline.mem_resolve hresolved').mp hy
    have hcaller : x.caller = y.caller :=
      (beq_iff_eq.mp hxcaller).trans (beq_iff_eq.mp hycaller).symm
    -- the numbers of the sites count only where the places are the same
    rw [Call.earlier_iff] at hearlier ⊢
    rcases hearlier with hline | ⟨hline, hcolumn | ⟨hcolumn, hlt⟩⟩
    · exact .inl hline
    · exact .inr ⟨hline, .inl hcolumn⟩
    · have hsites := Outline.coincides_of_callOf? hcall hcall' hcaller hline hcolumn
      exact .inr ⟨hline, .inr ⟨hcolumn, h.ordered _ _ site site' hsite hsite' hsites hlt⟩⟩

/-- A class whose sites tell the same is accepted, and its graph differs in the sites only. -/
theorem exists_bare_eq (h : Recounts graph.outline origin sites' declaration.callSites) :
    ∃ other, ofDeclaration { declaration with callSites := sites' } = .ok other ∧
      other.bare = graph.bare := by
  obtain ⟨other, built'⟩ := exists_ofDeclaration.mpr (sound_of_recounts built h)
  refine ⟨other, built', ?_⟩
  obtain ⟨houtline, hresolved, hgraph⟩ := resolve_of_ofDeclaration built
  obtain ⟨houtline', hresolved', hother⟩ := resolve_of_ofDeclaration built'
  have hsame : other.outline = graph.outline := Except.ok.inj (houtline'.symm.trans houtline)
  rw [hsame] at hresolved'
  have hperm := h.perm hresolved' hresolved
  have hcalls : ∀ id, graph.invocationsOf id =
      (other.invocationsOf id).map (Recounts.name origin declaration.callSites) := by
    intro id
    have hleft := invocationsOf_ofCalls graph.outline graph.calls id
    have hright := invocationsOf_ofCalls other.outline other.calls id
    rw [← hgraph] at hleft
    rw [← hother] at hright
    rw [hleft, hright]
    exact (renamed_of_recounts built h built' hperm id).order_eq
      ((nested_calls built).filter _) ((nested_calls built').filter _)
  have hends : ∀ a b, (∃ call ∈ other.calls, call.caller = a ∧ call.callee = b) ↔
      ∃ call ∈ graph.calls, call.caller = a ∧ call.callee = b := by
    intro a b
    simp only [hperm.mem_iff, List.mem_map, exists_exists_and_eq_and]
    rfl
  refine WellFormed.bare_eq (wellFormed built') (wellFormed built) hsame fun id => ⟨?_, ?_, ?_⟩
  · rw [dependenciesOf_eq built', dependenciesOf_eq built, hcalls, List.map_map]
    rfl
  · exact dependantsOf_eq built built' hends id
  · rw [hcalls, List.map_map]
    rfl

end Accepted

end CallGraph

end ClassLayout

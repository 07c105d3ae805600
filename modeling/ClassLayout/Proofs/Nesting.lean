import ClassLayout.Proofs.Resolution

/-!
# ClassLayout.Proofs.Nesting

The calls of an accepted class stand inside each other as the nodes of a forest do. Sites that mean
no method take no part, but they do not cut a chain of parents: what stands inside such a site still
stands inside all that is around it.

1. No two calls have one site, so looking up a site finds the call there (`callAt?_eq_some`), and a
   site is inside another one exactly if both have a call and parents lead from one to the other
   (`siteInside_iff`).
2. Comparing each call with each finds every such pair, and finds it once
   (`count_nestingPairs`).

`nesting_is_forest_order` puts this together.
-/

namespace ClassLayout.CallGraph

variable {declaration : ClassDeclaration} {graph : CallGraph} {call : Call} {inner outer : Nat}

/-- What is found at a site is a call at that site. -/
theorem mem_of_callAt? {site : Nat} (h : graph.callAt? site = some call) :
    call ∈ graph.calls ∧ call.site = site := by
  rw [callAt?] at h
  have hsite := List.find?_some h
  exact ⟨List.mem_reverse.mp (List.mem_of_find?_eq_some h), beq_iff_eq.mp hsite⟩

section Accepted

variable (built : ofDeclaration declaration = .ok graph)

include built

/-- Looking up a site finds the call there. -/
theorem callAt?_eq_some {site : Nat} :
    graph.callAt? site = some call ↔ call ∈ graph.calls ∧ call.site = site := by
  refine ⟨mem_of_callAt?, ?_⟩
  rintro ⟨hmem, rfl⟩
  have hfound : (graph.callAt? call.site).isSome = true :=
    List.find?_isSome.mpr ⟨call, List.mem_reverse.mpr hmem, beq_self_eq_true _⟩
  obtain ⟨other, hother⟩ := Option.isSome_iff_exists.mp hfound
  obtain ⟨hmem', hsite⟩ := mem_of_callAt? hother
  rw [hother, List.inj_on_of_nodup_map (nested_calls built).sites hmem' hmem hsite]

/-- A site is inside another one exactly if both have a call and parents lead there. -/
theorem siteInside_iff :
    graph.isInside inner outer = true ↔
      inner ∈ graph.calls.map (·.site) ∧ outer ∈ graph.calls.map (·.site) ∧
        Leads (parentAt declaration.callSites) inner outer := by
  constructor
  · intro h
    rw [isInside] at h
    split at h
    · next x y hx hy =>
        obtain ⟨hxmem, rfl⟩ := (callAt?_eq_some built).mp hx
        obtain ⟨hymem, rfl⟩ := (callAt?_eq_some built).mp hy
        exact ⟨List.mem_map_of_mem hxmem, List.mem_map_of_mem hymem,
          (isInside_iff_leads built hxmem).mp h⟩
    · contradiction
  · rintro ⟨hinner, houter, hleads⟩
    obtain ⟨x, hxmem, rfl⟩ := List.mem_map.mp hinner
    obtain ⟨y, hymem, rfl⟩ := List.mem_map.mp houter
    rw [isInside, (callAt?_eq_some built).mpr ⟨hxmem, rfl⟩,
      (callAt?_eq_some built).mpr ⟨hymem, rfl⟩]
    exact (isInside_iff_leads built hxmem).mpr hleads

/-! ## Pairs of sites -/

theorem mem_nestingPairs :
    (inner, outer) ∈ graph.nestingPairs ↔ graph.isInside inner outer = true := by
  rw [siteInside_iff built]
  simp only [nestingPairs, List.mem_flatMap, List.mem_map, List.mem_filter, Prod.mk.injEq]
  constructor
  · rintro ⟨x, hx, y, ⟨hy, hinside⟩, rfl, rfl⟩
    exact ⟨⟨x, hx, rfl⟩, ⟨y, hy, rfl⟩, (isInside_iff_leads built hx).mp hinside⟩
  · rintro ⟨⟨x, hx, rfl⟩, ⟨y, hy, rfl⟩, hleads⟩
    exact ⟨x, hx, y, ⟨hy, (isInside_iff_leads built hx).mpr hleads⟩, rfl, rfl⟩

/-- No pair is listed twice. -/
theorem nodup_nestingPairs : graph.nestingPairs.Nodup := by
  have hsites := (nested_calls built).sites
  rw [nestingPairs, List.nodup_flatMap]
  constructor
  · -- the pairs of one inner call differ in the outer site
    intro x _
    refine List.Nodup.of_map Prod.snd ?_
    rw [List.map_map]
    exact (List.filter_sublist.map _).nodup hsites
  · -- those of two inner calls differ in the inner site
    refine (List.pairwise_map.mp hsites).imp ?_
    intro x y hne
    refine List.disjoint_left.mpr fun pair hx hy => ?_
    obtain ⟨_, -, rfl⟩ := List.mem_map.mp hx
    obtain ⟨_, -, hpair⟩ := List.mem_map.mp hy
    exact hne (congrArg Prod.fst hpair).symm

/-- Each pair is listed once if the first site is inside the second, and else not at all. -/
theorem count_nestingPairs (inner outer : Nat) :
    graph.nestingPairs.count (inner, outer) = if graph.isInside inner outer then 1 else 0 := by
  rw [(nodup_nestingPairs built).count]
  simp only [mem_nestingPairs built]

end Accepted

/-! ## Results -/

/-- **Nesting**: the sites around a call are listed once each, from parent to parent, without the
call itself; so they are all sites to which parents lead. Among the sites that have a call, being
inside is the order of a forest: no site is inside itself, what is inside a site is inside all that
the site is inside of, and of two sites around a third one is inside the other. The pairs of sites
that are listed are the pairs of this order, each once. -/
theorem nesting_is_forest_order (built : ofDeclaration declaration = .ok graph) :
    let parent := parentAt declaration.callSites
    let resolved := graph.calls.map (·.site)
    (∀ call ∈ graph.calls,
      call.enclosingSites.Nodup ∧ call.site ∉ call.enclosingSites ∧
      (∀ site, site ∈ call.enclosingSites ↔ Leads parent call.site site) ∧
      (call.site :: call.enclosingSites).IsChain fun site around => parent site = some around) ∧
    (∀ i o, graph.isInside i o = true ↔ i ∈ resolved ∧ o ∈ resolved ∧ Leads parent i o) ∧
    (∀ i, graph.isInside i i = false) ∧
    (∀ i j k, graph.isInside i j = true → graph.isInside j k = true →
      graph.isInside i k = true) ∧
    (∀ i, ∀ j ∈ resolved, ∀ k ∈ resolved, Leads parent i j → Leads parent i k → j ≠ k →
      graph.isInside j k = true ∨ graph.isInside k j = true) ∧
    ∀ i o, graph.nestingPairs.count (i, o) = if graph.isInside i o then 1 else 0 := by
  intro parent resolved
  refine ⟨?_, fun i o => siteInside_iff built, ?_, ?_, ?_, count_nestingPairs built⟩
  · intro call hcall
    have htrail := (trail_of_mem_calls built hcall).2
    obtain ⟨hself, hnodup⟩ := List.nodup_cons.mp htrail.nodup
    exact ⟨hnodup, hself, fun site => htrail.mem_iff, htrail.isChain⟩
  · intro i
    rw [Bool.eq_false_iff]
    intro hinside
    obtain ⟨-, -, hleads⟩ := (siteInside_iff built).mp hinside
    exact (exists_ofDeclaration.mp ⟨graph, built⟩).acyclic i hleads
  · intro i j k hij hjk
    rw [siteInside_iff built] at hij hjk ⊢
    exact ⟨hij.1, hjk.2.1, hij.2.2.trans hjk.2.2⟩
  · intro i j hj k hk hij hik hne
    rw [siteInside_iff built, siteInside_iff built]
    exact (hij.total hik hne).imp (fun h => ⟨hj, hk, h⟩) fun h => ⟨hk, hj, h⟩

/-- The class `mailer` with calls three deep, the innermost one listed first. The call of `trim`
between the outer two means no method. -/
def deepMailer : ClassDeclaration :=
  { mailer with
    callSites := [
      ((CallSite.call "render" 1 4 20).inside 0).nestedIn 3,
      (CallSite.call "log" 1 3 4).inside 0,
      ((CallSite.call "trim" 1 3 8).inside 0).nestedIn 1,
      ((CallSite.call "render" 1 3 12).inside 0).nestedIn 2,
      (CallSite.call "log" 1 12 4).inside 1 ] }

/-- Which methods of it call which. -/
def deepMailerGraph : CallGraph :=
  (ofDeclaration deepMailer).toOption.getD default

/-- The innermost call is inside the outermost one, being inside one that is; the site of `trim`,
around both inner calls, takes no part. -/
theorem nesting_deepMailer :
    ofDeclaration deepMailer = .ok deepMailerGraph ∧
      deepMailerGraph.isInside 0 3 = true ∧ deepMailerGraph.isInside 3 1 = true ∧
      deepMailerGraph.isInside 0 1 = true ∧ deepMailerGraph.isInside 0 2 = false ∧
      deepMailerGraph.nestingPairs.count (0, 1) = 1 ∧
      deepMailerGraph.nestingPairs.count (1, 0) = 0 := by
  have built : ofDeclaration deepMailer = .ok deepMailerGraph := by rfl
  obtain ⟨-, hinside, hirrefl, htrans, -, hcount⟩ := nesting_is_forest_order built
  have hinner : deepMailerGraph.isInside 0 3 = true := by decide
  have houter : deepMailerGraph.isInside 3 1 = true := by decide
  have hboth := htrans 0 3 1 hinner houter
  refine ⟨built, hinner, houter, hboth, ?_, ?_, ?_⟩
  · rw [Bool.eq_false_iff, Ne, hinside]
    rintro ⟨-, htrim, -⟩
    revert htrim
    decide
  · rw [hcount, if_pos hboth]
  · refine (hcount 1 0).trans (if_neg fun hback => ?_)
    exact absurd (htrans 1 0 1 hback hboth) (by simp [hirrefl])

end ClassLayout.CallGraph

import ClassLayout.Proofs.Sites

/-!
# ClassLayout.Proofs.Listing

How the call sites of a class are listed makes no difference to what is told of its methods.

* The sites may be listed in another order (`relist_same_views`), as long as no two sites of one
  method share a place, for then only their numbers would tell which comes first.
* A site that means no method may be left out (`withoutSite_same_views`). The sites inside it are
  still inside those around it.
-/

namespace ClassLayout

/-! ## Another order of the sites -/

/-- The sites in another order, given by their numbers in the first one. -/
def relist (order : List Nat) (sites : List CallSite) : List CallSite :=
  (order.filterMap (sites[·]?)).map fun site => { site with parent := site.parent.map order.idxOf }

section Relist

variable {outline : Outline} {order : List Nat} {sites : List CallSite}
  (horder : order.Perm (List.range sites.length))

include horder

theorem mem_iff_lt_length {index : Nat} : index ∈ order ↔ index < sites.length := by
  rw [horder.mem_iff, List.mem_range]

theorem isSome_getElem?_of_mem : ∀ origin ∈ order, sites[origin]?.isSome = true := by
  intro origin hmem
  have hlt := (mem_iff_lt_length horder).mp hmem
  simp [hlt]

theorem length_relist : (relist order sites).length = order.length := by
  rw [relist, List.length_map, List.filterMap_length_eq_length]
  exact isSome_getElem?_of_mem horder

theorem getElem?_relist (index : Nat) :
    (relist order sites)[index]? = order[index]?.bind fun origin =>
      sites[origin]?.map fun site => { site with parent := site.parent.map order.idxOf } := by
  have hkept := getElem?_filterMap_of_isSome (isSome_getElem?_of_mem horder) index
  rw [relist, List.getElem?_map, hkept, Option.map_bind]
  rfl

theorem parentAt_relist (index : Nat) :
    parentAt (relist order sites) index =
      order[index]?.bind fun origin => (parentAt sites origin).map order.idxOf := by
  rw [parentAt, getElem?_relist horder]
  cases order[index]? with
  | none => rfl
  | some origin =>
      cases hsite : sites[origin]? with
      | none => simp [parentAt, hsite]
      | some site => simp [parentAt, hsite]

/-- What a number stands for in a list is found at the number of it. -/
theorem getD_idxOf {index : Nat} (h : index < sites.length) :
    order.getD (order.idxOf index) 0 = index := by
  have hmem := (mem_iff_lt_length horder).mpr h
  rw [List.getD_eq_getElem?_getD, List.getElem?_idxOf hmem, Option.getD_some]

theorem idxOf_getD {index : Nat} (h : index < order.length) :
    order.idxOf (order.getD index 0) = index := by
  have hnodup := horder.nodup_iff.mpr List.nodup_range
  rw [List.getD_eq_getElem?_getD, List.getElem?_eq_getElem h, Option.getD_some]
  exact hnodup.idxOf_getElem index h

/-- Sites stand inside each other as they do in the first order. -/
theorem leads_relist_iff (hparents : ParentsExist sites) {i j : Nat} (hi : i < order.length)
    (hj : j < order.length) :
    Leads (parentAt (relist order sites)) i j ↔
      Leads (parentAt sites) (order.getD i 0) (order.getD j 0) := by
  refine leads_iff_of_renamed (f := (order.getD · 0)) (g := order.idxOf) ?_ ?_
    (idxOf_getD horder hi) (idxOf_getD horder hj)
  · intro inner outer hlink
    rw [parentAt_relist horder] at hlink
    obtain ⟨origin, horigin, hlink⟩ := Option.bind_eq_some_iff.mp hlink
    obtain ⟨parent, hparent, rfl⟩ := Option.map_eq_some_iff.mp hlink
    rw [getD_idxOf horder (hparents origin parent hparent), List.getD_eq_getElem?_getD, horigin]
    exact hparent
  · intro inner outer hlink
    have hinner : inner ∈ order := by
      obtain ⟨site, hsite, -⟩ := Option.bind_eq_some_iff.mp hlink
      exact (mem_iff_lt_length horder).mpr (List.getElem?_eq_some_iff.mp hsite).1
    rw [parentAt_relist horder, List.getElem?_idxOf hinner, Option.bind_some, hlink]
    rfl

/-- A list in another order tells the same, if no two sites of a method share a place. -/
theorem recounts_relist (hparents : ParentsExist sites) (hapart : SitesApart sites) :
    Recounts outline (order.getD · 0) (relist order sites) sites where
  parentsExist := by
    intro index parent hlink
    rw [parentAt_relist horder] at hlink
    obtain ⟨origin, -, hlink⟩ := Option.bind_eq_some_iff.mp hlink
    obtain ⟨outer, houter, rfl⟩ := Option.map_eq_some_iff.mp hlink
    have hmem := (mem_iff_lt_length horder).mpr (hparents origin outer houter)
    rw [length_relist horder]
    exact List.idxOf_lt_length_of_mem hmem
  site := by
    intro index site' hsite'
    rw [getElem?_relist horder] at hsite'
    obtain ⟨origin, horigin, hsite'⟩ := Option.bind_eq_some_iff.mp hsite'
    obtain ⟨site, hsite, rfl⟩ := Option.map_eq_some_iff.mp hsite'
    refine ⟨site, ?_, rfl⟩
    rw [List.getD_eq_getElem?_getD, horigin, Option.getD_some, hsite]
  injective := by
    intro i hi j hj hsame
    rw [length_relist horder] at hi hj
    rw [← idxOf_getD horder hi, ← idxOf_getD horder hj, hsame]
  leads := by
    intro i hi j hj
    rw [length_relist horder] at hi hj
    exact leads_relist_iff horder hparents hi hj
  complete := by
    intro index site hsite _
    have hlt := (List.getElem?_eq_some_iff.mp hsite).1
    have hmem := (mem_iff_lt_length horder).mpr hlt
    refine ⟨order.idxOf index, ?_, getD_idxOf horder hlt⟩
    rw [length_relist horder]
    exact List.idxOf_lt_length_of_mem hmem
  ordered := by
    intro i j site' other' hi hj hcoincide hlt
    rw [getElem?_relist horder] at hi hj
    obtain ⟨a, ha, hi⟩ := Option.bind_eq_some_iff.mp hi
    obtain ⟨b, hb, hj⟩ := Option.bind_eq_some_iff.mp hj
    obtain ⟨site, hsite, rfl⟩ := Option.map_eq_some_iff.mp hi
    obtain ⟨other, hother, rfl⟩ := Option.map_eq_some_iff.mp hj
    obtain rfl : a = b := hapart.eq_of_coincides hsite hother hcoincide
    have hnodup := horder.nodup_iff.mpr List.nodup_range
    have hlength := (List.getElem?_eq_some_iff.mp ha).1
    have hsame : i = j := (List.getElem?_inj hlength hnodup).mp (ha.trans hb.symm)
    omega

end Relist

/-! ## One site less -/

/-- The number of a site before the site with another number was left out. -/
def openGap (left index : Nat) : Nat :=
  if index < left then index else index + 1

/-- The number of a site after the site with another number is left out. -/
def closeGap (left index : Nat) : Nat :=
  if left < index then index - 1 else index

/-- The sites without one of them. The sites right inside it are then right inside its parent. -/
def withoutSite (left : Nat) (sites : List CallSite) : List CallSite :=
  (sites.eraseIdx left).map fun site =>
    { site with
      parent :=
        (if site.parent = some left then parentAt sites left else site.parent).map (closeGap left) }

section WithoutSite

variable {outline : Outline} {sites : List CallSite} {left : Nat}

theorem openGap_ne (left index : Nat) : openGap left index ≠ left := by
  grind [openGap]

theorem closeGap_openGap (left index : Nat) : closeGap left (openGap left index) = index := by
  grind [openGap, closeGap]

theorem openGap_closeGap {index : Nat} (h : index ≠ left) :
    openGap left (closeGap left index) = index := by
  grind [openGap, closeGap]

theorem openGap_lt_openGap {i j : Nat} (h : i < j) : openGap left i < openGap left j := by
  grind [openGap]

theorem getElem?_withoutSite (index : Nat) :
    (withoutSite left sites)[index]? = sites[openGap left index]?.map fun site =>
      { site with
        parent :=
          (if site.parent = some left then parentAt sites left else site.parent).map
            (closeGap left) } := by
  rw [withoutSite, List.getElem?_map, List.getElem?_eraseIdx, openGap]
  split
  · rfl
  · rfl

theorem parentAt_withoutSite (index : Nat) :
    parentAt (withoutSite left sites) index =
      (bypass (parentAt sites) left (openGap left index)).map (closeGap left) := by
  rw [parentAt, getElem?_withoutSite, bypass, if_neg (openGap_ne left index)]
  cases hsite : sites[openGap left index]? with
  | none => simp [parentAt, hsite]
  | some site => simp [parentAt, hsite]

theorem closeGap_lt_length {index : Nat} (hne : index ≠ left) (h : index < sites.length) :
    closeGap left index < (withoutSite left sites).length := by
  have hkept : (withoutSite left sites)[closeGap left index]? = _ := getElem?_withoutSite _
  rw [openGap_closeGap hne, List.getElem?_eq_getElem h] at hkept
  exact (List.getElem?_eq_some_iff.mp hkept).1

/-- Past a site the others stand inside each other as before. -/
theorem leads_withoutSite_iff (hself : parentAt sites left ≠ some left) (i j : Nat) :
    Leads (parentAt (withoutSite left sites)) i j ↔
      Leads (parentAt sites) (openGap left i) (openGap left j) := by
  rw [← leads_bypass_iff hself (openGap_ne left i) (openGap_ne left j)]
  refine leads_iff_of_renamed ?_ ?_ (closeGap_openGap left i) (closeGap_openGap left j)
  · intro inner outer hlink
    rw [parentAt_withoutSite] at hlink
    obtain ⟨parent, hparent, rfl⟩ := Option.map_eq_some_iff.mp hlink
    rw [hparent, openGap_closeGap (bypass_ne hself hparent).2]
  · intro inner outer hlink
    rw [parentAt_withoutSite, openGap_closeGap (bypass_ne hself hlink).1, hlink]
    rfl

/-- A list without a site that means no method tells the same. -/
theorem recounts_withoutSite (hparents : ParentsExist sites)
    (hself : parentAt sites left ≠ some left) (hsite : sites[left]? = some site)
    (hnone : outline.resolveSite? site = none) :
    Recounts outline (openGap left) (withoutSite left sites) sites where
  parentsExist := by
    intro index parent hlink
    rw [parentAt_withoutSite] at hlink
    obtain ⟨outer, houter, rfl⟩ := Option.map_eq_some_iff.mp hlink
    have hne := (bypass_ne hself houter).2
    refine closeGap_lt_length hne ?_
    rw [bypass, if_neg (openGap_ne left index)] at houter
    split at houter
    · exact hparents _ _ houter
    · exact hparents _ _ houter
  site := by
    intro index site' hsite'
    rw [getElem?_withoutSite] at hsite'
    obtain ⟨site, hsite, rfl⟩ := Option.map_eq_some_iff.mp hsite'
    exact ⟨site, hsite, rfl⟩
  injective := by
    intro i _ j _ hsame
    rw [← closeGap_openGap left i, ← closeGap_openGap left j, hsame]
  leads := by
    intro i _ j _
    exact leads_withoutSite_iff hself i j
  complete := by
    intro index other hother hmeans
    have hne : index ≠ left := by
      rintro rfl
      rw [hsite, Option.some_inj] at hother
      exact hmeans (hother ▸ hnone)
    have hlt := (List.getElem?_eq_some_iff.mp hother).1
    exact ⟨closeGap left index, closeGap_lt_length hne hlt, openGap_closeGap hne⟩
  ordered := by
    intro i j _ _ _ _ _ hlt
    exact openGap_lt_openGap hlt

end WithoutSite

/-! ## Results -/

namespace ClassDeclaration

/-- The class with its call sites in another order. -/
def relist (declaration : ClassDeclaration) (order : List Nat) : ClassDeclaration :=
  { declaration with callSites := ClassLayout.relist order declaration.callSites }

/-- The class without one of its call sites. -/
def withoutSite (declaration : ClassDeclaration) (left : Nat) : ClassDeclaration :=
  { declaration with callSites := ClassLayout.withoutSite left declaration.callSites }

end ClassDeclaration

namespace CallGraph

variable {declaration : ClassDeclaration} {graph : CallGraph}

/-- **Listing order**: in a class in which no two sites of a method share a place, it makes no
difference in which order the sites are listed. The class is accepted all the same, the same is
told of each method, and the search finds the same order. -/
theorem relist_same_views (built : ofDeclaration declaration = .ok graph)
    (apart : SitesApart declaration.callSites) {order : List Nat}
    (rearranged : order.Perm (List.range declaration.callSites.length)) :
    ∃ other, ofDeclaration (declaration.relist order) = .ok other ∧
      (∀ id, other.dependenciesOf id = graph.dependenciesOf id ∧
        other.dependantsOf id = graph.dependantsOf id ∧
        (other.invocationsOf id).map Call.bare = (graph.invocationsOf id).map Call.bare) ∧
      ∀ settings, ∃ best best', Search.optimize settings (.initial graph) = .ok best ∧
        Search.optimize settings (.initial other) = .ok best' ∧ best'.order = best.order := by
  have hsound := exists_ofDeclaration.mp ⟨graph, built⟩
  obtain ⟨other, built', hbare⟩ :=
    exists_bare_eq built (recounts_relist rearranged hsound.parentsExist apart)
  refine ⟨other, built', views_eq hbare, ?_⟩
  intro settings
  obtain ⟨houtline, -⟩ := resolve_of_ofDeclaration built
  obtain ⟨houtline', -⟩ := resolve_of_ofDeclaration built'
  obtain ⟨best, hbest, -⟩ := Search.exists_optimize houtline (wellFormed built) settings .initial
  obtain ⟨best', hbest', -⟩ :=
    Search.exists_optimize houtline' (wellFormed built') settings .initial
  exact ⟨best, best', hbest, hbest', Search.order_optimize_eq settings hbare hbest' hbest⟩

/-- The innermost site comes first, and its parent last. -/
theorem relist_same_views_mailer :
    [2, 0, 4, 3, 1].Perm (List.range mailer.callSites.length) ∧ SitesApart mailer.callSites ∧
      (mailer.relist [2, 0, 4, 3, 1]).callSites.map (·.parent) =
        [some 4, none, none, none, some 1] ∧
      ∃ other, ofDeclaration (mailer.relist [2, 0, 4, 3, 1]) = .ok other ∧
        other.dependenciesOf 0 = mailerGraph.dependenciesOf 0 ∧
        other.dependantsOf 2 = mailerGraph.dependantsOf 2 ∧
        ∃ best best', Search.optimize {} (.initial mailerGraph) = .ok best ∧
          Search.optimize {} (.initial other) = .ok best' ∧ best'.order = best.order := by
  have hrearranged : [2, 0, 4, 3, 1].Perm (List.range mailer.callSites.length) := by decide
  have hapart : SitesApart mailer.callSites := by decide
  obtain ⟨other, built, hviews, hsearch⟩ := relist_same_views mailer_built hapart hrearranged
  exact ⟨hrearranged, hapart, by rfl, other, built, (hviews 0).1, (hviews 2).2.1, hsearch {}⟩

/-- **Transparency**: a site that means no method can be left out, with the sites right inside it
moved out to its parent. The class is accepted all the same, and the same is told of each method. -/
theorem withoutSite_same_views (built : ofDeclaration declaration = .ok graph) {left : Nat}
    (hsite : declaration.callSites[left]? = some site)
    (unresolved : graph.outline.resolveSite? site = none) :
    ∃ other, ofDeclaration (declaration.withoutSite left) = .ok other ∧
      ∀ id, other.dependenciesOf id = graph.dependenciesOf id ∧
        other.dependantsOf id = graph.dependantsOf id ∧
        (other.invocationsOf id).map Call.bare = (graph.invocationsOf id).map Call.bare := by
  have hsound := exists_ofDeclaration.mp ⟨graph, built⟩
  have hself : parentAt declaration.callSites left ≠ some left := by
    intro hlink
    exact hsound.acyclic left (leads_iff_exists_link.mpr ⟨left, hlink, .refl _ left⟩)
  obtain ⟨other, built', hbare⟩ :=
    exists_bare_eq built (recounts_withoutSite hsound.parentsExist hself hsite unresolved)
  exact ⟨other, built', views_eq hbare⟩

/-- The site of `trim` means no method. What stands inside it then stands inside the call of `log`.
-/
theorem withoutSite_same_views_mailer :
    (mailer.withoutSite 1).callSites.map (fun site => (site.name, site.parent)) =
        [("log", none), ("render", some 0), ("render", none), ("log", none)] ∧
      ∃ other, ofDeclaration (mailer.withoutSite 1) = .ok other ∧
        other.dependenciesOf 0 = mailerGraph.dependenciesOf 0 ∧
        (other.invocationsOf 0).map Call.bare = (mailerGraph.invocationsOf 0).map Call.bare := by
  have hsite : mailer.callSites[1]? = some (((CallSite.call "trim" 1 3 8).inside 0).nestedIn 0) :=
    rfl
  obtain ⟨other, built, hviews⟩ := withoutSite_same_views mailer_built hsite (by rfl)
  exact ⟨by rfl, other, built, (hviews 0).1, (hviews 0).2.2⟩

end CallGraph

end ClassLayout

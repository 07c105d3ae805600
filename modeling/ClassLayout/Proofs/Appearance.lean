import ClassLayout.Appearance
import ClassLayout.Proofs.Trail
import Mathlib.Data.List.Nodup
import Mathlib.Data.List.Perm.Basic
import Mathlib.Data.Prod.Lex

/-!
# ClassLayout.Proofs.Appearance

The order in which calls appear, for whatever calls are given.

1. `Walked trees siblings listed` is the walk without a limit on the depth. The limit of `order` is
   large enough for it (`exists_walked_order`), since a trail from a call to its root meets no call
   twice.
2. The walk lists the calls within its siblings (`mem_walked`), in the order `Before`
   (`pairwise_walked`): a call comes before those around it, and what is within one of two siblings
   comes before what is within the other.

`Nested calls` says that the sites around each call are consistent with those around the others, as
they are in a text. Then no call is lost (`Nested.order_perm`), being within is standing inside
(`Nested.isInside_iff`), and which of two calls comes first is told by the places of the outermost
calls that keep them apart (`Nested.idxOf_lt_iff`).

Calls that are given in the order of the text have no siblings to sort (`order_eq_orderAsGiven`), and
without a sort the kernel can compute in which order they appear.
-/

namespace ClassLayout

/-! ## Places -/

namespace Call

variable {call other third : Call}

/-- The call stands earlier in the text: by its line, then its column, then its site. -/
def Earlier (call other : Call) : Prop :=
  Prod.Lex (· < ·) (Prod.Lex (· < ·) (· < ·)) call.place other.place

theorem earlier_iff :
    call.Earlier other ↔ call.line < other.line ∨ call.line = other.line ∧
      (call.column < other.column ∨ call.column = other.column ∧ call.site < other.site) := by
  simp [Earlier, place, Prod.lex_def]

theorem notAfter_iff : call.notAfter other = true ↔ ¬ other.Earlier call := by
  rw [earlier_iff, notAfter]
  split
  · simp only [decide_eq_true_eq]
    omega
  · split
    · simp only [decide_eq_true_eq]
      omega
    · simp only [decide_eq_true_eq]
      omega

theorem Earlier.asymm (h : call.Earlier other) : ¬ other.Earlier call := by
  rw [earlier_iff] at h ⊢
  omega

/-- What does not stand later stands earlier, unless it is at the same site. -/
theorem earlier_of_notAfter (h : call.notAfter other = true) (hsite : call.site ≠ other.site) :
    call.Earlier other := by
  rw [notAfter_iff, earlier_iff] at h
  rw [earlier_iff]
  omega

theorem notAfter_trans (h : call.notAfter other = true) (h' : other.notAfter third = true) :
    call.notAfter third = true := by
  simp only [notAfter_iff, earlier_iff] at h h' ⊢
  omega

theorem notAfter_total (call other : Call) :
    (call.notAfter other || other.notAfter call) = true := by
  rw [Bool.or_eq_true, notAfter_iff, notAfter_iff, earlier_iff, earlier_iff]
  omega

end Call

namespace Appearance

variable {calls : List Call} {siblings listed : List (Call × Nat)}
  {call : Call} {index : Nat} {parent : Option Nat}

/-! ## Links between calls -/

/-- The entry is a call with its index. -/
def Stands (calls : List Call) (entry : Call × Nat) : Prop :=
  calls[entry.2]? = some entry.1

/-- The index of the nearest call around the call at an index. -/
def above (calls : List Call) (index : Nat) : Option Nat :=
  calls[index]?.bind (parentOf? calls)

theorem above_of_getElem? (h : calls[index]? = some call) :
    above calls index = parentOf? calls call := by
  rw [above, h, Option.bind_some]

/-- The call found at a site is a call at that site. -/
theorem exists_of_indexAt? (h : indexAt? calls site = some index) :
    ∃ call, calls[index]? = some call ∧ call.site = site := by
  obtain ⟨entry, hentry, rfl⟩ := Option.map_eq_some_iff.mp h
  obtain ⟨hmem, hsite⟩ := List.mem_filter.mp (List.mem_of_getLast? hentry)
  exact ⟨entry.1, List.mem_zipIdx_iff_getElem?.mp hmem, beq_iff_eq.mp hsite⟩

theorem indexAt?_isSome (hmem : call ∈ calls) : (indexAt? calls call.site).isSome = true := by
  obtain ⟨index, hindex⟩ := List.mem_iff_getElem?.mp hmem
  have hfound : (call, index) ∈ calls.zipIdx.filter fun entry => entry.1.site == call.site :=
    List.mem_filter.mpr ⟨List.mem_zipIdx_iff_getElem?.mpr hindex, beq_self_eq_true _⟩
  rw [indexAt?, Option.isSome_map, Option.isSome_iff_ne_none, Ne, List.getLast?_eq_none_iff]
  exact List.ne_nil_of_mem hfound

/-- The call above is one of those around, and none of those between is given. -/
theorem above_eq_some {inner outer : Nat} (h : above calls inner = some outer) :
    ∃ call around before after, calls[inner]? = some call ∧ calls[outer]? = some around ∧
      call.enclosingSites = before ++ around.site :: after ∧
      ∀ other ∈ calls, other.site ∉ before := by
  obtain ⟨call, hcall, hparent⟩ := Option.bind_eq_some_iff.mp h
  obtain ⟨before, site, after, hsplit, hsite, hbefore⟩ := List.findSome?_eq_some_iff.mp hparent
  obtain ⟨around, haround, rfl⟩ := exists_of_indexAt? hsite
  refine ⟨call, around, before, after, hcall, haround, hsplit, ?_⟩
  intro other hother hmem
  have hsome := indexAt?_isSome hother
  simp [hbefore _ hmem] at hsome

theorem lt_of_above (inner outer : Nat) (h : above calls inner = some outer) :
    outer < calls.length := by
  obtain ⟨_, _, _, _, -, houter, -⟩ := above_eq_some h
  exact (List.getElem?_eq_some_iff.mp houter).1

/-- The siblings below a call, or the roots, are the calls with that link. -/
theorem mem_children {entry : Call × Nat} :
    entry ∈ children (forest calls) parent ↔
      Stands calls entry ∧ above calls entry.2 = parent := by
  obtain ⟨call, index⟩ := entry
  have hstands : (call, index) ∈ calls.zipIdx ↔ Stands calls (call, index) :=
    List.mem_zipIdx_iff_getElem?
  simp only [children, forest, List.mem_mergeSort, List.mem_map, List.mem_filter, beq_iff_eq]
  constructor
  · rintro ⟨_, ⟨⟨⟨_, _⟩, hmem, rfl⟩, hparent⟩, hentry⟩
    obtain ⟨rfl, rfl⟩ := Prod.mk.inj hentry
    have hstands := hstands.mp hmem
    exact ⟨hstands, (above_of_getElem? hstands).trans hparent⟩
  · rintro ⟨hcall, habove⟩
    exact ⟨_, ⟨⟨(call, index), hstands.mpr hcall, rfl⟩,
      (above_of_getElem? hcall).symm.trans habove⟩, rfl⟩

/-- Siblings come in the order of the text, and none comes twice. -/
theorem pairwise_children (calls : List Call) (parent : Option Nat) :
    (children (forest calls) parent).Pairwise fun a b =>
      a.1.notAfter b.1 = true ∧ a.2 ≠ b.2 := by
  have hsorted : (children (forest calls) parent).Pairwise fun a b => a.1.notAfter b.1 = true := by
    refine List.pairwise_mergeSort ?_ ?_ _
    · intro a b c
      exact Call.notAfter_trans
    · intro a b
      exact Call.notAfter_total a.1 b.1
  refine hsorted.and ?_
  have hperm := List.mergeSort_perm (((forest calls).filter fun tree => tree.2.1 == parent).map
    fun tree => (tree.1, tree.2.2)) fun a b => a.1.notAfter b.1
  rw [← List.pairwise_map (f := Prod.snd)]
  refine (hperm.map Prod.snd).nodup_iff.mpr ?_
  rw [List.map_map]
  have hindices : ((forest calls).map fun tree => tree.2.2) = List.range calls.length := by
    simp [forest, Function.comp_def, List.range_eq_range']
  exact (List.filter_sublist.map _).nodup (hindices ▸ List.nodup_range)

/-! ## Calls in the order of the text -/

/-- The calls with the given parent, or without one, in the order in which they are given. -/
def childrenAsGiven (trees : Forest) (parent : Option Nat) : List (Call × Nat) :=
  (trees.filter fun (_, p, _) => p == parent).map fun (call, _, index) => (call, index)

/-- The walk that takes siblings in the order in which they are given. -/
def walkAsGiven (trees : Forest) : (depth : Nat) → List (Call × Nat) → List Call
  | 0, _ => []
  | depth + 1, siblings =>
    siblings.flatMap fun (call, index) =>
      walkAsGiven trees depth (childrenAsGiven trees (some index)) ++ [call]

/-- The order of appearance of calls that are given in the order of the text. -/
def orderAsGiven (calls : List Call) : List Call :=
  walkAsGiven (forest calls) calls.length (childrenAsGiven (forest calls) none)

section AsGiven

variable (h : calls.Pairwise fun a b => a.notAfter b = true)
include h

/-- Among calls that are given in the order of the text there are no siblings to sort. -/
theorem children_eq_childrenAsGiven (parent : Option Nat) :
    children (forest calls) parent = childrenAsGiven (forest calls) parent := by
  have hcalls : (calls.zipIdx.map Prod.fst).Pairwise fun a b => a.notAfter b = true := by
    rwa [List.zipIdx_map_fst]
  have hforest : (forest calls).Pairwise fun a b => a.1.notAfter b.1 = true :=
    List.pairwise_map.mpr (List.pairwise_map.mp hcalls)
  exact List.mergeSort_of_pairwise (List.pairwise_map.mpr (hforest.filter _))

theorem walk_eq_walkAsGiven (depth : Nat) (siblings : List (Call × Nat)) :
    walk (forest calls) depth siblings = walkAsGiven (forest calls) depth siblings := by
  induction depth generalizing siblings with
  | zero => rfl
  | succ depth ih => simp only [walk, walkAsGiven, ih, children_eq_childrenAsGiven h]

theorem order_eq_orderAsGiven : order calls = orderAsGiven calls := by
  rw [order, walk_eq_walkAsGiven h, children_eq_childrenAsGiven h, orderAsGiven]

end AsGiven

/-! ## The walk without a limit -/

/-- The trees of the siblings, each call after the calls below it. -/
inductive Walked (trees : Forest) : List (Call × Nat) → List (Call × Nat) → Prop
  | nil : Walked trees [] []
  | cons {sibling : Call × Nat} {siblings below others : List (Call × Nat)}
      (hbelow : Walked trees (children trees (some sibling.2)) below)
      (hothers : Walked trees siblings others) :
      Walked trees (sibling :: siblings) (below ++ sibling :: others)

/-- A limit that no trail exceeds is as good as none. -/
theorem exists_walked (hsiblings : ∀ sibling ∈ siblings, Stands calls sibling ∧
      ∃ outer, Trail (above calls) sibling.2 outer ∧ calls.length ≤ outer.length + depth) :
    ∃ listed : List (Call × Nat), Walked (forest calls) siblings listed ∧
      walk (forest calls) depth siblings = listed.map Prod.fst := by
  induction depth generalizing siblings with
  | zero =>
      -- a sibling would have a trail that meets every call twice over
      obtain rfl : siblings = [] := by
        rw [List.eq_nil_iff_forall_not_mem]
        intro sibling hsibling
        obtain ⟨hstands, outer, htrail, hlong⟩ := hsiblings sibling hsibling
        have hshort := htrail.length_lt lt_of_above (List.getElem?_eq_some_iff.mp hstands).1
        omega
      exact ⟨[], .nil, rfl⟩
  | succ depth ihdepth =>
      induction siblings with
      | nil => exact ⟨[], .nil, rfl⟩
      | cons sibling siblings ih =>
          obtain ⟨others, hothers, hrest⟩ :=
            ih fun other hother => hsiblings other (List.mem_cons_of_mem _ hother)
          obtain ⟨-, outer, htrail, hlong⟩ := hsiblings sibling List.mem_cons_self
          have hbelow : ∀ child ∈ children (forest calls) (some sibling.2), Stands calls child ∧
              ∃ outer, Trail (above calls) child.2 outer ∧ calls.length ≤ outer.length + depth := by
            intro child hchild
            obtain ⟨hstands, hlink⟩ := mem_children.mp hchild
            refine ⟨hstands, _, .step hlink htrail, ?_⟩
            rw [List.length_cons]
            omega
          obtain ⟨below, hwalked, hwalk⟩ := ihdepth hbelow
          refine ⟨_, .cons hwalked hothers, ?_⟩
          rw [walk] at hrest ⊢
          rw [List.flatMap_cons, hrest]
          simp [hwalk]

/-- The walk of all calls comes to an end. -/
theorem exists_walked_order (calls : List Call) :
    ∃ listed, Walked (forest calls) (children (forest calls) none) listed ∧
      order calls = listed.map Prod.fst := by
  refine exists_walked ?_
  intro root hroot
  obtain ⟨hstands, hlink⟩ := mem_children.mp hroot
  exact ⟨hstands, [], .last hlink, by simp⟩

/-- The walk lists the calls within the siblings. -/
theorem mem_walked (h : Walked (forest calls) siblings listed)
    (hsiblings : ∀ sibling ∈ siblings, Stands calls sibling) {entry : Call × Nat} :
    entry ∈ listed ↔
      Stands calls entry ∧ ∃ sibling ∈ siblings, Within (above calls) entry.2 sibling.2 := by
  induction h with
  | nil => simp
  | @cons sibling siblings below others _ _ ihbelow ihothers =>
      have hbelow : entry ∈ below ↔
          Stands calls entry ∧ Leads (above calls) entry.2 sibling.2 := by
        rw [ihbelow (fun child hchild => (mem_children.mp hchild).1), leads_iff_exists_within]
        refine and_congr_right fun _ => ⟨?_, ?_⟩
        · rintro ⟨child, hchild, hwithin⟩
          exact ⟨child.2, hwithin, (mem_children.mp hchild).2⟩
        · rintro ⟨child, hwithin, hlink⟩
          obtain ⟨call, _, _, _, hcall, -⟩ := above_eq_some hlink
          exact ⟨(call, child), mem_children.mpr ⟨hcall, hlink⟩, hwithin⟩
      have hsibling : Stands calls sibling := hsiblings sibling List.mem_cons_self
      have hself : entry = sibling ↔ Stands calls entry ∧ sibling.2 = entry.2 := by
        constructor
        · rintro rfl
          exact ⟨hsibling, rfl⟩
        · rintro ⟨hstands, hindex⟩
          rw [Stands, ← hindex, hsibling] at hstands
          exact Prod.ext (Option.some.inj hstands).symm hindex.symm
      rw [List.mem_append, List.mem_cons, hbelow, hself,
        ihothers (fun other hother => hsiblings other (List.mem_cons_of_mem _ hother))]
      simp only [List.mem_cons, exists_eq_or_imp, within_iff (b := sibling.2)]
      grind

/-! ## The order of the walk -/

/-- The first call stands somewhere inside the second, or within the first of two siblings of which
the second call is within the other. -/
def Before (calls : List Call) (x y : Call × Nat) : Prop :=
  Leads (above calls) x.2 y.2 ∨
    ∃ a b, Stands calls a ∧ Stands calls b ∧ a.2 ≠ b.2 ∧ above calls a.2 = above calls b.2 ∧
      a.1.notAfter b.1 = true ∧ Within (above calls) x.2 a.2 ∧ Within (above calls) y.2 b.2

/-- What stands before stands elsewhere, on a trail. -/
theorem Before.ne {x y : Call × Nat} (h : Before calls x y)
    (htrail : Trail (above calls) x.2 outer) : x.2 ≠ y.2 := by
  intro hsame
  rcases h with hleads | ⟨a, b, -, -, hne, hlink, -, ha, hb⟩
  · exact htrail.not_leads_self (hsame ▸ hleads)
  · exact hne (htrail.eq_of_within ha (hsame ▸ hb) hlink)

/-- The walk of siblings lists what comes before first. -/
theorem pairwise_walked (h : Walked (forest calls) siblings listed)
    (hsiblings : ∀ sibling ∈ siblings, Stands calls sibling ∧ above calls sibling.2 = parent)
    (hsorted : siblings.Pairwise fun a b => a.1.notAfter b.1 = true ∧ a.2 ≠ b.2) :
    listed.Pairwise (Before calls) := by
  induction h generalizing parent with
  | nil => exact .nil
  | @cons sibling siblings below others hbelow hothers ihbelow ihothers =>
      rw [List.pairwise_cons] at hsorted
      have hrest : ∀ other ∈ siblings, Stands calls other ∧ above calls other.2 = parent :=
        fun other hother => hsiblings other (List.mem_cons_of_mem _ hother)
      obtain ⟨hstands, hlink⟩ := hsiblings sibling List.mem_cons_self
      -- whatever is within the sibling comes before what is within the ones after it
      have hacross : ∀ x : Call × Nat, Within (above calls) x.2 sibling.2 →
          ∀ y ∈ others, Before calls x y := by
        intro x hx y hy
        obtain ⟨-, other, hother, hwithin⟩ :=
          (mem_walked hothers fun other hother => (hrest other hother).1).mp hy
        obtain ⟨hnotAfter, hne⟩ := hsorted.1 other hother
        obtain ⟨hstands', hlink'⟩ := hrest other hother
        exact .inr ⟨sibling, other, hstands, hstands', hne, hlink.trans hlink'.symm, hnotAfter,
          hx, hwithin⟩
      rw [List.pairwise_append, List.pairwise_cons]
      refine ⟨ihbelow (fun _ => mem_children.mp) (pairwise_children calls _),
        ⟨hacross sibling (.refl _ _), ihothers hrest hsorted.2⟩, ?_⟩
      intro x hx y hy
      obtain ⟨-, child, hchild, hwithin⟩ :=
        (mem_walked hbelow fun child hchild => (mem_children.mp hchild).1).mp hx
      have hleads : Leads (above calls) x.2 sibling.2 :=
        leads_iff_exists_within.mpr ⟨child.2, hwithin, (mem_children.mp hchild).2⟩
      rcases List.mem_cons.mp hy with rfl | hy
      · exact .inl hleads
      · exact hacross x hleads.within y hy

/-- The walk from the roots lists the calls with a trail, each of them once and in order. -/
theorem walked_roots (h : Walked (forest calls) (children (forest calls) none) listed) :
    (∀ entry, entry ∈ listed ↔
      Stands calls entry ∧ ∃ outer, Trail (above calls) entry.2 outer) ∧
    (listed.map Prod.snd).Nodup ∧ listed.Pairwise (Before calls) := by
  have hmem : ∀ entry, entry ∈ listed ↔
      Stands calls entry ∧ ∃ outer, Trail (above calls) entry.2 outer := by
    intro entry
    rw [mem_walked h fun root hroot => (mem_children.mp hroot).1]
    refine and_congr_right fun hstands => ⟨?_, ?_⟩
    · rintro ⟨root, hroot, hwithin⟩
      exact (Trail.last (mem_children.mp hroot).2).exists_of_within hwithin
    · rintro ⟨outer, htrail⟩
      obtain ⟨root, hwithin, hroot⟩ := htrail.exists_last
      obtain ⟨call, hcall⟩ : ∃ call, calls[root]? = some call := by
        rcases within_iff.mp hwithin with rfl | hleads
        · exact ⟨entry.1, hstands⟩
        · obtain ⟨inner, -, hlink⟩ := leads_iff_exists_within.mp hleads
          obtain ⟨_, call, _, _, -, hcall, -⟩ := above_eq_some hlink
          exact ⟨call, hcall⟩
      exact ⟨(call, root), mem_children.mpr ⟨hcall, hroot⟩, hwithin⟩
  have hpairwise := pairwise_walked h (fun _ => mem_children.mp) (pairwise_children calls _)
  refine ⟨hmem, ?_, hpairwise⟩
  rw [List.Nodup, List.pairwise_map]
  refine hpairwise.imp_of_mem fun hx _ hbefore => ?_
  obtain ⟨-, outer, htrail⟩ := (hmem _).mp hx
  exact hbefore.ne htrail

/-- The calls that appear are those with a trail, each of them once, and they appear in order. -/
theorem exists_listed (calls : List Call) :
    ∃ listed : List (Call × Nat), order calls = listed.map Prod.fst ∧
      (∀ entry, entry ∈ listed ↔
        Stands calls entry ∧ ∃ outer, Trail (above calls) entry.2 outer) ∧
      (listed.map Prod.snd).Nodup ∧ listed.Pairwise (Before calls) := by
  obtain ⟨listed, hwalked, horder⟩ := exists_walked_order calls
  exact ⟨listed, horder, walked_roots hwalked⟩

/-- Only given calls appear. -/
theorem mem_of_mem_order (h : call ∈ order calls) : call ∈ calls := by
  obtain ⟨listed, horder, hmem, -⟩ := exists_listed calls
  rw [horder, List.mem_map] at h
  obtain ⟨entry, hentry, rfl⟩ := h
  exact List.mem_of_getElem? ((hmem entry).mp hentry).1

/-! ## Calls as they stand in a text -/

/-- The calls are at different sites, and what stands around a call goes on, from any other call on,
as what stands around that one. -/
structure Nested (calls : List Call) : Prop where
  sites : (calls.map (·.site)).Nodup
  chain : ∀ inner ∈ calls, ∀ outer ∈ calls, ∀ before after,
    inner.enclosingSites = before ++ outer.site :: after → after = outer.enclosingSites

namespace Nested

variable {x y : Call} {i j : Nat}

theorem filter (h : Nested calls) (p : Call → Bool) : Nested (calls.filter p) where
  sites := (List.filter_sublist.map _).nodup h.sites
  chain := fun inner hinner outer houter =>
    h.chain inner (List.mem_filter.mp hinner).1 outer (List.mem_filter.mp houter).1

theorem nodup (h : Nested calls) : calls.Nodup :=
  List.Nodup.of_map _ h.sites

/-- Calls are told apart by their sites. -/
theorem site_eq_iff (h : Nested calls) (hx : calls[i]? = some x) (hy : calls[j]? = some y) :
    x.site = y.site ↔ i = j := by
  have hx' : (calls.map (·.site))[i]? = some x.site := by simp [hx]
  have hy' : (calls.map (·.site))[j]? = some y.site := by simp [hy]
  have hlt : i < (calls.map (·.site)).length := (List.getElem?_eq_some_iff.mp hx').1
  rw [← List.getElem?_inj hlt h.sites, hx', hy', Option.some_inj]

/-- What stands around the call above is the rest of what stands around the call. -/
theorem above_eq_some (h : Nested calls) (hx : calls[i]? = some x)
    (hlink : above calls i = some j) :
    ∃ y before, calls[j]? = some y ∧ x.enclosingSites = before ++ y.site :: y.enclosingSites ∧
      ∀ other ∈ calls, other.site ∉ before := by
  obtain ⟨call, y, before, after, hcall, hy, hsplit, hbefore⟩ := Appearance.above_eq_some hlink
  obtain rfl : call = x := Option.some.inj (hcall.symm.trans hx)
  obtain rfl := h.chain call (List.mem_of_getElem? hx) y (List.mem_of_getElem? hy) _ _ hsplit
  exact ⟨y, before, hy, hsplit, hbefore⟩

/-- Every call has a trail. -/
theorem exists_trail (h : Nested calls) (hx : calls[i]? = some x) :
    ∃ outer, Trail (above calls) i outer := by
  -- on the number of sites around the call
  induction hlength : x.enclosingSites.length using Nat.strong_induction_on generalizing i x with
  | _ length ih =>
      cases hlink : above calls i with
      | none => exact ⟨[], .last hlink⟩
      | some j =>
          obtain ⟨y, before, hy, hsplit, -⟩ := h.above_eq_some hx hlink
          have hfewer : y.enclosingSites.length < length := by
            rw [← hlength, hsplit, List.length_append, List.length_cons]
            omega
          obtain ⟨outer, htrail⟩ := ih _ hfewer hy rfl
          exact ⟨_, .step hlink htrail⟩

/-- Links lead to the calls at the sites around. -/
theorem leads_iff (h : Nested calls) (hx : calls[i]? = some x) (hy : calls[j]? = some y) :
    Leads (above calls) i j ↔ y.site ∈ x.enclosingSites := by
  obtain ⟨outer, htrail⟩ := h.exists_trail hx
  induction htrail generalizing x with
  | last hlast =>
      have hsites := hlast
      rw [above_of_getElem? hx, parentOf?, List.findSome?_eq_none_iff] at hsites
      have hsome := indexAt?_isSome (List.mem_of_getElem? hy)
      have hfar : y.site ∉ x.enclosingSites := fun hmem => by simp [hsites _ hmem] at hsome
      simp [leads_iff_exists_link, hlast, hfar]
  | step hlink _ ih =>
      obtain ⟨z, before, hz, hsplit, hbefore⟩ := h.above_eq_some hx hlink
      have hskipped : y.site ∉ before := hbefore y (List.mem_of_getElem? hy)
      rw [hsplit, List.mem_append, List.mem_cons, ← ih hz, h.site_eq_iff hy hz, ← within_iff,
        leads_iff_exists_link]
      simp [hlink, hskipped]

/-- A call stands inside another one exactly if the links lead there. -/
theorem isInside_iff (h : Nested calls) (hx : calls[i]? = some x) (hy : calls[j]? = some y) :
    x.isInside y = true ↔ Leads (above calls) i j := by
  rw [Call.isInside, Bool.and_eq_true, List.contains_iff_mem, ← h.leads_iff hx hy, bne_iff_ne]
  refine and_iff_right_of_imp ?_
  intro hleads hsite
  obtain ⟨outer, htrail⟩ := h.exists_trail hx
  rw [h.site_eq_iff hx hy] at hsite
  exact htrail.not_leads_self (hsite ▸ hleads)

/-- No call is lost and none is repeated. -/
theorem order_perm (h : Nested calls) : (order calls).Perm calls := by
  obtain ⟨listed, horder, hmem, hindices, -⟩ := exists_listed calls
  have hperm : listed.Perm calls.zipIdx := by
    have hzip : calls.zipIdx.Nodup := .of_map Prod.snd (by simp [List.nodup_range'])
    rw [List.perm_ext_iff_of_nodup (.of_map _ hindices) hzip]
    intro entry
    rw [hmem, List.mem_zipIdx_iff_getElem?]
    exact and_iff_left_of_imp fun hstands => h.exists_trail hstands
  rw [horder]
  simpa using hperm.map Prod.fst

end Nested

/-! ## Which of two calls comes first -/

/-- The call is the other one or stands around it. -/
def Holds (call other : Call) : Prop :=
  call = other ∨ other.isInside call = true

instance (call other : Call) : Decidable (Holds call other) :=
  inferInstanceAs (Decidable (_ ∨ _))

/-- The outermost of a call and the calls around it that is neither the other call nor around it. -/
structure Branch (calls : List Call) (call other branch : Call) : Prop where
  mem : branch ∈ calls
  holds : Holds branch call
  apart : ¬ Holds branch other
  outermost : ∀ third ∈ calls, Holds third call → ¬ Holds third other → Holds branch third

/-- Why a call appears before another one: it stands inside it, or the outermost calls that keep
them apart stand in this order. -/
def AppearsBefore (calls : List Call) (x y : Call) : Prop :=
  x.isInside y = true ∨ ∃ a b, Branch calls x y a ∧ Branch calls y x b ∧ a.Earlier b

namespace Nested

variable {x y a b : Call} {i j k l : Nat}

theorem holds_iff (h : Nested calls) (hx : calls[i]? = some x) (hy : calls[j]? = some y) :
    Holds x y ↔ Within (above calls) j i := by
  rw [Holds, within_iff, h.isInside_iff hy hx]
  refine or_congr_left ⟨?_, ?_⟩
  · rintro rfl
    exact (h.site_eq_iff hx hy).mp rfl
  · rintro rfl
    exact Option.some.inj (hx.symm.trans hy)

/-- Siblings keep what is within one of them apart from what is within the other. -/
theorem branch_of_siblings (h : Nested calls) (hx : calls[i]? = some x) (hy : calls[j]? = some y)
    (ha : calls[k]? = some a) (hne : k ≠ l) (hlink : above calls k = above calls l)
    (hxa : Within (above calls) i k) (hyb : Within (above calls) j l) : Branch calls x y a := by
  refine ⟨List.mem_of_getElem? ha, (h.holds_iff ha hx).mpr hxa, ?_, ?_⟩
  · rw [h.holds_iff ha hy]
    intro hya
    obtain ⟨outer, htrail⟩ := h.exists_trail hy
    exact hne (htrail.eq_of_within hya hyb hlink)
  · intro third hthird hholds hapart
    obtain ⟨m, hm⟩ := List.mem_iff_getElem?.mp hthird
    rw [h.holds_iff hm hx] at hholds
    rw [h.holds_iff hm hy] at hapart
    rw [h.holds_iff ha hm]
    rcases hxa.total hholds with hkm | hmk
    · rcases within_iff.mp hkm with rfl | hleads
      · exact .refl _ _
      · -- what stands around one sibling stands around the other
        exact absurd (hyb.trans ((leads_congr hlink).mp hleads).within) hapart
    · exact hmk

/-- The calls appear in order. -/
theorem pairwise_order (h : Nested calls) : (order calls).Pairwise (AppearsBefore calls) := by
  obtain ⟨listed, horder, hmem, -, hpairwise⟩ := exists_listed calls
  rw [horder, List.pairwise_map]
  refine hpairwise.imp_of_mem ?_
  intro x y hx hy hbefore
  have hx : calls[x.2]? = some x.1 := ((hmem x).mp hx).1
  have hy : calls[y.2]? = some y.1 := ((hmem y).mp hy).1
  rcases hbefore with hleads | ⟨a, b, ha, hb, hne, hlink, hnotAfter, hxa, hyb⟩
  · exact .inl ((h.isInside_iff hx hy).mpr hleads)
  · refine .inr ⟨a.1, b.1, h.branch_of_siblings hx hy ha hne hlink hxa hyb,
      h.branch_of_siblings hy hx hb hne.symm hlink.symm hyb hxa, ?_⟩
    exact Call.earlier_of_notAfter hnotAfter fun hsite => hne ((h.site_eq_iff ha hb).mp hsite)

theorem branch_unique (h : Nested calls) (ha : Branch calls x y a) (hb : Branch calls x y b) :
    a = b := by
  obtain ⟨k, hk⟩ := List.mem_iff_getElem?.mp ha.mem
  obtain ⟨l, hl⟩ := List.mem_iff_getElem?.mp hb.mem
  have hab := (h.holds_iff hk hl).mp (ha.outermost b hb.mem hb.holds hb.apart)
  rcases hb.outermost a ha.mem ha.holds ha.apart with rfl | hinside
  · rfl
  · obtain ⟨outer, htrail⟩ := h.exists_trail hl
    exact absurd (hab.trans_leads ((h.isInside_iff hk hl).mp hinside)) htrail.not_leads_self

/-- What keeps a call apart from another one keeps it from standing around it. -/
theorem not_isInside_of_branch (h : Nested calls) (hx : x ∈ calls) (hy : y ∈ calls)
    (ha : Branch calls x y a) : y.isInside x = false := by
  obtain ⟨i, hi⟩ := List.mem_iff_getElem?.mp hx
  obtain ⟨j, hj⟩ := List.mem_iff_getElem?.mp hy
  obtain ⟨k, hk⟩ := List.mem_iff_getElem?.mp ha.mem
  rw [Bool.eq_false_iff]
  intro hinside
  refine ha.apart ((h.holds_iff hk hj).mpr ?_)
  exact ((h.isInside_iff hj hi).mp hinside).within.trans ((h.holds_iff hk hi).mp ha.holds)

/-- No two calls appear each before the other. -/
theorem appearsBefore_asymm (h : Nested calls) (hx : x ∈ calls) (hy : y ∈ calls)
    (hxy : AppearsBefore calls x y) : ¬ AppearsBefore calls y x := by
  intro hyx
  rcases hxy with hxy | ⟨a, b, ha, hb, hab⟩
  · rcases hyx with hyx | ⟨b, a, hb, ha, -⟩
    · obtain ⟨i, hi⟩ := List.mem_iff_getElem?.mp hx
      obtain ⟨j, hj⟩ := List.mem_iff_getElem?.mp hy
      obtain ⟨outer, htrail⟩ := h.exists_trail hi
      refine htrail.not_leads_self ?_
      exact ((h.isInside_iff hi hj).mp hxy).within.trans_leads ((h.isInside_iff hj hi).mp hyx)
    · simp [h.not_isInside_of_branch hy hx hb] at hxy
  · rcases hyx with hyx | ⟨b', a', hb', ha', hba⟩
    · simp [h.not_isInside_of_branch hx hy ha] at hyx
    · rw [h.branch_unique ha' ha, h.branch_unique hb' hb] at hba
      exact hab.asymm hba

theorem appearsBefore_of_idxOf_lt (h : Nested calls) (hx : x ∈ calls) (hy : y ∈ calls)
    (hlt : (order calls).idxOf x < (order calls).idxOf y) : AppearsBefore calls x y := by
  have hi := List.idxOf_lt_length_of_mem (h.order_perm.mem_iff.mpr hx)
  have hj := List.idxOf_lt_length_of_mem (h.order_perm.mem_iff.mpr hy)
  have hpairwise := List.pairwise_iff_getElem.mp h.pairwise_order _ _ hi hj hlt
  rwa [List.getElem_idxOf, List.getElem_idxOf] at hpairwise

/-- One of two calls comes first. -/
theorem idxOf_lt_or_lt (h : Nested calls) (hx : x ∈ calls) (hne : x ≠ y) :
    (order calls).idxOf x < (order calls).idxOf y ∨
      (order calls).idxOf y < (order calls).idxOf x :=
  Nat.lt_or_gt_of_ne fun heq => hne ((List.idxOf_inj (h.order_perm.mem_iff.mpr hx)).mp heq)

/-- Of two calls the one comes first that appears before the other. -/
theorem idxOf_lt_iff (h : Nested calls) (hx : x ∈ calls) (hy : y ∈ calls) (hne : x ≠ y) :
    (order calls).idxOf x < (order calls).idxOf y ↔ AppearsBefore calls x y := by
  refine ⟨h.appearsBefore_of_idxOf_lt hx hy, ?_⟩
  intro hxy
  refine (h.idxOf_lt_or_lt hx hne).resolve_right ?_
  intro hlt
  exact h.appearsBefore_asymm hx hy hxy (h.appearsBefore_of_idxOf_lt hy hx hlt)

/-- Calls of which none stands inside the other are kept apart. -/
theorem exists_branch (h : Nested calls) (hx : x ∈ calls) (hy : y ∈ calls) (hne : x ≠ y)
    (hxy : x.isInside y = false) (hyx : y.isInside x = false) : ∃ a, Branch calls x y a := by
  rcases h.idxOf_lt_or_lt hx hne with hlt | hlt
  · rcases h.appearsBefore_of_idxOf_lt hx hy hlt with hinside | ⟨a, -, ha, -⟩
    · simp [hxy] at hinside
    · exact ⟨a, ha⟩
  · rcases h.appearsBefore_of_idxOf_lt hy hx hlt with hinside | ⟨-, a, -, ha, -⟩
    · simp [hyx] at hinside
    · exact ⟨a, ha⟩

end Nested

end Appearance

end ClassLayout

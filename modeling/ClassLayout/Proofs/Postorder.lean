import ClassLayout.Proofs.Appearance

/-!
# ClassLayout.Proofs.Postorder

Which calls the walk emits, for any calls whatsoever: sites may be repeated, and the sites around a
call may contradict each other, name the call itself or lead round in a circle.

1. `Parent calls inner outer` says which call is the parent of which, in terms of the sites alone,
   and `Rooted calls index` that the parents of a call come to an end. The links that the walk
   follows are these (`above_eq_some_iff_parent`).
2. `Progress.step` does the walk with a stack, one call at a time, and keeps no record of the calls
   that it has met. What is put on the stack is worked off in two steps for each call
   (`steps_walked`), so the stack is empty in the end.

The calls that are emitted are the rooted ones, each of them once and after all calls below it. A
call on a circle, or below one, is never put on the stack.
-/

namespace ClassLayout.Appearance

variable {calls : List Call} {siblings listed : List (Call × Nat)} {call : Call}
  {index inner outer site : Nat}

/-! ## Parents -/

/-- The nearest site around the call at `inner` that any call has is that of the call at `outer`,
and no later call has it. -/
def Parent (calls : List Call) (inner outer : Nat) : Prop :=
  ∃ call around before after, calls[inner]? = some call ∧ calls[outer]? = some around ∧
    call.enclosingSites = before ++ around.site :: after ∧
    (∀ other ∈ calls, other.site ∉ before) ∧
    ∀ later other, outer < later → calls[later]? = some other → other.site ≠ around.site

/-- The chain of parents from a call ends in a call without a parent. -/
inductive Rooted (calls : List Call) : Nat → Prop
  | root {index : Nat} (hroot : ∀ outer, ¬ Parent calls index outer) : Rooted calls index
  | inside {inner outer : Nat} (hparent : Parent calls inner outer) (houter : Rooted calls outer) :
      Rooted calls inner

/-- The chain of parents from the first call leads to the second. -/
def Below (calls : List Call) : Nat → Nat → Prop :=
  Relation.TransGen (Parent calls)

/-- The calls at a site are found in the order of their indices. -/
theorem pairwise_filter_zipIdx (calls : List Call) (p : Call × Nat → Bool) :
    (calls.zipIdx.filter p).Pairwise fun entry other => entry.2 < other.2 := by
  refine List.Pairwise.filter p ?_
  rw [← List.pairwise_map (f := Prod.snd), List.zipIdx_map_snd]
  exact List.pairwise_lt_range'

/-- No call after the one found at a site has that site. -/
theorem site_ne_of_indexAt? {later : Nat} {other : Call} (h : indexAt? calls site = some index)
    (hlater : index < later) (hother : calls[later]? = some other) : other.site ≠ site := by
  rintro rfl
  obtain ⟨⟨call, index⟩, hlast, rfl⟩ := Option.map_eq_some_iff.mp h
  obtain ⟨front, hsplit⟩ := List.getLast?_eq_some_iff.mp hlast
  have hpairwise := pairwise_filter_zipIdx calls fun entry => entry.1.site == other.site
  have hmem : (other, later) ∈ calls.zipIdx.filter fun entry => entry.1.site == other.site := by
    simp [List.mem_zipIdx_iff_getElem?, hother]
  rw [hsplit, List.pairwise_append] at hpairwise
  rw [hsplit, List.mem_append, List.mem_singleton] at hmem
  rcases hmem with hfront | hsame
  · have hlt := hpairwise.2.2 _ hfront _ (List.mem_singleton_self _)
    exact Nat.lt_asymm hlater hlt
  · obtain ⟨-, rfl⟩ := Prod.mk.inj hsame
    exact Nat.lt_irrefl _ hlater

/-- A call after which no other one has its site is the one found there. -/
theorem indexAt?_of_last (hcall : calls[index]? = some call)
    (hlast : ∀ later other, index < later → calls[later]? = some other → other.site ≠ call.site) :
    indexAt? calls call.site = some index := by
  obtain ⟨found, hfound⟩ :=
    Option.isSome_iff_exists.mp (indexAt?_isSome (List.mem_of_getElem? hcall))
  obtain ⟨other, hother, hsite⟩ := exists_of_indexAt? hfound
  rcases Nat.lt_trichotomy found index with hlt | rfl | hgt
  · exact absurd rfl (site_ne_of_indexAt? hfound hlt hcall)
  · exact hfound
  · exact absurd hsite (hlast found other hgt hother)

/-- The call found at a site is the last one there. -/
theorem indexAt?_eq_some_iff :
    indexAt? calls site = some index ↔ ∃ call, calls[index]? = some call ∧ call.site = site ∧
      ∀ later other, index < later → calls[later]? = some other → other.site ≠ site := by
  constructor
  · intro h
    obtain ⟨call, hcall, hsite⟩ := exists_of_indexAt? h
    exact ⟨call, hcall, hsite, fun _ _ => site_ne_of_indexAt? h⟩
  · rintro ⟨call, hcall, rfl, hlast⟩
    exact indexAt?_of_last hcall hlast

/-- Nothing is found at a site that no call has. -/
theorem indexAt?_eq_none_iff :
    indexAt? calls site = none ↔ ∀ other ∈ calls, other.site ≠ site := by
  constructor
  · rintro h other hother rfl
    have hsome := indexAt?_isSome hother
    simp [h] at hsome
  · intro h
    cases hfound : indexAt? calls site with
    | none => rfl
    | some index =>
        obtain ⟨other, hother, hsite⟩ := exists_of_indexAt? hfound
        exact absurd hsite (h other (List.mem_of_getElem? hother))

/-- The links that the walk follows are those from calls to their parents. -/
theorem above_eq_some_iff_parent : above calls inner = some outer ↔ Parent calls inner outer := by
  constructor
  · intro h
    obtain ⟨call, hcall, hparent⟩ := Option.bind_eq_some_iff.mp h
    obtain ⟨before, site, after, hsplit, hsite, hbefore⟩ := List.findSome?_eq_some_iff.mp hparent
    obtain ⟨around, haround, rfl, hlast⟩ := indexAt?_eq_some_iff.mp hsite
    refine ⟨call, around, before, after, hcall, haround, hsplit, ?_, hlast⟩
    intro other hother hmem
    exact indexAt?_eq_none_iff.mp (hbefore _ hmem) other hother rfl
  · rintro ⟨call, around, before, after, hcall, haround, hsplit, hbefore, hlast⟩
    rw [above_of_getElem? hcall, parentOf?, List.findSome?_eq_some_iff]
    refine ⟨before, around.site, after, hsplit,
      indexAt?_eq_some_iff.mpr ⟨around, haround, rfl, hlast⟩, ?_⟩
    intro site hmem
    rw [indexAt?_eq_none_iff]
    rintro other hother rfl
    exact hbefore other hother hmem

theorem above_eq_none_iff : above calls index = none ↔ ∀ outer, ¬ Parent calls index outer := by
  simp only [Option.eq_none_iff_forall_ne_some, ne_eq, above_eq_some_iff_parent]

/-- The chain of parents ends if the trail of links does. -/
theorem rooted_iff : Rooted calls index ↔ ∃ trail, Trail (above calls) index trail := by
  constructor
  · intro h
    induction h with
    | root hroot => exact ⟨[], .last (above_eq_none_iff.mpr hroot)⟩
    | inside hparent _ ih =>
        obtain ⟨trail, htrail⟩ := ih
        exact ⟨_, .step (above_eq_some_iff_parent.mpr hparent) htrail⟩
  · rintro ⟨trail, htrail⟩
    induction htrail with
    | last hlast => exact .root (above_eq_none_iff.mp hlast)
    | step hstep _ ih => exact .inside (above_eq_some_iff_parent.mp hstep) ih

theorem below_iff : Below calls inner outer ↔ Leads (above calls) inner outer := by
  simp only [Below, Leads, above_eq_some_iff_parent]

/-! ## The walk with a stack -/

/-- A walk under way: the calls on the stack, each with whether its children were put on the stack
already, and the calls that have been emitted. -/
structure Progress where
  stack : List (Nat × Bool)
  emitted : List Nat
  deriving DecidableEq, Repr

/-- Siblings as they are put on the stack. -/
def unopened (siblings : List (Call × Nat)) : List (Nat × Bool) :=
  siblings.map fun sibling => (sibling.2, false)

namespace Progress

/-- Take a call off the stack. It is emitted if its children were seen to, and goes back below its
children otherwise. There is nothing to do once the stack is empty. -/
def step (calls : List Call) : Progress → Option Progress
  | ⟨[], _⟩ => none
  | ⟨(index, true) :: stack, emitted⟩ => some ⟨stack, emitted ++ [index]⟩
  | ⟨(index, false) :: stack, emitted⟩ =>
    some ⟨unopened (children (forest calls) (some index)) ++ (index, true) :: stack, emitted⟩

/-- So many steps in a row. -/
def steps (calls : List Call) : Nat → Progress → Option Progress
  | 0, progress => some progress
  | n + 1, progress => (progress.step calls).bind (steps calls n)

/-- The roots are on the stack and nothing has been emitted. -/
def start (calls : List Call) : Progress :=
  ⟨unopened (children (forest calls) none), []⟩

theorem steps_add (m n : Nat) (progress : Progress) :
    steps calls (m + n) progress = (steps calls m progress).bind (steps calls n) := by
  induction m generalizing progress with
  | zero => simp [steps]
  | succ m ih =>
      rw [Nat.add_right_comm, steps, steps, Option.bind_assoc]
      exact congrArg _ (funext ih)

/-- What was put on the stack is worked off in two steps for each call, and what waits below it
stays as it is. -/
theorem steps_walked (h : Walked (forest calls) siblings listed) (stack : List (Nat × Bool))
    (emitted : List Nat) :
    steps calls (2 * listed.length) ⟨unopened siblings ++ stack, emitted⟩ =
      some ⟨stack, emitted ++ listed.map Prod.snd⟩ := by
  induction h generalizing stack emitted with
  | nil => simp [steps, unopened]
  | @cons sibling siblings below others _ _ ihbelow ihothers =>
      -- open the sibling, work off its children, emit it, and go on with the others
      have hcount : 2 * (below ++ sibling :: others).length =
          1 + (2 * below.length + (1 + 2 * others.length)) := by
        simp only [List.length_append, List.length_cons]
        omega
      have hopen : steps calls 1 ⟨unopened (sibling :: siblings) ++ stack, emitted⟩ =
          some ⟨unopened (children (forest calls) (some sibling.2)) ++
            (sibling.2, true) :: (unopened siblings ++ stack), emitted⟩ := rfl
      have hemit : ∀ done, steps calls 1 ⟨(sibling.2, true) :: (unopened siblings ++ stack), done⟩ =
          some ⟨unopened siblings ++ stack, done ++ [sibling.2]⟩ := fun _ => rfl
      rw [hcount, steps_add, hopen, Option.bind_some, steps_add, ihbelow, Option.bind_some,
        steps_add, hemit, Option.bind_some, ihothers]
      simp

end Progress

/-! ## What is emitted -/

/-- Nothing comes before a call that it stands inside. -/
theorem Before.not_leads {x y : Call × Nat} (h : Before calls x y)
    (htrail : Trail (above calls) y.2 trail) : ¬ Leads (above calls) y.2 x.2 := by
  intro hback
  rcases h with hleads | ⟨a, b, -, -, hne, hlink, -, ha, hb⟩
  · exact htrail.not_leads_self (hback.trans hleads)
  · exact hne (htrail.eq_of_within (hback.within.trans ha) hb hlink)

/-- Where no later entry leads back to an earlier one, what is below a call comes before it. -/
theorem idxOf_lt_of_leads (hmem : ∀ entry ∈ listed, ∃ trail, Trail (above calls) entry.2 trail)
    (hpairwise : listed.Pairwise (Before calls)) (hindex : index ∈ listed.map Prod.snd)
    (hinner : inner ∈ listed.map Prod.snd) (hleads : Leads (above calls) inner index) :
    (listed.map Prod.snd).idxOf inner < (listed.map Prod.snd).idxOf index := by
  have hordered : (listed.map Prod.snd).Pairwise fun a b => ¬ Leads (above calls) b a := by
    rw [List.pairwise_map]
    refine hpairwise.imp_of_mem fun _ hy hbefore => ?_
    obtain ⟨trail, htrail⟩ := hmem _ hy
    exact hbefore.not_leads htrail
  have hi := List.idxOf_lt_length_of_mem hindex
  have hj := List.idxOf_lt_length_of_mem hinner
  rcases Nat.lt_trichotomy ((listed.map Prod.snd).idxOf inner)
    ((listed.map Prod.snd).idxOf index) with hlt | hsame | hgt
  · exact hlt
  · obtain rfl := (List.idxOf_inj hinner).mp hsame
    obtain ⟨entry, hentry, rfl⟩ := List.mem_map.mp hinner
    obtain ⟨trail, htrail⟩ := hmem entry hentry
    exact absurd hleads htrail.not_leads_self
  · have hnot := List.pairwise_iff_getElem.mp hordered _ _ hi hj hgt
    rw [List.getElem_idxOf, List.getElem_idxOf] at hnot
    exact absurd hleads hnot

/-- **Post-order**: whatever calls are given, the walk with a stack comes to an end, after two steps
for each call that it emits, and the calls appear as it emits them. They are the calls whose chain
of parents ends in a call without a parent, each of them once and after all calls below it. -/
theorem order_emits_rooted (calls : List Call) :
    ∃ emitted : List Nat,
      Progress.steps calls (2 * emitted.length) (.start calls) = some ⟨[], emitted⟩ ∧
      (order calls).map some = emitted.map (fun index => calls[index]?) ∧
      emitted.Nodup ∧
      (∀ index, index ∈ emitted ↔ index < calls.length ∧ Rooted calls index) ∧
      ∀ index ∈ emitted, ∀ inner, Below calls inner index →
        inner ∈ emitted ∧ emitted.idxOf inner < emitted.idxOf index := by
  obtain ⟨listed, hwalked, horder⟩ := exists_walked_order calls
  obtain ⟨hmem, hnodup, hpairwise⟩ := walked_roots hwalked
  have hemitted : ∀ index, index ∈ listed.map Prod.snd ↔
      index < calls.length ∧ Rooted calls index := by
    intro index
    rw [rooted_iff, List.mem_map]
    constructor
    · rintro ⟨entry, hentry, rfl⟩
      obtain ⟨hstands, htrail⟩ := (hmem entry).mp hentry
      exact ⟨(List.getElem?_eq_some_iff.mp hstands).1, htrail⟩
    · rintro ⟨hlt, htrail⟩
      exact ⟨(calls[index], index), (hmem _).mpr ⟨List.getElem?_eq_getElem hlt, htrail⟩, rfl⟩
  refine ⟨listed.map Prod.snd, ?_, ?_, hnodup, hemitted, ?_⟩
  · simpa [Progress.start] using Progress.steps_walked hwalked [] []
  · rw [horder, List.map_map, List.map_map]
    refine List.map_congr_left fun entry hentry => ?_
    exact ((hmem entry).mp hentry).1.symm
  · intro index hindex inner hbelow
    have hleads := below_iff.mp hbelow
    have hinner : inner ∈ listed.map Prod.snd := by
      obtain ⟨-, hrooted⟩ := (hemitted index).mp hindex
      obtain ⟨trail, htrail⟩ := rooted_iff.mp hrooted
      refine (hemitted inner).mpr ⟨?_, rooted_iff.mpr (htrail.exists_of_within hleads.within)⟩
      obtain ⟨_, hlink, -⟩ := leads_iff_exists_link.mp hleads
      obtain ⟨_, _, _, _, hcall, -⟩ := above_eq_some hlink
      exact (List.getElem?_eq_some_iff.mp hcall).1
    refine ⟨hinner, idxOf_lt_of_leads ?_ hpairwise hindex hinner hleads⟩
    intro entry hentry
    exact ((hmem entry).mp hentry).2

end ClassLayout.Appearance

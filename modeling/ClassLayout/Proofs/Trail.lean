import Mathlib.Data.List.Perm.Subperm
import Mathlib.Logic.Relation

/-!
# ClassLayout.Proofs.Trail

Following links outward, from a call site to the site around it or from a call to the nearest call
around it. Links are any function `up`: nothing keeps them from running in a circle.

* `Leads up a b` says that following the links from `a` comes to `b`, and `Within up a b` that it
  does or that `b` is `a` itself.
* `Trail up a outer` says that it comes to an end and meets `outer` before, the nearest first. There
  is no limit on the number of steps.

Links lead to the same when the numbers are renamed (`leads_iff_of_renamed`) and when one of them is
left out (`leads_bypass_iff`).

A trail goes on from whatever it meets as if it had begun there (`Trail.suffix`). So it meets
nothing twice, and there is no room for a long one among few numbers (`Trail.length_lt`). Seen from
one number, what has the same link is the same (`Trail.eq_of_within`): two trees of a forest never
share a node.
-/

namespace ClassLayout

/-- The links lead from the first number to the second, in one step or more. -/
def Leads (up : Nat → Option Nat) : Nat → Nat → Prop :=
  Relation.TransGen fun inner outer => up inner = some outer

/-- The second number is the first, or the links lead there. -/
def Within (up : Nat → Option Nat) : Nat → Nat → Prop :=
  Relation.ReflTransGen fun inner outer => up inner = some outer

/-- The links from a number come to an end, and meet the others on the way, the nearest first. -/
inductive Trail (up : Nat → Option Nat) : Nat → List Nat → Prop
  | last {a : Nat} (hlast : up a = none) : Trail up a []
  | step {a b : Nat} {outer : List Nat} (hstep : up a = some b) (hrest : Trail up b outer) :
      Trail up a (b :: outer)

variable {up : Nat → Option Nat} {a b c : Nat} {outer : List Nat}

/-! ## Leading on -/

theorem Within.refl (up : Nat → Option Nat) (a : Nat) : Within up a a :=
  Relation.ReflTransGen.refl

theorem within_iff : Within up a b ↔ b = a ∨ Leads up a b :=
  Relation.reflTransGen_iff_eq_or_transGen

/-- The last step of the links comes from within. -/
theorem leads_iff_exists_within : Leads up a c ↔ ∃ b, Within up a b ∧ up b = some c :=
  Relation.TransGen.tail'_iff

/-- The first step is the link of the number itself. -/
theorem leads_iff_exists_link : Leads up a c ↔ ∃ b, up a = some b ∧ Within up b c :=
  Relation.TransGen.head'_iff

theorem Leads.within (h : Leads up a b) : Within up a b :=
  Relation.TransGen.to_reflTransGen h

theorem Within.trans (h : Within up a b) (h' : Within up b c) : Within up a c :=
  Relation.ReflTransGen.trans h h'

theorem Within.trans_leads (h : Within up a b) (h' : Leads up b c) : Leads up a c :=
  Relation.TransGen.trans_right h h'

/-- Of two numbers that one is within, one is within the other. -/
theorem Within.total (hb : Within up a b) (hc : Within up a c) : Within up b c ∨ Within up c b := by
  refine Relation.ReflTransGen.total_of_right_unique ?_ hb hc
  intro inner outer other houter hother
  exact Option.some.inj (houter.symm.trans hother)

theorem Leads.trans (h : Leads up a b) (h' : Leads up b c) : Leads up a c :=
  Relation.TransGen.trans h h'

/-- Of two numbers that the links lead to, one leads to the other. -/
theorem Leads.total (hb : Leads up a b) (hc : Leads up a c) (hne : b ≠ c) :
    Leads up b c ∨ Leads up c b := by
  rcases hb.within.total hc.within with hbc | hcb
  · exact .inl ((within_iff.mp hbc).resolve_left hne.symm)
  · exact .inr ((within_iff.mp hcb).resolve_left hne)

/-- Links below a bound lead to nothing above it. -/
theorem Leads.lt (hlinks : ∀ a b, up a = some b → b < size) (h : Leads up a b) : b < size := by
  obtain ⟨inner, -, hlink⟩ := leads_iff_exists_within.mp h
  exact hlinks inner b hlink

/-- What has the same link leads to the same. -/
theorem leads_congr (hsame : up a = up b) : Leads up a c ↔ Leads up b c := by
  rw [leads_iff_exists_link, leads_iff_exists_link, hsame]

/-! ## Other numbers, and one number less -/

/-- Links lead to the same when the numbers are renamed. -/
theorem leads_iff_of_renamed {other : Nat → Option Nat} {f g : Nat → Nat}
    (hforth : ∀ a b, up a = some b → other (f a) = some (f b))
    (hback : ∀ a b, other a = some b → up (g a) = some (g b))
    (ha : g (f a) = a) (hb : g (f b) = b) :
    Leads up a b ↔ Leads other (f a) (f b) := by
  constructor
  · exact Relation.TransGen.lift f hforth a b
  · intro h
    rw [← ha, ← hb]
    exact Relation.TransGen.lift g hback _ _ h

/-- The links that go past a number: what is linked to it gets its link instead. -/
def bypass (up : Nat → Option Nat) (x : Nat) (a : Nat) : Option Nat :=
  if a = x then none else if up a = some x then up x else up a

theorem bypass_ne (hself : up x ≠ some x) (h : bypass up x a = some b) : a ≠ x ∧ b ≠ x := by
  grind [bypass]

/-- Past a number the links lead wherever they led before. -/
theorem leads_bypass_iff (hself : up x ≠ some x) (ha : a ≠ x) (hb : b ≠ x) :
    Leads (bypass up x) a b ↔ Leads up a b := by
  constructor
  · refine Relation.TransGen.lift' id ?_ a b
    intro inner outer hlink
    have hinner := (bypass_ne hself hlink).1
    rw [bypass, if_neg hinner] at hlink
    split at hlink
    · next hpast => exact .tail (.single hpast) hlink
    · exact .single hlink
  · intro h
    -- from the number itself the links lead on to what its link leads to
    have hboth : (a ≠ x → Leads (bypass up x) a b) ∧
        (a = x → ∃ c, up x = some c ∧ Within (bypass up x) c b) := by
      clear ha
      induction h using Relation.TransGen.head_induction_on with
      | @single a hlink =>
          refine ⟨fun ha => .single ?_, fun ha => ⟨b, ha ▸ hlink, .refl _ b⟩⟩
          grind [bypass]
      | @head a c hlink _ ih =>
          refine ⟨fun ha => ?_, fun ha => ⟨c, ha ▸ hlink, ?_⟩⟩
          · rw [leads_iff_exists_link]
            by_cases hc : c = x
            · obtain ⟨d, hd, hwithin⟩ := ih.2 hc
              refine ⟨d, ?_, hwithin⟩
              rw [bypass, if_neg ha, if_pos (hc ▸ hlink), hd]
            · refine ⟨c, ?_, (ih.1 hc).within⟩
              grind [bypass]
          · have hc : c ≠ x := fun hc => hself (by rw [← ha, hlink, hc, ha])
            exact (ih.1 hc).within
    exact hboth.1 ha

/-! ## Trails -/

namespace Trail

/-- There is one trail at most. -/
theorem unique {other : List Nat} (h : Trail up a outer) (h' : Trail up a other) :
    outer = other := by
  induction h generalizing other with
  | last hlast =>
      cases h' with
      | last => rfl
      | step hstep => simp [hlast] at hstep
  | step hstep _ ih =>
      cases h' with
      | last hlast => simp [hstep] at hlast
      | step hstep' hrest' =>
          obtain rfl := Option.some.inj (hstep.symm.trans hstep')
          rw [ih hrest']

/-- What has the same link has the same trail. -/
theorem congr (hsame : up a = up b) (h : Trail up a outer) : Trail up b outer := by
  cases h with
  | last hlast => exact .last (hsame ▸ hlast)
  | step hstep hrest => exact .step (hsame ▸ hstep) hrest

/-- From whatever a trail meets it goes on as the trail from there. -/
theorem suffix {before rest : List Nat} (h : Trail up a (before ++ b :: rest)) :
    Trail up b rest := by
  induction before generalizing a with
  | nil =>
      cases h with
      | step _ hrest => exact hrest
  | cons c before ih =>
      cases h with
      | step _ hrest => exact ih hrest

/-- A trail never comes back to where it began. -/
theorem not_mem (h : Trail up a outer) : a ∉ outer := by
  intro hmem
  obtain ⟨before, rest, rfl⟩ := List.append_of_mem hmem
  have hlength := congrArg List.length (h.unique h.suffix)
  simp only [List.length_append, List.length_cons] at hlength
  omega

theorem nodup (h : Trail up a outer) : (a :: outer).Nodup := by
  induction h with
  | last => simp
  | step hstep hrest ih => exact List.nodup_cons.mpr ⟨(Trail.step hstep hrest).not_mem, ih⟩

/-- A trail meets exactly what the links lead to. -/
theorem mem_iff (h : Trail up a outer) : b ∈ outer ↔ Leads up a b := by
  induction h with
  | last hlast => simp [leads_iff_exists_link, hlast]
  | @step a c outer hstep _ ih =>
      rw [List.mem_cons, ih, ← within_iff, leads_iff_exists_link]
      simp [hstep]

theorem not_leads_self (h : Trail up a outer) : ¬ Leads up a a :=
  fun hleads => h.not_mem (h.mem_iff.mpr hleads)

/-- A trail goes from each number to its link. -/
theorem isChain (h : Trail up a outer) :
    (a :: outer).IsChain fun inner around => up inner = some around := by
  induction h with
  | last => exact .singleton _
  | step hstep _ ih => exact .cons_cons hstep ih

/-- There are fewer steps on a trail than numbers that it can meet. -/
theorem length_lt (h : Trail up a outer) (hlinks : ∀ a b, up a = some b → b < size)
    (ha : a < size) : outer.length < size := by
  have hsub : a :: outer ⊆ List.range size := by
    refine List.cons_subset.mpr ⟨List.mem_range.mpr ha, ?_⟩
    intro b hb
    exact List.mem_range.mpr ((h.mem_iff.mp hb).lt hlinks)
  have hle := (List.subperm_of_subset h.nodup hsub).length_le
  rw [List.length_cons, List.length_range] at hle
  omega

/-- What leads to the beginning of a trail has one too. -/
theorem exists_of_within (h : Trail up b outer) (hwithin : Within up a b) :
    ∃ longer, Trail up a longer := by
  induction hwithin using Relation.ReflTransGen.head_induction_on with
  | refl => exact ⟨outer, h⟩
  | head hlink _ ih =>
      obtain ⟨longer, hlonger⟩ := ih
      exact ⟨_, .step hlink hlonger⟩

/-- A trail ends somewhere. -/
theorem exists_last (h : Trail up a outer) : ∃ last, Within up a last ∧ up last = none := by
  induction h with
  | @last a hlast => exact ⟨a, .refl up a, hlast⟩
  | step hstep _ ih =>
      obtain ⟨last, hwithin, hlast⟩ := ih
      exact ⟨last, Relation.ReflTransGen.head hstep hwithin, hlast⟩

/-- The trail from where one is within is the last part of one's own. -/
theorem exists_suffix_of_within (h : Trail up a outer) (hb : Within up a b) :
    ∃ before rest, a :: outer = before ++ b :: rest ∧ Trail up b rest := by
  rcases within_iff.mp hb with rfl | hleads
  · exact ⟨[], outer, rfl, h⟩
  · obtain ⟨before, rest, rfl⟩ := List.append_of_mem (h.mem_iff.mpr hleads)
    exact ⟨a :: before, rest, rfl, h.suffix⟩

/-- On a trail there is one number of each link. -/
theorem eq_of_within (h : Trail up a outer) (hb : Within up a b) (hc : Within up a c)
    (hsame : up b = up c) : b = c := by
  obtain ⟨beforeB, restB, hsplitB, htrailB⟩ := h.exists_suffix_of_within hb
  obtain ⟨beforeC, restC, hsplitC, htrailC⟩ := h.exists_suffix_of_within hc
  have hrest : restB = restC := (htrailB.congr hsame).unique htrailC
  have hlength : (b :: restB).length = (c :: restC).length := by simp [hrest]
  have htail := (List.append_inj' (hsplitB.symm.trans hsplitC) hlength).2
  exact (List.cons.inj htail).1

end Trail

end ClassLayout

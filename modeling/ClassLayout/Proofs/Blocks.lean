import ClassLayout.Proofs.BreadthFirst

/-!
# ClassLayout.Proofs.Blocks

A list of methods breadth first falls into blocks, each of them the methods that can be reached from
its head and are not in an earlier block. All of it follows from `FirstCome`:

1. A block goes on as long as methods come after a caller (`FirstCome.exists_segment`). Where it ends
   nothing more is to be found.
2. The callers that find the methods of a block are in the block themselves, so all of them are
   reached from the head (`Segment.exists_path`), and whatever is reached from the head is in the
   block or before it.
3. Methods come in the order in which their callers do, so a path to a method is no shorter than
   the shortest path to one that comes before it (`Segment.exists_path_le`). This is an induction on
   the path: its last step is made by a caller that comes no earlier than the one that finds the
   method.
-/

namespace ClassLayout

/-! ## Paths -/

/-- Dependencies lead from the start to the last method in so many steps. -/
inductive CallGraph.Path (graph : CallGraph) (start : Nat) : (length last : Nat) → Prop
  | start : Path graph start 0 start
  | step {length last next : Nat} (hpath : Path graph start length last)
      (hcalls : next ∈ graph.dependenciesOf last) : Path graph start (length + 1) next

/-- Dependencies lead from the first method to the second, or they are one. -/
def CallGraph.Reaches (graph : CallGraph) (start last : Nat) : Prop :=
  ∃ length, graph.Path start length last

/-- The shortest path from the first method to the second has so many steps. -/
def CallGraph.IsDistance (graph : CallGraph) (start last length : Nat) : Prop :=
  IsLeast {length | graph.Path start length last} length

namespace Proposal

open Arrangement

variable {graph : CallGraph} {seed head id start length last : Nat}
  {listed earlier tail rest after : List Nat}

/-- Dependencies do not lead out of methods that call nothing else. -/
theorem Closed.mem_of_path (hclosed : Closed graph listed) (hstart : start ∈ listed)
    (h : graph.Path start length last) : last ∈ listed := by
  induction h with
  | start => exact hstart
  | step _ hcalls ih => exact hclosed _ ih _ hcalls

/-- What is reached has a distance. -/
theorem exists_isDistance (h : graph.Reaches start last) :
    ∃ length, graph.IsDistance start last length := by
  obtain ⟨length, hlength, hmin⟩ := Nat.lt_wfRel.wf.has_min {length | graph.Path start length last} h
  exact ⟨length, hlength, fun other hother => Nat.not_lt.mp (hmin other hother)⟩

/-! ## Segments -/

/-- A part of the list, from a method on with which a block begins up to where it ends. -/
structure Segment (graph : CallGraph) (listed earlier : List Nat) (head : Nat) (tail : List Nat) :
    Prop where
  order : graph.IsOrder listed
  split : ∃ rest, listed = (earlier ++ head :: tail) ++ rest
  before : Closed graph earlier
  closed : Closed graph (earlier ++ head :: tail)
  called : ∀ id ∈ tail, Preceded graph listed id

/-- A block goes on until the next one begins. -/
theorem FirstCome.exists_segment (wf : graph.WellFormed) (h : FirstCome graph seed listed)
    (hsplit : listed = earlier ++ head :: after) (hclosed : Closed graph earlier) :
    ∃ tail rest, after = tail ++ rest ∧ Segment graph listed earlier head tail := by
  obtain ⟨tail, rest, hafter, htail, hrest⟩ : ∃ tail rest, after = tail ++ rest ∧
      (∀ id ∈ tail, Preceded graph listed id) ∧
      ∀ id rest', rest = id :: rest' → ¬ Preceded graph listed id := by
    refine ⟨after.takeWhile fun id => Preceded graph listed id,
      after.dropWhile fun id => Preceded graph listed id,
      List.takeWhile_append_dropWhile.symm, ?_, ?_⟩
    · intro id hid
      exact of_decide_eq_true (List.all_eq_true.mp (List.all_takeWhile ..) id hid)
    · intro id rest' hrest
      have hhead := List.head?_dropWhile_not (fun id => decide (Preceded graph listed id)) after
      simpa [hrest] using hhead
  have hparts : listed = (earlier ++ head :: tail) ++ rest := by simp [hsplit, hafter]
  refine ⟨tail, rest, hafter, h.order, ⟨rest, hparts⟩, hclosed, ?_, htail⟩
  cases rest with
  | nil =>
      -- all methods are listed
      intro caller _ callee hcalls
      rw [List.append_nil] at hparts
      exact hparts ▸ h.order.mem_iff.mpr (wf.dependencies_lt caller callee hcalls)
  | cons id rest =>
      rcases h.origin _ id rest hparts with ⟨caller, hcaller, hcalls⟩ | hbegins
      · refine absurd ⟨caller, ?_, hcalls, ?_⟩ (hrest id rest rfl)
        · exact hparts ▸ List.mem_append_left _ hcaller
        · exact (mem_before_iff hparts h.order.nodup).mp hcaller
      · exact hbegins.closed

namespace Segment

variable {caller : Nat}

/-- Nothing of a block is in an earlier one. -/
theorem not_mem_earlier (h : Segment graph listed earlier head tail) (hid : id ∈ head :: tail) :
    id ∉ earlier := by
  obtain ⟨rest, hsplit⟩ := h.split
  have hnodup := h.order.nodup
  rw [hsplit, List.nodup_append, List.nodup_append] at hnodup
  exact fun hmem => hnodup.1.2.2 id hmem id hid rfl

theorem mem_listed (h : Segment graph listed earlier head tail) (hid : id ∈ head :: tail) :
    id ∈ listed := by
  obtain ⟨rest, hsplit⟩ := h.split
  rw [hsplit]
  exact List.mem_append_left _ (List.mem_append_right _ hid)

/-- What calls a method of the block is not in an earlier one. -/
theorem caller_not_mem_earlier (h : Segment graph listed earlier head tail)
    (hid : id ∈ head :: tail) (hcalls : id ∈ graph.dependenciesOf caller) : caller ∉ earlier :=
  fun hmem => h.not_mem_earlier hid (h.before caller hmem id hcalls)

/-- A method of the block other than its head is found by another one of the block. -/
theorem exists_caller (h : Segment graph listed earlier head tail) (hid : id ∈ tail) :
    ∃ caller ∈ head :: tail, EarliestCaller graph listed id caller ∧
      listed.idxOf caller < listed.idxOf id := by
  obtain ⟨caller, hcaller, hlt⟩ := (h.called id hid).exists_earliestCaller
  obtain ⟨rest, hsplit⟩ := h.split
  have hmem : id ∈ head :: tail := List.mem_cons_of_mem head hid
  refine ⟨caller, ?_, hcaller, hlt⟩
  by_contra hnot
  have hout : caller ∉ earlier ++ head :: tail := by
    rw [List.mem_append, not_or]
    exact ⟨h.caller_not_mem_earlier hmem hcaller.2.1, hnot⟩
  exact Nat.lt_asymm hlt (idxOf_lt_of_append hsplit (List.mem_append_right _ hmem) hout)

/-- All of the block is reached from its head. -/
theorem exists_path (h : Segment graph listed earlier head tail) (hid : id ∈ head :: tail) :
    graph.Reaches head id := by
  -- on the place of the method, since its caller comes before it
  induction hplace : listed.idxOf id using Nat.strong_induction_on generalizing id with
  | _ place ih =>
      rcases List.mem_cons.mp hid with rfl | htail
      · exact ⟨0, .start⟩
      · obtain ⟨caller, hcaller, hearliest, hlt⟩ := h.exists_caller htail
        obtain ⟨length, hpath⟩ := ih _ (hplace ▸ hlt) hcaller rfl
        exact ⟨length + 1, .step hpath hearliest.2.1⟩

/-- A block is what is reached from its head and is not in an earlier one. -/
theorem mem_iff (h : Segment graph listed earlier head tail) :
    id ∈ head :: tail ↔ graph.Reaches head id ∧ id ∉ earlier := by
  refine ⟨fun hid => ⟨h.exists_path hid, h.not_mem_earlier hid⟩, ?_⟩
  rintro ⟨⟨length, hpath⟩, hid⟩
  have hhead : head ∈ earlier ++ head :: tail := List.mem_append_right _ List.mem_cons_self
  exact (List.mem_append.mp (h.closed.mem_of_path hhead hpath)).resolve_left hid

/-- The head comes first. -/
theorem eq_head_of_idxOf_le (h : Segment graph listed earlier head tail) (hid : id ∈ head :: tail)
    (hle : listed.idxOf id ≤ listed.idxOf head) : id = head := by
  obtain ⟨rest, hsplit⟩ := h.split
  rcases Nat.lt_or_eq_of_le hle with hlt | heq
  · rw [List.append_assoc, List.cons_append] at hsplit
    exact absurd ((mem_before_iff hsplit h.order.nodup).mpr hlt) (h.not_mem_earlier hid)
  · exact (List.idxOf_inj (h.mem_listed hid)).mp heq

/-- A path from the head to a method is no shorter than some path to one that comes no later. -/
theorem exists_path_le (hfirst : FirstCome graph seed listed)
    (h : Segment graph listed earlier head tail) {a b : Nat} (ha : a ∈ head :: tail)
    (hb : b ∈ head :: tail) (hle : listed.idxOf a ≤ listed.idxOf b)
    (hpath : graph.Path head length b) : ∃ shorter ≤ length, graph.Path head shorter a := by
  induction hpath generalizing a with
  | start =>
      obtain rfl := h.eq_head_of_idxOf_le ha hle
      exact ⟨0, Nat.le_refl _, .start⟩
  | @step length mid b hpath hcalls ih =>
      rcases List.mem_cons.mp ha with rfl | hatail
      · exact ⟨0, Nat.zero_le _, .start⟩
      rcases List.mem_cons.mp hb with rfl | hbtail
      · obtain rfl := h.eq_head_of_idxOf_le ha hle
        exact ⟨0, Nat.zero_le _, .start⟩
      rcases Nat.lt_or_eq_of_le hle with hlt | heq
      · -- the callers that find the two methods come in this order, and the one on the path is no
        -- earlier than the second of them
        obtain ⟨p, hp, hpfirst, -⟩ := h.exists_caller hatail
        obtain ⟨q, -, hqfirst, -⟩ := h.exists_caller hbtail
        have hmid : mid ∈ head :: tail :=
          h.mem_iff.mpr ⟨⟨length, hpath⟩, h.caller_not_mem_earlier hb hcalls⟩
        have hqmid : listed.idxOf q ≤ listed.idxOf mid :=
          hqfirst.2.2 mid (h.mem_listed hmid) hcalls
        have hpq : listed.idxOf p ≤ listed.idxOf q := by
          rcases (hfirst.idxOf_lt_iff (h.called a hatail) (h.called b hbtail) hpfirst hqfirst).mp hlt
            with hbefore | ⟨rfl, -⟩
          · exact Nat.le_of_lt hbefore
          · exact Nat.le_refl _
        obtain ⟨shorter, hshorter, hpath⟩ := ih hp hmid (Nat.le_trans hpq hqmid)
        exact ⟨shorter + 1, Nat.succ_le_succ hshorter, .step hpath hpfirst.2.1⟩
      · obtain rfl := (List.idxOf_inj (h.mem_listed ha)).mp heq
        exact ⟨length + 1, Nat.le_refl _, .step hpath hcalls⟩

/-- Distances from the head do not decrease. -/
theorem exists_distance (hfirst : FirstCome graph seed listed)
    (h : Segment graph listed earlier head tail) :
    ∃ distance : Nat → Nat, (∀ id ∈ head :: tail, graph.IsDistance head id (distance id)) ∧
      (head :: tail).Pairwise fun a b => distance a ≤ distance b := by
  have hexists : ∀ id, ∃ distance, id ∈ head :: tail → graph.IsDistance head id distance := by
    intro id
    by_cases hid : id ∈ head :: tail
    · obtain ⟨distance, hdistance⟩ := exists_isDistance (h.exists_path hid)
      exact ⟨distance, fun _ => hdistance⟩
    · exact ⟨0, fun hmem => absurd hmem hid⟩
  choose distance hdistance using hexists
  refine ⟨distance, hdistance, ?_⟩
  obtain ⟨rest, hsplit⟩ := h.split
  have hsub : (head :: tail).Sublist listed := by
    rw [hsplit]
    exact (List.sublist_append_right _ _).trans (List.sublist_append_left _ _)
  refine ((pairwise_idxOf h.order.nodup).sublist hsub).imp_of_mem ?_
  intro a b ha hb hlt
  obtain ⟨shorter, hshorter, hpath⟩ :=
    h.exists_path_le hfirst ha hb (Nat.le_of_lt hlt) (hdistance b hb).1
  exact Nat.le_trans ((hdistance a ha).2 hpath) hshorter

end Segment

/-! ## Blocks -/

/-- The block comes after the earlier methods: it begins with the seed or else with the first declared
method that is not among them, it is what is reached from there and is not among them either, and
it goes from near to far. -/
structure IsBlock (graph : CallGraph) (seed : Nat) (earlier block : List Nat) (head : Nat) :
    Prop where
  starts : block.head? = some head
  first : earlier = [] → head = seed
  later : earlier ≠ [] → IsLeast {id | id < graph.size ∧ id ∉ earlier} head
  mem_iff : ∀ id, id ∈ block ↔ graph.Reaches head id ∧ id ∉ earlier
  distances : ∃ distance : Nat → Nat, (∀ id ∈ block, graph.IsDistance head id (distance id)) ∧
    block.Pairwise fun a b => distance a ≤ distance b

/-- After methods that call nothing else, a block begins. -/
theorem FirstCome.begins (h : FirstCome graph seed listed)
    (hsplit : listed = earlier ++ head :: after) (hclosed : Closed graph earlier) :
    Begins graph seed earlier head := by
  refine (h.origin earlier head after hsplit).resolve_left ?_
  rintro ⟨caller, hcaller, hcalls⟩
  exact not_mem_of_split (hsplit ▸ h.order.nodup) (hclosed caller hcaller head hcalls)

theorem FirstCome.isBlock (h : FirstCome graph seed listed)
    (hbegins : Begins graph seed earlier head) (hsegment : Segment graph listed earlier head tail) :
    IsBlock graph seed earlier (head :: tail) head where
  starts := rfl
  first := hbegins.first
  later := hbegins.later
  mem_iff := fun _ => hsegment.mem_iff
  distances := hsegment.exists_distance h

/-- What comes after methods that call nothing else falls into blocks. -/
theorem FirstCome.exists_blocks (wf : graph.WellFormed) (h : FirstCome graph seed listed)
    (hsplit : listed = earlier ++ rest) (hclosed : Closed graph earlier) :
    ∃ blocks : List (List Nat), rest = blocks.flatten ∧
      ∀ before block after, blocks = before ++ block :: after →
        ∃ head, IsBlock graph seed (earlier ++ before.flatten) block head := by
  -- on the number of methods that follow, as a block takes any number of them
  induction hlength : rest.length using Nat.strong_induction_on generalizing earlier rest with
  | _ length ih =>
      cases rest with
      | nil => exact ⟨[], rfl, by simp⟩
      | cons head after =>
          obtain ⟨tail, rest, rfl, hsegment⟩ := h.exists_segment wf hsplit hclosed
          have hparts : listed = (earlier ++ head :: tail) ++ rest := by simp [hsplit]
          have hshorter : rest.length < length := by
            rw [← hlength, List.length_cons, List.length_append]
            omega
          obtain ⟨blocks, rfl, hblocks⟩ := ih _ hshorter hparts hsegment.closed rfl
          refine ⟨(head :: tail) :: blocks, rfl, ?_⟩
          intro before block after hbefore
          cases before with
          | nil =>
              obtain ⟨rfl, -⟩ := List.cons.inj hbefore
              rw [List.flatten_nil, List.append_nil]
              exact ⟨head, h.isBlock (h.begins hsplit hclosed) hsegment⟩
          | cons other before =>
              obtain ⟨rfl, hrest⟩ := List.cons.inj hbefore
              rw [List.flatten_cons, ← List.append_assoc]
              exact hblocks before block after hrest

/-! ## Results -/

/-- **Blocks**: breadth first from a seed, all methods are listed, each of them once, in blocks. The
first block begins with the seed and a later one with the first declared method that is not listed
before it. A block is what is reached from its first method and is not in an earlier block, and in it
the distance from the first method never decreases. -/
theorem breadthFirst_splits_into_blocks
    (built : Outline.ofDeclaration declaration = .ok outline) (calls : List Call)
    (reached : Reachable (CallGraph.ofCalls outline calls) arrangement)
    (hseed : seed < arrangement.size) :
    let graph := CallGraph.ofCalls outline calls
    graph.IsOrder (breadthFirst arrangement seed) ∧
      ∃ blocks : List (List Nat), breadthFirst arrangement seed = blocks.flatten ∧
        ∀ before block after, blocks = before ++ block :: after →
          ∃ head, block.head? = some head ∧
            (before = [] → head = seed) ∧
            (before ≠ [] → IsLeast {id | id < graph.size ∧ id ∉ before.flatten} head) ∧
            (∀ id, id ∈ block ↔ graph.Reaches head id ∧ id ∉ before.flatten) ∧
            ∃ distance : Nat → Nat, (∀ id ∈ block, graph.IsDistance head id (distance id)) ∧
              block.Pairwise fun a b => distance a ≤ distance b := by
  intro graph
  have wf : graph.WellFormed :=
    CallGraph.wellFormed_ofCalls (Outline.numbered_of_ofDeclaration built) calls
  have hfirst := firstCome_of_reachable wf reached hseed
  obtain ⟨blocks, hblocks, hall⟩ :=
    hfirst.exists_blocks wf (List.nil_append _).symm (by simp [Closed])
  refine ⟨hfirst.order, blocks, hblocks, ?_⟩
  intro before block after hsplit
  obtain ⟨head, hblock⟩ := hall before block after hsplit
  rw [List.nil_append] at hblock
  refine ⟨head, hblock.starts, ?_, ?_, hblock.mem_iff, hblock.distances⟩
  · rintro rfl
    exact hblock.first rfl
  · -- no block is empty, so the methods before a later block are not none
    intro hne
    refine hblock.later fun hnil => ?_
    obtain ⟨other, before, rfl⟩ := List.exists_cons_of_ne_nil hne
    obtain ⟨start, hother⟩ := hall [] other (before ++ block :: after) hsplit
    rw [List.flatten_cons, List.append_eq_nil_iff] at hnil
    simpa [hnil.1] using hother.starts

theorem dependencies_switchboard :
    switchboardGraph.dependenciesOf 1 = [2, 3] ∧ switchboardGraph.dependenciesOf 2 = [0, 3] ∧
      switchboardGraph.dependenciesOf 3 = [3] ∧ switchboardGraph.dependenciesOf 0 = [2, 1] := by
  rw [switchboardGraph_eq]
  decide +kernel

/-- From `connect`, the first block is the four methods that are reached from there. It ends before
`audit`, which calls one of them. -/
theorem blocks_switchboard :
    let start := ofOrder switchboardGraph [5, 4, 3, 2, 1, 0]
    Reachable switchboardGraph start ∧ 1 < start.size ∧
      ∃ block blocks, breadthFirst start 1 = block ++ List.flatten blocks ∧
        ∀ id, id ∈ block ↔ id ∈ [1, 2, 3, 0] := by
  have reached : Reachable switchboardGraph (ofOrder switchboardGraph [5, 4, 3, 2, 1, 0]) :=
    reachable_ofOrder (by decide)
  obtain ⟨hconnect, hhold, hhangUp, hring⟩ := dependencies_switchboard
  have hclosed : Closed switchboardGraph [1, 2, 3, 0] := by
    simp [Closed, hconnect, hhold, hhangUp, hring]
  have hpaths : ∀ id ∈ [1, 2, 3, 0], switchboardGraph.Reaches 1 id := by
    rw [List.forall_mem_cons, List.forall_mem_cons, List.forall_mem_cons, List.forall_mem_singleton]
    have hfirst : switchboardGraph.Path 1 1 2 := .step .start (by simp [hconnect])
    exact ⟨⟨0, .start⟩, ⟨1, hfirst⟩, ⟨1, .step .start (by simp [hconnect])⟩,
      ⟨2, .step hfirst (by simp [hhold])⟩⟩
  obtain ⟨-, blocks, hflatten, hblocks⟩ :=
    breadthFirst_splits_into_blocks switchboard_built switchboardCalls reached
      (show 1 < 6 by decide)
  refine ⟨reached, by decide, ?_⟩
  cases blocks with
  | nil =>
      rw [breadthFirst_switchboard] at hflatten
      contradiction
  | cons block blocks =>
      obtain ⟨head, -, hseed, -, hmem, -⟩ := hblocks [] block blocks rfl
      obtain rfl := hseed rfl
      refine ⟨block, blocks, hflatten, fun id => (hmem id).trans ⟨?_, ?_⟩⟩
      · rintro ⟨⟨length, hpath⟩, -⟩
        exact hclosed.mem_of_path List.mem_cons_self hpath
      · exact fun hid => ⟨hpaths id hid, List.not_mem_nil⟩

end Proposal

end ClassLayout

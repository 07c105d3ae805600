import Mathlib.Data.List.Perm.Basic

/-!
# ClassLayout.Proofs.Plumbing

Facts of lists and of computations that may fail, proved once so that the proofs about classes never
redo them.
-/

namespace ClassLayout

/-! ## Computations that may fail -/

/-- A sequence of two steps succeeds exactly if the first one does and the second one does after it.
-/
theorem bind_eq_ok {x : Except ε α} {f : α → Except ε β} {b : β} :
    x >>= f = .ok b ↔ ∃ a, x = .ok a ∧ f a = .ok b := by
  cases x with
  | error e => simp [bind, Except.bind]
  | ok a => simp [bind, Except.bind]

/-- If every step of a fold succeeds and keeps a property, then the fold does. -/
theorem foldlM_preserves {l : List α} {f : β → α → Except ε β} (P : β → Prop)
    (step : ∀ b, P b → ∀ a ∈ l, ∃ b', f b a = .ok b' ∧ P b') (hb : P b) :
    ∃ b', l.foldlM f b = .ok b' ∧ P b' := by
  induction l generalizing b with
  | nil => exact ⟨b, rfl, hb⟩
  | cons a l ih =>
      obtain ⟨b', hstep, hb'⟩ := step b hb a List.mem_cons_self
      obtain ⟨b'', hrest, hb''⟩ :=
        ih (fun b hb a ha => step b hb a (List.mem_cons_of_mem _ ha)) hb'
      refine ⟨b'', ?_, hb''⟩
      rw [List.foldlM_cons, bind_eq_ok]
      exact ⟨b', hstep, hrest⟩

/-- A fold does the same to what is mapped, if each of its steps does. -/
theorem foldlM_map_state {l : List α} {f : β → α → Except ε β} {g : γ → α → Except ε γ}
    (hom : β → γ) (step : ∀ b, ∀ a ∈ l, g (hom b) a = (f b a).map hom) (b : β) :
    l.foldlM g (hom b) = (l.foldlM f b).map hom := by
  induction l generalizing b with
  | nil => rfl
  | cons a l ih =>
      rw [List.foldlM_cons, List.foldlM_cons, step b a List.mem_cons_self]
      cases f b a with
      | error e => rfl
      | ok b' => exact ih (fun b a ha => step b a (List.mem_cons_of_mem _ ha)) b'

/-! ## Repetitions -/

/-- Nothing is repeated once repetitions are erased. -/
theorem nodup_eraseDups [BEq α] [LawfulBEq α] : (l : List α) → l.eraseDups.Nodup
  | [] => by simp
  | a :: l => by
      rw [List.eraseDups_cons, List.nodup_cons]
      constructor
      · rw [List.mem_eraseDups]
        simp
      · exact nodup_eraseDups _
termination_by l => l.length
decreasing_by exact Nat.lt_succ_of_le (List.length_filter_le _ _)

/-- Leaving out others does not change which of two members comes first. -/
theorem idxOf_lt_of_filter [BEq α] [LawfulBEq α] {l : List α} {p : α → Bool} (ha : p a = true)
    (hb : p b = true) (h : (l.filter p).idxOf a < (l.filter p).idxOf b) :
    l.idxOf a < l.idxOf b := by
  induction l with
  | nil => simp at h
  | cons c l ih =>
      by_cases hc : p c = true
      · rw [List.filter_cons_of_pos hc] at h
        simp only [List.idxOf_cons] at h ⊢
        grind
      · rw [List.filter_cons_of_neg hc] at h
        simp only [List.idxOf_cons]
        grind

/-- What is left when repetitions are erased comes in the order of the first occurrences. -/
theorem pairwise_idxOf_eraseDups [BEq α] [LawfulBEq α] : (l : List α) →
    l.eraseDups.Pairwise fun a b => l.idxOf a < l.idxOf b
  | [] => by simp
  | a :: l => by
      have ih := pairwise_idxOf_eraseDups (l.filter fun b => !b == a)
      have hrest : ∀ b ∈ (l.filter fun b => !b == a).eraseDups, (!b == a) = true := by
        intro b hb
        rw [List.mem_eraseDups] at hb
        exact (List.mem_filter.mp hb).2
      rw [List.eraseDups_cons, List.pairwise_cons]
      constructor
      · intro b hb
        have hne := hrest b hb
        simp only [List.idxOf_cons]
        grind
      · refine ih.imp_of_mem ?_
        intro b c hb hc hlt
        have hlt := idxOf_lt_of_filter (p := fun b => !b == a) (hrest b hb) (hrest c hc) hlt
        have hb := hrest b hb
        have hc := hrest c hc
        simp only [List.idxOf_cons]
        grind
termination_by l => l.length
decreasing_by exact Nat.lt_succ_of_le (List.length_filter_le _ _)

/-- Members of a list, each given once, are what a filter finds of them. -/
theorem perm_filter_contains [BEq α] [LawfulBEq α] {taken l : List α} (htaken : taken.Nodup)
    (hl : l.Nodup) (hsub : ∀ a ∈ taken, a ∈ l) : taken.Perm (l.filter taken.contains) := by
  rw [List.perm_ext_iff_of_nodup htaken (hl.filter _)]
  intro a
  rw [List.mem_filter, List.contains_iff_mem]
  exact ⟨fun h => ⟨hsub a h, h⟩, fun h => h.2⟩

/-- Members that are taken out of a list and put before the rest leave a rearrangement of it. -/
theorem append_filter_perm [BEq α] [LawfulBEq α] {taken l : List α} (htaken : taken.Nodup)
    (hl : l.Nodup) (hsub : ∀ a ∈ taken, a ∈ l) :
    (taken ++ l.filter fun a => !taken.contains a).Perm l :=
  ((perm_filter_contains htaken hl hsub).append_right _).trans (List.filter_append_perm _ l)

/-! ## What comes first -/

/-- A member does not stand in front of itself. -/
theorem not_mem_of_split {before after : List α} {a : α} (h : (before ++ a :: after).Nodup) :
    a ∉ before :=
  fun hmem => (List.nodup_append.mp h).2.2 a hmem a List.mem_cons_self rfl

/-- What is in the first part of a list comes before what is in the second part only. -/
theorem idxOf_lt_of_append [BEq α] [LawfulBEq α] {l front rest : List α} {a b : α}
    (hsplit : l = front ++ rest) (ha : a ∈ front) (hb : b ∉ front) : l.idxOf a < l.idxOf b := by
  rw [hsplit, List.idxOf_append_of_mem ha, List.idxOf_append_of_notMem hb]
  have hlt := List.idxOf_lt_length_of_mem ha
  omega

/-- What stands in front of a member has a smaller index. -/
theorem mem_before_iff [BEq α] [LawfulBEq α] {l before after : List α} {a b : α}
    (hsplit : l = before ++ a :: after) (hnodup : l.Nodup) :
    b ∈ before ↔ l.idxOf b < l.idxOf a := by
  have ha : a ∉ before := not_mem_of_split (hsplit ▸ hnodup)
  refine ⟨fun hb => idxOf_lt_of_append hsplit hb ha, ?_⟩
  intro hlt
  by_contra hb
  rw [hsplit, List.idxOf_append_of_notMem ha, List.idxOf_append_of_notMem hb,
    List.idxOf_cons_self] at hlt
  omega

/-- What stands behind a member has a larger index. -/
theorem mem_after_iff [BEq α] [LawfulBEq α] {l before after : List α} {a b : α}
    (hsplit : l = before ++ a :: after) (hnodup : l.Nodup) :
    b ∈ after ↔ b ∈ l ∧ l.idxOf a < l.idxOf b := by
  constructor
  · intro hb
    have hfront : l = (before ++ [a]) ++ after := by simp [hsplit]
    have hbefore : b ∉ before ++ [a] := by grind
    exact ⟨by simp [hsplit, hb], idxOf_lt_of_append hfront (by simp) hbefore⟩
  · rintro ⟨hb, hlt⟩
    have hbefore : b ∉ before := by
      rw [mem_before_iff hsplit hnodup]
      omega
    have hne : b ≠ a := by
      rintro rfl
      exact Nat.lt_irrefl _ hlt
    grind

/-- The members come in the order of their indices. -/
theorem pairwise_idxOf [BEq α] [LawfulBEq α] {l : List α} (hnodup : l.Nodup) :
    l.Pairwise fun a b => l.idxOf a < l.idxOf b := by
  rw [List.pairwise_iff_getElem]
  intro i j hi hj hlt
  rwa [hnodup.idxOf_getElem i hi, hnodup.idxOf_getElem j hj]

/-- Which of two members comes first stays the same when others are left out. -/
theorem idxOf_filter_lt [BEq α] [LawfulBEq α] {l : List α} {p : α → Bool} (ha : p a = true)
    (hb : p b = true) (hmem : a ∈ l) (h : l.idxOf a < l.idxOf b) :
    (l.filter p).idxOf a < (l.filter p).idxOf b := by
  rcases Nat.lt_trichotomy ((l.filter p).idxOf a) ((l.filter p).idxOf b) with hlt | heq | hgt
  · exact hlt
  · rw [(List.idxOf_inj (List.mem_filter.mpr ⟨hmem, ha⟩)).mp heq] at h
    exact absurd h (Nat.lt_irrefl _)
  · exact absurd h (Nat.lt_asymm (idxOf_lt_of_filter hb ha hgt))

/-! ## Members by their indices -/

/-- What stands at an index has that index, if nothing is repeated. -/
theorem idxOf_of_getElem? [BEq α] [LawfulBEq α] {l : List α} (hnodup : l.Nodup)
    (h : l[i]? = some a) : l.idxOf a = i := by
  obtain ⟨hlt, rfl⟩ := List.getElem?_eq_some_iff.mp h
  exact hnodup.idxOf_getElem i hlt

theorem idxOf_range (h : a < n) : (List.range n).idxOf a = a :=
  idxOf_of_getElem? List.nodup_range (by simp [h])

/-- A filter that drops nothing keeps every index. -/
theorem getElem?_filterMap_of_isSome {l : List α} {f : α → Option β}
    (h : ∀ a ∈ l, (f a).isSome = true) (i : Nat) : (l.filterMap f)[i]? = l[i]?.bind f := by
  induction l generalizing i with
  | nil => simp
  | cons a l ih =>
      obtain ⟨b, hb⟩ := Option.isSome_iff_exists.mp (h a List.mem_cons_self)
      rw [List.filterMap_cons_some hb]
      cases i with
      | zero => simp [hb]
      | succ i =>
          rw [List.getElem?_cons_succ, List.getElem?_cons_succ]
          exact ih (fun a ha => h a (List.mem_cons_of_mem _ ha)) i

/-- Two members pass a test that the one at an index passes exactly if one at another index does. -/
theorem one_lt_countP_iff {l : List α} {p : α → Bool} {i : Nat} (h : l[i]? = some a)
    (ha : p a = true) :
    1 < l.countP p ↔ ∃ j b, j ≠ i ∧ l[j]? = some b ∧ p b = true := by
  obtain ⟨hlt, rfl⟩ := List.getElem?_eq_some_iff.mp h
  have hcount : l.countP p = (l.eraseIdx i).countP p + 1 := by
    have hperm := List.getElem_cons_eraseIdx_perm hlt
    rw [← hperm.countP_eq, List.countP_cons_of_pos ha]
  rw [hcount, Nat.lt_add_left_iff_pos, List.countP_pos_iff]
  simp only [List.mem_eraseIdx_iff_getElem?]
  constructor
  · rintro ⟨b, ⟨j, hne, hj⟩, hb⟩
    exact ⟨j, b, hne, hj, hb⟩
  · rintro ⟨j, b, hne, hj, hb⟩
    exact ⟨b, ⟨j, hne, hj⟩, hb⟩

/-! ## Tables of lists -/

/-- Tables of one size are the same if each list in them is. -/
theorem array_eq_of_getD {table other : Array (List α)} (hsize : table.size = other.size)
    (h : ∀ i : Nat, table[i]?.getD [] = other[i]?.getD []) : table = other := by
  refine Array.ext hsize ?_
  intro i hi hi'
  have hentry := h i
  rwa [Array.getElem?_eq_getElem hi, Array.getElem?_eq_getElem hi', Option.getD_some,
    Option.getD_some] at hentry

/-! ## Keys -/

/-- Members that are put together key by key are all members with these keys. -/
theorem flatMap_filter_perm (key : α → Nat) (l : List α) (n : Nat) :
    ((List.range n).flatMap fun k => l.filter fun a => key a == k).Perm
      (l.filter fun a => key a < n) := by
  induction n with
  | zero => simp
  | succ n ih =>
      have hbelow : (l.filter fun a => key a < n + 1).filter (fun a => key a < n) =
          l.filter fun a => key a < n := by
        rw [List.filter_filter]
        refine List.filter_congr fun a _ => ?_
        grind
      have hlast : (l.filter fun a => key a < n + 1).filter (fun a => !decide (key a < n)) =
          l.filter fun a => key a == n := by
        rw [List.filter_filter]
        refine List.filter_congr fun a _ => ?_
        grind
      have hsplit := List.filter_append_perm (fun a => decide (key a < n))
        (l.filter fun a => key a < n + 1)
      rw [hbelow, hlast] at hsplit
      rw [List.range_succ, List.flatMap_append, List.flatMap_singleton]
      exact (ih.append_right _).trans hsplit

/-! ## Replacing one member of a list -/

/- Two proposals put a block in the place of one method, the pivot, and drop the methods that have
moved into the block. -/

/-- A list in which a block stands for the pivot and some other members are dropped. -/
theorem flatMap_pivot {f : α → List α} {p : α → Bool} (hpivot : f pivot = block)
    (hother : ∀ a ≠ pivot, f a = if p a then [] else [a])
    (hnodup : (before ++ pivot :: after).Nodup) :
    (before ++ pivot :: after).flatMap f =
      before.filter (fun a => !p a) ++ (block ++ after.filter fun a => !p a) := by
  have hkeep : ∀ l : List α, pivot ∉ l → l.flatMap f = l.filter fun a => !p a := by
    intro l hl
    induction l with
    | nil => rfl
    | cons a l ih =>
        rw [List.mem_cons, not_or] at hl
        rw [List.flatMap_cons, hother a (Ne.symm hl.1), ih hl.2]
        cases hp : p a with
        | true => simp [hp]
        | false => simp [hp]
  obtain ⟨-, hafter, -⟩ := List.nodup_append.mp hnodup
  rw [List.flatMap_append, List.flatMap_cons, hpivot, hkeep before (not_mem_of_split hnodup),
    hkeep after (List.nodup_cons.mp hafter).1]

/-- Nothing is lost if the block holds the pivot and what is dropped. -/
theorem perm_of_block_perm [BEq α] [LawfulBEq α] {before after block : List α} {p : α → Bool}
    (hblock : block.Perm (pivot :: (before.filter p ++ after.filter p))) :
    (before.filter (fun a => !p a) ++ (block ++ after.filter fun a => !p a)).Perm
      (before ++ pivot :: after) := by
  rw [List.perm_iff_count]
  intro a
  have hcount := hblock.count_eq a
  have hbefore := (List.filter_append_perm p before).count_eq a
  have hafter := (List.filter_append_perm p after).count_eq a
  simp only [List.count_append, List.count_cons] at hcount hbefore hafter ⊢
  omega

end ClassLayout

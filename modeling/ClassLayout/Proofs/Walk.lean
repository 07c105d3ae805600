import ClassLayout.Proofs.Arrangement
import ClassLayout.Proposal

/-!
# ClassLayout.Proofs.Walk

A walk marks the methods that it has met in a table, and looks for the next one that is left from the
place where it found the last one. The same can be told with a list of the methods that are left, in
the order of declaration: `visit`.

`Walk.left` reads that list off the table. Meeting methods takes them from the list
(`Walk.left_meets`) and puts those in the queue that were there (`Walk.queue_meets`). What the walk
goes on with, when the queue is empty, is the head of the list (`Walk.next?_of_nil`), as nothing
before the place where it looks is left. So both list the same methods (`breadthFirst_eq_visit`).
-/

namespace ClassLayout.Proposal

variable {graph : CallGraph} {arrangement : Arrangement} {walk : Walk} {id : Nat}
  {ids pending : List Nat}

/-! ## A walk without a table -/

/-- The next method: from the queue, or else the first of those that are left. -/
def next? : (queue pending : List Nat) → Option (Nat × List Nat × List Nat)
  | id :: queue, pending => some (id, queue, pending)
  | [], id :: pending => some (id, [], pending)
  | [], [] => none

/-- List so many methods, starting with the queue. `pending` holds the methods that are neither listed
nor queued, in the order of declaration. -/
def visit (graph : CallGraph) : (count : Nat) → (queue pending : List Nat) → List Nat
  | 0, _, _ => []
  | count + 1, queue, pending =>
    match next? queue pending with
    | none => []
    | some (id, queue, pending) =>
      let found := (graph.dependenciesOf id).filter pending.contains
      id :: visit graph count (queue ++ found) (pending.filter fun other => !found.contains other)

namespace Walk

/-- The methods that have not been met, in the order of declaration. -/
def left (walk : Walk) : List Nat :=
  (List.range walk.visited.size).filter fun id => walk.visited[id]? = some false

/-- Nothing is left before the place where the walk looks for more. -/
def Sound (walk : Walk) : Prop :=
  ∀ id ∈ walk.left, walk.restart ≤ id

theorem mem_left : id ∈ walk.left ↔ walk.visited[id]? = some false := by
  rw [left, List.mem_filter, List.mem_range, decide_eq_true_eq, and_iff_right_iff_imp]
  intro h
  exact (Array.getElem?_eq_some_iff.mp h).1

/-! ## Meeting methods -/

/-- A method that is marked is left no longer. -/
theorem left_mark (walk : Walk) (id : Nat) (queue : List Nat) (restart : Nat) :
    left { queue, visited := walk.visited.setIfInBounds id true, restart } =
      walk.left.filter (· ≠ id) := by
  rw [left, left, Array.size_setIfInBounds, List.filter_filter]
  refine List.filter_congr fun other _ => ?_
  rw [Array.getElem?_setIfInBounds]
  grind

theorem left_meet (walk : Walk) (id : Nat) :
    (walk.meet id).left = walk.left.filter (· ≠ id) := by
  unfold meet
  split
  · exact left_mark walk id _ _
  · next hmet =>
    symm
    rw [List.filter_eq_self]
    rintro other hother
    rw [decide_eq_true_eq]
    rintro rfl
    exact hmet (mem_left.mp hother)

theorem queue_meet (walk : Walk) (id : Nat) :
    (walk.meet id).queue = walk.queue ++ [id].filter walk.left.contains := by
  unfold meet
  split
  · next hleft => simp [mem_left.mpr hleft]
  · next hmet => simp [mem_left, hmet]

theorem restart_meet (walk : Walk) (id : Nat) : (walk.meet id).restart = walk.restart := by
  unfold meet
  split <;> rfl

/-- Methods that are met are left no longer. -/
theorem left_meets (walk : Walk) (ids : List Nat) :
    (ids.foldl meet walk).left = walk.left.filter (· ∉ ids) := by
  induction ids generalizing walk with
  | nil => simp
  | cons id ids ih =>
      rw [List.foldl_cons, ih, left_meet, List.filter_filter]
      refine List.filter_congr fun other _ => ?_
      simp [Bool.and_comm]

/-- Those of them that were left come into the queue. -/
theorem queue_meets (walk : Walk) (hids : ids.Nodup) :
    (ids.foldl meet walk).queue = walk.queue ++ ids.filter walk.left.contains := by
  induction ids generalizing walk with
  | nil => simp
  | cons id ids ih =>
      rw [List.nodup_cons] at hids
      have hrest : ids.filter (walk.left.filter (· ≠ id)).contains =
          ids.filter walk.left.contains := by
        refine List.filter_congr fun other hother => ?_
        have hne : other ≠ id := fun hsame => hids.1 (hsame ▸ hother)
        simp [hne]
      rw [List.foldl_cons, ih _ hids.2, queue_meet, left_meet, hrest, List.append_assoc,
        ← List.filter_append, List.singleton_append]

theorem restart_meets (walk : Walk) (ids : List Nat) :
    (ids.foldl meet walk).restart = walk.restart := by
  induction ids generalizing walk with
  | nil => rfl
  | cons id ids ih => rw [List.foldl_cons, ih, restart_meet]

theorem Sound.meets (h : walk.Sound) (ids : List Nat) : (ids.foldl meet walk).Sound := by
  intro id hid
  rw [left_meets] at hid
  rw [restart_meets]
  exact h id (List.mem_of_mem_filter hid)

/-! ## Looking for more -/

theorem unvisited?_eq_find? (visited : Array Bool) (count index : Nat) :
    unvisited? visited count index =
      (List.range' index count).find? fun id => visited[id]? = some false := by
  induction count generalizing index with
  | zero => rfl
  | succ count ih =>
      rw [unvisited?, List.range'_succ, List.find?_cons]
      split
      · next hleft => simp [hleft]
      · next hmet => simp [hmet, ih]

/-- What is found is the first method that is left. -/
theorem Sound.unvisited?_eq (h : walk.Sound) :
    unvisited? walk.visited (walk.visited.size - walk.restart) walk.restart = walk.left.head? := by
  rw [unvisited?_eq_find?, left, List.head?_filter]
  by_cases hrestart : walk.restart ≤ walk.visited.size
  · -- the first part of the table has nothing that is left
    have hsplit : List.range walk.visited.size = List.range walk.restart ++
        List.range' walk.restart (walk.visited.size - walk.restart) := by
      have happend := List.range'_append_1 (s := 0) (m := walk.restart)
        (n := walk.visited.size - walk.restart)
      rw [Nat.zero_add, Nat.add_sub_of_le hrestart] at happend
      rw [List.range_eq_range', List.range_eq_range', happend]
    have hnone : (List.range walk.restart).find? (fun id => walk.visited[id]? = some false) =
        none := by
      rw [List.find?_eq_none]
      intro id hid hleft
      have hle := h id (mem_left.mpr (of_decide_eq_true hleft))
      rw [List.mem_range] at hid
      omega
    rw [hsplit, List.find?_append, hnone, Option.none_or]
  · rw [show walk.visited.size - walk.restart = 0 by omega]
    symm
    rw [List.range'_zero, List.find?_nil, List.find?_eq_none]
    intro id hid hleft
    have hle := h id (mem_left.mpr (of_decide_eq_true hleft))
    rw [List.mem_range] at hid
    omega

theorem pairwise_left (walk : Walk) : walk.left.Pairwise (· < ·) :=
  List.pairwise_lt_range.filter _

/-- With nothing in the queue a walk goes on with the first method that is left. -/
theorem Sound.next?_of_nil (h : walk.Sound) (hqueue : walk.queue = [])
    (hleft : walk.left = id :: pending) :
    ∃ later : Walk, walk.next? = some (id, later) ∧ later.queue = [] ∧ later.left = pending ∧
      later.Sound := by
  have hsorted := walk.pairwise_left
  rw [hleft, List.pairwise_cons] at hsorted
  have hlater : walk.left.filter (· ≠ id) = pending := by
    rw [hleft, List.filter_cons_of_neg (by simp), List.filter_eq_self]
    intro other hother
    simpa using Nat.ne_of_gt (hsorted.1 other hother)
  refine ⟨{ walk with visited := walk.visited.setIfInBounds id true, restart := id }, ?_, hqueue,
    (left_mark walk id _ id).trans hlater, ?_⟩
  · simp only [next?, hqueue, h.unvisited?_eq, hleft, List.head?_cons, Option.map_some]
  · intro other hother
    rw [left_mark, hlater] at hother
    exact Nat.le_of_lt (hsorted.1 other hother)

/-! ## Both walks -/

/-- The walk lists the methods as it does without a table. -/
theorem list_eq_visit (wf : graph.WellFormed) (h : walk.Sound) :
    list graph count walk = visit graph count walk.queue walk.left := by
  induction count generalizing walk with
  | zero => rfl
  | succ count ih =>
      have hstep : ∀ (id : Nat) (later : Walk), later.Sound →
          list graph count ((graph.dependenciesOf id).foldl meet later) =
            let found := (graph.dependenciesOf id).filter later.left.contains
            visit graph count (later.queue ++ found)
              (later.left.filter fun other => !found.contains other) := by
        intro id later hlater
        rw [ih (hlater.meets _), queue_meets _ (wf.dependencies_nodup id), left_meets]
        dsimp only
        congr 1
        refine List.filter_congr fun other hother => ?_
        simp [hother]
      rw [list, visit]
      cases hqueue : walk.queue with
      | cons id queue =>
          rw [Walk.next?, hqueue]
          exact congrArg (id :: ·) (hstep id { walk with queue } h)
      | nil =>
          cases hleft : walk.left with
          | nil => rw [Walk.next?, hqueue, h.unvisited?_eq, hleft]; rfl
          | cons id pending =>
              obtain ⟨later, hnext, hempty, rfl, hsound⟩ := h.next?_of_nil hqueue hleft
              rw [hnext]
              refine congrArg (id :: ·) ((hstep id later hsound).trans ?_)
              rw [hempty]

theorem left_start (size seed : Nat) :
    (start size seed).left = (List.range size).erase seed := by
  have hall : left { queue := [seed], visited := Array.replicate size false, restart := 0 } =
      List.range size := by
    rw [left, Array.size_replicate, List.filter_eq_self]
    intro id hid
    rw [List.mem_range] at hid
    simp [hid]
  rw [start, left_mark { queue := [seed], visited := Array.replicate size false, restart := 0 },
    hall, List.nodup_range.erase_eq_filter]
  refine List.filter_congr fun other _ => ?_
  simp [bne, beq_eq_decide]

end Walk

/-- Breadth first, told without a table. -/
theorem breadthFirst_eq_visit (wf : arrangement.graph.WellFormed) (seed : Nat) :
    breadthFirst arrangement seed =
      visit arrangement.graph arrangement.size [seed] ((List.range arrangement.size).erase seed) := by
  have hsound : (Walk.start arrangement.size seed).Sound := fun id _ => Nat.zero_le id
  rw [breadthFirst, Walk.list_eq_visit wf hsound, Walk.left_start]
  rfl

end ClassLayout.Proposal

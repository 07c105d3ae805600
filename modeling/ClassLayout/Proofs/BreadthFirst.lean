import ClassLayout.Proofs.Proposal
import Mathlib.Order.Bounds.Basic
import Mathlib.Order.WellFounded

/-!
# ClassLayout.Proofs.BreadthFirst

In which order methods are listed breadth first.

1. `Stage graph seed listed queue pending` says what holds between two steps. Listing the front of
   the queue keeps it (`Stage.list`), and so does going on with the first method that is left
   (`Stage.restart`). So there is a stage in front of each method of the result
   (`exists_stage`), and what follows the method is the rest of the queue and then what it finds.
2. `FirstCome graph seed listed` is what this means for the result as a whole: a method comes after
   one that calls it, or else it is where a block begins; and methods come in the order in which they
   are found. Nothing else about the walk is needed (`breadthFirst_firstCome`).
-/

namespace ClassLayout.Proposal

open Arrangement

variable {graph : CallGraph} {seed id : Nat} {order listed queue pending before after : List Nat}

/-! ## Steps -/

/-- The methods that a method finds: its dependencies that are left, in the order of their
appearance. -/
def found (graph : CallGraph) (pending : List Nat) (id : Nat) : List Nat :=
  (graph.dependenciesOf id).filter pending.contains

/-- The methods that are left after a method has found its own. -/
def leftBy (graph : CallGraph) (pending : List Nat) (id : Nat) : List Nat :=
  pending.filter fun other => !(found graph pending id).contains other

theorem mem_found {other : Nat} :
    other ∈ found graph pending id ↔ other ∈ graph.dependenciesOf id ∧ other ∈ pending := by
  rw [found, List.mem_filter, List.contains_iff_mem]

theorem mem_leftBy {other : Nat} :
    other ∈ leftBy graph pending id ↔ other ∈ pending ∧ other ∉ graph.dependenciesOf id := by
  rw [leftBy, List.mem_filter, Bool.not_eq_true', ← Bool.not_eq_true, List.contains_iff_mem,
    mem_found]
  grind

theorem visit_cons (graph : CallGraph) (count id : Nat) (queue pending : List Nat) :
    visit graph (count + 1) (id :: queue) pending =
      id :: visit graph count (queue ++ found graph pending id) (leftBy graph pending id) := rfl

/-- With nothing in the queue the walk goes on as if the first method that is left were there. -/
theorem visit_nil (graph : CallGraph) (count id : Nat) (pending : List Nat) :
    visit graph count [] (id :: pending) = visit graph count [id] pending := by
  cases count with
  | zero => rfl
  | succ count => rfl

/-- What is in the queue is listed first. -/
theorem exists_visit_eq_append (graph : CallGraph) (queue more pending : List Nat)
    (hcount : queue.length ≤ count) :
    ∃ later, visit graph count (queue ++ more) pending = queue ++ later := by
  induction queue generalizing count more pending with
  | nil => exact ⟨_, rfl⟩
  | cons id queue ih =>
      rw [List.length_cons] at hcount
      obtain ⟨count, rfl⟩ : ∃ rest, count = rest + 1 := ⟨count - 1, by omega⟩
      obtain ⟨later, hlater⟩ :=
        ih (more ++ found graph pending id) (leftBy graph pending id) (Nat.le_of_succ_le_succ hcount)
      refine ⟨later, ?_⟩
      rw [List.cons_append, visit_cons, List.append_assoc, hlater, List.cons_append]

/-! ## Stages -/

/-- Whatever the methods call is among them. -/
def Closed (graph : CallGraph) (listed : List Nat) : Prop :=
  ∀ caller ∈ listed, ∀ callee ∈ graph.dependenciesOf caller, callee ∈ listed

/-- A block begins with the method: nothing more is to be found, and the method is the seed or, later
on, the first declared one that is not listed. -/
structure Begins (graph : CallGraph) (seed : Nat) (listed : List Nat) (id : Nat) : Prop where
  closed : Closed graph listed
  first : listed = [] → id = seed
  later : listed ≠ [] → IsLeast {other | other < graph.size ∧ other ∉ listed} id

/-- What holds between two steps: the methods listed so far, those in the queue and those that are
left. -/
structure Stage (graph : CallGraph) (seed : Nat) (listed queue pending : List Nat) : Prop where
  order : graph.IsOrder (listed ++ queue ++ pending)
  sorted : pending.Pairwise (· < ·)
  started : listed = [] → queue ≠ []
  /-- What a listed method calls is not left. -/
  closed : ∀ caller ∈ listed, ∀ callee ∈ graph.dependenciesOf caller, callee ∉ pending
  /-- What is in the queue is called by a listed method, unless a block begins with it. -/
  origin : (∀ id ∈ queue, ∃ caller ∈ listed, id ∈ graph.dependenciesOf caller) ∨
    ∃ id, queue = [id] ∧ Begins graph seed listed id

namespace Stage

theorem start (hseed : seed < graph.size) :
    Stage graph seed [] [seed] ((List.range graph.size).erase seed) where
  order := (List.perm_cons_erase (List.mem_range.mpr hseed)).symm
  sorted := List.pairwise_lt_range.sublist List.erase_sublist
  started := fun _ => List.cons_ne_nil _ _
  closed := by simp
  origin := .inr ⟨seed, rfl, by simp [Closed], fun _ => rfl, fun h => absurd rfl h⟩

/-- A method is listed, and what it finds joins the queue. -/
theorem list (wf : graph.WellFormed) (h : Stage graph seed listed (id :: queue) pending) :
    Stage graph seed (listed ++ [id]) (queue ++ found graph pending id)
      (leftBy graph pending id) where
  order := by
    have hpending : pending.Nodup := h.sorted.imp Nat.ne_of_lt
    have hfound := (found_perm wf hpending id).append_left (listed ++ id :: queue)
    refine List.Perm.trans ?_ h.order
    simpa [found, leftBy] using hfound
  sorted := h.sorted.filter _
  started := by simp
  closed := by
    intro caller hcaller callee hcallee hleft
    obtain ⟨hpending, hnot⟩ := mem_leftBy.mp hleft
    rcases List.mem_append.mp hcaller with hcaller | hcaller
    · exact h.closed caller hcaller callee hcallee hpending
    · rw [List.mem_singleton.mp hcaller] at hcallee
      exact hnot hcallee
  origin := by
    refine .inl fun other hother => ?_
    rcases List.mem_append.mp hother with hqueue | hfound
    · rcases h.origin with hcalled | ⟨head, hhead, -⟩
      · obtain ⟨caller, hcaller, hcalls⟩ := hcalled other (List.mem_cons_of_mem id hqueue)
        exact ⟨caller, List.mem_append_left _ hcaller, hcalls⟩
      · rw [(List.cons.inj hhead).2] at hqueue
        contradiction
    · exact ⟨id, List.mem_append_right _ List.mem_cons_self, (mem_found.mp hfound).1⟩

/-- With nothing in the queue a block begins with the first method that is left. -/
theorem restart (wf : graph.WellFormed) (h : Stage graph seed listed [] (id :: pending)) :
    Stage graph seed listed [id] pending where
  order := by simpa using h.order
  sorted := (List.pairwise_cons.mp h.sorted).2
  started := fun _ => List.cons_ne_nil _ _
  closed := fun caller hcaller callee hcallee hpending =>
    h.closed caller hcaller callee hcallee (List.mem_cons_of_mem id hpending)
  origin := by
    have hmem : ∀ other, other < graph.size ↔ other ∈ listed ∨ other ∈ id :: pending := by
      intro other
      rw [← h.order.mem_iff, List.append_nil, List.mem_append]
    have hid : id ∉ listed := by
      have hnodup := h.order.nodup
      rw [List.append_nil] at hnodup
      exact not_mem_of_split hnodup
    refine .inr ⟨id, rfl, ?_, fun hnil => absurd rfl (h.started hnil), fun _ => ⟨?_, ?_⟩⟩
    · intro caller hcaller callee hcallee
      refine ((hmem callee).mp (wf.dependencies_lt caller callee hcallee)).resolve_right ?_
      exact h.closed caller hcaller callee hcallee
    · exact ⟨(hmem id).mpr (.inr List.mem_cons_self), hid⟩
    · rintro other ⟨hlt, hother⟩
      rcases List.mem_cons.mp (((hmem other).mp hlt).resolve_left hother) with rfl | hpending
      · exact Nat.le_refl _
      · exact Nat.le_of_lt ((List.pairwise_cons.mp h.sorted).1 other hpending)

/-- As long as a method is not listed there is one that comes next: the front of the queue, or else
the first one that is left. -/
theorem exists_front (wf : graph.WellFormed) (h : Stage graph seed listed queue pending)
    (hcount : queue.length + pending.length = count + 1) :
    ∃ first queue' pending', Stage graph seed listed (first :: queue') pending' ∧
      queue'.length + pending'.length = count ∧
      visit graph (count + 1) queue pending = visit graph (count + 1) (first :: queue') pending' := by
  cases queue with
  | cons first queue =>
      rw [List.length_cons] at hcount
      exact ⟨first, queue, pending, h, by omega, rfl⟩
  | nil =>
      cases pending with
      | nil => contradiction
      | cons first pending =>
          rw [List.length_nil, List.length_cons] at hcount
          exact ⟨first, [], pending, h.restart wf, by rw [List.length_nil]; omega,
            visit_nil graph (count + 1) first pending⟩

/-- There is a stage in front of each method that a walk lists, and after the method come the rest of
the queue and what the method finds. -/
theorem exists_of_split (wf : graph.WellFormed) (h : Stage graph seed listed queue pending)
    (hcount : queue.length + pending.length = count)
    (hsplit : visit graph count queue pending = before ++ id :: after) :
    ∃ queue' pending' later, Stage graph seed (listed ++ before) (id :: queue') pending' ∧
      after = queue' ++ found graph pending' id ++ later := by
  induction count generalizing listed queue pending before with
  | zero => simp [visit] at hsplit
  | succ count ih =>
      obtain ⟨first, queue, pending, h, hcount, hvisit⟩ := h.exists_front wf hcount
      have hcount' : (queue ++ found graph pending first).length +
          (leftBy graph pending first).length = count := by
        have hperm := (found_perm wf (h.sorted.imp Nat.ne_of_lt) first).length_eq
        rw [List.length_append] at hperm ⊢
        rw [found, leftBy, found]
        omega
      rw [hvisit, visit_cons] at hsplit
      cases before with
      | nil =>
          obtain ⟨rfl, rfl⟩ := List.cons.inj hsplit
          have hqueue : (queue ++ found graph pending first).length ≤ count := by omega
          obtain ⟨later, hlater⟩ := exists_visit_eq_append graph
            (queue ++ found graph pending first) [] (leftBy graph pending first) hqueue
          rw [List.append_nil] at hlater ⊢
          exact ⟨queue, pending, later, h, hlater⟩
      | cons other before =>
          obtain ⟨rfl, htail⟩ := List.cons.inj hsplit
          have hrest := ih (h.list wf) hcount' htail
          rwa [List.append_assoc] at hrest

end Stage

/-- There is a stage in front of each method of the result. -/
theorem exists_stage (wf : graph.WellFormed) (horder : graph.IsOrder order)
    (hseed : seed < graph.size)
    (hsplit : breadthFirst (ofOrder graph order) seed = before ++ id :: after) :
    ∃ queue pending later, Stage graph seed before (id :: queue) pending ∧
      after = queue ++ found graph pending id ++ later := by
  rw [breadthFirst_eq_visit wf, size_ofOrder, horder.length_eq, graph_ofOrder] at hsplit
  refine (Stage.start hseed).exists_of_split wf ?_ hsplit
  rw [List.length_erase_of_mem (List.mem_range.mpr hseed), List.length_range, List.length_singleton]
  omega

/-! ## First come, first listed -/

/-- A caller of the method is listed before it. -/
def Preceded (graph : CallGraph) (listed : List Nat) (id : Nat) : Prop :=
  ∃ caller ∈ listed, id ∈ graph.dependenciesOf caller ∧ listed.idxOf caller < listed.idxOf id

instance (graph : CallGraph) (listed : List Nat) (id : Nat) :
    Decidable (Preceded graph listed id) :=
  inferInstanceAs (Decidable (∃ caller ∈ listed, _))

/-- The caller is the one of the method's callers that is listed earliest. -/
def EarliestCaller (graph : CallGraph) (listed : List Nat) (id caller : Nat) : Prop :=
  caller ∈ listed ∧ id ∈ graph.dependenciesOf caller ∧
    ∀ other ∈ listed, id ∈ graph.dependenciesOf other → listed.idxOf caller ≤ listed.idxOf other

instance (graph : CallGraph) (listed : List Nat) (id caller : Nat) :
    Decidable (EarliestCaller graph listed id caller) :=
  inferInstanceAs (Decidable (_ ∧ _))

/-- The first caller comes before the second; or they are one, and in it the first method appears
before the second. -/
def FoundBefore (graph : CallGraph) (listed : List Nat) (v w p q : Nat) : Prop :=
  listed.idxOf p < listed.idxOf q ∨
    p = q ∧ (graph.dependenciesOf p).idxOf v < (graph.dependenciesOf p).idxOf w

/-- Of the callers of a method one is listed earliest, and if any is listed before the method, this
one is. -/
theorem Preceded.exists_earliestCaller (h : Preceded graph listed id) :
    ∃ caller, EarliestCaller graph listed id caller ∧
      listed.idxOf caller < listed.idxOf id := by
  obtain ⟨caller, hcaller, hcalls, hlt⟩ := h
  obtain ⟨first, ⟨hfirst, hfirstcalls⟩, hmin⟩ := (measure listed.idxOf).wf.has_min
    {other | other ∈ listed ∧ id ∈ graph.dependenciesOf other} ⟨caller, hcaller, hcalls⟩
  have hearliest : ∀ other ∈ listed, id ∈ graph.dependenciesOf other →
      listed.idxOf first ≤ listed.idxOf other :=
    fun other hother hothercalls => Nat.not_lt.mp (hmin other ⟨hother, hothercalls⟩)
  exact ⟨first, ⟨hfirst, hfirstcalls, hearliest⟩,
    Nat.lt_of_le_of_lt (hearliest caller hcaller hcalls) hlt⟩

section Split

variable {caller v w : Nat} (h : Stage graph seed before (caller :: queue) pending)

include h

/-- A method that has a caller before it is among those that the earliest of them finds. -/
theorem Stage.mem_found (horder : graph.IsOrder listed) (hsplit : listed = before ++ caller :: after)
    (hid : id < graph.size) (hpreceded : Preceded graph listed id)
    (hcaller : EarliestCaller graph listed id caller) : id ∈ found graph pending caller := by
  obtain ⟨-, hcalls, hearliest⟩ := hcaller
  obtain ⟨other, hother, hothercalls, hlt⟩ := hpreceded
  have hlt := Nat.lt_of_le_of_lt (hearliest other hother hothercalls) hlt
  have hbefore := mem_before_iff (b := id) hsplit horder.nodup
  -- it is neither listed nor in the queue, since an earlier caller would have put it there
  have hlisted : id ∉ before := fun hmem => Nat.lt_asymm hlt (hbefore.mp hmem)
  have hself : id ≠ caller := by
    rintro rfl
    exact Nat.lt_irrefl _ hlt
  have hqueue : id ∉ queue := by
    intro hmem
    rcases h.origin with hcalled | ⟨head, hhead, -⟩
    · obtain ⟨earlier, hearlier, hearliercalls⟩ := hcalled id (List.mem_cons_of_mem caller hmem)
      have hle := hearliest earlier (hsplit ▸ List.mem_append_left _ hearlier) hearliercalls
      exact Nat.not_lt.mpr hle ((mem_before_iff hsplit horder.nodup).mp hearlier)
    · rw [(List.cons.inj hhead).2] at hmem
      contradiction
  have hmem := h.order.mem_iff.mpr hid
  simp only [List.mem_append, List.mem_cons, hlisted, hself, hqueue, false_or] at hmem
  exact Proposal.mem_found.mpr ⟨hcalls, hmem⟩

/-- What is found has not been listed and is not in the queue. -/
theorem Stage.not_mem_of_mem_found (hid : id ∈ found graph pending caller) :
    id ∉ before ++ caller :: queue := by
  intro hmem
  exact (List.nodup_append.mp h.order.nodup).2.2 id hmem id (Proposal.mem_found.mp hid).2 rfl

/-- What is found comes in the order in which it appears in the caller. -/
theorem Stage.idxOf_lt_of_mem_found
    (hsplit : listed = (before ++ caller :: queue) ++ (found graph pending caller ++ later))
    (hv : v ∈ found graph pending caller) (hw : w ∈ found graph pending caller)
    (hlt : (graph.dependenciesOf caller).idxOf v < (graph.dependenciesOf caller).idxOf w) :
    listed.idxOf v < listed.idxOf w := by
  rw [hsplit, List.idxOf_append_of_notMem (h.not_mem_of_mem_found hv),
    List.idxOf_append_of_notMem (h.not_mem_of_mem_found hw), List.idxOf_append_of_mem hv,
    List.idxOf_append_of_mem hw]
  refine Nat.add_lt_add_left ?_ _
  exact idxOf_filter_lt (List.mem_filter.mp hv).2 (List.mem_filter.mp hw).2
    (List.mem_filter.mp hv).1 hlt

end Split

/-- The methods are listed as they come: each of them after a caller or where a block begins, and in
the order in which the earliest callers find them. -/
structure FirstCome (graph : CallGraph) (seed : Nat) (listed : List Nat) : Prop where
  order : graph.IsOrder listed
  origin : ∀ before id after, listed = before ++ id :: after →
    (∃ caller ∈ before, id ∈ graph.dependenciesOf caller) ∨ Begins graph seed before id
  found : ∀ v w p q, Preceded graph listed v → Preceded graph listed w →
    EarliestCaller graph listed v p → EarliestCaller graph listed w q →
    FoundBefore graph listed v w p q → listed.idxOf v < listed.idxOf w

/-- Breadth first, methods are listed as they come. -/
theorem breadthFirst_firstCome (wf : graph.WellFormed) (horder : graph.IsOrder order)
    (hseed : seed < graph.size) :
    FirstCome graph seed (breadthFirst (ofOrder graph order) seed) where
  order := breadthFirst_isOrder wf horder hseed
  origin := by
    intro before id after hsplit
    obtain ⟨queue, pending, later, hstage, -⟩ := exists_stage wf horder hseed hsplit
    rcases hstage.origin with hcalled | ⟨head, hhead, hbegins⟩
    · exact .inl (hcalled id List.mem_cons_self)
    · rw [(List.cons.inj hhead).1]
      exact .inr hbegins
  found := by
    intro v w p q hv hw hp hq hfirst
    have hlisted := breadthFirst_isOrder wf horder hseed
    have hvlt : v < graph.size := wf.dependencies_lt p v hp.2.1
    have hwlt : w < graph.size := wf.dependencies_lt q w hq.2.1
    obtain ⟨before, after, hsplit⟩ := List.append_of_mem hq.1
    obtain ⟨queue, pending, later, hstage, rfl⟩ := exists_stage wf horder hseed hsplit
    have hparts : breadthFirst (ofOrder graph order) seed =
        (before ++ q :: queue) ++ (Proposal.found graph pending q ++ later) := by simp [hsplit]
    have hwfound := hstage.mem_found hlisted hsplit hwlt hw hq
    rcases hfirst with hlt | ⟨rfl, hlt⟩
    · -- what the earlier caller calls is listed or in the queue when the later one is listed
      have hpbefore : p ∈ before := (mem_before_iff hsplit hlisted.nodup).mpr hlt
      have hvpending := hstage.closed p hpbefore v hp.2.1
      have hvmem := (List.mem_append.mp (hstage.order.mem_iff.mpr hvlt)).resolve_right hvpending
      exact idxOf_lt_of_append hparts hvmem (hstage.not_mem_of_mem_found hwfound)
    · have hvfound := hstage.mem_found hlisted hsplit hvlt hv hp
      exact hstage.idxOf_lt_of_mem_found hparts hvfound hwfound hlt

/-- So they are from every arrangement that the search can come to. -/
theorem firstCome_of_reachable (wf : graph.WellFormed) (reached : Reachable graph arrangement)
    (hseed : seed < arrangement.size) : FirstCome graph seed (breadthFirst arrangement seed) := by
  obtain ⟨order, horder, rfl⟩ := reached.exists_order
  rw [size_ofOrder, horder.length_eq] at hseed
  exact breadthFirst_firstCome wf horder hseed

namespace FirstCome

variable {v w p q : Nat}

/-- Of two methods that have a caller before them, the one comes first that is found first. -/
theorem idxOf_lt_iff (h : FirstCome graph seed listed) (hv : Preceded graph listed v)
    (hw : Preceded graph listed w) (hp : EarliestCaller graph listed v p)
    (hq : EarliestCaller graph listed w q) :
    listed.idxOf v < listed.idxOf w ↔ FoundBefore graph listed v w p q := by
  refine ⟨fun hlt => ?_, h.found v w p q hv hw hp hq⟩
  have hback : ¬ FoundBefore graph listed w v q p :=
    fun hfound => Nat.lt_asymm hlt (h.found w v q p hw hv hq hp hfound)
  rw [FoundBefore, not_or] at hback
  rcases Nat.lt_trichotomy (listed.idxOf p) (listed.idxOf q) with hpq | hpq | hpq
  · exact .inl hpq
  · obtain rfl : p = q := (List.idxOf_inj hp.1).mp hpq
    refine .inr ⟨rfl, ?_⟩
    rcases Nat.lt_trichotomy ((graph.dependenciesOf p).idxOf v)
        ((graph.dependenciesOf p).idxOf w) with hvw | hvw | hvw
    · exact hvw
    · rw [(List.idxOf_inj hp.2.1).mp hvw] at hlt
      exact absurd hlt (Nat.lt_irrefl _)
    · exact absurd ⟨rfl, hvw⟩ hback.2
  · exact absurd hpq hback.1

/-- Any other method than the seed has a caller before it, unless it is the first declared one of
those that are not listed before it. -/
theorem preceded_or_isLeast (h : FirstCome graph seed listed) (hid : id < graph.size)
    (hne : id ≠ seed) :
    Preceded graph listed id ∨
      IsLeast {other | other < graph.size ∧ ¬ listed.idxOf other < listed.idxOf id} id := by
  obtain ⟨before, after, hsplit⟩ := List.append_of_mem (h.order.mem_iff.mpr hid)
  have hmem : ∀ other, other ∈ before ↔ listed.idxOf other < listed.idxOf id :=
    fun other => mem_before_iff hsplit h.order.nodup
  rcases h.origin before id after hsplit with ⟨caller, hcaller, hcalls⟩ | hbegins
  · exact .inl ⟨caller, hsplit ▸ List.mem_append_left _ hcaller, hcalls, (hmem caller).mp hcaller⟩
  · simp only [← hmem]
    exact .inr (hbegins.later fun hnil => hne (hbegins.first hnil))

end FirstCome

/-! ## Results -/

/-- **First come, first listed**: a method other than the seed comes after one of its callers, unless
it is the first declared one of those that are not listed before it. Of two methods that come after a
caller, the one comes first whose earliest caller does; and if one caller is the earliest of both, the
one that appears first in it. -/
theorem breadthFirst_first_come_first_listed
    (built : Outline.ofDeclaration declaration = .ok outline) (calls : List Call)
    (reached : Reachable (CallGraph.ofCalls outline calls) arrangement)
    (hseed : seed < arrangement.size) :
    let graph := CallGraph.ofCalls outline calls
    let listed := breadthFirst arrangement seed
    (∀ id < graph.size, id ≠ seed → Preceded graph listed id ∨
      IsLeast {other | other < graph.size ∧ ¬ listed.idxOf other < listed.idxOf id} id) ∧
    (∀ id, Preceded graph listed id → ∃ caller, EarliestCaller graph listed id caller) ∧
    ∀ v w p q, Preceded graph listed v → Preceded graph listed w →
      EarliestCaller graph listed v p → EarliestCaller graph listed w q →
      (listed.idxOf v < listed.idxOf w ↔
        listed.idxOf p < listed.idxOf q ∨
          p = q ∧ (graph.dependenciesOf p).idxOf v < (graph.dependenciesOf p).idxOf w) := by
  intro graph listed
  have wf : graph.WellFormed :=
    CallGraph.wellFormed_ofCalls (Outline.numbered_of_ofDeclaration built) calls
  have hfirst : FirstCome graph seed listed := firstCome_of_reachable wf reached hseed
  refine ⟨fun id hid => hfirst.preceded_or_isLeast hid, ?_, ?_⟩
  · intro id hpreceded
    obtain ⟨caller, hcaller, -⟩ := hpreceded.exists_earliestCaller
    exact ⟨caller, hcaller⟩
  · intro v w p q hv hw hp hq
    exact hfirst.idxOf_lt_iff hv hw hp hq

/-- A class for calls that run in circles. -/
def switchboard : ClassDeclaration where
  name := "Switchboard"
  methods := [
    { name := "ring", line := 1, endLine := 9 },
    { name := "connect", line := 10, endLine := 19 },
    { name := "hold", line := 20, endLine := 29 },
    { name := "hangUp", line := 30, endLine := 39 },
    { name := "bill", line := 40, endLine := 49 },
    { name := "audit", line := 50, endLine := 59 } ]

/-- The methods of it. -/
def switchboardOutline : Outline :=
  (Outline.ofDeclaration switchboard).toOption.getD default

theorem switchboard_built : Outline.ofDeclaration switchboard = .ok switchboardOutline := by rfl

/-- The first three methods call each other, and so do the last two; `hangUp` calls itself. -/
def switchboardCalls : List Call := [
  { site := 0, caller := 0, callee := 2, line := 2, column := 4 },
  { site := 1, caller := 0, callee := 1, line := 3, column := 4 },
  { site := 2, caller := 1, callee := 2, line := 11, column := 4 },
  { site := 3, caller := 1, callee := 3, line := 12, column := 4 },
  { site := 4, caller := 2, callee := 0, line := 21, column := 4 },
  { site := 5, caller := 2, callee := 3, line := 22, column := 4 },
  { site := 6, caller := 3, callee := 3, line := 31, column := 4 },
  { site := 7, caller := 4, callee := 5, line := 41, column := 4 },
  { site := 8, caller := 5, callee := 4, line := 51, column := 4 },
  { site := 9, caller := 5, callee := 1, line := 52, column := 4 } ]

/-- Which methods of it call which. -/
def switchboardGraph : CallGraph :=
  CallGraph.ofCalls switchboardOutline switchboardCalls

theorem switchboardGraph_eq :
    switchboardGraph = CallGraph.ofCallsAsGiven switchboardOutline switchboardCalls :=
  CallGraph.ofCalls_eq_ofCallsAsGiven (by decide)

theorem breadthFirst_switchboard :
    breadthFirst (ofOrder switchboardGraph [5, 4, 3, 2, 1, 0]) 1 = [1, 2, 3, 0, 4, 5] := by
  rw [switchboardGraph_eq]
  decide +kernel

/-- From `connect`, the method `hangUp` comes before `ring`: its earliest caller is `connect` itself,
while `ring` is found by `hold`. -/
theorem first_listed_switchboard :
    let start := ofOrder switchboardGraph [5, 4, 3, 2, 1, 0]
    let listed := breadthFirst start 1
    Reachable switchboardGraph start ∧ 1 < start.size ∧
      Preceded switchboardGraph listed 3 ∧ EarliestCaller switchboardGraph listed 3 1 ∧
      Preceded switchboardGraph listed 0 ∧ EarliestCaller switchboardGraph listed 0 2 ∧
      listed.idxOf 1 < listed.idxOf 2 ∧ listed.idxOf 3 < listed.idxOf 0 := by
  have reached : Reachable switchboardGraph (ofOrder switchboardGraph [5, 4, 3, 2, 1, 0]) :=
    reachable_ofOrder (by decide)
  obtain ⟨-, -, hlisted⟩ :=
    breadthFirst_first_come_first_listed switchboard_built switchboardCalls reached
      (show 1 < 6 by decide)
  rw [breadthFirst_switchboard] at hlisted
  have hhangUp : Preceded switchboardGraph [1, 2, 3, 0, 4, 5] 3 ∧
      EarliestCaller switchboardGraph [1, 2, 3, 0, 4, 5] 3 1 := by
    rw [switchboardGraph_eq]
    decide +kernel
  have hring : Preceded switchboardGraph [1, 2, 3, 0, 4, 5] 0 ∧
      EarliestCaller switchboardGraph [1, 2, 3, 0, 4, 5] 0 2 := by
    rw [switchboardGraph_eq]
    decide +kernel
  simp only [breadthFirst_switchboard]
  exact ⟨reached, by decide, hhangUp.1, hhangUp.2, hring.1, hring.2, by decide,
    (hlisted 3 0 1 2 hhangUp.1 hring.1 hhangUp.2 hring.2).mpr (.inl (by decide))⟩

end ClassLayout.Proposal

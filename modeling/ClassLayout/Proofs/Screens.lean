import ClassLayout.Proofs.DistantCalls

/-!
# ClassLayout.Proofs.Screens

The dependencies that are distant on screens of different sizes, for whatever calls are given.

1. What is distant on a screen of the lower half of the range is distant on every smaller screen too
   (`distantDependency_anti`).
2. The size of a screen is read as a signed number, so a screen of the upper half is smaller than
   nothing at all. On it every dependency is distant (`distantDependency_of_upper`), except for calls
   that are 2^63 lines away: their distance has no absolute value, and they are distant on no screen.

Hence a larger screen may have more distant dependencies than a smaller one, but only in the upper
half, and only if there is a dependency that is near on the smaller screen.
-/

namespace ClassLayout

variable {outline : Outline} {graph : CallGraph} {arrangement : Arrangement} {pair : Nat × Nat}
  {screen larger : Nat}

/-- A dependency is what one of the calls that appear calls. -/
theorem CallGraph.mem_edges_ofCalls (numbered : outline.Numbered) (calls : List Call) :
    pair ∈ (ofCalls outline calls).edges ↔
      ∃ call ∈ (ofCalls outline calls).invocationsOf pair.1, call.callee = pair.2 := by
  rw [(wellFormed_ofCalls numbered calls).mem_edges, dependenciesOf_ofCalls, invocationsOf_ofCalls,
    Appearance.dependencies, List.mem_eraseDups, List.mem_map]

namespace Arrangement

/-! ## Calls -/

/-- In the lower half of the range, a call that is distant on a screen is so on a smaller one. -/
theorem isDistant_of_le (hle : screen ≤ larger) (hlower : larger < 0x8000000000000000)
    (h : arrangement.isDistant larger call = true) : arrangement.isDistant screen call = true := by
  simp only [isDistant, decide_eq_true_eq, signedWord_of_lt hlower] at h
  simp only [isDistant, decide_eq_true_eq, signedWord_of_lt (Nat.lt_of_le_of_lt hle hlower)]
  omega

/-- The distance of a call has an absolute value. -/
def Measured (arrangement : Arrangement) (call : Call) : Prop :=
  arrangement.callDistance call ≠ -0x8000000000000000

instance (arrangement : Arrangement) (call : Call) : Decidable (arrangement.Measured call) :=
  inferInstanceAs (Decidable (_ ≠ _))

/-- On whatever screen a call is distant, its distance has an absolute value. -/
theorem measured_of_isDistant (h : arrangement.isDistant screen call = true) :
    arrangement.Measured call := by
  intro hleast
  have hlow := (inSignedRange_signedWord screen).1
  rw [isDistant, hleast, absSigned_least, decide_eq_true_eq] at h
  exact absurd h (Int.not_lt.mpr hlow)

/-- On a screen of the upper half all calls are distant of which that is so. -/
theorem isDistant_of_upper (hupper : 0x8000000000000000 ≤ screen)
    (hword : screen < 0x10000000000000000) (call : Call) :
    arrangement.isDistant screen call = true ↔ arrangement.Measured call := by
  refine ⟨measured_of_isDistant, fun hmeasured => ?_⟩
  have hneg := signedWord_neg hupper hword
  have hrange : InSignedRange (arrangement.callDistance call) := by
    rw [callDistance, subSigned]
    exact inSignedRange_toSigned _
  have hnonneg := absSigned_nonneg hrange hmeasured
  rw [isDistant, decide_eq_true_eq]
  exact lt_of_lt_of_le hneg hnonneg

/-! ## Dependencies -/

/-- The dependencies with a call whose distance has an absolute value. -/
def measuredEdges (arrangement : Arrangement) : Finset (Nat × Nat) :=
  {pair ∈ arrangement.graph.edges | ∃ call ∈ arrangement.graph.invocationsOf pair.1,
    arrangement.Measured call ∧ call.callee = pair.2}

section Dependencies

variable (wf : graph.WellFormed) (reached : Reachable graph arrangement)
include wf reached

theorem distantDependency_anti (hle : screen ≤ larger) (hlower : larger < 0x8000000000000000) :
    arrangement.distantDependency larger ≤ arrangement.distantDependency screen := by
  rw [distantDependency_eq_card wf reached, distantDependency_eq_card wf reached]
  refine Finset.card_le_card (Finset.monotone_filter_right _ ?_)
  rintro pair - ⟨call, hcall, hdistant, hcallee⟩
  exact ⟨call, hcall, isDistant_of_le hle hlower hdistant, hcallee⟩

theorem distantDependency_le_card (screen : Nat) :
    arrangement.distantDependency screen ≤ arrangement.measuredEdges.card := by
  rw [distantDependency_eq_card wf reached, measuredEdges, reached.graph_eq]
  refine Finset.card_le_card (Finset.monotone_filter_right _ ?_)
  rintro pair - ⟨call, hcall, hdistant, hcallee⟩
  exact ⟨call, hcall, measured_of_isDistant hdistant, hcallee⟩

/-- On a screen of the upper half all of these dependencies are distant. -/
theorem distantDependency_of_upper (hupper : 0x8000000000000000 ≤ screen)
    (hword : screen < 0x10000000000000000) :
    arrangement.distantDependency screen = arrangement.measuredEdges.card := by
  rw [distantDependency_eq_card wf reached, measuredEdges, reached.graph_eq]
  simp only [isDistant_of_upper hupper hword]

end Dependencies

/-- If all distances have an absolute value, then these are all dependencies. -/
theorem measuredEdges_eq_edges (numbered : outline.Numbered) (calls : List Call)
    (reached : Reachable (CallGraph.ofCalls outline calls) arrangement)
    (hmeasured : ∀ caller, ∀ call ∈ (CallGraph.ofCalls outline calls).invocationsOf caller,
      arrangement.Measured call) :
    arrangement.measuredEdges = (CallGraph.ofCalls outline calls).edges := by
  rw [measuredEdges, reached.graph_eq]
  refine Finset.filter_true_of_mem ?_
  intro pair hpair
  obtain ⟨call, hcall, hcallee⟩ := (CallGraph.mem_edges_ofCalls numbered calls).mp hpair
  exact ⟨call, hcall, hmeasured pair.1 call hcall, hcallee⟩

/-- Of an accepted class, the distant dependencies are the ends of its distant calls. -/
theorem distantDependency_eq_card_callPairs
    (built : CallGraph.ofDeclaration declaration = .ok graph)
    (reached : Reachable graph arrangement) (screen : Nat) :
    arrangement.distantDependency screen =
      Finset.card {pair ∈ graph.callPairs | ∃ call ∈ graph.calls,
        (call.caller, call.callee) = pair ∧ arrangement.isDistant screen call = true} := by
  rw [distantDependency_eq_card (CallGraph.wellFormed built) reached,
    CallGraph.edges_eq_callPairs built]
  congr 1
  refine Finset.filter_congr fun pair _ => exists_congr fun call => ?_
  rw [(CallGraph.invocationsOf_perm built pair.1).mem_iff, List.mem_filter, beq_iff_eq,
    Prod.ext_iff, and_assoc, and_assoc, and_comm (a := call.callee = pair.2)]

/-- **Screens**: whatever calls are given, a larger screen has no more distant dependencies than a
smaller one exactly if it is of the lower half of the range or every dependency that has a measured
call is distant on the smaller screen already. These are all dependencies, unless a call is 2^63 lines
away. -/
theorem distant_on_larger_screen_iff (built : Outline.ofDeclaration declaration = .ok outline)
    (calls : List Call) (reached : Reachable (CallGraph.ofCalls outline calls) arrangement)
    (hle : screen ≤ larger) (hword : larger < 0x10000000000000000) :
    (arrangement.distantDependency larger ≤ arrangement.distantDependency screen ↔
      larger < 0x8000000000000000 ∨
        arrangement.distantDependency screen = arrangement.measuredEdges.card) ∧
    ((∀ caller, ∀ call ∈ (CallGraph.ofCalls outline calls).invocationsOf caller,
        arrangement.Measured call) →
      arrangement.measuredEdges = (CallGraph.ofCalls outline calls).edges) := by
  have numbered := Outline.numbered_of_ofDeclaration built
  have wf := CallGraph.wellFormed_ofCalls numbered calls
  refine ⟨?_, measuredEdges_eq_edges numbered calls reached⟩
  by_cases hlower : larger < 0x8000000000000000
  · simp [hlower, distantDependency_anti wf reached hle hlower]
  · have hall := distantDependency_of_upper wf reached (Nat.not_lt.mp hlower) hword
    have hmost := distantDependency_le_card wf reached screen
    rw [hall]
    omega

/-- Three pairs of methods call each other, at most 5, 12 and 3 lines apart. So the first screen of
the upper half has more distant dependencies than one of 3 lines, but not more than one of 2. -/
theorem distant_on_larger_screen_mailer :
    let start := initial mailerGraph
    Reachable mailerGraph start ∧ mailerGraph.edges.card = 3 ∧ start.distantDependency 2 = 3 ∧
      start.distantDependency 3 = 2 ∧
      start.distantDependency 12 ≤ start.distantDependency 3 ∧
      start.distantDependency 0x8000000000000000 ≤ start.distantDependency 2 ∧
      ¬ start.distantDependency 0x8000000000000000 ≤ start.distantDependency 3 := by
  intro start
  obtain ⟨houtline, -, hgraph⟩ := CallGraph.resolve_of_ofDeclaration mailer_built
  have reached : Reachable mailerGraph start := .initial
  have reached' : Reachable (CallGraph.ofCalls mailerGraph.outline mailerGraph.calls) start := by
    rw [← hgraph]
    exact reached
  have hedges : mailerGraph.edges.card = 3 := by
    rw [CallGraph.edges_eq_callPairs mailer_built]
    decide
  have htwo : start.distantDependency 2 = 3 := by
    rw [distantDependency_eq_card_callPairs mailer_built reached]
    decide
  have hthree : start.distantDependency 3 = 2 := by
    rw [distantDependency_eq_card_callPairs mailer_built reached]
    decide
  have hscreens (screen larger : Nat) (hle : screen ≤ larger)
      (hword : larger < 0x10000000000000000) :=
    distant_on_larger_screen_iff houtline mailerGraph.calls reached' hle hword
  have hcard : start.measuredEdges.card = 3 := by
    have hmeasured : ∀ call ∈ mailerGraph.calls, start.Measured call := by decide
    have hall := (hscreens 2 3 (by decide) (by decide)).2
    rw [← hgraph] at hall
    rw [hall ?_, hedges]
    intro caller call hcall
    rw [(CallGraph.invocationsOf_perm mailer_built caller).mem_iff] at hcall
    exact hmeasured call (List.mem_of_mem_filter hcall)
  refine ⟨reached, hedges, htwo, hthree, ?_, ?_, ?_⟩
  · exact (hscreens 3 12 (by decide) (by decide)).1.mpr (.inl (by decide))
  · rw [(hscreens 2 0x8000000000000000 (by decide) (by decide)).1, hcard, htwo]
    decide
  · rw [(hscreens 3 0x8000000000000000 (by decide) (by decide)).1, hcard, hthree]
    decide

/-- On a screen of fifty lines no dependency of `mailer` is distant, and on the largest screen that
settings can have all of them are. -/
theorem more_distant_on_largest_screen_mailer :
    let start := initial mailerGraph
    let usual : Settings := { screenLines := 50 }
    let largest : Settings := { screenLines := 0xFFFFFFFFFFFFFFFF }
    Reachable mailerGraph start ∧ usual.flaw? = none ∧ largest.flaw? = none ∧
      usual.screenLines ≤ largest.screenLines ∧
      start.distantDependency usual.screenLines = 0 ∧
      start.distantDependency largest.screenLines = 3 := by
  intro start usual largest
  have reached : Reachable mailerGraph start := .initial
  refine ⟨reached, ?_, ?_, by decide, ?_, ?_⟩
  · rw [Settings.flaw?, if_neg (by decide)]
    decide
  · rw [Settings.flaw?, if_neg (by decide)]
    decide
  · rw [distantDependency_eq_card_callPairs mailer_built reached]
    decide
  · rw [distantDependency_eq_card_callPairs mailer_built reached]
    decide

end Arrangement

end ClassLayout

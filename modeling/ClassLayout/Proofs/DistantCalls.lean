import ClassLayout.Proofs.Edges

/-!
# ClassLayout.Proofs.DistantCalls

Which dependencies have a distant call. The lines of a call and of the method that it calls can be
asked for one by one (`shiftedLine`): a line moves with the first method of the order that covers it.
What is counted takes a shorter way, and lets the line of a call move with its caller and the line of
a declaration with the method that is declared.

Both ways agree where no other method covers the line (`shiftedLine_of_covers`), since a call of an
accepted class stands on a line of its caller (`CallGraph.covers_caller`).
-/

namespace ClassLayout

variable {declaration : ClassDeclaration} {graph : CallGraph} {arrangement : Arrangement}
  {order : List Nat} {call : Call} {id other line screen : Nat}

/-! ## Spans -/

/-- No line belongs to two methods: of any two, one ends before the other starts. -/
def Outline.SpansApart (outline : Outline) : Prop :=
  outline.methods.toList.Pairwise fun method other =>
    method.endLine < other.line ∨ other.endLine < method.line

instance (outline : Outline) : Decidable outline.SpansApart :=
  inferInstanceAs (Decidable (List.Pairwise _ _))

theorem Method.covers_iff {method : Method} :
    method.covers line = true ↔ method.line ≤ line ∧ line ≤ method.endLine := by
  simp [covers]

/-- A method covers the line of its declaration. -/
theorem Method.covers_line (method : Method) : method.covers method.line = true := by
  rw [covers_iff, endLine]
  omega

/-- Of two methods that are apart, one at most covers a line. -/
theorem Outline.SpansApart.eq_of_covers {outline : Outline} {method method' : Method}
    (hapart : outline.SpansApart) (hmethod : outline.methods[id]? = some method)
    (hmethod' : outline.methods[other]? = some method') (hcovers : method.covers line = true)
    (hcovers' : method'.covers line = true) : other = id := by
  obtain ⟨hid, rfl⟩ := Array.getElem?_eq_some_iff.mp hmethod
  obtain ⟨hother, rfl⟩ := Array.getElem?_eq_some_iff.mp hmethod'
  rw [Method.covers_iff] at hcovers hcovers'
  have hpairs := List.pairwise_iff_getElem.mp hapart
  simp only [Array.length_toList, Array.getElem_toList] at hpairs
  rcases Nat.lt_trichotomy other id with hlt | hsame | hgt
  · have hends := hpairs other id hother hid hlt
    omega
  · exact hsame
  · have hends := hpairs id other hid hother hgt
    omega

/-- A call stands on the line of its site. -/
theorem Outline.line_of_callOf? {outline : Outline} {parents : Array (Option Nat)} {index : Nat}
    (h : outline.callOf? parents index site = some call) : call.line = site.line := by
  obtain ⟨_, -, rfl⟩ := Option.map_eq_some_iff.mp h
  rfl

namespace CallGraph

/-- A call stands on a line of its caller. -/
theorem covers_caller (built : ofDeclaration declaration = .ok graph) (hcall : call ∈ graph.calls) :
    ∃ method, graph.method? call.caller = some method ∧ method.covers call.line = true := by
  obtain ⟨-, hresolved, -⟩ := resolve_of_ofDeclaration built
  obtain ⟨site, hsite, hcallOf⟩ := (Outline.mem_resolve hresolved).mp hcall
  obtain ⟨-, -, hcaller, -⟩ := Outline.callOf?_eq_some hcallOf
  obtain ⟨hsites, -⟩ := Outline.sitesFlaw?_eq_none.mp (Outline.resolve_eq_ok.mp hresolved).1
  rw [Outline.line_of_callOf? hcallOf]
  exact (Outline.siteFlaw?_eq_none.mp (hsites _ site hsite)).2 _ hcaller

theorem ends_lt (built : ofDeclaration declaration = .ok graph) (hcall : call ∈ graph.calls) :
    call.caller < graph.size ∧ call.callee < graph.size := by
  obtain ⟨-, -, hgraph⟩ := resolve_of_ofDeclaration built
  rw [hgraph] at hcall
  exact ((mem_calls_ofCalls _ _).mp hcall).2

end CallGraph

namespace Arrangement

/-! ## Lines of the source -/

/-- A line that one method alone covers moves with that method. -/
theorem shiftedLine_of_covers (horder : graph.IsOrder order) (hid : id < graph.size)
    (hcovers : (ofOrder graph order).covers line id = true)
    (honly : ∀ other < graph.size, other ≠ id → (ofOrder graph order).covers line other = false) :
    (ofOrder graph order).shiftedLine line =
      .ok ((ofOrder graph order).lineWith id line) := by
  have hfound : order.find? ((ofOrder graph order).covers line) = some id := by
    cases hfind : order.find? ((ofOrder graph order).covers line) with
    | none =>
        have hnone := List.find?_eq_none.mp hfind id (horder.mem_iff.mpr hid)
        exact absurd hcovers hnone
    | some other =>
        have hother := horder.mem_iff.mp (List.mem_of_find?_eq_some hfind)
        have hcovers' := List.find?_some hfind
        by_cases hne : other = id
        · rw [hne]
        · rw [honly other hother hne] at hcovers'
          contradiction
  rw [shiftedLine, order_ofOrder, hfound]

/-- Where spans are apart, a line that a method covers is covered by no other one. -/
theorem covers_eq_false {method : Method} (hapart : graph.outline.SpansApart)
    (hgraph : arrangement.graph = graph) (hmethod : graph.method? id = some method)
    (hcovers : method.covers line = true) (hne : other ≠ id) :
    arrangement.covers line other = false := by
  rw [covers, method?, hgraph]
  cases hother : graph.method? other with
  | none => rfl
  | some method' =>
      rw [Option.any_some, Bool.eq_false_iff]
      intro hcovers'
      exact hne (hapart.eq_of_covers hmethod hother hcovers hcovers')

/-- The number of lines from a call to the declaration of the method that it calls, each line asked
for by itself. -/
def linesToCallee (arrangement : Arrangement) (call : Call) : Except Error Int := do
  let callee ← arrangement.declaredAt call.callee
  let here ← arrangement.shiftedLine call.line
  let there ← arrangement.shiftedLine callee.line
  return there - here

/-- The call is more than so many lines away from the declaration of the method that it calls. -/
def FarAway (arrangement : Arrangement) (screen : Nat) (call : Call) : Prop :=
  ∃ lines, arrangement.linesToCallee call = .ok lines ∧ screen < lines.natAbs

instance (arrangement : Arrangement) (screen : Nat) (call : Call) :
    Decidable (arrangement.FarAway screen call) :=
  match h : arrangement.linesToCallee call with
  | .ok lines => decidable_of_iff (screen < lines.natAbs) (by simp [FarAway, h])
  | .error _ => .isFalse (by simp [FarAway, h])

/-- Where spans are apart, the line of a declaration moves with the method. -/
theorem shiftedLine_of_declaration {method : Method} (hapart : graph.outline.SpansApart)
    (reached : Reachable graph arrangement) (hmethod : graph.method? id = some method) :
    arrangement.shiftedLine method.line = .ok (arrangement.startLine id) := by
  obtain ⟨order, horder, rfl⟩ := reached.exists_order
  have hcovers : (ofOrder graph order).covers method.line id = true := by
    rw [covers, method?, graph_ofOrder, hmethod, Option.any_some, method.covers_line]
  rw [shiftedLine_of_covers horder (Array.getElem?_eq_some_iff.mp hmethod).1 hcovers
    fun other _ => covers_eq_false hapart rfl hmethod method.covers_line]
  rw [startLine, method?, graph_ofOrder, hmethod, Option.map_some, Option.getD_some]

section Accepted

variable (built : CallGraph.ofDeclaration declaration = .ok graph)
  (reached : Reachable graph arrangement) (hcall : call ∈ graph.calls)
include built reached hcall

/-- The line of a call that no other method covers moves with the caller. -/
theorem shiftedLine_of_call
    (honly : ∀ id < graph.size, id ≠ call.caller → arrangement.covers call.line id = false) :
    arrangement.shiftedLine call.line = .ok (arrangement.lineWith call.caller call.line) := by
  obtain ⟨order, horder, rfl⟩ := reached.exists_order
  obtain ⟨method, hmethod, hcovers⟩ := CallGraph.covers_caller built hcall
  refine shiftedLine_of_covers horder (Array.getElem?_eq_some_iff.mp hmethod).1 ?_ honly
  rw [covers, method?, graph_ofOrder, hmethod, Option.any_some, hcovers]

variable (hapart : graph.outline.SpansApart)
include hapart

theorem linesToCallee_eq :
    arrangement.linesToCallee call =
      .ok (arrangement.startLine call.callee - arrangement.lineWith call.caller call.line) := by
  obtain ⟨caller, hcaller, hcovers⟩ := CallGraph.covers_caller built hcall
  have hhere := shiftedLine_of_call built reached hcall
    fun id _ => covers_eq_false hapart reached.graph_eq hcaller hcovers
  obtain ⟨callee, hcallee⟩ : ∃ callee, graph.method? call.callee = some callee :=
    ⟨_, Array.getElem?_eq_getElem (CallGraph.ends_lt built hcall).2⟩
  have hthere := shiftedLine_of_declaration hapart reached hcallee
  simp only [linesToCallee, declaredAt, method?, reached.graph_eq, hcallee, hhere, hthere, bind,
    Except.bind, pure, Except.pure]

/-- Whether lines are far apart that are asked for one by one. -/
theorem farAway_iff :
    arrangement.FarAway screen call ↔ screen <
      (arrangement.startLine call.callee - arrangement.lineWith call.caller call.line).natAbs := by
  rw [FarAway, linesToCallee_eq built reached hcall hapart]
  simp

/-- Taken one by one or the short way, the lines are as far apart, if the number of lines between
them is in range. -/
theorem farAway_iff_isDistant (hscreen : screen < 0x8000000000000000)
    (hfits : ¬ arrangement.FarAway 0x7FFFFFFFFFFFFFFF call) :
    arrangement.FarAway screen call ↔ arrangement.isDistant screen call = true := by
  rw [farAway_iff built reached hcall hapart] at hfits ⊢
  rw [isDistant, callDistance, subSigned, signedWord_of_lt hscreen, decide_eq_true_eq]
  generalize arrangement.startLine call.callee - arrangement.lineWith call.caller call.line = lines
    at hfits ⊢
  have hlt : lines.natAbs < 0x8000000000000000 := by omega
  rw [toSigned_of_inRange ⟨by omega, by omega⟩, absSigned_of_lt hlt, Int.ofNat_lt]

end Accepted

/-! ## Dependencies -/

/-- What is counted are the edges with a distant call. -/
theorem distantDependency_eq_card (wf : graph.WellFormed) (reached : Reachable graph arrangement)
    (screen : Nat) :
    arrangement.distantDependency screen =
      Finset.card {pair ∈ graph.edges | ∃ call ∈ graph.invocationsOf pair.1,
        arrangement.isDistant screen call = true ∧ call.callee = pair.2} := by
  have hlisted : arrangement.distantDependency screen =
      (initial graph).dependencyPairs.countP fun pair =>
        ((graph.invocationsOf pair.1).filter (arrangement.isDistant screen)).any
          (·.callee == pair.2) := by
    rw [distantDependency, reached.graph_eq, dependencyPairs, List.countP_flatMap, total_eq_sum]
    refine congrArg List.sum (List.map_congr_left fun caller _ => ?_)
    rw [Function.comp_apply, List.countP_map]
    rfl
  rw [hlisted, countP_dependencyPairs wf .initial]
  simp

/-- **Distant calls**: a call whose line no other method covers moves with its caller. Where no two
methods share a line, the distant dependencies are the pairs of a caller and a callee with a call
that is more than a screen away from the declaration of the callee, both lines taken from where they
are in the arrangement. Nothing of this is said of lines and of numbers of lines that are out of the
range of the signed numbers. -/
theorem distant_calls_shift_with_callers
    (built : CallGraph.ofDeclaration declaration = .ok graph)
    (reached : Reachable graph arrangement) :
    (∀ call ∈ graph.calls, InSignedRange (call.line + arrangement.lineShift call.caller) →
      (∀ id < graph.size, id ≠ call.caller → arrangement.covers call.line id = false) →
      arrangement.shiftedLine call.line = .ok (call.line + arrangement.lineShift call.caller)) ∧
    (graph.outline.SpansApart →
      (∀ call ∈ graph.calls, ∃ lines, arrangement.linesToCallee call = .ok lines) ∧
      ((∀ call ∈ graph.calls, ¬ arrangement.FarAway 0x7FFFFFFFFFFFFFFF call) →
        ∀ screen < 0x8000000000000000, arrangement.distantDependency screen =
          Finset.card {pair ∈ graph.callPairs | ∃ call ∈ graph.calls,
            (call.caller, call.callee) = pair ∧ arrangement.FarAway screen call})) := by
  constructor
  · intro call hcall hline honly
    rw [shiftedLine_of_call built reached hcall honly, lineWith, addSigned_signedWord hline]
  · intro hapart
    refine ⟨fun call hcall => ⟨_, linesToCallee_eq built reached hcall hapart⟩, ?_⟩
    intro hfits screen hscreen
    rw [distantDependency_eq_card (CallGraph.wellFormed built) reached,
      CallGraph.edges_eq_callPairs built]
    congr 1
    refine Finset.filter_congr fun pair _ => exists_congr fun call => ?_
    rw [(CallGraph.invocationsOf_perm built pair.1).mem_iff, List.mem_filter, beq_iff_eq, and_assoc]
    refine and_congr_right fun hcall => ?_
    rw [farAway_iff_isDistant built reached hcall hapart hscreen (hfits call hcall), Prod.ext_iff,
      and_assoc, and_comm (a := call.callee = pair.2)]

/-- With `log` in front, the lines of `send` and `render` move down by 4 and those of `log` up by 12.
Then the calls of `render` are 4 and 5 lines away from it, and those of `log` 4 and 13 lines. -/
theorem distant_calls_shift_with_callers_mailer :
    let start := ofOrder mailerGraph [2, 0, 1]
    Reachable mailerGraph start ∧ mailerGraph.outline.SpansApart ∧
      start.shiftedLine 6 = .ok 10 ∧ start.shiftedLine 12 = .ok 16 ∧
      start.distantDependency 3 = 3 ∧ start.distantDependency 4 = 2 ∧
      start.distantDependency 13 = 0 := by
  intro start
  have reached : Reachable mailerGraph start := reachable_ofOrder (by decide)
  have hapart : mailerGraph.outline.SpansApart := by decide
  obtain ⟨hlines, hdistant⟩ := distant_calls_shift_with_callers mailer_built reached
  obtain ⟨-, hcount⟩ := hdistant hapart
  replace hcount := hcount (by decide)
  let render : Call :=
    { site := 2, caller := 0, callee := 1, line := 6, column := 12, enclosingSites := [1, 0] }
  let log : Call := { site := 4, caller := 1, callee := 2, line := 12, column := 4 }
  refine ⟨reached, hapart, ?_, ?_, ?_, ?_, ?_⟩
  · exact (hlines render (by decide) (by decide) (by decide)).trans (congrArg _ (by decide))
  · exact (hlines log (by decide) (by decide) (by decide)).trans (congrArg _ (by decide))
  · exact (hcount 3 (by decide)).trans (by decide)
  · exact (hcount 4 (by decide)).trans (by decide)
  · exact (hcount 13 (by decide)).trans (by decide)

end Arrangement

end ClassLayout

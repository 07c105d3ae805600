import ClassLayout.Proofs.Moves
import ClassLayout.Proofs.Tables
import Mathlib.Algebra.BigOperators.Ring.Finset

/-!
# ClassLayout.Proofs.LineShifts

What a move does to the lines of the source. The lines before a method are those of the methods that
stand above it, so they change with what stands above it and with nothing else:

* the moved method comes to stand below what it jumps over, if it goes down, and stood below that, if
  it goes up (`lengthsBefore_eq_add_sum`, read in the one or the other direction);
* another method has the same others above it as before, and the moved one either comes to stand
  above it or ceases to (`lengthsBefore_add_of_keepsOrder`).

How far lines have shifted is a difference of two such sums, each read as a signed number of 64 bits.
Where that is no loss, the shifts change as the sums do (`lineShift_add_of_lengthsBefore_add`).
-/

namespace ClassLayout.Arrangement

open Finset (range)

variable {graph : CallGraph} {arrangement before after : Arrangement} {passed : Finset Nat}
  {id other target : Nat} {shift : Int}

/-! ## Lines before a method -/

/-- The lines before a method are those of the methods above it. -/
theorem Reachable.lengthsBefore_eq (reached : Reachable graph arrangement) (hid : id < graph.size) :
    lengthsBefore graph arrangement.order id =
      ∑ other ∈ range graph.size with arrangement.position other < arrangement.position id,
        lengthOf graph other := by
  refine Finset.sum_congr (Finset.filter_congr fun other hother => ?_) fun _ _ => rfl
  rw [reached.position_eq hid, reached.position_eq (Finset.mem_range.mp hother)]

/-- Among the methods above another one, the given method can be told apart from the rest. -/
theorem Reachable.lengthsBefore_eq_add (reached : Reachable graph arrangement)
    (hid : id < graph.size) (hother : other < graph.size) :
    lengthsBefore graph arrangement.order other =
      (∑ third ∈ (range graph.size).erase id with
        arrangement.position third < arrangement.position other, lengthOf graph third) +
      if arrangement.position id < arrangement.position other then lengthOf graph id else 0 := by
  rw [reached.lengthsBefore_eq hother, Finset.sum_filter, Finset.sum_filter,
    Finset.sum_erase_add _ _ (Finset.mem_range.mpr hid)]

section Change

variable (start : Reachable graph before) (result : Reachable graph after) (hid : id < graph.size)
include start result hid

/-- If all methods but one keep their order, then the lines before another method change by those of
the one, if at all. -/
theorem lengthsBefore_add_of_keepsOrder (hkeeps : KeepsOrder (· ≠ id) before after)
    (hother : other < graph.size) (hne : other ≠ id) :
    lengthsBefore graph after.order other +
      (if before.position id < before.position other then lengthOf graph id else 0) =
    lengthsBefore graph before.order other +
      if after.position id < after.position other then lengthOf graph id else 0 := by
  have hrest : {third ∈ (range graph.size).erase id |
        after.position third < after.position other} =
      {third ∈ (range graph.size).erase id |
        before.position third < before.position other} := by
    refine Finset.filter_congr fun third hthird => ?_
    obtain ⟨hthird, hlt⟩ := Finset.mem_erase.mp hthird
    rw [Finset.mem_range] at hlt
    rw [KeepsOrder, start.size_eq] at hkeeps
    exact hkeeps third hlt other hother hthird hne
  rw [result.lengthsBefore_eq_add hid hother, start.lengthsBefore_eq_add hid hother, hrest]
  omega

/-- If more methods come to stand above one, then their lines come before it. -/
theorem lengthsBefore_eq_add_sum
    (hpassed : ∀ other ∈ passed, other < graph.size ∧
      ¬ before.position other < before.position id)
    (habove : ∀ other < graph.size, (after.position other < after.position id ↔
      before.position other < before.position id ∨ other ∈ passed)) :
    lengthsBefore graph after.order id =
      lengthsBefore graph before.order id + ∑ other ∈ passed, lengthOf graph other := by
  have hapart : Disjoint {other ∈ range graph.size | before.position other < before.position id}
      passed := by
    refine Finset.disjoint_right.mpr fun other hother hmem => ?_
    exact (hpassed other hother).2 (Finset.mem_filter.mp hmem).2
  rw [result.lengthsBefore_eq hid, start.lengthsBefore_eq hid, ← Finset.sum_union hapart]
  refine Finset.sum_congr ?_ fun _ _ => rfl
  ext other
  rw [Finset.mem_union, Finset.mem_filter, Finset.mem_filter, Finset.mem_range]
  constructor
  · rintro ⟨hlt, hother⟩
    exact ((habove other hlt).mp hother).imp_left fun hstood => ⟨hlt, hstood⟩
  · rintro (⟨hlt, hother⟩ | hother)
    · exact ⟨hlt, (habove other hlt).mpr (.inl hother)⟩
    · have hlt := (hpassed other hother).1
      exact ⟨hlt, (habove other hlt).mpr (.inr hother)⟩

end Change

/-! ## Methods that are jumped over -/

/-- The methods at the indices that a method passes when it is moved by `shift`. -/
def jumped (arrangement : Arrangement) (id : Nat) (shift : Int) : Finset Nat :=
  {other ∈ range arrangement.size |
    arrangement.position id < arrangement.position other ∧
      arrangement.position other ≤ arrangement.position id + shift ∨
    arrangement.position id + shift ≤ arrangement.position other ∧
      arrangement.position other < arrangement.position id}

theorem remap_lt_iff {origin index : Nat} (hne : index ≠ origin) :
    remap origin target index < target ↔
      index < origin ∧ index < target ∨ origin < index ∧ index ≤ target := by
  unfold remap
  grind

theorem lt_remap_iff {origin index : Nat} (hne : index ≠ origin) :
    target < remap origin target index ↔
      origin < index ∧ target < index ∨ index < origin ∧ target ≤ index := by
  unfold remap
  grind

namespace MovesTo

variable (h : MovesTo graph id target before after)
  (hshift : (target : Int) = before.position id + shift)

include h in
/-- Which of the other methods the moved one has above it. -/
theorem position_lt_iff (hother : other < graph.size) (hne : other ≠ id) :
    after.position other < after.position id ↔
      before.position other < before.position id ∧ before.position other < target ∨
      before.position id < before.position other ∧ before.position other ≤ target := by
  rw [h.position_self, h.position other hother]
  exact remap_lt_iff (h.position_ne hother hne)

include h hshift

theorem mem_jumped :
    other ∈ before.jumped id shift ↔ other < graph.size ∧
      (before.position id < before.position other ∧ before.position other ≤ target ∨
      target ≤ before.position other ∧ before.position other < before.position id) := by
  rw [jumped, Finset.mem_filter, Finset.mem_range, h.start.size_eq]
  refine and_congr_right fun _ => ?_
  omega

theorem ne_of_mem_jumped (hother : other ∈ before.jumped id shift) : other ≠ id := by
  rw [h.mem_jumped hshift] at hother
  rintro rfl
  omega

/-- Down, the method comes to stand below what it jumps over. -/
theorem lengthsBefore_of_nonneg (hdown : 0 ≤ shift) :
    lengthsBefore graph after.order id =
      lengthsBefore graph before.order id +
        ∑ other ∈ before.jumped id shift, lengthOf graph other := by
  refine lengthsBefore_eq_add_sum h.start h.result h.id_lt ?_ ?_
  · intro other hother
    rw [h.mem_jumped hshift] at hother
    exact ⟨hother.1, by omega⟩
  · intro other hother
    rw [h.mem_jumped hshift]
    by_cases hne : other = id
    · subst hne
      omega
    · rw [h.position_lt_iff hother hne]
      omega

/-- Up, it stood below that. -/
theorem lengthsBefore_of_nonpos (hup : shift ≤ 0) :
    lengthsBefore graph before.order id =
      lengthsBefore graph after.order id +
        ∑ other ∈ before.jumped id shift, lengthOf graph other := by
  refine lengthsBefore_eq_add_sum h.result h.start h.id_lt ?_ ?_
  · intro other hother
    have hne := h.ne_of_mem_jumped hshift hother
    rw [h.mem_jumped hshift] at hother
    rw [h.position_lt_iff hother.1 hne]
    exact ⟨hother.1, by omega⟩
  · intro other hother
    rw [h.mem_jumped hshift]
    by_cases hne : other = id
    · subst hne
      omega
    · rw [h.position_lt_iff hother hne]
      omega

/-- What is jumped over has the lines of the method before it no longer, or from now on. -/
theorem lengthsBefore_of_ne (hother : other < graph.size) (hne : other ≠ id) :
    lengthsBefore graph after.order other +
      (if other ∈ before.jumped id shift ∧ 0 < shift then lengthOf graph id else 0) =
    lengthsBefore graph before.order other +
      if other ∈ before.jumped id shift ∧ shift < 0 then lengthOf graph id else 0 := by
  have hapart := h.position_ne hother hne
  have hlines := lengthsBefore_add_of_keepsOrder h.start h.result h.id_lt h.keepsOrder hother hne
  rw [h.position_self, h.position other hother] at hlines
  simp only [lt_remap_iff hapart] at hlines
  simp only [h.mem_jumped hshift]
  split_ifs at hlines ⊢ <;> omega

end MovesTo

/-! ## Shifts -/

/-- The lengths of the methods before each method, now and in the declaration, add up to what fits
into the signed numbers of 64 bits as which the sums are read. -/
def LinesFit (arrangement : Arrangement) : Prop :=
  ∀ id < arrangement.size,
    lengthsBefore arrangement.graph arrangement.order id < 0x8000000000000000 ∧
    ∑ other ∈ range id, lengthOf arrangement.graph other < 0x8000000000000000

instance (arrangement : Arrangement) : Decidable arrangement.LinesFit :=
  inferInstanceAs (Decidable (∀ id < arrangement.size, _))

/-- Where the lines fit, none are lost. -/
theorem Reachable.lineShift_eq (reached : Reachable graph arrangement) (hfit : arrangement.LinesFit)
    (hid : id < graph.size) :
    arrangement.lineShift id =
      (lengthsBefore graph arrangement.order id : Int) -
        (∑ other ∈ range id, lengthOf graph other : Nat) := by
  rw [LinesFit, reached.size_eq, reached.graph_eq] at hfit
  obtain ⟨hnow, hinitial⟩ := hfit id hid
  rw [lineShift, linesBefore, reached.tabulated.preceding id hid, initialLinesBefore,
    reached.tabulated.initialPreceding id hid, Option.getD_some, Option.getD_some,
    toWord_of_lt (by omega), toWord_of_lt (by omega)]
  exact subSigned_signedWord hnow hinitial

/-- The lines of a method shift as the lines before it change. -/
theorem lineShift_add_of_lengthsBefore_add {a b : Nat} (start : Reachable graph before)
    (result : Reachable graph after) (hfit : before.LinesFit) (hfit' : after.LinesFit)
    (hid : id < graph.size)
    (h : lengthsBefore graph after.order id + a = lengthsBefore graph before.order id + b) :
    after.lineShift id + a = before.lineShift id + b := by
  rw [result.lineShift_eq hfit' hid, start.lineShift_eq hfit hid]
  omega

theorem MovesTo.lineShift_of_ne (h : MovesTo graph id target before after)
    (hshift : (target : Int) = before.position id + shift) (hfit : before.LinesFit)
    (hfit' : after.LinesFit) (hother : other < graph.size) (hne : other ≠ id) :
    after.lineShift other +
      (if other ∈ before.jumped id shift ∧ 0 < shift then lengthOf graph id else 0 : Nat) =
    before.lineShift other +
      (if other ∈ before.jumped id shift ∧ shift < 0 then lengthOf graph id else 0 : Nat) :=
  lineShift_add_of_lengthsBefore_add h.start h.result hfit hfit' hother
    (h.lengthsBefore_of_ne hshift hother hne)

/-- How the lines of the methods shift when one of them is moved. -/
structure ShiftsLines (id : Nat) (shift : Int) (before after : Arrangement) : Prop where
  /-- Lines that the method goes past on its way down come up by its length. -/
  passedDown : 0 < shift → ∀ other ∈ before.jumped id shift,
    after.lineShift other = before.lineShift other - lengthOf before.graph id
  /-- Those that it goes past on its way up make room for it. -/
  passedUp : shift < 0 → ∀ other ∈ before.jumped id shift,
    after.lineShift other = before.lineShift other + lengthOf before.graph id
  down : 0 < shift → after.lineShift id =
    before.lineShift id + ∑ other ∈ before.jumped id shift, (lengthOf before.graph other : Int)
  up : shift < 0 → after.lineShift id =
    before.lineShift id - ∑ other ∈ before.jumped id shift, (lengthOf before.graph other : Int)
  others : ∀ other < before.size, other ≠ id → other ∉ before.jumped id shift →
    after.lineShift other = before.lineShift other

/-- **Line shifts**: the lines of a method that is moved down shift by the lengths of the methods
that it jumps over, and the lines of these shift up by its own length; when it is moved up, it is the
other way round. The lines of all other methods stay where they are. -/
theorem move_shifts_lines (reached : Reachable graph arrangement)
    (hmove : arrangement.move id shift = .ok after) (hfit : arrangement.LinesFit)
    (hfit' : after.LinesFit) : ShiftsLines id shift arrangement after := by
  obtain ⟨target, hshift, h⟩ := reached.movesTo hmove
  have hjumped : ∀ other ∈ arrangement.jumped id shift, other < graph.size ∧ other ≠ id :=
    fun other hother => ⟨((h.mem_jumped hshift).mp hother).1, h.ne_of_mem_jumped hshift hother⟩
  have hmoved {a b : Nat} (hlines : lengthsBefore graph after.order id + a =
      lengthsBefore graph arrangement.order id + b) :
      after.lineShift id + a = arrangement.lineShift id + b :=
    lineShift_add_of_lengthsBefore_add reached h.result hfit hfit' h.id_lt hlines
  have hgraph := reached.graph_eq
  constructor
  · intro hdown other hother
    obtain ⟨hlt, hne⟩ := hjumped other hother
    have hlines := h.lineShift_of_ne hshift hfit hfit' hlt hne
    rw [if_pos ⟨hother, hdown⟩, if_neg (by omega), Nat.cast_zero, add_zero] at hlines
    rw [hgraph]
    exact eq_sub_of_add_eq hlines
  · intro hup other hother
    obtain ⟨hlt, hne⟩ := hjumped other hother
    have hlines := h.lineShift_of_ne hshift hfit hfit' hlt hne
    rw [if_neg (by omega), if_pos ⟨hother, hup⟩, Nat.cast_zero, add_zero] at hlines
    rwa [hgraph]
  · intro hdown
    have hlines := hmoved (add_zero _ |>.trans (h.lengthsBefore_of_nonneg hshift hdown.le))
    rwa [Nat.cast_zero, add_zero, Nat.cast_sum, ← hgraph] at hlines
  · intro hup
    have hlines := hmoved ((h.lengthsBefore_of_nonpos hshift hup.le).symm.trans (add_zero _).symm)
    rw [Nat.cast_zero, add_zero, Nat.cast_sum, ← hgraph] at hlines
    exact eq_sub_of_add_eq hlines
  · intro other hother hne hout
    rw [reached.size_eq] at hother
    have hlines := h.lineShift_of_ne hshift hfit hfit' hother hne
    rwa [if_neg fun hmem => hout hmem.1, if_neg fun hmem => hout hmem.1, Nat.cast_zero, add_zero,
      add_zero] at hlines

/-- `log` goes down past both others, which are 8 and 4 lines long, and they come up by its 4 lines.
Or `render` goes up past `send`, which makes room for its 4 lines, while `log` stays. -/
theorem move_shifts_lines_mailer :
    let start := ofOrder mailerGraph [2, 0, 1]
    Reachable mailerGraph start ∧ start.LinesFit ∧
      start.lineShift 0 = 4 ∧ start.lineShift 1 = 4 ∧ start.lineShift 2 = -12 ∧
      (∃ down, start.move 2 2 = .ok down ∧ down.LinesFit ∧ start.jumped 2 2 = {0, 1} ∧
        down.lineShift 0 = 0 ∧ down.lineShift 1 = 0 ∧ down.lineShift 2 = 0) ∧
      ∃ up, start.move 1 (-1) = .ok up ∧ up.LinesFit ∧ start.jumped 1 (-1) = {0} ∧
        up.lineShift 0 = 8 ∧ up.lineShift 1 = -4 ∧ up.lineShift 2 = -12 := by
  intro start
  have reached : Reachable mailerGraph start := reachable_ofOrder (by decide)
  have hfit : start.LinesFit := by decide
  have hdown : start.move 2 2 = .ok (ofOrder mailerGraph [0, 1, 2]) := by rfl
  have hup : start.move 1 (-1) = .ok (ofOrder mailerGraph [2, 1, 0]) := by rfl
  have hlower := move_shifts_lines reached hdown hfit (by decide)
  have hupper := move_shifts_lines reached hup hfit (by decide)
  refine ⟨reached, hfit, by decide, by decide, by decide,
    ⟨_, hdown, by decide, by decide, ?_, ?_, ?_⟩, _, hup, by decide, by decide, ?_, ?_, ?_⟩
  · exact (hlower.passedDown (by decide) 0 (by decide)).trans (by decide)
  · exact (hlower.passedDown (by decide) 1 (by decide)).trans (by decide)
  · exact (hlower.down (by decide)).trans (by decide)
  · exact (hupper.passedUp (by decide) 0 (by decide)).trans (by decide)
  · exact (hupper.up (by decide)).trans (by decide)
  · exact (hupper.others 2 (by decide) (by decide) (by decide)).trans (by decide)

end ClassLayout.Arrangement

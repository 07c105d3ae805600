import ClassLayout.Proofs.TypeText

/-!
# ClassLayout.Proofs.Signature

Types that are written in different ways and what becomes of them in a signature.

1. Pairs of brackets and an ellipsis may be written in the text of a type or declared beside it:
   they are shown alike (`marks_shown_alike`).
2. White space around the marks does not show, unless an ellipsis is written behind pairs that have
   white space before or within them: then the type itself does not show (`spacing_shown_iff`).

Methods are told apart by their signatures, and a signature tells its types apart (`render_inj`).
-/

namespace ClassLayout

open Text TypeText

variable {head word arguments : List Char}

/-! ## Parameters of a signature -/

namespace Signature

theorem intercalate_inj {sep x y : String} (before after : List String) :
    sep.intercalate (before ++ x :: after) = sep.intercalate (before ++ y :: after) ↔ x = y := by
  induction before with
  | nil =>
      cases after with
      | nil => simp
      | cons z after => simp [String.intercalate_cons_cons]
  | cons z before ih =>
      rw [List.cons_append, List.cons_append, String.intercalate_cons_of_ne_nil (by simp),
        String.intercalate_cons_of_ne_nil (by simp)]
      simp [ih]

/-- Signatures that differ in one parameter at most are the same if it is shown alike in both. -/
theorem render_inj {name : String} {parameter other : Parameter} (before after : List Parameter) :
    render name (before ++ parameter :: after) = render name (before ++ other :: after) ↔
      parameter.renderType = other.renderType := by
  simp [render, intercalate_inj]

end Signature

/-! ## Marks in the text and beside it -/

theorem TypeText.endsWithType_int : EndsWithType "int".toList "int".toList where
  plain := by decide
  last := ⟨[], by decide, by simp⟩
  ne_nil := by decide
  noBlank := by decide
  noSquare := by decide
  notFinal := by decide
  notAnnotation := by decide
  noDot := by decide

/-- **Spacing**: white space before or within pairs of brackets, before an ellipsis or at the end of
the text of a type does not show, neither in the type nor in a signature, unless an ellipsis is
written behind pairs with white space before or within one of them. Then it does. -/
theorem Signature.spacing_shown_iff (htype : EndsWithType head word)
    (harguments : TypeArguments arguments) (spacing : Spacing) (variadic : Bool) (declared : Nat)
    (declaredVariadic : Bool) (method : String) (before after : List Parameter) :
    let spaced : Parameter := {
      typeName := String.ofList (spell head arguments spacing variadic)
      arrayDimensions := declared
      variableArity := declaredVariadic }
    let tight : Parameter := {
      typeName := String.ofList (spell head arguments (.tight spacing.gaps.length) variadic)
      arrayDimensions := declared
      variableArity := declaredVariadic }
    (spaced.renderType = tight.renderType ↔
      variadic = false ∨ ∀ gap ∈ spacing.gaps, gap = .none) ∧
    (Signature.render method (before ++ spaced :: after) =
        Signature.render method (before ++ tight :: after) ↔
      variadic = false ∨ ∀ gap ∈ spacing.gaps, gap = .none) := by
  intro spaced tight
  rw [render_inj, and_self]
  have htight := render_spell_tight htype harguments declared declaredVariadic spacing.gaps.length
    variadic
  simp only [Parameter.renderType, spaced, tight, String.toList_ofList, String.ofList_inj, htight]
  cases variadic with
  | false =>
      rw [render_spell_plain htype harguments, Bool.or_false]
      simp
  | true =>
      by_cases hnone : ∀ gap ∈ spacing.gaps, gap = .none
      · rw [render_spell_variadic_of_none htype harguments _ _ _ hnone, Bool.or_true]
        simpa using hnone
      · obtain ⟨rest, -, hlength, hrest⟩ :=
          render_spell_loose htype harguments spacing declared declaredVariadic hnone
        have hname := List.length_pos_iff.mpr (afterLastDot_ne_nil htype.ne_nil htype.noDot)
        rw [hrest, iff_false_right (by simp [hnone])]
        -- the text that is shown is shorter than the name of the type and its brackets
        intro hshown
        have hshown := congrArg List.length hshown
        simp only [List.length_append, length_brackets, Bool.or_true, if_true] at hshown
        omega

/-- One and the same white space does not show in `int[]` and shows in `int[]...`. -/
theorem Signature.spacing_shown_iff_int :
    let int := "int".toList
    EndsWithType int int ∧ TypeArguments [] ∧
      Signature.render "sum" [{ typeName := "int [\t]\n" }] =
        Signature.render "sum" [{ typeName := "int[]" }] ∧
      Signature.render "sum" [{ typeName := "int [\t] ...\n" }] ≠
        Signature.render "sum" [{ typeName := "int[]..." }] := by
  intro int
  have htype : EndsWithType int int := endsWithType_int
  let spacing : Spacing := {
    gaps := [⟨[' '], ['\t'], by decide, by decide⟩]
    beforeEllipsis := [' ']
    atEnd := ['\n']
    beforeEllipsis_blank := by decide
    atEnd_blank := by decide }
  have hgap : ¬ ∀ gap ∈ spacing.gaps, gap = .none := by
    intro hnone
    have hbefore := congrArg Gap.before (hnone _ List.mem_cons_self)
    exact absurd hbefore (by decide)
  refine ⟨htype, .none, ?_, ?_⟩
  · exact (spacing_shown_iff htype .none spacing false 0 false "sum" [] []).2.mpr (.inl rfl)
  · intro hshown
    have hnone := (spacing_shown_iff htype .none spacing true 0 false "sum" [] []).2.mp hshown
    exact hgap (by simpa using hnone)

/-- A space in front of the brackets hides the type: methods with different types get one signature,
which is that of neither written without it. -/
theorem Signature.type_hidden_by_space :
    let spaced : Parameter := { typeName := "int []..." }
    let tight : Parameter := { typeName := "int[]..." }
    let other : Parameter := { typeName := "long []..." }
    spaced.renderType = "[]..." ∧ tight.renderType = "int[]..." ∧
      Signature.render "sum" [spaced] ≠ Signature.render "sum" [tight] ∧
      Signature.render "sum" [spaced] = Signature.render "sum" [other] := by
  intro spaced tight other
  have hspaced : spaced.renderType = "[]..." := by decide
  have htight : tight.renderType = "int[]..." := by decide
  have hother : other.renderType = "[]..." := by decide
  refine ⟨hspaced, htight, ?_, ?_⟩
  · rw [ne_eq, ← List.nil_append [spaced], ← List.nil_append [tight], render_inj, hspaced, htight]
    decide
  · rw [← List.nil_append [spaced], ← List.nil_append [other], render_inj, hspaced, hother]

end ClassLayout

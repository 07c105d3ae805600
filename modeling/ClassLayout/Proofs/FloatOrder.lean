import Mathlib.Data.Prod.Lex
import Mathlib.Order.Compare

/-!
# ClassLayout.Proofs.FloatOrder

The order of doubles. A double that is not NaN has a *rank*: its kind (an infinity, a number, zero)
with its sign, then its exponent, then its mantissa, compared in this order. One double is less than
another exactly if both have ranks and the first rank is less; so `<` is irreflexive and transitive,
NaN included. This is all that a search which compares costs needs to know of them.
-/

namespace ClassLayout.FloatOrder

open Float.Model

/-- Where a double stands among the others. NaN stands nowhere. -/
def rank : UnpackedFloat → Option (Int ×ₗ Int ×ₗ Int)
  | .notANumber => none
  | .infinity .negative => some (toLex (-2, toLex (0, 0)))
  | .finite .negative m e _ => some (toLex (-1, toLex (-e, -(m : Int))))
  | .zero _ => some (toLex (0, toLex (0, 0)))
  | .finite .positive m e _ => some (toLex (1, toLex (e, (m : Int))))
  | .infinity .positive => some (toLex (2, toLex (0, 0)))

variable {m m' : Nat} {e e' : Int} {hm : 0 < m} {hm' : 0 < m'}

/-- Of two numbers above zero the exponents decide before the mantissas do. -/
theorem positive_lt_iff :
    (UnpackedFloat.finite .positive m e hm).lt (.finite .positive m' e' hm') = true ↔
      e < e' ∨ e = e' ∧ m < m' := by
  have hcompare : (compare e e').then (compare m m') = .lt ↔ e < e' ∨ e = e' ∧ m < m' := by
    rw [Ordering.then_eq_lt, compare_lt_iff_lt, compare_eq_iff_eq, compare_lt_iff_lt]
  rw [UnpackedFloat.lt, beq_iff_eq, ← hcompare]
  exact Option.some_inj

/-- Below zero they decide the other way round. -/
theorem negative_lt_iff :
    (UnpackedFloat.finite .negative m e hm).lt (.finite .negative m' e' hm') = true ↔
      e' < e ∨ e = e' ∧ m' < m := by
  have hcompare : (compare e e').then (compare m m') = .gt ↔ e' < e ∨ e = e' ∧ m' < m := by
    rw [Ordering.then_eq_gt, compare_gt_iff_gt, compare_eq_iff_eq, compare_gt_iff_gt]
  rw [UnpackedFloat.lt, beq_iff_eq, ← hcompare, ← Ordering.swap_eq_lt]
  exact Option.some_inj

/-- Ranks compare by their kinds, then by their exponents, then by their mantissas. -/
theorem toLex_lt_iff (k k' e e' m m' : Int) :
    (toLex (k, toLex (e, m)) : Int ×ₗ Int ×ₗ Int) < toLex (k', toLex (e', m')) ↔
      k < k' ∨ k = k' ∧ (e < e' ∨ e = e' ∧ m < m') := by
  rw [Prod.Lex.toLex_lt_toLex, Prod.Lex.toLex_lt_toLex]

/-- Of two doubles that are not NaN the one with the smaller rank is the lesser. -/
theorem unpackedLt_iff_of_rank {a b : UnpackedFloat} {x y : Int ×ₗ Int ×ₗ Int}
    (ha : rank a = some x) (hb : rank b = some y) : a.lt b = true ↔ x < y := by
  rcases a with (_ | _) | _ | _ | ⟨_ | _, m, e, hm⟩ <;>
    rcases b with (_ | _) | _ | _ | ⟨_ | _, m', e', hm'⟩ <;>
    cases ha <;> cases hb <;> rw [toLex_lt_iff]
  -- numbers of one sign compare by their parts; in all other cases the kinds decide
  case finite.negative.finite.negative =>
    rw [negative_lt_iff]
    omega
  case finite.positive.finite.positive =>
    rw [positive_lt_iff]
    omega
  all_goals first
    | exact iff_of_true rfl (by omega)
    | exact iff_of_false Bool.false_ne_true (by omega)

/-- NaN is neither less than a double nor above one. -/
theorem rank_ne_none_of_unpackedLt {a b : UnpackedFloat} (h : a.lt b = true) :
    rank a ≠ none ∧ rank b ≠ none := by
  rcases a with (_ | _) | _ | _ | ⟨_ | _, m, e, hm⟩ <;>
    rcases b with (_ | _) | _ | _ | ⟨_ | _, m', e', hm'⟩ <;>
    first
    | exact ⟨Option.some_ne_none _, Option.some_ne_none _⟩
    | exact absurd h Bool.false_ne_true

/-- To be less is to have a smaller rank. -/
theorem unpackedLt_iff_rank (a b : UnpackedFloat) :
    a.lt b = true ↔ ∃ x y, rank a = some x ∧ rank b = some y ∧ x < y := by
  constructor
  · intro h
    obtain ⟨ha, hb⟩ := rank_ne_none_of_unpackedLt h
    obtain ⟨x, hx⟩ := Option.ne_none_iff_exists'.mp ha
    obtain ⟨y, hy⟩ := Option.ne_none_iff_exists'.mp hb
    exact ⟨x, y, hx, hy, (unpackedLt_iff_of_rank hx hy).mp h⟩
  · rintro ⟨x, y, hx, hy, hxy⟩
    exact (unpackedLt_iff_of_rank hx hy).mpr hxy

theorem lt_iff_rank (a b : Float) :
    a < b ↔ ∃ x y, rank a.toModel.unpack = some x ∧ rank b.toModel.unpack = some y ∧ x < y := by
  rw [← unpackedLt_iff_rank]
  exact decide_eq_true_iff

/-- No double is less than itself. -/
theorem not_lt_self (a : Float) : ¬ a < a := by
  rw [lt_iff_rank]
  rintro ⟨x, y, hx, hy, hxy⟩
  have hsame : x = y := Option.some.inj (hx.symm.trans hy)
  exact lt_irrefl x (hsame ▸ hxy)

/-- Being less is transitive. -/
theorem lt_of_lt_of_lt {a b c : Float} (hab : a < b) (hbc : b < c) : a < c := by
  rw [lt_iff_rank] at hab hbc ⊢
  obtain ⟨x, y, hx, hy, hxy⟩ := hab
  obtain ⟨y', z, hy', hz, hyz⟩ := hbc
  have hsame : y = y' := Option.some.inj (hy.symm.trans hy')
  subst hsame
  exact ⟨x, z, hx, hz, hxy.trans hyz⟩

end ClassLayout.FloatOrder

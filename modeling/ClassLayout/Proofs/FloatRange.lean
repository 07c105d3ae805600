import ClassLayout.Json.Numeral
import Mathlib.Order.Compare
import Mathlib.Tactic.NormNum
import Mathlib.Tactic.Positivity

/-!
# ClassLayout.Proofs.FloatRange

Natural numbers of 64 bits are far from the largest double. This follows from the exponents alone:
a product of two doubles is rounded to a mantissa of 53 bits, so its exponent exceeds those of the
factors by no more than the number of bits that are dropped. None of the bounds below is sharp.

1. `Modest k f` says that a double is finite, with an exponent of `k` at most.
2. Rounding (`exponentLe_roundWithAccuracy`) and packing (`modest_unpack_pack`) keep exponents low.
3. So products of modest doubles are modest (`modest_mul`), and so are the doubles of natural
   numbers (`modest_toFloat`).
-/

namespace ClassLayout.FloatRange

open Float.Model Float.Model.UnpackedFloat

/-- A finite number whose exponent is not above the given one. -/
inductive ExponentLe (k : Int) : UnpackedFloat → Prop
  | zero (sign : Sign) : ExponentLe k (.zero sign)
  | finite {sign : Sign} {m : Nat} {e : Int} (hm : 0 < m) (he : e ≤ k) :
      ExponentLe k (.finite sign m e hm)

/-- A finite number with a mantissa of 53 bits whose exponent is not above the given one. -/
inductive Modest (k : Int) : UnpackedFloat → Prop
  | zero (sign : Sign) : Modest k (.zero sign)
  | finite {sign : Sign} {m : Nat} {e : Int} (hm : 0 < m) (hlt : m < 2 ^ 53) (he : e ≤ k) :
      Modest k (.finite sign m e hm)

/-! ## Rounding -/

theorem mantissa_shiftRight_le (em : ExtendedMantissa) (n : Nat) :
    (em >>> n).mantissa ≤ em.mantissa := by
  induction n with
  | zero => exact Nat.le_refl _
  | succ n ih =>
      have hhalf : (em >>> (n + 1)).mantissa = (em >>> n).mantissa / 2 := rfl
      omega

theorem roundedMantissa_le (em : ExtendedMantissa) : em.roundedMantissa ≤ em.mantissa + 1 := by
  obtain ⟨m, round, sticky⟩ := em
  cases round <;> cases sticky <;>
    simp [ExtendedMantissa.roundedMantissa, ExtendedMantissa.accuracy,
      Accuracy.roundToNearestEven]
  omega

theorem mantissa_ofMantissaAndAccuracy (m : Nat) (accuracy : Accuracy) :
    (ExtendedMantissa.ofMantissaAndAccuracy m accuracy).mantissa = m := by
  cases accuracy with
  | exact => rfl
  | inexact order => cases order <;> rfl

/-- The exponent at which a mantissa has 53 bits, or the least one that there is. -/
theorem targetExponent_totalExponent (m : Nat) (e : Int) :
    Format.binary64.targetExponent (totalExponent m e) = max (m.log2 + 1 + e - 53) (-1074) := rfl

theorem shiftToTargetExponent_snd (m : Nat) (e : Int) (accuracy : Accuracy) :
    (shiftToTargetExponent .binary64 m e accuracy).2 =
      e + (max (m.log2 + 1 + e - 53) (-1074) - e).toNat := rfl

/-- Shifting drops bits, and raises the exponent by no more than there are. -/
theorem shiftToTargetExponent_le {m b : Nat} {e : Int} (hm : m < 2 ^ b) (accuracy : Accuracy) :
    (shiftToTargetExponent .binary64 m e accuracy).1.mantissa ≤ m ∧
      -1074 ≤ (shiftToTargetExponent .binary64 m e accuracy).2 ∧
      (shiftToTargetExponent .binary64 m e accuracy).2 ≤ max e (-1074) + b := by
  have hlog : m.log2 ≤ b := by
    by_cases hzero : m = 0
    · simp [hzero]
    · exact Nat.le_of_lt ((Nat.log2_lt hzero).mpr hm)
  refine ⟨?_, ?_, ?_⟩
  · have hle := mantissa_shiftRight_le (.ofMantissaAndAccuracy m accuracy)
      (Format.binary64.targetExponent (totalExponent m e) - e).toNat
    rwa [mantissa_ofMantissaAndAccuracy] at hle
  · rw [shiftToTargetExponent_snd]
    omega
  · rw [shiftToTargetExponent_snd]
    omega

theorem exponentLe_roundWithAccuracy {m b : Nat} {e k : Int} (hm : m < 2 ^ b)
    (hk : max e (-1074) + 2 * b + 1 ≤ k) (sign : Sign) (accuracy : Accuracy) :
    ExponentLe k (roundWithAccuracy .binary64 sign m e accuracy) := by
  obtain ⟨hmantissa, hleast, hexponent⟩ := shiftToTargetExponent_le (e := e) hm accuracy
  rw [roundWithAccuracy]
  generalize shiftToTargetExponent .binary64 m e accuracy = shifted at *
  obtain ⟨em, e₁⟩ := shifted
  dsimp only at hmantissa hleast hexponent ⊢
  -- rounding up may carry into one more bit, which is shifted out again
  have hrounded : em.roundedMantissa < 2 ^ (b + 1) := by
    have hle := roundedMantissa_le em
    rw [pow_succ]
    omega
  obtain ⟨-, -, hexponent'⟩ := shiftToTargetExponent_le (e := e₁) hrounded .exact
  generalize shiftToTargetExponent .binary64 em.roundedMantissa e₁ .exact = shifted at *
  obtain ⟨em₂, e₂⟩ := shifted
  dsimp only at hexponent' ⊢
  by_cases hzero : em₂.mantissa = 0
  · rw [dif_pos hzero]
    exact .zero sign
  · rw [dif_neg hzero]
    exact .finite _ (by omega)

/-! ## Packing -/

/-- What is unpacked is finite unless all bits of the exponent are set. -/
theorem modest_unpack {k : Int} (bits : BitVec Format.binary64.numBits)
    (hlt : (unpackExponent bits).toNat < 2047) (hk : ((unpackExponent bits).toNat : Int) - 1075 ≤ k)
    (hleast : -1074 ≤ k) : Modest k (UnpackedFloat.unpack .binary64 bits) := by
  have hmantissa : (unpackMantissa bits).toNat < 2 ^ 52 := (unpackMantissa bits).isLt
  have himplicit : (1#1 ++ unpackMantissa bits).toNat < 2 ^ 53 := (1#1 ++ unpackMantissa bits).isLt
  have hbias : (Format.binary64.exponentBias : Int) = 1023 := rfl
  have hfinite : unpackExponent bits ≠ -1#11 := by
    intro hset
    rw [hset] at hlt
    exact absurd hlt (by decide)
  unfold UnpackedFloat.unpack
  dsimp only
  rw [if_neg hfinite]
  by_cases hexponent : unpackExponent bits = 0#11
  · have hzero : (unpackExponent bits).toNat = 0 := by
      rw [hexponent]
      rfl
    rw [if_pos hexponent]
    by_cases hbits : unpackMantissa bits = 0#52
    · rw [dif_pos hbits]
      exact .zero _
    · rw [dif_neg hbits]
      refine .finite _ (by omega) ?_
      rw [hzero, hbias]
      omega
  · rw [if_neg hexponent]
    refine .finite _ himplicit ?_
    rw [hbias]
    omega

theorem modest_unpack_packComponents {k : Int} (sign : Sign) (exponent : BitVec 11)
    (mantissa : BitVec 52) (hlt : exponent.toNat < 2047) (hk : (exponent.toNat : Int) - 1075 ≤ k)
    (hleast : -1074 ≤ k) :
    Modest k
      (UnpackedFloat.unpack .binary64 (packComponents .binary64 sign exponent mantissa)) := by
  refine modest_unpack _ ?_ ?_ hleast
  · rwa [unpackExponent_packComponents]
  · rwa [unpackExponent_packComponents]

theorem modest_unpack_pack {f : UnpackedFloat} {k : Int} (hf : ExponentLe k f) (hk : -1074 ≤ k)
    (hk' : k ≤ 971) :
    Modest k (UnpackedFloat.unpack .binary64 (UnpackedFloat.pack .binary64 f)) := by
  cases hf with
  | zero sign => exact modest_unpack_packComponents sign 0 0 (by decide) (by simp; omega) hk
  | @finite sign m e hm he =>
      have hbias : (Format.binary64.exponentBias : Int) = 1023 := rfl
      unfold UnpackedFloat.pack
      dsimp only
      rw [hbias]
      rw [if_neg (by norm_num; omega)]
      split
      · have hexponent : (BitVec.ofNat 11 (e + 1023 + (52 : Nat)).toNat).toNat =
            (e + 1023 + (52 : Nat)).toNat := by
          rw [BitVec.toNat_ofNat, Nat.mod_eq_of_lt (by norm_num; omega)]
        refine modest_unpack_packComponents sign _ _ ?_ ?_ hk
        · rw [hexponent]
          omega
        · rw [hexponent]
          omega
      · exact modest_unpack_packComponents sign 0 _ (by decide) (by simp; omega) hk

/-! ## Products -/

theorem exponentLe_mul {f g : UnpackedFloat} {j k l : Int} (hf : Modest j f) (hg : Modest k g)
    (hl : max (j + k) (-1074) + 213 ≤ l) : ExponentLe l (UnpackedFloat.mul .binary64 f g) := by
  cases hf with
  | zero sign =>
      cases hg with
      | zero sign' => exact .zero _
      | finite hm' hlt' he' => exact .zero _
  | @finite sign m e hm hlt he =>
      cases hg with
      | zero sign' => exact .zero _
      | @finite sign' m' e' hm' hlt' he' =>
          have hproduct : m * m' < 2 ^ 106 := by
            calc m * m' < 2 ^ 53 * 2 ^ 53 := Nat.mul_lt_mul'' hlt hlt'
              _ = 2 ^ 106 := by norm_num
          exact exponentLe_roundWithAccuracy hproduct (by omega) _ _

theorem modest_mul {x y : Float} {j k l : Int} (hx : Modest j x.toModel.unpack)
    (hy : Modest k y.toModel.unpack) (hl : max (j + k) (-1074) + 213 ≤ l) (hl' : l ≤ 971) :
    Modest l (x * y).toModel.unpack :=
  modest_unpack_pack (exponentLe_mul hx hy hl) (by omega) hl'

theorem isInf_of_modest {x : Float} {k : Int} (h : Modest k x.toModel.unpack) :
    x.isInf = false := by
  have hmodel : x.isInf = x.toModel.unpack.isInf := rfl
  rw [hmodel]
  generalize x.toModel.unpack = f at h
  cases h with
  | zero sign => rfl
  | finite hm hlt he => rfl

/-! ## Natural numbers -/

theorem exponentLe_round {m : Nat} (hm : m < 2 ^ 64) (sign : Sign) :
    ExponentLe 300 (UnpackedFloat.round .binary64 sign m 0) := by
  have hshift : (0 - Format.binary64.targetExponent (totalExponent m 0)).toNat ≤ 52 := by
    rw [targetExponent_totalExponent]
    omega
  unfold UnpackedFloat.round decreaseExponent
  dsimp only
  generalize (0 - Format.binary64.targetExponent (totalExponent m 0)).toNat = shift at *
  have hmantissa : m <<< shift < 2 ^ 116 := by
    rw [Nat.shiftLeft_eq]
    calc m * 2 ^ shift < 2 ^ 64 * 2 ^ shift := Nat.mul_lt_mul_of_pos_right hm (by positivity)
      _ ≤ 2 ^ 64 * 2 ^ 52 := Nat.mul_le_mul_left _ (Nat.pow_le_pow_right (by decide) hshift)
      _ = 2 ^ 116 := by norm_num
  exact exponentLe_roundWithAccuracy hmantissa (by omega) sign .exact

theorem modest_one : Modest (-52) (Float.ofBits 0x3FF0000000000000).toModel.unpack :=
  modest_unpack_packComponents .positive 1023 0 (by decide) (by decide) (by decide)

theorem modest_toFloat_uInt64 (n : UInt64) : Modest 300 n.toFloat.toModel.unpack := by
  refine modest_unpack_pack (f := ofUInt64 .binary64 n) ?_ (by decide) (by decide)
  simp only [UnpackedFloat.ofUInt64, UnpackedFloat.ofNat, UnpackedFloat.ofInt,
    UnpackedFloat.normalize]
  split
  · next hneg =>
      rw [compare_lt_iff_lt] at hneg
      omega
  · exact .zero _
  · exact exponentLe_round n.toNat_lt _

theorem exponentLe_ofScientific {n : Nat} (hn : n < 2 ^ 64) :
    ExponentLe 500 (UnpackedFloat.ofScientific .binary64 n 0) := by
  by_cases hzero : n = 0
  · rw [UnpackedFloat.ofScientific, dif_pos hzero]
    exact .zero _
  · have hproduct : n <<< 53 * 1 < 2 ^ 117 := by
      rw [Nat.shiftLeft_eq]
      omega
    have hround := exponentLe_roundWithAccuracy (e := -53 + 0) (k := 500) hproduct (by decide)
      (.positive * .positive) .exact
    rw [UnpackedFloat.ofScientific, dif_neg hzero, if_neg (by decide), if_neg (by norm_num),
      if_pos (by decide)]
    exact hround

/-- A natural number of 64 bits is converted digit by digit, or exactly if it has 53 bits. -/
theorem modest_toFloat {n : Nat} (hn : n < 2 ^ 64) : Modest 500 n.toFloat.toModel.unpack := by
  have hscientific : n.toFloat = Float.ofScientific n false 0 := rfl
  rw [hscientific, Float.ofScientific]
  split
  · exact modest_mul (modest_toFloat_uInt64 _) modest_one (by decide) (by decide)
  · exact modest_unpack_pack (exponentLe_ofScientific hn) (by decide) (by decide)

end ClassLayout.FloatRange

import ClassLayout.Json.Token
import ClassLayout.Proofs.FloatRange

/-!
# ClassLayout.Proofs.Numerals

Integers as JSON numbers. Their decimal digits have no zero in front (`head?_toDigits`), so a number
is read back digit by digit (`scanNumber_toDigits`), up to whatever cannot belong to it. A natural
number of 64 bits has the value that it was written for (`toNat?_ofInt`), and is never too large for
a double (`isInRange_ofInt`).
-/

namespace ClassLayout.Json

/-! ## Digits -/

theorem ofDigits_toDigits (n : Nat) : Decimal.ofDigits (Nat.toDigits 10 n) = n := by
  have hread : Nat.ofDigitChars 10 (Nat.toDigits 10 n) 0 = n := Nat.ofDigitChars_ten_toDigits
  rwa [Nat.ofDigitChars_eq_foldl] at hread

/-- Only zero is written with a zero in front. -/
theorem head?_toDigits {n : Nat} (h : (Nat.toDigits 10 n).head? = some '0') : n = 0 := by
  induction n using Nat.strong_induction_on with
  | _ n ih =>
      by_cases hsmall : n < 10
      · rw [Nat.toDigits_of_lt_base hsmall] at h
        have hdigit : ∀ m < 10, m.digitChar = '0' → m = 0 := by decide
        exact hdigit n hsmall (Option.some.inj h)
      · have hten : 10 ≤ n := by omega
        rw [Nat.toDigits_of_base_le (by decide) hten,
          List.head?_append_of_ne_nil _ Nat.toDigits_ne_nil] at h
        have hzero := ih (n / 10) (by omega) h
        omega

/-! ## Values -/

namespace Numeral

/-- Appending digits never makes a number smaller. -/
theorem le_foldl_digits (digits : List Char) (value : Nat) :
    value ≤ digits.foldl (fun value c => 10 * value + (c.toNat - 48)) value := by
  induction digits generalizing value with
  | nil => exact Nat.le_refl _
  | cons c digits ih =>
      have hrest := ih (10 * value + (c.toNat - 48))
      rw [List.foldl_cons]
      omega

/-- All digits are appended if the whole number fits. -/
theorem append_of_lt {digits : List Char} {value : Nat}
    (h : digits.foldl (fun value c => 10 * value + (c.toNat - 48)) value < 0x10000000000000000) :
    append value digits =
      (digits.foldl (fun value c => 10 * value + (c.toNat - 48)) value, 0) := by
  induction digits generalizing value with
  | nil => rfl
  | cons c digits ih =>
      rw [List.foldl_cons] at h ⊢
      have hnext := le_foldl_digits digits (10 * value + (c.toNat - 48))
      rw [append, if_pos (by omega), ih h]

variable {n : Nat} (hn : n < 2 ^ 64)

include hn

theorem toNat?_ofInt : (ofInt n).toNat? = some n := by
  have hvalue : (ofInt n).wholeValue = n := ofDigits_toDigits n
  have hword : n < 0x10000000000000000 := hn
  rw [toNat?, hvalue]
  simp [ofInt, hword]

theorem leading_ofInt : (ofInt n).leading = (n, 0) := by
  have hdigits : append 0 (Nat.toDigits 10 n) = (n, 0) := by
    have hvalue := ofDigits_toDigits n
    rw [Decimal.ofDigits] at hvalue
    have hword : n < 0x10000000000000000 := hn
    rw [append_of_lt (by rw [hvalue]; exact hword), hvalue]
  simp [leading, ofInt, hdigits, append]

/-- A natural number of 64 bits is not too large for a double. -/
theorem isInRange_ofInt : (ofInt n).isInRange = true := by
  have hone : powerOfTen 0 = Float.ofBits 0x3FF0000000000000 := by rfl
  have hmodest := FloatRange.modest_mul (FloatRange.modest_toFloat hn) FloatRange.modest_one
    (l := 700) (by decide) (by decide)
  have hfinite : (n.toFloat * powerOfTen 0).isInf = false := by
    rw [hone]
    exact FloatRange.isInf_of_modest hmodest
  rw [isInRange, magnitude?, leading_ofInt hn]
  simp [times?, hfinite]

end Numeral

/-! ## Reading -/

/-- The text does not go on with something that could belong to a number. -/
def EndsNumber (rest : List Char) : Prop :=
  ∀ c ∈ rest.head?, c.isDigit = false ∧ c ≠ '.' ∧ c ≠ 'e' ∧ c ≠ 'E'

namespace Token

variable {rest : List Char}

theorem scanExponent_of_endsNumber (hrest : EndsNumber rest) (negative : Bool) (whole : List Char) :
    scanExponent negative whole [] true rest =
      (.number { negative, whole, fraction := [], exponent := 0, isInteger := true }, rest) := by
  cases rest with
  | nil => rfl
  | cons c rest =>
      obtain ⟨-, -, he, hE⟩ := hrest c rfl
      simp [scanExponent, he, hE]

theorem scanFraction_of_endsNumber (hrest : EndsNumber rest) (negative : Bool) (whole : List Char) :
    scanFraction negative whole rest =
      (.number { negative, whole, fraction := [], exponent := 0, isInteger := true }, rest) := by
  rw [← scanExponent_of_endsNumber hrest]
  cases rest with
  | nil => rfl
  | cons c rest =>
      obtain ⟨-, hpoint, -⟩ := hrest c rfl
      simp [scanFraction, hpoint]

/-- A number is read up to its last digit. -/
theorem scanNumber_toDigits (hrest : EndsNumber rest) (negative : Bool) (n : Nat) :
    scanNumber negative (Nat.toDigits 10 n ++ rest) =
      (.number {
        negative, whole := Nat.toDigits 10 n, fraction := [], exponent := 0, isInteger := true },
        rest) := by
  have hdigits : ∀ c ∈ Nat.toDigits 10 n, c.isDigit = true := fun c hc =>
    Nat.isDigit_of_mem_toDigits (by decide) (by decide) hc
  have hnone : rest.takeWhile Char.isDigit = [] ∧ rest.dropWhile Char.isDigit = rest := by
    cases rest with
    | nil => exact ⟨rfl, rfl⟩
    | cons c rest => simp [(hrest c rfl).1]
  have htake : (Nat.toDigits 10 n ++ rest).takeWhile Char.isDigit = Nat.toDigits 10 n := by
    rw [List.takeWhile_append_of_pos hdigits, hnone.1, List.append_nil]
  have hdrop : (Nat.toDigits 10 n ++ rest).dropWhile Char.isDigit = rest := by
    rw [List.dropWhile_append_of_pos hdigits, hnone.2]
  rw [scanNumber, htake, hdrop]
  split
  · next hempty => exact absurd hempty Nat.toDigits_ne_nil
  · next second others hzero =>
      have hn : n = 0 := head?_toDigits (by rw [hzero]; rfl)
      rw [hn, Nat.toDigits_zero] at hzero
      simp at hzero
  · exact scanFraction_of_endsNumber hrest negative _

end Token

end ClassLayout.Json

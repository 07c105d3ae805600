/-!
# ClassLayout.Word

Numbers of 64 bits. The lines of a class and the dimensions of an array are given from outside and may be
any of them, so whatever is computed from them keeps its lowest 64 bits and loses the rest. What counts the
parts of a class (its methods, their indices, their calls) is bounded by the class itself and needs no
such care.

Where a difference is asked for, a number is read as a signed one: the upper half of the range stands for
the negative numbers. The operations agree with those on all numbers as long as the result is in range
(`addWords_of_lt`, `toSigned_of_inRange`). Otherwise they are off by a multiple of 2^64, and the least
signed number has no absolute value but itself (`absSigned_least`).
-/

namespace ClassLayout

/-- The lowest 64 bits of a number. -/
def toWord (n : Nat) : Nat :=
  n % 0x10000000000000000

/-- The lowest 64 bits of a number, read as a signed one. -/
def toSigned (n : Int) : Int :=
  Int.bmod n 0x10000000000000000

/-- The sum of two numbers of 64 bits. -/
def addWords (m n : Nat) : Nat :=
  toWord (m + n)

/-- A natural number read as a signed number of 64 bits. -/
def signedWord (n : Nat) : Int :=
  toSigned n

/-- The sum of two signed numbers. -/
def addSigned (a b : Int) : Int :=
  toSigned (a + b)

/-- The difference of two signed numbers. -/
def subSigned (a b : Int) : Int :=
  toSigned (a - b)

/-- The absolute value of a signed number. -/
def absSigned (a : Int) : Int :=
  toSigned a.natAbs

/-! ## Sums -/

theorem toWord_lt (n : Nat) : toWord n < 0x10000000000000000 :=
  Nat.mod_lt n (by decide)

theorem toWord_of_lt {n : Nat} (h : n < 0x10000000000000000) : toWord n = n :=
  Nat.mod_eq_of_lt h

/-- What a sum has lost is not missed in a further one. -/
theorem toWord_addWords_add (l m n : Nat) : toWord (addWords l m + n) = toWord (l + (m + n)) := by
  rw [← Nat.add_assoc]
  exact Nat.mod_add_mod (l + m) _ n

theorem addWords_lt (m n : Nat) : addWords m n < 0x10000000000000000 :=
  toWord_lt (m + n)

/-- The range of the signed numbers. -/
def InSignedRange (a : Int) : Prop :=
  -0x8000000000000000 ≤ a ∧ a < 0x8000000000000000

instance (a : Int) : Decidable (InSignedRange a) :=
  inferInstanceAs (Decidable (_ ∧ _))

theorem inSignedRange_toSigned (a : Int) : InSignedRange (toSigned a) :=
  ⟨Int.le_bmod (by decide), Int.bmod_lt (by decide)⟩

theorem toSigned_of_inRange {a : Int} (h : InSignedRange a) : toSigned a = a := by
  obtain ⟨hlow, hhigh⟩ := h
  unfold toSigned
  exact Int.bmod_eq_of_le (by omega) (by omega)

theorem inSignedRange_signedWord (n : Nat) : InSignedRange (signedWord n) := by
  unfold signedWord
  exact inSignedRange_toSigned n

/-- Numbers of the lower half of the range keep their value. -/
theorem signedWord_of_lt {n : Nat} (h : n < 0x8000000000000000) : signedWord n = n :=
  toSigned_of_inRange ⟨by omega, by omega⟩

/-- A sum in range is the sum of the numbers, even if one of them is read as a negative one. -/
theorem addSigned_signedWord {n : Nat} {a : Int} (h : InSignedRange (n + a)) :
    addSigned (signedWord n) a = n + a := by
  unfold addSigned signedWord toSigned
  rw [Int.bmod_add_bmod]
  exact toSigned_of_inRange h

theorem subSigned_signedWord {m n : Nat} (hm : m < 0x8000000000000000)
    (hn : n < 0x8000000000000000) : subSigned (signedWord m) (signedWord n) = m - n := by
  rw [signedWord_of_lt hm, signedWord_of_lt hn]
  exact toSigned_of_inRange ⟨by omega, by omega⟩

theorem absSigned_of_lt {a : Int} (h : a.natAbs < 0x8000000000000000) : absSigned a = a.natAbs :=
  toSigned_of_inRange ⟨by omega, by omega⟩

/-- Every signed number but the least has an absolute value. -/
theorem absSigned_nonneg {a : Int} (h : InSignedRange a) (hleast : a ≠ -0x8000000000000000) :
    0 ≤ absSigned a := by
  obtain ⟨hlow, hhigh⟩ := h
  rw [absSigned_of_lt (by omega)]
  omega

theorem absSigned_least : absSigned (-0x8000000000000000) = -0x8000000000000000 := by decide

/-- Numbers of the upper half are read as negative ones. -/
theorem signedWord_neg {n : Nat} (hupper : 0x8000000000000000 ≤ n)
    (hword : n < 0x10000000000000000) : signedWord n < 0 := by
  unfold signedWord toSigned
  exact (Int.bmod_neg_iff (by omega) (by omega)).mpr (by omega)

end ClassLayout

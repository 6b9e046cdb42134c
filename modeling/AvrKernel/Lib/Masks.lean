import Mathlib.Data.Nat.Bitwise

/-!
# Bit masks

What is left of a number under a mask for its upper bits.
-/

namespace Masks

/-- A mask that clears the `n` lower bits rounds down. -/
theorem and_upper {x n k : Nat} (h : x < 2 ^ (n + k)) :
    x &&& (2 ^ k - 1) <<< n = x / 2 ^ n * 2 ^ n := by
  have hfloor : x / 2 ^ n * 2 ^ n = x >>> n <<< n := by
    rw [Nat.shiftRight_eq_div_pow, Nat.shiftLeft_eq]
  rw [hfloor]
  apply Nat.eq_of_testBit_eq
  intro i
  rw [Nat.testBit_and, Nat.testBit_shiftLeft, Nat.testBit_shiftLeft, Nat.testBit_shiftRight,
    Nat.testBit_two_pow_sub_one]
  by_cases hlow : n ≤ i
  · have hi : n + (i - n) = i := by omega
    by_cases hhigh : i < n + k
    · have hbits : i - n < k := by omega
      simp [hi, hlow, hbits]
    · have hpow : 2 ^ (n + k) ≤ 2 ^ i := Nat.pow_le_pow_right (by decide) (Nat.not_lt.mp hhigh)
      have hbit : x.testBit i = false := Nat.testBit_lt_two_pow (Nat.lt_of_lt_of_le h hpow)
      simp [hbit, hi]
  · simp [hlow]

end Masks

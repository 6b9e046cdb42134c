import Mathlib.Algebra.Order.Ring.Int

/-!
# Signed integers

Integers of some width in two's complement: what is left of an integer that is stored in one.
-/

namespace Signed

/-- The integer of so many bits that `x` is stored as; the last bit is its sign. -/
def wrap (bits : Nat) (x : Int) : Int := x.bmod (2 ^ bits)

abbrev int16 : Int → Int := wrap 16

abbrev int32 : Int → Int := wrap 32

variable {bits : Nat} {x : Int}

/-- Small enough integers are kept. -/
theorem wrap_eq (hlow : -2 ^ bits ≤ 2 * x) (hhigh : 2 * x < 2 ^ bits) : wrap bits x = x := by
  rw [wrap, Int.bmod_eq_of_le_mul_two]
  · push_cast
    omega
  · push_cast
    omega

theorem natAbs_wrap_lt {width : Nat} (hbits : bits ≤ width) (x : Int) :
    (wrap bits x).natAbs < 2 ^ width := by
  have hlow := Int.le_bmod (x := x) (Nat.two_pow_pos bits)
  have hhigh := Int.bmod_lt (x := x) (Nat.two_pow_pos bits)
  have hpow : 2 ^ bits ≤ 2 ^ width := Nat.pow_le_pow_right (by decide) hbits
  rw [wrap]
  omega

/-- What was stored before in an unsigned integer of the same width. -/
theorem wrap_mod (bits n : Nat) : wrap bits ((n % 2 ^ bits : Nat) : Int) = wrap bits n := by
  rw [wrap, wrap, Int.natCast_emod]
  exact Int.emod_bmod _ _

end Signed

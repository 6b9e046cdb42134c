import AvrKernel.Lib.Loops
import Mathlib.Data.UInt
import Mathlib.Tactic.Common
import Mathlib.Tactic.Ring

/-!
# 64-bit division

`util/div6432.c`: the divisor is shifted to the left until it is above the dividend or its
top bit is set, and back again with a subtraction wherever it fits.
-/

namespace AvrKernel.Util

open Loops

/-- The variables of `__udivmoddi4`. -/
structure Division where
  num : UInt64
  den : UInt64
  quot : UInt64
  qbit : UInt64

namespace Division

/-- `(int64_t)den >= 0 && den <= num`. -/
def aligns (v : Division) : Bool := 0 ≤ v.den.toInt64 ∧ v.den ≤ v.num

def align (v : Division) : Division :=
  { v with den := v.den <<< 1, qbit := v.qbit <<< 1 }

/-- `qbit > 0`. -/
def subtracts (v : Division) : Bool := 0 < v.qbit

def subtract (v : Division) : Division :=
  let v := if v.num ≥ v.den then { v with num := v.num - v.den, quot := v.quot ||| v.qbit } else v
  { v with den := v.den >>> 1, qbit := v.qbit >>> 1 }

/-- The loop that aligns the divisor with the dividend. -/
def alignment (fuel : Nat) : Division → Option Division := whileDo aligns (some ∘ align) fuel

def subtraction (fuel : Nat) : Division → Option Division :=
  whileDo subtracts (some ∘ subtract) fuel

/-- The variables as they are declared. -/
def start (num den : UInt64) : Division := { num, den, quot := 0, qbit := 1 }

end Division

/-- `__udivmoddi4`: the quotient, and what it stores through `rem` unless that is `NULL`. -/
def udivmoddi4 (fuel : Nat) (num den : UInt64) (rem : Bool) : Option (UInt64 × Option UInt64) :=
  if den = 0 then some (0, if rem then some num else none)
  else do
    let v ← Division.alignment fuel (.start num den)
    let v ← Division.subtraction fuel v
    some (v.quot, if rem then some v.num else none)

/-- `__udivdi3`. -/
def udivdi3 (fuel : Nat) (num den : UInt64) : Option UInt64 :=
  (udivmoddi4 fuel num den false).map Prod.fst

/-- `__umoddi3`. -/
def umoddi3 (fuel : Nat) (num den : UInt64) : Option UInt64 :=
  (udivmoddi4 fuel num den true).bind Prod.snd

/-! ## Alignment -/

theorem toNat_shiftLeft_one {x : UInt64} (h : x.toNat < 2 ^ 63) :
    (x <<< 1).toNat = 2 * x.toNat := by
  rw [UInt64.toNat_shiftLeft, UInt64.toNat_one, Nat.one_mod, Nat.shiftLeft_eq, pow_one,
    Nat.mod_eq_of_lt (by omega), Nat.mul_comm]

theorem toNat_shiftRight_one (x : UInt64) : (x >>> 1).toNat = x.toNat / 2 := by
  rw [UInt64.toNat_shiftRight, UInt64.toNat_one, Nat.one_mod, Nat.shiftRight_eq_div_pow, pow_one]

theorem toInt64_nonneg_iff (x : UInt64) : 0 ≤ x.toInt64 ↔ x.toNat < 2 ^ 63 := by
  have hx := x.toNat_lt
  rw [Int64.le_iff_toInt_le, ← Int64.toInt_toBitVec x.toInt64, UInt64.toBitVec_toInt64,
    BitVec.toInt_eq_toNat_bmod, UInt64.toNat_toBitVec]
  simp only [Int64.toInt_zero, Int.bmod]
  omega

namespace Division

variable {v : Division} {num den : UInt64} {j : Nat}

theorem aligns_iff : v.aligns = true ↔ v.den.toNat < 2 ^ 63 ∧ v.den.toNat ≤ v.num.toNat := by
  simp only [aligns, decide_eq_true_eq, toInt64_nonneg_iff, UInt64.le_iff_toNat_le]

/-- The divisor and the bit of the quotient have been shifted to the left, `j` more shifts
have room. -/
structure Aligning (num den : UInt64) (j : Nat) (v : Division) : Prop where
  dividend : v.num = num
  quotient : v.quot = 0
  shifted : ∃ i, i + j = 63 ∧ v.qbit.toNat = 2 ^ i ∧ v.den.toNat = den.toNat * 2 ^ i

theorem Aligning.start (num den : UInt64) : Aligning num den 63 (.start num den) where
  dividend := rfl
  quotient := rfl
  shifted := ⟨0, rfl, rfl, by simp [Division.start]⟩

/-- While the top bit of the divisor is clear, no set bit is lost. -/
theorem Aligning.lossless (h : Aligning num den j v) (hden : 0 < den) (hagain : v.aligns = true) :
    0 < j ∧ (v.den <<< 1).toNat = 2 * v.den.toNat ∧
      (v.qbit <<< 1).toNat = 2 * v.qbit.toNat := by
  obtain ⟨i, hi, hqbit, hshifted⟩ := h.shifted
  obtain ⟨htop, -⟩ := aligns_iff.mp hagain
  have hpos : 1 ≤ den.toNat := UInt64.lt_iff_toNat_lt.mp hden
  have hle : v.qbit.toNat ≤ v.den.toNat := by
    rw [hqbit, hshifted]
    exact Nat.le_mul_of_pos_left _ hpos
  have hroom : i < 63 := by
    apply (Nat.pow_lt_pow_iff_right (a := 2) (by decide)).mp
    omega
  exact ⟨by omega, toNat_shiftLeft_one htop, toNat_shiftLeft_one (by omega)⟩

theorem Aligning.rounds (hden : 0 < den) : Rounds aligns (some ∘ align) (Aligning num den) := by
  intro j v h hagain
  obtain ⟨hj, hdouble, hbit⟩ := h.lossless hden hagain
  obtain ⟨i, hi, hqbit, hshifted⟩ := h.shifted
  refine ⟨v.align, j - 1, rfl, by omega, h.dividend, h.quotient, i + 1, by omega, ?_, ?_⟩
  · rw [align, hbit, hqbit]
    ring
  · rw [align, hdouble, hshifted]
    ring

/-! ## Subtraction -/

/-- `k` rounds are left; the divisor has been shifted to the left by one less. What is left of
the dividend is below twice the divisor, and the bits of the quotient below `qbit` are clear. -/
structure Subtracting (num den : UInt64) (k : Nat) (v : Division) : Prop where
  qbit : v.qbit.toNat = 2 ^ k / 2
  shifted : v.den.toNat = den.toNat * 2 ^ k / 2
  product : num.toNat = v.quot.toNat * den.toNat + v.num.toNat
  below : v.num.toNat < den.toNat * 2 ^ k
  clear : 2 ^ k ∣ v.quot.toNat

/-- The end of the alignment: the divisor is above the dividend, or it cannot be doubled. -/
theorem Aligning.aligned (h : Aligning num den j v) (hstop : v.aligns = false) :
    ∃ k ≤ 64, Subtracting num den k v := by
  obtain ⟨i, hi, hqbit, hshifted⟩ := h.shifted
  have hlt := v.num.toNat_lt
  have hbelow : v.num.toNat < 2 * v.den.toNat := by
    rw [← Bool.not_eq_true, aligns_iff] at hstop
    omega
  have hpow : 2 ^ (i + 1) = 2 * 2 ^ i := by ring
  refine ⟨i + 1, by omega, ?_, ?_, ?_, ?_, ?_⟩
  · rw [hqbit]
    omega
  · rw [hshifted, hpow, Nat.mul_left_comm]
    omega
  · rw [h.quotient, h.dividend, UInt64.toNat_zero, Nat.zero_mul, Nat.zero_add]
  · rw [hpow, Nat.mul_left_comm, ← hshifted]
    exact hbelow
  · rw [h.quotient]
    exact dvd_zero _

theorem subtracts_iff : v.subtracts = true ↔ v.qbit.toNat ≠ 0 := by
  rw [subtracts, decide_eq_true_eq, UInt64.lt_iff_toNat_lt, UInt64.toNat_zero, Nat.pos_iff_ne_zero]

theorem toNat_or_of_dvd {x y : UInt64} {k : Nat} (hx : 2 ^ (k + 1) ∣ x.toNat)
    (hy : y.toNat = 2 ^ k) : (x ||| y).toNat = x.toNat + 2 ^ k := by
  obtain ⟨a, ha⟩ := hx
  have hlt : 2 ^ k < 2 ^ (k + 1) := Nat.pow_lt_pow_succ (by decide)
  rw [UInt64.toNat_or, hy, ha, Nat.two_pow_add_eq_or_of_lt hlt]

/-- A round subtracts the divisor where it fits and moves on to the next bit. -/
theorem Subtracting.step {k : Nat} (h : Subtracting num den (k + 1) v) :
    Subtracting num den k v.subtract := by
  obtain ⟨hqbit, hshifted, hproduct, hbelow, hclear⟩ := h
  have hpow : 2 ^ (k + 1) = 2 * 2 ^ k := by ring
  have hdouble : den.toNat * 2 ^ (k + 1) = 2 * (den.toNat * 2 ^ k) := by ring
  rw [hpow, Nat.mul_div_cancel_left _ (by decide)] at hqbit
  rw [hdouble, Nat.mul_div_cancel_left _ (by decide)] at hshifted
  rw [hdouble] at hbelow
  by_cases hfits : v.num ≥ v.den
  · have hle : v.den.toNat ≤ v.num.toNat := UInt64.le_iff_toNat_le.mp hfits
    have hquot : (v.quot ||| v.qbit).toNat = v.quot.toNat + 2 ^ k := toNat_or_of_dvd hclear hqbit
    have hnum : (v.num - v.den).toNat = v.num.toNat - v.den.toNat :=
      UInt64.toNat_sub_of_le _ _ hfits
    simp only [subtract, if_pos hfits]
    refine ⟨?_, ?_, ?_, ?_, ?_⟩
    · rw [toNat_shiftRight_one, hqbit]
    · rw [toNat_shiftRight_one, hshifted]
    · rw [hquot, hnum, hproduct, Nat.add_mul, Nat.mul_comm (2 ^ k), ← hshifted]
      omega
    · rw [hnum, ← hshifted]
      omega
    · rw [hquot]
      exact (Nat.dvd_add_right (Dvd.dvd.trans (pow_dvd_pow 2 (Nat.le_succ k)) hclear)).mpr dvd_rfl
  · have hlt : v.num.toNat < v.den.toNat := UInt64.lt_iff_toNat_lt.mp (UInt64.not_le.mp hfits)
    simp only [subtract, if_neg hfits]
    refine ⟨?_, ?_, hproduct, ?_, Dvd.dvd.trans (pow_dvd_pow 2 (Nat.le_succ k)) hclear⟩
    · rw [toNat_shiftRight_one, hqbit]
    · rw [toNat_shiftRight_one, hshifted]
    · rw [← hshifted]
      exact hlt

theorem Subtracting.rounds : Rounds subtracts (some ∘ subtract) (Subtracting num den) := by
  intro k v h hagain
  cases k with
  | zero => exact absurd h.qbit (subtracts_iff.mp hagain)
  | succ k => exact ⟨v.subtract, k, rfl, Nat.lt_succ_self k, h.step⟩

/-- The bit has left the quotient when no round is left. -/
theorem Subtracting.done {k : Nat} (h : Subtracting num den k v) (hstop : v.subtracts = false) :
    num.toNat = v.quot.toNat * den.toNat + v.num.toNat ∧ v.num.toNat < den.toNat := by
  have hqbit : v.qbit.toNat = 0 := by
    rw [← Bool.not_eq_true, subtracts_iff, not_not] at hstop
    exact hstop
  have hk : k = 0 := by
    by_contra hk
    obtain ⟨i, rfl⟩ := Nat.exists_eq_succ_of_ne_zero hk
    have hpos : 0 < 2 ^ i := Nat.two_pow_pos i
    have hbit := h.qbit
    rw [hqbit, Nat.pow_succ, Nat.mul_div_cancel _ (by decide)] at hbit
    omega
  subst hk
  have hbelow := h.below
  rw [pow_zero, Nat.mul_one] at hbelow
  exact ⟨h.product, hbelow⟩

end Division

/-! ## The division -/

/-- The loops end after 64 and 65 tests at most, with the quotient and the remainder. -/
theorem udivmoddi4_eq (num : UInt64) {den : UInt64} {fuel : Nat} (hden : 0 < den)
    (hfuel : 64 < fuel) (rem : Bool) : udivmoddi4 fuel num den rem =
      some (num / den, if rem then some (num % den) else none) := by
  have hne : den ≠ 0 := UInt64.pos_iff_ne_zero.mp hden
  obtain ⟨v, j, -, halign, haligned, hstop⟩ :=
    (Division.Aligning.rounds hden).ends (.start num den) (show 63 < fuel by omega)
  obtain ⟨k, hk, hsubtracting⟩ := haligned.aligned hstop
  obtain ⟨w, i, -, hsubtract, hdone, hstop⟩ :=
    Division.Subtracting.rounds.ends hsubtracting (show k < fuel by omega)
  obtain ⟨hproduct, hbelow⟩ := hdone.done hstop
  have hunique := (Nat.div_mod_unique (UInt64.lt_iff_toNat_lt.mp hden)).mpr
    ⟨(Nat.add_comm _ _).trans (Nat.mul_comm _ _ ▸ hproduct.symm), hbelow⟩
  have hquot : w.quot = num / den := by
    apply UInt64.toNat_inj.mp
    rw [UInt64.toNat_div, hunique.1]
  have hrem : w.num = num % den := by
    apply UInt64.toNat_inj.mp
    rw [UInt64.toNat_mod, hunique.2]
  rw [udivmoddi4, if_neg hne, Division.alignment, Option.bind_eq_bind, halign, Option.bind_some,
    Division.subtraction, hsubtract, Option.bind_some, hquot, hrem]

/-- The division goes through for every divisor but 0, and no shift of the alignment loses
a bit. -/
theorem udivmoddi4_exact (num den : UInt64) (hden : 0 < den) (fuel : Nat) (hfuel : 64 < fuel) :
    (∃ quot rem, udivmoddi4 fuel num den true = some (quot, some rem) ∧
      udivmoddi4 fuel num den false = some (quot, none) ∧
      num.toNat = quot.toNat * den.toNat + rem.toNat ∧ rem < den) ∧
    udivdi3 fuel num den = some (num / den) ∧ umoddi3 fuel num den = some (num % den) ∧
    ∀ v, Head Division.aligns (some ∘ Division.align) (.start num den) v → v.aligns = true →
      v.align.den.toNat = 2 * v.den.toNat ∧ v.align.qbit.toNat = 2 * v.qbit.toNat := by
  have hdivision := udivmoddi4_eq num hden hfuel
  refine ⟨⟨num / den, num % den, hdivision true, hdivision false, ?_, ?_⟩, ?_, ?_, ?_⟩
  · rw [UInt64.toNat_div, UInt64.toNat_mod, Nat.div_add_mod']
  · rw [UInt64.lt_iff_toNat_lt, UInt64.toNat_mod]
    exact Nat.mod_lt _ (UInt64.lt_iff_toNat_lt.mp hden)
  · rw [udivdi3, hdivision]
    rfl
  · rw [umoddi3, hdivision]
    rfl
  · intro v hhead hagain
    obtain ⟨j, h⟩ := (Division.Aligning.rounds hden).head (.start num den) hhead
    exact (h.lossless hden hagain).2

theorem udivmoddi4_exact_seven :
    (∃ quot rem, udivmoddi4 65 7 2 true = some (quot, some rem) ∧
      udivmoddi4 65 7 2 false = some (quot, none) ∧
      (7 : UInt64).toNat = quot.toNat * (2 : UInt64).toNat + rem.toNat ∧
      rem < 2) ∧
    udivdi3 65 7 2 = some (7 / 2) ∧
    umoddi3 65 7 2 = some (7 % 2) ∧
    ∀ v, Head Division.aligns (some ∘ Division.align) (.start 7 2) v →
      v.aligns = true →
      v.align.den.toNat = 2 * v.den.toNat ∧ v.align.qbit.toNat = 2 * v.qbit.toNat :=
  udivmoddi4_exact 7 2 (by decide) 65 (by decide)

end AvrKernel.Util

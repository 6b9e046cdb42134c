import AvrKernel.Lib.Loops
import Mathlib.Algebra.Group.Even
import Mathlib.Algebra.Order.Ring.Abs
import Mathlib.Algebra.Order.Ring.Int
import Mathlib.Data.Nat.Size
import Mathlib.Tactic.Common
import Mathlib.Tactic.Linarith
import Mathlib.Tactic.Ring

/-!
# Integer powers and roots

`ipow` and `isqrt` of `util/math.c`. The signed products of `ipow` are taken in `long long`
and must not overflow; the unsigned sums of `isqrt` wrap around at the width of `unsigned int`,
which is not the same on all targets.
-/

namespace AvrKernel.Util

open Loops

/-! ## Powers -/

/-- A product of `long long` values; `none` is an overflow. -/
def mulLongLong (a b : Int) : Option Int :=
  if -2 ^ 63 ≤ a * b ∧ a * b < 2 ^ 63 then some (a * b) else none

/-- The variables of `ipow`. -/
structure Power where
  res : Int
  base : Int
  exp : Int

namespace Power

/-- `exp > 0`. -/
def goes (v : Power) : Bool := 0 < v.exp

/-- `if (exp & 1) res *= base`. -/
def multiply (v : Power) : Option Int :=
  if v.exp % 2 = 1 then mulLongLong v.res v.base else some v.res

/-- `if (exp) base *= base`: the square of the last round would not be used. -/
def square (base exp : Int) : Option Int := if exp ≠ 0 then mulLongLong base base else some base

def round (v : Power) : Option Power := do
  let res ← v.multiply
  let exp := v.exp / 2
  let base ← square v.base exp
  some { res, base, exp }

end Power

def ipow (fuel : Nat) (base exp : Int) : Option Int :=
  if exp < 0 then
    some (if base = 1 then 1 else if base = -1 then if exp % 2 = 1 then -1 else 1 else 0)
  else (whileDo Power.goes Power.round fuel { res := 1, base, exp }).map Power.res

/-- The values of `long long`. -/
def LongLong (x : Int) : Prop := -2 ^ 63 ≤ x ∧ x < 2 ^ 63

theorem mulLongLong_eq {a b : Int} (h : LongLong (a * b)) : mulLongLong a b = some (a * b) :=
  if_pos h

/-- A factor of a value is one as well, if the rest is positive. -/
theorem LongLong.of_mul {x q : Int} (h : LongLong (x * q)) (hq : 1 ≤ q) : LongLong x := by
  obtain ⟨hlow, hhigh⟩ := h
  constructor
  · by_contra hlt
    nlinarith
  · by_contra hge
    nlinarith

theorem longLong_zero : LongLong 0 := by
  constructor <;> norm_num

theorem mul_self_ne (x : Int) : x * x ≠ 2 ^ 63 := by
  intro h
  have habs : |x| * |x| = 2 ^ 63 := by rw [abs_mul_abs_self, h]
  have hpos := abs_nonneg x
  rcases Int.lt_or_le |x| 3037000500 with hlt | hge
  · nlinarith
  · nlinarith

/-- A square below the square of `2 ^ 32` that divides a value. -/
theorem LongLong.square {x y : Int} {n : Nat} (h : LongLong (y * (x * x) ^ n)) (hy : y ≠ 0)
    (hn : n ≠ 0) : LongLong (x * x) := by
  have hsquare : 0 ≤ x * x := mul_self_nonneg x
  refine ⟨by omega, ?_⟩
  by_contra hge
  have hbig : 2 ^ 63 < x * x := lt_of_le_of_ne (not_lt.mp hge) (mul_self_ne x).symm
  have hpow : x * x ≤ (x * x) ^ n := le_self_pow₀ (by omega) hn
  obtain ⟨hlow, hhigh⟩ := h
  rcases lt_or_gt_of_ne hy with hneg | hpos
  · nlinarith
  · nlinarith

namespace Power

variable {v : Power} {base exp : Int} {j : Nat}

/-- The rest of the power: the exponent has at most `j` bits to come. -/
structure Raising (result : Int) (j : Nat) (v : Power) : Prop where
  exponent : 0 ≤ v.exp
  bits : v.exp.toNat < 2 ^ j
  product : v.res * v.base ^ v.exp.toNat = result
  factor : v.res ≠ 0 ∨ v.base = 0

theorem Raising.start (hexp : 0 ≤ exp) :
    Raising (base ^ exp.toNat) exp.toNat.size { res := 1, base, exp } where
  exponent := hexp
  bits := Nat.lt_size_self _
  product := one_mul _
  factor := .inl one_ne_zero

/-- The factor of a round, with the rest of the power in the square of the base. -/
theorem Raising.accumulated {result : Int} (h : Raising result j v) (hresult : LongLong result) :
    ∃ res, v.multiply = some res ∧
      res * (v.base * v.base) ^ (v.exp / 2).toNat = result ∧ (res ≠ 0 ∨ v.base = 0) := by
  have hexp := h.exponent
  have hproduct := h.product
  have hsquares : ∀ n, (v.base * v.base) ^ n = v.base ^ (2 * n) := by
    intro n
    rw [← pow_two, ← pow_mul]
  by_cases hodd : v.exp % 2 = 1
  · have hbits : v.exp.toNat = 2 * (v.exp / 2).toNat + 1 := by omega
    have hsplit : v.res * v.base * (v.base * v.base) ^ (v.exp / 2).toNat = result := by
      rw [hsquares, ← hproduct, hbits, pow_succ]
      ring
    have hrange : LongLong (v.res * v.base) := by
      by_cases hzero : v.base = 0
      · rw [hzero, mul_zero]
        exact longLong_zero
      · rw [← hsplit] at hresult
        have hpos : 0 < v.base * v.base := mul_self_pos.mpr hzero
        exact hresult.of_mul (Int.add_one_le_of_lt (pow_pos hpos _))
    refine ⟨v.res * v.base, by rw [multiply, if_pos hodd, mulLongLong_eq hrange], hsplit, ?_⟩
    by_cases hzero : v.base = 0
    · exact .inr hzero
    · exact .inl (mul_ne_zero (h.factor.resolve_right hzero) hzero)
  · have hbits : v.exp.toNat = 2 * (v.exp / 2).toNat := by omega
    refine ⟨v.res, if_neg hodd, ?_, h.factor⟩
    rw [hsquares, ← hbits, hproduct]

/-- No product of a round overflows. -/
theorem Raising.rounds {result : Int} (hresult : LongLong result) :
    Rounds goes round (Raising result) := by
  intro j v h hgoes
  have hpos : 0 < v.exp := by simpa [goes] using hgoes
  obtain ⟨res, hres, hproduct, hfactor⟩ := h.accumulated hresult
  have hhalf : 0 ≤ v.exp / 2 := by omega
  have hbits := h.bits
  obtain ⟨i, rfl⟩ : ∃ i, j = i + 1 := by
    apply Nat.exists_eq_succ_of_ne_zero
    rintro rfl
    rw [pow_zero] at hbits
    omega
  rw [pow_succ] at hbits
  have hshorter : (v.exp / 2).toNat < 2 ^ i := by omega
  by_cases hlast : v.exp / 2 = 0
  · refine ⟨⟨res, v.base, v.exp / 2⟩, i, ?_, Nat.lt_succ_self i, hhalf, hshorter, ?_, hfactor⟩
    · simp [round, hres, square, hlast]
    · simpa [hlast] using hproduct
  · have hsquare : LongLong (v.base * v.base) := by
      rcases hfactor with hne | hzero
      · rw [← hproduct] at hresult
        exact hresult.square hne (by omega)
      · rw [hzero, mul_zero]
        exact longLong_zero
    refine ⟨⟨res, v.base * v.base, v.exp / 2⟩, i, ?_, Nat.lt_succ_self i, hhalf, hshorter,
      hproduct, ?_⟩
    · have hnext : square v.base (v.exp / 2) = some (v.base * v.base) := by
        rw [square, if_pos hlast, mulLongLong_eq hsquare]
      simp only [round, hres, hnext, Option.bind_eq_bind, Option.bind_some]
    · exact hfactor.imp_right fun hzero => by rw [hzero, mul_zero]

end Power

/-- A power that is a `long long` value is found, and nothing overflows on the way. -/
theorem ipow_exact (base exp : Int) (hexp : 0 ≤ exp) (hfits : LongLong (base ^ exp.toNat))
    (fuel : Nat) (hfuel : exp.toNat.size < fuel) : ipow fuel base exp =
      some (base ^ exp.toNat) := by
  obtain ⟨v, j, -, hloop, hraised, hstop⟩ :=
    (Power.Raising.rounds hfits).ends (.start hexp) hfuel
  have hdone : v.exp = 0 := by
    have hle : ¬0 < v.exp := by simpa [Power.goes] using hstop
    have hge := hraised.exponent
    omega
  have hres := hraised.product
  rw [hdone, Int.toNat_zero, pow_zero, mul_one] at hres
  rw [ipow, if_neg (not_lt.mpr hexp), hloop, Option.map_some, hres]

/-- The least `long long` value is the odd power `(-8) ^ 21`. -/
theorem ipow_exact_least : ipow 6 (-8) 21 = some ((-8) ^ Int.toNat 21) :=
  ipow_exact (-8) 21 (by decide) (by constructor <;> norm_num [Int.toNat]) 6 (by decide)

/-! ## Roots -/

/-- The variables of `isqrt`, at a width of `w` bits. -/
structure Root (w : Nat) where
  num : BitVec w
  res : BitVec w
  bit : BitVec w

namespace Root

variable {w : Nat}

/-- `1u << (sizeof(unsigned int) * CHAR_BIT - 2)`. -/
def topBit (w : Nat) : BitVec w := 1#w <<< (w - 2)

/-- `while (bit > num) bit >>= 2`. -/
def lower (fuel : Nat) (num : BitVec w) : BitVec w → Option (BitVec w) :=
  whileDo (fun bit => bit > num) (fun bit => some (bit >>> 2)) fuel

/-- `bit != 0`. -/
def goes (v : Root w) : Bool := v.bit ≠ 0

def round (v : Root w) : Root w :=
  if v.num ≥ v.res + v.bit then
    { num := v.num - (v.res + v.bit), res := (v.res >>> 1) + v.bit, bit := v.bit >>> 2 }
  else { v with res := v.res >>> 1, bit := v.bit >>> 2 }

end Root

def isqrt {w : Nat} (fuel : Nat) (num : BitVec w) : Option (BitVec w) := do
  let bit ← Root.lower fuel num (Root.topBit w)
  let v ← whileDo Root.goes (some ∘ Root.round) fuel { num, res := 0, bit }
  some v.res

namespace Root

variable {w m k : Nat} {v : Root w} {num : BitVec w}

theorem toNat_topBit (hpos : 0 < m) (hw : w = 2 * m) : (topBit w).toNat = 4 ^ m / 4 := by
  obtain ⟨n, rfl⟩ := Nat.exists_eq_succ_of_ne_zero (Nat.pos_iff_ne_zero.mp hpos)
  have hfour : 2 ^ (2 * n) = 4 ^ n := Nat.pow_mul 2 2 n
  have hlt : 4 ^ n < 2 ^ w := by
    rw [hw, ← hfour]
    exact Nat.pow_lt_pow_right (by decide) (by omega)
  have hshift : w - 2 = 2 * n := by omega
  have hone : (1#w).toNat = 1 := by
    rw [BitVec.toNat_ofNat]
    exact Nat.mod_eq_of_lt (Nat.one_lt_two_pow (by omega))
  rw [topBit, BitVec.toNat_shiftLeft, hone, hshift, Nat.one_shiftLeft, hfour, Nat.mod_eq_of_lt hlt,
    Nat.pow_succ, Nat.mul_div_cancel _ (by decide)]

theorem toNat_shiftRight_two (bit : BitVec w) : (bit >>> 2).toNat = bit.toNat / 4 := by
  rw [BitVec.toNat_ushiftRight, Nat.shiftRight_eq_div_pow]

theorem toNat_shiftRight_one (res : BitVec w) : (res >>> 1).toNat = res.toNat / 2 := by
  rw [BitVec.toNat_ushiftRight, Nat.shiftRight_eq_div_pow, pow_one]

/-! ### The highest power of four -/

/-- `bit` is a power of four, or 0, and the number is below the next one. -/
structure Lowering (num : BitVec w) (k : Nat) (bit : BitVec w) : Prop where
  bit : bit.toNat = 4 ^ k / 4
  below : num.toNat < 4 ^ k

theorem Lowering.rounds (num : BitVec w) :
    Rounds (fun bit => decide (bit > num)) (fun bit => some (bit >>> 2)) (Lowering num) := by
  intro k bit h hagain
  obtain ⟨hbit, hbelow⟩ := h
  have hlt : num.toNat < bit.toNat := BitVec.lt_def.mp (of_decide_eq_true hagain)
  cases k with
  | zero => simp [hbit] at hlt
  | succ k =>
      rw [Nat.pow_succ, Nat.mul_div_cancel _ (by decide)] at hbit
      refine ⟨bit >>> 2, k, rfl, Nat.lt_succ_self k, ?_, ?_⟩
      · rw [toNat_shiftRight_two, hbit]
      · rwa [← hbit]

/-! ### The digits -/

/-- `k` digits are to come. The digits found are those of `root`, whose square has been taken
away from the number. -/
structure Extracting (num : BitVec w) (m k : Nat) (v : Root w) (root : Nat) : Prop where
  digits : k ≤ m
  found : 2 ^ k ∣ root
  res : v.res.toNat = root * 2 ^ k
  bit : v.bit.toNat = 4 ^ k / 4
  rest : v.num.toNat + root * root = num.toNat
  below : num.toNat < (root + 2 ^ k) * (root + 2 ^ k)

variable {root : Nat}

theorem Lowering.extracting {bit : BitVec w} (h : Lowering num k bit) (hk : k ≤ m) :
    Extracting num m k { num, res := 0, bit } 0 where
  digits := hk
  found := dvd_zero _
  res := by simp
  bit := h.bit
  rest := rfl
  below := by
    rw [Nat.zero_add, ← Nat.mul_pow]
    exact h.below

/-- There is room for one more unit of the digits that are to come. -/
theorem Extracting.root_le (h : Extracting num m k v root) (hw : w = 2 * m) :
    root + 2 ^ k ≤ 2 ^ m := by
  have hsquare : 2 ^ w = 2 ^ m * 2 ^ m := by rw [hw, two_mul, pow_add]
  have hlt : root < 2 ^ m := by
    apply Nat.mul_self_lt_mul_self_iff.mp
    have hnum := num.isLt
    have hrest := h.rest
    omega
  obtain ⟨q, rfl⟩ := h.found
  obtain ⟨i, rfl⟩ := Nat.exists_eq_add_of_le h.digits
  rw [pow_add] at hlt ⊢
  calc
    2 ^ k * q + 2 ^ k = 2 ^ k * (q + 1) := rfl
    _ ≤ 2 ^ k * 2 ^ i := Nat.mul_le_mul_left _ (Nat.lt_of_mul_lt_mul_left hlt)

theorem Extracting.bit_eq (h : Extracting num m (k + 1) v root) : v.bit.toNat = 2 ^ k * 2 ^ k := by
  rw [h.bit, Nat.pow_succ, Nat.mul_div_cancel _ (by decide), ← Nat.mul_pow]

theorem Extracting.res_eq (h : Extracting num m (k + 1) v root) :
    v.res.toNat = 2 * (root * 2 ^ k) := by
  rw [h.res]
  ring

/-- The sums of a round are below the square of `2 ^ m`. -/
theorem Extracting.sum_lt (h : Extracting num m (k + 1) v root) (hw : w = 2 * m) :
    v.res.toNat + v.bit.toNat < 2 ^ w := by
  have hroom := h.root_le hw
  have hpow : 2 ^ (k + 1) = 2 * 2 ^ k := by ring
  have hpos : 0 < 2 ^ k := Nat.two_pow_pos k
  have hsquare : 2 ^ w = 2 ^ m * 2 ^ m := by rw [hw, two_mul, pow_add]
  rw [h.res_eq, h.bit_eq, hsquare]
  rw [hpow] at hroom
  calc
    2 * (root * 2 ^ k) + 2 ^ k * 2 ^ k < (root + 2 * 2 ^ k) * (root + 2 * 2 ^ k) := by nlinarith
    _ ≤ 2 ^ m * 2 ^ m := Nat.mul_le_mul hroom hroom

/-- A round finds the next digit of the root. -/
theorem Extracting.step (h : Extracting num m (k + 1) v root) (hw : w = 2 * m) :
    ∃ root', Extracting num m k v.round root' := by
  have hsum : (v.res + v.bit).toNat = 2 * (root * 2 ^ k) + 2 ^ k * 2 ^ k := by
    rw [BitVec.toNat_add, Nat.mod_eq_of_lt (h.sum_lt hw), h.res_eq, h.bit_eq]
  have hhalf : (v.res >>> 1).toNat = root * 2 ^ k := by
    rw [toNat_shiftRight_one, h.res_eq, Nat.mul_div_cancel_left _ (by decide)]
  have hnext : (v.bit >>> 2).toNat = 4 ^ k / 4 := by
    rw [toNat_shiftRight_two, h.bit, Nat.pow_succ, Nat.mul_div_cancel _ (by decide)]
  have hdigits : k ≤ m := Nat.le_of_succ_le h.digits
  have hfound : 2 ^ k ∣ root := Dvd.dvd.trans (pow_dvd_pow 2 (Nat.le_succ k)) h.found
  have hpow : 2 ^ (k + 1) = 2 * 2 ^ k := by ring
  have hrest := h.rest
  have hbelow := h.below
  rw [hpow] at hbelow
  by_cases htaken : v.num ≥ v.res + v.bit
  · have hle : (v.res + v.bit).toNat ≤ v.num.toNat := htaken
    have hnum : (v.num - (v.res + v.bit)).toNat = v.num.toNat - (v.res + v.bit).toNat :=
      BitVec.toNat_sub_of_le htaken
    have hsmaller : (v.res >>> 1).toNat + v.bit.toNat < 2 ^ w := by
      have hlt := h.sum_lt hw
      rw [toNat_shiftRight_one]
      omega
    refine ⟨root + 2 ^ k, hdigits, (Nat.dvd_add_right hfound).mpr dvd_rfl, ?_, ?_, ?_, ?_⟩
    · rw [round, if_pos htaken, BitVec.toNat_add, Nat.mod_eq_of_lt hsmaller, hhalf, h.bit_eq]
      ring
    · rw [round, if_pos htaken, hnext]
    · rw [round, if_pos htaken, hnum, ← hrest]
      rw [hsum] at hle ⊢
      have hexpand : (root + 2 ^ k) * (root + 2 ^ k) =
          2 * (root * 2 ^ k) + 2 ^ k * 2 ^ k + root * root := by ring
      omega
    · calc
        num.toNat < (root + 2 * 2 ^ k) * (root + 2 * 2 ^ k) := hbelow
        _ = (root + 2 ^ k + 2 ^ k) * (root + 2 ^ k + 2 ^ k) := by ring
  · have hlt : v.num.toNat < (v.res + v.bit).toNat := BitVec.not_le.mp htaken
    refine ⟨root, hdigits, hfound, ?_, ?_, ?_, ?_⟩
    · rw [round, if_neg htaken, hhalf]
    · rw [round, if_neg htaken, hnext]
    · rw [round, if_neg htaken, hrest]
    · rw [hsum] at hlt
      have hexpand : (root + 2 ^ k) * (root + 2 ^ k) =
          2 * (root * 2 ^ k) + 2 ^ k * 2 ^ k + root * root := by ring
      omega

theorem goes_iff : v.goes = true ↔ v.bit.toNat ≠ 0 := by
  have hzero : v.bit = 0 ↔ v.bit.toNat = 0 := by simp [← BitVec.toNat_inj]
  rw [goes, decide_eq_true_eq, ne_eq, hzero]

/-- There is no bit left after the last digit. -/
theorem Extracting.pos (h : Extracting num m k v root) (hagain : v.goes = true) : 0 < k := by
  by_contra hk
  obtain rfl : k = 0 := by omega
  exact goes_iff.mp hagain h.bit

theorem Extracting.rounds (num : BitVec w) (hw : w = 2 * m) :
    Rounds goes (some ∘ round) fun k v => ∃ root, Extracting num m k v root := by
  intro k v ⟨root, h⟩ hagain
  have hpos := h.pos hagain
  obtain ⟨k, rfl⟩ := Nat.exists_eq_succ_of_ne_zero (Nat.pos_iff_ne_zero.mp hpos)
  exact ⟨v.round, k, rfl, Nat.lt_succ_self k, h.step hw⟩

theorem Extracting.done (h : Extracting num m k v root) (hstop : v.goes = false) :
    v.res.toNat * v.res.toNat ≤ num.toNat ∧
      num.toNat < (v.res.toNat + 1) * (v.res.toNat + 1) := by
  have hbit : v.bit.toNat = 0 := by
    rw [← Bool.not_eq_true, goes_iff, not_not] at hstop
    exact hstop
  have hk : k = 0 := by
    by_contra hk
    obtain ⟨i, rfl⟩ := Nat.exists_eq_succ_of_ne_zero hk
    have hpos : 0 < 2 ^ i * 2 ^ i := Nat.mul_pos (Nat.two_pow_pos i) (Nat.two_pow_pos i)
    have heq := h.bit_eq
    omega
  subst hk
  have hres := h.res
  have hbelow := h.below
  have hrest := h.rest
  rw [pow_zero, mul_one] at hres
  rw [pow_zero] at hbelow
  rw [hres]
  exact ⟨by omega, hbelow⟩

end Root

/-- At every even width the root is the largest number whose square is not above the argument,
and the sums of the loop do not wrap around. -/
theorem isqrt_largest (w : Nat) (heven : Even w) (hpos : 0 < w) (num : BitVec w) (fuel : Nat)
    (hfuel : w / 2 < fuel) :
    (∃ root, isqrt fuel num = some root ∧ root.toNat * root.toNat ≤ num.toNat ∧
      ∀ r, r * r ≤ num.toNat → r ≤ root.toNat) ∧
    (Root.topBit w).toNat = 2 ^ (w - 2) ∧
    ∀ bit, Root.lower fuel num (Root.topBit w) = some bit →
      ∀ v, Head Root.goes (some ∘ Root.round) { num, res := 0, bit } v → v.goes = true →
        v.res.toNat + v.bit.toNat < 2 ^ w ∧ (v.res >>> 1).toNat + v.bit.toNat < 2 ^ w := by
  obtain ⟨m, htwice⟩ := heven
  have hw : w = 2 * m := by omega
  have hm : 0 < m := by omega
  have htop := Root.toNat_topBit hm hw
  have hnum : num.toNat < 4 ^ m := by
    calc
      num.toNat < 2 ^ w := num.isLt
      _ = 4 ^ m := by rw [hw, pow_mul]; norm_num
  have htest : m < fuel := by omega
  have hbit : ∀ bit, Root.lower fuel num (Root.topBit w) = some bit →
      ∃ k ≤ m, Root.Lowering num k bit := by
    intro bit hlower
    obtain ⟨bit', k, hk, hlower', hlowered, -⟩ :=
      (Root.Lowering.rounds num).ends ⟨htop, hnum⟩ htest
    rw [Root.lower, hlower'] at hlower
    cases hlower
    exact ⟨k, hk, hlowered⟩
  refine ⟨?_, ?_, ?_⟩
  · obtain ⟨bit, k, hk, hlower, hlowered, -⟩ :=
      (Root.Lowering.rounds num).ends ⟨htop, hnum⟩ htest
    obtain ⟨v, j, -, hloop, ⟨root, hroot⟩, hstop⟩ :=
      (Root.Extracting.rounds num hw).ends ⟨0, hlowered.extracting hk⟩ (show k < fuel by omega)
    obtain ⟨hle, hlt⟩ := hroot.done hstop
    refine ⟨v.res, ?_, hle, ?_⟩
    · rw [isqrt, Root.lower, Option.bind_eq_bind, hlower, Option.bind_some, Option.bind_eq_bind,
        hloop, Option.bind_some]
    · intro r hr
      exact Nat.le_of_lt_succ (Nat.mul_self_lt_mul_self_iff.mp (lt_of_le_of_lt hr hlt))
  · obtain ⟨n, rfl⟩ := Nat.exists_eq_succ_of_ne_zero (Nat.pos_iff_ne_zero.mp hm)
    have hshift : w - 2 = 2 * n := by omega
    rw [htop, hshift, Nat.pow_succ, Nat.mul_div_cancel _ (by decide)]
    exact (Nat.pow_mul 2 2 n).symm
  · intro bit hlower v hhead hagain
    obtain ⟨k, hk, hlowered⟩ := hbit bit hlower
    obtain ⟨j, root, hroot⟩ :=
      (Root.Extracting.rounds num hw).head ⟨0, hlowered.extracting hk⟩ hhead
    have hpos := hroot.pos hagain
    obtain ⟨j, rfl⟩ := Nat.exists_eq_succ_of_ne_zero (Nat.pos_iff_ne_zero.mp hpos)
    have hsum := hroot.sum_lt hw
    refine ⟨hsum, ?_⟩
    rw [Root.toNat_shiftRight_one]
    omega

/-- The width of the AVR. -/
theorem isqrt_largest_sixteen :
    (∃ root, isqrt 9 (65535 : BitVec 16) = some root ∧
      root.toNat * root.toNat ≤ (65535 : BitVec 16).toNat ∧
      ∀ r, r * r ≤ (65535 : BitVec 16).toNat → r ≤ root.toNat) ∧
    (Root.topBit 16).toNat = 2 ^ (16 - 2) ∧
    ∀ bit, Root.lower 9 (65535 : BitVec 16) (Root.topBit 16) = some bit →
      ∀ v, Head Root.goes (some ∘ Root.round) { num := 65535, res := 0, bit } v →
        v.goes = true →
        v.res.toNat + v.bit.toNat < 2 ^ 16 ∧ (v.res >>> 1).toNat + v.bit.toNat < 2 ^ 16 :=
  isqrt_largest 16 (by decide) (by decide) 65535 9 (by decide)

end AvrKernel.Util

import AvrKernel.Processes.Table
import Mathlib.Data.Nat.ModEq

/-!
# The ids of processes

An id packs a slot and a generation, of which there are 2²³ - 1. It comes back when
the slot has been released that many times.
-/

namespace AvrKernel.Processes

/-- The generations that a slot goes through. -/
def generations : Nat := 2 ^ 23 - 1

/-- The generation of a slot after so many releases. -/
def generationAt (releases : Nat) : UInt32 := UInt32.ofNat (1 + releases % generations)

theorem generationAt_toNat (releases : Nat) :
    (generationAt releases).toNat = 1 + releases % generations := by
  have hlt := Nat.mod_lt releases (show 0 < generations by decide)
  rw [generationAt, UInt32.toNat_ofNat']
  apply Nat.mod_eq_of_lt
  simp only [generations] at hlt ⊢
  omega

theorem generationAt_ne_zero (releases : Nat) : generationAt releases ≠ 0 := by
  intro hzero
  have hvalue := congrArg UInt32.toNat hzero
  rw [generationAt_toNat] at hvalue
  simp at hvalue

theorem toNat_and_pidGenMask (x : UInt32) : (x &&& pidGenMask).toNat = x.toNat % 2 ^ 23 := by
  rw [UInt32.toNat_and]
  exact Nat.and_two_pow_sub_one_eq_mod x.toNat 23

theorem nextGeneration_generationAt (releases : Nat) :
    nextGeneration (generationAt releases) = generationAt (releases + 1) := by
  have hlt := Nat.mod_lt releases (show 0 < generations by decide)
  have hnext : ((generationAt releases + 1) &&& pidGenMask).toNat =
      (2 + releases % generations) % 2 ^ 23 := by
    rw [toNat_and_pidGenMask, UInt32.toNat_add, generationAt_toNat, UInt32.toNat_one]
    simp only [generations] at hlt ⊢
    omega
  apply UInt32.toNat_inj.mp
  rw [generationAt_toNat, nextGeneration]
  by_cases hwrap : releases % generations = generations - 1
  · have hzero : (generationAt releases + 1) &&& pidGenMask = 0 := by
      apply UInt32.toNat_inj.mp
      rw [hnext, hwrap]
      rfl
    rw [if_pos hzero, Nat.add_mod, hwrap]
    rfl
  · have hmod : (releases + 1) % generations = releases % generations + 1 := by
      simp only [generations] at hlt hwrap ⊢
      omega
    have hvalue : (2 + releases % generations) % 2 ^ 23 = 2 + releases % generations := by
      apply Nat.mod_eq_of_lt
      simp only [generations] at hlt hwrap ⊢
      omega
    have hne : (generationAt releases + 1) &&& pidGenMask ≠ 0 := by
      intro hzero
      rw [hzero, hvalue, UInt32.toNat_zero] at hnext
      omega
    rw [if_neg hne, hnext, hvalue, hmod]
    omega

/-! ## Packing -/

theorem pidEncode_toNat (generation slot : UInt32) :
    (pidEncode generation slot).toUInt32.toNat =
      generation.toNat % 2 ^ 23 * 2 ^ 8 + slot.toNat % 2 ^ 8 := by
  have hslot : (slot &&& pidSlotMask).toNat = slot.toNat % 2 ^ 8 := by
    rw [UInt32.toNat_and]
    exact Nat.and_two_pow_sub_one_eq_mod slot.toNat 8
  have hlt := Nat.mod_lt generation.toNat (show 0 < 2 ^ 23 by decide)
  have hshift : ((generation &&& pidGenMask) <<< pidSlotBits).toNat =
      (generation.toNat % 2 ^ 23) <<< 8 := by
    rw [UInt32.toNat_shiftLeft, toNat_and_pidGenMask]
    rw [show pidSlotBits.toNat % 32 = 8 by decide]
    apply Nat.mod_eq_of_lt
    rw [Nat.shiftLeft_eq]
    omega
  rw [pidEncode, UInt32.toUInt32_toInt32, UInt32.toNat_or, hshift, hslot,
    ← Nat.shiftLeft_add_eq_or_of_lt (Nat.mod_lt _ (by decide)), Nat.shiftLeft_eq]

/-- The id of a slot after so many releases. -/
def idAt (slot : Fin processMax) (releases : Nat) : ProcessId :=
  pidEncode (generationAt releases) (UInt32.ofNat slot.val)

theorem idAt_toNat (slot : Fin processMax) (releases : Nat) :
    (idAt slot releases).toUInt32.toNat = (1 + releases % generations) * 2 ^ 8 + slot.val := by
  have hslot : slot.val < 64 := slot.isLt
  have hlt := Nat.mod_lt releases (show 0 < generations by decide)
  rw [idAt, pidEncode_toNat, generationAt_toNat, UInt32.toNat_ofNat']
  simp only [generations] at hlt ⊢
  omega

theorem idAt_pos (slot : Fin processMax) (releases : Nat) : 0 < idAt slot releases := by
  have hslot : slot.val < 64 := slot.isLt
  have hlt := Nat.mod_lt releases (show 0 < generations by decide)
  have hvalue := idAt_toNat slot releases
  rw [Int32.lt_iff_toInt_lt, Int32.toInt_zero]
  have hint : (idAt slot releases).toInt =
      ((idAt slot releases).toUInt32.toNat : Int).bmod (2 ^ 32) :=
    BitVec.toInt_eq_toNat_bmod (idAt slot releases).toBitVec
  rw [hint, hvalue, Int.bmod_eq_of_le_mul_two]
  · simp only [generations]
    omega
  · simp only [generations]
    omega
  · simp only [generations] at hlt ⊢
    omega

/-- An id tells its slot. -/
theorem idAt_slot (slot : Fin processMax) (releases : Nat) :
    ((idAt slot releases).toUInt32 &&& pidSlotMask).toNat = slot.val := by
  have hslot : slot.val < 64 := slot.isLt
  rw [UInt32.toNat_and, idAt_toNat]
  change ((1 + releases % generations) * 2 ^ 8 + slot.val) &&& (2 ^ 8 - 1) = _
  rw [Nat.and_two_pow_sub_one_eq_mod]
  omega

/-- Ids are the same for the same slot only, after numbers of releases that differ by a
multiple of the number of generations. -/
theorem idAt_inj {slot slot' : Fin processMax} {releases releases' : Nat}
    (h : idAt slot releases = idAt slot' releases') :
    slot = slot' ∧ releases ≡ releases' [MOD generations] := by
  have hslot : slot = slot' := by
    apply Fin.ext
    rw [← idAt_slot slot releases, h, idAt_slot]
  have hvalue := idAt_toNat slot releases
  rw [h, idAt_toNat, hslot] at hvalue
  refine ⟨hslot, ?_⟩
  unfold Nat.ModEq
  omega

/-- An id does not come back before the slot has gone through all generations. -/
theorem generations_le_of_idAt_eq {slot slot' : Fin processMax} {releases releases' : Nat}
    (h : idAt slot releases = idAt slot' releases') (hlt : releases < releases') :
    releases + generations ≤ releases' := by
  have hdvd := (Nat.modEq_iff_dvd' hlt.le).mp (idAt_inj h).2
  have hle := Nat.le_of_dvd (Nat.sub_pos_of_lt hlt) hdvd
  omega

end AvrKernel.Processes

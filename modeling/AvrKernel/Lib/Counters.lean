import Mathlib.Algebra.Group.Nat.Defs
import Mathlib.Data.List.Nodup
import Mathlib.Data.List.Perm.Subperm
import Mathlib.Logic.Function.Iterate

/-!
# Counters

A counter goes through the values of a type, and around again when the type is finite.
A search takes the first free value from the counter on.
-/

namespace Counter

section First

variable {α : Type} {next : α → α} {free : α → Prop} {a b c : α}

/-- `b` is the first free value from `a` on. -/
def First (next : α → α) (free : α → Prop) (a b : α) : Prop :=
  ∃ k, next^[k] a = b ∧ free b ∧ ∀ j < k, ¬free (next^[j] a)

theorem First.here (ha : free a) : First next free a a := ⟨0, rfl, ha, nofun⟩

theorem First.skip (ha : ¬free a) (h : First next free (next a) b) : First next free a b := by
  obtain ⟨k, hk, hb, hbefore⟩ := h
  refine ⟨k + 1, hk, hb, fun j hj => ?_⟩
  cases j with
  | zero => exact ha
  | succ j => exact hbefore j (Nat.lt_of_succ_lt_succ hj)

theorem First.isFree (h : First next free a b) : free b := by
  obtain ⟨-, -, hb, -⟩ := h
  exact hb

theorem First.unique (hb : First next free a b) (hc : First next free a c) : b = c := by
  obtain ⟨k, rfl, hfree, hbefore⟩ := hb
  obtain ⟨k', rfl, hfree', hbefore'⟩ := hc
  rcases Nat.lt_trichotomy k k' with hlt | rfl | hlt
  · exact absurd hfree (hbefore' k hlt)
  · rfl
  · exact absurd hfree' (hbefore k' hlt)

end First

/-! ## Counters of 32 bits -/

variable {free : UInt32 → Prop} {a b : UInt32} {l : List UInt32}

theorem iterate_add_one (k : Nat) (a : UInt32) : (· + 1)^[k] a = a + .ofNat k := by
  induction k with
  | zero => simp
  | succ k ih => rw [Function.iterate_succ_apply', ih, UInt32.ofNat_add, UInt32.add_assoc]; rfl

/-- No value between the counter and the first free one is free. -/
theorem first_iff :
    First (· + 1) free a b ↔ free b ∧ ∀ k < (b - a).toNat, ¬free (a + .ofNat k) := by
  simp only [First, iterate_add_one]
  constructor
  · rintro ⟨k, rfl, hb, hbefore⟩
    refine ⟨hb, fun j hj => hbefore j (Nat.lt_of_lt_of_le hj ?_)⟩
    rw [UInt32.add_comm, UInt32.add_sub_cancel, UInt32.toNat_ofNat']
    exact Nat.mod_le _ _
  · rintro ⟨hb, hbefore⟩
    refine ⟨(b - a).toNat, ?_, hb, hbefore⟩
    rw [UInt32.ofNat_toNat, UInt32.add_comm, UInt32.sub_add_cancel]

/-- Distinct values of 32 bits are at most as many as there are. -/
theorem length_le_of_nodup (h : l.Nodup) : l.length ≤ 2 ^ 32 := by
  have hmap : (l.map UInt32.toNat).Nodup := h.map fun _ _ => UInt32.toNat_inj.mp
  have hsub : l.map UInt32.toNat ⊆ List.range (2 ^ 32) := by
    intro i hi
    obtain ⟨a, -, rfl⟩ := List.mem_map.mp hi
    exact List.mem_range.mpr a.toNat_lt
  simpa using (List.subperm_of_subset hmap hsub).length_le

theorem length_lt_of_nodup (h : l.Nodup) (ha : a ∉ l) : l.length < 2 ^ 32 :=
  length_le_of_nodup (List.nodup_cons.mpr ⟨ha, h⟩)

/-! ## Counters of 32 bits that skip 0 -/

/-- The value after `a`. -/
def succ (a : UInt32) : UInt32 := if a + 1 = 0 then 1 else a + 1

theorem toNat_succ (ha : a ≠ 0) : (succ a).toNat = a.toNat % (2 ^ 32 - 1) + 1 := by
  have hpos : 0 < a.toNat := Nat.pos_of_ne_zero fun h => ha (UInt32.toNat_inj.mp h)
  have hlt := a.toNat_lt
  have hwrap : a + 1 = 0 ↔ a.toNat = 2 ^ 32 - 1 := by
    rw [← UInt32.toNat_inj, UInt32.toNat_add, UInt32.toNat_one, UInt32.toNat_zero]
    omega
  rw [succ]
  split
  next h => rw [hwrap.mp h, UInt32.toNat_one, Nat.mod_self]
  next h =>
    rw [hwrap] at h
    rw [UInt32.toNat_add, UInt32.toNat_one]
    omega

theorem succ_ne_zero (a : UInt32) : succ a ≠ 0 := by
  rw [succ]
  split
  · decide
  next h => exact h

theorem iterate_succ_ne_zero (ha : a ≠ 0) (k : Nat) : succ^[k] a ≠ 0 := by
  induction k with
  | zero => exact ha
  | succ k ih =>
      rw [Function.iterate_succ_apply']
      exact succ_ne_zero _

/-- The values come around after all the others. -/
theorem toNat_iterate_succ (ha : a ≠ 0) (k : Nat) :
    (succ^[k] a).toNat = (a.toNat - 1 + k) % (2 ^ 32 - 1) + 1 := by
  have hpos : 0 < a.toNat := Nat.pos_of_ne_zero fun h => ha (UInt32.toNat_inj.mp h)
  have hlt := a.toNat_lt
  induction k with
  | zero =>
      rw [Function.iterate_zero_apply]
      omega
  | succ k ih =>
      rw [Function.iterate_succ_apply', toNat_succ (iterate_succ_ne_zero ha k), ih, Nat.mod_add_mod,
        Nat.add_assoc]

theorem iterate_succ_ne {k : Nat} (ha : a ≠ 0) (hpos : 0 < k) (hk : k < 2 ^ 32 - 1) :
    succ^[k] a ≠ a := by
  intro h
  have hnat := congrArg UInt32.toNat h
  have hlt := a.toNat_lt
  have ha' : 0 < a.toNat := Nat.pos_of_ne_zero fun h => ha (UInt32.toNat_inj.mp h)
  rw [toNat_iterate_succ ha k] at hnat
  omega

end Counter

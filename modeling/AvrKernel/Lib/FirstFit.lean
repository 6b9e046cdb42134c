import Mathlib.Order.Basic
import Mathlib.Tactic.Common

/-!
# First fit

Searching a range of slots for the lowest run of free ones with a counter that
restarts at every used slot.
-/

namespace FirstFit

variable {free : Nat → Bool} {lo hi need : Nat}

/-- All `n` slots from `s` on are free. -/
def Run (free : Nat → Bool) (s n : Nat) : Prop := ∀ i, s ≤ i → i < s + n → free i = true

/-- `s` is where the lowest run of `need` free slots in `[lo, hi)` starts. -/
structure Lowest (free : Nat → Bool) (lo hi need s : Nat) : Prop where
  ge : lo ≤ s
  fits : s + need ≤ hi
  run : Run free s need
  least : ∀ t, lo ≤ t → Run free t need → s ≤ t

theorem Lowest.unique {s t : Nat} (hs : Lowest free lo hi need s)
    (ht : Lowest free lo hi need t) : s = t :=
  Nat.le_antisymm (hs.least t ht.ge ht.run) (ht.least s hs.ge hs.run)

/-- The slots of the range decide. -/
theorem Lowest.congr {free' : Nat → Bool} {s : Nat} (h : Lowest free lo hi need s)
    (hsame : ∀ i < hi, free i = free' i) : Lowest free' lo hi need s where
  ge := h.ge
  fits := h.fits
  run i hle hlt := by
    have hfits := h.fits
    rw [← hsame i (by omega)]
    exact h.run i hle hlt
  least t hlo hrun := by
    have hfits := h.fits
    by_contra hlt
    refine hlt (h.least t hlo fun i hle hi => ?_)
    rw [hsame i (by omega)]
    exact hrun i hle hi

/-- The search at slot `i`, `remaining` slots before the end, when the `length`
slots before `i` are free and start at `start`. -/
def scan (free : Nat → Bool) (need : Nat) : Nat → Nat → Nat → Nat → Option Nat
  | 0, _, _, _ => none
  | remaining + 1, i, start, length =>
      if free i then
        if need ≤ length + 1 then some (if length = 0 then i else start)
        else scan free need remaining (i + 1) (if length = 0 then i else start) (length + 1)
      else scan free need remaining (i + 1) start 0

def firstFit (free : Nat → Bool) (need lo hi : Nat) : Option Nat :=
  scan free need (hi - lo) lo 0 0

theorem scan_congr {free' : Nat → Bool} {remaining i start length : Nat}
    (h : ∀ j, i ≤ j → j < i + remaining → free j = free' j) :
    scan free need remaining i start length = scan free' need remaining i start length := by
  induction remaining generalizing i start length with
  | zero => rfl
  | succ remaining ih =>
      have hrest : ∀ j, i + 1 ≤ j → j < i + 1 + remaining → free j = free' j :=
        fun j hlo hhi => h j (by omega) (by omega)
      simp only [scan, h i (by omega) (by omega), ih hrest]

/-- Without free slots before it, the search does not use where they would start. -/
theorem scan_start (remaining i start start' : Nat) :
    scan free need remaining i start 0 = scan free need remaining i start' 0 := by
  induction remaining generalizing i with
  | zero => rfl
  | succ remaining ih => simp only [scan, if_true, ih]

/-- The search looks at the slots of its range only. -/
theorem firstFit_congr {free' : Nat → Bool} (h : ∀ j, lo ≤ j → j < hi → free j = free' j) :
    firstFit free need lo hi = firstFit free' need lo hi :=
  scan_congr fun j hlo hhi => h j hlo (by omega)

/-- The free slots after `need` slots from `s` on are taken. -/
def occupy (free : Nat → Bool) (s need : Nat) (i : Nat) : Bool :=
  free i && !decide (s ≤ i ∧ i < s + need)

/-- What the search knows when it reaches slot `i`. -/
structure Searched (free : Nat → Bool) (need lo i start length : Nat) : Prop where
  ge : lo + length ≤ i
  at_start : length ≠ 0 → start + length = i
  free_before : ∀ j, i - length ≤ j → j < i → free j = true
  used_before : lo < i - length → free (i - length - 1) = false
  none_yet : ∀ t, lo ≤ t → t + need ≤ i → ¬ Run free t need
  short : length < need

theorem Searched.init (free : Nat → Bool) (lo : Nat) {need : Nat} (h : 0 < need) :
    Searched free need lo lo 0 0 where
  ge := by omega
  at_start h0 := absurd rfl h0
  free_before j _ _ := by omega
  used_before _ := by omega
  none_yet t _ _ := by omega
  short := h

/-- A used slot ends every run before it. -/
theorem Searched.used {i start length : Nat} (h : Searched free need lo i start length)
    (hi : free i = false) : Searched free need lo (i + 1) start 0 where
  ge := by have := h.ge; omega
  at_start h0 := absurd rfl h0
  free_before j _ _ := by omega
  used_before _ := by simpa using hi
  none_yet t hlo hle hrun := by
    by_cases hend : t + need ≤ i
    · exact h.none_yet t hlo hend hrun
    · have hfree := hrun i (by have := h.short; omega) (by omega)
      rw [hi] at hfree
      cases hfree
  short := by have := h.short; omega

/-- A free slot extends the run that ends before it. -/
theorem Searched.extend {i start length : Nat} (h : Searched free need lo i start length)
    (hi : free i = true) (hshort : length + 1 < need) :
    Searched free need lo (i + 1) (if length = 0 then i else start) (length + 1) where
  ge := by have := h.ge; omega
  at_start _ := by
    split
    next h0 => omega
    next h0 => have := h.at_start h0; omega
  free_before j hlo hle := by
    by_cases heq : j = i
    · exact heq ▸ hi
    · exact h.free_before j (by omega) (by omega)
  used_before hlt := by
    have hsub : i + 1 - (length + 1) = i - length := by omega
    rw [hsub] at hlt ⊢
    exact h.used_before hlt
  none_yet t hlo hle hrun := by
    by_cases hend : t + need ≤ i
    · exact h.none_yet t hlo hend hrun
    · have hlt : t < i - length := by have := h.ge; omega
      have hfree := hrun (i - length - 1) (by omega) (by omega)
      rw [h.used_before (by omega)] at hfree
      cases hfree
  short := hshort

theorem scan_spec {remaining i start length : Nat} (hrange : i + remaining = hi)
    (h : Searched free need lo i start length) :
    match scan free need remaining i start length with
    | some s => Lowest free lo hi need s
    | none => ∀ t, lo ≤ t → t + need ≤ hi → ¬ Run free t need := by
  induction remaining generalizing i start length with
  | zero =>
      obtain rfl : i = hi := by omega
      exact h.none_yet
  | succ remaining ih =>
      cases hfree : free i with
      | false =>
          simp only [scan, hfree, Bool.false_eq_true, if_false]
          exact ih (by omega) (h.used hfree)
      | true =>
          simp only [scan, hfree, if_true]
          by_cases hlong : need ≤ length + 1
          · rw [if_pos hlong]
            have hneed : need = length + 1 := by have := h.short; omega
            have hge := h.ge
            have hstart : (if length = 0 then i else start) + need = i + 1 := by
              split
              next h0 => omega
              next h0 => have := h.at_start h0; omega
            generalize (if length = 0 then i else start) = s at hstart
            refine ⟨by omega, by omega, ?_, ?_⟩
            · intro j hlo hlt
              by_cases heq : j = i
              · exact heq ▸ hfree
              · exact h.free_before j (by omega) (by omega)
            · intro t hlo hrun
              by_contra hlt
              exact h.none_yet t hlo (by omega) hrun
          · rw [if_neg hlong]
            exact ih (by omega) (h.extend hfree (by omega))

/-- A search for no slots at all stops at the first free one, as a search for one does. -/
theorem scan_zero (remaining i start length : Nat) :
    scan free 0 remaining i start length = scan free 1 remaining i start length := by
  induction remaining generalizing i start length with
  | zero => rfl
  | succ remaining ih =>
      simp only [scan, ih, Nat.zero_le, if_true, if_pos (Nat.le_add_left 1 length)]

theorem firstFit_max_one : firstFit free (max 1 need) lo hi = firstFit free need lo hi := by
  cases need with
  | zero => exact (scan_zero ..).symm
  | succ need => rw [Nat.max_eq_right (Nat.le_add_left 1 need)]

/-- The search finds the lowest run. -/
theorem firstFit_some (hneed : 0 < need) {s : Nat}
    (h : firstFit free need lo hi = some s) : Lowest free lo hi need s := by
  by_cases hle : lo ≤ hi
  · have hspec := scan_spec (show lo + (hi - lo) = hi by omega)
      (Searched.init free lo hneed)
    rw [firstFit] at h
    rwa [h] at hspec
  · rw [firstFit, show hi - lo = 0 by omega] at h
    cases h

/-- The search fails only when there is no run. -/
theorem firstFit_none (hneed : 0 < need)
    (h : firstFit free need lo hi = none) {t : Nat} (hlo : lo ≤ t) (hhi : t + need ≤ hi) :
    ¬ Run free t need := by
  have hspec := scan_spec (show lo + (hi - lo) = hi by omega) (Searched.init free lo hneed)
  rw [firstFit] at h
  rw [h] at hspec
  exact hspec t hlo hhi

/-- Nothing fits where every slot is used. -/
theorem firstFit_eq_none_of_used (h : ∀ i, lo ≤ i → i < hi → free i = false) :
    firstFit free need lo hi = none := by
  rw [firstFit]
  have hscan : ∀ remaining i start length, lo ≤ i → i + remaining ≤ hi →
      scan free need remaining i start length = none := by
    intro remaining
    induction remaining with
    | zero => exact fun _ _ _ _ _ => rfl
    | succ remaining ih =>
        intro i start length hlo hhi
        rw [scan, h i hlo (by omega), if_neg Bool.false_ne_true]
        exact ih (i + 1) start 0 (by omega) (by omega)
  by_cases hle : lo ≤ hi
  · exact hscan _ _ _ _ (Nat.le_refl lo) (by omega)
  · rw [show hi - lo = 0 by omega]
    rfl

theorem firstFit_eq_some_iff (hneed : 0 < need) {s : Nat} :
    firstFit free need lo hi = some s ↔ Lowest free lo hi need s := by
  refine ⟨firstFit_some hneed, fun h => ?_⟩
  cases hfit : firstFit free need lo hi with
  | none => exact absurd h.run (firstFit_none hneed hfit h.ge h.fits)
  | some t => rw [(firstFit_some hneed hfit).unique h]

end FirstFit

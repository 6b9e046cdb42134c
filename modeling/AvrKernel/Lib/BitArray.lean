import Mathlib.Data.List.Basic

/-!
# Arrays of bits

Bits that are packed into words, the lowest bit of a word first. Setting and clearing one of
them leaves all the others alone.
-/

namespace BitArray

variable {w : Nat} {words : Nat → BitVec w} {i j : Nat}

/-- The mask of a bit in its word. -/
def mask (w i : Nat) : BitVec w := BitVec.twoPow w (i % w)

def bit (words : Nat → BitVec w) (i : Nat) : Bool := (words (i / w)).getLsbD (i % w)

def set (words : Nat → BitVec w) (i : Nat) : Nat → BitVec w :=
  Function.update words (i / w) (words (i / w) ||| mask w i)

def clear (words : Nat → BitVec w) (i : Nat) : Nat → BitVec w :=
  Function.update words (i / w) (words (i / w) &&& ~~~mask w i)

/-- A word and the mask have a bit in common if the bit is set. -/
theorem and_mask_eq_zero_iff (hw : 0 < w) (word : BitVec w) :
    word &&& mask w i = 0 ↔ word.getLsbD (i % w) = false := by
  rw [mask, BitVec.and_twoPow]
  cases hbit : word.getLsbD (i % w) with
  | false => simp
  | true =>
      simp only [↓reduceIte, Bool.true_eq_false, iff_false]
      intro hzero
      have hlow := congrArg (fun v => BitVec.getLsbD v (i % w)) hzero
      simp [Nat.mod_lt i hw] at hlow

theorem mod_eq_iff (h : j / w = i / w) : i % w = j % w ↔ j = i := by
  constructor
  · intro hmod
    rw [← Nat.div_add_mod j w, ← Nat.div_add_mod i w, h, hmod]
  · rintro rfl
    rfl

theorem bit_set (hw : 0 < w) : bit (set words i) j = (decide (j = i) || bit words j) := by
  have hlt := Nat.mod_lt i hw
  have hlt' := Nat.mod_lt j hw
  rw [bit, set]
  by_cases hword : j / w = i / w
  · rw [hword, Function.update_self, BitVec.getLsbD_or, mask, BitVec.getLsbD_twoPow, bit, hword]
    have heq := mod_eq_iff hword
    simp [hlt, hlt', heq, Bool.or_comm]
  · rw [Function.update_of_ne hword]
    have hne : j ≠ i := by
      rintro rfl
      exact hword rfl
    simp [bit, hne]

theorem bit_clear (hw : 0 < w) : bit (clear words i) j = (!decide (j = i) && bit words j) := by
  have hlt := Nat.mod_lt i hw
  have hlt' := Nat.mod_lt j hw
  rw [bit, clear]
  by_cases hword : j / w = i / w
  · rw [hword, Function.update_self, BitVec.getLsbD_and, BitVec.getLsbD_not, mask,
      BitVec.getLsbD_twoPow, bit, hword]
    have heq := mod_eq_iff hword
    simp [hlt, hlt', heq, Bool.and_comm]
  · rw [Function.update_of_ne hword]
    have hne : j ≠ i := by
      rintro rfl
      exact hword rfl
    simp [bit, hne]

/-- Searching word by word, and bit by bit in a word, is searching the bits in order. -/
theorem findSome?_words (p : Nat → Bool) (n k : Nat) :
    ((List.range n).findSome? fun i =>
      ((List.range k).find? fun b => p (i * k + b)).map fun b => i * k + b) =
      (List.range (n * k)).find? p := by
  induction n with
  | zero => simp
  | succ n ih =>
      rw [List.range_succ, List.findSome?_append, ih, Nat.succ_mul, List.range_add,
        List.find?_append, List.find?_map]
      simp [Function.comp_def]

end BitArray

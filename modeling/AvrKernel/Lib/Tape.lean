import Mathlib.Data.List.Basic
import Mathlib.Tactic.Common

/-!
# Tapes

A tape holds a value at every position. A segment of it is read as a list and a list is
written from a position on; writes of adjacent segments make one write, and writing back
what a segment holds changes nothing.
-/

namespace Tape

variable {α : Type} (t : Nat → α) (pos : Nat)

/-- The `n` values from `pos` on. -/
def read : Nat → Nat → List α
  | _, 0 => []
  | pos, n + 1 => t pos :: read (pos + 1) n

/-- The values of `l` from `pos` on. -/
def write (l : List α) : Nat → α :=
  fun i => if pos ≤ i then (l[i - pos]?).getD (t i) else t i

@[simp] theorem read_length (n : Nat) : (read t pos n).length = n := by
  induction n generalizing pos with
  | zero => rfl
  | succ n ih => simp [read, ih]

theorem getElem?_read {n i : Nat} (h : i < n) : (read t pos n)[i]? = some (t (pos + i)) := by
  induction n generalizing pos i with
  | zero => omega
  | succ n ih =>
      cases i with
      | zero => simp [read]
      | succ i =>
          rw [read, List.getElem?_cons_succ, ih (pos + 1) (by omega)]
          simp only [Nat.add_assoc, Nat.add_comm 1]

theorem read_add (m n : Nat) : read t pos (m + n) = read t pos m ++ read t (pos + m) n := by
  induction m generalizing pos with
  | zero => simp [read]
  | succ m ih =>
      rw [Nat.succ_add, read, read, ih (pos + 1), List.cons_append, Nat.add_assoc, Nat.add_comm 1]

theorem read_congr {t' : Nat → α} {n : Nat} (h : ∀ i, pos ≤ i → i < pos + n → t i = t' i) :
    read t pos n = read t' pos n := by
  induction n generalizing pos with
  | zero => rfl
  | succ n ih =>
      rw [read, read, h pos (Nat.le_refl pos) (by omega)]
      rw [ih (pos + 1) fun i hlo hhi => h i (by omega) (by omega)]

theorem read_drop {m n : Nat} (h : m ≤ n) :
    (read t pos n).drop m = read t (pos + m) (n - m) := by
  obtain ⟨k, rfl⟩ := Nat.exists_eq_add_of_le h
  rw [read_add, List.drop_left' (read_length t pos m), Nat.add_sub_cancel_left]

theorem read_take {m n : Nat} (h : m ≤ n) : (read t pos n).take m = read t pos m := by
  obtain ⟨k, rfl⟩ := Nat.exists_eq_add_of_le h
  rw [read_add, List.take_left' (read_length t pos m)]

variable {t pos} {l : List α} {i : Nat}

theorem write_of_mem (h : pos ≤ i ∧ i < pos + l.length) : some (write t pos l i) = l[i - pos]? := by
  have hlt : i - pos < l.length := by omega
  rw [write, if_pos h.1, List.getElem?_eq_getElem hlt, Option.getD_some]

theorem write_of_not_mem (h : ¬(pos ≤ i ∧ i < pos + l.length)) : write t pos l i = t i := by
  rw [write]
  split
  next hle => rw [List.getElem?_eq_none (by omega), Option.getD_none]
  next => rfl

theorem write_write (t : Nat → α) (pos : Nat) (l l' : List α) :
    write (write t pos l) (pos + l.length) l' = write t pos (l ++ l') := by
  ext i
  have happ : pos + (l ++ l').length = pos + l.length + l'.length := by
    rw [List.length_append, Nat.add_assoc]
  by_cases hsnd : pos + l.length ≤ i ∧ i < pos + l.length + l'.length
  · apply Option.some.inj
    rw [write_of_mem hsnd, write_of_mem (by omega), List.getElem?_append_right (by omega)]
    congr 1
    omega
  · rw [write_of_not_mem hsnd]
    by_cases hfst : pos ≤ i ∧ i < pos + l.length
    · apply Option.some.inj
      rw [write_of_mem hfst, write_of_mem (by omega), List.getElem?_append_left (by omega)]
    · rw [write_of_not_mem hfst, write_of_not_mem (by omega)]

theorem write_read (t : Nat → α) (pos n : Nat) : write t pos (read t pos n) = t := by
  ext i
  by_cases h : pos ≤ i ∧ i < pos + (read t pos n).length
  · apply Option.some.inj
    rw [write_of_mem h]
    rw [read_length] at h
    rw [getElem?_read t pos (by omega), Nat.add_sub_of_le h.1]
  · exact write_of_not_mem h

/-- What follows a list may be written back together with it. -/
theorem write_append_read (t : Nat → α) (pos : Nat) (l : List α) (n : Nat) :
    write t pos (l ++ read t (pos + l.length) n) = write t pos l := by
  have hrest : read t (pos + l.length) n = read (write t pos l) (pos + l.length) n := by
    apply read_congr
    intro i hlo hhi
    rw [write_of_not_mem (by omega)]
  rw [hrest, ← write_write, write_read]

theorem read_write (t : Nat → α) (pos : Nat) (l : List α) :
    read (write t pos l) pos l.length = l := by
  apply List.ext_getElem?
  intro i
  by_cases hi : i < l.length
  · rw [getElem?_read _ _ hi, write_of_mem (by omega), Nat.add_sub_cancel_left]
  · rw [List.getElem?_eq_none (by simpa using hi), List.getElem?_eq_none (by omega)]

end Tape

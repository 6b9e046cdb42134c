import Mathlib.Data.List.Basic
import Mathlib.Data.Nat.ModEq
import Mathlib.Logic.Function.Basic

/-!
# Queues in a circle of cells

A queue between two indices of an array that is used in a circle. One cell stays
free, so that equal indices mean that the queue is empty.
-/

namespace CircularQueue

variable {α : Type} {size : Nat} [NeZero size]

/-- The cell `i` places behind the tail. -/
def place (tail : Fin size) (i : Nat) : Fin size := Fin.ofNat size (tail + i)

/-- The index behind `i`. -/
def next (i : Fin size) : Fin size := Fin.ofNat size (i + 1)

/-- The index before `i`. -/
def prev (i : Fin size) : Fin size := Fin.ofNat size (i + size - 1)

/-- The number of cells from the tail to the head. -/
def count (head tail : Fin size) : Nat := (head + size - tail) % size

/-- What is between the tail and the head. -/
def items (cells : Fin size → α) (head tail : Fin size) : List α :=
  (List.range (count head tail)).map fun i => cells (place tail i)

/-- The cells from the tail to the head hold `xs`. -/
structure Holds (cells : Fin size → α) (head tail : Fin size) (xs : List α) : Prop where
  length_lt : xs.length < size
  head_eq : head = place tail xs.length
  cell : ∀ i (h : i < xs.length), cells (place tail i) = xs[i]

theorem place_zero (tail : Fin size) : place tail 0 = tail :=
  Fin.ext (Nat.mod_eq_of_lt tail.isLt)

theorem next_place (tail : Fin size) (i : Nat) : next (place tail i) = place tail (i + 1) := by
  apply Fin.ext
  change ((tail + i) % size + 1) % size = (tail + (i + 1)) % size
  rw [Nat.mod_add_mod, Nat.add_assoc]

theorem place_next (tail : Fin size) (i : Nat) : place (next tail) i = place tail (i + 1) := by
  apply Fin.ext
  change ((tail + 1) % size + i) % size = (tail + (i + 1)) % size
  rw [Nat.mod_add_mod, Nat.add_assoc, Nat.add_comm 1 i]

theorem prev_next (i : Fin size) : prev (next i) = i := by
  apply Fin.ext
  have hi := i.isLt
  change ((i + 1) % size + size - 1) % size = i
  rcases Nat.lt_or_ge (i + 1) size with hlt | hge
  · rw [Nat.mod_eq_of_lt hlt, show i.val + 1 + size - 1 = i.val + size by omega,
      Nat.add_mod_right, Nat.mod_eq_of_lt hi]
  · rw [show i.val + 1 = size by omega, Nat.mod_self, Nat.zero_add,
      Nat.mod_eq_of_lt (by omega)]
    omega

theorem place_inj {tail : Fin size} {i j : Nat} (hi : i < size) (hj : j < size)
    (h : place tail i = place tail j) : i = j := by
  have hmod : tail + i ≡ tail + j [MOD size] := congrArg Fin.val h
  exact (Nat.ModEq.add_left_cancel' _ hmod).eq_of_lt_of_lt hi hj

theorem count_place (tail : Fin size) {n : Nat} (hn : n < size) :
    count (place tail n) tail = n := by
  have htail := tail.isLt
  change ((tail + n) % size + size - tail) % size = n
  rcases Nat.lt_or_ge (tail + n) size with hlt | hge
  · rw [Nat.mod_eq_of_lt hlt, show tail.val + n + size - tail.val = n + size by omega,
      Nat.add_mod_right, Nat.mod_eq_of_lt hn]
  · rw [Nat.mod_eq_sub_mod hge, Nat.mod_eq_of_lt (show tail + n - size < size by omega),
      show tail.val + n - size + size - tail.val = n by omega, Nat.mod_eq_of_lt hn]

namespace Holds

variable {cells : Fin size → α} {head tail : Fin size} {xs : List α} {x y : α}

theorem empty (cells : Fin size → α) (tail : Fin size) : Holds cells tail tail [] :=
  ⟨Nat.pos_of_ne_zero (NeZero.ne size), (place_zero tail).symm,
    fun _ h => absurd h (Nat.not_lt_zero _)⟩

theorem items_eq (h : Holds cells head tail xs) : items cells head tail = xs := by
  have hcount : count head tail = xs.length := by
    rw [h.head_eq]
    exact count_place tail h.length_lt
  apply List.ext_getElem
  · simp [items, hcount]
  · intro i hi hi'
    simpa [items] using h.cell i hi'

theorem head_eq_tail (h : Holds cells head tail xs) : head = tail ↔ xs = [] := by
  constructor
  · intro heq
    have hplace : place tail xs.length = place tail 0 := by rw [← h.head_eq, heq, place_zero]
    exact List.length_eq_zero_iff.mp
      (place_inj h.length_lt (Nat.pos_of_ne_zero (NeZero.ne size)) hplace)
  · intro hnil
    rw [h.head_eq, hnil]
    exact place_zero tail

/-- The queue is full when the head is right before the tail. -/
theorem next_eq_tail (h : Holds cells head tail xs) : next head = tail ↔ xs.length + 1 = size := by
  rw [h.head_eq, next_place]
  have hlength := h.length_lt
  constructor
  · intro heq
    by_contra hne
    have hplace : place tail (xs.length + 1) = place tail 0 := heq.trans (place_zero tail).symm
    have hzero := place_inj (Nat.lt_of_le_of_ne hlength hne)
      (Nat.pos_of_ne_zero (NeZero.ne size)) hplace
    exact Nat.succ_ne_zero _ hzero
  · intro hfull
    apply Fin.ext
    change (tail + (xs.length + 1)) % size = tail
    rw [hfull, Nat.add_mod_right, Nat.mod_eq_of_lt tail.isLt]

theorem enqueue (h : Holds cells head tail xs) (hroom : xs.length + 1 < size) (x : α) :
    Holds (Function.update cells head x) (next head) tail (xs ++ [x]) := by
  refine ⟨by simpa using hroom, ?_, ?_⟩
  · rw [h.head_eq, next_place, List.length_append, List.length_singleton]
  · intro i hi
    rw [List.length_append, List.length_singleton] at hi
    rcases Nat.lt_succ_iff_lt_or_eq.mp hi with hlt | rfl
    · have hne : place tail i ≠ head := by
        intro heq
        rw [h.head_eq] at heq
        exact Nat.ne_of_lt hlt (place_inj (hlt.trans h.length_lt) h.length_lt heq)
      rw [Function.update_of_ne hne, List.getElem_append_left hlt, h.cell i hlt]
    · rw [← h.head_eq, Function.update_self]
      simp

theorem replace (h : Holds cells head tail (xs ++ [y])) (x : α) :
    Holds (Function.update cells (prev head) x) head tail (xs ++ [x]) := by
  have hlength := h.length_lt
  rw [List.length_append, List.length_singleton] at hlength
  have hprev : prev head = place tail xs.length := by
    rw [h.head_eq, List.length_append, List.length_singleton, ← next_place, prev_next]
  refine ⟨by simpa using hlength, by simpa using h.head_eq, fun i hi => ?_⟩
  rw [List.length_append, List.length_singleton] at hi
  rcases Nat.lt_succ_iff_lt_or_eq.mp hi with hlt | rfl
  · have hne : place tail i ≠ prev head := by
      intro heq
      rw [hprev] at heq
      exact Nat.ne_of_lt hlt (place_inj (by omega) (by omega) heq)
    rw [Function.update_of_ne hne, List.getElem_append_left hlt,
      h.cell i (by simpa using hi), List.getElem_append_left hlt]
  · rw [← hprev, Function.update_self]
    simp

/-- The newest item is not the oldest one as long as there are two. -/
theorem prev_ne_tail (h : Holds cells head tail xs) (htwo : 2 ≤ xs.length) : prev head ≠ tail := by
  have hlength := h.length_lt
  have hprev : prev head = place tail (xs.length - 1) := by
    rw [h.head_eq, show xs.length = xs.length - 1 + 1 by omega, ← next_place, prev_next]
    rfl
  intro heq
  rw [hprev] at heq
  have hzero := place_inj (show xs.length - 1 < size by omega) (show 0 < size by omega)
    (heq.trans (place_zero tail).symm)
  omega

theorem dequeue (h : Holds cells head tail (x :: xs)) :
    cells tail = x ∧ Holds cells head (next tail) xs := by
  refine ⟨?_, Nat.lt_of_succ_lt h.length_lt, ?_, fun i hi => ?_⟩
  · have hcell := h.cell 0 (Nat.succ_pos _)
    rwa [place_zero] at hcell
  · rw [place_next]
    exact h.head_eq
  · rw [place_next]
    exact h.cell (i + 1) (Nat.succ_lt_succ hi)

end Holds

end CircularQueue

import Mathlib.Data.List.Basic

/-!
# Runs of cells

Cells in order, listed as runs of consecutive ones. A run that begins where the last one ends
may be made part of it.
-/

namespace Runs

/-- So many cells from `base` on. -/
structure Run where
  base : Nat
  length : Nat

def Run.cells (r : Run) : List Nat := List.range' r.base r.length

def cells (runs : List Run) : List Nat := runs.flatMap Run.cells

variable (runs : List Run) (r : Run) (n : Nat)

@[simp] theorem cells_nil : cells [] = [] := rfl

theorem cells_concat : cells (runs ++ [r]) = cells runs ++ r.cells := by
  simp [cells]

/-- The last run grows by a run that begins where it ends. -/
theorem cells_grow : cells (runs ++ [{ r with length := r.length + n }]) =
    cells (runs ++ [r]) ++ Run.cells { base := r.base + r.length, length := n } := by
  rw [cells_concat, cells_concat, List.append_assoc, Run.cells, Run.cells, Run.cells,
    List.range'_append_1]

end Runs

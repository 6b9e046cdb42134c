import Mathlib.Algebra.Order.Ring.Int
import Mathlib.Order.Lattice
import Mathlib.Tactic.Common

/-!
# Boxes of points

Rectangles of integer points. The left and top edges belong to a box, the right and
bottom ones do not.
-/

namespace Boxes

@[ext]
structure Box where
  left : Int
  top : Int
  right : Int
  bottom : Int
  deriving DecidableEq, Repr

namespace Box

variable {a b c : Box} {x y : Int}

def Contains (b : Box) (x y : Int) : Prop := b.left ≤ x ∧ x < b.right ∧ b.top ≤ y ∧ y < b.bottom

instance (b : Box) (x y : Int) : Decidable (b.Contains x y) := inferInstanceAs (Decidable (_ ∧ _))

/-- There is a point in the box. -/
def Proper (b : Box) : Prop := b.left < b.right ∧ b.top < b.bottom

instance (b : Box) : Decidable b.Proper := inferInstanceAs (Decidable (_ ∧ _))

/-- No edge of `a` is outside of `b`. -/
structure Within (a b : Box) : Prop where
  left : b.left ≤ a.left
  top : b.top ≤ a.top
  right : a.right ≤ b.right
  bottom : a.bottom ≤ b.bottom

theorem proper_iff : b.Proper ↔ ∃ x y, b.Contains x y := by
  constructor
  · intro h
    exact ⟨b.left, b.top, by simp, h.1, by simp, h.2⟩
  · rintro ⟨x, y, hleft, hright, htop, hbottom⟩
    exact ⟨by omega, by omega⟩

theorem Contains.proper (h : b.Contains x y) : b.Proper := proper_iff.mpr ⟨x, y, h⟩

theorem Contains.mono (h : a.Contains x y) (hab : a.Within b) : b.Contains x y := by
  obtain ⟨hleft, hright, htop, hbottom⟩ := h
  obtain ⟨hleft', htop', hright', hbottom'⟩ := hab
  exact ⟨by omega, by omega, by omega, by omega⟩

theorem Within.refl (b : Box) : b.Within b := by constructor <;> simp

theorem Within.trans (h : a.Within b) (h' : b.Within c) : a.Within c := by
  constructor
  · exact h'.left.trans h.left
  · exact h'.top.trans h.top
  · exact h.right.trans h'.right
  · exact h.bottom.trans h'.bottom

/-! ## Hulls and intersections -/

/-- The smallest box around two. -/
def hull (a b : Box) : Box :=
  ⟨min a.left b.left, min a.top b.top, max a.right b.right, max a.bottom b.bottom⟩

/-- The points that two boxes share. -/
def inter (a b : Box) : Box :=
  ⟨max a.left b.left, max a.top b.top, min a.right b.right, min a.bottom b.bottom⟩

theorem within_hull_left (a b : Box) : a.Within (a.hull b) := by constructor <;> simp [hull]

theorem within_hull_right (a b : Box) : b.Within (a.hull b) := by constructor <;> simp [hull]

theorem Within.hull (ha : a.Within c) (hb : b.Within c) : (a.hull b).Within c := by
  constructor <;> simp [Box.hull, ha.left, ha.top, ha.right, ha.bottom, hb.left, hb.top,
    hb.right, hb.bottom]

theorem Proper.hull (ha : a.Proper) (b : Box) : (a.hull b).Proper := by
  obtain ⟨x, y, h⟩ := proper_iff.mp ha
  exact (h.mono (within_hull_left a b)).proper

theorem inter_within_left (a b : Box) : (a.inter b).Within a := by constructor <;> simp [inter]

theorem inter_within_right (a b : Box) : (a.inter b).Within b := by constructor <;> simp [inter]

@[simp] theorem contains_inter :
    (a.inter b).Contains x y ↔ a.Contains x y ∧ b.Contains x y := by
  simp only [Contains, inter, max_le_iff, lt_min_iff]
  tauto

end Box

/-! ## Points in rows -/

section Rows

variable {width x y x' y' : Int}

theorem row_of_index (hx : 0 ≤ x) (hwidth : x < width) : (y * width + x) / width = y := by
  rw [Int.add_comm, Int.add_mul_ediv_right _ _ (by omega), Int.ediv_eq_zero_of_lt hx hwidth]
  simp

/-- The index in rows of a width belongs to one point only. -/
theorem index_inj (hx : 0 ≤ x) (hwidth : x < width) (hx' : 0 ≤ x') (hwidth' : x' < width)
    (h : y * width + x = y' * width + x') : x = x' ∧ y = y' := by
  have hy : y = y' := by
    rw [← row_of_index (y := y) hx hwidth, h, row_of_index hx' hwidth']
  subst hy
  exact ⟨by omega, rfl⟩

/-- The points up to another one have smaller indices. -/
theorem index_le (hwidth : 0 ≤ width) (hx : x ≤ x') (hy : y ≤ y') :
    y * width + x ≤ y' * width + x' :=
  Int.add_le_add (Int.mul_le_mul_of_nonneg_right hy hwidth) hx

end Rows

end Boxes

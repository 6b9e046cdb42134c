import AvrKernel.Display.Primitives

/-!
# What the figures paint

Every routine paints its figure: in the clip rectangle each pixel of the figure gets its
value once, and nothing else in memory changes. A loop paints what its rounds paint when
every round has pixels of its own.
-/

namespace AvrKernel.Display

open Boxes

/-- A figure: what becomes of each pixel, if it belongs to the figure. -/
abbrev Figure := Int → Int → Option (UInt32 → UInt32)

/-- The value of a pixel that a figure is painted on. -/
def applied (value : Option (UInt32 → UInt32)) (old : UInt32) : UInt32 :=
  match value with
  | none => old
  | some value => value old

namespace DrawContext

variable (d : DrawContext)

/-- A routine changes exactly the pixels of a figure in the clip rectangle. -/
structure Paints (routine : Frame → Frame) (figure : Figure) : Prop where
  pixel : ∀ frame x y, d.clip.Contains x y →
    routine frame (d.index x y) = applied (figure x y) (frame (d.index x y))
  rest : ∀ frame k, (∀ x y, d.clip.Contains x y → k ≠ d.index x y) → routine frame k = frame k

variable {d} {routine routine' : Frame → Frame} {figure figure' : Figure} {x y x' y' : Int}

/-- Pixels of the frame buffer have different indices. -/
theorem index_inj (hx : 0 ≤ x ∧ x < d.stride) (hx' : 0 ≤ x' ∧ x' < d.stride)
    (h : d.index x y = d.index x' y') : x = x' ∧ y = y' := by
  exact Boxes.index_inj hx.1 hx.2 hx'.1 hx'.2 h

theorem index_inj_of_contains (h : d.clip.Contains x y) (h' : d.clip.Contains x' y')
    (heq : d.index x y = d.index x' y') : x = x' ∧ y = y' := by
  obtain ⟨h₁, h₂, -⟩ := d.inside x y h
  obtain ⟨h₁', h₂', -⟩ := d.inside x' y' h'
  exact index_inj ⟨h₁, h₂⟩ ⟨h₁', h₂'⟩ heq

namespace Paints

theorem congr (h : d.Paints routine figure)
    (hfigure : ∀ x y, d.clip.Contains x y → figure x y = figure' x y) :
    d.Paints routine figure' where
  pixel frame x y hxy := by rw [h.pixel frame x y hxy, hfigure x y hxy]
  rest := h.rest

theorem congr_routine (h : d.Paints routine figure)
    (hroutine : ∀ frame, routine' frame = routine frame)
    (hfigure : ∀ x y, d.clip.Contains x y → figure x y = figure' x y) :
    d.Paints routine' figure' := by
  rw [funext hroutine]
  exact h.congr hfigure

theorem id : d.Paints (fun frame => frame) fun _ _ => none := ⟨fun _ _ _ _ => rfl, fun _ _ _ => rfl⟩

/-- Nothing of the figure is in the clip rectangle. -/
theorem of_outside (h : ∀ x y, d.clip.Contains x y → figure x y = none) :
    d.Paints (fun frame => frame) figure := id.congr fun x y hxy => (h x y hxy).symm

theorem comp (h : d.Paints routine figure) (h' : d.Paints routine' figure') :
    d.Paints (fun frame => routine' (routine frame)) fun x y =>
      match figure' x y, figure x y with
      | some value, some first => some fun old => value (first old)
      | some value, none => some value
      | none, first => first where
  pixel frame x y hxy := by
    rw [h'.pixel _ x y hxy, h.pixel frame x y hxy]
    cases figure' x y <;> cases figure x y <;> rfl
  rest frame k hk := by rw [h'.rest _ k hk, h.rest frame k hk]

theorem change (hxy : d.clip.Contains x y) (value : UInt32 → UInt32) :
    d.Paints (d.change x y value) fun px py => if px = x ∧ py = y then some value else none where
  pixel frame px py hp := by
    simp only [DrawContext.change]
    split
    · next heq =>
      rw [heq.1, heq.2, Function.update_self]
      rfl
    · next hne =>
      rw [Function.update_of_ne]
      · rfl
      · exact fun heq => hne (index_inj_of_contains hp hxy heq)
  rest frame k hk := Function.update_of_ne (hk x y hxy) _ _

/-- A loop whose rounds paint the slices of a figure paints these slices. -/
theorem rounds {body : Int → Frame → Frame} (coord : Int → Int → Int) (n : Nat) (lo : Int)
    (hbody : ∀ i, lo ≤ i → i < lo + n →
      d.Paints (body i) fun x y => if coord x y = i then figure x y else none) :
    d.Paints (DrawContext.rounds body n lo) fun x y =>
      if lo ≤ coord x y ∧ coord x y < lo + n then figure x y else none := by
  induction n generalizing lo with
  | zero => exact of_outside fun x y _ => if_neg (by omega)
  | succ n ih =>
      have hfirst := hbody lo (Int.le_refl lo) (by omega)
      have hrest := ih (lo + 1) fun i hlo hhi => hbody i (by omega) (by omega)
      apply (hfirst.comp hrest).congr
      intro x y hxy
      by_cases heq : coord x y = lo
      · rw [if_neg (by omega), if_pos heq, if_pos (by omega)]
      · rw [if_neg heq]
        by_cases hin : lo + 1 ≤ coord x y ∧ coord x y < lo + 1 + n
        · rw [if_pos hin, if_pos (by omega)]
          cases figure x y <;> rfl
        · rw [if_neg hin, if_neg (by omega)]

theorem forRange {body : Int → Frame → Frame} (figure : Figure)
    (coord : Int → Int → Int) (lo hi : Int)
    (hbody : ∀ i, lo ≤ i → i < hi →
      d.Paints (body i) fun x y => if coord x y = i then figure x y else none) :
    d.Paints (DrawContext.forRange lo hi body) fun x y =>
      if lo ≤ coord x y ∧ coord x y < hi then figure x y else none := by
  apply (rounds coord (hi - lo).toNat lo fun i hlo hhi => hbody i hlo (by omega)).congr
  intro x y _
  congr 1
  simp only [eq_iff_iff]
  omega

/-- Two nested loops over the pixels with the coordinates `u` and `v`. -/
theorem sweep {body : Int → Int → Frame → Frame} (figure : Figure) (u v : Int → Int → Int)
    (ulo uhi vlo vhi : Int)
    (hbody : ∀ a, ulo ≤ a → a < uhi → ∀ b, vlo ≤ b → b < vhi →
      d.Paints (body a b) fun x y => if u x y = a ∧ v x y = b then figure x y else none) :
    d.Paints (DrawContext.forRange ulo uhi fun a => DrawContext.forRange vlo vhi (body a))
      fun x y => if (ulo ≤ u x y ∧ u x y < uhi) ∧ vlo ≤ v x y ∧ v x y < vhi then figure x y
        else none := by
  apply (forRange (fun x y => if vlo ≤ v x y ∧ v x y < vhi then figure x y else none)
    u ulo uhi ?_).congr
  · intro x y _
    split_ifs <;> first | rfl | omega
  · intro a hlo hhi
    apply (forRange (fun x y => if u x y = a then figure x y else none) v vlo vhi ?_).congr
    · intro x y _
      split_ifs <;> rfl
    · intro b hblo hbhi
      apply (hbody a hlo hhi b hblo hbhi).congr
      intro x y _
      split_ifs <;> first | rfl | omega

/-- A pixel of a figure that may be left out. -/
theorem optional (value : Option (UInt32 → UInt32)) :
    (value ≠ none → d.clip.Contains x y) →
    d.Paints (fun frame => match value with
      | none => frame
      | some value => d.change x y value frame)
      fun px py => if px = x ∧ py = y then value else none := by
  intro hxy
  cases value with
  | none => exact of_outside fun _ _ _ => by simp
  | some value => exact change (hxy nofun) value

/-- A routine that returns at once when nothing is visible. -/
theorem guard {empty : Prop} [Decidable empty] (routine : Frame → Frame)
    (hempty : empty → ∀ x y, d.clip.Contains x y → figure x y = none)
    (hvisible : ¬empty → d.Paints routine figure) :
    d.Paints (fun frame => if empty then frame else routine frame) figure := by
  by_cases h : empty
  · simpa only [if_pos h] using of_outside (hempty h)
  · simpa only [if_neg h] using hvisible h

/-- A part of a routine that is left out when nothing of it is visible. -/
theorem part {visible : Prop} [Decidable visible] (routine : Frame → Frame)
    (hvisible : visible → d.Paints routine figure)
    (hempty : ¬visible → ∀ x y, d.clip.Contains x y → figure x y = none) :
    d.Paints (fun frame => if visible then routine frame else frame) figure := by
  by_cases h : visible
  · simpa only [if_pos h] using hvisible h
  · simpa only [if_neg h] using of_outside (hempty h)

theorem colored {p q r : Int → Int → Prop} [∀ x y, Decidable (p x y)] [∀ x y, Decidable (q x y)]
    [∀ x y, Decidable (r x y)] {color : UInt32}
    (h : d.Paints routine fun x y => if p x y then some fun _ => color else none)
    (h' : d.Paints routine' fun x y => if q x y then some fun _ => color else none)
    (hr : ∀ x y, r x y ↔ p x y ∨ q x y) :
    d.Paints (fun frame => routine' (routine frame))
      fun x y => if r x y then some fun _ => color else none := by
  apply (h.comp h').congr
  intro x y _
  have := hr x y
  split_ifs <;> first | rfl | tauto

end Paints

/-! ## The figures -/

/-- The points of a figure at `(x, y)`. -/
def extent (x y width height : Int) : Box := ⟨x, y, x + width, y + height⟩

/-- The edges of a rectangle. -/
def rectFigure (x y width height : Int) (color : UInt32) : Figure := fun px py =>
  if (extent x y width height).Contains px py ∧
      (px = x ∨ px = x + width - 1 ∨ py = y ∨ py = y + height - 1) then some fun _ => color
  else none

def rectFilledFigure (x y width height : Int) (color : UInt32) : Figure := fun px py =>
  if (extent x y width height).Contains px py then some fun _ => color else none

/-- Column `i` of a glyph is a byte of the map, its lowest bit on top. -/
def glyphFigure (glyphMap : Int → UInt8) (glyphIndex : Int) (width height : UInt16) (x y : Int)
    (fgColor bgColor : UInt32) (transparentBg : Bool) : Figure := fun px py =>
  if (extent x y width.toNat height.toNat).Contains px py then
    if (glyphMap (glyphIndex * width.toNat + (px - x))).toNat.testBit (py - y).toNat then
      some fun _ => fgColor
    else if transparentBg then none else some fun _ => bgColor
  else none

/-- The rows of a sprite lie one behind the other. -/
def spriteFigure (draw : UInt32 → Option (UInt32 → UInt32)) (spriteData : Int → UInt32)
    (spriteW spriteH x y : Int) : Figure := fun px py =>
  if (extent x y spriteW spriteH).Contains px py then
    draw (spriteData ((py - y) * spriteW + (px - x)))
  else none

/-! ## The routines -/

section Ranges

variable {lo hi v w i : Int}

theorem visibleStart_le : visibleStart lo v ≤ i ↔ lo ≤ i ∧ v ≤ i := by
  rw [visibleStart]
  split <;> omega

theorem lt_visibleEnd : i < visibleEnd hi v ↔ i < hi ∧ i < v := by
  rw [visibleEnd]
  split <;> omega

theorem sourceStart_le : sourceStart lo v ≤ i ↔ lo ≤ v + i ∧ 0 ≤ i := by
  rw [sourceStart]
  split <;> omega

theorem lt_sourceEnd : i < sourceEnd hi v w ↔ v + i < hi ∧ i < w := by
  rw [sourceEnd]
  split <;> omega

end Ranges

theorem visible_iff {width height px py : Int} (hp : d.clip.Contains px py) :
    (extent x y width height).Contains px py ↔
      (visibleStart d.clip.left x ≤ px ∧ px < visibleEnd d.clip.right (x + width)) ∧
        visibleStart d.clip.top y ≤ py ∧ py < visibleEnd d.clip.bottom (y + height) := by
  rw [visibleStart_le, lt_visibleEnd, visibleStart_le, lt_visibleEnd]
  simp only [Box.Contains, extent] at *
  omega

theorem source_iff {width height px py : Int} (hp : d.clip.Contains px py) :
    (extent x y width height).Contains px py ↔
      (sourceStart d.clip.left x ≤ px - x ∧ px - x < sourceEnd d.clip.right x width) ∧
        sourceStart d.clip.top y ≤ py - y ∧ py - y < sourceEnd d.clip.bottom y height := by
  rw [sourceStart_le, lt_sourceEnd, sourceStart_le, lt_sourceEnd]
  simp only [Box.Contains, extent] at *
  omega

theorem drawRectFilled_paints (x y width height : Int) (color : UInt32) :
    d.Paints (d.drawRectFilled x y width height color)
      (rectFilledFigure (x + d.displayBaseX) (y + d.displayBaseY) width height color) := by
  unfold drawRectFilled
  dsimp only
  generalize x + d.displayBaseX = x₀
  generalize y + d.displayBaseY = y₀
  apply Paints.guard
  · intro hempty px py hp
    refine if_neg fun hin => ?_
    have := (visible_iff hp).mp hin
    omega
  · intro hvisible
    apply (Paints.sweep (fun _ _ => some fun _ => color) (fun _ py => py)
      (fun px _ => px - visibleStart d.clip.left x₀) _ _ _ _ ?_).congr
    · intro px py hp
      simp only [rectFilledFigure, visible_iff hp]
      split_ifs <;> first | rfl | omega
    · intro currY hlo hhi i hi hi'
      have hlo' := visibleStart_le.mp hlo
      have hhi' := lt_visibleEnd.mp hhi
      have hfirst := visibleStart_le.mp
        (show visibleStart d.clip.left x₀ ≤ visibleStart d.clip.left x₀ + i by omega)
      have hlast : visibleStart d.clip.left x₀ + i < visibleEnd d.clip.right (x₀ + width) ↔ _ :=
        lt_visibleEnd
      apply (Paints.change (d := d) (x := visibleStart d.clip.left x₀ + i) (y := currY)
        (by simp only [Box.Contains]; omega) fun _ => color).congr
      intro px py _
      split_ifs <;> first | rfl | omega

/-- Every edge is drawn where it is visible; corners get the same color twice. -/
theorem drawRect_paints (x y width height : Int) (color : UInt32) :
    d.Paints (d.drawRect x y width height color)
      (rectFigure (x + d.displayBaseX) (y + d.displayBaseY) width height color) := by
  unfold drawRect
  dsimp only
  generalize x + d.displayBaseX = x₀
  generalize y + d.displayBaseY = y₀
  apply Paints.guard
  · intro hempty px py hp
    refine if_neg fun hin => ?_
    have := (visible_iff hp).mp hin.1
    omega
  · intro hvisible
    -- a horizontal edge
    have hline : ∀ line, d.Paints (fun frame => if line ≥ d.clip.top ∧ line < d.clip.bottom then
        forRange (visibleStart d.clip.left x₀) (visibleEnd d.clip.right (x₀ + width))
          (fun cx => d.put cx line color) frame else frame)
        fun px py => if (x₀ ≤ px ∧ px < x₀ + width) ∧ py = line then some fun _ => color
          else none := by
      intro line
      apply Paints.part
      · intro hrow
        apply (Paints.forRange (fun _ py => if py = line then some fun _ => color
          else none) (fun px _ => px) _ _ ?_).congr
        · intro px py hp
          simp only [visibleStart_le, lt_visibleEnd]
          simp only [Box.Contains] at hp
          split_ifs <;> first | rfl | omega
        · intro i hlo hhi
          rw [visibleStart_le] at hlo
          rw [lt_visibleEnd] at hhi
          apply (Paints.change (d := d) (x := i) (y := line)
            (by simp only [Box.Contains]; omega) fun _ => color).congr
          intro px py _
          split_ifs <;> first | rfl | omega
      · intro hrow px py hp
        simp only [Box.Contains] at hp
        exact if_neg (by omega)
    -- a pixel of a vertical edge
    have hside : ∀ column cy, d.clip.top ≤ cy → cy < d.clip.bottom →
        d.Paints (fun frame => if column ≥ d.clip.left ∧ column < d.clip.right then
          d.put column cy color frame else frame)
        fun px py => if px = column ∧ py = cy then some fun _ => color else none := by
      intro column cy htop hbottom
      apply Paints.part
      · intro hcolumn
        exact Paints.change (by simp only [Box.Contains]; omega) fun _ => color
      · intro hcolumn px py hp
        simp only [Box.Contains] at hp
        exact if_neg (by omega)
    have hsides : d.Paints (forRange (visibleStart d.clip.top y₀)
        (visibleEnd d.clip.bottom (y₀ + height)) fun cy frame =>
          let frame := if x₀ ≥ d.clip.left ∧ x₀ < d.clip.right then d.put x₀ cy color frame
            else frame
          let rightX := x₀ + width - 1
          if rightX ≥ d.clip.left ∧ rightX < d.clip.right then d.put rightX cy color frame
          else frame)
        fun px py => if (y₀ ≤ py ∧ py < y₀ + height) ∧ (px = x₀ ∨ px = x₀ + width - 1) then
          some fun _ => color else none := by
      apply (Paints.forRange (fun px _ => if px = x₀ ∨ px = x₀ + width - 1 then
        some fun _ => color else none) (fun _ py => py) _ _ ?_).congr
      · intro px py hp
        simp only [visibleStart_le, lt_visibleEnd]
        simp only [Box.Contains] at hp
        split_ifs <;> first | rfl | omega
      · intro cy hlo hhi
        rw [visibleStart_le] at hlo
        rw [lt_visibleEnd] at hhi
        apply ((hside x₀ cy hlo.1 hhi.1).colored (hside (x₀ + width - 1) cy hlo.1 hhi.1)
          (fun _ _ => Iff.rfl)).congr
        intro px py _
        split_ifs <;> first | rfl | omega
    have htwo := (hline y₀).colored (hline (y₀ + height - 1)) (fun _ _ => Iff.rfl)
    apply (htwo.colored hsides (fun _ _ => Iff.rfl)).congr
    have hwidth := visibleStart_le.mp (Int.le_refl (visibleStart d.clip.left x₀))
    have hwidth' := lt_visibleEnd.mp
      (show visibleStart d.clip.left x₀ < visibleEnd d.clip.right (x₀ + width) by omega)
    have hheight := visibleStart_le.mp (Int.le_refl (visibleStart d.clip.top y₀))
    have hheight' := lt_visibleEnd.mp
      (show visibleStart d.clip.top y₀ < visibleEnd d.clip.bottom (y₀ + height) by omega)
    intro px py hp
    rw [rectFigure]
    apply if_congr _ rfl rfl
    simp only [Box.Contains, extent]
    omega

/-- A pixel of a source, which may be left out. -/
theorem drawSpriteWith_paints (draw : UInt32 → Option (UInt32 → UInt32))
    (spriteData : Int → UInt32) (spriteW spriteH x y : Int) :
    d.Paints (d.drawSpriteWith draw spriteData spriteW spriteH x y)
      (spriteFigure draw spriteData spriteW spriteH (x + d.displayBaseX) (y + d.displayBaseY)) := by
  unfold drawSpriteWith
  dsimp only
  generalize x + d.displayBaseX = x₀
  generalize y + d.displayBaseY = y₀
  apply Paints.guard
  · intro hempty px py hp
    refine if_neg fun hin => ?_
    have := (source_iff hp).mp hin
    omega
  · intro hvisible
    apply (Paints.sweep (fun px py => draw (spriteData ((py - y₀) * spriteW + (px - x₀))))
      (fun _ py => py - y₀) (fun px _ => px - (x₀ + sourceStart d.clip.left x₀)) _ _ _ _ ?_).congr
    · intro px py hp
      simp only [spriteFigure, source_iff hp]
      split_ifs <;> first | rfl | omega
    · intro srcY hlo hhi i hi hi'
      have hfirst := sourceStart_le.mp
        (show sourceStart d.clip.left x₀ ≤ sourceStart d.clip.left x₀ + i by omega)
      have hlast := lt_sourceEnd.mp
        (show sourceStart d.clip.left x₀ + i < sourceEnd d.clip.right x₀ spriteW by omega)
      rw [sourceStart_le] at hlo
      rw [lt_sourceEnd] at hhi
      apply (Paints.optional (d := d) (x := x₀ + sourceStart d.clip.left x₀ + i) (y := y₀ + srcY)
        (draw (spriteData (srcY * spriteW + sourceStart d.clip.left x₀ + i)))
        (fun _ => by simp only [Box.Contains]; omega)).congr
      intro px py _
      by_cases hat : px = x₀ + sourceStart d.clip.left x₀ + i ∧ py = y₀ + srcY
      · rw [if_pos hat, if_pos (by omega), hat.1, hat.2]
        congr 2
        rw [add_sub_cancel_left]
        omega
      · rw [if_neg hat, if_neg (by omega)]

theorem drawGlyph_paints (glyphMap : Int → UInt8) (glyphIndex : Int)
    (glyphWidth glyphHeigh : UInt16) (x y : Int) (fgColor bgColor : UInt32)
    (transparentBg : Bool) :
    d.Paints (d.drawGlyph glyphMap glyphIndex glyphWidth glyphHeigh x y fgColor bgColor
        transparentBg)
      (glyphFigure glyphMap glyphIndex glyphWidth glyphHeigh (x + d.displayBaseX)
        (y + d.displayBaseY) fgColor bgColor transparentBg) := by
  unfold drawGlyph
  dsimp only
  generalize x + d.displayBaseX = x₀
  generalize y + d.displayBaseY = y₀
  apply Paints.guard
  · intro hempty px py hp
    refine if_neg fun hin => ?_
    have := (source_iff hp).mp hin
    omega
  · intro hvisible
    apply (Paints.sweep (fun px py =>
      if (glyphMap (glyphIndex * glyphWidth.toNat + (px - x₀))).toNat.testBit (py - y₀).toNat then
        some fun _ => fgColor
      else if transparentBg then none else some fun _ => bgColor)
      (fun px _ => px - x₀) (fun _ py => py - y₀) _ _ _ _ ?_).congr
    · intro px py hp
      simp only [glyphFigure, source_iff hp]
    · intro srcX hlo hhi srcY hlo' hhi'
      rw [sourceStart_le] at hlo hlo'
      rw [lt_sourceEnd] at hhi hhi'
      have hin : d.clip.Contains (x₀ + srcX) (y₀ + srcY) := by
        simp only [Box.Contains]
        omega
      -- the foreground, the background or nothing
      apply (Paints.optional (if (glyphMap (glyphIndex * glyphWidth.toNat + srcX)).toNat.testBit
        srcY.toNat then some fun _ => fgColor else if transparentBg then none
        else some fun _ => bgColor) fun _ => hin).congr_routine
      · intro frame
        split_ifs <;> rfl
      · intro px py _
        by_cases hat : px = x₀ + srcX ∧ py = y₀ + srcY
        · obtain ⟨rfl, rfl⟩ := hat
          simp only [add_sub_cancel_left, and_self, if_true]
        · rw [if_neg hat, if_neg (by omega)]

/-- A pixel of the frame buffer outside of the clip rectangle is not one inside of it. -/
theorem Paints.outside (h : d.Paints routine figure) (frame : Frame) (hx : 0 ≤ x ∧ x < d.stride)
    (hxy : ¬d.clip.Contains x y) : routine frame (d.index x y) = frame (d.index x y) := by
  apply h.rest
  intro x' y' hin heq
  obtain ⟨hx₁, hx₂, -⟩ := d.inside x' y' hin
  obtain ⟨rfl, rfl⟩ := index_inj hx ⟨hx₁, hx₂⟩ heq
  exact hxy hin

end DrawContext

/-! ## All figures -/

open DrawContext

inductive Primitive
  | rect (x y width height : Int) (color : UInt32)
  | rectFilled (x y width height : Int) (color : UInt32)
  | glyph (glyphMap : Int → UInt8) (glyphIndex : Int) (glyphWidth glyphHeigh : UInt16) (x y : Int)
    (fgColor bgColor : UInt32) (transparentBg : Bool)
  | sprite (spriteData : Int → UInt32) (spriteW spriteH x y : Int) (colorkey : UInt32)
  | spriteBlend (spriteData : Int → UInt32) (spriteW spriteH x y : Int) (colorkey : UInt32)

namespace Primitive

/-- The routine that draws a figure. -/
def draw (d : DrawContext) : Primitive → Frame → Frame
  | rect x y width height color => d.drawRect x y width height color
  | rectFilled x y width height color => d.drawRectFilled x y width height color
  | glyph glyphMap glyphIndex glyphWidth glyphHeigh x y fgColor bgColor transparentBg =>
      d.drawGlyph glyphMap glyphIndex glyphWidth glyphHeigh x y fgColor bgColor transparentBg
  | sprite spriteData spriteW spriteH x y colorkey =>
      d.drawSprite spriteData spriteW spriteH x y colorkey
  | spriteBlend spriteData spriteW spriteH x y colorkey =>
      d.drawSpriteBlend spriteData spriteW spriteH x y colorkey

/-- The figure without a clip rectangle, at a place from the origin `(baseX, baseY)` on. -/
def figure (baseX baseY : Int) : Primitive → Figure
  | rect x y width height color => rectFigure (x + baseX) (y + baseY) width height color
  | rectFilled x y width height color =>
      rectFilledFigure (x + baseX) (y + baseY) width height color
  | glyph glyphMap glyphIndex glyphWidth glyphHeigh x y fgColor bgColor transparentBg =>
      glyphFigure glyphMap glyphIndex glyphWidth glyphHeigh (x + baseX) (y + baseY) fgColor bgColor
        transparentBg
  | sprite spriteData spriteW spriteH x y colorkey =>
      spriteFigure (spriteColor colorkey) spriteData spriteW spriteH (x + baseX) (y + baseY)
  | spriteBlend spriteData spriteW spriteH x y colorkey =>
      spriteFigure (blendColor colorkey) spriteData spriteW spriteH (x + baseX) (y + baseY)

theorem draw_paints (d : DrawContext) (p : Primitive) :
    d.Paints (p.draw d) (p.figure d.displayBaseX d.displayBaseY) := by
  cases p with
  | rect x y width height color => exact drawRect_paints x y width height color
  | rectFilled x y width height color => exact drawRectFilled_paints x y width height color
  | glyph glyphMap glyphIndex glyphWidth glyphHeigh x y fgColor bgColor transparentBg =>
      exact drawGlyph_paints ..
  | sprite spriteData spriteW spriteH x y colorkey => exact drawSpriteWith_paints ..
  | spriteBlend spriteData spriteW spriteH x y colorkey => exact drawSpriteWith_paints ..

end Primitive

/-- A pixel of the frame buffer changes exactly if it lies in the clip rectangle and belongs to
the figure, and then it gets the value of the figure, once. Other memory does not change. -/
theorem draw_clipped (d : DrawContext) (p : Primitive) (frame : Frame) :
    (∀ x y : Int, 0 ≤ x → x < d.stride → 0 ≤ y → y < d.height →
      p.draw d frame (d.index x y) =
        if d.clip.Contains x y then
          applied (p.figure d.displayBaseX d.displayBaseY x y) (frame (d.index x y))
        else frame (d.index x y)) ∧
      ∀ k : Int, k < 0 ∨ (d.stride * d.height : Int) ≤ k → p.draw d frame k = frame k := by
  have hpaints := p.draw_paints d
  constructor
  · intro x y hx hx' _ _
    split
    · next hin => exact hpaints.pixel frame x y hin
    · next hout => exact hpaints.outside frame ⟨hx, hx'⟩ hout
  · intro k hk
    apply hpaints.rest
    rintro x y hin rfl
    obtain ⟨hx, hx', hy, hy'⟩ := d.inside x y hin
    have hlow : 0 ≤ y * d.stride := Int.mul_nonneg hy (Int.natCast_nonneg _)
    have hhigh : (y + 1) * d.stride ≤ d.height * d.stride :=
      Int.mul_le_mul_of_nonneg_right (by omega) (Int.natCast_nonneg _)
    rw [Int.add_mul, Int.one_mul] at hhigh
    rw [index, Int.mul_comm d.stride] at hk
    omega

end AvrKernel.Display

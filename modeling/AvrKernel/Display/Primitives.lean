import AvrKernel.Lib.Boxes
import Mathlib.Logic.Function.Basic
import Mathlib.Data.UInt

/-!
# Figures on a frame buffer

`draw.c`: rectangles, glyphs and sprites, which every routine cuts to the clip rectangle
in its own way. Coordinates are integers, since their sums are supposed to fit in an
`int`. A frame buffer fits in the address space, so that its indices do not overflow.
-/

namespace AvrKernel.Display

open Boxes

/-- The words of a frame buffer by their indices. -/
abbrev Frame := Int → UInt32

/-- Where the routines draw: the frame buffer has `stride` words in a row. -/
structure DrawContext where
  displayBaseX : Int
  displayBaseY : Int
  clip : Box
  stride : Nat
  height : Nat
  /-- The clip rectangle lies inside of the frame buffer. -/
  inside : ∀ x y, clip.Contains x y → 0 ≤ x ∧ x < stride ∧ 0 ≤ y ∧ y < height

namespace DrawContext

variable (d : DrawContext)

/-- The index of a pixel. -/
def index (x y : Int) : Int := y * d.stride + x

/-- Change one pixel. -/
def change (x y : Int) (value : UInt32 → UInt32) (frame : Frame) : Frame :=
  Function.update frame (d.index x y) (value (frame (d.index x y)))

def put (x y : Int) (color : UInt32) : Frame → Frame := d.change x y fun _ => color

/-! ## Loops -/

/-- So many rounds from `i` on. -/
def rounds (body : Int → Frame → Frame) : Nat → Int → Frame → Frame
  | 0, _, frame => frame
  | n + 1, i, frame => rounds body n (i + 1) (body i frame)

/-- `for (i = lo; i < hi; i++)`. -/
def forRange (lo hi : Int) (body : Int → Frame → Frame) : Frame → Frame :=
  rounds body (hi - lo).toNat lo

/-! ## What is visible -/

/-- The first visible column or row of a range from `v` on. -/
def visibleStart (lo v : Int) : Int := if v < lo then lo else v

/-- The end of the visible columns or rows of a range up to `v`. -/
def visibleEnd (hi v : Int) : Int := if v > hi then hi else v

/-- The first visible column or row of a source that is drawn at `v`. -/
def sourceStart (lo v : Int) : Int := if v < lo then lo - v else 0

/-- The end of the visible columns or rows of a source of `size` columns or rows. -/
def sourceEnd (hi v size : Int) : Int := if v + size > hi then hi - v else size

/-! ## Rectangles -/

def drawRect (x y width height : Int) (color : UInt32) (frame : Frame) : Frame :=
  let x := x + d.displayBaseX
  let y := y + d.displayBaseY
  let xStart := visibleStart d.clip.left x
  let xEnd := visibleEnd d.clip.right (x + width)
  let yStart := visibleStart d.clip.top y
  let yEnd := visibleEnd d.clip.bottom (y + height)
  if xStart ≥ xEnd ∨ yStart ≥ yEnd then frame
  else
    let frame := if y ≥ d.clip.top ∧ y < d.clip.bottom then
      forRange xStart xEnd (fun cx => d.put cx y color) frame else frame
    let bottomY := y + height - 1
    let frame := if bottomY ≥ d.clip.top ∧ bottomY < d.clip.bottom then
      forRange xStart xEnd (fun cx => d.put cx bottomY color) frame else frame
    forRange yStart yEnd (fun cy frame =>
      let frame := if x ≥ d.clip.left ∧ x < d.clip.right then d.put x cy color frame else frame
      let rightX := x + width - 1
      if rightX ≥ d.clip.left ∧ rightX < d.clip.right then d.put rightX cy color frame
      else frame) frame

def drawRectFilled (x y width height : Int) (color : UInt32) (frame : Frame) : Frame :=
  let x := x + d.displayBaseX
  let y := y + d.displayBaseY
  let xStart := visibleStart d.clip.left x
  let xEnd := visibleEnd d.clip.right (x + width)
  let yStart := visibleStart d.clip.top y
  let yEnd := visibleEnd d.clip.bottom (y + height)
  if xStart ≥ xEnd ∨ yStart ≥ yEnd then frame
  else
    forRange yStart yEnd (fun currY =>
      forRange 0 (xEnd - xStart) fun i => d.put (xStart + i) currY color) frame

/-! ## Glyphs and sprites -/

def drawGlyph (glyphMap : Int → UInt8) (glyphIndex : Int) (glyphWidth glyphHeigh : UInt16)
    (x y : Int) (fgColor bgColor : UInt32) (transparentBg : Bool) (frame : Frame) : Frame :=
  let x := x + d.displayBaseX
  let y := y + d.displayBaseY
  let width : Int := glyphWidth.toNat
  let heigh : Int := glyphHeigh.toNat
  let srcXStart := sourceStart d.clip.left x
  let srcYStart := sourceStart d.clip.top y
  let srcXEnd := sourceEnd d.clip.right x width
  let srcYEnd := sourceEnd d.clip.bottom y heigh
  if srcXStart ≥ srcXEnd ∨ srcYStart ≥ srcYEnd then frame
  else
    forRange srcXStart srcXEnd (fun srcX =>
      let columnByte := glyphMap (glyphIndex * width + srcX)
      forRange srcYStart srcYEnd fun srcY frame =>
        if columnByte.toNat.testBit srcY.toNat then d.put (x + srcX) (y + srcY) fgColor frame
        else if ¬transparentBg then d.put (x + srcX) (y + srcY) bgColor frame
        else frame) frame

/-- One channel of a blended pixel. -/
def blendChannel (src dest alpha : UInt32) : UInt32 :=
  .ofInt (dest.toNat + ((src.toNat - dest.toNat : Int) * alpha.toNat).tdiv 255)

def blendPixels (src dest : UInt32) : UInt32 :=
  let alpha := (src >>> 24) &&& 0xFF
  if alpha = 0 then dest
  else if alpha = 255 then src
  else
    let outR := blendChannel ((src >>> 16) &&& 0xFF) ((dest >>> 16) &&& 0xFF) alpha
    let outG := blendChannel ((src >>> 8) &&& 0xFF) ((dest >>> 8) &&& 0xFF) alpha
    let outB := blendChannel (src &&& 0xFF) (dest &&& 0xFF) alpha
    (0xFF000000 : UInt32) ||| (outR <<< 16) ||| (outG <<< 8) ||| outB

/-- `draw_sprite` and `draw_sprite_blend`: the visible part of a sprite, pixel by pixel.
`draw color` is what becomes of a pixel where the sprite has `color`. -/
def drawSpriteWith (draw : UInt32 → Option (UInt32 → UInt32)) (spriteData : Int → UInt32)
    (spriteW spriteH x y : Int) (frame : Frame) : Frame :=
  let x := x + d.displayBaseX
  let y := y + d.displayBaseY
  let srcXStart := sourceStart d.clip.left x
  let srcYStart := sourceStart d.clip.top y
  let srcXEnd := sourceEnd d.clip.right x spriteW
  let srcYEnd := sourceEnd d.clip.bottom y spriteH
  if srcXStart ≥ srcXEnd ∨ srcYStart ≥ srcYEnd then frame
  else
    let widthToCopy := srcXEnd - srcXStart
    let screenXStart := x + srcXStart
    forRange srcYStart srcYEnd (fun srcY =>
      forRange 0 widthToCopy fun i frame =>
        match draw (spriteData (srcY * spriteW + srcXStart + i)) with
        | none => frame
        | some value => d.change (screenXStart + i) (y + srcY) value frame) frame

/-- Without a color key all pixels are copied. -/
def spriteColor (colorkey color : UInt32) : Option (UInt32 → UInt32) :=
  if colorkey = 0xFFFFFFFF then some fun _ => color
  else if color ≠ colorkey then some fun _ => color
  else none

def blendColor (colorkey color : UInt32) : Option (UInt32 → UInt32) :=
  if color = colorkey then none else some (blendPixels color)

def drawSprite (spriteData : Int → UInt32) (spriteW spriteH x y : Int) (colorkey : UInt32) :
    Frame → Frame :=
  d.drawSpriteWith (spriteColor colorkey) spriteData spriteW spriteH x y

def drawSpriteBlend (spriteData : Int → UInt32) (spriteW spriteH x y : Int) (colorkey : UInt32) :
    Frame → Frame :=
  d.drawSpriteWith (blendColor colorkey) spriteData spriteW spriteH x y

end DrawContext

end AvrKernel.Display

import AvrKernel.Lib.Blocks
import Mathlib.Tactic.Common

/-!
# The frame buffer of a window

`dwm_allocate_window` and `dwm_resize_window_buffer`. A frame buffer may have more columns
and rows than the window, so that the window can grow for a while without a new block.
An access outside of a block is a fault, and nothing comes of it. A block has fewer than
2 ^ 30 words, so that the index of a pixel in it does not overflow.
-/

namespace AvrKernel.Dwm

open Blocks

/-- What `malloc` finds: for a size either no memory or the words of a new block. -/
abbrev Memory := UInt32 → Option (Nat → UInt32)

def malloc (memory : Memory) (size : UInt32) : Option (List UInt32) :=
  (memory size).map fun fresh => (List.range (size.toNat / 4)).map fresh

/-- The size of a window and its frame buffer. -/
structure WindowBuffer where
  w : UInt16
  h : UInt16
  frameBuffer : Option (List UInt32)
  bufferW : UInt16
  bufferH : UInt16
  flags : UInt16

/-- The bytes of so many pixels, as an `uint32_t`. -/
def pixelBytes (width height : Nat) : UInt32 := .ofNat (width * height * 4)

/-- `dwm_allocate_window` for a window that is no child. -/
def allocateWindow (memory : Memory) (width height : UInt16) : Option WindowBuffer := do
  let frameBufferSz := pixelBytes width.toNat height.toNat
  let frameBuffer ← malloc memory frameBufferSz
  return ⟨width, height, some (frameBuffer.map fun _ => 0x11111111), width, height, 0⟩

/-! ## Growing -/

/-- A capacity that is enough, in steps of 256. -/
def snapped (capacity wanted : Nat) : Nat :=
  if capacity < wanted then snapped (capacity + 256) wanted else capacity
termination_by wanted - capacity
decreasing_by omega

/-- Copy the pixels of a window to a block with rows of another length. -/
def copyRows (window : WindowBuffer) (old : List UInt32) (newCapacityW : Nat) :
    List UInt32 → Option (List UInt32) :=
  forRange 0 window.h.toNat fun y =>
    copy old (y * window.bufferW.toNat) (y * newCapacityW) window.w.toNat

/-- Copy the old pixel data, if there is any. -/
def copyOld (window : WindowBuffer) (newCapacityW : Nat) (block : List UInt32) :
    Option (List UInt32) :=
  match window.frameBuffer with
  | none => some block
  | some old => copyRows window old newCapacityW block

/-- The window needs a larger block. -/
def NeedsBlock (window : WindowBuffer) (newW newH : Nat) : Prop :=
  newW > window.bufferW.toNat ∨ newH > window.bufferH.toNat

instance (window : WindowBuffer) (newW newH : Nat) : Decidable (NeedsBlock window newW newH) :=
  inferInstanceAs (Decidable (_ ∨ _))

/-- The bytes of the larger block. -/
def blockBytes (window : WindowBuffer) (newW newH : Nat) : UInt32 :=
  pixelBytes (snapped window.bufferW.toNat newW) (snapped window.bufferH.toNat newH)

/-- Expand the frame buffer if the new size needs it. -/
def expandBuffer (memory : Memory) (newW newH : Nat) (window : WindowBuffer) :
    Option WindowBuffer :=
  if NeedsBlock window newW newH then do
    let newCapacityW := snapped window.bufferW.toNat newW
    let newCapacityH := snapped window.bufferH.toNat newH
    let newBuffer := malloc memory (blockBytes window newW newH)
    -- `malloc` may return a null pointer: every access to it is a fault.
    let block ← copyOld window newCapacityW (newBuffer.getD [])
    return { window with
      frameBuffer := newBuffer.map fun _ => block
      bufferW := .ofNat newCapacityW
      bufferH := .ofNat newCapacityH }
  else some window

/-- Fill the columns from `x₀` to `x₁` of the rows from `y₀` to `y₁`. -/
def fillCells (stride x₀ x₁ y₀ y₁ : Nat) (color : UInt32) :
    List UInt32 → Option (List UInt32) :=
  forRange y₀ y₁ fun y => forRange x₀ x₁ fun x => store (y * stride + x) color

/-- Fill the new bottom rectangle. -/
def fillBelow (bgColor : UInt32) (newW newH : Nat) (window : WindowBuffer)
    (block : List UInt32) : Option (List UInt32) :=
  if newH > window.h.toNat then
    fillCells window.bufferW.toNat 0 newW window.h.toNat newH bgColor block
  else some block

/-- Fill the new right rectangle, down to the old height. -/
def fillRight (bgColor : UInt32) (newW : Nat) (window : WindowBuffer)
    (block : List UInt32) : Option (List UInt32) :=
  if newW > window.w.toNat then
    fillCells window.bufferW.toNat window.w.toNat newW 0 window.h.toNat bgColor block
  else some block

def fillExposed (bgColor : UInt32) (newW newH : Nat) (window : WindowBuffer)
    (block : List UInt32) : Option (List UInt32) :=
  (fillBelow bgColor newW newH window block).bind (fillRight bgColor newW window)

/-- `dwm_resize_window_buffer`. -/
def resizeWindowBuffer (bgColor : UInt32) (memory : Memory) (newW newH : Nat)
    (window : WindowBuffer) : Option WindowBuffer := do
  let window ← expandBuffer memory newW newH window
  let block ← fillExposed bgColor newW newH window (window.frameBuffer.getD [])
  return { window with
    frameBuffer := window.frameBuffer.map fun _ => block
    w := .ofNat newW
    h := .ofNat newH
    flags := window.flags ||| 0x06 }

/-! ## Frame buffers that hold their pixels -/

/-- The frame buffer holds `bufferW * bufferH` pixels, those of the window among them. -/
structure HoldsPixels (window : WindowBuffer) : Prop where
  buffer : window.frameBuffer.map List.length =
    some (window.bufferH.toNat * window.bufferW.toNat)
  width : window.w ≤ window.bufferW
  height : window.h ≤ window.bufferH

/-- The pixel in column `x` and row `y`. -/
def pixel (window : WindowBuffer) (x y : Nat) : Option UInt32 :=
  (window.frameBuffer.getD [])[y * window.bufferW.toNat + x]?

/-- A call that changes the size: what the window shows before and after stays, what it
shows only after is background. -/
structure Resized (bgColor : UInt32) (newW newH : Nat) (window window' : WindowBuffer) :
    Prop where
  width : window'.w.toNat = newW
  height : window'.h.toNat = newH
  kept : ∀ x y, x < min window.w.toNat newW → y < min window.h.toNat newH →
    pixel window' x y = pixel window x y
  exposed : ∀ x y, x < newW → y < newH → window.w.toNat ≤ x ∨ window.h.toNat ≤ y →
    pixel window' x y = some bgColor

/-- A call that changes nothing. -/
structure Untouched (window window' : WindowBuffer) : Prop where
  buffer : window'.frameBuffer = window.frameBuffer
  bufferW : window'.bufferW = window.bufferW
  bufferH : window'.bufferH = window.bufferH
  w : window'.w = window.w
  h : window'.h = window.h

section Snapped

variable {capacity wanted : Nat}

theorem le_snapped (capacity wanted : Nat) :
    capacity ≤ snapped capacity wanted ∧ wanted ≤ snapped capacity wanted := by
  induction capacity using snapped.induct wanted with
  | case1 capacity hlt ih =>
      rw [snapped, if_pos hlt]
      omega
  | case2 capacity hle =>
      rw [snapped, if_neg hle]
      omega

theorem snapped_le_max (capacity wanted : Nat) :
    snapped capacity wanted ≤ max capacity (wanted + 255) := by
  induction capacity using snapped.induct wanted with
  | case1 capacity hlt ih =>
      rw [snapped, if_pos hlt]
      omega
  | case2 capacity hle =>
      rw [snapped, if_neg hle]
      omega

end Snapped

/-! ## Pixels in a block -/

section Cells

variable {stride rows x y x' y' x₀ x₁ y₀ y₁ : Nat}

theorem cell_lt (hx : x < stride) (hy : y < rows) : y * stride + x < rows * stride := by
  calc y * stride + x < y * stride + stride := by omega
    _ = (y + 1) * stride := (Nat.succ_mul y stride).symm
    _ ≤ rows * stride := Nat.mul_le_mul_right stride hy

theorem cell_div (hx : x < stride) : (y * stride + x) / stride = y := by
  rw [Nat.mul_comm, Nat.mul_add_div (by omega), Nat.div_eq_of_lt hx, Nat.add_zero]

theorem cell_mod (hx : x < stride) : (y * stride + x) % stride = x := by
  rw [Nat.mul_comm, Nat.mul_add_mod, Nat.mod_eq_of_lt hx]

theorem cell_inj (hx : x < stride) (hx' : x' < stride)
    (h : y * stride + x = y' * stride + x') : x = x' ∧ y = y' := by
  have hmod := congrArg (· % stride) h
  have hdiv := congrArg (· / stride) h
  simp only [cell_mod hx, cell_mod hx'] at hmod
  simp only [cell_div hx, cell_div hx'] at hdiv
  exact ⟨hmod, hdiv⟩

theorem fillCells_fills (x₀ y₀ : Nat) (color : UInt32) (hx : x₁ ≤ stride) (hy : y₁ ≤ rows) :
    Fills (rows * stride) (fillCells stride x₀ x₁ y₀ y₁ color)
      (fun k => ∃ y, y₀ ≤ y ∧ y < y₁ ∧ ∃ x, x₀ ≤ x ∧ x < x₁ ∧ k = y * stride + x)
      fun _ => some color :=
  forRange_fills fun _ _ hy' => forRange_fills fun _ _ hx' =>
    store_fills (cell_lt (by omega) (by omega)) color

theorem filled_iff (hx : x < stride) (hx₁ : x₁ ≤ stride) :
    (∃ y', y₀ ≤ y' ∧ y' < y₁ ∧ ∃ x', x₀ ≤ x' ∧ x' < x₁ ∧ y * stride + x = y' * stride + x') ↔
      (x₀ ≤ x ∧ x < x₁) ∧ y₀ ≤ y ∧ y < y₁ := by
  constructor
  · intro ⟨y', hlow, hhigh, x', hleft, hright, hcell⟩
    obtain ⟨rfl, rfl⟩ := cell_inj hx (by omega) hcell
    exact ⟨⟨hleft, hright⟩, hlow, hhigh⟩
  · intro ⟨⟨hleft, hright⟩, hlow, hhigh⟩
    exact ⟨y, hlow, hhigh, x, hleft, hright, rfl⟩

/-- The loop that fills an area, by its pixels. -/
theorem fillCells_pixels (color : UInt32) (hx₁ : x₁ ≤ stride) (hy₁ : y₁ ≤ rows)
    {block : List UInt32} (hlength : block.length = rows * stride) :
    ∃ block', fillCells stride x₀ x₁ y₀ y₁ color block = some block' ∧
      block'.length = rows * stride ∧ ∀ x y, x < stride →
        ((x₀ ≤ x ∧ x < x₁) ∧ y₀ ≤ y ∧ y < y₁ → block'[y * stride + x]? = some color) ∧
        (¬((x₀ ≤ x ∧ x < x₁) ∧ y₀ ≤ y ∧ y < y₁) →
          block'[y * stride + x]? = block[y * stride + x]?) := by
  obtain ⟨block', hfill, hlength', hvalues⟩ := fillCells_fills x₀ y₀ color hx₁ hy₁
    block hlength
  refine ⟨block', hfill, hlength', fun x y hx => ?_⟩
  obtain ⟨hin, hout⟩ := hvalues (y * stride + x)
  exact ⟨fun hcell => hin ((filled_iff hx hx₁).mpr hcell),
    fun hcell => hout (hcell ∘ (filled_iff hx hx₁).mp)⟩

/-- The loop may be left out where its area is empty. -/
theorem fillCells_if_pixels (x₀ y₀ : Nat) (color : UInt32) (p : Prop) [Decidable p]
    (hx₁ : x₁ ≤ stride) (hy₁ : y₁ ≤ rows) (hempty : ¬p → x₁ ≤ x₀ ∨ y₁ ≤ y₀) {block : List UInt32}
    (hlength : block.length = rows * stride) :
    ∃ block', (if p then fillCells stride x₀ x₁ y₀ y₁ color block else some block) = some block' ∧
      block'.length = rows * stride ∧ ∀ x y, x < stride →
        ((x₀ ≤ x ∧ x < x₁) ∧ y₀ ≤ y ∧ y < y₁ → block'[y * stride + x]? = some color) ∧
        (¬((x₀ ≤ x ∧ x < x₁) ∧ y₀ ≤ y ∧ y < y₁) →
          block'[y * stride + x]? = block[y * stride + x]?) := by
  by_cases hp : p
  · rw [if_pos hp]
    exact fillCells_pixels color hx₁ hy₁ hlength
  · rw [if_neg hp]
    refine ⟨block, rfl, hlength, fun x y _ => ⟨fun hcell => ?_, fun _ => rfl⟩⟩
    have := hempty hp
    omega

theorem copyRows_pixels {window : WindowBuffer} {old block : List UInt32}
    (hold : old.length = window.bufferH.toNat * window.bufferW.toNat)
    (hlength : block.length = rows * stride) (hw : window.w.toNat ≤ window.bufferW.toNat)
    (hh : window.h.toNat ≤ window.bufferH.toNat) (hstride : window.w.toNat ≤ stride)
    (hrows : window.h.toNat ≤ rows) :
    ∃ block', copyRows window old stride block = some block' ∧
      block'.length = rows * stride ∧ ∀ x y, x < window.w.toNat → y < window.h.toNat →
        block'[y * stride + x]? = old[y * window.bufferW.toNat + x]? := by
  have hrow : ∀ {width height y : Nat}, window.w.toNat ≤ width → y < height →
      y * width + window.w.toNat ≤ height * width := by
    intro width height y hwidth hy
    calc y * width + window.w.toNat ≤ y * width + width := by omega
      _ = (y + 1) * width := (Nat.succ_mul y width).symm
      _ ≤ height * width := Nat.mul_le_mul_right width hy
  -- Row and column of a cell of the new block say which old pixel it gets.
  have hfills : Fills (rows * stride) (copyRows window old stride)
      (fun k => ∃ y, 0 ≤ y ∧ y < window.h.toNat ∧
        y * stride ≤ k ∧ k < y * stride + window.w.toNat)
      fun k => old[(k / stride) * window.bufferW.toNat + k % stride]? := by
    apply forRange_fills
    intro y _ hy
    have hsrc := hrow hw (show y < window.bufferH.toNat by omega)
    apply (copy_fills (by omega) (hrow hstride (by omega))).congr (fun _ => Iff.rfl)
    intro k hk
    obtain ⟨x, rfl⟩ := Nat.exists_eq_add_of_le hk.1
    rw [cell_div (by omega), cell_mod (by omega), Nat.add_sub_cancel_left]
  obtain ⟨block', hcopy, hlength', hvalues⟩ := hfills block hlength
  refine ⟨block', hcopy, hlength', fun x y hx hy => ?_⟩
  have hcell := (hvalues (y * stride + x)).1 ⟨y, Nat.zero_le y, hy, by omega, by omega⟩
  dsimp only at hcell
  rwa [cell_div (by omega), cell_mod (by omega)] at hcell

end Cells

/-! ## Calls that find what they need -/

/-- The call needs no block, or it gets one whose size fits an `uint32_t`. -/
def Served (memory : Memory) (newW newH : Nat) (window : WindowBuffer) : Prop :=
  NeedsBlock window newW newH →
    (malloc memory (blockBytes window newW newH)).isSome ∧
      snapped window.bufferW.toNat newW * snapped window.bufferH.toNat newH * 4 < 2 ^ 32

section Calls

variable {bgColor : UInt32} {memory : Memory} {newW newH : Nat} {window : WindowBuffer}

theorem malloc_length {size : UInt32} {block : List UInt32} (h : malloc memory size = some block) :
    block.length = size.toNat / 4 := by
  rw [malloc, Option.map_eq_some_iff] at h
  obtain ⟨fresh, -, rfl⟩ := h
  rw [List.length_map, List.length_range]

theorem HoldsPixels.block (h : HoldsPixels window) : ∃ block, window.frameBuffer = some block ∧
    block.length = window.bufferH.toNat * window.bufferW.toNat :=
  Option.map_eq_some_iff.mp h.buffer

/-- The window with a buffer that is large enough for the new size and shows what the old one
showed. -/
structure Expanded (newW newH : Nat) (window window' : WindowBuffer) : Prop where
  holds : HoldsPixels window'
  roomW : newW ≤ window'.bufferW.toNat
  roomH : newH ≤ window'.bufferH.toNat
  w : window'.w = window.w
  h : window'.h = window.h
  kept : ∀ x y, x < window.w.toNat → y < window.h.toNat → pixel window' x y = pixel window x y

theorem expandBuffer_served (hnewW : newW ≤ 32767) (hnewH : newH ≤ 32767) (h : HoldsPixels window)
    (hserved : Served memory newW newH window) :
    ∃ window', expandBuffer memory newW newH window = some window' ∧
      Expanded newW newH window window' := by
  have hwidth := UInt16.le_iff_toNat_le.mp h.width
  have hheight := UInt16.le_iff_toNat_le.mp h.height
  by_cases hneeds : NeedsBlock window newW newH
  · obtain ⟨hsome, hfits⟩ := hserved hneeds
    obtain ⟨fresh, hfresh⟩ := Option.isSome_iff_exists.mp hsome
    obtain ⟨old, hold, hlength⟩ := h.block
    have hboundW := snapped_le_max window.bufferW.toNat newW
    have hboundH := snapped_le_max window.bufferH.toNat newH
    have hsnapW := le_snapped window.bufferW.toNat newW
    have hsnapH := le_snapped window.bufferH.toNat newH
    have hbufferW := window.bufferW.toNat_lt
    have hbufferH := window.bufferH.toNat_lt
    have hfreshLength : fresh.length =
        snapped window.bufferH.toNat newH * snapped window.bufferW.toNat newW := by
      rw [malloc_length hfresh, blockBytes, pixelBytes, UInt32.toNat_ofNat',
        Nat.mod_eq_of_lt hfits, Nat.mul_div_cancel _ (by decide), Nat.mul_comm]
    have hcapW : (UInt16.ofNat (snapped window.bufferW.toNat newW)).toNat =
        snapped window.bufferW.toNat newW := by
      rw [UInt16.toNat_ofNat', Nat.mod_eq_of_lt (by omega)]
    have hcapH : (UInt16.ofNat (snapped window.bufferH.toNat newH)).toNat =
        snapped window.bufferH.toNat newH := by
      rw [UInt16.toNat_ofNat', Nat.mod_eq_of_lt (by omega)]
    obtain ⟨block, hcopy, hblock, hpixels⟩ := copyRows_pixels hlength hfreshLength hwidth hheight
      (by omega) (by omega)
    refine ⟨{ window with
      frameBuffer := some block
      bufferW := .ofNat (snapped window.bufferW.toNat newW)
      bufferH := .ofNat (snapped window.bufferH.toNat newH) }, ?_, ?_⟩
    · simp only [expandBuffer, if_pos hneeds, hfresh, copyOld, hold, Option.getD_some, hcopy]
      rfl
    · constructor
      · constructor
        · simp only [Option.map_some, hblock, hcapW, hcapH]
        · rw [UInt16.le_iff_toNat_le, hcapW]
          exact hwidth.trans hsnapW.1
        · rw [UInt16.le_iff_toNat_le, hcapH]
          exact hheight.trans hsnapH.1
      · rw [hcapW]
        exact hsnapW.2
      · rw [hcapH]
        exact hsnapH.2
      · rfl
      · rfl
      · intro x y hx hy
        simp only [pixel, hcapW, hold, Option.getD_some]
        exact hpixels x y hx hy
  · rw [NeedsBlock, not_or] at hneeds
    exact ⟨window, if_neg (by rw [NeedsBlock]; omega), h, by omega, by omega, rfl, rfl,
      fun _ _ _ _ => rfl⟩

/-- The new size fits the buffer: what is exposed is filled, the rest stays. -/
theorem fillExposed_pixels (bgColor : UInt32) (h : HoldsPixels window)
    (hroomW : newW ≤ window.bufferW.toNat) (hroomH : newH ≤ window.bufferH.toNat)
    {block : List UInt32} (hlength : block.length = window.bufferH.toNat * window.bufferW.toNat) :
    ∃ block', fillExposed bgColor newW newH window block = some block' ∧
      block'.length = window.bufferH.toNat * window.bufferW.toNat ∧
      ∀ x y, x < newW → y < newH →
        (window.w.toNat ≤ x ∨ window.h.toNat ≤ y →
          block'[y * window.bufferW.toNat + x]? = some bgColor) ∧
        (x < window.w.toNat → y < window.h.toNat →
          block'[y * window.bufferW.toNat + x]? = block[y * window.bufferW.toNat + x]?) := by
  have hwidth := UInt16.le_iff_toNat_le.mp h.width
  have hheight := UInt16.le_iff_toNat_le.mp h.height
  obtain ⟨below, hbelow, hlengthBelow, hpixelsBelow⟩ :=
    fillCells_if_pixels 0 window.h.toNat bgColor (newH > window.h.toNat) hroomW
      hroomH (by omega) hlength
  obtain ⟨block', hright, hlength', hpixelsRight⟩ :=
    fillCells_if_pixels window.w.toNat 0 bgColor (newW > window.w.toNat) hroomW
      hheight (by omega) hlengthBelow
  refine ⟨block', ?_, hlength', fun x y hx hy => ⟨fun hexposed => ?_, fun hx' hy' => ?_⟩⟩
  · rw [fillExposed, fillBelow, hbelow, Option.bind_some, fillRight, hright]
  · by_cases hrow : y < window.h.toNat
    · exact (hpixelsRight x y (by omega)).1 ⟨⟨by omega, hx⟩, Nat.zero_le y, hrow⟩
    · rw [(hpixelsRight x y (by omega)).2 (by omega)]
      exact (hpixelsBelow x y (by omega)).1 ⟨⟨Nat.zero_le x, hx⟩, by omega, hy⟩
  · rw [(hpixelsRight x y (by omega)).2 (by omega), (hpixelsBelow x y (by omega)).2 (by omega)]

theorem resizeWindowBuffer_served (bgColor : UInt32) (hnewW : newW ≤ 32767)
    (hnewH : newH ≤ 32767) (h : HoldsPixels window) (hserved : Served memory newW newH window) :
    ∃ window', resizeWindowBuffer bgColor memory newW newH window = some window' ∧
      HoldsPixels window' ∧ Resized bgColor newW newH window window' := by
  obtain ⟨wide, hexpand, hwide⟩ := expandBuffer_served hnewW hnewH h hserved
  obtain ⟨block, hblock, hlength⟩ := hwide.holds.block
  obtain ⟨block', hfill, hlength', hpixels⟩ :=
    fillExposed_pixels bgColor hwide.holds hwide.roomW hwide.roomH hlength
  have hw : (UInt16.ofNat newW).toNat = newW := by
    rw [UInt16.toNat_ofNat', Nat.mod_eq_of_lt (by omega)]
  have hh : (UInt16.ofNat newH).toNat = newH := by
    rw [UInt16.toNat_ofNat', Nat.mod_eq_of_lt (by omega)]
  refine ⟨{ wide with
    frameBuffer := some block', w := .ofNat newW, h := .ofNat newH
    flags := wide.flags ||| 0x06 }, ?_, ?_, ?_⟩
  · simp only [resizeWindowBuffer, Option.bind_eq_bind]
    rw [hexpand, Option.bind_some, hblock, Option.getD_some, hfill]
    rfl
  · constructor
    · simp only [Option.map_some, hlength']
    · rw [UInt16.le_iff_toNat_le, hw]
      exact hwide.roomW
    · rw [UInt16.le_iff_toNat_le, hh]
      exact hwide.roomH
  · constructor
    · exact hw
    · exact hh
    · intro x y hx hy
      have hcell := (hpixels x y (by omega) (by omega)).2
      rw [hwide.w, hwide.h] at hcell
      rw [← hwide.kept x y (by omega) (by omega), pixel, pixel, hblock]
      exact hcell (by omega) (by omega)
    · intro x y hx hy hexposed
      rw [← hwide.w, ← hwide.h] at hexposed
      exact (hpixels x y hx hy).1 hexposed

end Calls

/-! ## Sequences of calls -/

/-- A call with what `malloc` finds in it. -/
structure ResizeCall where
  memory : Memory
  newW : Nat
  newH : Nat

/-- The sizes a caller may ask for. -/
def ResizeCall.InRange (call : ResizeCall) : Prop :=
  (1 ≤ call.newW ∧ call.newW ≤ 32767) ∧ 1 ≤ call.newH ∧ call.newH ≤ 32767

/-- The call needs a block and gets none. -/
def AllocationFails (call : ResizeCall) (window : WindowBuffer) : Prop :=
  NeedsBlock window call.newW call.newH ∧
    malloc call.memory (blockBytes window call.newW call.newH) = none

/-- A call stays in the blocks and leaves a buffer that holds its pixels. A call whose
allocation fails changes nothing, every other one changes the size. -/
def CallGood (bgColor : UInt32) (call : ResizeCall) (window : WindowBuffer) : Prop :=
  ∃ window', resizeWindowBuffer bgColor call.memory call.newW call.newH window = some window' ∧
    HoldsPixels window' ∧ (AllocationFails call window → Untouched window window') ∧
    (¬AllocationFails call window → Resized bgColor call.newW call.newH window window')

/-- Something holds of every call of a sequence and the window it finds. -/
def EveryCall (bgColor : UInt32) (p : ResizeCall → WindowBuffer → Prop) :
    List ResizeCall → WindowBuffer → Prop
  | [], _ => True
  | call :: calls, window => p call window ∧ ∀ window',
      resizeWindowBuffer bgColor call.memory call.newW call.newH window = some window' →
        EveryCall bgColor p calls window'

section Sequences

variable {bgColor : UInt32} {call : ResizeCall} {window : WindowBuffer}

/-- The buffer of a window that needed a block has the length of that block. -/
theorem expandBuffer_needs {memory : Memory} {newW newH : Nat} {wide : WindowBuffer}
    (hneeds : NeedsBlock window newW newH)
    (h : expandBuffer memory newW newH window = some wide) :
    wide.frameBuffer.map List.length =
        (malloc memory (blockBytes window newW newH)).map List.length ∧
      wide.bufferW = .ofNat (snapped window.bufferW.toNat newW) ∧
      wide.bufferH = .ofNat (snapped window.bufferH.toNat newH) := by
  simp only [expandBuffer, if_pos hneeds, Option.bind_eq_bind, Option.bind_eq_some_iff,
    Option.pure_def, Option.some.injEq] at h
  obtain ⟨block, hblock, rfl⟩ := h
  refine ⟨?_, rfl, rfl⟩
  cases hmalloc : malloc memory (blockBytes window newW newH) with
  | none => rfl
  | some fresh =>
      rw [hmalloc, Option.getD_some] at hblock
      have hlength : block.length = fresh.length := by
        rw [copyOld] at hblock
        split at hblock
        · rw [Option.some.inj hblock]
        · exact forRange_keepsLength (fun y => copy_keepsLength _ _ _ _) _ _ _ _ hblock
      simp only [Option.map_some, hlength]

theorem fillCells_keepsLength (stride x₀ x₁ y₀ y₁ : Nat) (color : UInt32) :
    KeepsLength (fillCells stride x₀ x₁ y₀ y₁ color) :=
  forRange_keepsLength (fun _ => forRange_keepsLength (fun _ => store_keepsLength _ _) _ _) _ _

theorem fillExposed_keepsLength (newW newH : Nat) :
    KeepsLength (fillExposed bgColor newW newH window) := by
  intro block block' h
  rw [fillExposed, Option.bind_eq_some_iff] at h
  obtain ⟨below, hbelow, hright⟩ := h
  have hfirst : below.length = block.length := by
    rw [fillBelow] at hbelow
    split_ifs at hbelow
    · exact fillCells_keepsLength _ _ _ _ _ _ _ _ hbelow
    · rw [Option.some.injEq] at hbelow
      rw [hbelow]
  rw [fillRight] at hright
  split_ifs at hright
  · rw [fillCells_keepsLength _ _ _ _ _ _ _ _ hright, hfirst]
  · rw [Option.some.injEq] at hright
    rw [← hright, hfirst]

/-- After a call that needed a block the buffer is that block. -/
theorem resizeWindowBuffer_needs {memory : Memory} {newW newH : Nat} {window' : WindowBuffer}
    (hneeds : NeedsBlock window newW newH)
    (h : resizeWindowBuffer bgColor memory newW newH window = some window') :
    window'.frameBuffer.map List.length =
        (malloc memory (blockBytes window newW newH)).map List.length ∧
      window'.bufferW = .ofNat (snapped window.bufferW.toNat newW) ∧
      window'.bufferH = .ofNat (snapped window.bufferH.toNat newH) := by
  simp only [resizeWindowBuffer, Option.bind_eq_bind, Option.bind_eq_some_iff, Option.pure_def,
    Option.some.injEq] at h
  obtain ⟨wide, hexpand, block, hfill, rfl⟩ := h
  obtain ⟨hlength, hbufferW, hbufferH⟩ := expandBuffer_needs hneeds hexpand
  refine ⟨?_, hbufferW, hbufferH⟩
  rw [← hlength]
  cases hframe : wide.frameBuffer with
  | none => rfl
  | some old =>
      rw [hframe, Option.getD_some] at hfill
      have hkeeps := fillExposed_keepsLength _ _ _ _ hfill
      simp only [Option.map_some, hkeeps]

/-- A call that needs a block and does not get one of the right size is not good. -/
theorem served_of_callGood (hrange : call.InRange) (h : HoldsPixels window)
    (hgood : CallGood bgColor call window) : Served call.memory call.newW call.newH window := by
  intro hneeds
  obtain ⟨window', hresize, hholds, huntouched, -⟩ := hgood
  obtain ⟨hlength, hbufferW, hbufferH⟩ := resizeWindowBuffer_needs hneeds hresize
  obtain ⟨block, hblock, -⟩ := h.block
  cases hmalloc : malloc call.memory (blockBytes window call.newW call.newH) with
  | none =>
      -- The block that was lost is not in the window any more.
      have hbuffer := (huntouched ⟨hneeds, hmalloc⟩).buffer
      rw [hbuffer, hblock, hmalloc] at hlength
      cases hlength
  | some fresh =>
      refine ⟨rfl, ?_⟩
      have hboundW := snapped_le_max window.bufferW.toNat call.newW
      have hboundH := snapped_le_max window.bufferH.toNat call.newH
      have hlimitW := window.bufferW.toNat_lt
      have hlimitH := window.bufferH.toNat_lt
      have hnewW := hrange.1.2
      have hnewH := hrange.2.2
      have hholds' := hholds.buffer
      rw [hlength, hmalloc, hbufferW, hbufferH, Option.map_some, Option.some.injEq,
        malloc_length hmalloc, UInt16.toNat_ofNat', UInt16.toNat_ofNat',
        Nat.mod_eq_of_lt (by omega), Nat.mod_eq_of_lt (by omega)] at hholds'
      -- No block has 2 ^ 30 words.
      have hsize := (blockBytes window call.newW call.newH).toNat_lt
      rw [Nat.mul_comm (snapped window.bufferW.toNat call.newW), ← hholds']
      omega

/-- A call is good exactly when it finds what it needs. -/
theorem callGood_iff (hrange : call.InRange) (h : HoldsPixels window) :
    CallGood bgColor call window ↔ Served call.memory call.newW call.newH window := by
  constructor
  · exact served_of_callGood hrange h
  · intro hserved
    obtain ⟨window', hresize, hholds, hresized⟩ :=
      resizeWindowBuffer_served bgColor hrange.1.2 hrange.2.2 h hserved
    refine ⟨window', hresize, hholds, ?_, fun _ => hresized⟩
    intro hfails
    have hsome := (hserved hfails.1).1
    rw [hfails.2] at hsome
    cases hsome

/-- A sequence of calls is good exactly when every call finds what it needs. -/
theorem everyCall_good_iff {calls : List ResizeCall} (hrange : ∀ call ∈ calls, call.InRange)
    (h : HoldsPixels window) :
    EveryCall bgColor (CallGood bgColor) calls window ↔
      EveryCall bgColor (fun call => Served call.memory call.newW call.newH) calls window := by
  induction calls generalizing window with
  | nil => exact Iff.rfl
  | cons call calls ih =>
      have hcall := hrange call (List.mem_cons_self ..)
      have hrest := fun c hc => hrange c (List.mem_cons_of_mem call hc)
      rw [EveryCall, EveryCall, callGood_iff hcall h]
      apply and_congr_right
      intro hserved
      obtain ⟨window', hresize, hholds, -⟩ :=
        resizeWindowBuffer_served bgColor hcall.1.2 hcall.2.2 h hserved
      rw [hresize]
      constructor
      · intro hgood next hnext
        rw [← Option.some.inj hnext]
        exact (ih hrest hholds).mp (hgood window' rfl)
      · intro hgood next hnext
        rw [← Option.some.inj hnext]
        exact (ih hrest hholds).mpr (hgood window' rfl)

/-- A new window holds its pixels exactly when their size fits an `uint32_t`. -/
theorem allocateWindow_holds_iff {memory : Memory} {width height : UInt16}
    (h : allocateWindow memory width height = some window) :
    HoldsPixels window ↔ width.toNat * height.toNat * 4 < 2 ^ 32 := by
  rw [allocateWindow, Option.bind_eq_bind, Option.bind_eq_some_iff] at h
  obtain ⟨block, hmalloc, hwindow⟩ := h
  rw [Option.pure_def, Option.some.injEq] at hwindow
  have hlength := malloc_length hmalloc
  subst hwindow
  rw [pixelBytes, UInt32.toNat_ofNat'] at hlength
  constructor
  · intro hholds
    have hbuffer := hholds.buffer
    simp only [Option.map_some, List.length_map, Option.some.injEq, hlength] at hbuffer
    rw [Nat.mul_comm width.toNat, ← hbuffer]
    omega
  · intro hfits
    rw [Nat.mod_eq_of_lt hfits, Nat.mul_div_cancel _ (by decide), Nat.mul_comm] at hlength
    exact ⟨by simp only [Option.map_some, List.length_map, hlength], Nat.le_refl _,
      Nat.le_refl _⟩

/-- Every call of a sequence on a new window keeps the promises exactly when the pixels of
the new window fit an `uint32_t` and every call finds what it needs. -/
theorem resizeWindowBuffer_good_iff (bgColor : UInt32) {memory : Memory} {width height : UInt16}
    (hnew : allocateWindow memory width height = some window) {calls : List ResizeCall}
    (hrange : ∀ call ∈ calls, call.InRange) :
    HoldsPixels window ∧ EveryCall bgColor (CallGood bgColor) calls window ↔
      width.toNat * height.toNat * 4 < 2 ^ 32 ∧
        EveryCall bgColor (fun call => Served call.memory call.newW call.newH) calls window := by
  rw [← allocateWindow_holds_iff hnew]
  exact and_congr_right fun hholds => everyCall_good_iff hrange hholds

end Sequences

/-- Memory that finds a block of zeros for every size. -/
def Memory.plenty : Memory := fun _ => some fun _ => 0

/-- A new window of two columns and two rows. -/
def WindowBuffer.small : WindowBuffer :=
  ⟨2, 2, some [0x11111111, 0x11111111, 0x11111111, 0x11111111], 2, 2, 0⟩

/-- The window grows, and shrinks without memory for a block. -/
def smallCalls : List ResizeCall := [⟨.plenty, 3, 5⟩, ⟨fun _ => none, 2, 4⟩]

theorem resizeWindowBuffer_good_iff_small :
    allocateWindow .plenty 2 2 = some .small ∧ (∀ call ∈ smallCalls, call.InRange) ∧
      HoldsPixels .small ∧ EveryCall 0 (CallGood 0) smallCalls .small := by
  have hnew : allocateWindow .plenty 2 2 = some .small := rfl
  have hrange : ∀ call ∈ smallCalls, call.InRange := by
    intro call hcall
    simp only [smallCalls, List.mem_cons, List.not_mem_nil, or_false] at hcall
    rcases hcall with rfl | rfl
    · exact ⟨⟨by decide, by decide⟩, by decide, by decide⟩
    · exact ⟨⟨by decide, by decide⟩, by decide, by decide⟩
  have hgrow : Served .plenty 3 5 .small := by
    intro _
    refine ⟨rfl, ?_⟩
    calc snapped 2 3 * snapped 2 5 * 4 ≤ 258 * 260 * 4 :=
          Nat.mul_le_mul_right 4 (Nat.mul_le_mul (snapped_le_max 2 3) (snapped_le_max 2 5))
      _ < 2 ^ 32 := by decide
  have hserved : EveryCall 0 (fun call => Served call.memory call.newW call.newH) smallCalls
      .small := by
    refine ⟨hgrow, fun wide hwide => ⟨?_, fun _ _ => trivial⟩⟩
    obtain ⟨wide', hrun, hholds, hresized⟩ :=
      resizeWindowBuffer_served 0 (by decide) (by decide) ⟨rfl, by decide, by decide⟩ hgrow
    obtain rfl := Option.some.inj (hrun.symm.trans hwide)
    have hwidth := UInt16.le_iff_toNat_le.mp hholds.width
    have hheight := UInt16.le_iff_toNat_le.mp hholds.height
    rw [hresized.width] at hwidth
    rw [hresized.height] at hheight
    -- the second size fits what is there
    intro hneeds
    change 2 > wide'.bufferW.toNat ∨ 4 > wide'.bufferH.toNat at hneeds
    omega
  exact ⟨hnew, hrange, (resizeWindowBuffer_good_iff 0 hnew hrange).mpr ⟨by decide, hserved⟩⟩

/-- Memory has no block for a third column: the window loses its pixels. -/
theorem resizeWindowBuffer_loses_pixels :
    HoldsPixels .small ∧ ¬EveryCall 0 (CallGood 0) [⟨fun _ => none, 3, 1⟩] .small := by
  have hholds : HoldsPixels .small := ⟨rfl, by decide, by decide⟩
  refine ⟨hholds, ?_⟩
  intro hgood
  have hserved := (callGood_iff ⟨⟨by decide, by decide⟩, by decide, by decide⟩ hholds).mp hgood.1
  exact absurd (hserved (Or.inl (by decide))).1 (by decide)

end AvrKernel.Dwm

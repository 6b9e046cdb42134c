import AvrKernel.BaseFS.SectorCache

/-!
# The allocation bitmap

One bit for each block, behind the partition header. The context holds a frame
of 32 bitmap bytes in memory; a bit outside it moves the frame, writing the
changed one back first.
-/

namespace AvrKernel.BaseFS

open Bytes

def fsBitmapAddress : UInt32 := 48

/-- The mask of a block's bit in its bitmap byte. -/
def bitMask (index : UInt32) : UInt8 := 1 <<< (index &&& 7).toUInt8

/-- Where the frame has to lie for the bit at `index`. -/
def windowStart (index : UInt32) : UInt32 := (index >>> 3) / bitmapFrameSize * bitmapFrameSize

namespace FSDeviceContext

variable (ctx : FSDeviceContext)

/-- How much of the frame at `offset` belongs to the bitmap. It is more than the
frame holds if `offset` lies behind the bitmap. -/
def frameSize (offset : UInt32) : UInt32 :=
  if offset + bitmapFrameSize > ctx.geometry.bitmapSize then ctx.geometry.bitmapSize - offset
  else bitmapFrameSize

/-- The frame byte that holds a block's bit. -/
def localByte (index : UInt32) : Fin 32 :=
  ⟨((index >>> 3) - ctx.frame.offset).toNat % 32, Nat.mod_lt _ (by decide)⟩

end FSDeviceContext

namespace Device

variable (d : Device)

/-- Replace the frame. -/
def withFrame (frame : FSBitmapFrame) : Device := { d with ctx.frame := frame }

@[simp] theorem withFrame_frame (frame : FSBitmapFrame) : (d.withFrame frame).ctx.frame = frame :=
  rfl

@[simp] theorem withFrame_geometry (frame : FSBitmapFrame) :
    (d.withFrame frame).ctx.geometry = d.ctx.geometry := rfl

@[simp] theorem withFrame_image (frame : FSBitmapFrame) : (d.withFrame frame).image = d.image := rfl

/-- The part of the frame that belongs to the bitmap. -/
def frameBytes : List UInt8 :=
  (List.ofFn d.ctx.frame.bitmap).take (d.ctx.frameSize d.ctx.frame.offset).toNat

def fsBitmapFlush : Device :=
  if d.ctx.frame.dirty ∧ d.ctx.frame.offset ≠ fsInvalidFrame then
    let written := d.fsMemWrite (fsBitmapAddress + d.ctx.frame.offset) d.frameBytes
    written.withFrame { written.ctx.frame with dirty := false }
  else d

def fsBitmapSync (index : UInt32) : Device :=
  if d.ctx.frame.offset ≠ windowStart index then
    let flushed := d.fsBitmapFlush
    let bytes := flushed.fsMemRead (fsBitmapAddress + windowStart index)
      (flushed.ctx.frameSize (windowStart index)).toNat
    bytes.2.withFrame
      { dirty := false
        offset := windowStart index
        bitmap := fun i => bytes.1.getD i (flushed.ctx.frame.bitmap i) }
  else d

def fsBitmapGet (index : UInt32) : Bool × Device :=
  let synced := d.fsBitmapSync index
  (synced.ctx.frame.bitmap (synced.ctx.localByte index) &&& bitMask index != 0, synced)

/-- Replace the byte under the frame that holds the bit at `index`. -/
def putByte (index : UInt32) (byte : UInt8) : Device :=
  d.withFrame { d.ctx.frame with
    dirty := true
    bitmap := Function.update d.ctx.frame.bitmap (d.ctx.localByte index) byte }

def fsBitmapSet (index : UInt32) : Device :=
  let synced := d.fsBitmapSync index
  let byte := synced.ctx.frame.bitmap (synced.ctx.localByte index)
  if byte &&& bitMask index = 0 then
    synced.putByte index (byte ||| bitMask index)
  else synced

def fsBitmapClear (index : UInt32) : Device :=
  let synced := d.fsBitmapSync index
  let byte := synced.ctx.frame.bitmap (synced.ctx.localByte index)
  if byte &&& bitMask index ≠ 0 then
    synced.putByte index (byte &&& ~~~bitMask index)
  else synced

/-! ## The logical bits -/

/-- Bitmap byte `k`, in the frame or behind it. -/
def bitmapByte (k : Nat) : UInt8 :=
  if h : d.ctx.frame.offset.toNat ≤ k ∧ k < d.ctx.frame.offset.toNat + 32 then
    d.ctx.frame.bitmap ⟨k - d.ctx.frame.offset.toNat, by omega⟩
  else d.image (fsBitmapAddress + UInt32.ofNat k)

/-- The bit of block `i`. -/
def bit (i : Nat) : Bool := (d.bitmapByte (i / 8)).toBitVec.getLsbD (i % 8)

/-- The frame is a window of the bitmap, and agrees with it when clean. -/
structure FrameOk : Prop where
  small : d.ctx.geometry.bitmapSize.toNat < 2 ^ 30
  placed : d.ctx.frame.offset ≠ fsInvalidFrame →
    d.ctx.frame.offset.toNat % 32 = 0 ∧
      d.ctx.frame.offset.toNat ≤ d.ctx.geometry.bitmapSize.toNat
  absent : d.ctx.frame.offset = fsInvalidFrame → d.ctx.frame.dirty = false
  clean : d.ctx.frame.dirty = false → ∀ k < d.ctx.geometry.bitmapSize.toNat,
    d.bitmapByte k = d.image (fsBitmapAddress + UInt32.ofNat k)

/-- `d'` is `d` with a well-placed frame and nothing changed outside the bitmap. -/
structure BitmapStep (d d' : Device) : Prop where
  coherent : d'.Coherent
  frameOk : d'.FrameOk
  wiring : d'.wiring = d.wiring
  outside : ∀ address : UInt32,
    d.ctx.geometry.bitmapSize.toNat ≤ (address - fsBitmapAddress).toNat →
      d'.image address = d.image address

theorem BitmapStep.geometry {d d' : Device} (h : BitmapStep d d') :
    d'.ctx.geometry = d.ctx.geometry := geometry_of_wiring h.wiring

theorem BitmapStep.sound {d d' : Device} (h : BitmapStep d d') (hd : d.Sound) : d'.Sound :=
  ⟨hd.io.of_wiring h.wiring, h.coherent⟩

theorem BitmapStep.refl {d : Device} (hcoherent : d.Coherent) (hframe : d.FrameOk) :
    BitmapStep d d := ⟨hcoherent, hframe, rfl, fun _ _ => rfl⟩

theorem BitmapStep.trans {d₁ d₂ d₃ : Device} (h : BitmapStep d₁ d₂) (h' : BitmapStep d₂ d₃) :
    BitmapStep d₁ d₃ where
  coherent := h'.coherent
  frameOk := h'.frameOk
  wiring := h'.wiring.trans h.wiring
  outside address haddress :=
    (h'.outside address (by rw [h.geometry]; exact haddress)).trans (h.outside address haddress)

/-- The sectors that flushing the frame writes to can be fetched. -/
def CanFlush (d : Device) : Prop :=
  d.ctx.frame.dirty = true → d.CanWrite (fsBitmapAddress + d.ctx.frame.offset) d.frameBytes

/-- The sectors that moving the frame to the bit at `index` accesses can be fetched. -/
def CanMove (d : Device) (index : UInt32) : Prop :=
  d.ctx.frame.offset ≠ windowStart index → d.CanFlush ∧
    d.fsBitmapFlush.CanRead (fsBitmapAddress + windowStart index)
      (d.fsBitmapFlush.ctx.frameSize (windowStart index)).toNat

end Device

/-! ## Bits of a byte -/

theorem bitMask_getLsbD (index : UInt32) (j : Nat) :
    (bitMask index).toBitVec.getLsbD j = decide (index.toNat % 8 = j) := by
  have hk : ((index &&& 7).toUInt8).toNat = index.toNat % 8 := by
    simp only [UInt32.toNat_toUInt8, UInt32.toNat_and, UInt32.toNat_ofNat]
    rw [show (7 : Nat) % 2 ^ 32 = 2 ^ 3 - 1 from rfl, Nat.and_two_pow_sub_one_eq_mod]
    omega
  have hmask : (bitMask index).toBitVec = BitVec.twoPow 8 (index.toNat % 8) := by
    apply BitVec.eq_of_toNat_eq
    rw [BitVec.toNat_twoPow, UInt8.toNat_toBitVec, bitMask, UInt8.toNat_shiftLeft, hk,
      UInt8.toNat_one, Nat.shiftLeft_eq, Nat.one_mul, Nat.mod_mod]
  rw [hmask, BitVec.getLsbD_twoPow]
  have hlt := Nat.mod_lt index.toNat (show 0 < 8 by decide)
  simp [hlt]

theorem and_bitMask_eq_zero_iff (byte : UInt8) (index : UInt32) :
    byte &&& bitMask index = 0 ↔ byte.toBitVec.getLsbD (index.toNat % 8) = false := by
  rw [← UInt8.toBitVec_inj]
  constructor
  · intro h
    have hbit := congrArg (fun v => BitVec.getLsbD v (index.toNat % 8)) h
    simpa [bitMask_getLsbD] using hbit
  · intro h
    apply BitVec.eq_of_getLsbD_eq
    intro j hj
    rw [UInt8.toBitVec_and, BitVec.getLsbD_and, bitMask_getLsbD]
    by_cases heq : index.toNat % 8 = j
    · subst heq
      simp [h]
    · simp [heq]

/-! ## Moving the frame -/

theorem FSDeviceContext.frameSize_toNat {ctx : FSDeviceContext} {offset : UInt32}
    (hsmall : ctx.geometry.bitmapSize.toNat < 2 ^ 30)
    (hle : offset.toNat ≤ ctx.geometry.bitmapSize.toNat) :
    (ctx.frameSize offset).toNat = min 32 (ctx.geometry.bitmapSize.toNat - offset.toNat) := by
  have hsum : (offset + bitmapFrameSize).toNat = offset.toNat + 32 :=
    Mem.toNat_add_of_lt (y := bitmapFrameSize) (by simp [bitmapFrameSize]; omega)
  unfold frameSize
  split
  next hlt =>
    rw [gt_iff_lt, UInt32.lt_iff_toNat_lt, hsum] at hlt
    rw [Mem.toNat_sub_of_le hle]
    omega
  next hge =>
    rw [gt_iff_lt, UInt32.lt_iff_toNat_lt, hsum] at hge
    simp only [bitmapFrameSize, UInt32.reduceToNat]
    omega

theorem bitmapAddress_sub {k : Nat} {offset : UInt32} (h : k < 2 ^ 30)
    (hoffset : offset.toNat < 2 ^ 30) :
    (fsBitmapAddress + UInt32.ofNat k - (fsBitmapAddress + offset)).toNat =
      if offset.toNat ≤ k then k - offset.toNat else 2 ^ 32 + k - offset.toNat := by
  simp only [fsBitmapAddress, UInt32.toNat_sub, UInt32.toNat_add, UInt32.toNat_ofNat',
    UInt32.reduceToNat]
  split <;> omega

namespace Device

variable {d : Device}

/-- The bitmap byte behind a covered index is a frame byte. -/
theorem bitmapByte_of_covered {k : Nat} (h : d.ctx.frame.offset.toNat ≤ k)
    (h' : k < d.ctx.frame.offset.toNat + 32) :
    d.bitmapByte k = d.ctx.frame.bitmap ⟨k - d.ctx.frame.offset.toNat, by omega⟩ :=
  dif_pos ⟨h, h'⟩

theorem bitmapByte_of_not_covered {k : Nat}
    (h : ¬(d.ctx.frame.offset.toNat ≤ k ∧ k < d.ctx.frame.offset.toNat + 32)) :
    d.bitmapByte k = d.image (fsBitmapAddress + UInt32.ofNat k) :=
  dif_neg h

theorem FrameOk.frameBytes_length (h : d.FrameOk) (hplaced : d.ctx.frame.offset ≠ fsInvalidFrame) :
    d.frameBytes.length =
      min 32 (d.ctx.geometry.bitmapSize.toNat - d.ctx.frame.offset.toNat) := by
  simp [frameBytes, FSDeviceContext.frameSize_toNat h.small (h.placed hplaced).2]

theorem FrameOk.write_frameBytes (h : d.FrameOk) (hplaced : d.ctx.frame.offset ≠ fsInvalidFrame)
    {k : Nat} (hk : k < d.ctx.geometry.bitmapSize.toNat) :
    d.image.write (fsBitmapAddress + d.ctx.frame.offset) d.frameBytes
      (fsBitmapAddress + UInt32.ofNat k) = d.bitmapByte k := by
  have hsmall := h.small
  have hle := (h.placed hplaced).2
  have hlen := h.frameBytes_length hplaced
  have hsub := bitmapAddress_sub (show k < 2 ^ 30 by omega)
    (show d.ctx.frame.offset.toNat < 2 ^ 30 by omega)
  by_cases hcovered : d.ctx.frame.offset.toNat ≤ k ∧ k < d.ctx.frame.offset.toNat + 32
  · rw [if_pos hcovered.1] at hsub
    have hin : k - d.ctx.frame.offset.toNat < d.frameBytes.length := by omega
    have hbyte := Mem.write_apply_of_lt d.image (fsBitmapAddress + d.ctx.frame.offset)
      (show d.frameBytes.length ≤ 2 ^ 32 by omega)
      (x := fsBitmapAddress + UInt32.ofNat k) (by omega)
    rw [hsub, List.getElem?_eq_getElem hin] at hbyte
    rw [Option.some_inj.mp hbyte, bitmapByte_of_covered hcovered.1 hcovered.2]
    simp only [frameBytes, List.getElem_take, List.getElem_ofFn]
  · rw [bitmapByte_of_not_covered hcovered]
    apply Mem.write_apply_of_ge _ _ (by omega)
    rw [hsub]
    split <;> omega

/-- Writing the frame back leaves what is outside the bitmap. -/
theorem FrameOk.write_frameBytes_outside (h : d.FrameOk)
    (hplaced : d.ctx.frame.offset ≠ fsInvalidFrame) {address : UInt32}
    (haddress : d.ctx.geometry.bitmapSize.toNat ≤ (address - fsBitmapAddress).toNat) :
    d.image.write (fsBitmapAddress + d.ctx.frame.offset) d.frameBytes address =
      d.image address := by
  have hsmall := h.small
  have hle := (h.placed hplaced).2
  have hlen := h.frameBytes_length hplaced
  apply Mem.write_apply_of_ge _ _ (by omega)
  have hlt := address.toNat_lt
  simp only [fsBitmapAddress, UInt32.toNat_sub, UInt32.toNat_add, UInt32.reduceToNat] at haddress ⊢
  omega

theorem Coherent.withFrame (h : d.Coherent) (frame : FSBitmapFrame) :
    (d.withFrame frame).Coherent := h

/-- The bits do not depend on the frame's flag, nor on what lies behind the frame. -/
theorem bitmapByte_congr {d' : Device} {k : Nat}
    (hoffset : d'.ctx.frame.offset = d.ctx.frame.offset)
    (hbitmap : d'.ctx.frame.bitmap = d.ctx.frame.bitmap)
    (himage : d'.image (fsBitmapAddress + UInt32.ofNat k) = d.bitmapByte k) :
    d'.bitmapByte k = d.bitmapByte k := by
  by_cases hcovered : d.ctx.frame.offset.toNat ≤ k ∧ k < d.ctx.frame.offset.toNat + 32
  · rw [bitmapByte_of_covered (by rw [hoffset]; exact hcovered.1)
      (by rw [hoffset]; exact hcovered.2),
      bitmapByte_of_covered hcovered.1 hcovered.2]
    simp only [hoffset, hbitmap]
  · rw [bitmapByte_of_not_covered (by rw [hoffset]; exact hcovered), himage]

/-- What flushing has done to `d`, as seen from `d'`. -/
structure Flushed (d d' : Device) : Prop where
  step : BitmapStep d d'
  frame : d'.ctx.frame = { d.ctx.frame with dirty := false }
  stored : ∀ k < d.ctx.geometry.bitmapSize.toNat,
    d'.image (fsBitmapAddress + UInt32.ofNat k) = d.bitmapByte k
  kept : ∀ k < d.ctx.geometry.bitmapSize.toNat, d'.bitmapByte k = d.bitmapByte k

/-- A device that holds the frame in its image has flushed it. -/
theorem FrameOk.flushed (h : d.FrameOk) {written : Device} (hcoherent : written.Coherent)
    (hwiring : written.wiring = d.wiring)
    (hstored : ∀ k < d.ctx.geometry.bitmapSize.toNat,
      written.image (fsBitmapAddress + UInt32.ofNat k) = d.bitmapByte k)
    (houtside : ∀ address : UInt32,
      d.ctx.geometry.bitmapSize.toNat ≤ (address - fsBitmapAddress).toNat →
        written.image address = d.image address) :
    Flushed d (written.withFrame { d.ctx.frame with dirty := false }) := by
  have hgeometry := geometry_of_wiring hwiring
  have hkept : ∀ k < d.ctx.geometry.bitmapSize.toNat,
      (written.withFrame { d.ctx.frame with dirty := false }).bitmapByte k = d.bitmapByte k :=
    fun k hk => bitmapByte_congr rfl rfl (hstored k hk)
  refine ⟨⟨hcoherent.withFrame _, ⟨?_, ?_, fun _ => rfl, ?_⟩, hwiring, houtside⟩, rfl, hstored,
    hkept⟩
  · rw [withFrame_geometry, hgeometry]
    exact h.small
  · rw [withFrame_geometry, hgeometry]
    exact h.placed
  · intro _ k hk
    rw [withFrame_geometry, hgeometry] at hk
    rw [hkept k hk, withFrame_image, hstored k hk]

/-- Flushing puts every bitmap byte behind the frame. -/
theorem Coherent.bitmapFlush (h : d.Coherent) (hframe : d.FrameOk) (hcan : d.CanFlush) :
    Flushed d d.fsBitmapFlush := by
  by_cases hdirty : d.ctx.frame.dirty ∧ d.ctx.frame.offset ≠ fsInvalidFrame
  · obtain ⟨hcoherent, hlogical⟩ := h.memWrite (hcan hdirty.1)
    have himage : (d.fsMemWrite (fsBitmapAddress + d.ctx.frame.offset) d.frameBytes).image =
        d.image.write (fsBitmapAddress + d.ctx.frame.offset) d.frameBytes :=
      congrArg Logical.image hlogical
    have hsame : (d.fsMemWrite (fsBitmapAddress + d.ctx.frame.offset) d.frameBytes).ctx.frame =
        d.ctx.frame := congrArg Logical.frame hlogical
    simp only [fsBitmapFlush, if_pos hdirty, hsame]
    refine hframe.flushed hcoherent (wiring_of_logical hlogical) ?_ ?_
    · intro k hk
      rw [himage, hframe.write_frameBytes hdirty.2 hk]
    · intro address haddress
      rw [himage, hframe.write_frameBytes_outside hdirty.2 haddress]
  · have hfalse : d.ctx.frame.dirty = false := by
      by_contra hne
      have habsent : d.ctx.frame.offset = fsInvalidFrame := by
        by_contra hplaced
        exact hdirty ⟨by simpa using hne, hplaced⟩
      exact hne (hframe.absent habsent)
    rw [fsBitmapFlush, if_neg hdirty]
    exact ⟨.refl h hframe, by rw [← hfalse], fun k hk => (hframe.clean hfalse k hk).symm,
      fun _ _ => rfl⟩

theorem windowStart_toNat (index : UInt32) :
    (windowStart index).toNat = index.toNat / 8 / 32 * 32 := by
  have hlt := index.toNat_lt
  simp only [windowStart, bitmapFrameSize, UInt32.toNat_mul, UInt32.toNat_div,
    UInt32.toNat_shiftRight, UInt32.reduceToNat, Nat.shiftRight_eq_div_pow, Nat.reduceMod,
    Nat.reducePow]
  omega

/-- What moving the frame to the bit at `index` has done to `d`, as seen from `d'`. -/
structure Synced (d : Device) (index : UInt32) (d' : Device) : Prop where
  step : BitmapStep d d'
  offset : d'.ctx.frame.offset = windowStart index
  kept : ∀ k < d.ctx.geometry.bitmapSize.toNat, d'.bitmapByte k = d.bitmapByte k

/-- A frame loaded from the flushed bitmap at `index`. -/
theorem Flushed.synced {flushed read : Device} {index : UInt32} {bytes : List UInt8}
    (h : Flushed d flushed)
    (hstart : (windowStart index).toNat ≤ d.ctx.geometry.bitmapSize.toNat)
    (hcoherent : read.Coherent) (hlogical : read.logical = flushed.logical)
    (hbytes : bytes = flushed.image.read (fsBitmapAddress + windowStart index)
      (min 32 (d.ctx.geometry.bitmapSize.toNat - (windowStart index).toNat))) :
    Synced d index (read.withFrame
      { dirty := false
        offset := windowStart index
        bitmap := fun i => bytes.getD i (flushed.ctx.frame.bitmap i) }) := by
  set frame : FSBitmapFrame :=
    ⟨false, windowStart index, fun i => bytes.getD i (flushed.ctx.frame.bitmap i)⟩ with hframe
  have hwiring : read.wiring = d.wiring :=
    (wiring_of_logical (m := flushed.image) hlogical).trans h.step.wiring
  have hgeometry := geometry_of_wiring hwiring
  have himage := image_of_logical hlogical
  have hsmall : d.ctx.geometry.bitmapSize.toNat < 2 ^ 30 := by
    rw [← h.step.geometry]
    exact h.step.frameOk.small
  have hstored : ∀ k < d.ctx.geometry.bitmapSize.toNat,
      (read.withFrame frame).bitmapByte k =
        flushed.image (fsBitmapAddress + UInt32.ofNat k) := by
    intro k hk
    by_cases hcovered : (windowStart index).toNat ≤ k ∧ k < (windowStart index).toNat + 32
    · rw [bitmapByte_of_covered hcovered.1 hcovered.2]
      simp only [withFrame_frame, hframe, List.getD_eq_getElem?_getD, hbytes]
      rw [Mem.getElem?_read _ _ _ _ (by omega), Option.getD_some]
      congr 1
      apply UInt32.toNat_inj.mp
      simp only [fsBitmapAddress, UInt32.toNat_add, UInt32.toNat_ofNat', UInt32.reduceToNat]
      omega
    · rw [bitmapByte_of_not_covered hcovered, withFrame_image, himage]
  refine ⟨⟨hcoherent.withFrame _, ⟨?_, ?_, fun _ => rfl, ?_⟩, hwiring, ?_⟩, rfl, ?_⟩
  · rwa [withFrame_geometry, hgeometry]
  · intro _
    rw [withFrame_geometry, hgeometry, withFrame_frame, hframe]
    exact ⟨by rw [windowStart_toNat]; omega, hstart⟩
  · intro _ k hk
    rw [withFrame_geometry, hgeometry] at hk
    rw [hstored k hk, withFrame_image, himage]
  · intro address haddress
    rw [withFrame_image, himage, h.step.outside address haddress]
  · intro k hk
    rw [hstored k hk, h.stored k hk]

theorem Coherent.bitmapSync (h : d.Coherent) (hframe : d.FrameOk) {index : UInt32}
    (hcan : d.CanMove index)
    (hstart : (windowStart index).toNat ≤ d.ctx.geometry.bitmapSize.toNat) :
    Synced d index (d.fsBitmapSync index) := by
  by_cases hmove : d.ctx.frame.offset ≠ windowStart index
  · obtain ⟨hflush, hread⟩ := hcan hmove
    have hflushed := h.bitmapFlush hframe hflush
    have hgeometry := hflushed.step.geometry
    obtain ⟨hcoherent, hlogical, hbytes⟩ :=
      hflushed.step.coherent.memRead (fsBitmapAddress + windowStart index)
        (d.fsBitmapFlush.ctx.frameSize (windowStart index)).toNat
    rw [fsBitmapSync, if_pos hmove]
    refine hflushed.synced hstart hcoherent hlogical ?_
    rw [hbytes hread, FSDeviceContext.frameSize_toNat hflushed.step.frameOk.small
      (by rw [hgeometry]; exact hstart), hgeometry]
  · rw [fsBitmapSync, if_neg hmove]
    exact ⟨.refl h hframe, not_not.mp hmove, fun _ _ => rfl⟩

/-! ## Getting, setting and clearing bits -/

theorem Synced.localByte_val {d' : Device} {index : UInt32} (h : Synced d index d') :
    (d'.ctx.localByte index).val = index.toNat / 8 - d'.ctx.frame.offset.toNat := by
  have hlt := index.toNat_lt
  have hstart := windowStart_toNat index
  have hbyte : (index >>> 3).toNat = index.toNat / 8 := by
    simp [UInt32.toNat_shiftRight, Nat.shiftRight_eq_div_pow]
  simp only [FSDeviceContext.localByte, h.offset]
  rw [Mem.toNat_sub_of_le (by omega), hbyte]
  omega

/-- The byte under the frame that holds the bit at `index`. -/
theorem Synced.bitmapByte_eq {d' : Device} {index : UInt32} (h : Synced d index d')
    (hindex : index.toNat / 8 < d.ctx.geometry.bitmapSize.toNat) :
    d'.ctx.frame.bitmap (d'.ctx.localByte index) = d.bitmapByte (index.toNat / 8) := by
  have hstart := windowStart_toNat index
  rw [← h.kept _ hindex,
    bitmapByte_of_covered (by rw [h.offset]; omega) (by rw [h.offset]; omega)]
  exact congrArg d'.ctx.frame.bitmap (Fin.ext h.localByte_val)

theorem Synced.putByte {d' : Device} {index : UInt32} (h : Synced d index d') (byte : UInt8) :
    BitmapStep d (d'.putByte index byte) ∧
      ∀ k < d.ctx.geometry.bitmapSize.toNat, (d'.putByte index byte).bitmapByte k =
        if k = index.toNat / 8 then byte else d.bitmapByte k := by
  have hoffset : d'.ctx.frame.offset.toNat = (windowStart index).toNat := by rw [h.offset]
  have hwindow := windowStart_toNat index
  have hlocal := h.localByte_val
  constructor
  · have hsmall : d.ctx.geometry.bitmapSize.toNat < 2 ^ 30 := by
      rw [← h.step.geometry]
      exact h.step.frameOk.small
    refine ⟨h.step.coherent.withFrame _, ⟨h.step.frameOk.small, h.step.frameOk.placed, ?_, ?_⟩,
      h.step.wiring, h.step.outside⟩
    · intro habsent
      have hinvalid : d'.ctx.frame.offset.toNat = 2 ^ 32 - 1 := congrArg UInt32.toNat habsent
      have hlt := index.toNat_lt
      omega
    · intro hclean
      cases hclean
  · intro k hk
    rw [← h.kept k hk]
    by_cases hcovered :
      d'.ctx.frame.offset.toNat ≤ k ∧ k < d'.ctx.frame.offset.toNat + 32
    · rw [bitmapByte_of_covered hcovered.1 hcovered.2,
        bitmapByte_of_covered (d := d'.putByte index byte) hcovered.1 hcovered.2]
      simp only [Device.putByte, withFrame_frame, Function.update_apply, Fin.ext_iff, hlocal]
      by_cases heq : k = index.toNat / 8
      · rw [if_pos heq, if_pos (by rw [heq])]
      · rw [if_neg heq, if_neg (by omega)]
    · rw [bitmapByte_of_not_covered hcovered,
        bitmapByte_of_not_covered (d := d'.putByte index byte) hcovered, if_neg (by omega)]
      rfl

theorem Synced.bit_putByte {d' : Device} {index : UInt32} (h : Synced d index d') (byte : UInt8)
    {i : Nat} (hi : i < 8 * d.ctx.geometry.bitmapSize.toNat) :
    (d'.putByte index byte).bit i =
      if i / 8 = index.toNat / 8 then byte.toBitVec.getLsbD (i % 8) else d.bit i := by
  rw [bit, (h.putByte byte).2 (i / 8) (by omega)]
  split <;> rfl

/-- The window of a bit inside the bitmap starts inside it. -/
theorem windowStart_le {index : UInt32} (h : index.toNat < 8 * d.ctx.geometry.bitmapSize.toNat) :
    (windowStart index).toNat ≤ d.ctx.geometry.bitmapSize.toNat := by
  rw [windowStart_toNat]
  omega

theorem Synced.bit_eq {d' : Device} {index : UInt32} (h : Synced d index d') {i : Nat}
    (hi : i < 8 * d.ctx.geometry.bitmapSize.toNat) : d'.bit i = d.bit i :=
  congrArg (fun byte => byte.toBitVec.getLsbD (i % 8)) (h.kept (i / 8) (by omega))

/-- Testing the mask under the frame reads the bit. -/
theorem Synced.and_bitMask_eq_zero_iff {d' : Device} {index : UInt32} (h : Synced d index d')
    (hindex : index.toNat < 8 * d.ctx.geometry.bitmapSize.toNat) :
    d'.ctx.frame.bitmap (d'.ctx.localByte index) &&& bitMask index = 0 ↔
      d.bit index.toNat = false := by
  rw [h.bitmapByte_eq (by omega)]
  exact BaseFS.and_bitMask_eq_zero_iff _ index

theorem Coherent.bitmapGet (h : d.Coherent) (hframe : d.FrameOk) {index : UInt32}
    (hcan : d.CanMove index)
    (hindex : index.toNat < 8 * d.ctx.geometry.bitmapSize.toNat) :
    (d.fsBitmapGet index).1 = d.bit index.toNat ∧ BitmapStep d (d.fsBitmapGet index).2 ∧
      ∀ i < 8 * d.ctx.geometry.bitmapSize.toNat, (d.fsBitmapGet index).2.bit i = d.bit i := by
  have hsynced := h.bitmapSync hframe hcan (windowStart_le hindex)
  refine ⟨?_, hsynced.step, fun i hi => hsynced.bit_eq hi⟩
  rw [fsBitmapGet, Bool.eq_iff_iff, bne_iff_ne, ne_eq, hsynced.and_bitMask_eq_zero_iff hindex,
    Bool.not_eq_false]

theorem Coherent.bitmapSet (h : d.Coherent) (hframe : d.FrameOk) {index : UInt32}
    (hcan : d.CanMove index)
    (hstart : (windowStart index).toNat ≤ d.ctx.geometry.bitmapSize.toNat) :
    BitmapStep d (d.fsBitmapSet index) ∧ ∀ i < 8 * d.ctx.geometry.bitmapSize.toNat,
      (d.fsBitmapSet index).bit i = (d.bit i || decide (i = index.toNat)) := by
  have hsynced := h.bitmapSync hframe hcan hstart
  by_cases hzero : (d.fsBitmapSync index).ctx.frame.bitmap
      ((d.fsBitmapSync index).ctx.localByte index) &&& bitMask index = 0
  · simp only [fsBitmapSet, if_pos hzero]
    refine ⟨(hsynced.putByte _).1, fun i hi => ?_⟩
    rw [hsynced.bit_putByte _ hi]
    split
    next hbyte =>
      rw [UInt8.toBitVec_or, BitVec.getLsbD_or, bitMask_getLsbD,
        hsynced.bitmapByte_eq (by omega), ← hbyte, bit]
      congr 2
      rw [eq_iff_iff]
      omega
    next hbyte =>
      have hne : i ≠ index.toNat := fun heq => hbyte (by rw [heq])
      simp [hne]
  · simp only [fsBitmapSet, if_neg hzero]
    refine ⟨hsynced.step, fun i hi => ?_⟩
    rw [hsynced.bit_eq hi]
    by_cases heq : i = index.toNat
    · rw [heq] at hi ⊢
      rw [hsynced.and_bitMask_eq_zero_iff hi, Bool.not_eq_false] at hzero
      simp [hzero]
    · simp [heq]

theorem Coherent.bitmapClear (h : d.Coherent) (hframe : d.FrameOk) {index : UInt32}
    (hcan : d.CanMove index)
    (hstart : (windowStart index).toNat ≤ d.ctx.geometry.bitmapSize.toNat) :
    BitmapStep d (d.fsBitmapClear index) ∧ ∀ i < 8 * d.ctx.geometry.bitmapSize.toNat,
      (d.fsBitmapClear index).bit i = (d.bit i && decide (i ≠ index.toNat)) := by
  have hsynced := h.bitmapSync hframe hcan hstart
  by_cases hzero : (d.fsBitmapSync index).ctx.frame.bitmap
      ((d.fsBitmapSync index).ctx.localByte index) &&& bitMask index = 0
  · simp only [fsBitmapClear, if_neg (not_not.mpr hzero)]
    refine ⟨hsynced.step, fun i hi => ?_⟩
    rw [hsynced.bit_eq hi]
    by_cases heq : i = index.toNat
    · rw [heq] at hi ⊢
      rw [hsynced.and_bitMask_eq_zero_iff hi] at hzero
      simp [hzero]
    · simp [heq]
  · simp only [fsBitmapClear, ne_eq, hzero, not_false_eq_true, if_true]
    refine ⟨(hsynced.putByte _).1, fun i hi => ?_⟩
    rw [hsynced.bit_putByte _ hi]
    split
    next hbyte =>
      have hlt : i % 8 < 8 := Nat.mod_lt _ (by decide)
      rw [UInt8.toBitVec_and, UInt8.toBitVec_not, BitVec.getLsbD_and, BitVec.getLsbD_not,
        bitMask_getLsbD, hsynced.bitmapByte_eq (by omega), ← hbyte, bit]
      simp only [hlt, decide_true, Bool.true_and, ← decide_not]
      congr 2
      rw [eq_iff_iff]
      omega
    next hbyte =>
      have hne : i ≠ index.toNat := fun heq => hbyte (by rw [heq])
      simp [hne]

/-! ## What the bits depend on -/

theorem bit_of_logical {d' : Device} (h : d'.logical = d.logical) (i : Nat) :
    d'.bit i = d.bit i := by
  simp only [bit, bitmapByte, frame_of_logical h, image_of_logical h]

theorem FrameOk.of_logical {d' : Device} (hframe : d.FrameOk) (h : d'.logical = d.logical) :
    d'.FrameOk := by
  have hgeometry := geometry_of_logical h
  have hsame := frame_of_logical h
  have himage := image_of_logical h
  constructor
  · simpa only [hgeometry] using hframe.small
  · simpa only [hgeometry, hsame] using hframe.placed
  · simpa only [hsame] using hframe.absent
  · simpa only [hgeometry, hsame, himage, bitmapByte] using hframe.clean

/-! ## A drive whose transfers succeed -/

theorem Sound.canFlush (h : d.Sound) : d.CanFlush :=
  fun _ => h.io.canWrite h.coherent _ _

theorem Sound.bitmapFlush (h : d.Sound) (hframe : d.FrameOk) : Flushed d d.fsBitmapFlush :=
  h.coherent.bitmapFlush hframe h.canFlush

theorem Sound.canMove (h : d.Sound) (hframe : d.FrameOk) (index : UInt32) : d.CanMove index := by
  intro _
  have hstep := (h.bitmapFlush hframe).step
  exact ⟨h.canFlush, (h.io.of_wiring hstep.wiring).canRead hstep.coherent _ _⟩

theorem Sound.bitmapGet (h : d.Sound) (hframe : d.FrameOk) {index : UInt32}
    (hindex : index.toNat < 8 * d.ctx.geometry.bitmapSize.toNat) :
    (d.fsBitmapGet index).1 = d.bit index.toNat ∧ BitmapStep d (d.fsBitmapGet index).2 ∧
      ∀ i < 8 * d.ctx.geometry.bitmapSize.toNat, (d.fsBitmapGet index).2.bit i = d.bit i :=
  h.coherent.bitmapGet hframe (h.canMove hframe index) hindex

theorem Sound.bitmapSet (h : d.Sound) (hframe : d.FrameOk) {index : UInt32}
    (hstart : (windowStart index).toNat ≤ d.ctx.geometry.bitmapSize.toNat) :
    BitmapStep d (d.fsBitmapSet index) ∧ ∀ i < 8 * d.ctx.geometry.bitmapSize.toNat,
      (d.fsBitmapSet index).bit i = (d.bit i || decide (i = index.toNat)) :=
  h.coherent.bitmapSet hframe (h.canMove hframe index) hstart

theorem Sound.bitmapClear (h : d.Sound) (hframe : d.FrameOk) {index : UInt32}
    (hstart : (windowStart index).toNat ≤ d.ctx.geometry.bitmapSize.toNat) :
    BitmapStep d (d.fsBitmapClear index) ∧ ∀ i < 8 * d.ctx.geometry.bitmapSize.toNat,
      (d.fsBitmapClear index).bit i = (d.bit i && decide (i ≠ index.toNat)) :=
  h.coherent.bitmapClear hframe (h.canMove hframe index) hstart

end Device

end AvrKernel.BaseFS

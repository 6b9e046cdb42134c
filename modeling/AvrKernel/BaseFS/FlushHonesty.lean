import AvrKernel.BaseFS.Calls
import AvrKernel.BaseFS.Mount
import Mathlib.Logic.Relation

/-!
# What a flush promises

Every access to a device is made of byte accesses, bitmap accesses and flushes.
`Device.contents` is what they have put on the device so far, wherever it still
is; a flush that returns `true` should have it on the disk.
-/

namespace AvrKernel.BaseFS

open Bytes

namespace Device

variable (d : Device)

/-- Every byte as last written: in the bitmap frame, in the window or on the disk. -/
def contents : Mem := fun address =>
  if (address - fsBitmapAddress).toNat < d.ctx.geometry.bitmapSize.toNat then
    d.bitmapByte (address - fsBitmapAddress).toNat
  else d.image address

/-- The address is not one of the bitmap bytes that the frame holds. -/
def OffFrame (address : UInt32) : Prop :=
  (address - fsBitmapAddress).toNat < d.ctx.geometry.bitmapSize.toNat →
    ¬(d.ctx.frame.offset.toNat ≤ (address - fsBitmapAddress).toNat ∧
      (address - fsBitmapAddress).toNat < d.ctx.frame.offset.toNat + 32)

/-- The drive takes the dirty sector, if there is one. -/
def CanWriteBack : Prop :=
  d.ctx.sectorDirty = true → d.drive.writeOk d.drive.writes = true

end Device

/-- The accesses that basefs makes to a device context. -/
inductive AccessOp
  | readb (address : UInt32)
  | writeb (address : UInt32) (byte : UInt8)
  | bitmapGet (index : UInt32)
  | bitmapSet (index : UInt32)
  | bitmapClear (index : UInt32)
  | bitmapFlush
  | cacheSync
  | cacheFlush
  | deviceSync

namespace AccessOp

/-- The device after an access. -/
def step (d : Device) : AccessOp → Device
  | readb address => (d.fsReadb address).2
  | writeb address byte => d.fsWriteb address byte
  | bitmapGet index => (d.fsBitmapGet index).2
  | bitmapSet index => d.fsBitmapSet index
  | bitmapClear index => d.fsBitmapClear index
  | bitmapFlush => d.fsBitmapFlush
  | cacheSync => d.fsCacheSync
  | cacheFlush => d.fsCacheFlush.2
  | deviceSync => d.fsDeviceSync.2

/-- What an access writes. -/
def apply (m : Mem) : AccessOp → Mem
  | writeb address byte => Function.update m address byte
  | bitmapSet index =>
      let address := fsBitmapAddress + index >>> 3
      Function.update m address (m address ||| bitMask index)
  | bitmapClear index =>
      let address := fsBitmapAddress + index >>> 3
      Function.update m address (m address &&& ~~~bitMask index)
  | readb _ | bitmapGet _ | bitmapFlush | cacheSync | cacheFlush | deviceSync => m

/-- The transfers that an access depends on without looking at their outcome
succeed, bits belong to the bitmap, bytes are not written under the frame's
feet, and the frame is flushed before the sector cache. -/
def Heeded (d : Device) : AccessOp → Prop
  | readb _ => True
  | writeb address _ => d.CanFetch (sectorOf address) ∧ d.OffFrame address
  | bitmapGet index | bitmapSet index | bitmapClear index =>
      index.toNat < 8 * d.ctx.geometry.bitmapSize.toNat ∧ d.CanMove index
  | bitmapFlush => d.CanFlush
  | cacheSync => d.CanWriteBack
  | cacheFlush => d.CanWriteBack ∧ d.ctx.frame.dirty = false
  | deviceSync => d.CanFlush ∧ d.fsBitmapFlush.CanWriteBack

end AccessOp

namespace Device

variable {d d' : Device}

/-- What holds of a device that has lost nothing. -/
structure Intact (d : Device) : Prop where
  attached : d.Attached
  coherent : d.Coherent
  frameOk : d.FrameOk

theorem contents_of_logical (h : d'.logical = d.logical) : d'.contents = d.contents := by
  funext address
  simp only [contents, bitmapByte, geometry_of_logical h, frame_of_logical h, image_of_logical h]

theorem Intact.of_logical (h : d.Intact) (hcoherent : d'.Coherent)
    (hlogical : d'.logical = d.logical) :
    d'.Intact :=
  ⟨h.attached.of_wiring (wiring_of_logical (m := d.image) hlogical), hcoherent,
    h.frameOk.of_logical hlogical⟩

theorem Intact.of_step (h : d.Intact) (hstep : BitmapStep d d') : d'.Intact :=
  ⟨h.attached.of_wiring hstep.wiring, hstep.coherent, hstep.frameOk⟩

theorem bitmapAddress_eq (address : UInt32) :
    fsBitmapAddress + UInt32.ofNat (address - fsBitmapAddress).toNat = address := by
  rw [UInt32.ofNat_toNat, UInt32.add_comm, UInt32.sub_add_cancel]

theorem ofPartition_bitmap_lt (deviceType : FSDeviceType) (part : FSPartitionBlock) :
    (FSGeometry.ofPartition deviceType part).bitmapSize.toNat < 2 ^ 30 := by
  have hlt := (part.totalSize / part.sectorSize + 7).toNat_lt
  simp only [FSGeometry.ofPartition, UInt32.toNat_div _ 8, UInt32.reduceToNat]
  omega

/-- A context that has just been opened has lost nothing, and contains what is on the disk. -/
theorem Intact.of_open {disk : Device} {deviceType : FSDeviceType} {part : FSPartitionBlock}
    (hattached : (disk.blank deviceType).Attached)
    (hopen : disk.fsDeviceOpen deviceType = some (part, d)) :
    d.Intact ∧ d.contents = disk.drive.byte := by
  have hblank : (disk.blank deviceType).Coherent :=
    fun _ address hhit => absurd hhit (sectorOf_ne_invalid address)
  obtain ⟨read, hread, hget⟩ := getPartition_eq (disk.blank deviceType)
  obtain ⟨hcoherent, hlogical, -⟩ := hblank.memRead 16 FSPartitionBlock.layout.size
  have hclean := fsMemRead_clean (d := disk.blank deviceType) rfl 16 FSPartitionBlock.layout.size
  rw [← hread] at hcoherent hlogical hclean
  have himage : read.2.image = disk.drive.byte :=
    (image_of_logical hlogical).trans (hblank.image_eq rfl)
  have hframe : read.2.ctx.frame = ⟨false, fsInvalidFrame, fun _ => 0⟩ := frame_of_logical hlogical
  have hgeometry : read.2.ctx.geometry = (disk.blank deviceType).ctx.geometry :=
    geometry_of_logical hlogical
  have hport : read.2.drive.port = disk.drive.port := congrArg Logical.port hlogical
  -- both branches of opening leave a context without a frame on the coherent device
  suffices hkept : d.ctx.geometry.deviceType = deviceType ∧
      d.ctx.geometry.bitmapSize.toNat < 2 ^ 30 ∧ d.ctx.frame = read.2.ctx.frame ∧ d.Coherent ∧
      d.image = read.2.image ∧ d.drive = read.2.drive by
    obtain ⟨htype, hsmall, hunloaded, hcoherent', himage', hdrive⟩ := hkept
    rw [hframe] at hunloaded
    have houtside : ∀ k < d.ctx.geometry.bitmapSize.toNat,
        d.bitmapByte k = d.image (fsBitmapAddress + UInt32.ofNat k) := by
      intro k hk
      refine bitmapByte_of_not_covered ?_
      have hinvalid : fsInvalidFrame.toNat = 2 ^ 32 - 1 := rfl
      rw [hunloaded]
      dsimp only
      omega
    refine ⟨⟨?_, hcoherent', ⟨hsmall, fun hplaced => ?_, fun _ => ?_, fun _ => houtside⟩⟩, ?_⟩
    · rw [Attached, htype, hdrive, hport]
      exact hattached
    · rw [hunloaded] at hplaced
      exact absurd rfl hplaced
    · rw [hunloaded]
    · rw [← himage, ← himage']
      funext address
      rw [contents]
      split
      next hin => rw [houtside _ hin, bitmapAddress_eq]
      next => rfl
  rw [fsDeviceOpen, hget] at hopen
  by_cases hmagic : (FSPartitionBlock.layout.decode read.1).magic = fsMagic
  · simp only [hmagic, ne_eq, not_true_eq_false, if_false] at hopen
    split at hopen
    · cases hopen
    · cases hopen
      refine ⟨rfl, ofPartition_bitmap_lt deviceType _, ?_, fun _ => hcoherent hclean, rfl, rfl⟩
      rw [hframe]
  · simp only [hmagic, ne_eq, not_false_eq_true, if_true] at hopen
    cases hopen
    rw [hgeometry]
    exact ⟨rfl, Nat.two_pow_pos 30, rfl, hcoherent, rfl, rfl⟩

/-- A clean frame has all contents in the image. -/
theorem FrameOk.contents_eq (h : d.FrameOk) (hclean : d.ctx.frame.dirty = false) :
    d.contents = d.image := by
  funext address
  rw [contents]
  split
  next hin => rw [h.clean hclean _ hin, bitmapAddress_eq]
  next => rfl

theorem BitmapStep.contents_eq (h : BitmapStep d d')
    (hkept : ∀ k < d.ctx.geometry.bitmapSize.toNat, d'.bitmapByte k = d.bitmapByte k) :
    d'.contents = d.contents := by
  funext address
  rw [contents, contents, h.geometry]
  split
  next hin => exact hkept _ hin
  next hout => exact h.outside address (by omega)

theorem shiftRight_three (index : UInt32) : (index >>> 3).toNat = index.toNat / 8 := by
  simp [UInt32.toNat_shiftRight, Nat.shiftRight_eq_div_pow]

theorem bitmapAddress_shiftRight (index : UInt32) :
    (fsBitmapAddress + index >>> 3 - fsBitmapAddress).toNat = index.toNat / 8 := by
  rw [UInt32.add_comm, UInt32.add_sub_cancel, shiftRight_three]

theorem BitmapStep.contents_update (h : BitmapStep d d') {index : UInt32} {byte : UInt8}
    (hindex : index.toNat < 8 * d.ctx.geometry.bitmapSize.toNat)
    (hbytes : ∀ k < d.ctx.geometry.bitmapSize.toNat,
      d'.bitmapByte k = if k = index.toNat / 8 then byte else d.bitmapByte k) :
    d'.contents = Function.update d.contents (fsBitmapAddress + index >>> 3) byte := by
  funext address
  by_cases heq : address = fsBitmapAddress + index >>> 3
  · subst heq
    rw [Function.update_self, contents, h.geometry, bitmapAddress_shiftRight,
      if_pos (by omega), hbytes _ (by omega), if_pos rfl]
  · rw [Function.update_of_ne heq, contents, contents, h.geometry]
    split
    next hin =>
      rw [hbytes _ hin, if_neg]
      intro hk
      refine heq ?_
      rw [← bitmapAddress_eq address, hk, ← shiftRight_three, UInt32.ofNat_toNat]
    next hout => exact h.outside address (by omega)

theorem contents_bitmap {index : UInt32}
    (hindex : index.toNat < 8 * d.ctx.geometry.bitmapSize.toNat) :
    d.contents (fsBitmapAddress + index >>> 3) = d.bitmapByte (index.toNat / 8) := by
  rw [contents, bitmapAddress_shiftRight, if_pos (by omega)]

theorem contents_writeb {address : UInt32} {byte : UInt8} (hoff : d.OffFrame address)
    (hlogical : d'.logical = { d.logical with image := Function.update d.image address byte }) :
    d'.contents = Function.update d.contents address byte := by
  have hgeometry : d'.ctx.geometry = d.ctx.geometry := congrArg Logical.geometry hlogical
  have hframe : d'.ctx.frame = d.ctx.frame := congrArg Logical.frame hlogical
  have himage : d'.image = Function.update d.image address byte := congrArg Logical.image hlogical
  funext other
  by_cases heq : other = address
  · subst heq
    rw [Function.update_self, contents, hgeometry]
    split
    next hin =>
      have huncovered := hoff hin
      rw [← hframe] at huncovered
      rw [bitmapByte_of_not_covered huncovered, bitmapAddress_eq, himage, Function.update_self]
    next => rw [himage, Function.update_self]
  · rw [Function.update_of_ne heq, contents, contents, hgeometry]
    split
    next hin =>
      simp only [bitmapByte, hframe, himage, bitmapAddress_eq, Function.update_of_ne heq]
    next => rw [himage, Function.update_of_ne heq]

theorem Intact.writeb (h : d.Intact) {address : UInt32} (hcan : d.CanFetch (sectorOf address))
    (hoff : d.OffFrame address) (byte : UInt8) :
    (d.fsWriteb address byte).Intact ∧
      (d.fsWriteb address byte).contents = Function.update d.contents address byte := by
  obtain ⟨hcoherent, hlogical⟩ := h.coherent.writeb hcan byte
  have hcontents := contents_writeb hoff hlogical
  refine ⟨⟨h.attached.of_wiring (wiring_of_logical hlogical), hcoherent, ?_⟩, hcontents⟩
  have hgeometry : (d.fsWriteb address byte).ctx.geometry = d.ctx.geometry :=
    congrArg Logical.geometry hlogical
  have hframe : (d.fsWriteb address byte).ctx.frame = d.ctx.frame :=
    congrArg Logical.frame hlogical
  have himage : (d.fsWriteb address byte).image = Function.update d.image address byte :=
    congrArg Logical.image hlogical
  constructor
  · simpa only [hgeometry] using h.frameOk.small
  · simpa only [hgeometry, hframe] using h.frameOk.placed
  · simpa only [hframe] using h.frameOk.absent
  · intro hclean k hk
    rw [hgeometry] at hk
    rw [hframe] at hclean
    have hsmall := h.frameOk.small
    by_cases hcovered : d.ctx.frame.offset.toNat ≤ k ∧ k < d.ctx.frame.offset.toNat + 32
    · have hne : fsBitmapAddress + UInt32.ofNat k ≠ address := by
        rintro rfl
        have hk' : (fsBitmapAddress + UInt32.ofNat k - fsBitmapAddress).toNat = k := by
          rw [UInt32.add_comm, UInt32.add_sub_cancel, UInt32.toNat_ofNat',
            Nat.mod_eq_of_lt (by omega)]
        rw [OffFrame, hk'] at hoff
        exact hoff hk hcovered
      have hold := h.frameOk.clean hclean k hk
      rw [himage, Function.update_of_ne hne, ← hold, bitmapByte, bitmapByte]
      simp only [hframe, dif_pos hcovered]
    · rw [bitmapByte_of_not_covered (by rwa [hframe])]

theorem or_bitMask_of_ne_zero {byte : UInt8} {index : UInt32} (h : byte &&& bitMask index ≠ 0) :
    byte ||| bitMask index = byte := by
  rw [ne_eq, BaseFS.and_bitMask_eq_zero_iff, Bool.not_eq_false] at h
  rw [← UInt8.toBitVec_inj]
  apply BitVec.eq_of_getLsbD_eq
  intro j _
  rw [UInt8.toBitVec_or, BitVec.getLsbD_or, bitMask_getLsbD]
  by_cases heq : index.toNat % 8 = j
  · subst heq
    simp [h]
  · simp [heq]

theorem and_not_bitMask_of_eq_zero {byte : UInt8} {index : UInt32}
    (h : byte &&& bitMask index = 0) :
    byte &&& ~~~bitMask index = byte := by
  rw [BaseFS.and_bitMask_eq_zero_iff] at h
  rw [← UInt8.toBitVec_inj]
  apply BitVec.eq_of_getLsbD_eq
  intro j hj
  rw [UInt8.toBitVec_and, UInt8.toBitVec_not, BitVec.getLsbD_and, BitVec.getLsbD_not,
    bitMask_getLsbD]
  by_cases heq : index.toNat % 8 = j
  · subst heq
    simp [h]
  · simp [heq, hj]

theorem Intact.bitmapSync (h : d.Intact) {index : UInt32}
    (hindex : index.toNat < 8 * d.ctx.geometry.bitmapSize.toNat) (hcan : d.CanMove index) :
    Synced d index (d.fsBitmapSync index) :=
  h.coherent.bitmapSync h.frameOk hcan (windowStart_le hindex)

theorem Intact.bitmapSet (h : d.Intact) {index : UInt32}
    (hindex : index.toNat < 8 * d.ctx.geometry.bitmapSize.toNat) (hcan : d.CanMove index) :
    (d.fsBitmapSet index).Intact ∧
      (d.fsBitmapSet index).contents = AccessOp.apply d.contents (.bitmapSet index) := by
  have hsynced := h.bitmapSync hindex hcan
  have hbyte := hsynced.bitmapByte_eq (by omega)
  simp only [AccessOp.apply, contents_bitmap hindex, fsBitmapSet, hbyte]
  split
  next hzero =>
    obtain ⟨hstep, hbytes⟩ := hsynced.putByte (d.bitmapByte (index.toNat / 8) ||| bitMask index)
    exact ⟨h.of_step hstep, hstep.contents_update hindex hbytes⟩
  next hset =>
    refine ⟨h.of_step hsynced.step, hsynced.step.contents_update hindex fun k hk => ?_⟩
    rw [hsynced.kept k hk, or_bitMask_of_ne_zero hset]
    split
    next heq => rw [heq]
    next => rfl

theorem Intact.bitmapClear (h : d.Intact) {index : UInt32}
    (hindex : index.toNat < 8 * d.ctx.geometry.bitmapSize.toNat) (hcan : d.CanMove index) :
    (d.fsBitmapClear index).Intact ∧
      (d.fsBitmapClear index).contents = AccessOp.apply d.contents (.bitmapClear index) := by
  have hsynced := h.bitmapSync hindex hcan
  have hbyte := hsynced.bitmapByte_eq (by omega)
  simp only [AccessOp.apply, contents_bitmap hindex, fsBitmapClear, hbyte]
  split
  next hset =>
    obtain ⟨hstep, hbytes⟩ := hsynced.putByte (d.bitmapByte (index.toNat / 8) &&& ~~~bitMask index)
    exact ⟨h.of_step hstep, hstep.contents_update hindex hbytes⟩
  next hzero =>
    refine ⟨h.of_step hsynced.step, hsynced.step.contents_update hindex fun k hk => ?_⟩
    rw [hsynced.kept k hk, and_not_bitMask_of_eq_zero (not_not.mp hzero)]
    split
    next heq => rw [heq]
    next => rfl

theorem Intact.bitmapFlush (h : d.Intact) (hcan : d.CanFlush) :
    d.fsBitmapFlush.Intact ∧ d.fsBitmapFlush.contents = d.contents ∧
      d.fsBitmapFlush.ctx.frame.dirty = false := by
  have hflushed := h.coherent.bitmapFlush h.frameOk hcan
  exact ⟨h.of_step hflushed.step, hflushed.step.contents_eq hflushed.kept, by rw [hflushed.frame]⟩

theorem Intact.cacheSync (h : d.Intact) (hcan : d.CanWriteBack) :
    d.fsCacheSync.Intact ∧ d.fsCacheSync.contents = d.contents := by
  obtain ⟨hcoherent, hlogical, -⟩ := h.coherent.cacheSync hcan
  exact ⟨h.of_logical hcoherent hlogical, contents_of_logical hlogical⟩

/-- Flushing the sector cache after the frame puts the contents on the disk. -/
theorem Intact.cacheFlush (h : d.Intact) (hcan : d.CanWriteBack) :
    d.fsCacheFlush.2.Intact ∧ d.fsCacheFlush.2.contents = d.contents ∧
      (d.ctx.frame.dirty = false → d.fsCacheFlush.2.drive.byte = d.contents) := by
  obtain ⟨hcoherent, hlogical, hbyte⟩ := h.coherent.cacheSync hcan
  have hdisk := hbyte h.attached
  have hflush : d.fsCacheFlush.2.Coherent ∧ d.fsCacheFlush.2.logical = d.logical ∧
      d.fsCacheFlush.2.drive.byte = d.image := by
    obtain heq | heq := fsCacheFlush_cases d
    · rw [heq]
      exact ⟨hcoherent, hlogical, hdisk⟩
    · rw [heq]
      exact ⟨hcoherent, hlogical, hdisk⟩
  refine ⟨h.of_logical hflush.1 hflush.2.1, contents_of_logical hflush.2.1, fun hclean => ?_⟩
  rw [hflush.2.2, h.frameOk.contents_eq hclean]

end Device

/-- An access whose outcome matters and is good does what it is meant to. -/
theorem AccessOp.step_contents {d : Device} (h : d.Intact) {op : AccessOp} (hop : op.Heeded d) :
    (step d op).Intact ∧ (step d op).contents = apply d.contents op := by
  cases op with
  | readb address =>
      obtain ⟨hcoherent, hlogical, -⟩ := h.coherent.readb address
      exact ⟨h.of_logical hcoherent hlogical, Device.contents_of_logical hlogical⟩
  | writeb address byte => exact h.writeb hop.1 hop.2 byte
  | bitmapGet index =>
      have hsynced := h.bitmapSync hop.1 hop.2
      exact ⟨h.of_step hsynced.step, hsynced.step.contents_eq hsynced.kept⟩
  | bitmapSet index => exact h.bitmapSet hop.1 hop.2
  | bitmapClear index => exact h.bitmapClear hop.1 hop.2
  | bitmapFlush => exact ⟨(h.bitmapFlush hop).1, (h.bitmapFlush hop).2.1⟩
  | cacheSync => exact h.cacheSync hop
  | cacheFlush => exact ⟨(h.cacheFlush hop.1).1, (h.cacheFlush hop.1).2.1⟩
  | deviceSync =>
      obtain ⟨hintact, hcontents, -⟩ := h.bitmapFlush hop.1
      obtain ⟨hintact', hcontents', -⟩ := hintact.cacheFlush hop.2
      exact ⟨hintact', hcontents'.trans hcontents⟩

/-! ## Runs of accesses -/

/-- A device and what was written to it. -/
abbrev Accessed := Device × Mem

/-- One access, with the answer of a flush. -/
def AccessOp.run (s : Accessed) (op : AccessOp) : Option Bool × Accessed :=
  (match op with
    | .cacheFlush => some s.1.fsCacheFlush.1
    | .deviceSync => some s.1.fsDeviceSync.1
    | _ => none,
  (op.step s.1, op.apply s.2))

/-- What a run whose accesses are heeded has written is in the device's contents. -/
theorem AccessOp.run_contents {d d' : Device} {m : Mem} {ops : List AccessOp}
    {answers : List (Option Bool)} (h : d.Intact)
    (hheeded : Trace.Permitted (Trace.total AccessOp.run) (fun s op => op.Heeded s.1)
      (d, d.contents) ops)
    (hrun : Trace.run (Trace.total AccessOp.run) (d, d.contents) ops = some (answers, (d', m))) :
    d'.Intact ∧ d'.contents = m := by
  have hstep : ∀ (s : Accessed) (op : AccessOp) (answer : Option Bool) (s' : Accessed),
      (s.1.Intact ∧ s.1.contents = s.2) → op.Heeded s.1 →
        Trace.total AccessOp.run s op = some (answer, s') →
          s'.1.Intact ∧ s'.1.contents = s'.2 := by
    rintro ⟨d, m⟩ op answer s' ⟨hintact, hcontents⟩ hop hstep
    dsimp only at hintact hcontents
    subst hcontents
    rw [Trace.total, Option.some_inj, Prod.mk.injEq] at hstep
    rw [← hstep.2]
    exact AccessOp.step_contents hintact hop
  exact Trace.run_preserves hstep ⟨h, rfl⟩ hheeded hrun

/-- An access that answers a flush with success. -/
def AccessOp.IsFlush : AccessOp → Prop
  | cacheFlush | deviceSync => True
  | _ => False

/-- A heeded flush leaves all that was written on the disk. -/
theorem AccessOp.flush_contents {d : Device} (h : d.Intact) {op : AccessOp} (hflush : op.IsFlush)
    (hop : op.Heeded d) : (op.step d).drive.byte = d.contents := by
  cases op with
  | cacheFlush => exact (h.cacheFlush hop.1).2.2 hop.2
  | deviceSync =>
      obtain ⟨hintact, hcontents, hclean⟩ := h.bitmapFlush hop.1
      exact ((hintact.cacheFlush hop.2).2.2 hclean).trans hcontents
  | _ => exact hflush.elim

/-- A flush answers whether it succeeded. -/
theorem AccessOp.isFlush_of_answer {s : Accessed} {op : AccessOp} {answer : Bool}
    (h : (op.run s).1 = some answer) : op.IsFlush := by
  cases op with
  | cacheFlush | deviceSync => trivial
  | _ => cases h

/-! ## Basefs operations are runs of accesses -/

namespace Device

/-- `d'` is what some access makes of `d`. -/
def Access (d d' : Device) : Prop := ∃ op : AccessOp, op.step d = d'

/-- `d'` is what some sequence of accesses makes of `d`. -/
def Accesses : Device → Device → Prop := Relation.ReflTransGen Access

theorem Accesses.single {d : Device} (op : AccessOp) : Accesses d (op.step d) :=
  Relation.ReflTransGen.single (show Access d (op.step d) from ⟨op, rfl⟩)

theorem accesses_memRead (d : Device) (address : UInt32) (size : Nat) :
    Accesses d (d.fsMemRead address size).2 := by
  induction size generalizing d address with
  | zero => exact .refl
  | succ size ih => exact (Accesses.single (.readb address)).trans (ih _ _)

theorem accesses_memWrite (d : Device) (address : UInt32) (source : List UInt8) :
    Accesses d (d.fsMemWrite address source) := by
  induction source generalizing d address with
  | nil => exact .refl
  | cons byte source ih => exact (Accesses.single (.writeb address byte)).trans (ih _ _)

theorem accesses_forBlocks {change : UInt32 → Device → Device}
    (hchange : ∀ i d, Accesses d (change i d)) (count : Nat) (i : UInt32) (d : Device) :
    Accesses d (forBlocks change count i d) := by
  induction count generalizing i d with
  | zero => exact .refl
  | succ count ih => exact (hchange i d).trans (ih _ _)

theorem accesses_allocSearch (need : UInt32) (remaining : Nat) (i runStart runLength : UInt32)
    (d : Device) : Accesses d (allocSearch need remaining i runStart runLength d).2 := by
  induction remaining generalizing i runStart runLength d with
  | zero => exact .refl
  | succ remaining ih =>
      have hget : Accesses d (d.fsBitmapGet i).2 := Accesses.single (.bitmapGet i)
      simp only [allocSearch]
      split
      next =>
        split
        next => exact hget
        next => exact hget.trans (ih _ _ _ _)
      next => exact hget.trans (ih _ _ _ _)

theorem accesses_alloc (d : Device) (size : UInt32) : Accesses d (d.fsAlloc size).2 := by
  have hfound : Accesses d (d.findRun (d.ctx.geometry.blocksFor size)).2 :=
    accesses_allocSearch ..
  unfold fsAlloc
  cases hslot : (d.findRun (d.ctx.geometry.blocksFor size)).1 with
  | none => simpa only [hslot] using hfound
  | some runStart =>
      simp only [hslot]
      refine (hfound.trans ?_).trans (accesses_memWrite ..)
      exact (accesses_forBlocks (fun i _ => Accesses.single (.bitmapSet i)) ..).trans
        (Accesses.single .bitmapFlush)

theorem accesses_free (d : Device) (address : UInt32) : Accesses d (d.fsFree address) := by
  unfold fsFree
  split
  next => exact .refl
  next =>
    refine Relation.ReflTransGen.trans ?_ (Accesses.single .bitmapFlush)
    refine Relation.ReflTransGen.trans ?_ (accesses_memWrite ..)
    exact (accesses_memRead ..).trans
      (accesses_forBlocks (fun i _ => Accesses.single (.bitmapClear i)) ..)

/-- Every call of a program is a sequence of accesses. -/
theorem accesses_handle (e : FSCall) (d : Device) : Accesses d (Device.handle e d).2 := by
  cases e with
  | geometry => exact .refl
  | memRead address size => exact accesses_memRead d address size.toNat
  | memWrite address source => exact accesses_memWrite d address source
  | alloc size => exact accesses_alloc d size
  | free address => exact accesses_free d address

/-- Every run of a program on a device is a sequence of accesses. -/
theorem accesses_run {α : Type} {p : FS α} {n : Nat} {d d' : Device} {value : α}
    (hrun : p.run n Device.handle d = some (value, d')) : Accesses d d' := by
  have hcalls : p.Calls n Device.handle (fun _ _ => True) d :=
    Effect.Prog.Calls.of_forall n Device.handle (fun _ _ => trivial) p d
  exact Effect.Prog.run_preserves n Device.handle
    (fun e d₁ (hd₁ : Accesses d d₁) _ => hd₁.trans (accesses_handle e d₁)) .refl hcalls hrun

/-- A sequence of accesses is a run that keeps track of what is written. -/
theorem Accesses.exists_run {d d' : Device} (h : Accesses d d') (m : Mem) :
    ∃ (ops : List AccessOp) (answers : List (Option Bool)) (m' : Mem),
      Trace.run (Trace.total AccessOp.run) (d, m) ops = some (answers, (d', m')) := by
  induction h with
  | refl => exact ⟨[], [], m, rfl⟩
  | @tail d₁ d' _ hlast ih =>
      obtain ⟨ops, answers, m₁, hrun⟩ := ih
      obtain ⟨op, rfl⟩ := hlast
      exact ⟨ops ++ [op], answers ++ [(op.run (d₁, m₁)).1], op.apply m₁,
        Trace.run_append.mpr ⟨answers, (d₁, m₁), [(op.run (d₁, m₁)).1], hrun, rfl, rfl⟩⟩

/-! ## Flushing again -/

/-- Nothing waits to be written. -/
structure Settled (d : Device) : Prop where
  frame : d.ctx.frame.dirty = false
  sector : d.ctx.sectorDirty = false

theorem settled_of_fsDeviceSync {d : Device} (h : d.fsDeviceSync.1 = true) :
    d.fsDeviceSync.2.Settled := by
  simp only [fsDeviceSync, Bool.and_eq_true, Bool.not_eq_true'] at h
  exact ⟨h.1.2, h.2⟩

theorem Settled.fsCacheSync_eq {d : Device} (h : d.Settled) : d.fsCacheSync = d := by
  have hsector : d.syncSector = d := by
    rw [syncSector, if_neg]
    simp [h.sector]
  unfold fsCacheSync
  cases d.ctx.geometry.deviceType with
  | ata => exact hsector
  | ahci => simp only [hsector, ite_self]
  | eeprom | raw => rfl

/-- Flushing a settled device does not change the disk. -/
theorem Settled.fsDeviceSync {d : Device} (h : d.Settled) :
    d.fsDeviceSync.2.Settled ∧ d.fsDeviceSync.2.drive.byte = d.drive.byte := by
  have hflush : d.fsBitmapFlush = d := by
    rw [fsBitmapFlush, if_neg]
    simp [h.frame]
  rw [Device.fsDeviceSync, hflush]
  obtain heq | heq := fsCacheFlush_cases d
  · rw [heq, h.fsCacheSync_eq]
    exact ⟨h, rfl⟩
  · rw [heq, h.fsCacheSync_eq]
    exact ⟨⟨h.frame, h.sector⟩, rfl⟩

end Device

end AvrKernel.BaseFS

import AvrKernel.BaseFS.FlushHonesty

/-!
# The bitmap behind its window

What the bitmap calls answer and leave on the device, whatever the order in which
they move the frame, beside a plain array of bits and the bytes around it.
-/

namespace AvrKernel.BaseFS

open Bytes

/-- Accesses to the bitmap, and to what lies outside of it. -/
inductive WindowOp
  | get (index : UInt32)
  | set (index : UInt32)
  | clear (index : UInt32)
  | flush
  | memRead (address size : UInt32)
  | memWrite (address : UInt32) (source : List UInt8)

inductive WindowAnswer
  | bit (value : Bool)
  | bytes (read : List UInt8)
  | done

/-- A plain array of bits, and the bytes outside of the bitmap. -/
structure PlainBits where
  bits : Nat → Bool
  bytes : Mem

namespace WindowOp

/-- The answer of an access, and the device after it. -/
def step (d : Device) : WindowOp → WindowAnswer × Device
  | get index => (.bit (d.fsBitmapGet index).1, (d.fsBitmapGet index).2)
  | set index => (.done, d.fsBitmapSet index)
  | clear index => (.done, d.fsBitmapClear index)
  | flush => (.done, d.fsBitmapFlush)
  | memRead address size =>
      (.bytes (d.fsMemRead address size.toNat).1, (d.fsMemRead address size.toNat).2)
  | memWrite address source => (.done, d.fsMemWrite address source)

/-- The same without a window. -/
def apply (p : PlainBits) : WindowOp → WindowAnswer × PlainBits
  | get index => (.bit (p.bits index.toNat), p)
  | set index => (.done, { p with bits := Function.update p.bits index.toNat true })
  | clear index => (.done, { p with bits := Function.update p.bits index.toNat false })
  | flush => (.done, p)
  | memRead address size => (.bytes (p.bytes.read address size.toNat), p)
  | memWrite address source => (.done, { p with bytes := p.bytes.write address source })

/-- Bits belong to blocks of the device, bytes lie outside of the bitmap, and the sectors that
an access needs can be fetched. -/
def Allowed (d : Device) : WindowOp → Prop
  | get index | set index | clear index =>
      index.toNat < d.ctx.geometry.blockCount.toNat ∧ d.CanMove index
  | flush => d.CanFlush
  | memRead address size =>
      d.ctx.geometry.Apart address size.toNat ∧ d.CanRead address size.toNat
  | memWrite address source => source.length < 2 ^ 32 ∧
      d.ctx.geometry.Apart address source.length ∧ d.CanWrite address source

end WindowOp

/-- The bytes `m` hold the bits of `p` in the bitmap, and outside of it the bytes of `p`. -/
structure PlainBits.Stored (p : PlainBits) (g : FSGeometry) (m : Mem) : Prop where
  bits : ∀ i, i < g.blockCount.toNat ∨ i < 8 * g.bitmapSize.toNat →
    (m (fsBitmapAddress + UInt32.ofNat (i / 8))).toBitVec.getLsbD (i % 8) = p.bits i
  bytes : ∀ address : UInt32, g.bitmapSize.toNat ≤ (address - fsBitmapAddress).toNat →
    m address = p.bytes address

namespace Device

variable {d d' : Device} {p : PlainBits}

/-- Every sequence of accesses answers as the plain array of bits does, and flushing leaves the
array on the device, from where it goes to the disk with the sector cache. -/
def Windowed (d : Device) : Prop :=
  ∀ ops : List WindowOp, Trace.Permitted (Trace.total WindowOp.step) WindowOp.Allowed d ops →
    ∃ answers d' p, Trace.run (Trace.total WindowOp.step) d ops = some (answers, d') ∧
      Trace.run (Trace.total WindowOp.apply) ⟨d.bit, d.image⟩ ops = some (answers, p) ∧
      (d'.CanFlush → p.Stored d.ctx.geometry d'.fsBitmapFlush.image ∧
        (d'.fsBitmapFlush.CanWriteBack →
          p.Stored d.ctx.geometry d'.fsBitmapFlush.fsCacheSync.drive.byte))

/-- The device shows the bits and the bytes of `p`. -/
structure Shows (g : FSGeometry) (d : Device) (p : PlainBits) : Prop where
  intact : d.Intact
  geometry : d.ctx.geometry = g
  bits : ∀ i < 8 * g.bitmapSize.toNat, d.bit i = p.bits i
  bytes : ∀ address : UInt32, g.bitmapSize.toNat ≤ (address - fsBitmapAddress).toNat →
    d.image address = p.bytes address

variable {g : FSGeometry}

/-- A bitmap access leaves the bytes outside of the bitmap. -/
theorem Shows.of_step (h : Shows g d p) (hstep : BitmapStep d d') {bits : Nat → Bool}
    (hbits : ∀ i < 8 * g.bitmapSize.toNat, d'.bit i = bits i) :
    Shows g d' { p with bits := bits } where
  intact := h.intact.of_step hstep
  geometry := hstep.geometry.trans h.geometry
  bits := hbits
  bytes address hout := by
    rw [hstep.outside address (by rwa [h.geometry]), h.bytes address hout]

/-- Reading outside of the bitmap reads the plain bytes. -/
theorem Shows.read (h : Shows g d p) {address : UInt32} {size : Nat}
    (hapart : g.Apart address size) : d.image.read address size = p.bytes.read address size :=
  Mem.read_congr _ fun _ hi => h.bytes _ (apart_outside hapart hi)

/-- Writing outside of the bitmap changes no bit. -/
theorem Shows.memWrite (h : Shows g d p) {address : UInt32} {source : List UInt8}
    (hlen : source.length < 2 ^ 32) (hapart : g.Apart address source.length)
    (hcan : d.CanWrite address source) :
    Shows g (d.fsMemWrite address source) { p with bytes := p.bytes.write address source } := by
  obtain ⟨hcoherent, hlogical⟩ := h.intact.coherent.memWrite hcan
  have hgeometry : (d.fsMemWrite address source).ctx.geometry = d.ctx.geometry :=
    congrArg Logical.geometry hlogical
  have hframe : (d.fsMemWrite address source).ctx.frame = d.ctx.frame :=
    congrArg Logical.frame hlogical
  have himage : (d.fsMemWrite address source).image = d.image.write address source :=
    congrArg Logical.image hlogical
  have hkept : ∀ k < g.bitmapSize.toNat,
      d.image.write address source (fsBitmapAddress + UInt32.ofNat k) =
        d.image (fsBitmapAddress + UInt32.ofNat k) :=
    fun k hk => Mem.write_apply_of_ge _ _ hlen.le (hapart k hk)
  have hbyte : ∀ k < g.bitmapSize.toNat,
      (d.fsMemWrite address source).bitmapByte k = d.bitmapByte k := by
    intro k hk
    simp only [bitmapByte, hframe, himage, hkept k hk]
  have hold := h.intact.frameOk
  refine ⟨⟨h.intact.attached.of_wiring (wiring_of_logical hlogical), hcoherent, ?_⟩,
    hgeometry.trans h.geometry, fun i hi => ?_, fun a ha => ?_⟩
  · constructor
    · simpa only [hgeometry] using hold.small
    · simpa only [hgeometry, hframe] using hold.placed
    · simpa only [hframe] using hold.absent
    · intro hclean k hk
      rw [hgeometry, h.geometry] at hk
      rw [hframe] at hclean
      rw [hbyte k hk, himage, hkept k hk, hold.clean hclean k (by rwa [h.geometry])]
  · rw [← h.bits i hi, bit, bit, hbyte (i / 8) (by omega)]
  · rw [himage]
    exact Mem.write_apply_congr _ _ (h.bytes a ha)

/-- One access answers as on the plain array. -/
theorem Shows.step (h : Shows g d p) (hbits : g.blockCount.toNat ≤ 8 * g.bitmapSize.toNat)
    {op : WindowOp} (hop : op.Allowed d) :
    (op.step d).1 = (op.apply p).1 ∧ Shows g (op.step d).2 (op.apply p).2 := by
  have hgeometry := h.geometry
  cases op with
  | get index =>
      obtain ⟨hindex, hcan⟩ := hop
      rw [hgeometry] at hindex
      obtain ⟨hgot, hstep, hsame⟩ := h.intact.coherent.bitmapGet h.intact.frameOk hcan
        (by rw [hgeometry]; omega)
      simp only [hgeometry] at hsame
      refine ⟨congrArg WindowAnswer.bit (hgot.trans (h.bits _ (by omega))), ?_⟩
      exact h.of_step hstep fun i hi => (hsame i hi).trans (h.bits i hi)
  | set index =>
      obtain ⟨hindex, hcan⟩ := hop
      rw [hgeometry] at hindex
      obtain ⟨hstep, hset⟩ := h.intact.coherent.bitmapSet h.intact.frameOk hcan
        (windowStart_le (by rw [hgeometry]; omega))
      simp only [hgeometry] at hset
      refine ⟨rfl, h.of_step hstep fun i hi => ?_⟩
      rw [hset i hi, Function.update_apply, h.bits i hi]
      by_cases heq : i = index.toNat <;> simp [heq]
  | clear index =>
      obtain ⟨hindex, hcan⟩ := hop
      rw [hgeometry] at hindex
      obtain ⟨hstep, hclear⟩ := h.intact.coherent.bitmapClear h.intact.frameOk hcan
        (windowStart_le (by rw [hgeometry]; omega))
      simp only [hgeometry] at hclear
      refine ⟨rfl, h.of_step hstep fun i hi => ?_⟩
      rw [hclear i hi, Function.update_apply, h.bits i hi]
      by_cases heq : i = index.toNat <;> simp [heq]
  | flush =>
      have hflushed := h.intact.coherent.bitmapFlush h.intact.frameOk hop
      refine ⟨rfl, h.of_step hflushed.step fun i hi => ?_⟩
      rw [← h.bits i hi]
      exact hflushed.bit_eq (by rwa [hgeometry])
  | memRead address size =>
      obtain ⟨hapart, hcan⟩ := hop
      rw [hgeometry] at hapart
      obtain ⟨hcoherent, hlogical, hread⟩ := h.intact.coherent.memRead address size.toNat
      refine ⟨congrArg WindowAnswer.bytes ((hread hcan).trans (h.read hapart)),
        h.intact.of_logical hcoherent hlogical,
          (geometry_of_logical hlogical).trans hgeometry, fun i hi => ?_, fun a ha => ?_⟩
      · exact (bit_of_logical hlogical i).trans (h.bits i hi)
      · exact (congrFun (image_of_logical hlogical) a).trans (h.bytes a ha)
  | memWrite address source =>
      obtain ⟨hlen, hapart, hcan⟩ := hop
      rw [hgeometry] at hapart
      exact ⟨rfl, h.memWrite hlen hapart hcan⟩

/-- Flushing puts the array on the device. -/
theorem Shows.flush (h : Shows g d p) (hbits : g.blockCount.toNat ≤ 8 * g.bitmapSize.toNat)
    (hcan : d.CanFlush) : p.Stored g d.fsBitmapFlush.image := by
  have hflushed := h.intact.coherent.bitmapFlush h.intact.frameOk hcan
  have hgeometry := h.geometry
  constructor
  · intro i hi
    rw [hflushed.stored (i / 8) (by rw [hgeometry]; omega)]
    exact h.bits i (by omega)
  · intro address hout
    rw [hflushed.step.outside address (by rwa [hgeometry]), h.bytes address hout]

/-- A bitmap with a bit for each block is windowed. -/
theorem Intact.windowed (h : d.Intact)
    (hbits : d.ctx.geometry.blockCount.toNat ≤ 8 * d.ctx.geometry.bitmapSize.toNat) :
    d.Windowed := by
  intro ops hallowed
  have hstart : Shows d.ctx.geometry d ⟨d.bit, d.image⟩ :=
    ⟨h, rfl, fun _ _ => rfl, fun _ _ => rfl⟩
  have hstep : ∀ (s : Device) (p : PlainBits) (op : WindowOp), Shows d.ctx.geometry s p →
      op.Allowed s → ∃ s', Trace.total WindowOp.step s op = some ((op.apply p).1, s') ∧
        Shows d.ctx.geometry s' (op.apply p).2 := by
    intro s p op hshows hop
    obtain ⟨hanswer, hnext⟩ := hshows.step hbits hop
    exact ⟨(op.step s).2, by rw [Trace.total, ← hanswer], hnext⟩
  obtain ⟨answers, d', p, hrun, hplain, hshows⟩ := Trace.run_simulates hstep hstart hallowed
  refine ⟨answers, d', p, hrun, hplain, fun hcan => ⟨hshows.flush hbits hcan, fun hback => ?_⟩⟩
  have hflushed := hshows.intact.coherent.bitmapFlush hshows.intact.frameOk hcan
  have hintact := hshows.intact.of_step hflushed.step
  obtain ⟨-, -, hdisk⟩ := hintact.coherent.cacheSync hback
  rw [hdisk hintact.attached]
  exact hshows.flush hbits hcan

/-! ## A bitmap without bytes -/

theorem bit_of_unloaded (hunloaded : d.ctx.frame.offset = fsInvalidFrame) :
    d.bit 0 = (d.image fsBitmapAddress).toBitVec.getLsbD 0 := by
  have hinvalid : ¬ d.ctx.frame.offset.toNat ≤ 0 := by
    rw [hunloaded]
    decide
  rw [bit, bitmapByte_of_not_covered fun h => hinvalid h.1]
  rfl

/-- Nothing can be fetched wrongly where nothing is read. -/
theorem canMove_of_empty (hclean : d.ctx.frame.dirty = false)
    (hsize : d.ctx.geometry.bitmapSize = 0) : d.CanMove 0 := by
  intro _
  have hflush : d.fsBitmapFlush = d := by
    rw [fsBitmapFlush, if_neg]
    rintro ⟨hdirty, -⟩
    rw [hclean] at hdirty
    cases hdirty
  have hframe : (d.ctx.frameSize (windowStart 0)).toNat = 0 := by
    rw [FSDeviceContext.frameSize, hsize, if_pos (by decide)]
    rfl
  rw [hflush, hframe]
  exact ⟨fun hdirty => absurd hdirty (by rw [hclean]; exact Bool.false_ne_true), trivial⟩

theorem fsBitmapSync_offset (index : UInt32) :
    (d.fsBitmapSync index).ctx.frame.offset = windowStart index := by
  unfold fsBitmapSync
  split
  next => rfl
  next hcovered => exact not_not.mp hcovered

theorem fsBitmapSet_offset (index : UInt32) :
    (d.fsBitmapSet index).ctx.frame.offset = windowStart index := by
  rw [fsBitmapSet]
  split
  next => exact fsBitmapSync_offset index
  next => exact fsBitmapSync_offset index

theorem fsBitmapClear_offset (index : UInt32) :
    (d.fsBitmapClear index).ctx.frame.offset = windowStart index := by
  rw [fsBitmapClear]
  split
  next => exact fsBitmapSync_offset index
  next => exact fsBitmapSync_offset index

/-- The frame at the start of an empty bitmap is flushed without writing a byte. -/
theorem canFlush_of_empty (hsize : d.ctx.geometry.bitmapSize = 0)
    (hoffset : d.ctx.frame.offset = windowStart 0) : d.CanFlush := by
  intro _
  have hframe : (d.ctx.frameSize d.ctx.frame.offset).toNat = 0 := by
    rw [FSDeviceContext.frameSize, hsize, hoffset, if_pos (by decide)]
    rfl
  rw [frameBytes, hframe, List.take_zero]
  trivial

/-- An access that flips the first bit and leaves the byte behind the headers as it is. -/
theorem not_windowed_of_lost (op : WindowOp) (hop : op.Allowed d)
    (hsize : d.ctx.geometry.bitmapSize = 0) (hunloaded : d.ctx.frame.offset = fsInvalidFrame)
    (hblocks : 0 < d.ctx.geometry.blockCount.toNat) (hstep : BitmapStep d (op.step d).2)
    (hoffset : (op.step d).2.ctx.frame.offset = windowStart 0)
    (hflip : (op.apply ⟨d.bit, d.image⟩).2.bits 0 ≠ d.bit 0) : ¬ d.Windowed := by
  intro hwindowed
  obtain ⟨answers, d', p, hrun, hplain, hstored⟩ := hwindowed [op] ⟨hop, fun _ _ _ => trivial⟩
  obtain ⟨-, rfl⟩ := Prod.mk.inj (Option.some.inj hrun)
  obtain ⟨-, rfl⟩ := Prod.mk.inj (Option.some.inj hplain)
  have hempty : (op.step d).2.ctx.geometry.bitmapSize = 0 := by rw [hstep.geometry, hsize]
  have hflush := canFlush_of_empty hempty hoffset
  have hflushed := hstep.coherent.bitmapFlush hstep.frameOk hflush
  have hsame : (op.step d).2.fsBitmapFlush.image fsBitmapAddress = d.image fsBitmapAddress := by
    rw [hflushed.step.outside _ (by rw [hempty]; exact Nat.zero_le _),
      hstep.outside _ (by rw [hsize]; exact Nat.zero_le _)]
  have hbit := (hstored hflush).1.bits 0 (.inl hblocks)
  have hfirst : fsBitmapAddress + UInt32.ofNat (0 / 8) = fsBitmapAddress := rfl
  rw [hfirst, hsame] at hbit
  exact hflip (hbit.symm.trans (bit_of_unloaded hunloaded).symm)

/-- What is marked in a bitmap without bytes is lost. -/
theorem Intact.not_windowed (h : d.Intact) (hsize : d.ctx.geometry.bitmapSize = 0)
    (hunloaded : d.ctx.frame.offset = fsInvalidFrame)
    (hblocks : 0 < d.ctx.geometry.blockCount.toNat) : ¬ d.Windowed := by
  have hcan := canMove_of_empty (h.frameOk.absent hunloaded) hsize
  have hstart : (windowStart 0).toNat ≤ d.ctx.geometry.bitmapSize.toNat := Nat.zero_le _
  cases hbit : d.bit 0 with
  | false =>
      have hset := (h.coherent.bitmapSet h.frameOk hcan hstart).1
      refine not_windowed_of_lost (.set 0) ⟨hblocks, hcan⟩ hsize hunloaded hblocks hset
        (fsBitmapSet_offset 0) ?_
      rw [hbit]
      simp [WindowOp.apply]
  | true =>
      have hclear := (h.coherent.bitmapClear h.frameOk hcan hstart).1
      refine not_windowed_of_lost (.clear 0) ⟨hblocks, hcan⟩ hsize hunloaded hblocks hclear
        (fsBitmapClear_offset 0) ?_
      rw [hbit]
      exact Bool.false_ne_true

/-! ## Opened devices -/

/-- The sizes of the bitmap of an opened context, and its frame. -/
theorem open_sizes {disk : Device} {deviceType : FSDeviceType} {part : FSPartitionBlock}
    (hopen : disk.fsDeviceOpen deviceType = some (part, d)) :
    d.ctx.geometry.bitmapSize = (d.ctx.geometry.blockCount + 7) / 8 ∧
      d.ctx.frame.offset = fsInvalidFrame := by
  have hblank : (disk.blank deviceType).Coherent :=
    fun _ address hhit => absurd hhit (sectorOf_ne_invalid address)
  obtain ⟨read, hread, hget⟩ := getPartition_eq (disk.blank deviceType)
  obtain ⟨-, hlogical, -⟩ := hblank.memRead 16 FSPartitionBlock.layout.size
  rw [← hread] at hlogical
  have hframe : read.2.ctx.frame.offset = fsInvalidFrame :=
    congrArg FSBitmapFrame.offset (frame_of_logical hlogical)
  rw [fsDeviceOpen, hget] at hopen
  by_cases hmagic : (FSPartitionBlock.layout.decode read.1).magic = fsMagic
  · simp only [hmagic, ne_eq, not_true_eq_false, if_false] at hopen
    split at hopen
    · cases hopen
    · cases hopen
      exact ⟨rfl, hframe⟩
  · simp only [hmagic, ne_eq, not_false_eq_true, if_true] at hopen
    cases hopen
    have hzero : (0 : UInt32) = (0 + 7) / 8 := by decide
    rw [geometry_of_logical hlogical]
    exact ⟨hzero, hframe⟩

/-- The bitmap of an opened device is windowed exactly unless the count of its blocks overflows
when it is rounded up to bytes. -/
theorem windowed_iff {disk : Device} {deviceType : FSDeviceType} {part : FSPartitionBlock}
    (hattached : (disk.blank deviceType).Attached)
    (hopen : disk.fsDeviceOpen deviceType = some (part, d)) :
    d.Windowed ↔ d.ctx.geometry.blockCount.toNat + 7 < 2 ^ 32 := by
  obtain ⟨hsize, hunloaded⟩ := open_sizes hopen
  have hintact := (Intact.of_open hattached hopen).1
  have hlt := d.ctx.geometry.blockCount.toNat_lt
  have hbytes : d.ctx.geometry.bitmapSize.toNat =
      (d.ctx.geometry.blockCount.toNat + 7) % 2 ^ 32 / 8 := by
    rw [hsize]
    simp only [UInt32.toNat_div, UInt32.toNat_add, UInt32.reduceToNat]
  constructor
  · intro hwindowed
    by_contra hoverflow
    have hzero : d.ctx.geometry.bitmapSize = 0 := by
      rw [← UInt32.toNat_inj, hbytes, UInt32.toNat_zero]
      omega
    exact hintact.not_windowed hzero hunloaded (by omega) hwindowed
  · intro hcount
    rw [Nat.mod_eq_of_lt hcount] at hbytes
    exact hintact.windowed (by omega)

theorem exists_opened (capacity : UInt32) {sectorSize : UInt32} (hpos : 0 < sectorSize.toNat) :
    ∃ (disk d : Device) (part : FSPartitionBlock), (disk.blank .ata).Attached ∧
      disk.fsDeviceOpen .ata = some (part, d) ∧
      d.ctx.geometry = .ofPartition .ata (formatPartition capacity sectorSize) := by
  obtain ⟨formatted, d, hformat, hopen⟩ :=
    format_exists capacity zeroDevice_io zeroDevice_openable hpos
  obtain ⟨formatted', hformat', hformatted⟩ :=
    fsDeviceFormat_spec capacity zeroDevice_io zeroDevice_openable hpos
  obtain rfl : formatted = formatted' := Option.some_inj.mp (hformat.symm.trans hformat')
  obtain ⟨-, -, hfresh⟩ := format_open zeroDevice_io hformat hopen
  exact ⟨formatted, d, _, hformatted.io.attached, hopen, hfresh.geometry⟩

/-- A bitmap of 63 bytes, one short of two frames. -/
theorem windowed_small : ∃ d : Device, d.ctx.geometry.bitmapSize = 63 ∧ d.Windowed := by
  obtain ⟨disk, d, part, hattached, hopen, hgeometry⟩ :=
    exists_opened 32000 (show 0 < (64 : UInt32).toNat by decide)
  refine ⟨d, by rw [hgeometry]; rfl, (windowed_iff hattached hopen).mpr ?_⟩
  rw [hgeometry]
  decide

/-- With one-byte sectors on all of the address space nothing can be marked. -/
theorem not_windowed_overflow : ∃ (disk d : Device) (part : FSPartitionBlock),
    (disk.blank .ata).Attached ∧ disk.fsDeviceOpen .ata = some (part, d) ∧ ¬ d.Windowed := by
  obtain ⟨disk, d, part, hattached, hopen, hgeometry⟩ :=
    exists_opened 0xFFFFFFFF (show 0 < (1 : UInt32).toNat by decide)
  have hintact := (Intact.of_open hattached hopen).1
  refine ⟨disk, d, part, hattached, hopen, hintact.not_windowed ?_ (open_sizes hopen).2 ?_⟩
  · rw [hgeometry]
    rfl
  · rw [hgeometry]
    decide

end Device

end AvrKernel.BaseFS

import AvrKernel.BaseFS.Allocator

/-!
# Opening and formatting

A device opened after it was formatted has an empty bitmap but for the reserved
blocks, and outside its headers and bitmap it holds what it held before.
-/

namespace AvrKernel.BaseFS

open Bytes

namespace Device

variable {d : Device} {deviceType : FSDeviceType} {disk : Mem}

/-! ## Opening -/

theorem Sound.of_blank (h : (d.blank deviceType).SectorIo) :
    (d.blank deviceType).Sound ∧ (d.blank deviceType).image = d.drive.byte := by
  have hcoherent : (d.blank deviceType).Coherent :=
    fun _ address hhit => absurd hhit (sectorOf_ne_invalid address)
  exact ⟨⟨h, hcoherent⟩, hcoherent.image_eq rfl⟩

/-- A context as `fs_device_open` leaves it, on a disk with these bytes. -/
structure Opened (d : Device) (deviceType : FSDeviceType) (disk : Mem) : Prop where
  sound : d.Sound
  deviceType : d.ctx.geometry.deviceType = deviceType
  image : d.image = disk
  clean : d.ctx.frame.dirty = false
  unloaded : d.ctx.frame.offset = fsInvalidFrame

/-- Opening reads the partition and, if it carries the magic byte, takes its sizes. -/
theorem fsDeviceOpen_spec (h : (d.blank deviceType).SectorIo)
    {part : FSPartitionBlock} {d' : Device} (hopen : d.fsDeviceOpen deviceType = some (part, d')) :
    part = FSPartitionBlock.layout.decode (d.drive.byte.read 16 32) ∧
      d'.Opened deviceType d.drive.byte ∧
      (part.magic = fsMagic → part.sectorSize ≠ 0 ∧
        d'.ctx.geometry = .ofPartition deviceType part) := by
  obtain ⟨hsound, himage⟩ := Sound.of_blank h
  obtain ⟨hbytes, hsound', hlogical⟩ := hsound.memRead 16 FSPartitionBlock.layout.size
  have hdirty := fsMemRead_clean (d := d.blank deviceType) rfl 16 FSPartitionBlock.layout.size
  rw [himage] at hbytes
  have himage' := (image_of_logical hlogical).trans himage
  have hframe := frame_of_logical hlogical
  have hattached := hsound'.io.attached
  rw [Attached, geometry_of_logical hlogical] at hattached
  simp only [fsDeviceOpen, fsDeviceGetPartition, hbytes] at hopen
  generalize ((d.blank deviceType).fsMemRead 16 FSPartitionBlock.layout.size).2 = read at *
  rw [FSPartitionBlock.layout_size] at hopen
  by_cases hmagic :
    (FSPartitionBlock.layout.decode (d.drive.byte.read 16 32)).magic = fsMagic
  · rw [if_neg (by simp [hmagic])] at hopen
    by_cases hzero :
      (FSPartitionBlock.layout.decode (d.drive.byte.read 16 32)).sectorSize = 0
    · rw [if_pos hzero] at hopen
      cases hopen
    · rw [if_neg hzero, Option.some_inj, Prod.mk.injEq] at hopen
      obtain ⟨rfl, rfl⟩ := hopen
      refine ⟨rfl, ⟨⟨⟨hattached, hsound'.io.reads, hsound'.io.writes⟩, ?_⟩, rfl, himage', rfl, ?_⟩,
        fun _ => ⟨hzero, rfl⟩⟩
      · exact fun _ => hsound'.coherent hdirty
      · exact congrArg FSBitmapFrame.offset hframe
  · rw [if_pos (by simp [hmagic]), Option.some_inj, Prod.mk.injEq] at hopen
    obtain ⟨rfl, rfl⟩ := hopen
    exact ⟨rfl, ⟨hsound', by rw [geometry_of_logical hlogical]; rfl, himage',
      congrArg FSBitmapFrame.dirty hframe,
      congrArg FSBitmapFrame.offset hframe⟩, fun h => absurd h hmagic⟩

/-- Opening divides by zero only on a partition with the magic byte and no sector size. -/
theorem fsDeviceOpen_exists (h : (d.blank deviceType).SectorIo)
    (hdisk : (FSPartitionBlock.layout.decode (d.drive.byte.read 16 32)).magic = fsMagic →
      (FSPartitionBlock.layout.decode (d.drive.byte.read 16 32)).sectorSize ≠ 0) :
    ∃ part d', d.fsDeviceOpen deviceType = some (part, d') := by
  obtain ⟨hsound, himage⟩ := Sound.of_blank h
  have hbytes := (hsound.memRead 16 FSPartitionBlock.layout.size).1
  rw [himage] at hbytes
  simp only [fsDeviceOpen, fsDeviceGetPartition, hbytes]
  rw [FSPartitionBlock.layout_size]
  by_cases hmagic :
    (FSPartitionBlock.layout.decode (d.drive.byte.read 16 32)).magic = fsMagic
  · rw [if_neg (by simp [hmagic]), if_neg (hdisk hmagic)]
    exact ⟨_, _, rfl⟩
  · rw [if_pos (by simp [hmagic])]
    exact ⟨_, _, rfl⟩

theorem Sound.blank_io (h : d.Sound) : (d.blank d.ctx.geometry.deviceType).SectorIo :=
  ⟨h.io.attached, h.io.reads, h.io.writes⟩

theorem Opened.bitmapByte_eq (h : d.Opened deviceType disk) {k : Nat} (hk : k < 2 ^ 30) :
    d.bitmapByte k = disk (fsBitmapAddress + UInt32.ofNat k) := by
  have hinvalid : d.ctx.frame.offset.toNat = 2 ^ 32 - 1 := by
    rw [h.unloaded]
    rfl
  rw [bitmapByte_of_not_covered (by omega), h.image]

theorem Opened.frameOk (h : d.Opened deviceType disk)
    (hsmall : d.ctx.geometry.bitmapSize.toNat < 2 ^ 30) : d.FrameOk where
  small := hsmall
  placed hplaced := absurd h.unloaded hplaced
  absent _ := h.clean
  clean _ k hk := by rw [h.bitmapByte_eq (hk.trans hsmall), h.image]

/-- The disk after the headers and a bitmap of `bitmapSize` zero bytes are written. -/
def headed (disk : Mem) (part : FSPartitionBlock) (bitmapSize : UInt32) : Mem :=
  ((disk.write 0 (FSDeviceHeader.layout.encode formatDeviceHeader)).write 16
    (FSPartitionBlock.layout.encode part)).write 48 (List.replicate bitmapSize.toNat 0)

theorem headed_partition (disk : Mem) (part : FSPartitionBlock) {bitmapSize : UInt32}
    (hsmall : bitmapSize.toNat < 2 ^ 30) :
    (headed disk part bitmapSize).read 16 32 = FSPartitionBlock.layout.encode part := by
  have hlen := FSPartitionBlock.layout.encode_length part
  rw [FSPartitionBlock.layout_size] at hlen
  rw [headed, Mem.read_write_disjoint _ _ (by simp; omega)]
  · conv_lhs => rw [← hlen]
    exact Mem.read_write_self _ _ (by omega)
  · intro i hi
    rw [List.length_replicate]
    exact Mem.toNat_sub_ge_of_disjoint _ hi (by simp; omega) (by simp) (.inr (by simp))

theorem headed_bitmap (disk : Mem) (part : FSPartitionBlock) {bitmapSize : UInt32}
    (hsmall : bitmapSize.toNat < 2 ^ 30) {k : Nat} (hk : k < bitmapSize.toNat) :
    headed disk part bitmapSize (fsBitmapAddress + UInt32.ofNat k) = 0 := by
  have hsub : (fsBitmapAddress + UInt32.ofNat k - 48).toNat = k := by
    rw [fsBitmapAddress, UInt32.add_comm, UInt32.add_sub_cancel, UInt32.toNat_ofNat',
      Nat.mod_eq_of_lt (by omega)]
  have hbyte := Mem.write_apply_of_lt ((disk.write 0
    (FSDeviceHeader.layout.encode formatDeviceHeader)).write 16
      (FSPartitionBlock.layout.encode part)) 48
      (show (List.replicate bitmapSize.toNat (0 : UInt8)).length ≤ 2 ^ 32 by simp; omega)
      (x := fsBitmapAddress + UInt32.ofNat k) (by rw [hsub]; simpa using hk)
  rw [hsub, List.getElem?_replicate_of_lt hk] at hbyte
  exact Option.some_inj.mp hbyte

/-- A device formatted and opened: nothing but the reserved blocks is marked in
its bitmap, and the rest of the disk is what it was under the headers. -/
structure Fresh (d : Device) (deviceType : FSDeviceType) (part : FSPartitionBlock) (disk : Mem) :
    Prop where
  sound : d.Sound
  frameOk : d.FrameOk
  geometry : d.ctx.geometry = .ofPartition deviceType part
  small : d.ctx.geometry.Small
  unloaded : d.ctx.frame.offset = fsInvalidFrame
  partition : d.image.read 16 32 = FSPartitionBlock.layout.encode part
  outside : ∀ address : UInt32,
    d.ctx.geometry.bitmapSize.toNat ≤ (address - fsBitmapAddress).toNat →
      d.image address = headed disk part d.ctx.geometry.bitmapSize address
  bits : ∀ j < 8 * d.ctx.geometry.bitmapSize.toNat,
    d.bit j = decide (j < d.ctx.geometry.reservedBlocks.toNat)

theorem open_partition {part part' : FSPartitionBlock} {d' : Device}
    (h : (d.blank deviceType).SectorIo) (hmagic : part.magic = fsMagic)
    (hdisk : d.drive.byte.read 16 32 = FSPartitionBlock.layout.encode part)
    (hopen : d.fsDeviceOpen deviceType = some (part', d')) :
    part' = part ∧ d'.Opened deviceType d.drive.byte ∧ part.sectorSize ≠ 0 ∧
      d'.ctx.geometry = .ofPartition deviceType part := by
  obtain ⟨hpart, hopened, hsizes⟩ := fsDeviceOpen_spec h hopen
  rw [hdisk, Layout.decode_encode_self] at hpart
  subst hpart
  exact ⟨rfl, hopened, hsizes hmagic⟩

/-- Marking the reserved blocks of a device whose bitmap is all zero, and
writing everything out. -/
theorem Opened.reserve (h : d.Opened deviceType disk) (hsmall : d.ctx.geometry.Small)
    (hzero : ∀ k < d.ctx.geometry.bitmapSize.toNat,
      disk (fsBitmapAddress + UInt32.ofNat k) = 0) {d' : Device}
    (hd' : d' = (Device.setBits d.ctx.geometry.reservedBlocks.toNat 0
      d).fsBitmapFlush.fsCacheSync) :
    d'.Sound ∧ d'.ctx.geometry = d.ctx.geometry ∧
      (∀ address : UInt32, d.ctx.geometry.bitmapSize.toNat ≤ (address - fsBitmapAddress).toNat →
        d'.drive.byte address = disk address) ∧
      ∀ j < 8 * d.ctx.geometry.bitmapSize.toNat,
        (d'.drive.byte (fsBitmapAddress + UInt32.ofNat (j / 8))).toBitVec.getLsbD (j % 8) =
          decide (j < d.ctx.geometry.reservedBlocks.toNat) := by
  have hbitmap := hsmall.bitmap
  have hwindow := hsmall.reserved
  obtain ⟨hset, hbits⟩ := h.sound.setBits (h.frameOk hsmall.bitmap)
    d.ctx.geometry.reservedBlocks.toNat (i := 0) (by simp; omega)
    (by intro j hj; simp; omega)
  have hflushed := (hset.sound h.sound).bitmapFlush hset.frameOk
  obtain ⟨hsound, hlogical, hdisk⟩ := (hflushed.step.sound (hset.sound h.sound)).cacheSync
  rw [← hd'] at hsound hlogical hdisk
  refine ⟨hsound, ?_, ?_, ?_⟩
  · rw [geometry_of_logical hlogical, hflushed.step.geometry, hset.geometry]
  · intro address hapart
    rw [hdisk, hflushed.step.outside _ (by rwa [hset.geometry]), hset.outside _ hapart, h.image]
  · intro j hj
    have hclear : d.bit j = false := by
      rw [bit, h.bitmapByte_eq (by omega), hzero _ (by omega)]
      simp
    have hbit := hbits j hj
    rw [bit, hclear] at hbit
    rw [hdisk, hflushed.stored _ (by rw [hset.geometry]; omega), hbit]
    simp only [UInt32.toNat_zero, Nat.zero_le, true_and, Nat.zero_add]
    split <;> simp_all

/-- The partition does not lie in the bitmap. -/
theorem partition_apart {bitmapSize i : Nat} (hsmall : bitmapSize < 2 ^ 30) (hi : i < 32) :
    bitmapSize ≤ (16 + UInt32.ofNat i - fsBitmapAddress).toNat := by
  simp only [fsBitmapAddress, UInt32.toNat_sub, UInt32.toNat_add, UInt32.toNat_ofNat',
    UInt32.reduceToNat]
  omega

theorem Opened.head (h : d.Opened deviceType disk) (capacity sectorSize bSize : UInt32)
    {d' : Device} (hd' : d' = (d.writeHeaders capacity sectorSize bSize).fsCacheSync) :
    (d'.blank deviceType).SectorIo ∧
      d'.drive.byte = headed disk (formatPartition capacity sectorSize) bSize := by
  have hsound₁ := (h.sound.memWrite 0 (FSDeviceHeader.layout.encode formatDeviceHeader)).1
  have hsound₂ := (hsound₁.memWrite 16
    (FSPartitionBlock.layout.encode (formatPartition capacity sectorSize))).1
  have hsound₃ := (hsound₂.memWrite 48 (List.replicate bSize.toNat 0)).1
  obtain ⟨hsound₄, hlogical, hdisk⟩ := hsound₃.cacheSync
  rw [writeHeaders] at hd'
  rw [← hd'] at hsound₄ hlogical hdisk
  constructor
  · have hgeometry := geometry_of_logical hlogical
    rw [hsound₂.memWrite_geometry, hsound₁.memWrite_geometry, h.sound.memWrite_geometry]
      at hgeometry
    have hio := hsound₄.blank_io
    rwa [hgeometry, h.deviceType] at hio
  · rw [hdisk, hsound₂.memWrite_image, hsound₁.memWrite_image, h.sound.memWrite_image, h.image,
      headed]

/-- What formatting leaves on the disk of `formatted`. -/
structure Formatted (formatted : Device) (deviceType : FSDeviceType) (part : FSPartitionBlock)
    (disk : Mem) : Prop where
  io : (formatted.blank deviceType).SectorIo
  sector_pos : 0 < part.sectorSize.toNat
  partition : formatted.drive.byte.read 16 32 = FSPartitionBlock.layout.encode part
  outside : ∀ address : UInt32,
    (FSGeometry.ofPartition deviceType part).bitmapSize.toNat ≤ (address - fsBitmapAddress).toNat →
      formatted.drive.byte address =
        headed disk part (FSGeometry.ofPartition deviceType part).bitmapSize address
  bits : ∀ j < 8 * (FSGeometry.ofPartition deviceType part).bitmapSize.toNat,
    (formatted.drive.byte (fsBitmapAddress + UInt32.ofNat (j / 8))).toBitVec.getLsbD (j % 8) =
      decide (j < (FSGeometry.ofPartition deviceType part).reservedBlocks.toNat)

/-- The second half of formatting, from the context opened on the new headers. -/
theorem Opened.formatted {reopened formatted : Device} {part : FSPartitionBlock}
    (h : reopened.Opened deviceType
      (headed disk part (FSGeometry.ofPartition deviceType part).bitmapSize))
    (hgeometry : reopened.ctx.geometry = .ofPartition deviceType part)
    (hpos : 0 < part.sectorSize.toNat)
    (hformatted : formatted = (Device.setBits reopened.ctx.geometry.reservedBlocks.toNat 0
      reopened).fsBitmapFlush.fsCacheSync) :
    formatted.Formatted deviceType part disk := by
  have hsmall : reopened.ctx.geometry.Small := by
    rw [hgeometry]
    exact FSGeometry.ofPartition_small _ hpos
  rw [← hgeometry] at h
  obtain ⟨hsound, hsame, houtside, hbits⟩ := h.reserve hsmall
    (fun k hk => headed_bitmap _ _ hsmall.bitmap hk) hformatted
  have hio : (formatted.blank deviceType).SectorIo := by
    have hblank := hsound.blank_io
    rw [hsame, hgeometry] at hblank
    exact hblank
  have hpart : formatted.drive.byte.read 16 32 = FSPartitionBlock.layout.encode part := by
    rw [← headed_partition disk part hsmall.bitmap]
    exact Mem.read_congr _ fun i hi => houtside _ (partition_apart hsmall.bitmap hi)
  rw [hgeometry] at houtside hbits
  exact ⟨hio, hpos, hpart, houtside, hbits⟩

theorem Formatted.open {formatted : Device} {part part' : FSPartitionBlock}
    (h : formatted.Formatted deviceType part disk) (hmagic : part.magic = fsMagic)
    (hopen : formatted.fsDeviceOpen deviceType = some (part', d)) :
    part' = part ∧ d.Fresh deviceType part disk := by
  obtain ⟨rfl, hlast, -, hgeometry⟩ := open_partition h.io hmagic h.partition hopen
  have hsmall := FSGeometry.ofPartition_small deviceType h.sector_pos
  have hbitmap := hsmall.bitmap
  refine ⟨rfl, hlast.sound, hlast.frameOk (by rwa [hgeometry]), hgeometry, by rwa [hgeometry],
    hlast.unloaded, by rw [hlast.image, h.partition], ?_, ?_⟩
  · intro address haddress
    rw [hgeometry] at haddress ⊢
    rw [hlast.image, h.outside address haddress]
  · intro j hj
    rw [hgeometry] at hj ⊢
    rw [bit, hlast.bitmapByte_eq (by omega)]
    exact h.bits j hj

/-- A disk on which opening does not divide by zero. -/
def Openable (disk : Mem) : Prop :=
  (FSPartitionBlock.layout.decode (disk.read 16 32)).magic = fsMagic →
    (FSPartitionBlock.layout.decode (disk.read 16 32)).sectorSize ≠ 0

/-- Formatting needs a sector size, and then overwrites any disk that can be opened. -/
theorem fsDeviceFormat_spec {old : Device} (capacity : UInt32) {sectorSize : UInt32}
    (hio : (old.blank deviceType).SectorIo) (hdisk : Openable old.drive.byte)
    (hpos : 0 < sectorSize.toNat) :
    ∃ formatted, old.fsDeviceFormat capacity sectorSize deviceType = some formatted ∧
      formatted.Formatted deviceType (formatPartition capacity sectorSize) old.drive.byte := by
  obtain ⟨oldPart, opened, hfirst⟩ := fsDeviceOpen_exists hio hdisk
  have hopened := (fsDeviceOpen_spec hio hfirst).2.1
  obtain ⟨hio₁, hdisk₁⟩ := hopened.head capacity sectorSize ((capacity / sectorSize + 7) / 8) rfl
  have hsmall : (FSGeometry.ofPartition deviceType (formatPartition capacity sectorSize)).Small :=
    FSGeometry.ofPartition_small deviceType hpos
  have hpart₁ := headed_partition old.drive.byte (formatPartition capacity sectorSize)
    (show ((capacity / sectorSize + 7) / 8).toNat < 2 ^ 30 from hsmall.bitmap)
  have hnonzero : sectorSize ≠ 0 := by
    rintro rfl
    exact absurd hpos (by simp)
  obtain ⟨part, reopened, hsecond⟩ := fsDeviceOpen_exists hio₁ (by
    rw [hdisk₁, hpart₁, Layout.decode_encode_self]
    exact fun _ => hnonzero)
  obtain ⟨-, hreopened, -, hgeometry⟩ := open_partition hio₁ rfl (by rw [hdisk₁, hpart₁]) hsecond
  rw [hdisk₁] at hreopened
  have hreserved : (16 + 32 + (capacity / sectorSize + 7) / 8 + sectorSize - 1) / sectorSize =
      reopened.ctx.geometry.reservedBlocks := by
    rw [hgeometry]
    rfl
  refine ⟨_, ?_, hreopened.formatted hgeometry hpos rfl⟩
  simp only [fsDeviceFormat, hfirst, Option.bind_some, if_neg hnonzero, hsecond, Option.map_some,
    hreserved]

/-- Formatting and opening a device yields a fresh one. -/
theorem format_open {old formatted : Device} {capacity sectorSize : UInt32}
    {part : FSPartitionBlock} (hio : (old.blank deviceType).SectorIo)
    (hformat : old.fsDeviceFormat capacity sectorSize deviceType = some formatted)
    (hopen : formatted.fsDeviceOpen deviceType = some (part, d)) :
    0 < sectorSize.toNat ∧ part = formatPartition capacity sectorSize ∧
      d.Fresh deviceType part old.drive.byte := by
  have hpos : 0 < sectorSize.toNat := by
    rw [Nat.pos_iff_ne_zero]
    intro hzero
    obtain ⟨opened, -, hnone⟩ := Option.bind_eq_some_iff.mp hformat
    rw [if_pos (UInt32.toNat_inj.mp hzero)] at hnone
    cases hnone
  have hdisk : Openable old.drive.byte := by
    intro hmagic hzero
    obtain ⟨opened, hfirst, -⟩ := Option.bind_eq_some_iff.mp hformat
    obtain ⟨hpart, -, hsizes⟩ := fsDeviceOpen_spec hio hfirst
    exact (hsizes (hpart ▸ hmagic)).1 (hpart ▸ hzero)
  obtain ⟨formatted', hformat', hformatted⟩ :=
    fsDeviceFormat_spec capacity hio hdisk hpos
  obtain rfl : formatted = formatted' := Option.some_inj.mp (hformat.symm.trans hformat')
  obtain ⟨rfl, hfresh⟩ := hformatted.open rfl hopen
  exact ⟨hpos, rfl, hfresh⟩

/-- Formatting a disk that can be opened always yields a fresh device. -/
theorem format_exists {old : Device} (capacity : UInt32) {sectorSize : UInt32}
    (hio : (old.blank deviceType).SectorIo) (hdisk : Openable old.drive.byte)
    (hpos : 0 < sectorSize.toNat) :
    ∃ formatted d, old.fsDeviceFormat capacity sectorSize deviceType = some formatted ∧
      formatted.fsDeviceOpen deviceType = some (formatPartition capacity sectorSize, d) := by
  obtain ⟨formatted, hformat, hformatted⟩ :=
    fsDeviceFormat_spec capacity hio hdisk hpos
  obtain ⟨part, d, hopen⟩ := fsDeviceOpen_exists hformatted.io (by
    rw [hformatted.partition, Layout.decode_encode_self]
    rintro - hzero
    have hzero' := congrArg UInt32.toNat hzero
    exact absurd hformatted.sector_pos (by rw [hzero']; simp))
  obtain ⟨rfl, -⟩ := hformatted.open rfl hopen
  exact ⟨formatted, d, hformat, hopen⟩

end Device

end AvrKernel.BaseFS

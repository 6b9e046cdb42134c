import AvrKernel.BaseFS.Heap

/-!
# Opening an untrusted image

Everything `fs_device_open` puts into a context comes from the partition header,
behind a check of its last byte only. Which headers give a context whose bitmap
and blocks lie on the device?
-/

namespace AvrKernel.BaseFS

open Bytes

/-! ## Safe sizes -/

/-- The sizes of a context keep allocations and bitmap accesses on the device. -/
structure FSDeviceContext.Safe (ctx : FSDeviceContext) : Prop where
  sector : 0 < ctx.geometry.sectorSize.toNat
  blocks : ctx.geometry.blockCount.toNat * ctx.geometry.sectorSize.toNat ≤
    ctx.geometry.poolSize.toNat
  reserved : ctx.geometry.reservedBlocks.toNat ≤ ctx.geometry.blockCount.toNat
  frames : ∀ index < ctx.geometry.blockCount, fsBitmapAddress.toNat + (windowStart index).toNat +
    (ctx.frameSize (windowStart index)).toNat ≤ ctx.geometry.poolSize.toNat

/-- A partition without the magic byte, or one that divides into countable blocks that hold
the headers and the bitmap. Rounding the reserved bytes up to blocks may also overflow, on
devices with one block at most. -/
def FSPartitionBlock.Mountable (part : FSPartitionBlock) : Prop :=
  part.magic = fsMagic →
    let count := part.totalSize.toNat / part.sectorSize.toNat
    0 < part.sectorSize.toNat ∧ count + 7 < 2 ^ 32 ∧
      (48 + (count + 7) / 8 ≤ count * part.sectorSize.toNat ∨
        2 ^ 32 ≤ 47 + (count + 7) / 8 + part.sectorSize.toNat)

/-- The bitmap of a mountable partition lies on the device, if there is a block at all. -/
theorem FSPartitionBlock.Mountable.bitmap_le {part : FSPartitionBlock} (h : part.Mountable)
    (hmagic : part.magic = fsMagic) :
    48 + (part.totalSize.toNat / part.sectorSize.toNat + 7) / 8 ≤ part.totalSize.toNat ∨
      part.totalSize.toNat / part.sectorSize.toNat = 0 := by
  obtain ⟨-, hcount, hfits⟩ := h hmagic
  have htotal := part.totalSize.toNat_lt
  have hmul := Nat.div_mul_le_self part.totalSize.toNat part.sectorSize.toNat
  generalize part.totalSize.toNat / part.sectorSize.toNat = count at hcount hfits hmul ⊢
  rcases hfits with hfits | hover
  · exact .inl (hfits.trans hmul)
  · rcases Nat.lt_or_ge count 2 with hone | htwo
    · have hcases : count = 0 ∨ count = 1 := by omega
      rcases hcases with rfl | rfl
      · exact .inr rfl
      · exact .inl (by omega)
    · have hdouble := Nat.mul_le_mul_right part.sectorSize.toNat htwo
      omega

namespace FSGeometry

variable {deviceType : FSDeviceType} {part : FSPartitionBlock}

/-- The bitmap has a byte for every eight blocks. -/
theorem ofPartition_bitmap
    (hcount : part.totalSize.toNat / part.sectorSize.toNat + 7 < 2 ^ 32) :
    (ofPartition deviceType part).bitmapSize.toNat =
      (part.totalSize.toNat / part.sectorSize.toNat + 7) / 8 := by
  simp only [ofPartition, UInt32.toNat_div, UInt32.toNat_add, UInt32.reduceToNat]
  rw [Nat.mod_eq_of_lt hcount]

/-- The reserved blocks are blocks of the device. -/
theorem ofPartition_reserved_le
    (hcount : part.totalSize.toNat / part.sectorSize.toNat + 7 < 2 ^ 32)
    (hpos : 0 < part.sectorSize.toNat) :
    (ofPartition deviceType part).reservedBlocks.toNat ≤
        part.totalSize.toNat / part.sectorSize.toNat ↔
      48 + (part.totalSize.toNat / part.sectorSize.toNat + 7) / 8 ≤
          part.totalSize.toNat / part.sectorSize.toNat * part.sectorSize.toNat ∨
        2 ^ 32 ≤ 47 + (part.totalSize.toNat / part.sectorSize.toNat + 7) / 8 +
          part.sectorSize.toNat := by
  have hsector := part.sectorSize.toNat_lt
  rw [ofPartition_reserved, ofPartition_bitmap hcount]
  generalize part.totalSize.toNat / part.sectorSize.toNat = count at hcount ⊢
  by_cases hfits : 47 + (count + 7) / 8 + part.sectorSize.toNat < 2 ^ 32
  · rw [Nat.mod_eq_of_lt (by omega), Nat.div_le_iff_le_mul_add_pred hpos, Nat.mul_comm]
    omega
  · have hzero : (48 + (count + 7) / 8 + part.sectorSize.toNat - 1) % 2 ^ 32 <
        part.sectorSize.toNat := by omega
    rw [Nat.div_eq_of_lt hzero]
    omega

end FSGeometry

/-- A frame that holds a bit of the bitmap lies in it. -/
theorem FSDeviceContext.frame_le {ctx : FSDeviceContext} {index : UInt32}
    (hcover : index.toNat < 8 * ctx.geometry.bitmapSize.toNat)
    (hsmall : ctx.geometry.bitmapSize.toNat < 2 ^ 30) :
    (windowStart index).toNat + (ctx.frameSize (windowStart index)).toNat ≤
      ctx.geometry.bitmapSize.toNat := by
  have hstart := Device.windowStart_toNat index
  rw [frameSize_toNat hsmall (by omega)]
  omega

/-- With a bitmap whose size overflowed to nothing, the second frame is as long as the address
space. -/
theorem FSDeviceContext.frame_overflow {ctx : FSDeviceContext}
    (hsize : ctx.geometry.bitmapSize = 0) :
    ctx.geometry.poolSize.toNat < fsBitmapAddress.toNat + (windowStart 256).toNat +
      (ctx.frameSize (windowStart 256)).toNat := by
  have hpool := ctx.geometry.poolSize.toNat_lt
  rw [frameSize, hsize, if_pos (by decide)]
  have hlong : fsBitmapAddress.toNat + (windowStart 256).toNat + (0 - windowStart 256).toNat =
      48 + 2 ^ 32 := by decide
  omega

/-- The sizes computed from a partition are safe just if it is mountable. -/
theorem ofPartition_safe_iff {ctx : FSDeviceContext} {deviceType : FSDeviceType}
    {part : FSPartitionBlock} (hgeometry : ctx.geometry = .ofPartition deviceType part)
    (hmagic : part.magic = fsMagic) (hpos : 0 < part.sectorSize.toNat) :
    ctx.Safe ↔ part.Mountable := by
  have hblocks : ctx.geometry.blockCount.toNat =
      part.totalSize.toNat / part.sectorSize.toNat := by
    rw [hgeometry]
    exact UInt32.toNat_div ..
  have hmul := Nat.div_mul_le_self part.totalSize.toNat part.sectorSize.toNat
  have hpool : ctx.geometry.poolSize = part.totalSize := by rw [hgeometry]; rfl
  have hsector : ctx.geometry.sectorSize = part.sectorSize := by rw [hgeometry]; rfl
  constructor
  · intro hsafe _
    have hcount : part.totalSize.toNat / part.sectorSize.toNat + 7 < 2 ^ 32 := by
      by_contra hover
      have htotal := part.totalSize.toNat_lt
      have hsize : ctx.geometry.bitmapSize = 0 := by
        rw [hgeometry, ← UInt32.toNat_inj]
        simp only [FSGeometry.ofPartition, UInt32.toNat_div, UInt32.toNat_add, UInt32.reduceToNat]
        have hle := Nat.div_le_self part.totalSize.toNat part.sectorSize.toNat
        generalize part.totalSize.toNat / part.sectorSize.toNat = count at hover hle ⊢
        omega
      have hindex : (256 : UInt32) < ctx.geometry.blockCount := by
        rw [UInt32.lt_iff_toNat_lt, hblocks]
        exact lt_of_lt_of_le (by decide) (by omega : 2 ^ 32 - 7 ≤ _)
      have hframe := hsafe.frames 256 hindex
      have hlong := FSDeviceContext.frame_overflow hsize
      omega
    have hreserved := hsafe.reserved
    rw [hblocks, hgeometry, FSGeometry.ofPartition_reserved_le hcount hpos] at hreserved
    exact ⟨hpos, hcount, hreserved⟩
  · intro hmount
    obtain ⟨-, hcount, hfits⟩ := hmount hmagic
    have hbitmap : ctx.geometry.bitmapSize.toNat =
        (part.totalSize.toNat / part.sectorSize.toNat + 7) / 8 := by
      rw [hgeometry]
      exact FSGeometry.ofPartition_bitmap hcount
    have hbound := hmount.bitmap_le hmagic
    refine ⟨by rwa [hsector], by rwa [hblocks, hsector, hpool], ?_, fun index hindex => ?_⟩
    · rw [hblocks, hgeometry]
      exact (FSGeometry.ofPartition_reserved_le hcount hpos).mpr hfits
    · rw [UInt32.lt_iff_toNat_lt, hblocks] at hindex
      have hcover : index.toNat < 8 * ctx.geometry.bitmapSize.toNat := by omega
      have hframe := FSDeviceContext.frame_le hcover (by omega)
      have hbase : fsBitmapAddress.toNat = 48 := rfl
      rw [hpool]
      omega

/-! ## What the drive delivers -/

/-- The bytes of the first sector from `address` on, as a context without a sector reads them:
each byte is zero until a transfer succeeds. -/
def serve (readOk : Nat → Bool) (disk : Mem) (attempt : Nat) (address : UInt32) :
    Nat → List UInt8
  | 0 => []
  | size + 1 =>
      if readOk attempt then disk.read address (size + 1)
      else 0 :: serve readOk disk (attempt + 1) (address + 1) size

namespace Device

variable {d : Device} {deviceType : FSDeviceType}

/-- The partition header that a drive delivers to a new context. -/
def served (d : Device) (deviceType : FSDeviceType) : FSPartitionBlock :=
  FSPartitionBlock.layout.decode <|
    match deviceType with
    | .ata => serve d.drive.readOk d.drive.byte d.drive.reads 16 32
    | .ahci =>
        if d.drive.port then serve d.drive.readOk d.drive.byte d.drive.reads 16 32
        else List.replicate 32 0
    | .eeprom | .raw => Mem.read (fun address => d.window (offsetOf address)) 16 32

/-- Bytes of the sector in the window are read without a transfer. -/
theorem fsMemRead_window {address : UInt32} {size : Nat}
    (hhit : ∀ i < size, d.fsCacheFlushAndFetch (sectorOf (address + .ofNat i)) = (true, d)) :
    d.fsMemRead address size = (Mem.read (fun a => d.window (offsetOf a)) address size, d) := by
  induction size generalizing address with
  | zero => rfl
  | succ size ih =>
      have hfirst : d.fsReadb address = (d.window (offsetOf address), d) := by
        have hfetch := hhit 0 (by omega)
        rw [show address + .ofNat 0 = address from UInt32.add_zero _] at hfetch
        rw [fsReadb, hfetch]
        rfl
      have hbehind : ∀ i < size,
          d.fsCacheFlushAndFetch (sectorOf (address + 1 + .ofNat i)) = (true, d) := by
        intro i hi
        have hnext := hhit (i + 1) (by omega)
        rwa [UInt32.ofNat_add, UInt32.add_comm (.ofNat i), ← UInt32.add_assoc] at hnext
      simp only [fsMemRead, hfirst, ih hbehind, Mem.read]

theorem sectorOf_add {address : UInt32} {size i : Nat} (hsector : address.toNat + size ≤ 512)
    (hi : i < size) : sectorOf (address + .ofNat i) = 0 := by
  rw [sectorOf, ← UInt32.toNat_inj, UInt32.toNat_div, Mem.toNat_add_ofNat (by omega)]
  exact Nat.div_eq_of_lt (by simp only [UInt32.reduceToNat]; omega)

/-- A context without a sector tries to read the first one for each byte. -/
theorem fsMemRead_serve {address : UInt32} {size : Nat} (hattached : d.Attached)
    (hempty : d.ctx.sectorFrame = fsInvalidFrame) (hclean : d.ctx.sectorDirty = false)
    (hsector : address.toNat + size ≤ 512) :
    (d.fsMemRead address size).1 =
      serve d.drive.readOk d.drive.byte d.drive.reads address size := by
  induction size generalizing d address with
  | zero => rfl
  | succ size ih =>
      have hzero : sectorOf address = 0 := by
        have hfirst := sectorOf_add hsector (Nat.succ_pos size)
        rwa [show address + .ofNat 0 = address from UInt32.add_zero _] at hfirst
      have hfetch : d.fsCacheFlushAndFetch 0 = d.evictAndFetch 0 := by
        rw [fsCacheFlushAndFetch, if_neg (by rw [hempty]; decide)]
        rcases hattached with hata | ⟨hahci, hport⟩
        · rw [hata]
        · rw [hahci]
          exact if_pos hport
      have hevict : d.evict = (true, d) := by simp [Device.evict, hclean]
      rw [serve]
      cases hok : d.drive.readOk d.drive.reads with
      | false =>
          set failed : Device := { d with drive := { d.drive with reads := d.drive.reads + 1 } }
            with hfailed
          have hstep : d.fsCacheFlushAndFetch 0 = (false, failed) := by
            simp only [hfetch, evictAndFetch, hevict, if_true, Drive.readSector, hok,
              Bool.false_eq_true, if_false, hfailed]
          have hfirst : d.fsReadb address = (0, failed) := by
            simp only [fsReadb, hzero, hstep, Bool.false_eq_true, if_false]
          rw [if_neg Bool.false_ne_true]
          simp only [fsMemRead, hfirst]
          have hnext : (address + 1).toNat = address.toNat + 1 :=
            Mem.toNat_add_of_lt (by simp only [UInt32.reduceToNat]; omega)
          exact congrArg (0 :: ·) (ih (d := failed) hattached hempty hclean (by omega))
      | true =>
          set fetched : Device := { d with
            ctx.sectorFrame := 0
            window := d.drive.disk 0
            drive := { d.drive with reads := d.drive.reads + 1 } } with hfetched
          have hstep : d.fsCacheFlushAndFetch 0 = (true, fetched) := by
            simp only [hfetch, evictAndFetch, hevict, if_true, Drive.readSector, hok, hfetched]
          have hfirst : d.fsReadb address = (d.drive.disk 0 (offsetOf address), fetched) := by
            simp only [fsReadb, hzero, hstep, if_true]
            rfl
          have hnext : (address + 1).toNat = address.toNat + 1 :=
            Mem.toNat_add_of_lt (by simp only [UInt32.reduceToNat]; omega)
          have hrest : fetched.fsMemRead (address + 1) size =
              (Mem.read (fun a => fetched.window (offsetOf a)) (address + 1) size, fetched) :=
            fsMemRead_window fun i hi => by
              have hsame : sectorOf (address + 1 + .ofNat i) = 0 :=
                sectorOf_add (by omega : (address + 1).toNat + size ≤ 512) hi
              rw [hsame, fsCacheFlushAndFetch]
              exact if_pos rfl
          simp only [fsMemRead, hfirst, hrest, if_true]
          refine Mem.read_congr address (n := size + 1) (m := fun a => fetched.window (offsetOf a))
            fun i hi => ?_
          rw [Drive.byte, sectorOf_add hsector hi]

/-- Without a drive every byte is zero. -/
theorem fsMemRead_refused {address : UInt32} {size : Nat}
    (hrefused : ∀ target, sectorOf target ≠ d.ctx.sectorFrame →
      d.fsCacheFlushAndFetch (sectorOf target) = (false, d))
    (hempty : d.ctx.sectorFrame = fsInvalidFrame) :
    d.fsMemRead address size = (List.replicate size 0, d) := by
  induction size generalizing address with
  | zero => rfl
  | succ size ih =>
      have hfirst : d.fsReadb address = (0, d) := by
        rw [fsReadb, hrefused address (by rw [hempty]; exact sectorOf_ne_invalid address)]
        exact if_neg Bool.false_ne_true
      simp only [fsMemRead, hfirst, ih]
      rfl

theorem blank_partition (d : Device) (deviceType : FSDeviceType) :
    (d.blank deviceType).fsDeviceGetPartition.1.2 = d.served deviceType := by
  have hbytes : ((d.blank deviceType).fsMemRead 16 FSPartitionBlock.layout.size).1 =
      match deviceType with
      | .ata => serve d.drive.readOk d.drive.byte d.drive.reads 16 32
      | .ahci =>
          if d.drive.port then serve d.drive.readOk d.drive.byte d.drive.reads 16 32
          else List.replicate 32 0
      | .eeprom | .raw => Mem.read (fun address => d.window (offsetOf address)) 16 32 := by
    rw [FSPartitionBlock.layout_size]
    cases deviceType with
    | ata => exact fsMemRead_serve (.inl rfl) rfl rfl (by decide)
    | ahci =>
        by_cases hport : d.drive.port = true
        · simp only [hport, if_true]
          exact fsMemRead_serve (.inr ⟨rfl, hport⟩) rfl rfl (by decide)
        · simp only [hport, Bool.false_eq_true, if_false]
          refine congrArg Prod.fst (fsMemRead_refused (fun target hmiss => ?_) rfl)
          rw [fsCacheFlushAndFetch, if_neg (Ne.symm hmiss)]
          exact if_neg hport
    | eeprom | raw =>
        refine congrArg Prod.fst (fsMemRead_window fun i _ => ?_)
        rw [fsCacheFlushAndFetch]
        split <;> rfl
  exact congrArg FSPartitionBlock.layout.decode hbytes

/-- A drive whose sector reads succeed delivers what is on the disk. -/
theorem served_eq (h : (d.blank deviceType).SectorIo) :
    d.served deviceType = FSPartitionBlock.layout.decode (d.drive.byte.read 16 32) := by
  obtain ⟨hsound, himage⟩ := Sound.of_blank h
  rw [← blank_partition]
  exact congrArg FSPartitionBlock.layout.decode
    ((hsound.memRead 16 FSPartitionBlock.layout.size).1.trans (by rw [himage]; rfl))

theorem getPartition_eq (d : Device) :
    ∃ read, read = d.fsMemRead 16 FSPartitionBlock.layout.size ∧
      d.fsDeviceGetPartition =
        ((if (FSPartitionBlock.layout.decode read.1).magic ≠ fsMagic then 1 else 0,
          FSPartitionBlock.layout.decode read.1), read.2) :=
  ⟨_, rfl, rfl⟩

/-- Opening ends, with a context that is safe if it is open. -/
def OpensSafely (d : Device) (deviceType : FSDeviceType) : Prop :=
  ∃ part opened, d.fsDeviceOpen deviceType = some (part, opened) ∧
    (opened.ctx.geometry.isOpen = true → opened.ctx.Safe)

/-- Opening is safe just on the disks whose partition header is mountable. -/
theorem open_safe_iff (d : Device) (deviceType : FSDeviceType) :
    d.OpensSafely deviceType ↔ (d.served deviceType).Mountable := by
  have hpart := blank_partition d deviceType
  have hcoherent : (d.blank deviceType).Coherent :=
    fun _ address hhit => absurd hhit (sectorOf_ne_invalid address)
  obtain ⟨read, hread, hget⟩ := getPartition_eq (d.blank deviceType)
  have hkept : read.2.ctx.geometry = (d.blank deviceType).ctx.geometry := by
    rw [hread]
    exact geometry_of_logical (hcoherent.memRead 16 FSPartitionBlock.layout.size).2.1
  rw [hget] at hpart
  dsimp only at hpart
  rw [OpensSafely, fsDeviceOpen, hget]
  dsimp only
  rw [hpart]
  generalize d.served deviceType = part
  by_cases hmagic : part.magic = fsMagic
  · rw [if_neg (by simp [hmagic])]
    by_cases hzero : part.sectorSize = 0
    · rw [if_pos hzero]
      refine iff_of_false ?_ fun hmount => absurd (hmount hmagic).1 (by simp [hzero])
      rintro ⟨part', opened, hnone, -⟩
      cases hnone
    · rw [if_neg hzero]
      have hpos : 0 < part.sectorSize.toNat := by
        rw [Nat.pos_iff_ne_zero]
        exact fun hnone => hzero (UInt32.toNat_inj.mp hnone)
      constructor
      · rintro ⟨part', opened, hopen, hsafe⟩
        rw [Option.some_inj, Prod.mk.injEq] at hopen
        obtain ⟨rfl, rfl⟩ := hopen
        exact (ofPartition_safe_iff rfl hmagic hpos).mp (hsafe rfl)
      · intro hmount
        exact ⟨_, _, rfl, fun _ => (ofPartition_safe_iff rfl hmagic hpos).mpr hmount⟩
  · rw [if_pos (by simp [hmagic])]
    have hmount : part.Mountable := fun h => absurd h hmagic
    refine iff_of_true ⟨part, read.2, rfl, fun hopened => ?_⟩ hmount
    rw [hkept] at hopened
    cases hopened

end Device

/-- An ATA disk of zeros but for the magic byte of its partition. -/
def magicDevice : Device :=
  { zeroDevice with drive := { zeroDevice.drive with
    disk := fun lba offset => if lba = 0 ∧ offset = 47 then fsMagic else 0 } }

/-- Opening a partition with the magic byte and nothing else divides by zero. -/
theorem open_not_safe : (magicDevice.blank .ata).SectorIo ∧
    magicDevice.fsDeviceOpen .ata = none ∧ ¬ magicDevice.OpensSafely .ata := by
  have hio : (magicDevice.blank .ata).SectorIo := ⟨.inl rfl, fun _ => rfl, fun _ => rfl⟩
  have hmagic : (magicDevice.served .ata).magic = fsMagic := by
    rw [Device.served_eq hio]
    decide
  have hzero : (magicDevice.served .ata).sectorSize = 0 := by
    rw [Device.served_eq hio]
    decide
  have hnone : magicDevice.fsDeviceOpen .ata = none := by
    have hpart := Device.blank_partition magicDevice .ata
    rw [Device.fsDeviceOpen, hpart, if_pos hzero, if_neg]
    simp only [Device.fsDeviceGetPartition] at hpart ⊢
    rw [hpart, hmagic]
    decide
  refine ⟨hio, hnone, ?_⟩
  rintro ⟨part, opened, hopen, -⟩
  rw [hnone] at hopen
  cases hopen

end AvrKernel.BaseFS

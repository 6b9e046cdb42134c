import AvrKernel.BaseFS.Structs
import AvrKernel.Lib.Trace

/-!
# The sector cache

The x86 backend of basefs: bytes of a device are read and written through a
window that holds one sector, written back when another sector is needed. The
drive decides which sector transfers succeed.
-/

namespace AvrKernel.BaseFS

open Bytes

/-! ## Devices -/

inductive FSDeviceType
  | ata | ahci | eeprom | raw
  deriving DecidableEq

/-- The sizes that `fs_device_open` takes from the partition header. -/
structure FSGeometry where
  isOpen : Bool
  deviceType : FSDeviceType
  sectorSize : UInt32
  poolSize : UInt32
  blockCount : UInt32
  bitmapSize : UInt32
  reservedBlocks : UInt32
  deriving DecidableEq

/-- The part of the allocation bitmap that the context holds in memory. -/
structure FSBitmapFrame where
  dirty : Bool
  offset : UInt32
  bitmap : Fin 32 → UInt8

structure FSDeviceContext where
  geometry : FSGeometry
  frame : FSBitmapFrame
  sectorFrame : UInt32
  sectorDirty : Bool

abbrev Sector := Fin 512 → UInt8

/-- The physical drive. `readOk`, `writeOk` and `flushOk` are the outcomes of
its transfers in the order they are attempted; `port` is whether
`ahci_get_active_port` finds one. -/
structure Drive where
  disk : UInt32 → Sector
  port : Bool
  readOk : Nat → Bool
  writeOk : Nat → Bool
  flushOk : Nat → Bool
  reads : Nat
  writes : Nat
  flushes : Nat

/-- A device context with the sector window it points to and its drive. -/
structure Device where
  ctx : FSDeviceContext
  window : Sector
  drive : Drive

namespace Drive

/-- `ata_read_sector` and one-sector `ahci_read_sectors`. The sector of a 32-bit
byte address fits the 28 address bits of an ATA command. -/
def readSector (drive : Drive) (lba : UInt32) (buffer : Sector) : Bool × Sector × Drive :=
  let ok := drive.readOk drive.reads
  (ok, if ok then drive.disk lba else buffer, { drive with reads := drive.reads + 1 })

/-- `ata_write_sector` and one-sector `ahci_write_sectors`. -/
def writeSector (drive : Drive) (lba : UInt32) (buffer : Sector) : Bool × Drive :=
  let ok := drive.writeOk drive.writes
  (ok, { drive with
    disk := if ok then Function.update drive.disk lba buffer else drive.disk
    writes := drive.writes + 1 })

/-- `ahci_flush_cache`. -/
def flushCache (drive : Drive) : Bool × Drive :=
  (drive.flushOk drive.flushes, { drive with flushes := drive.flushes + 1 })

end Drive

/-- The sector that holds a byte address. -/
def sectorOf (address : UInt32) : UInt32 := address / 512

/-- The place of a byte address in its sector. -/
def offsetOf (address : UInt32) : Fin 512 :=
  ⟨address.toNat % 512, Nat.mod_lt _ (by decide)⟩

/-- The bytes on the physical disk. -/
def Drive.byte (drive : Drive) : Mem :=
  fun address => drive.disk (sectorOf address) (offsetOf address)

namespace Device

variable (d : Device)

/-- Write the cached sector back if it is dirty. -/
def evict : Bool × Device :=
  if d.ctx.sectorDirty ∧ d.ctx.sectorFrame ≠ fsInvalidFrame then
    let result := d.drive.writeSector d.ctx.sectorFrame d.window
    if result.1 then (true, { d with ctx.sectorDirty := false, drive := result.2 })
    else (false, { d with drive := result.2 })
  else (true, d)

/-- Bring `target` into the window, in either driver's branch. -/
def evictAndFetch (target : UInt32) : Bool × Device :=
  let result := d.evict
  if result.1 then
    let transfer := result.2.drive.readSector target result.2.window
    if transfer.1 then
      (true, { result.2 with
        ctx.sectorFrame := target, window := transfer.2.1, drive := transfer.2.2 })
    else (false, { result.2 with window := transfer.2.1, drive := transfer.2.2 })
  else (false, result.2)

def fsCacheFlushAndFetch (target : UInt32) : Bool × Device :=
  if d.ctx.sectorFrame = target then (true, d)
  else match d.ctx.geometry.deviceType with
    | .ata => d.evictAndFetch target
    | .ahci => if d.drive.port then d.evictAndFetch target else (false, d)
    | .eeprom | .raw => (true, d)

/-- The write-back of `fs_cache_sync`, whose outcome nobody looks at. -/
def syncSector : Device :=
  if d.ctx.sectorDirty ∧ d.ctx.sectorFrame ≠ fsInvalidFrame then
    { d with
      ctx.sectorDirty := false
      drive := (d.drive.writeSector d.ctx.sectorFrame d.window).2 }
  else d

def fsCacheSync : Device :=
  match d.ctx.geometry.deviceType with
  | .ata => d.syncSector
  | .ahci => if d.drive.port then d.syncSector else d
  | .eeprom | .raw => d

def fsCacheFlush : Bool × Device :=
  let synced := d.fsCacheSync
  if synced.ctx.sectorDirty then (false, synced)
  else match synced.ctx.geometry.deviceType with
    | .ahci =>
        if synced.drive.port then
          let result := synced.drive.flushCache
          (result.1, { synced with drive := result.2 })
        else (false, synced)
    | .ata | .eeprom | .raw => (true, synced)

def fsReadb (address : UInt32) : UInt8 × Device :=
  let result := d.fsCacheFlushAndFetch (sectorOf address)
  if result.1 then (result.2.window (offsetOf address), result.2) else (0, result.2)

def fsWriteb (address : UInt32) (byte : UInt8) : Device :=
  let result := d.fsCacheFlushAndFetch (sectorOf address)
  if result.1 then
    { result.2 with
      ctx.sectorDirty := true
      window := Function.update result.2.window (offsetOf address) byte }
  else result.2

def fsMemRead (d : Device) (address : UInt32) : Nat → List UInt8 × Device
  | 0 => ([], d)
  | size + 1 =>
      let first := d.fsReadb address
      let rest := fsMemRead first.2 (address + 1) size
      (first.1 :: rest.1, rest.2)

def fsMemWrite (d : Device) (address : UInt32) : List UInt8 → Device
  | [] => d
  | byte :: source => fsMemWrite (d.fsWriteb address byte) (address + 1) source

/-! ## The logical image -/

/-- The byte at every address, whether it is in the window or on the disk. -/
def image : Mem := fun address =>
  if sectorOf address = d.ctx.sectorFrame then d.window (offsetOf address)
  else d.drive.byte address

/-- A clean window agrees with the disk. -/
def Coherent : Prop :=
  d.ctx.sectorDirty = false → ∀ address, sectorOf address = d.ctx.sectorFrame →
    d.window (offsetOf address) = d.drive.byte address

/-- Sector transfers go to a drive. -/
def Attached : Prop :=
  d.ctx.geometry.deviceType = .ata ∨ d.ctx.geometry.deviceType = .ahci ∧ d.drive.port = true

/-- The device has a drive whose sector reads and writes succeed. -/
structure SectorIo : Prop where
  attached : d.Attached
  reads : ∀ n, d.drive.readOk n = true
  writes : ∀ n, d.drive.writeOk n = true

structure Sound : Prop where
  io : d.SectorIo
  coherent : d.Coherent

/-- What the sector cache does not touch or hides from the code above it. -/
structure Logical where
  geometry : FSGeometry
  frame : FSBitmapFrame
  image : Mem
  port : Bool
  readOk : Nat → Bool
  writeOk : Nat → Bool

def logical : Logical :=
  ⟨d.ctx.geometry, d.ctx.frame, d.image, d.drive.port, d.drive.readOk, d.drive.writeOk⟩

/-- The next transfers bring the sector `target` into the window. -/
def CanFetch (target : UInt32) : Prop :=
  d.ctx.sectorFrame = target ∨ d.Attached ∧
    (d.ctx.sectorDirty = true → d.drive.writeOk d.drive.writes = true) ∧
    d.drive.readOk d.drive.reads = true

end Device

theorem sectorOf_ne_invalid (address : UInt32) : sectorOf address ≠ fsInvalidFrame := by
  intro h
  have hlt := address.toNat_lt
  have htoNat : address.toNat / 512 = 2 ^ 32 - 1 := by
    simpa [sectorOf, fsInvalidFrame, UInt32.toNat_div] using congrArg UInt32.toNat h
  omega

/-- An address is determined by its sector and its place there. -/
theorem address_ext {a b : UInt32} (hsector : sectorOf a = sectorOf b)
    (hoffset : offsetOf a = offsetOf b) : a = b := by
  apply UInt32.toNat_inj.mp
  have h1 : a.toNat / 512 = b.toNat / 512 := by
    simpa [sectorOf, UInt32.toNat_div] using congrArg UInt32.toNat hsector
  have h2 : a.toNat % 512 = b.toNat % 512 := congrArg Fin.val hoffset
  omega

namespace Device

variable {d : Device}

theorem geometry_of_logical {d' : Device} (h : d'.logical = d.logical) :
    d'.ctx.geometry = d.ctx.geometry := congrArg Logical.geometry h

theorem frame_of_logical {d' : Device} (h : d'.logical = d.logical) :
    d'.ctx.frame = d.ctx.frame := congrArg Logical.frame h

theorem image_of_logical {d' : Device} (h : d'.logical = d.logical) : d'.image = d.image :=
  congrArg Logical.image h

/-- What the device is, as opposed to what it holds. -/
def wiring (d : Device) : FSGeometry × Bool × (Nat → Bool) × (Nat → Bool) :=
  (d.ctx.geometry, d.drive.port, d.drive.readOk, d.drive.writeOk)

theorem geometry_of_wiring {d' : Device} (h : d'.wiring = d.wiring) :
    d'.ctx.geometry = d.ctx.geometry := congrArg Prod.fst h

theorem wiring_of_logical {d' : Device} {m : Mem} (h : d'.logical = { d.logical with image := m }) :
    d'.wiring = d.wiring :=
  congrArg (fun l : Logical => (l.geometry, l.port, l.readOk, l.writeOk)) h

theorem Attached.of_wiring {d' : Device} (hd : d.Attached) (h : d'.wiring = d.wiring) :
    d'.Attached := by
  have hport : d'.drive.port = d.drive.port := congrArg (fun w => w.2.1) h
  rwa [Attached, geometry_of_wiring h, hport]

theorem SectorIo.of_wiring {d' : Device} (hd : d.SectorIo) (h : d'.wiring = d.wiring) :
    d'.SectorIo where
  attached := hd.attached.of_wiring h
  reads := by
    have hreads : d'.drive.readOk = d.drive.readOk := congrArg (fun w => w.2.2.1) h
    rw [hreads]
    exact hd.reads
  writes := by
    have hwrites : d'.drive.writeOk = d.drive.writeOk := congrArg (fun w => w.2.2.2) h
    rw [hwrites]
    exact hd.writes

theorem SectorIo.canFetch (h : d.SectorIo) (target : UInt32) : d.CanFetch target :=
  .inr ⟨h.attached, fun _ => h.writes _, h.reads _⟩

theorem Coherent.image_eq (h : d.Coherent) (hclean : d.ctx.sectorDirty = false) :
    d.image = d.drive.byte := by
  funext address
  by_cases hhit : sectorOf address = d.ctx.sectorFrame
  · rw [image, if_pos hhit, h hclean address hhit]
  · rw [image, if_neg hhit]

/-- A successful eviction leaves the image on the disk; a failed one changes nothing. -/
theorem Coherent.evict (h : d.Coherent) :
    d.evict.2.Coherent ∧ d.evict.2.logical = d.logical ∧
      d.evict.2.ctx.sectorFrame = d.ctx.sectorFrame ∧
      (d.evict.1 = true → d.evict.2.drive.byte = d.image) := by
  unfold Device.evict
  split
  next hdirty =>
    cases hok : d.drive.writeOk d.drive.writes with
    | false =>
        simp only [Drive.writeSector, hok, Bool.false_eq_true, if_false]
        exact ⟨fun hclean => absurd hclean (by simp [hdirty.1]), rfl, trivial, fun h => h.elim⟩
    | true =>
        simp only [Drive.writeSector, hok, if_true]
        set written : Device :=
          { d with
            ctx.sectorDirty := false
            drive := { d.drive with
              disk := Function.update d.drive.disk d.ctx.sectorFrame d.window
              writes := d.drive.writes + 1 } } with hwritten
        have hbyte : written.drive.byte = d.image := by
          funext address
          simp only [hwritten, Drive.byte, image, Function.update_apply]
          split <;> rfl
        have himage : written.image = d.image := by
          funext address
          rw [image, hbyte, image]
          split <;> rfl
        refine ⟨?_, by simp only [logical, himage]; rfl, trivial, fun _ => hbyte⟩
        intro _ address hhit
        have hpoint := congrFun hbyte address
        rw [image, if_pos hhit] at hpoint
        exact hpoint.symm
  next hclean =>
    refine ⟨h, rfl, rfl, fun _ => ?_⟩
    funext address
    by_cases hhit : sectorOf address = d.ctx.sectorFrame
    · have hfalse : d.ctx.sectorDirty = false := by
        by_contra hne
        exact hclean ⟨by simpa using hne, hhit ▸ sectorOf_ne_invalid address⟩
      rw [h.image_eq hfalse]
    · rw [image, if_neg hhit]

theorem evict_fst (hwrite : d.ctx.sectorDirty = true → d.drive.writeOk d.drive.writes = true) :
    d.evict.1 = true := by
  unfold Device.evict
  split
  next hdirty => simp [Drive.writeSector, hwrite hdirty.1]
  next => rfl

theorem Coherent.evictAndFetch (h : d.Coherent) (target : UInt32) :
    (d.evictAndFetch target).2.Coherent ∧ (d.evictAndFetch target).2.logical = d.logical ∧
      ((d.evictAndFetch target).1 = true →
        (d.evictAndFetch target).2.ctx.sectorFrame = target) := by
  obtain ⟨hcoherent, hlogical, hframe, hbyte⟩ := h.evict
  unfold Device.evictAndFetch
  cases hok : d.evict.1 with
  | false =>
      simp only [hok, Bool.false_eq_true, if_false]
      exact ⟨hcoherent, hlogical, fun h => h.elim⟩
  | true =>
      cases hread : d.evict.2.drive.readOk d.evict.2.drive.reads with
      | false =>
          simp only [hok, Drive.readSector, hread, if_true, Bool.false_eq_true, if_false]
          exact ⟨hcoherent, hlogical, fun h => h.elim⟩
      | true =>
          simp only [hok, Drive.readSector, hread, if_true]
          refine ⟨?_, ?_, fun _ => trivial⟩
          · intro _ address hhit
            simp only [Drive.byte] at hhit ⊢
            rw [hhit]
          · rw [← hlogical]
            have himage := (hbyte hok).trans (image_of_logical hlogical).symm
            simp only [logical, Logical.mk.injEq, and_true, true_and]
            funext address
            rw [image]
            split
            next hhit =>
              rw [← himage, Drive.byte, hhit]
            next => exact congrFun himage address

theorem Coherent.fetch (h : d.Coherent) (target : UInt32) :
    (d.fsCacheFlushAndFetch target).2.Coherent ∧
      (d.fsCacheFlushAndFetch target).2.logical = d.logical ∧
      (d.Attached → (d.fsCacheFlushAndFetch target).1 = true →
        (d.fsCacheFlushAndFetch target).2.ctx.sectorFrame = target) := by
  have hfetch := h.evictAndFetch target
  unfold fsCacheFlushAndFetch
  split
  next hhit => exact ⟨h, rfl, fun _ _ => hhit⟩
  next hmiss =>
    cases htype : d.ctx.geometry.deviceType with
    | ata => exact ⟨hfetch.1, hfetch.2.1, fun _ => hfetch.2.2⟩
    | ahci =>
        cases hport : d.drive.port with
        | true => exact ⟨hfetch.1, hfetch.2.1, fun _ => hfetch.2.2⟩
        | false => exact ⟨h, rfl, fun _ hfalse => absurd hfalse (by simp)⟩
    | eeprom | raw =>
        exact ⟨h, rfl, fun hattached => by simp [Attached, htype] at hattached⟩

theorem fetch_fst {target : UInt32} (h : d.CanFetch target) :
    (d.fsCacheFlushAndFetch target).1 = true := by
  unfold fsCacheFlushAndFetch
  split
  next => rfl
  next hmiss =>
    obtain hhit | ⟨hattached, hwrite, hread⟩ := h
    · exact absurd hhit hmiss
    · have hfetch : (d.evictAndFetch target).1 = true := by
        have hreads : d.evict.2.drive.readOk d.evict.2.drive.reads = true := by
          unfold Device.evict
          split
          next hdirty =>
            simp only [Drive.writeSector, hwrite hdirty.1, if_true]
            exact hread
          next => exact hread
        simp only [Device.evictAndFetch, evict_fst hwrite, if_true, Drive.readSector, hreads]
      obtain hata | ⟨hahci, hport⟩ := hattached
      · simpa only [hata] using hfetch
      · simpa only [hahci, hport, if_true] using hfetch

/-- A sector that can be fetched is afterwards in the window. -/
theorem Coherent.fetch_frame (h : d.Coherent) {target : UInt32} (hcan : d.CanFetch target) :
    (d.fsCacheFlushAndFetch target).2.ctx.sectorFrame = target := by
  by_cases hhit : d.ctx.sectorFrame = target
  · rw [fsCacheFlushAndFetch, if_pos hhit]
    exact hhit
  · have hattached : d.Attached := (hcan.resolve_left hhit).1
    exact (h.fetch target).2.2 hattached (fetch_fst hcan)

/-! ## Reading and writing bytes -/

theorem fsReadb_snd (d : Device) (address : UInt32) :
    (d.fsReadb address).2 = (d.fsCacheFlushAndFetch (sectorOf address)).2 := by
  simp only [fsReadb]
  split <;> rfl

theorem Coherent.readb (h : d.Coherent) (address : UInt32) :
    (d.fsReadb address).2.Coherent ∧ (d.fsReadb address).2.logical = d.logical ∧
      (d.CanFetch (sectorOf address) → (d.fsReadb address).1 = d.image address) := by
  obtain ⟨hcoherent, hlogical, -⟩ := h.fetch (sectorOf address)
  rw [fsReadb_snd]
  refine ⟨hcoherent, hlogical, fun hcan => ?_⟩
  have hframe := h.fetch_frame hcan
  rw [fsReadb, if_pos (fetch_fst hcan), ← image_of_logical hlogical, image, if_pos hframe.symm]

theorem Coherent.writeb (h : d.Coherent) {address : UInt32} (hcan : d.CanFetch (sectorOf address))
    (byte : UInt8) :
    (d.fsWriteb address byte).Coherent ∧ (d.fsWriteb address byte).logical =
      { d.logical with image := Function.update d.image address byte } := by
  obtain ⟨hcoherent, hlogical, -⟩ := h.fetch (sectorOf address)
  have hframe := h.fetch_frame hcan
  unfold fsWriteb
  rw [if_pos (fetch_fst hcan)]
  refine ⟨fun hclean => absurd hclean (by simp), ?_⟩
  simp only [logical, Logical.mk.injEq] at hlogical ⊢
  refine ⟨hlogical.1, hlogical.2.1, ?_, hlogical.2.2.2⟩
  rw [← hlogical.2.2.1]
  funext other
  simp only [image, hframe]
  by_cases heq : other = address
  · subst heq
    simp
  · rw [Function.update_of_ne heq]
    by_cases hsector : sectorOf other = sectorOf address
    · have hoffset : offsetOf other ≠ offsetOf address :=
        fun hoffset => heq (address_ext hsector hoffset)
      rw [if_pos hsector, Function.update_of_ne hoffset, image, if_pos (hsector.trans hframe.symm)]
    · rw [if_neg hsector, image, if_neg fun hit => hsector (hit.trans hframe)]

/-- Every sector read by `fsMemRead` can be fetched when its turn comes. -/
def CanRead (d : Device) (address : UInt32) : Nat → Prop
  | 0 => True
  | size + 1 => d.CanFetch (sectorOf address) ∧ CanRead (d.fsReadb address).2 (address + 1) size

/-- Every sector written by `fsMemWrite` can be fetched when its turn comes. -/
def CanWrite (d : Device) (address : UInt32) : List UInt8 → Prop
  | [] => True
  | byte :: source =>
      d.CanFetch (sectorOf address) ∧ CanWrite (d.fsWriteb address byte) (address + 1) source

theorem Coherent.memRead (h : d.Coherent) (address : UInt32) (size : Nat) :
    (d.fsMemRead address size).2.Coherent ∧ (d.fsMemRead address size).2.logical = d.logical ∧
      (d.CanRead address size → (d.fsMemRead address size).1 = d.image.read address size) := by
  induction size generalizing d address with
  | zero => exact ⟨h, rfl, fun _ => rfl⟩
  | succ size ih =>
      obtain ⟨hcoherent, hlogical, hbyte⟩ := h.readb address
      obtain ⟨hcoherent', hlogical', hbytes⟩ := ih hcoherent (address + 1)
      refine ⟨hcoherent', hlogical'.trans hlogical, fun hcan => ?_⟩
      simp only [fsMemRead, Mem.read, hbyte hcan.1, hbytes hcan.2, image_of_logical hlogical]

theorem Coherent.memWrite (h : d.Coherent) {address : UInt32} {source : List UInt8}
    (hcan : d.CanWrite address source) :
    (d.fsMemWrite address source).Coherent ∧ (d.fsMemWrite address source).logical =
      { d.logical with image := d.image.write address source } := by
  induction source generalizing d address with
  | nil => exact ⟨h, rfl⟩
  | cons byte source ih =>
      obtain ⟨hcoherent, hlogical⟩ := h.writeb hcan.1 byte
      obtain ⟨hcoherent', hlogical'⟩ := ih hcoherent hcan.2
      refine ⟨hcoherent', ?_⟩
      rw [fsMemWrite, hlogical', hlogical]
      rw [show (d.fsWriteb address byte).image = Function.update d.image address byte from
        congrArg Logical.image hlogical]
      rfl

theorem SectorIo.canRead (h : d.SectorIo) (hcoherent : d.Coherent) (address : UInt32)
    (size : Nat) : d.CanRead address size := by
  induction size generalizing d address with
  | zero => trivial
  | succ size ih =>
      obtain ⟨hcoherent', hlogical, -⟩ := hcoherent.readb address
      exact ⟨h.canFetch _,
        ih (h.of_wiring (wiring_of_logical (m := d.image) hlogical)) hcoherent' (address + 1)⟩

theorem SectorIo.canWrite (h : d.SectorIo) (hcoherent : d.Coherent) (address : UInt32)
    (source : List UInt8) : d.CanWrite address source := by
  induction source generalizing d address with
  | nil => trivial
  | cons byte source ih =>
      obtain ⟨hcoherent', hlogical⟩ := hcoherent.writeb (h.canFetch (sectorOf address)) byte
      exact ⟨h.canFetch _, ih (h.of_wiring (wiring_of_logical hlogical)) hcoherent' (address + 1)⟩

/-! ## A drive whose transfers succeed -/

theorem Sound.of_logical {d' : Device} {m : Mem} (h : d.Sound) (hcoherent : d'.Coherent)
    (hlogical : d'.logical = { d.logical with image := m }) : d'.Sound :=
  ⟨h.io.of_wiring (wiring_of_logical hlogical), hcoherent⟩

theorem Sound.readb (h : d.Sound) (address : UInt32) :
    (d.fsReadb address).1 = d.image address ∧ (d.fsReadb address).2.Sound ∧
      (d.fsReadb address).2.logical = d.logical := by
  obtain ⟨hcoherent, hlogical, hbyte⟩ := h.coherent.readb address
  exact ⟨hbyte (h.io.canFetch _), h.of_logical hcoherent (m := d.image) hlogical, hlogical⟩

theorem Sound.writeb (h : d.Sound) (address : UInt32) (byte : UInt8) :
    (d.fsWriteb address byte).Sound ∧ (d.fsWriteb address byte).logical =
      { d.logical with image := Function.update d.image address byte } := by
  obtain ⟨hcoherent, hlogical⟩ := h.coherent.writeb (h.io.canFetch (sectorOf address)) byte
  exact ⟨h.of_logical hcoherent hlogical, hlogical⟩

theorem Sound.memRead (h : d.Sound) (address : UInt32) (size : Nat) :
    (d.fsMemRead address size).1 = d.image.read address size ∧
      (d.fsMemRead address size).2.Sound ∧
      (d.fsMemRead address size).2.logical = d.logical := by
  obtain ⟨hcoherent, hlogical, hbytes⟩ := h.coherent.memRead address size
  exact ⟨hbytes (h.io.canRead h.coherent address size),
    h.of_logical hcoherent (m := d.image) hlogical, hlogical⟩

theorem Sound.memWrite (h : d.Sound) (address : UInt32) (source : List UInt8) :
    (d.fsMemWrite address source).Sound ∧ (d.fsMemWrite address source).logical =
      { d.logical with image := d.image.write address source } := by
  obtain ⟨hcoherent, hlogical⟩ :=
    h.coherent.memWrite (h.io.canWrite h.coherent address source)
  exact ⟨h.of_logical hcoherent hlogical, hlogical⟩

theorem Sound.memWrite_image (h : d.Sound) (address : UInt32) (source : List UInt8) :
    (d.fsMemWrite address source).image = d.image.write address source :=
  congrArg Logical.image (h.memWrite address source).2

theorem Sound.memWrite_geometry (h : d.Sound) (address : UInt32) (source : List UInt8) :
    (d.fsMemWrite address source).ctx.geometry = d.ctx.geometry :=
  congrArg Logical.geometry (h.memWrite address source).2

/-- Reading leaves a clean window clean. -/
theorem fsReadb_clean (hclean : d.ctx.sectorDirty = false) (address : UInt32) :
    (d.fsReadb address).2.ctx.sectorDirty = false := by
  have hevict : d.evict = (true, d) := by simp [Device.evict, hclean]
  have hfetch : ∀ target, (d.evictAndFetch target).2.ctx.sectorDirty = false := by
    intro target
    simp only [Device.evictAndFetch, hevict, if_true]
    split <;> exact hclean
  have hcache : (d.fsCacheFlushAndFetch (sectorOf address)).2.ctx.sectorDirty = false := by
    unfold fsCacheFlushAndFetch
    split
    next => exact hclean
    next =>
      split
      next => exact hfetch _
      next =>
        split
        next => exact hfetch _
        next => exact hclean
      all_goals exact hclean
  simp only [fsReadb]
  split <;> exact hcache

theorem fsMemRead_clean (hclean : d.ctx.sectorDirty = false) (address : UInt32) (size : Nat) :
    (d.fsMemRead address size).2.ctx.sectorDirty = false := by
  induction size generalizing d address with
  | zero => exact hclean
  | succ size ih => exact ih (fsReadb_clean hclean address) (address + 1)

/-- A write-back that succeeds puts the image on the disk. -/
theorem Coherent.cacheSync (h : d.Coherent)
    (hwrite : d.ctx.sectorDirty = true → d.drive.writeOk d.drive.writes = true) :
    d.fsCacheSync.Coherent ∧ d.fsCacheSync.logical = d.logical ∧
      (d.Attached → d.fsCacheSync.drive.byte = d.image) := by
  have hsync : d.syncSector = d.evict.2 := by
    unfold syncSector Device.evict
    split
    next hdirty =>
      have hok : (d.drive.writeSector d.ctx.sectorFrame d.window).1 = true := hwrite hdirty.1
      rw [if_pos hok]
    next => rfl
  obtain ⟨hcoherent, hlogical, -, hbyte⟩ := h.evict
  have hdisk := hbyte (evict_fst hwrite)
  unfold fsCacheSync
  cases htype : d.ctx.geometry.deviceType with
  | ata =>
      simp only [hsync]
      exact ⟨hcoherent, hlogical, fun _ => hdisk⟩
  | ahci =>
      simp only [hsync]
      split
      next => exact ⟨hcoherent, hlogical, fun _ => hdisk⟩
      next hport => exact ⟨h, rfl, fun hattached => by simp [Attached, htype, hport] at hattached⟩
  | eeprom | raw => exact ⟨h, rfl, fun hattached => by simp [Attached, htype] at hattached⟩

theorem Sound.cacheSync (h : d.Sound) :
    d.fsCacheSync.Sound ∧ d.fsCacheSync.logical = d.logical ∧
      d.fsCacheSync.drive.byte = d.image := by
  obtain ⟨hcoherent, hlogical, hbyte⟩ := h.coherent.cacheSync fun _ => h.io.writes _
  exact ⟨h.of_logical hcoherent (m := d.image) hlogical, hlogical, hbyte h.io.attached⟩

/-- `fsCacheFlush` leaves what `fsCacheSync` left, up to the drive's own flush. -/
theorem fsCacheFlush_cases (d : Device) :
    d.fsCacheFlush.2 = d.fsCacheSync ∨
      d.fsCacheFlush.2 = { d.fsCacheSync with drive := d.fsCacheSync.drive.flushCache.2 } := by
  simp only [fsCacheFlush]
  split
  next => exact .inl rfl
  next =>
    split
    next =>
      split
      next => exact .inr rfl
      next => exact .inl rfl
    all_goals exact .inl rfl

theorem Sound.cacheFlush (h : d.Sound) :
    d.fsCacheFlush.2.Sound ∧ d.fsCacheFlush.2.logical = d.logical ∧
      d.fsCacheFlush.2.drive.byte = d.image := by
  obtain ⟨hsound, hlogical, hbyte⟩ := h.cacheSync
  obtain heq | heq := fsCacheFlush_cases d
  · rw [heq]
    exact ⟨hsound, hlogical, hbyte⟩
  · rw [heq]
    exact ⟨⟨⟨hsound.io.attached, hsound.io.reads, hsound.io.writes⟩, hsound.coherent⟩,
      hlogical, hbyte⟩

end Device

/-! ## Access sequences -/

/-- The operations of `io.h` on one device context. -/
inductive CacheOp
  | readb (address : UInt32)
  | writeb (address : UInt32) (byte : UInt8)
  | memRead (address size : UInt32)
  | memWrite (address : UInt32) (source : List UInt8)
  | cacheSync
  | cacheFlush

namespace CacheOp

/-- The bytes an operation hands back, and the device after it. -/
def step (d : Device) : CacheOp → List UInt8 × Device
  | readb address => ([(d.fsReadb address).1], (d.fsReadb address).2)
  | writeb address byte => ([], d.fsWriteb address byte)
  | memRead address size => d.fsMemRead address size.toNat
  | memWrite address source => ([], d.fsMemWrite address source)
  | cacheSync => ([], d.fsCacheSync)
  | cacheFlush => ([], d.fsCacheFlush.2)

/-- The same operations on a plain array of bytes. -/
def apply (m : Mem) : CacheOp → List UInt8 × Mem
  | readb address => ([m address], m)
  | writeb address byte => ([], Function.update m address byte)
  | memRead address size => (m.read address size.toNat, m)
  | memWrite address source => ([], m.write address source)
  | cacheSync | cacheFlush => ([], m)

theorem step_simulates {d : Device} (h : d.Sound) (op : CacheOp) :
    (step d op).1 = (apply d.image op).1 ∧ (step d op).2.Sound ∧
      (step d op).2.image = (apply d.image op).2 := by
  cases op with
  | readb address =>
      obtain ⟨hbyte, hsound, hlogical⟩ := h.readb address
      exact ⟨congrArg ([·]) hbyte, hsound, congrArg Device.Logical.image hlogical⟩
  | writeb address byte =>
      obtain ⟨hsound, hlogical⟩ := h.writeb address byte
      exact ⟨rfl, hsound, congrArg Device.Logical.image hlogical⟩
  | memRead address size =>
      obtain ⟨hbytes, hsound, hlogical⟩ := h.memRead address size.toNat
      exact ⟨hbytes, hsound, congrArg Device.Logical.image hlogical⟩
  | memWrite address source =>
      obtain ⟨hsound, hlogical⟩ := h.memWrite address source
      exact ⟨rfl, hsound, congrArg Device.Logical.image hlogical⟩
  | cacheSync =>
      obtain ⟨hsound, hlogical, -⟩ := h.cacheSync
      exact ⟨rfl, hsound, congrArg Device.Logical.image hlogical⟩
  | cacheFlush =>
      obtain ⟨hsound, hlogical, -⟩ := h.cacheFlush
      exact ⟨rfl, hsound, congrArg Device.Logical.image hlogical⟩

end CacheOp

/-- Any sequence of accesses answers as the plain array of bytes that the device
shows at the start, which is its disk when nothing is pending; flushing then
puts that array on the disk. -/
theorem cacheRun_transparent (d : Device) (ops : List CacheOp) (h : d.Sound) :
    (d.ctx.sectorDirty = false → d.image = d.drive.byte) ∧
      ∃ answers d' m, Trace.run (Trace.total CacheOp.step) d ops = some (answers, d') ∧
        Trace.run (Trace.total CacheOp.apply) d.image ops = some (answers, m) ∧
        d'.image = m ∧ d'.fsCacheFlush.2.drive.byte = m := by
  refine ⟨h.coherent.image_eq, ?_⟩
  have hstep : ∀ (d : Device) (m : Mem) (op : CacheOp), (d.Sound ∧ d.image = m) → True →
      ∃ d', Trace.total CacheOp.step d op = some ((CacheOp.apply m op).1, d') ∧
        d'.Sound ∧ d'.image = (CacheOp.apply m op).2 := by
    rintro d m op ⟨hsound, rfl⟩ -
    obtain ⟨hanswer, hsound', himage⟩ := CacheOp.step_simulates hsound op
    exact ⟨(CacheOp.step d op).2, by rw [← hanswer]; rfl, hsound', himage⟩
  obtain ⟨answers, d', m, hrun, hspec, hsound, himage⟩ :=
    Trace.run_simulates hstep ⟨h, rfl⟩ (Trace.Permitted.of_forall (fun _ _ => trivial) d ops)
  exact ⟨answers, d', m, hrun, hspec, himage, hsound.cacheFlush.2.2.trans himage⟩

/-- A byte written across two sectors comes back and reaches the disk. -/
theorem cacheRun_transparent_example :
    ∃ d : Device, d.Sound ∧ ∃ answers d' m,
      Trace.run (Trace.total CacheOp.step) d [.memWrite 511 [1, 2], .memRead 511 2] =
        some (answers, d') ∧ answers = [[], [1, 2]] ∧
      d'.image = m ∧ d'.fsCacheFlush.2.drive.byte = m := by
  let drive : Drive := ⟨fun _ _ => 0, true, fun _ => true, fun _ => true, fun _ => true, 0, 0, 0⟩
  let d : Device :=
    ⟨⟨⟨true, .ata, 512, 4096, 8, 1, 1⟩, ⟨false, 0, fun _ => 0⟩, fsInvalidFrame, false⟩,
      fun _ => 0, drive⟩
  have h : d.Sound := by
    refine ⟨⟨.inl rfl, fun _ => rfl, fun _ => rfl⟩, ?_⟩
    intro _ address _
    rfl
  obtain ⟨-, answers, d', m, hrun, hspec, himage, hdisk⟩ :=
    cacheRun_transparent d [.memWrite 511 [1, 2], .memRead 511 2] h
  refine ⟨d, h, answers, d', m, hrun, ?_, himage, hdisk⟩
  have hanswers := congrArg (Option.map Prod.fst) hspec
  simpa [Trace.run, Trace.total, CacheOp.apply, Mem.read, Mem.write] using hanswers.symm

end AvrKernel.BaseFS

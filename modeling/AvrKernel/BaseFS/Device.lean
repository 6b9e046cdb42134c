import AvrKernel.BaseFS.Bitmap
import AvrKernel.Lib.FirstFit

/-!
# Devices

Opening, formatting and syncing a device, and its block allocator. An
allocation is a run of blocks whose first word holds the requested size.
-/

namespace AvrKernel.BaseFS

open Bytes

namespace FSGeometry

/-- The sizes `fs_device_open` computes from a partition header. -/
def ofPartition (deviceType : FSDeviceType) (partition : FSPartitionBlock) : FSGeometry :=
  let blockCount := partition.totalSize / partition.sectorSize
  let bitmapSize := (blockCount + 7) / 8
  let metaSize := 16 + 32 + bitmapSize
  { isOpen := true
    deviceType
    sectorSize := partition.sectorSize
    poolSize := partition.totalSize
    blockCount
    bitmapSize
    reservedBlocks := (metaSize + partition.sectorSize - 1) / partition.sectorSize }

/-- The blocks an allocation of `size` bytes takes with its header. -/
def blocksFor (g : FSGeometry) (size : UInt32) : UInt32 :=
  (4 + size + g.sectorSize - 1) / g.sectorSize

end FSGeometry

namespace Device

variable (d : Device)

/-! ## Opening -/

/-- A zeroed context on the sector buffer and drive of `d`. -/
def blank (deviceType : FSDeviceType) : Device :=
  { d with ctx :=
    { geometry :=
        { isOpen := false, deviceType, sectorSize := 0, poolSize := 0, blockCount := 0,
          bitmapSize := 0, reservedBlocks := 0 }
      frame := { dirty := false, offset := fsInvalidFrame, bitmap := fun _ => 0 }
      sectorFrame := fsInvalidFrame
      sectorDirty := false } }

/-- The status is 0 if the partition carries the magic byte. -/
def fsDeviceGetPartition : (UInt8 × FSPartitionBlock) × Device :=
  let bytes := d.fsMemRead 16 FSPartitionBlock.layout.size
  let part := FSPartitionBlock.layout.decode bytes.1
  ((if part.magic ≠ fsMagic then 1 else 0, part), bytes.2)

/-- The partition as read and the new context; `none` divides by zero. -/
def fsDeviceOpen (deviceType : FSDeviceType) : Option (FSPartitionBlock × Device) :=
  let result := (d.blank deviceType).fsDeviceGetPartition
  let part := result.1.2
  if result.1.1 ≠ 0 then some (part, result.2)
  else if part.sectorSize = 0 then none
  else some (part, { result.2 with
    ctx.geometry := .ofPartition deviceType part
    ctx.frame.dirty := false
    ctx.sectorDirty := false })

/-! ## Allocating -/

/-- The search of `fs_alloc`: `remaining` blocks from `i` on are left to look at. -/
def allocSearch (need : UInt32) : Nat → UInt32 → UInt32 → UInt32 → Device →
    Option UInt32 × Device
  | 0, _, _, _, d => (none, d)
  | remaining + 1, i, runStart, runLength, d =>
      let got := d.fsBitmapGet i
      if got.1 = false then
        let start := if runLength = 0 then i else runStart
        if need ≤ runLength + 1 then (some start, got.2)
        else allocSearch need remaining (i + 1) start (runLength + 1) got.2
      else allocSearch need remaining (i + 1) runStart 0 got.2

/-- Change the bits of `count` blocks from `i` on. -/
def forBlocks (change : UInt32 → Device → Device) : Nat → UInt32 → Device → Device
  | 0, _, d => d
  | count + 1, i, d => forBlocks change count (i + 1) (change i d)

def setBits : Nat → UInt32 → Device → Device :=
  forBlocks fun i d => d.fsBitmapSet i

def clearBits : Nat → UInt32 → Device → Device :=
  forBlocks fun i d => d.fsBitmapClear i

/-- The search through all blocks behind the reserved ones. -/
def findRun (need : UInt32) : Option UInt32 × Device :=
  allocSearch need (d.ctx.geometry.blockCount.toNat - d.ctx.geometry.reservedBlocks.toNat)
    d.ctx.geometry.reservedBlocks 0 0 d

def fsAlloc (size : UInt32) : UInt32 × Device :=
  let need := d.ctx.geometry.blocksFor size
  let found := d.findRun need
  match found.1 with
  | none => (fsNull, found.2)
  | some runStart =>
      let marked := (setBits need.toNat runStart found.2).fsBitmapFlush
      let addr := runStart * d.ctx.geometry.sectorSize
      (addr + 4, marked.fsMemWrite addr (FSAllocHeader.layout.encode ⟨size⟩))

def fsFree (address : UInt32) : Device :=
  if address = fsNull then d
  else
    let allocAddr := address - 4
    let bytes := d.fsMemRead allocAddr FSAllocHeader.layout.size
    let header := FSAllocHeader.layout.decode bytes.1
    let blocks := d.ctx.geometry.blocksFor header.size
    let startBlock := allocAddr / d.ctx.geometry.sectorSize
    let cleared := clearBits blocks.toNat startBlock bytes.2
    (cleared.fsMemWrite allocAddr (FSAllocHeader.layout.encode ⟨0⟩)).fsBitmapFlush

/-! ## Formatting and syncing -/

/-- The NUL-padded bytes of a character array. -/
def charArray (n : Nat) (text : List UInt8) : Vector UInt8 n :=
  Vector.ofFn fun i => text.getD i 0

def formatDeviceHeader : FSDeviceHeader :=
  ⟨0x13, charArray 10 [0x66, 0x73], charArray 5 []⟩

def formatPartition (capacity sectorSize : UInt32) : FSPartitionBlock :=
  { totalSize := capacity
    sectorSize
    rootDirectory := 0
    name := charArray 16 [0x73, 0x74, 0x6F, 0x72, 0x61, 0x67, 0x65]
    flags := 0
    type := 0
    reserved := 0
    magic := fsMagic }

/-- The device header, the partition and a zeroed bitmap. -/
def writeHeaders (capacity sectorSize bSize : UInt32) : Device :=
  ((d.fsMemWrite 0 (FSDeviceHeader.layout.encode formatDeviceHeader)).fsMemWrite 16
    (FSPartitionBlock.layout.encode (formatPartition capacity sectorSize))).fsMemWrite 48
      (List.replicate bSize.toNat 0)

/-- The drive and buffer after formatting; `none` divides by zero. -/
def fsDeviceFormat (capacity sectorSize : UInt32) (deviceType : FSDeviceType) : Option Device :=
  (d.fsDeviceOpen deviceType).bind fun opened =>
    if sectorSize = 0 then none
    else
      let bSize := (capacity / sectorSize + 7) / 8
      let metaSize := 16 + 32 + bSize
      let resBlocks := (metaSize + sectorSize - 1) / sectorSize
      let headed := opened.2.writeHeaders capacity sectorSize bSize
      (headed.fsCacheSync.fsDeviceOpen deviceType).map fun reopened =>
        (setBits resBlocks.toNat 0 reopened.2).fsBitmapFlush.fsCacheSync

def fsDeviceSync : Bool × Device :=
  let result := d.fsBitmapFlush.fsCacheFlush
  (result.1 && !result.2.ctx.frame.dirty && !result.2.ctx.sectorDirty, result.2)

end Device

end AvrKernel.BaseFS

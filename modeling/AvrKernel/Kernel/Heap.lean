import AvrKernel.Lib.Bytes
import AvrKernel.Lib.Program

/-!
# The kernel heap

`heap.c` of the x86 kernel as programs over the memory of the kernel. A block
of the heap is preceded by a header with its size and its flags; a bitmap at
the start of the heap tells which of its blocks are taken.
-/

namespace AvrKernel.Kernel

open Bytes Effect

def kmallocNull : UInt32 := 0xFFFFFFFF

def kmallocFlagMount : UInt8 := 0x02
def kmallocFlagDirectory : UInt8 := 0x04
def kmallocFlagExtent : UInt8 := 0x08

def kmallocPermissionRead : UInt8 := 0x02
def kmallocPermissionWrite : UInt8 := 0x04

def kmallocMagic : UInt8 := 0x55
def kmallocHeaderSize : UInt32 := 16

/-- The header is aligned to 16 bytes, of which it uses eight. -/
structure KMallocHeader where
  size : UInt32
  flags : UInt8
  type : UInt8
  perm : UInt8
  magic : UInt8
  padding : Vector UInt8 8
  deriving DecidableEq

def KMallocHeader.layout : Layout KMallocHeader :=
  (Layout.u32.pair (Layout.u8.pair (Layout.u8.pair (Layout.u8.pair (Layout.u8.pair
    (Layout.bytes 8)))))).iso
    (fun fields => ⟨fields.1, fields.2.1, fields.2.2.1, fields.2.2.2.1, fields.2.2.2.2.1,
      fields.2.2.2.2.2⟩)
    (fun header => (header.size, header.flags, header.type, header.perm, header.magic,
      header.padding)) fun _ => rfl

@[simp] theorem KMallocHeader.layout_size : KMallocHeader.layout.size = 16 := rfl

/-- The variables of `heap.c`. -/
structure KernelHeap where
  heapBegin : UInt32
  blockSize : UInt32
  poolSize : UInt32
  blockCount : UInt32
  bitmapSize : UInt32
  reservedBlocks : UInt32
  bitmap : UInt32
  dirty : UInt32
  deriving DecidableEq

/-- The memory of the kernel, its heap and the root of its directory tree. -/
structure KernelState where
  memory : Mem
  heap : KernelHeap
  root : UInt32

/-! ## Calls -/

inductive KernelCall
  | heap
  | root
  | memRead (source size : UInt32)
  | memWrite (destination : UInt32) (source : List UInt8)

/-- The answer to a call. -/
@[reducible] def KernelCall.Answer : KernelCall → Type
  | heap => KernelHeap
  | root => UInt32
  | memRead .. => List UInt8
  | memWrite .. => Unit

abbrev KernelM (α : Type) : Type := Prog KernelCall KernelCall.Answer α

def KernelState.handle : Prog.Handler KernelCall KernelCall.Answer KernelState
  | .heap, k => (k.heap, k)
  | .root, k => (k.root, k)
  | .memRead source size, k => (k.memory.read source size.toNat, k)
  | .memWrite destination source, k =>
      ((), { k with memory := k.memory.write destination source })

namespace KernelM

def heap : KernelM KernelHeap := Prog.perform KernelCall.heap

def kmemRead (source size : UInt32) : KernelM (List UInt8) :=
  Prog.perform (KernelCall.memRead source size)

def kmemWrite (destination : UInt32) (source : List UInt8) : KernelM Unit :=
  Prog.perform (KernelCall.memWrite destination source)

/-- Read a structure. -/
def readStruct {α : Type} (layout : Layout α) (source : UInt32) : KernelM α := do
  let bytes ← kmemRead source (.ofNat layout.size)
  return layout.decode bytes

/-- Write a structure. -/
def writeStruct {α : Type} (layout : Layout α) (destination : UInt32) (value : α) : KernelM Unit :=
  kmemWrite destination (layout.encode value)

/-! ## Blocks and headers -/

def kmallocHeapDataBegin (heap : KernelHeap) : UInt32 := heap.reservedBlocks * heap.blockSize

def kmallocBlocksRequired (heap : KernelHeap) (size : UInt32) : UInt32 :=
  if size = 0 then 0 else (size + (heap.blockSize - 1)) / heap.blockSize

/-- Addresses of headers count from the start of the heap. -/
def kmallocHeaderRead (address : UInt32) : KernelM KMallocHeader := do
  let heap ← heap
  readStruct KMallocHeader.layout (heap.heapBegin + address)

def kmallocHeaderWrite (address : UInt32) (header : KMallocHeader) : KernelM Unit := do
  let heap ← heap
  writeStruct KMallocHeader.layout (heap.heapBegin + address) header

/-- The header in front of a payload. -/
def headerOf (heap : KernelHeap) (address : UInt32) : UInt32 :=
  address - kmallocHeaderSize - heap.heapBegin

def kmallocIsValid (address : UInt32) : KernelM Bool :=
  if address = kmallocNull then return false
  else do
    let heap ← heap
    if address < heap.heapBegin + kmallocHeapDataBegin heap + kmallocHeaderSize then return false
    else if address ≥ heap.heapBegin + heap.poolSize then return false
    else if headerOf heap address < kmallocHeapDataBegin heap ∨
        address - kmallocHeaderSize ≥ heap.heapBegin + heap.poolSize then return false
    else do
      let header ← kmallocHeaderRead (headerOf heap address)
      if header.magic ≠ kmallocMagic ∨ header.size = 0 then return false
      else
        let requiredBlocks := kmallocBlocksRequired heap (header.size + kmallocHeaderSize)
        let startBlock := headerOf heap address / heap.blockSize
        if requiredBlocks = 0 ∨ startBlock < heap.reservedBlocks then return false
        else if startBlock + requiredBlocks > heap.blockCount then return false
        else return true

/-- A field of the header of a valid block, or 0. -/
def kmallocGet {α : Type} [OfNat α 0] (field : KMallocHeader → α) (address : UInt32) :
    KernelM α := do
  if ← kmallocIsValid address then do
    let heap ← heap
    let header ← kmallocHeaderRead (headerOf heap address)
    return field header
  else return 0

def kmallocGetFlags (address : UInt32) : KernelM UInt8 := kmallocGet KMallocHeader.flags address

def kmallocGetPermissions (address : UInt32) : KernelM UInt8 :=
  kmallocGet KMallocHeader.perm address

def kmallocGetSize (address : UInt32) : KernelM UInt32 := kmallocGet KMallocHeader.size address

/-- Change the header of a valid block. -/
def kmallocSet (change : KMallocHeader → KMallocHeader) (address : UInt32) : KernelM Unit := do
  if ← kmallocIsValid address then do
    let heap ← heap
    let header ← kmallocHeaderRead (headerOf heap address)
    kmallocHeaderWrite (headerOf heap address) (change header)
  else return ()

def kmallocSetFlags (address : UInt32) (flags : UInt8) : KernelM Unit :=
  kmallocSet (fun header => { header with flags }) address

def kmallocSetType (address : UInt32) (type : UInt8) : KernelM Unit :=
  kmallocSet (fun header => { header with type }) address

def kmallocSetPermissions (address : UInt32) (permissions : UInt8) : KernelM Unit :=
  kmallocSet (fun header => { header with perm := permissions }) address

/-! ## Allocating -/

def readByte (source : UInt32) : KernelM UInt8 := readStruct Layout.u8 source

def writeByte (destination : UInt32) (value : UInt8) : KernelM Unit :=
  writeStruct Layout.u8 destination value

/-- The mask of a block's bit in its bitmap byte. -/
def blockMask (blockIndex : UInt32) : UInt8 := 1 <<< (blockIndex % 8).toUInt8

def kmallocBlockIsUsed (heap : KernelHeap) (blockIndex : UInt32) : KernelM Bool := do
  let byte ← readByte (heap.bitmap + blockIndex / 8)
  return byte &&& blockMask blockIndex != 0

def kmallocBitmapMarkDirty (heap : KernelHeap) (byteIndex : UInt32) : KernelM Unit :=
  if heap.dirty ≠ 0 then writeByte (heap.dirty + byteIndex) 1 else return ()

/-- Replace the bitmap byte that holds a block's bit. -/
def kmallocBlockSet (change : UInt8 → UInt8) (heap : KernelHeap) (blockIndex : UInt32) :
    KernelM Unit := do
  let oldValue ← readByte (heap.bitmap + blockIndex / 8)
  if change oldValue ≠ oldValue then do
    writeByte (heap.bitmap + blockIndex / 8) (change oldValue)
    kmallocBitmapMarkDirty heap (blockIndex / 8)
  else return ()

def kmallocBlockSetUsed (heap : KernelHeap) (blockIndex : UInt32) : KernelM Unit :=
  kmallocBlockSet (fun byte => byte ||| blockMask blockIndex) heap blockIndex

def kmallocBlockSetFree (heap : KernelHeap) (blockIndex : UInt32) : KernelM Unit :=
  kmallocBlockSet (fun byte => byte &&& ~~~blockMask blockIndex) heap blockIndex

/-- Visit `count` indices from `index` on. -/
def forIndices (visit : UInt32 → KernelM Unit) : Nat → UInt32 → KernelM Unit
  | 0, _ => return ()
  | count + 1, index => do
      visit index
      forIndices visit count (index + 1)

/-- Copy a changed byte of the bitmap to the start of the heap. -/
def writeBackByte (heap : KernelHeap) (index : UInt32) : KernelM Unit := do
  let changed ← readByte (heap.dirty + index)
  if changed = 0 then return ()
  else do
    let byte ← readByte (heap.bitmap + index)
    writeByte (heap.heapBegin + index) byte
    writeByte (heap.dirty + index) 0

def kmallocBitmapWrite (heap : KernelHeap) : KernelM Unit :=
  if heap.bitmap = 0 then return ()
  else if heap.dirty = 0 then do
    let bytes ← kmemRead heap.bitmap heap.bitmapSize
    kmemWrite heap.heapBegin bytes
  else forIndices (writeBackByte heap) heap.bitmapSize.toNat 0

/-- The search of `kmalloc`: `remaining` blocks from `currentBlock` on are left to look at. -/
def findBlocks (heap : KernelHeap) (requiredBlocks : UInt32) :
    Nat → UInt32 → UInt32 → UInt32 → KernelM (Option UInt32)
  | 0, _, _, _ => return none
  | remaining + 1, currentBlock, foundBlocks, startBlock => do
      if ← kmallocBlockIsUsed heap currentBlock then
        findBlocks heap requiredBlocks remaining (currentBlock + 1) 0 startBlock
      else
        let start := if foundBlocks = 0 then currentBlock else startBlock
        if foundBlocks + 1 ≥ requiredBlocks then return some start
        else findBlocks heap requiredBlocks remaining (currentBlock + 1) (foundBlocks + 1) start

/-- Running out of memory crashes the kernel. -/
def kmalloc (size : UInt32) : KernelM UInt32 :=
  if size = 0 then return kmallocNull
  else do
    let heap ← heap
    if heap.blockSize = 0 ∨ heap.poolSize = 0 ∨ heap.bitmap = 0 then return kmallocNull
    else
      let requiredBlocks := kmallocBlocksRequired heap (size + kmallocHeaderSize)
      if requiredBlocks = 0 ∨ requiredBlocks > heap.blockCount - heap.reservedBlocks then
        return kmallocNull
      else do
        match ← findBlocks heap requiredBlocks
          (heap.blockCount.toNat - heap.reservedBlocks.toNat) heap.reservedBlocks 0 0 with
        | none => Prog.halt
        | some startBlock => do
            forIndices (kmallocBlockSetUsed heap) requiredBlocks.toNat startBlock
            kmallocHeaderWrite (startBlock * heap.blockSize)
              { size, flags := 0, type := 0, perm := 0, magic := kmallocMagic
                padding := Vector.replicate 8 0 }
            kmallocBitmapWrite heap
            return heap.heapBegin + startBlock * heap.blockSize + kmallocHeaderSize

def kfree (address : UInt32) : KernelM Unit := do
  if ← kmallocIsValid address then do
    let heap ← heap
    let header ← kmallocHeaderRead (headerOf heap address)
    let requiredBlocks := kmallocBlocksRequired heap (header.size + kmallocHeaderSize)
    let startBlock := headerOf heap address / heap.blockSize
    if startBlock < heap.reservedBlocks ∨ startBlock + requiredBlocks > heap.blockCount then
      return ()
    else do
      kmallocHeaderWrite (headerOf heap address)
        { size := 0, flags := 0, type := 0, perm := 0, magic := 0, padding := Vector.replicate 8 0 }
      forIndices (kmallocBlockSetFree heap) requiredBlocks.toNat startBlock
      kmallocBitmapWrite heap
  else return ()

/-! ## Enumerating -/

/-- The search of `kmalloc_next`: `remaining` blocks from `currentBlock` on are left to look at. -/
def nextHeader (heap : KernelHeap) : Nat → UInt32 → KernelM UInt32
  | 0, _ => return kmallocNull
  | remaining + 1, currentBlock => do
      if ← kmallocBlockIsUsed heap currentBlock then
        if currentBlock * heap.blockSize < kmallocHeapDataBegin heap then
          nextHeader heap remaining (currentBlock + 1)
        else do
          let header ← kmallocHeaderRead (currentBlock * heap.blockSize)
          if header.magic ≠ kmallocMagic ∨ header.size = 0 then
            nextHeader heap remaining (currentBlock + 1)
          else if currentBlock * heap.blockSize + kmallocHeaderSize ≥ heap.poolSize then
            nextHeader heap remaining (currentBlock + 1)
          else return heap.heapBegin + currentBlock * heap.blockSize + kmallocHeaderSize
      else nextHeader heap remaining (currentBlock + 1)

def kmallocNext (previousAddress : UInt32) : KernelM UInt32 := do
  let heap ← heap
  if previousAddress = kmallocNull then
    nextHeader heap (heap.blockCount.toNat - heap.reservedBlocks.toNat) heap.reservedBlocks
  else if ← kmallocIsValid previousAddress then do
    let header ← kmallocHeaderRead (headerOf heap previousAddress)
    let startBlock := headerOf heap previousAddress / heap.blockSize +
      kmallocBlocksRequired heap (header.size + kmallocHeaderSize)
    nextHeader heap (heap.blockCount.toNat - startBlock.toNat) startBlock
  else return kmallocNull

end KernelM

end AvrKernel.Kernel

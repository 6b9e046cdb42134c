import AvrKernel.BaseFS.HeapRun
import AvrKernel.Vfs.State

/-!
# Mounted devices

How a formatted device gets its root directory, and how a mounted one looks in the
memory of the kernel.
-/

namespace AvrKernel

open BaseFS Kernel Effect

namespace BaseFS.FS

/-- The root directory that the format command makes, and the partition that points to it. -/
def createRoot (partition : FSPartitionBlock) : FS UInt32 := do
  let rootDirectory ← fsDirectoryCreate [0x72, 0x6F, 0x6F, 0x74]
    (fsPermissionRead ||| fsPermissionWrite) fsNull
  writeStruct FSPartitionBlock.layout 16 { partition with rootDirectory }
  return rootDirectory

end BaseFS.FS

/-- Format a device and open it with its root directory. -/
def BaseFS.Device.formatCommand (n : Nat) (d : Device) (capacity sectorSize : UInt32)
    (deviceType : FSDeviceType) : Option Device := do
  let formatted ← d.fsDeviceFormat capacity sectorSize deviceType
  let (partition, opened) ← formatted.fsDeviceOpen deviceType
  let (_, rooted) ← (FS.createRoot partition).run n Device.handle opened
  return rooted.fsBitmapFlush.fsCacheSync

/-- Put a block with its header into the memory of the kernel. -/
def Kernel.KernelState.placeBlock (address : UInt32) (flags perm : UInt8) (payload : List UInt8)
    (k : KernelState) : KernelState :=
  let header : KMallocHeader :=
    { size := .ofNat payload.length, flags, type := 0, perm, magic := kmallocMagic
      padding := Vector.replicate 8 0 }
  { k with
    memory := (k.memory.write (address - kmallocHeaderSize)
      (KMallocHeader.layout.encode header)).write
      address payload }

namespace Vfs

/-- A node with up to six references. -/
def smallNode (name : List UInt8) (parent : UInt32) (refs : List UInt32) : List UInt8 :=
  KernelDirectory.layout.encode
    { name := KernelM.nameField name, parent, next := 0, prev := 0, size := .ofNat refs.length
      reference := Vector.ofFn fun i => refs.getD i 0 }

/-- A full heap of 512 bytes with the nodes `/`, `/mnt` and, as a mount, `/mnt/ata0`, and a
block of 24 bytes as `/f`. -/
def smallKernel : KernelState :=
  let mounts := kmallocFlagDirectory ||| kmallocFlagMount
  let perm := kmallocPermissionRead ||| kmallocPermissionWrite
  let bitmap := Bytes.Mem.write (fun _ => 0) 0x100000 (List.replicate 4 0xFF)
  ((((KernelState.mk bitmap ⟨0x100000, 16, 512, 32, 4, 1, 0x100000, 0x100004⟩ 0x100020).placeBlock
    0x100020 kmallocFlagDirectory perm (smallNode [] 0 [0x100070, 0x100110])).placeBlock
    0x100070 kmallocFlagDirectory kmallocPermissionRead
      (smallNode [0x6D, 0x6E, 0x74] 0x100020 [0x1000C0])).placeBlock
    0x1000C0 mounts perm (smallNode [0x61, 0x74, 0x61, 0x30] 0x100070 [0x4000, 0x5000])).placeBlock
    0x100110 0 perm (0x66 :: List.replicate 23 0)

/-- A block with its header in the memory of the kernel. -/
def overlayBlock (address : UInt32) (flags perm : UInt8) (payload : List UInt8) (m : Bytes.Mem) :
    Bytes.Mem :=
  let header : KMallocHeader :=
    { size := .ofNat payload.length, flags, type := 0, perm, magic := kmallocMagic
      padding := Vector.replicate 8 0 }
  (m.overlay (address - kmallocHeaderSize) (KMallocHeader.layout.encode header)).overlay
    address payload

theorem placeBlock_eq {address : UInt32} {flags perm : UInt8} {payload : List UInt8}
    {k : KernelState} (hlen : payload.length ≤ 2 ^ 32) :
    k.placeBlock address flags perm payload =
      { k with memory := overlayBlock address flags perm payload k.memory } := by
  rw [Kernel.KernelState.placeBlock, overlayBlock, Bytes.Mem.write_eq_overlay _ _ hlen,
    Bytes.Mem.write_eq_overlay _ _ (by rw [KMallocHeader.layout.encode_length]; decide)]

/-- The small kernel, with a memory whose bytes are looked up in its blocks. -/
def overlaidKernel : KernelState :=
  let mounts := kmallocFlagDirectory ||| kmallocFlagMount
  let perm := kmallocPermissionRead ||| kmallocPermissionWrite
  let bitmap := Bytes.Mem.overlay (fun _ => 0) 0x100000 (List.replicate 4 0xFF)
  let root := overlayBlock 0x100020 kmallocFlagDirectory perm
    (smallNode [] 0 [0x100070, 0x100110]) bitmap
  let mnt := overlayBlock 0x100070 kmallocFlagDirectory kmallocPermissionRead
    (smallNode [0x6D, 0x6E, 0x74] 0x100020 [0x1000C0]) root
  let ata := overlayBlock 0x1000C0 mounts perm
    (smallNode [0x61, 0x74, 0x61, 0x30] 0x100070 [0x4000, 0x5000]) mnt
  ⟨overlayBlock 0x100110 0 perm (0x66 :: List.replicate 23 0) ata,
    ⟨0x100000, 16, 512, 32, 4, 1, 0x100000, 0x100004⟩, 0x100020⟩

theorem smallKernel_eq : smallKernel = overlaidKernel := by
  have hnode : ∀ name parent refs, (smallNode name parent refs).length ≤ 2 ^ 32 := fun _ _ _ => by
    rw [smallNode, KernelDirectory.layout.encode_length]
    decide
  rw [smallKernel, overlaidKernel, placeBlock_eq (by decide), placeBlock_eq (hnode _ _ _),
    placeBlock_eq (hnode _ _ _), placeBlock_eq (hnode _ _ _),
    Bytes.Mem.write_eq_overlay _ _ (by decide)]

/-- An empty device of 4096 bytes at `/mnt/ata0`. -/
def VfsState.mounted (n : Nat) : Option VfsState := do
  let d ← zeroDevice.formatCommand n 4096 64 .ata
  return { kernel := smallKernel, devices := fun _ => d, openFiles := ⟨[], 1⟩
           mallocOk := fun _ => true, mallocs := 0 }

theorem VfsState.mounted_eq (n : Nat) :
    VfsState.mounted n = (do
      let d ← zeroDevice.formatCommand n 4096 64 .ata
      return { kernel := overlaidKernel, devices := fun _ => d, openFiles := ⟨[], 1⟩
               mallocOk := fun _ => true, mallocs := 0 }) := by
  rw [mounted, smallKernel_eq]

theorem VfsState.mounted_openFiles {n : Nat} {s : VfsState} (h : VfsState.mounted n = some s) :
    s.openFiles.files = [] := by
  simp only [mounted, Option.bind_eq_bind, Option.bind_eq_some_iff] at h
  obtain ⟨d, -, h⟩ := h
  cases h
  rfl

def VfsState.small : VfsState where
  kernel := smallKernel
  devices := fun _ => zeroDevice.blank .ata
  openFiles := ⟨[], 1⟩
  mallocOk := fun _ => true
  mallocs := 0

theorem VfsState.small_eq : VfsState.small =
    { kernel := overlaidKernel, devices := fun _ => zeroDevice.blank .ata, openFiles := ⟨[], 1⟩
      mallocOk := fun _ => true, mallocs := 0 } := by
  rw [small, smallKernel_eq]

/-- Make a root directory, the directory `d`, the file `f` of 128 bytes and the empty file `d/g`
on a formatted device. -/
def stockVolume (partition : FSPartitionBlock) : FS Unit := do
  let permissions := fsPermissionRead ||| fsPermissionWrite
  let root ← FS.createRoot partition
  let d ← FS.fsDirectoryCreate [0x64] permissions root
  let _f ← FS.fsFileCreate [0x66] permissions 128 root
  let _g ← FS.fsFileCreate [0x67] permissions 0 d
  return ()

def stockedHeap : Option Heap := do
  let fresh ← freshDevice 4096 64
  let made ← (stockVolume (Device.formatPartition 4096 64)).run 16 Heap.handle ⟨fresh, []⟩
  return made.2

/-- The small kernel with this volume at `/mnt/ata0`. -/
def VfsState.stocked : Option VfsState :=
  stockedHeap.map fun h => { VfsState.small with devices := fun _ => h.device }

theorem VfsState.stocked_eq : VfsState.stocked = stockedHeap.map fun h =>
    { kernel := overlaidKernel, devices := fun _ => h.device, openFiles := ⟨[], 1⟩
      mallocOk := fun _ => true, mallocs := 0 } := by
  rw [stocked, small, smallKernel_eq]

/-- `/mnt/ata0/d/.././d/g`. -/
def stockedPath : List UInt8 :=
  [0x2F, 0x6D, 0x6E, 0x74, 0x2F, 0x61, 0x74, 0x61, 0x30, 0x2F, 0x64, 0x2F, 0x2E, 0x2E, 0x2F, 0x2E,
    0x2F, 0x64, 0x2F, 0x67]

end Vfs

end AvrKernel

import AvrKernel.BaseFS.Directory
import AvrKernel.Kernel.Knode

/-!
# The state of the virtual file system

The VFS works on kernel nodes, on the devices mounted at some of them, and on
its table of open files. Its lock makes each of its operations one step.
-/

namespace AvrKernel.Vfs

open BaseFS Kernel Effect

def vfsInvalidFile : UInt32 := 0
def vfsNameMax : Nat := 15

def vfsOpenRead : UInt16 := 0x01
def vfsOpenWrite : UInt16 := 0x02
def vfsOpenCreate : UInt16 := 0x04

def vfsPermissionExecute : UInt8 := 0x01
def vfsPermissionRead : UInt8 := 0x02
def vfsPermissionWrite : UInt8 := 0x04

/-- `ctx` is the address of a device context, 0 for a kernel node. -/
structure OpenFileDescriptor where
  id : UInt32
  address : UInt32
  inFileSystem : Bool
  offset : UInt32
  handle : FileHandle
  flags : UInt16
  ctx : UInt32
  deriving DecidableEq

structure OpenFiles where
  files : List OpenFileDescriptor
  nextUniqueId : UInt32
  deriving DecidableEq

/-- `devices` are the devices by the addresses of their contexts; `mallocOk` tells which
allocations of descriptors and list nodes succeed. -/
structure VfsState where
  kernel : KernelState
  devices : UInt32 → Device
  openFiles : OpenFiles
  mallocOk : Nat → Bool
  mallocs : Nat

inductive VfsCall
  | kernel (e : KernelCall)
  | device (ctx : UInt32) (e : FSCall)
  | deviceSync (ctx : UInt32)
  | malloc
  | openFiles
  | setOpenFiles (table : OpenFiles)

/-- The answer to a call. -/
@[reducible] def VfsCall.Answer : VfsCall → Type
  | kernel e => e.Answer
  | device _ e => e.Answer
  | deviceSync _ => Bool
  | malloc => Bool
  | openFiles => OpenFiles
  | setOpenFiles _ => Unit

abbrev VfsM (α : Type) : Type := Prog VfsCall VfsCall.Answer α

namespace VfsState

def setKernel (k : KernelState) (s : VfsState) : VfsState := { s with kernel := k }

def setDevice (ctx : UInt32) (d : Device) (s : VfsState) : VfsState :=
  { s with devices := Function.update s.devices ctx d }

def handle : Prog.Handler VfsCall VfsCall.Answer VfsState
  | .kernel e, s => ((s.kernel.handle e).1, s.setKernel (s.kernel.handle e).2)
  | .device ctx e, s =>
      (((s.devices ctx).handle e).1, s.setDevice ctx ((s.devices ctx).handle e).2)
  | .deviceSync ctx, s => ((s.devices ctx).fsDeviceSync.1,
      s.setDevice ctx (s.devices ctx).fsDeviceSync.2)
  | .malloc, s => (s.mallocOk s.mallocs, { s with mallocs := s.mallocs + 1 })
  | .openFiles, s => (s.openFiles, s)
  | .setOpenFiles table, s => ((), { s with openFiles := table })

end VfsState

namespace VfsM

/-- A program of the kernel. -/
def kernel {α : Type} (p : KernelM α) : VfsM α := p.embed VfsCall.kernel fun _ answer => answer

/-- A program on the device with a context. -/
def device {α : Type} (ctx : UInt32) (p : FS α) : VfsM α :=
  p.embed (VfsCall.device ctx) fun _ answer => answer

def deviceSync (ctx : UInt32) : VfsM Bool := Prog.perform (VfsCall.deviceSync ctx)

/-- Whether an allocation succeeds. -/
def malloc : VfsM Bool := Prog.perform VfsCall.malloc

def openFiles : VfsM OpenFiles := Prog.perform VfsCall.openFiles

def setOpenFiles (table : OpenFiles) : VfsM Unit := Prog.perform (VfsCall.setOpenFiles table)

end VfsM

end AvrKernel.Vfs

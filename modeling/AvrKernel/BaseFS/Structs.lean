import AvrKernel.Lib.Bytes

/-!
# On-disk structures of basefs

The packed structures of `structs.h` with their byte layouts, and the constants
of `fs.h`, `config.h` and `flags.h`.
-/

namespace AvrKernel.BaseFS

open Bytes

def fsMagic : UInt8 := 0xAA
def fsNull : UInt32 := 0xFFFFFFFF
def fsInvalidFrame : UInt32 := 0xFFFFFFFF
def fsNameLengthMax : Nat := 16
def bitmapFrameSize : UInt32 := 32

def fsFileModeRead : UInt8 := 0x01
def fsFileModeWrite : UInt8 := 0x02
def fsFileModeAppend : UInt8 := 0x04

def fsPermissionRead : UInt8 := 0x02
def fsPermissionWrite : UInt8 := 0x04

def fsAttributeDirectory : UInt8 := 0x02

/-- Whether `flags` has a bit of `mask`. -/
def hasFlag (flags mask : UInt8) : Bool := flags &&& mask != 0

structure FSDeviceHeader where
  id : UInt8
  name : Vector UInt8 10
  pad : Vector UInt8 5
  deriving DecidableEq

structure FSPartitionBlock where
  totalSize : UInt32
  sectorSize : UInt32
  rootDirectory : UInt32
  name : Vector UInt8 16
  flags : UInt8
  type : UInt8
  reserved : UInt8
  magic : UInt8
  deriving DecidableEq

structure FSAllocHeader where
  size : UInt32
  deriving DecidableEq

structure FSExtent where
  next : UInt32
  prev : UInt32
  deriving DecidableEq

structure FSBlockHeader where
  name : Vector UInt8 16
  attributes : UInt8
  permissions : UInt8
  padding : Vector UInt8 6
  security : UInt32
  certificate : UInt32
  deriving DecidableEq

structure FSFileHeader where
  block : FSBlockHeader
  totalLogicalSize : UInt32
  extent : FSExtent
  deriving DecidableEq

structure FSFileExtent where
  extent : FSExtent
  extentDataSize : UInt32
  deriving DecidableEq

structure FSDirectoryHeader where
  block : FSBlockHeader
  parent : UInt32
  extent : FSExtent
  referenceCount : UInt32
  deriving DecidableEq

structure FSDirectoryExtent where
  extent : FSExtent
  referenceCount : UInt32
  deriving DecidableEq

/-! ## Layouts -/

def FSDeviceHeader.layout : Layout FSDeviceHeader :=
  (Layout.u8.pair ((Layout.bytes 10).pair (Layout.bytes 5))).iso
    (fun fields => ⟨fields.1, fields.2.1, fields.2.2⟩)
    (fun header => (header.id, header.name, header.pad)) fun _ => rfl

def FSPartitionBlock.layout : Layout FSPartitionBlock :=
  (Layout.u32.pair (Layout.u32.pair (Layout.u32.pair ((Layout.bytes 16).pair
    (Layout.u8.pair (Layout.u8.pair (Layout.u8.pair Layout.u8))))))).iso
    (fun fields => ⟨fields.1, fields.2.1, fields.2.2.1, fields.2.2.2.1, fields.2.2.2.2.1,
      fields.2.2.2.2.2.1, fields.2.2.2.2.2.2.1, fields.2.2.2.2.2.2.2⟩)
    (fun part => (part.totalSize, part.sectorSize, part.rootDirectory, part.name, part.flags,
      part.type, part.reserved, part.magic)) fun _ => rfl

def FSAllocHeader.layout : Layout FSAllocHeader :=
  Layout.u32.iso (fun size => ⟨size⟩) (fun header => header.size) fun _ => rfl

def FSExtent.layout : Layout FSExtent :=
  (Layout.u32.pair Layout.u32).iso (fun fields => ⟨fields.1, fields.2⟩)
    (fun extent => (extent.next, extent.prev)) fun _ => rfl

def FSBlockHeader.layout : Layout FSBlockHeader :=
  ((Layout.bytes 16).pair (Layout.u8.pair (Layout.u8.pair ((Layout.bytes 6).pair
    (Layout.u32.pair Layout.u32))))).iso
    (fun fields => ⟨fields.1, fields.2.1, fields.2.2.1, fields.2.2.2.1, fields.2.2.2.2.1,
      fields.2.2.2.2.2⟩)
    (fun block => (block.name, block.attributes, block.permissions, block.padding,
      block.security, block.certificate)) fun _ => rfl

def FSFileHeader.layout : Layout FSFileHeader :=
  (FSBlockHeader.layout.pair (Layout.u32.pair FSExtent.layout)).iso
    (fun fields => ⟨fields.1, fields.2.1, fields.2.2⟩)
    (fun file => (file.block, file.totalLogicalSize, file.extent)) fun _ => rfl

def FSFileExtent.layout : Layout FSFileExtent :=
  (FSExtent.layout.pair Layout.u32).iso (fun fields => ⟨fields.1, fields.2⟩)
    (fun extent => (extent.extent, extent.extentDataSize)) fun _ => rfl

def FSDirectoryHeader.layout : Layout FSDirectoryHeader :=
  (FSBlockHeader.layout.pair (Layout.u32.pair (FSExtent.layout.pair Layout.u32))).iso
    (fun fields => ⟨fields.1, fields.2.1, fields.2.2.1, fields.2.2.2⟩)
    (fun directory => (directory.block, directory.parent, directory.extent,
      directory.referenceCount)) fun _ => rfl

def FSDirectoryExtent.layout : Layout FSDirectoryExtent :=
  (FSExtent.layout.pair Layout.u32).iso (fun fields => ⟨fields.1, fields.2⟩)
    (fun extent => (extent.extent, extent.referenceCount)) fun _ => rfl

@[simp] theorem FSDeviceHeader.layout_size : FSDeviceHeader.layout.size = 16 := rfl
@[simp] theorem FSPartitionBlock.layout_size : FSPartitionBlock.layout.size = 32 := rfl
@[simp] theorem FSAllocHeader.layout_size : FSAllocHeader.layout.size = 4 := rfl
@[simp] theorem FSBlockHeader.layout_size : FSBlockHeader.layout.size = 32 := rfl
@[simp] theorem FSFileHeader.layout_size : FSFileHeader.layout.size = 44 := rfl
@[simp] theorem FSFileExtent.layout_size : FSFileExtent.layout.size = 12 := rfl
@[simp] theorem FSDirectoryHeader.layout_size : FSDirectoryHeader.layout.size = 48 := rfl
@[simp] theorem FSDirectoryExtent.layout_size : FSDirectoryExtent.layout.size = 12 := rfl

end AvrKernel.BaseFS

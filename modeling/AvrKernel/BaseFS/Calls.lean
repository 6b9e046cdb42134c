import AvrKernel.BaseFS.Device
import AvrKernel.Lib.Program

/-!
# Calls on a device

The code of files and directories reaches the device through a few functions and
the sizes in its context. Its programs are trees of these calls.
-/

namespace AvrKernel.BaseFS

open Bytes Effect

inductive FSCall
  | geometry
  | memRead (address size : UInt32)
  | memWrite (address : UInt32) (source : List UInt8)
  | alloc (size : UInt32)
  | free (address : UInt32)

/-- The answer to a call. -/
@[reducible] def FSCall.Answer : FSCall → Type
  | geometry => FSGeometry
  | memRead .. => List UInt8
  | memWrite .. => Unit
  | alloc _ => UInt32
  | free _ => Unit

abbrev FS (α : Type) : Type := Prog FSCall FSCall.Answer α

/-- Calls are carried out by the functions of the device. -/
def Device.handle : Prog.Handler FSCall FSCall.Answer Device
  | .geometry, d => (d.ctx.geometry, d)
  | .memRead address size, d => d.fsMemRead address size.toNat
  | .memWrite address source, d => ((), d.fsMemWrite address source)
  | .alloc size, d => d.fsAlloc size
  | .free address, d => ((), d.fsFree address)

namespace FS

/-- The fields of the device context. -/
def context : FS FSGeometry := Prog.perform FSCall.geometry

def memRead (address size : UInt32) : FS (List UInt8) := Prog.perform (FSCall.memRead address size)

def memWrite (address : UInt32) (source : List UInt8) : FS Unit :=
  Prog.perform (FSCall.memWrite address source)

def alloc (size : UInt32) : FS UInt32 := Prog.perform (FSCall.alloc size)

def free (address : UInt32) : FS Unit := Prog.perform (FSCall.free address)

/-- Read a packed structure. -/
def readStruct {α : Type} (layout : Layout α) (address : UInt32) : FS α := do
  let bytes ← memRead address (.ofNat layout.size)
  return layout.decode bytes

/-- Write a packed structure. -/
def writeStruct {α : Type} (layout : Layout α) (address : UInt32) (value : α) : FS Unit :=
  memWrite address (layout.encode value)

def readWord (address : UInt32) : FS UInt32 := readStruct Layout.u32 address

def writeWord (address value : UInt32) : FS Unit := writeStruct Layout.u32 address value

def fsDeviceGetPartition : FS (UInt8 × FSPartitionBlock) := do
  let part ← readStruct FSPartitionBlock.layout 16
  return (if part.magic ≠ fsMagic then 1 else 0, part)

end FS

end AvrKernel.BaseFS

import AvrKernel.Lib.Bytes

/-!
# Registers of the X4 processor

`x4.h`. Instructions name registers by their place in the packed structure, of which
the words have four places each. There is nothing of the processor behind the last one.
-/

namespace AvrKernel.X4

open Bytes

def x4emmFlagInterrupt : UInt8 := 0x01
def x4emmFlagZero : UInt8 := 0x02
def x4emmFlagCmpEqual : UInt8 := 0x04
def x4emmFlagCmpGreater : UInt8 := 0x08
def x4emmFlagCmpLess : UInt8 := 0x10
def x4emmFlagConsoleDirty : UInt8 := 0x20

structure X4CpuRegisters where
  al : UInt8
  ah : UInt8
  bl : UInt8
  bh : UInt8
  cl : UInt8
  ch : UInt8
  dl : UInt8
  dh : UInt8
  ep : UInt32
  bp : UInt32
  sp : UInt32
  state : UInt8
  cs : UInt32
  ds : UInt32
  ss : UInt32
  deriving DecidableEq

/-- What an instruction does not come back from. -/
inductive Trap
  /-- The byte of the host at this place of the registers is none of them. -/
  | outside (place : Nat)
  | divideByZero
  /-- Text without an end is printed forever. -/
  | endless
  deriving DecidableEq

/-- The byte of a word at a place. -/
def byteOf (word : UInt32) (place : Nat) : UInt8 := (Layout.u32.encode word).getD place 0

/-- A word with another byte at a place. -/
def withByteOf (word : UInt32) (place : Nat) (byte : UInt8) : UInt32 :=
  Layout.u32.decode ((Layout.u32.encode word).set place byte)

/-- `get_pointer_from_bytes` -/
def getPointerFromBytes (byte0 byte1 byte2 byte3 : UInt8) : UInt32 :=
  Layout.u32.decode [byte0, byte1, byte2, byte3]

/-- `x4_pointer_from_low16` -/
def x4PointerFromLow16 (low high : UInt8) : UInt32 := low.toUInt32 ||| high.toUInt32 <<< 8

namespace X4CpuRegisters

def size : Nat := 33

variable (r : X4CpuRegisters)

/-- The byte registers at the start. -/
def general : Nat → UInt8
  | 0 => r.al
  | 1 => r.ah
  | 2 => r.bl
  | 3 => r.bh
  | 4 => r.cl
  | 5 => r.ch
  | 6 => r.dl
  | _ => r.dh

def setGeneral (byte : UInt8) : Nat → X4CpuRegisters
  | 0 => { r with al := byte }
  | 1 => { r with ah := byte }
  | 2 => { r with bl := byte }
  | 3 => { r with bh := byte }
  | 4 => { r with cl := byte }
  | 5 => { r with ch := byte }
  | 6 => { r with dl := byte }
  | _ => { r with dh := byte }

/-- `((uint8_t*)&cache)[place]` -/
def get (place : Nat) : Except Trap UInt8 :=
  if place < 8 then .ok (r.general place)
  else if place < 12 then .ok (byteOf r.ep (place - 8))
  else if place < 16 then .ok (byteOf r.bp (place - 12))
  else if place < 20 then .ok (byteOf r.sp (place - 16))
  else if place < 21 then .ok r.state
  else if place < 25 then .ok (byteOf r.cs (place - 21))
  else if place < 29 then .ok (byteOf r.ds (place - 25))
  else if place < size then .ok (byteOf r.ss (place - 29))
  else .error (.outside place)

/-- `((uint8_t*)&cache)[place] = byte` -/
def set (place : Nat) (byte : UInt8) : Except Trap X4CpuRegisters :=
  if place < 8 then .ok (r.setGeneral byte place)
  else if place < 12 then .ok { r with ep := withByteOf r.ep (place - 8) byte }
  else if place < 16 then .ok { r with bp := withByteOf r.bp (place - 12) byte }
  else if place < 20 then .ok { r with sp := withByteOf r.sp (place - 16) byte }
  else if place < 21 then .ok { r with state := byte }
  else if place < 25 then .ok { r with cs := withByteOf r.cs (place - 21) byte }
  else if place < 29 then .ok { r with ds := withByteOf r.ds (place - 25) byte }
  else if place < size then .ok { r with ss := withByteOf r.ss (place - 29) byte }
  else .error (.outside place)

def setFlag (flag : UInt8) : X4CpuRegisters := { r with state := r.state ||| flag }

def clearFlag (flag : UInt8) : X4CpuRegisters := { r with state := r.state &&& ~~~flag }

def hasFlag (flag : UInt8) : Bool := r.state &&& flag ≠ 0

/-- `update_zero_flag` -/
def updateZeroFlag (value : UInt8) : X4CpuRegisters :=
  if value = 0 then r.setFlag x4emmFlagZero else r.clearFlag x4emmFlagZero

/-- `update_compare_flags` -/
def updateCompareFlags (left right : UInt8) : X4CpuRegisters :=
  if left = right then
    (((r.setFlag x4emmFlagCmpEqual).clearFlag x4emmFlagCmpLess).clearFlag
      x4emmFlagCmpGreater).setFlag x4emmFlagZero
  else if right < left then
    (((r.clearFlag x4emmFlagCmpEqual).setFlag x4emmFlagCmpGreater).clearFlag
      x4emmFlagCmpLess).clearFlag x4emmFlagZero
  else
    (((r.clearFlag x4emmFlagCmpEqual).clearFlag x4emmFlagCmpGreater).setFlag
      x4emmFlagCmpLess).clearFlag x4emmFlagZero

/-! ## Places -/

variable {r} {place : Nat} {byte : UInt8} {r' : X4CpuRegisters}

theorem get_inside (h : place < size) : ∃ byte, r.get place = .ok byte := by
  rw [get]
  split_ifs <;> exact ⟨_, rfl⟩

theorem get_outside (h : ¬place < size) : r.get place = .error (.outside place) := by
  have hplace : 33 ≤ place := Nat.le_of_not_lt h
  rw [get]
  split_ifs <;> first | omega | rfl

theorem set_inside (h : place < size) : ∃ r', r.set place byte = .ok r' := by
  rw [set]
  split_ifs <;> exact ⟨_, rfl⟩

theorem set_outside (h : ¬place < size) : r.set place byte = .error (.outside place) := by
  have hplace : 33 ≤ place := Nat.le_of_not_lt h
  rw [set]
  split_ifs <;> first | omega | rfl

end X4CpuRegisters

end AvrKernel.X4

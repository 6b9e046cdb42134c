import AvrKernel.Emulation.Registers
import Mathlib.Data.UInt

/-!
# The X4 emulator

`opcodes.h`, `services.c`, `x4.c`. The memory is on a bus with 24 address lines. The
kernel around the emulator answers the services: its keyboard, its file system and what
it has printed.
-/

namespace AvrKernel.X4

open Bytes

/-- The kernel around the emulator; `Files` is the state of its file system. -/
structure Host (Files : Type) where
  /-- `__KMALLOC_HEAP_BEGIN__` -/
  heapBegin : UInt32
  /-- The answers of `kb_get_current_char`. -/
  kbGetCurrentChar : Nat → UInt8
  /-- `console_get_mounted_device() != FS_NULL` -/
  mounted : Files → Bool
  /-- `fs_device_open` to `fs_bitmap_flush` in the mounted directory, and whether there is a new
  file with the name and the size. -/
  fsFileCreate : List UInt8 → UInt32 → Mem × Files → Bool × Mem × Files

/-- What reaches the console. -/
inductive Output
  | char (ch : UInt8)
  | clear
  deriving DecidableEq

def newline : UInt8 := 0x0A

/-- A thread, the memory and the kernel. `keysRead` counts the calls of `kb_get_current_char`. -/
structure Machine (Files : Type) where
  cache : X4CpuRegisters
  memory : Mem
  printed : List Output
  lastCharacter : UInt8
  keysRead : Nat
  files : Files

inductive Opcode
  | nop
  | movr | movb | mova | movmw | movmr
  | inc | dec
  | add | sub | mul | div
  | and | or | xor | not
  | pop | push
  | cmp | cmpr
  | jmp | je | jne | jg | jl | jz | jnz
  | call | ret
  | int
  | sti | cli
  deriving DecidableEq

/-- The operations of `x4_emulate`. -/
def Opcode.ofByte : UInt8 → Option Opcode
  | 0x90 => some nop
  | 0x88 => some movr
  | 0x89 => some movb
  | 0x83 => some mova
  | 0x82 => some movmw
  | 0x81 => some movmr
  | 0xFD => some inc
  | 0xFC => some dec
  | 0x00 => some add
  | 0x80 => some sub
  | 0xF6 => some mul
  | 0xF4 => some div
  | 0x20 => some and
  | 0x21 => some or
  | 0x22 => some xor
  | 0x23 => some not
  | 0x0F => some pop
  | 0xF0 => some push
  | 0x38 => some cmp
  | 0x39 => some cmpr
  | 0xFE => some jmp
  | 0x74 => some je
  | 0xF3 => some jne
  | 0x75 => some jg
  | 0xF1 => some jl
  | 0x72 => some jz
  | 0xF9 => some jnz
  | 0x9A => some call
  | 0xCB => some ret
  | 0xCC | 0xCD => some int
  | 0xFB => some sti
  | 0xFA => some cli
  | _ => none

/-- The bytes behind an opcode. -/
structure Args where
  a : UInt8
  b : UInt8
  c : UInt8
  d : UInt8
  e : UInt8
  deriving DecidableEq

/-- The address lines of the bus. -/
def busAddress (address : UInt32) : UInt32 := address &&& 0x00FFFFFF

namespace Machine

variable {Files : Type} (host : Host Files) (m : Machine Files)

/-! ## Bus and stack -/

/-- `x4_readb` -/
def readb (address : UInt32) : UInt8 := m.memory (busAddress address)

/-- `x4_writeb` -/
def writeb (address : UInt32) (byte : UInt8) : Machine Files :=
  { m with memory := Function.update m.memory (busAddress address) byte }

/-- `kmem_read` of a byte. -/
def kmemRead (address : UInt32) : UInt8 := m.readb (host.heapBegin + address)

def withCache (cache : X4CpuRegisters) : Machine Files := { m with cache }

/-- `thread->cache.ep += count` -/
def advance (count : UInt32) : Machine Files :=
  m.withCache { m.cache with ep := m.cache.ep + count }

def jump (ep : UInt32) : Machine Files := m.withCache { m.cache with ep }

/-- `((uint8_t*)&thread->cache)[place] = byte` -/
def setRegister (place : UInt8) (byte : UInt8) : Except Trap (Machine Files) :=
  (m.cache.set place.toNat byte).map m.withCache

/-- `((uint8_t*)&thread->cache)[place]` -/
def getRegister (place : UInt8) : Except Trap UInt8 := m.cache.get place.toNat

/-- `stack_push` -/
def stackPush (byte : UInt8) : Machine Files :=
  let m := m.writeb (m.cache.ss + m.cache.sp) byte
  m.withCache { m.cache with sp := m.cache.sp + 1 }

/-- `stack_pop` -/
def stackPop : UInt8 × Machine Files :=
  let m := m.withCache { m.cache with sp := m.cache.sp - 1 }
  (m.readb (m.cache.ss + m.cache.sp), m)

/-- `stack_push_ptr` -/
def stackPushPtr (address : UInt32) : Machine Files :=
  (((m.stackPush (byteOf address 0)).stackPush (byteOf address 1)).stackPush
    (byteOf address 2)).stackPush (byteOf address 3)

/-- `stack_pop_ptr` -/
def stackPopPtr : UInt32 × Machine Files :=
  let (byte3, m) := m.stackPop
  let (byte2, m) := m.stackPop
  let (byte1, m) := m.stackPop
  let (byte0, m) := m.stackPop
  (getPointerFromBytes byte0 byte1 byte2 byte3, m)

/-! ## Opcodes -/

/-- A register becomes a value, which sets or clears the zero flag. -/
def setResult (place value : UInt8) : Except Trap (Machine Files) := do
  let m ← m.setRegister place value
  return m.withCache (m.cache.updateZeroFlag value)

def opcodeMOVMR (args : Args) : Except Trap (Machine Files) :=
  m.setRegister args.a (m.readb (getPointerFromBytes args.b args.c args.d args.e))

def opcodeMOVMW (args : Args) : Except Trap (Machine Files) := do
  let byte ← m.getRegister args.a
  return m.writeb (getPointerFromBytes args.b args.c args.d args.e) byte

def opcodeMOVR (args : Args) : Except Trap (Machine Files) := do
  let byte ← m.getRegister args.b
  m.setRegister args.a byte

def opcodeMOVB (args : Args) : Except Trap (Machine Files) := m.setRegister args.a args.b

/-- The second byte goes to the place behind the operand, which is no byte any more if the
operand is 255. -/
def opcodeMOVA (args : Args) : Except Trap (Machine Files) := do
  let m ← m.setRegister args.a args.b
  (m.cache.set (args.a.toNat + 1) args.c).map m.withCache

/-- `INC`, `DEC` and `NOT` -/
def unary (f : UInt8 → UInt8) (args : Args) : Except Trap (Machine Files) := do
  let byte ← m.getRegister args.a
  m.setResult args.a (f byte)

def opcodeINC (args : Args) : Except Trap (Machine Files) := m.unary (· + 1) args

def opcodeDEC (args : Args) : Except Trap (Machine Files) := m.unary (· - 1) args

def opcodeNOT (args : Args) : Except Trap (Machine Files) := m.unary (~~~ ·) args

/-- Operations with the first register and the second one. -/
def binary (f : UInt8 → UInt8 → UInt8) (args : Args) : Except Trap (Machine Files) := do
  let left ← m.getRegister args.a
  let right ← m.getRegister args.b
  m.setResult args.a (f left right)

def opcodeADD (args : Args) : Except Trap (Machine Files) := m.binary (· + ·) args

def opcodeSUB (args : Args) : Except Trap (Machine Files) := m.binary (· - ·) args

def opcodeAND (args : Args) : Except Trap (Machine Files) := m.binary (· &&& ·) args

def opcodeOR (args : Args) : Except Trap (Machine Files) := m.binary (· ||| ·) args

def opcodeXOR (args : Args) : Except Trap (Machine Files) := m.binary (· ^^^ ·) args

def opcodeMUL (args : Args) : Except Trap (Machine Files) := do
  let left ← m.getRegister args.b
  let right ← m.getRegister args.c
  m.setResult args.a (left * right)

def opcodeDIV (args : Args) : Except Trap (Machine Files) := do
  let left ← m.getRegister args.b
  let right ← m.getRegister args.c
  if right = 0 then throw .divideByZero
  else m.setResult args.a (left / right)

def opcodePUSH (args : Args) : Except Trap (Machine Files) := do
  let byte ← m.getRegister args.a
  return m.stackPush byte

def opcodePOP (args : Args) : Except Trap (Machine Files) :=
  let (byte, m) := m.stackPop
  m.setRegister args.a byte

def opcodeCMP (args : Args) : Except Trap (Machine Files) := do
  let left ← m.getRegister args.a
  return m.withCache (m.cache.updateCompareFlags left args.b)

def opcodeCMPR (args : Args) : Except Trap (Machine Files) := do
  let left ← m.getRegister args.a
  let right ← m.getRegister args.b
  return m.withCache (m.cache.updateCompareFlags left right)

def opcodeJMP (args : Args) : Machine Files :=
  m.jump (getPointerFromBytes args.a args.b args.c args.d)

/-- A jump under a condition, or on to the next instruction. -/
def jumpIf (condition : Bool) (args : Args) : Machine Files :=
  if condition then m.opcodeJMP args else m.advance 4

def opcodeJE (args : Args) : Machine Files := m.jumpIf (m.cache.hasFlag x4emmFlagCmpEqual) args

def opcodeJNE (args : Args) : Machine Files := m.jumpIf (!m.cache.hasFlag x4emmFlagCmpEqual) args

def opcodeJG (args : Args) : Machine Files := m.jumpIf (m.cache.hasFlag x4emmFlagCmpGreater) args

def opcodeJL (args : Args) : Machine Files := m.jumpIf (m.cache.hasFlag x4emmFlagCmpLess) args

def opcodeJZ (args : Args) : Machine Files := m.jumpIf (m.cache.hasFlag x4emmFlagZero) args

def opcodeJNZ (args : Args) : Machine Files := m.jumpIf (!m.cache.hasFlag x4emmFlagZero) args

def opcodeCALL (args : Args) : Machine Files :=
  let returnAddress := m.cache.ep + 4
  let m := (m.stackPushPtr m.cache.bp).stackPushPtr returnAddress
  m.withCache { m.cache with
    bp := m.cache.sp
    ep := getPointerFromBytes args.a args.b args.c args.d }

def opcodeRET : Machine Files :=
  let m := m.withCache { m.cache with sp := m.cache.bp }
  let (ep, m) := m.stackPopPtr
  let m := m.jump ep
  let (bp, m) := m.stackPopPtr
  m.withCache { m.cache with bp }

def opcodeCLI : Machine Files := m.withCache (m.cache.clearFlag x4emmFlagInterrupt)

def opcodeSTI : Machine Files := m.withCache (m.cache.setFlag x4emmFlagInterrupt)

/-! ## Services -/

def print (output : List Output) : Machine Files := { m with printed := m.printed ++ output }

/-- The address in `dx` in the code segment. -/
def dataAddress : UInt32 := m.cache.cs + x4PointerFromLow16 m.cache.dl m.cache.dh

/-- The text at an address, up to the zero byte that ends it; `none` if there is none. -/
def text (address : UInt32) : Nat → UInt32 → Option (List Output)
  | 0, _ => none
  | fuel + 1, i =>
      let byte := m.kmemRead host (address + i)
      if byte = 0 then some []
      else
        (text address fuel (i + 1)).map (.char (if byte = 0x0D then newline else byte) :: ·)

/-- `isc_display_routine`; the text is followed over all addresses. -/
def iscDisplayRoutine : Except Trap (Machine Files) :=
  if m.cache.ah = 0x09 then
    match m.text host m.dataAddress (2 ^ 32) 0 with
    | none => throw .endless
    | some output =>
        return (m.print output).withCache (m.cache.setFlag x4emmFlagConsoleDirty)
  else if m.cache.ah = 0x03 then
    return (m.print [.clear]).withCache (m.cache.clearFlag x4emmFlagConsoleDirty)
  else return m

/-- `x4_read_string_from_dx` -/
def readStringFromDx : List UInt8 :=
  (List.ofFn fun i : Fin 16 => m.kmemRead host (m.dataAddress + .ofNat i)).takeWhile (· ≠ 0)

/-- `isc_filesystem_routine` -/
def iscFilesystemRoutine : Machine Files :=
  if !host.mounted m.files then m
  else if m.cache.ah = 0x3C then
    let (created, memory, files) := host.fsFileCreate (m.readStringFromDx host)
      (x4PointerFromLow16 m.cache.cl m.cache.ch) (m.memory, m.files)
    let m := { m with memory, files }
    if created then
      m.withCache ({ m.cache with bl := 1 }.clearFlag x4emmFlagConsoleDirty)
    else m.withCache { m.cache with bl := 3 }
  else m.withCache { m.cache with bl := 0 }

/-- `isc_keyboard_routine` -/
def iscKeyboardRoutine : UInt8 × Machine Files :=
  if m.cache.ah = 0x00 ∨ m.cache.ah = 0x01 ∨ m.cache.ah = 0x03 then
    let current := host.kbGetCurrentChar m.keysRead
    let m := { m with keysRead := m.keysRead + 1 }
    if current ≠ m.lastCharacter then
      let m := m.withCache { m.cache with al := current }
      (0, if m.cache.ah = 0x01 then m else { m with lastCharacter := current })
    else
      (if m.cache.ah = 0x00 then 0xD6 else 0, m.withCache { m.cache with al := 0 })
  else (0, m)

/-- The line that was begun on the console is ended. -/
def endLine : Machine Files :=
  if m.cache.hasFlag x4emmFlagConsoleDirty then
    (m.print [.char newline]).withCache (m.cache.clearFlag x4emmFlagConsoleDirty)
  else m

/-- `opcode_INT` -/
def opcodeINT (args : Args) : Except Trap (UInt8 × Machine Files) := do
  if args.a = 0x20 then return (0xFF, m.endLine)
  else if args.a = 0x10 then return (0, ← m.iscDisplayRoutine host)
  else if args.a = 0x13 then return (0, m.iscFilesystemRoutine host)
  else if args.a = 0x16 then
    let (result, m) := m.iscKeyboardRoutine host
    if result = 0xD6 then return (0xD6, m.advance (-2)) else return (0, m)
  else return (0, m)

/-! ## The loop -/

/-- A byte of the next instruction. -/
def fetch (i : UInt32) : UInt8 := m.readb (m.cache.cs + m.cache.ep + i)

def args : Args := ⟨m.fetch 1, m.fetch 2, m.fetch 3, m.fetch 4, m.fetch 5⟩

def opcode : Option Opcode := Opcode.ofByte (m.fetch 0)

/-- The case of an opcode in the loop of `x4_emulate`, and what it returns if it returns. -/
def execute (opcode : Opcode) (args : Args) : Except Trap (Option UInt8 × Machine Files) :=
  match opcode with
  | .movmr => (m.opcodeMOVMR args).map fun m => (none, m.advance 5)
  | .movmw => (m.opcodeMOVMW args).map fun m => (none, m.advance 5)
  | .movr => (m.opcodeMOVR args).map fun m => (none, m.advance 2)
  | .movb => (m.opcodeMOVB args).map fun m => (none, m.advance 2)
  | .mova => (m.opcodeMOVA args).map fun m => (none, m.advance 5)
  | .inc => (m.opcodeINC args).map fun m => (none, m.advance 1)
  | .dec => (m.opcodeDEC args).map fun m => (none, m.advance 1)
  | .add => (m.opcodeADD args).map fun m => (none, m.advance 2)
  | .sub => (m.opcodeSUB args).map fun m => (none, m.advance 2)
  | .mul => (m.opcodeMUL args).map fun m => (none, m.advance 3)
  | .div => (m.opcodeDIV args).map fun m => (none, m.advance 3)
  | .pop => (m.opcodePOP args).map fun m => (none, m.advance 1)
  | .push => (m.opcodePUSH args).map fun m => (none, m.advance 1)
  | .and => (m.opcodeAND args).map fun m => (none, m.advance 2)
  | .or => (m.opcodeOR args).map fun m => (none, m.advance 2)
  | .xor => (m.opcodeXOR args).map fun m => (none, m.advance 2)
  | .not => (m.opcodeNOT args).map fun m => (none, m.advance 1)
  | .cmp => (m.opcodeCMP args).map fun m => (none, m.advance 2)
  | .cmpr => (m.opcodeCMPR args).map fun m => (none, m.advance 2)
  | .jmp => .ok (none, m.opcodeJMP args)
  | .je => .ok (none, m.opcodeJE args)
  | .jne => .ok (none, m.opcodeJNE args)
  | .jg => .ok (none, m.opcodeJG args)
  | .jl => .ok (none, m.opcodeJL args)
  | .jz => .ok (none, m.opcodeJZ args)
  | .jnz => .ok (none, m.opcodeJNZ args)
  | .call => .ok (none, m.opcodeCALL args)
  | .ret => .ok (none, m.opcodeRET)
  | .cli => .ok (none, m.opcodeCLI)
  | .sti => .ok (none, m.opcodeSTI)
  | .nop => .ok (none, m)
  | .int => (m.opcodeINT host args).map fun (result, m) =>
      if result = 0 then (none, m.advance 1)
      else (some (if result = 0xD6 then 0xD6 else 1), m.endLine)

/-- One round of the loop. -/
def step : Except Trap (Option UInt8 × Machine Files) :=
  match m.opcode with
  | some opcode => (m.advance 1).execute host opcode m.args
  | none => .ok (some 1, m.advance 1)

/-- `x4_emulate` -/
def x4Emulate : Nat → Machine Files → Except Trap (UInt8 × Machine Files)
  | 0, m => .ok (0, m.endLine)
  | steps + 1, m => do
      match ← m.step host with
      | (none, m) => x4Emulate steps m
      | (some result, m) => return (result, m)

end Machine

end AvrKernel.X4

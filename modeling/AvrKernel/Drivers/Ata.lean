import AvrKernel.Lib.Blocks
import AvrKernel.Lib.Tape

/-!
# ATA byte transfers

The driver moves sectors word by word through the ports of a drive. Byte transfers of any
length send their whole sectors directly and their tail through a bounce buffer, so that
neither the caller's buffer nor the disk is touched beyond the length.
-/

namespace AvrKernel.Drivers

open Bytes

/-! ## The drive -/

/-- The data phase of a command: the bytes the host may still take, or where the bytes
received so far go and how many words are still to come. -/
inductive AtaTransfer
  | toHost (data : List UInt8)
  | toDisk (pos words : Nat) (data : List UInt8)

/-- The drive behind the ports. `answer` tells of every command in order how many status
reads the drive stays busy with it, or that the drive aborts it. -/
structure AtaDrive where
  disk : Nat → UInt8
  answer : Nat → Option Nat
  commands : Nat
  busy : Nat
  error : Bool
  transfer : AtaTransfer
  count : UInt8
  low : UInt8
  mid : UInt8
  high : UInt8
  device : UInt8

def ataSectorSize : Nat := 512

namespace AtaDrive

variable (d : AtaDrive)

/-- The 28-bit sector number in the registers. -/
def lba : Nat :=
  d.low.toNat + 2 ^ 8 * d.mid.toNat + 2 ^ 16 * d.high.toNat + 2 ^ 24 * (d.device.toNat % 16)

/-- The sector count in the registers, where 0 stands for 256. -/
def sectors : Nat := if d.count = 0 then 256 else d.count.toNat

/-- The data phase that a command starts. -/
def phase (command : UInt8) : AtaTransfer :=
  if command = 0x20 then .toHost (Tape.read d.disk (512 * d.lba) (512 * d.sectors))
  else if command = 0x30 then .toDisk (512 * d.lba) (256 * d.sectors) []
  else .toHost []

def command (value : UInt8) : AtaDrive :=
  match d.answer d.commands with
  | some busy => { d with
      commands := d.commands + 1, busy, error := false, transfer := d.phase value }
  | none => { d with
      commands := d.commands + 1, busy := 0, error := true, transfer := .toHost [] }

/-- `outb` to one of the registers behind the base port. -/
def outb (register : Nat) (value : UInt8) : AtaDrive :=
  match register with
  | 2 => { d with count := value }
  | 3 => { d with low := value }
  | 4 => { d with mid := value }
  | 5 => { d with high := value }
  | 6 => { d with device := value }
  | 7 => d.command value
  | _ => d

/-- Whether the drive waits for data words to be moved. -/
def dataRequest : Bool :=
  match d.transfer with
  | .toHost data => data ≠ []
  | .toDisk _ _ _ => true

/-- The status register of a drive that is not busy: ready, with the data request and the
error bit. -/
def settled : UInt8 :=
  (if d.dataRequest then 0x58 else 0x50 : UInt8) ||| (if d.error then 0x01 else 0)

/-- `inb` of the status register. -/
def status : UInt8 × AtaDrive :=
  match d.busy with
  | 0 => (d.settled, d)
  | busy + 1 => (0x80, { d with busy })

/-- `inw` of the data port. -/
def inw : UInt16 × AtaDrive :=
  match d.transfer with
  | .toHost (first :: second :: data) =>
      (Layout.u16.decode [first, second], { d with transfer := .toHost data })
  | _ => (0xFFFF, d)

/-- `outw` to the data port. The last word of the transfer stores the data. -/
def outw (word : UInt16) : AtaDrive :=
  match d.transfer with
  | .toDisk pos 1 data => { d with
      disk := Tape.write d.disk pos (data ++ Layout.u16.encode word), transfer := .toHost [] }
  | .toDisk pos (words + 2) data => { d with
      transfer := .toDisk pos (words + 1) (data ++ Layout.u16.encode word) }
  | _ => d

end AtaDrive

/-! ## The driver -/

/-- Load the word at a byte offset of a buffer. -/
def loadWord (buffer : List UInt8) (off : Nat) : Option UInt16 :=
  if off + 2 ≤ buffer.length then some (Layout.u16.decode (buffer.drop off)) else none

/-- Store a word at a byte offset of a buffer. -/
def storeWord (off : Nat) (word : UInt16) (buffer : List UInt8) : Option (List UInt8) :=
  if off + 2 ≤ buffer.length then some (patch buffer off (Layout.u16.encode word)) else none

namespace AtaDrive

variable (d : AtaDrive)

def ataWaitReady (mask value : UInt8) : Nat → AtaDrive → Bool × AtaDrive
  | 0, d => (false, d)
  | timeout + 1, d =>
      let status := d.status
      if status.1 &&& 0x80 = 0 ∧ status.1 &&& mask = value then (true, status.2)
      else ataWaitReady mask value timeout status.2

/-- The register writes that both sector commands begin with. -/
def selectSector (address : UInt32) : AtaDrive :=
  ((((d.outb 6 ((0xE0 : UInt32) ||| ((address >>> 24) &&& 0x0F)).toUInt8).outb 2 1).outb 3
    address.toUInt8).outb 4 (address >>> 8).toUInt8).outb 5 (address >>> 16).toUInt8

/-- One word from the data port into the buffer. -/
def readWord (ptr i : Nat) (s : List UInt8 × AtaDrive) : Option (List UInt8 × AtaDrive) :=
  let word := s.2.inw
  (storeWord (ptr + 2 * i) word.1 s.1).map fun buffer => (buffer, word.2)

/-- One word from the buffer to the data port. -/
def writeWord (buffer : List UInt8) (ptr i : Nat) (d : AtaDrive) : Option AtaDrive :=
  (loadWord buffer (ptr + 2 * i)).map d.outw

/-- `ata_read_sector` into the buffer at `ptr`; an access outside of the buffer is `none`. -/
def ataReadSector (address : UInt32) (buffer : List UInt8) (ptr : Nat) :
    Option (Bool × List UInt8 × AtaDrive) :=
  let ready := ataWaitReady 0x08 0x08 100000 ((d.selectSector address).outb 7 0x20)
  if ready.1 then
    (Blocks.forRange 0 256 (readWord ptr) (buffer, ready.2)).map fun s => (true, s)
  else some (false, buffer, ready.2)

/-- `ata_write_sector` from the buffer at `ptr`. The outcome of the last wait is not looked
at. -/
def ataWriteSector (address : UInt32) (buffer : List UInt8) (ptr : Nat) :
    Option (Bool × AtaDrive) :=
  let ready := ataWaitReady 0x08 0x08 100000 ((d.selectSector address).outb 7 0x30)
  if ready.1 then
    (Blocks.forRange 0 256 (writeWord buffer ptr) ready.2).map fun d =>
      (true, (ataWaitReady 0x00 0x00 100000 (d.outb 7 0xE7)).2)
  else some (false, ready.2)

/-- The loop over the whole sectors of `ata_read_bytes`. -/
def readSectors : Nat → UInt32 → Nat → List UInt8 → AtaDrive →
    Option (Bool × UInt32 × Nat × List UInt8 × AtaDrive)
  | 0, lba, ptr, buffer, d => some (true, lba, ptr, buffer, d)
  | n + 1, lba, ptr, buffer, d =>
      (d.ataReadSector lba buffer ptr).bind fun s =>
        if s.1 then readSectors n (lba + 1) (ptr + ataSectorSize) s.2.1 s.2.2
        else some (false, lba, ptr, s.2)

/-- The loop over the whole sectors of `ata_write_bytes`. -/
def writeSectors (buffer : List UInt8) : Nat → UInt32 → Nat → AtaDrive →
    Option (Bool × UInt32 × Nat × AtaDrive)
  | 0, lba, ptr, d => some (true, lba, ptr, d)
  | n + 1, lba, ptr, d =>
      (d.ataWriteSector lba buffer ptr).bind fun s =>
        if s.1 then writeSectors buffer n (lba + 1) (ptr + ataSectorSize) s.2
        else some (false, lba, ptr, s.2)

/-- The trailing partial sector of `ata_read_bytes`. `bounce` is what the stack holds. -/
def readTail (bounce : Vector UInt8 512) (tailBytes : Nat) (lba : UInt32) (ptr : Nat)
    (buffer : List UInt8) : Option (Bool × List UInt8 × AtaDrive) :=
  if 0 < tailBytes then
    (d.ataReadSector lba bounce.toList 0).bind fun s =>
      if s.1 then
        (Blocks.copy s.2.1 0 ptr tailBytes buffer).map fun buffer => (true, buffer, s.2.2)
      else some (false, buffer, s.2.2)
  else some (true, buffer, d)

/-- The trailing partial sector of `ata_write_bytes`. -/
def writeTail (bounce : Vector UInt8 512) (tailBytes : Nat) (lba : UInt32) (ptr : Nat)
    (buffer : List UInt8) : Option (Bool × AtaDrive) :=
  if 0 < tailBytes then
    (d.ataReadSector lba bounce.toList 0).bind fun s =>
      if s.1 then
        (Blocks.copy buffer ptr 0 tailBytes s.2.1).bind fun bounce =>
          s.2.2.ataWriteSector lba bounce 0
      else some (false, s.2.2)
  else some (true, d)

/-- `ata_read_bytes`; a buffer that is `none` is the null pointer. -/
def ataReadBytes (bounce : Vector UInt8 512) (address : UInt32) (buffer : Option (List UInt8))
    (totalBytes : UInt32) : Option (Bool × Option (List UInt8) × AtaDrive) :=
  match buffer with
  | none => some (false, none, d)
  | some buffer =>
      if totalBytes = 0 then some (false, some buffer, d)
      else
        (readSectors (totalBytes.toNat / ataSectorSize) address 0 buffer d).bind fun s =>
          if s.1 then
            (s.2.2.2.2.readTail bounce (totalBytes.toNat % ataSectorSize) s.2.1 s.2.2.1
              s.2.2.2.1).map fun r => (r.1, some r.2.1, r.2.2)
          else some (false, some s.2.2.2.1, s.2.2.2.2)

/-- `ata_write_bytes`. -/
def ataWriteBytes (bounce : Vector UInt8 512) (address : UInt32) (buffer : Option (List UInt8))
    (totalBytes : UInt32) : Option (Bool × AtaDrive) :=
  match buffer with
  | none => some (false, d)
  | some buffer =>
      if totalBytes = 0 then some (false, d)
      else
        (writeSectors buffer (totalBytes.toNat / ataSectorSize) address 0 d).bind fun s =>
          if s.1 then
            s.2.2.2.writeTail bounce (totalBytes.toNat % ataSectorSize) s.2.1 s.2.2.1 buffer
          else some (false, s.2.2.2)

/-! ## Waiting -/

variable {d : AtaDrive}

theorem status_busy {busy : Nat} (h : d.busy = busy + 1) :
    d.status = (0x80, { d with busy }) := by
  rw [status, h]

theorem status_settled (h : d.busy = 0) : d.status = (d.settled, d) := by
  rw [status, h]

theorem not_busy (h : d.busy = 0) : { d with busy := 0 } = d := by
  cases d
  cases h
  rfl

theorem settled_request (hrequest : d.dataRequest = true) (herror : d.error = false) :
    d.settled = 0x58 := by
  rw [settled, hrequest, herror]
  rfl

theorem settled_not_busy (d : AtaDrive) : d.settled &&& 0x80 = 0 := by
  rw [settled]
  cases d.dataRequest <;> cases d.error <;> decide

/-- The wait ends with the answer of the settled drive once the drive is no longer busy. -/
theorem ataWaitReady_eq (mask value : UInt8) (timeout : Nat) (d : AtaDrive) :
    ataWaitReady mask value timeout d =
      (decide (d.busy < timeout ∧ d.settled &&& mask = value),
        { d with busy := d.busy - timeout }) := by
  induction timeout generalizing d with
  | zero => simp [ataWaitReady]
  | succ timeout ih =>
      cases hbusy : d.busy with
      | zero =>
          simp only [ataWaitReady, status_settled hbusy, settled_not_busy, true_and]
          split
          next hvalue =>
              rw [decide_eq_true ⟨by omega, hvalue⟩, Nat.zero_sub, not_busy hbusy]
          next hvalue => simp [ih, hvalue, hbusy]
      | succ busy =>
          have hset : AtaDrive.settled { d with busy } = d.settled := rfl
          simp only [ataWaitReady, status_busy hbusy]
          rw [if_neg (by simp), ih, hset]
          simp

/-! ## Commands -/

/-- The sector number that the register writes leave. -/
theorem selectSector_lba (d : AtaDrive) {address : UInt32} (h : address.toNat < 2 ^ 28) :
    (d.selectSector address).lba = address.toNat := by
  have hand : address.toNat >>> 24 &&& 0x0F = address.toNat / 2 ^ 24 % 2 ^ 4 := by
    rw [Nat.shiftRight_eq_div_pow]
    exact Nat.and_two_pow_sub_one_eq_mod _ 4
  have hor : (0xE0 ||| address.toNat / 2 ^ 24 % 2 ^ 4) % 2 ^ 4 =
      0xE0 % 2 ^ 4 ||| address.toNat / 2 ^ 24 % 2 ^ 4 % 2 ^ 4 := Nat.or_mod_two_pow
  have hdev : ((0xE0 : UInt32) ||| ((address >>> 24) &&& 0x0F)).toNat % 16 =
      address.toNat / 2 ^ 24 := by
    simp only [UInt32.toNat_or, UInt32.toNat_and, UInt32.toNat_shiftRight, UInt32.reduceToNat,
      Nat.reduceMod, hand, Nat.reducePow, Nat.zero_or] at hor ⊢
    omega
  simp only [lba, selectSector, outb, UInt32.toNat_toUInt8, UInt32.toNat_shiftRight,
    UInt32.reduceToNat, Nat.reduceMod, Nat.shiftRight_eq_div_pow]
  omega

/-- The drive carries out every command within the limit of the waits. -/
def Responsive (d : AtaDrive) : Prop := ∀ n, ∃ busy < 100000, d.answer n = some busy

/-- What the waits for data after a command come to. -/
theorem wait_command (d : AtaDrive) (value : UInt8)
    (hrequest : AtaDrive.dataRequest { d with transfer := d.phase value } = true) :
    ∃ ok d', ataWaitReady 0x08 0x08 100000 (d.command value) = (ok, d') ∧
      d'.answer = d.answer ∧ d'.disk = d.disk ∧ (d.Responsive → ok = true) ∧
      (ok = true → d'.transfer = d.phase value) := by
  rw [ataWaitReady_eq]
  refine ⟨_, _, rfl, ?_⟩
  cases hanswer : d.answer d.commands with
  | none =>
      have hcommand : d.command value = { d with
          commands := d.commands + 1, busy := 0, error := true, transfer := .toHost [] } := by
        rw [command, hanswer]
      rw [hcommand]
      refine ⟨rfl, rfl, ?_, ?_⟩
      · intro hresp
        obtain ⟨busy, -, hbusy⟩ := hresp d.commands
        rw [hanswer] at hbusy
        cases hbusy
      · intro hok
        simp only [settled, dataRequest, decide_eq_true_iff] at hok
        exact absurd hok.2 (by decide)
  | some busy =>
      have hcommand : d.command value = { d with
          commands := d.commands + 1, busy, error := false, transfer := d.phase value } := by
        rw [command, hanswer]
      rw [hcommand]
      refine ⟨rfl, rfl, ?_, fun _ => rfl⟩
      intro hresp
      obtain ⟨busy', hlt, hbusy⟩ := hresp d.commands
      rw [hanswer, Option.some.injEq] at hbusy
      have hsettled : AtaDrive.settled { d with
          commands := d.commands + 1, busy, error := false, transfer := d.phase value } = 0x58 :=
        settled_request hrequest rfl
      rw [decide_eq_true_iff, hsettled]
      exact ⟨hbusy ▸ hlt, by decide⟩

/-! ## Words -/

/-- Reading words takes bytes off the data phase and puts them into the buffer. -/
theorem rounds_readWord {ptr : Nat} (rest : List UInt8) (n i : Nat) (data buffer : List UInt8)
    (d : AtaDrive) (hdata : data.length = 2 * n) (htransfer : d.transfer = .toHost (data ++ rest))
    (hroom : ptr + 2 * i + 2 * n ≤ buffer.length) :
    Blocks.rounds (readWord ptr) n i (buffer, d) =
      some (patch buffer (ptr + 2 * i) data, { d with transfer := .toHost rest }) := by
  induction n generalizing i data buffer d with
  | zero =>
      rw [List.length_eq_zero_iff.mp (by omega : data.length = 0)] at htransfer ⊢
      rw [Blocks.rounds, patch_nil, ← List.nil_append rest, ← htransfer]
  | succ n ih =>
      rcases data with _ | ⟨first, _ | ⟨second, data⟩⟩
      · simp at hdata
      · simp only [List.length_cons, List.length_nil] at hdata
        omega
      · have hinw : d.inw =
            (Layout.u16.decode [first, second], { d with transfer := .toHost (data ++ rest) }) := by
          rw [inw, htransfer]
          rfl
        have hstore : storeWord (ptr + 2 * i) (Layout.u16.decode [first, second]) buffer =
            some (patch buffer (ptr + 2 * i) [first, second]) := by
          rw [storeWord, if_pos (by omega), Layout.u16_encode_decode (by simp)]
          rfl
        have hlength : (patch buffer (ptr + 2 * i) [first, second]).length = buffer.length :=
          patch_length (by simp only [List.length_cons, List.length_nil]; omega)
        simp only [List.length_cons] at hdata
        rw [Blocks.rounds, readWord, hinw, hstore, Option.map_some, Option.bind_some,
          ih (i + 1) data _ _ (by omega) rfl (by omega)]
        rw [show ptr + 2 * (i + 1) = ptr + 2 * i + [first, second].length by
          simp only [List.length_cons, List.length_nil]; omega]
        rw [patch_patch]
        · rfl
        · simp only [List.length_append, List.length_cons, List.length_nil]
          omega

theorem forRange_readWord {ptr : Nat} {data buffer : List UInt8}
    (htransfer : d.transfer = .toHost data) (hdata : data.length = 512)
    (hroom : ptr + 512 ≤ buffer.length) :
    Blocks.forRange 0 256 (readWord ptr) (buffer, d) =
      some (patch buffer ptr data, { d with transfer := .toHost [] }) := by
  rw [← List.append_nil data] at htransfer
  rw [Blocks.forRange, Nat.sub_zero, rounds_readWord [] 256 0 data buffer d hdata htransfer hroom,
    Nat.mul_zero, Nat.add_zero]

theorem encode_word (buffer : List UInt8) {off : Nat} (h : off + 2 ≤ buffer.length) :
    Layout.u16.encode (Layout.u16.decode (buffer.drop off)) = (buffer.drop off).take 2 := by
  apply Layout.u16_encode_decode
  rw [List.length_drop]
  omega

theorem writeWord_eq {buffer : List UInt8} {ptr i : Nat} (h : ptr + 2 * i + 2 ≤ buffer.length)
    (d : AtaDrive) : writeWord buffer ptr i d =
      some (d.outw (Layout.u16.decode (buffer.drop (ptr + 2 * i)))) := by
  rw [writeWord, loadWord, if_pos h, Option.map_some]

/-- Writing the words of a data phase, up to the last one, which stores them. -/
theorem rounds_writeWord {ptr : Nat} {buffer : List UInt8} (pos n i : Nat) (data : List UInt8)
    (d : AtaDrive) (htransfer : d.transfer = .toDisk pos (n + 1) data)
    (hroom : ptr + 2 * i + 2 * (n + 1) ≤ buffer.length) :
    Blocks.rounds (writeWord buffer ptr) (n + 1) i d = some { d with
      disk := Tape.write d.disk pos (data ++ (buffer.drop (ptr + 2 * i)).take (2 * (n + 1)))
      transfer := .toHost [] } := by
  induction n generalizing i data d with
  | zero =>
      rw [Blocks.rounds, writeWord_eq (by omega), Option.bind_some, outw, htransfer]
      simp only [Blocks.rounds, encode_word buffer (by omega : ptr + 2 * i + 2 ≤ buffer.length)]
  | succ n ih =>
      have htake : (buffer.drop (ptr + 2 * i)).take (2 * (n + 1 + 1)) =
          (buffer.drop (ptr + 2 * i)).take 2 ++
            (buffer.drop (ptr + 2 * (i + 1))).take (2 * (n + 1)) := by
        rw [show 2 * (n + 1 + 1) = 2 + 2 * (n + 1) by omega, List.take_add, List.drop_drop]
        rfl
      rw [Blocks.rounds, writeWord_eq (by omega), Option.bind_some, outw, htransfer,
        ih (i + 1) _ _ rfl (by omega), encode_word buffer (by omega), htake, List.append_assoc]

theorem forRange_writeWord {ptr pos : Nat} {buffer : List UInt8}
    (htransfer : d.transfer = .toDisk pos 256 []) (hroom : ptr + 512 ≤ buffer.length) :
    Blocks.forRange 0 256 (writeWord buffer ptr) d = some { d with
      disk := Tape.write d.disk pos ((buffer.drop ptr).take 512), transfer := .toHost [] } := by
  rw [Blocks.forRange, Nat.sub_zero, rounds_writeWord pos 255 0 [] d htransfer hroom]
  rfl

/-! ## Sectors -/

/-- What every operation of the driver leaves of a drive, and when it succeeds. -/
structure Served (d : AtaDrive) (ok : Bool) (d' : AtaDrive) : Prop where
  answer : d'.answer = d.answer
  succeeds : d.Responsive → ok = true

theorem Served.refl (d : AtaDrive) : d.Served true d := ⟨rfl, fun _ => rfl⟩

theorem Served.responsive {ok : Bool} {d' : AtaDrive} (h : d.Served ok d') (hd : d.Responsive) :
    d'.Responsive := by
  intro n
  rw [h.answer]
  exact hd n

theorem Served.trans {ok ok' : Bool} {d' d'' : AtaDrive} (h : d.Served ok d')
    (h' : d'.Served ok' d'') : d.Served ok' d'' :=
  ⟨h'.answer.trans h.answer, fun hd => h'.succeeds (h.responsive hd)⟩

theorem command_answer (d : AtaDrive) (value : UInt8) : (d.command value).answer = d.answer := by
  rw [command]
  split <;> rfl

theorem command_disk (d : AtaDrive) (value : UInt8) : (d.command value).disk = d.disk := by
  rw [command]
  split <;> rfl

theorem selectSector_answer (d : AtaDrive) (address : UInt32) :
    (d.selectSector address).answer = d.answer := by
  simp only [selectSector, outb]

theorem selectSector_disk (d : AtaDrive) (address : UInt32) :
    (d.selectSector address).disk = d.disk := by
  simp only [selectSector, outb]

theorem selectSector_sectors (d : AtaDrive) (address : UInt32) :
    (d.selectSector address).sectors = 1 := by
  simp [selectSector, outb, sectors]

theorem Served.of_selectSector {ok : Bool} {d' : AtaDrive} {address : UInt32}
    (h : (d.selectSector address).Served ok d') : d.Served ok d' := by
  refine ⟨h.answer.trans (selectSector_answer d address), fun hd => h.succeeds fun n => ?_⟩
  rw [selectSector_answer]
  exact hd n

theorem read_phase (d : AtaDrive) {address : UInt32} (h : address.toNat < 2 ^ 28) :
    (d.selectSector address).phase 0x20 =
      .toHost (Tape.read d.disk (512 * address.toNat) 512) := by
  rw [phase, if_pos rfl, selectSector_lba d h, selectSector_disk, selectSector_sectors]

theorem write_phase (d : AtaDrive) {address : UInt32} (h : address.toNat < 2 ^ 28) :
    (d.selectSector address).phase 0x30 = .toDisk (512 * address.toNat) 256 [] := by
  rw [phase, if_neg (by decide), if_pos rfl, selectSector_lba d h, selectSector_sectors]

theorem ataReadSector_spec (d : AtaDrive) {address : UInt32} {buffer : List UInt8} {ptr : Nat}
    (haddress : address.toNat < 2 ^ 28) (hroom : ptr + 512 ≤ buffer.length) :
    ∃ ok buffer' d', d.ataReadSector address buffer ptr = some (ok, buffer', d') ∧
      d.Served ok d' ∧ d'.disk = d.disk ∧
      (ok = true → buffer' = patch buffer ptr (Tape.read d.disk (512 * address.toNat) 512)) := by
  obtain ⟨ok, d₁, hwait, hanswer, hdisk, hsucceeds, htransfer⟩ :=
    wait_command (d.selectSector address) 0x20 (by
      rw [dataRequest, read_phase d haddress]
      exact decide_eq_true (List.ne_nil_of_length_pos (by rw [Tape.read_length]; decide)))
  have hready : ataWaitReady 0x08 0x08 100000 ((d.selectSector address).outb 7 0x20) =
      (ok, d₁) := hwait
  have hserved : d.Served ok d₁ := Served.of_selectSector ⟨hanswer, hsucceeds⟩
  rw [selectSector_disk] at hdisk
  simp only [ataReadSector, hready]
  cases ok with
  | false =>
      exact ⟨false, buffer, d₁, rfl, hserved, hdisk, by simp⟩
  | true =>
      have hphase := (htransfer rfl).trans (read_phase d haddress)
      rw [if_pos rfl, forRange_readWord hphase (Tape.read_length _ _ _) hroom, Option.map_some]
      exact ⟨true, patch buffer ptr (Tape.read d.disk (512 * address.toNat) 512),
        { d₁ with transfer := .toHost [] }, rfl, ⟨hserved.answer, hserved.succeeds⟩, hdisk,
        fun _ => rfl⟩

theorem flush (d : AtaDrive) :
    (ataWaitReady 0x00 0x00 100000 (d.outb 7 0xE7)).2.answer = d.answer ∧
      (ataWaitReady 0x00 0x00 100000 (d.outb 7 0xE7)).2.disk = d.disk := by
  have hwait : (ataWaitReady 0x00 0x00 100000 (d.outb 7 0xE7)).2 =
      { d.outb 7 0xE7 with busy := (d.outb 7 0xE7).busy - 100000 } := by
    rw [ataWaitReady_eq]
  rw [hwait]
  exact ⟨d.command_answer 0xE7, d.command_disk 0xE7⟩

theorem ataWriteSector_spec (d : AtaDrive) {address : UInt32} {buffer : List UInt8} {ptr : Nat}
    (haddress : address.toNat < 2 ^ 28) (hroom : ptr + 512 ≤ buffer.length) :
    ∃ ok d', d.ataWriteSector address buffer ptr = some (ok, d') ∧ d.Served ok d' ∧
      (ok = true →
        d'.disk = Tape.write d.disk (512 * address.toNat) ((buffer.drop ptr).take 512)) := by
  obtain ⟨ok, d₁, hwait, hanswer, hdisk, hsucceeds, htransfer⟩ :=
    wait_command (d.selectSector address) 0x30 (by rw [dataRequest, write_phase d haddress])
  have hready : ataWaitReady 0x08 0x08 100000 ((d.selectSector address).outb 7 0x30) =
      (ok, d₁) := hwait
  have hserved : d.Served ok d₁ := Served.of_selectSector ⟨hanswer, hsucceeds⟩
  rw [selectSector_disk] at hdisk
  simp only [ataWriteSector, hready]
  cases ok with
  | false =>
      exact ⟨false, d₁, rfl, hserved, by simp⟩
  | true =>
      have hphase := (htransfer rfl).trans (write_phase d haddress)
      obtain ⟨hanswer', hdisk'⟩ := flush { d₁ with
        disk := Tape.write d₁.disk (512 * address.toNat) ((buffer.drop ptr).take 512)
        transfer := .toHost [] }
      rw [if_pos rfl, forRange_writeWord hphase hroom, Option.map_some]
      refine ⟨true, _, rfl, ⟨hanswer'.trans hserved.answer, fun _ => rfl⟩, fun _ => hdisk'.trans ?_⟩
      rw [hdisk]

/-! ## Whole sectors -/

theorem toNat_next {lba : UInt32} (h : lba.toNat < 2 ^ 28) : (lba + 1).toNat = lba.toNat + 1 :=
  Mem.toNat_add_of_lt (show lba.toNat + 1 < 2 ^ 32 by omega)

/-- Two adjacent segments of a tape that go to adjacent places of a buffer. -/
theorem patch_read (t : Nat → UInt8) (pos : Nat) {buffer : List UInt8} {off m n : Nat}
    (h : off + m + n ≤ buffer.length) :
    patch (patch buffer off (Tape.read t pos m)) (off + m) (Tape.read t (pos + m) n) =
      patch buffer off (Tape.read t pos (m + n)) := by
  have hpatch : patch (patch buffer off (Tape.read t pos m))
      (off + (Tape.read t pos m).length) (Tape.read t (pos + m) n) =
        patch buffer off (Tape.read t pos m ++ Tape.read t (pos + m) n) := by
    apply patch_patch
    rw [List.length_append, Tape.read_length, Tape.read_length]
    omega
  rw [Tape.read_add, ← hpatch, Tape.read_length]

theorem readSectors_spec (n : Nat) {lba : UInt32} {ptr : Nat} {buffer : List UInt8}
    (d : AtaDrive) (hlba : lba.toNat + n ≤ 2 ^ 28) (hroom : ptr + 512 * n ≤ buffer.length) :
    ∃ ok lba' ptr' buffer' d', readSectors n lba ptr buffer d = some (ok, lba', ptr', buffer', d') ∧
      d.Served ok d' ∧ d'.disk = d.disk ∧
      (ok = true → lba'.toNat = lba.toNat + n ∧ ptr' = ptr + 512 * n ∧
        buffer' = patch buffer ptr (Tape.read d.disk (512 * lba.toNat) (512 * n))) := by
  induction n generalizing lba ptr buffer d with
  | zero =>
      refine ⟨true, lba, ptr, buffer, d, rfl, .refl d, rfl, fun _ => ⟨rfl, rfl, ?_⟩⟩
      rw [Nat.mul_zero, Tape.read, patch_nil]
  | succ n ih =>
      rw [Nat.mul_succ, ← Nat.add_assoc] at hroom
      rw [Nat.mul_succ]
      have hfirst : lba.toNat < 2 ^ 28 := by omega
      have hhere : ptr + 512 ≤ buffer.length := by omega
      obtain ⟨ok, buffer₁, d₁, hsector, hserved, hdisk, hbuffer⟩ :=
        d.ataReadSector_spec hfirst hhere
      rw [readSectors, hsector, Option.bind_some]
      cases ok with
      | false => exact ⟨false, _, _, _, _, rfl, hserved, hdisk, by simp⟩
      | true =>
          have hnext : (lba + 1).toNat = lba.toNat + 1 := toNat_next (by omega)
          have hlen := Tape.read_length d.disk (512 * lba.toNat) 512
          have hbuffer := hbuffer rfl
          have hlength : buffer₁.length = buffer.length := by
            rw [hbuffer, patch_length (by omega)]
          have hlba' : (lba + 1).toNat + n ≤ 2 ^ 28 := by omega
          have hroom' : ptr + 512 + 512 * n ≤ buffer₁.length := by omega
          obtain ⟨ok, lba', ptr', buffer', d', hrest, hserved', hdisk', hvalues⟩ :=
            ih d₁ hlba' hroom'
          refine ⟨ok, lba', ptr', buffer', d', ?_, hserved.trans hserved', hdisk'.trans hdisk, ?_⟩
          · rw [if_pos rfl]
            exact hrest
          · intro hok
            obtain ⟨hlba', hptr', hbuffer'⟩ := hvalues hok
            refine ⟨by omega, by omega, ?_⟩
            rw [hbuffer', hbuffer, hdisk, hnext, Nat.add_comm (512 * n)]
            exact patch_read _ _ (by omega)

theorem writeSectors_spec (n : Nat) {lba : UInt32} {ptr : Nat} {buffer : List UInt8}
    (d : AtaDrive) (hlba : lba.toNat + n ≤ 2 ^ 28) (hroom : ptr + 512 * n ≤ buffer.length) :
    ∃ ok lba' ptr' d', writeSectors buffer n lba ptr d = some (ok, lba', ptr', d') ∧
      d.Served ok d' ∧
      (ok = true → lba'.toNat = lba.toNat + n ∧ ptr' = ptr + 512 * n ∧
        d'.disk = Tape.write d.disk (512 * lba.toNat) ((buffer.drop ptr).take (512 * n))) := by
  induction n generalizing lba ptr d with
  | zero =>
      refine ⟨true, lba, ptr, d, rfl, .refl d, fun _ => ⟨rfl, rfl, ?_⟩⟩
      exact (Tape.write_read d.disk _ 0).symm
  | succ n ih =>
      rw [Nat.mul_succ, ← Nat.add_assoc] at hroom
      rw [Nat.mul_succ]
      have hfirst : lba.toNat < 2 ^ 28 := by omega
      have hhere : ptr + 512 ≤ buffer.length := by omega
      obtain ⟨ok, d₁, hsector, hserved, hdisk⟩ :=
        d.ataWriteSector_spec hfirst hhere
      rw [writeSectors, hsector, Option.bind_some]
      cases ok with
      | false => exact ⟨false, _, _, _, rfl, hserved, by simp⟩
      | true =>
          have hnext : (lba + 1).toNat = lba.toNat + 1 := toNat_next (by omega)
          have hlba' : (lba + 1).toNat + n ≤ 2 ^ 28 := by omega
          have hroom' : ptr + 512 + 512 * n ≤ buffer.length := by omega
          obtain ⟨ok, lba', ptr', d', hrest, hserved', hvalues⟩ := ih d₁ hlba' hroom'
          refine ⟨ok, lba', ptr', d', ?_, hserved.trans hserved', ?_⟩
          · rw [if_pos rfl]
            exact hrest
          · intro hok
            obtain ⟨hlba', hptr', hdisk'⟩ := hvalues hok
            refine ⟨by omega, by omega, ?_⟩
            have hlen : ((buffer.drop ptr).take 512).length = 512 := by
              rw [List.length_take, List.length_drop]
              omega
            have hwrite := Tape.write_write d.disk (512 * lba.toNat) ((buffer.drop ptr).take 512)
              ((buffer.drop (ptr + 512)).take (512 * n))
            rw [hlen] at hwrite
            rw [hdisk', hdisk rfl, hnext, Nat.add_comm (512 * n), List.take_add,
              List.drop_drop]
            exact hwrite

/-! ## The tail -/

theorem bounce_spec (d : AtaDrive) (bounce : Vector UInt8 512) {lba : UInt32}
    (hlba : lba.toNat < 2 ^ 28) :
    ∃ ok bounce' d', d.ataReadSector lba bounce.toList 0 = some (ok, bounce', d') ∧
      d.Served ok d' ∧ d'.disk = d.disk ∧
      (ok = true → bounce' = Tape.read d.disk (512 * lba.toNat) 512) := by
  have hlength : bounce.toList.length = 512 := bounce.length_toList
  have hroom : 0 + 512 ≤ bounce.toList.length := by omega
  obtain ⟨ok, bounce', d', hsector, hserved, hdisk, hbuffer⟩ := d.ataReadSector_spec hlba hroom
  refine ⟨ok, bounce', d', hsector, hserved, hdisk, fun hok => ?_⟩
  rw [hbuffer hok, patch_whole (by rw [hlength, Tape.read_length])]

theorem readTail_spec (d : AtaDrive) (bounce : Vector UInt8 512) {tailBytes : Nat} {lba : UInt32}
    {ptr : Nat} {buffer : List UInt8} (htail : tailBytes < 512)
    (hlba : 0 < tailBytes → lba.toNat < 2 ^ 28) (hroom : ptr + tailBytes ≤ buffer.length) :
    ∃ ok buffer' d', d.readTail bounce tailBytes lba ptr buffer = some (ok, buffer', d') ∧
      d.Served ok d' ∧ d'.disk = d.disk ∧
      (ok = true →
        buffer' = patch buffer ptr (Tape.read d.disk (512 * lba.toNat) tailBytes)) := by
  rw [readTail]
  by_cases hzero : 0 < tailBytes
  · obtain ⟨ok, bounce', d', hsector, hserved, hdisk, hbounce⟩ := d.bounce_spec bounce (hlba hzero)
    rw [if_pos hzero, hsector, Option.bind_some]
    cases ok with
    | false => exact ⟨false, buffer, d', rfl, hserved, hdisk, by simp⟩
    | true =>
        have hlen := Tape.read_length d.disk (512 * lba.toNat) 512
        rw [hbounce rfl, if_pos rfl, Blocks.copy, if_neg (by omega),
          if_pos ⟨by rw [hlen]; omega, hroom⟩]
        refine ⟨true, _, d', rfl, hserved, hdisk, fun _ => ?_⟩
        rw [List.drop_zero, Tape.read_take _ _ (by omega)]
  · rw [if_neg hzero, show tailBytes = 0 by omega]
    exact ⟨true, buffer, d, rfl, .refl d, rfl, fun _ => patch_nil.symm⟩

theorem writeTail_spec (d : AtaDrive) (bounce : Vector UInt8 512) {tailBytes : Nat} {lba : UInt32}
    {ptr : Nat} {buffer : List UInt8} (htail : tailBytes < 512)
    (hlba : 0 < tailBytes → lba.toNat < 2 ^ 28) (hroom : ptr + tailBytes ≤ buffer.length) :
    ∃ ok d', d.writeTail bounce tailBytes lba ptr buffer = some (ok, d') ∧ d.Served ok d' ∧
      (ok = true →
        d'.disk = Tape.write d.disk (512 * lba.toNat) ((buffer.drop ptr).take tailBytes)) := by
  rw [writeTail]
  by_cases hzero : 0 < tailBytes
  · obtain ⟨ok, bounce', d₁, hsector, hserved, hdisk, hbounce⟩ := d.bounce_spec bounce (hlba hzero)
    rw [if_pos hzero, hsector, Option.bind_some]
    cases ok with
    | false => exact ⟨false, d₁, rfl, hserved, by simp⟩
    | true =>
        have hlen := Tape.read_length d.disk (512 * lba.toNat) 512
        have hseg : ((buffer.drop ptr).take tailBytes).length = tailBytes := by
          rw [List.length_take, List.length_drop]
          omega
        have hpatch : patch (Tape.read d.disk (512 * lba.toNat) 512) 0
            ((buffer.drop ptr).take tailBytes) = (buffer.drop ptr).take tailBytes ++
              Tape.read d.disk (512 * lba.toNat + tailBytes) (512 - tailBytes) := by
          rw [patch, List.take_zero, List.nil_append, hseg, Nat.zero_add,
            Tape.read_drop _ _ (by omega)]
        have hlength : ((buffer.drop ptr).take tailBytes ++
            Tape.read d.disk (512 * lba.toNat + tailBytes) (512 - tailBytes)).length = 512 := by
          rw [List.length_append, hseg, Tape.read_length]
          omega
        rw [hbounce rfl, if_pos rfl, Blocks.copy, if_neg (by omega),
          if_pos ⟨hroom, by rw [hlen]; omega⟩, Option.bind_some, hpatch]
        have hroom' : 0 + 512 ≤ ((buffer.drop ptr).take tailBytes ++
            Tape.read d.disk (512 * lba.toNat + tailBytes) (512 - tailBytes)).length := by
          rw [hlength]
        obtain ⟨ok, d', hwrite, hserved', hstored⟩ := d₁.ataWriteSector_spec (hlba hzero) hroom'
        refine ⟨ok, d', hwrite, hserved.trans hserved', fun hok => ?_⟩
        have hback := Tape.write_append_read d.disk (512 * lba.toNat)
          ((buffer.drop ptr).take tailBytes) (512 - tailBytes)
        rw [hseg] at hback
        rw [hstored hok, hdisk, List.drop_zero, List.take_of_length_le (by omega), hback]
  · rw [if_neg hzero, show tailBytes = 0 by omega]
    exact ⟨true, d, rfl, .refl d, fun _ => (Tape.write_read d.disk _ 0).symm⟩

/-! ## Byte transfers -/

theorem sectors_fit {address : UInt32} {total : Nat}
    (hfit : address.toNat + (total + 511) / 512 ≤ 2 ^ 28) :
    address.toNat + total / 512 ≤ 2 ^ 28 ∧
      (0 < total % 512 → address.toNat + total / 512 < 2 ^ 28) := by
  omega

theorem ataReadBytes_spec (d : AtaDrive) (bounce : Vector UInt8 512) {address : UInt32}
    {buffer : List UInt8} {totalBytes : UInt32} (htotal : totalBytes ≠ 0)
    (hlength : buffer.length = totalBytes.toNat)
    (hfit : address.toNat + (totalBytes.toNat + 511) / 512 ≤ 2 ^ 28) :
    ∃ ok buffer' d', d.ataReadBytes bounce address (some buffer) totalBytes =
      some (ok, some buffer', d') ∧ d.Served ok d' ∧ d'.disk = d.disk ∧
      (ok = true →
        buffer' = Tape.read d.disk (512 * address.toNat) totalBytes.toNat) := by
  obtain ⟨hfull, htail⟩ := sectors_fit hfit
  have hsplit : 512 * (totalBytes.toNat / 512) + totalBytes.toNat % 512 = totalBytes.toNat :=
    Nat.div_add_mod _ _
  have hroom : 0 + 512 * (totalBytes.toNat / 512) ≤ buffer.length := by omega
  obtain ⟨ok, lba, ptr, buffer₁, d₁, hloop, hserved, hdisk, hvalues⟩ :=
    readSectors_spec (totalBytes.toNat / 512) d hfull hroom
  simp only [ataReadBytes, if_neg htotal, ataSectorSize, hloop, Option.bind_some]
  cases ok with
  | false => exact ⟨false, buffer₁, d₁, rfl, hserved, hdisk, by simp⟩
  | true =>
      obtain ⟨hlba, hptr, hbuffer⟩ := hvalues rfl
      have hread := Tape.read_length d.disk (512 * address.toNat) (512 * (totalBytes.toNat / 512))
      have hlength₁ : buffer₁.length = buffer.length := by
        rw [hbuffer, patch_length (by omega)]
      have hlt : totalBytes.toNat % 512 < 512 := Nat.mod_lt _ (by decide)
      have htail' : 0 < totalBytes.toNat % 512 → lba.toNat < 2 ^ 28 := by omega
      have hroom' : ptr + totalBytes.toNat % 512 ≤ buffer₁.length := by omega
      obtain ⟨ok, buffer', d', htrans, hserved', hdisk', hbuffer'⟩ :=
        d₁.readTail_spec bounce hlt htail' hroom'
      rw [if_pos rfl, htrans]
      refine ⟨ok, buffer', d', rfl, hserved.trans hserved', hdisk'.trans hdisk, fun hok => ?_⟩
      have hadd := Tape.read_add d.disk (512 * address.toNat) (512 * (totalBytes.toNat / 512))
        (totalBytes.toNat % 512)
      rw [hsplit] at hadd
      have hwhole : patch buffer 0 (Tape.read d.disk (512 * address.toNat) totalBytes.toNat) =
          Tape.read d.disk (512 * address.toNat) totalBytes.toNat :=
        patch_whole (hlength.trans (Tape.read_length _ _ _).symm)
      rw [hbuffer' hok, hbuffer, hdisk, hptr, hlba, Nat.mul_add, ← hwhole, hadd]
      rw [← hadd, patch_read _ _ (by omega), hsplit]

theorem ataWriteBytes_spec (d : AtaDrive) (bounce : Vector UInt8 512) {address : UInt32}
    {buffer : List UInt8} {totalBytes : UInt32} (htotal : totalBytes ≠ 0)
    (hlength : buffer.length = totalBytes.toNat)
    (hfit : address.toNat + (totalBytes.toNat + 511) / 512 ≤ 2 ^ 28) :
    ∃ ok d', d.ataWriteBytes bounce address (some buffer) totalBytes = some (ok, d') ∧
      d.Served ok d' ∧ (ok = true → d'.disk = Tape.write d.disk (512 * address.toNat) buffer) := by
  obtain ⟨hfull, htail⟩ := sectors_fit hfit
  have hsplit : 512 * (totalBytes.toNat / 512) + totalBytes.toNat % 512 = totalBytes.toNat :=
    Nat.div_add_mod _ _
  have hroom : 0 + 512 * (totalBytes.toNat / 512) ≤ buffer.length := by omega
  obtain ⟨ok, lba, ptr, d₁, hloop, hserved, hvalues⟩ :=
    writeSectors_spec (totalBytes.toNat / 512) d hfull hroom
  simp only [ataWriteBytes, if_neg htotal, ataSectorSize, hloop, Option.bind_some]
  cases ok with
  | false => exact ⟨false, d₁, rfl, hserved, by simp⟩
  | true =>
      obtain ⟨hlba, hptr, hdisk⟩ := hvalues rfl
      have hlt : totalBytes.toNat % 512 < 512 := Nat.mod_lt _ (by decide)
      have htail' : 0 < totalBytes.toNat % 512 → lba.toNat < 2 ^ 28 := by omega
      have hroom' : ptr + totalBytes.toNat % 512 ≤ buffer.length := by omega
      obtain ⟨ok, d', htrans, hserved', hdisk'⟩ := d₁.writeTail_spec bounce hlt htail' hroom'
      rw [if_pos rfl, htrans]
      refine ⟨ok, d', rfl, hserved.trans hserved', fun hok => ?_⟩
      have hseg : (buffer.take (512 * (totalBytes.toNat / 512))).length =
          512 * (totalBytes.toNat / 512) := by
        rw [List.length_take]
        omega
      have hrest : (buffer.drop (512 * (totalBytes.toNat / 512))).take (totalBytes.toNat % 512) =
          buffer.drop (512 * (totalBytes.toNat / 512)) := by
        apply List.take_of_length_le
        rw [List.length_drop]
        omega
      have hwrite := Tape.write_write d.disk (512 * address.toNat)
        (buffer.take (512 * (totalBytes.toNat / 512)))
        (buffer.drop (512 * (totalBytes.toNat / 512)))
      rw [hseg, List.take_append_drop] at hwrite
      rw [hdisk' hok, hdisk, hptr, hlba, Nat.mul_add, Nat.zero_add, List.drop_zero, hrest, hwrite]

end AtaDrive

open AtaDrive in
/-- A write of any length that succeeds changes exactly its bytes of the disk and a read of the
range then gives them back. The buffer has no byte beyond the length, and no access leaves it.
Both succeed on a drive that carries out its commands. -/
theorem ataBytes_roundTrip (d : AtaDrive) (bounce bounce' : Vector UInt8 512) (address : UInt32)
    (buffer : List UInt8) (totalBytes : UInt32) (htotal : totalBytes ≠ 0)
    (hlength : buffer.length = totalBytes.toNat)
    (hfit : address.toNat + (totalBytes.toNat + 511) / 512 ≤ 2 ^ 28) :
    ∃ ok d', d.ataWriteBytes bounce address (some buffer) totalBytes = some (ok, d') ∧
      (d.Responsive → ok = true) ∧
      (ok = true →
        (∀ pos, d'.disk pos =
          if 512 * address.toNat ≤ pos ∧ pos < 512 * address.toNat + totalBytes.toNat then
            buffer.getD (pos - 512 * address.toNat) 0
          else d.disk pos) ∧
        ∀ target : List UInt8, target.length = totalBytes.toNat →
          ∃ ok' target' d'', d'.ataReadBytes bounce' address (some target) totalBytes =
            some (ok', some target', d'') ∧
            (d.Responsive → ok' = true) ∧ d''.disk = d'.disk ∧
            (ok' = true → target' = buffer)) := by
  obtain ⟨ok, d', hwrite, hserved, hdisk⟩ := d.ataWriteBytes_spec bounce htotal hlength hfit
  refine ⟨ok, d', hwrite, hserved.succeeds, fun hok => ⟨fun pos => ?_, fun target htarget => ?_⟩⟩
  · rw [hdisk hok]
    split
    next hin =>
      have hmem : some (Tape.write d.disk (512 * address.toNat) buffer pos) =
          buffer[pos - 512 * address.toNat]? := Tape.write_of_mem (by omega)
      rw [List.getD_eq_getElem?_getD, ← hmem, Option.getD_some]
    next hout => exact Tape.write_of_not_mem (by omega)
  · obtain ⟨ok', target', d'', hread, hserved', hdisk', hvalues⟩ :=
      d'.ataReadBytes_spec bounce' htotal htarget hfit
    refine ⟨ok', target', d'', hread, ?_, hdisk', fun hok' => ?_⟩
    · exact fun hd => hserved'.succeeds (hserved.responsive hd)
    · rw [hvalues hok', hdisk hok, ← hlength, Tape.read_write]

/-- An empty drive that carries out every command at once. -/
def blankDrive : AtaDrive where
  disk _ := 0
  answer _ := some 0
  commands := 0
  busy := 0
  error := false
  transfer := .toHost []
  count := 0
  low := 0
  mid := 0
  high := 0
  device := 0

theorem ataBytes_roundTrip_three :
    ∃ d', blankDrive.ataWriteBytes (Vector.replicate 512 0) 1 (some [1, 2, 3]) 3 =
        some (true, d') ∧ d'.disk 513 = 2 ∧ d'.disk 515 = 0 ∧
      ∃ d'', d'.ataReadBytes (Vector.replicate 512 0) 1 (some [0, 0, 0]) 3 =
        some (true, some [1, 2, 3], d'') := by
  have hd : blankDrive.Responsive := fun _ => ⟨0, by decide, rfl⟩
  obtain ⟨ok, d', hwrite, hok, hvalues⟩ :=
    ataBytes_roundTrip blankDrive (Vector.replicate 512 0) (Vector.replicate 512 0) 1 [1, 2, 3] 3
      (by decide) (by decide) (by decide)
  obtain ⟨hdisk, hread⟩ := hvalues (hok hd)
  obtain ⟨ok', target', d'', hread, hok', -, htarget⟩ := hread [0, 0, 0] (by decide)
  rw [hok hd] at hwrite
  rw [hok' hd, htarget (hok' hd)] at hread
  refine ⟨d', hwrite, ?_, ?_, d'', hread⟩
  · rw [hdisk]
    decide
  · rw [hdisk]
    decide

end AvrKernel.Drivers

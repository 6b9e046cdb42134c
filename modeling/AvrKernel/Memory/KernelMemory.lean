import AvrKernel.Lib.Bytes
import AvrKernel.Lib.Tape
import AvrKernel.Memory.PageRun

/-!
# Bytes behind pages

The memory of the kernel as its code reads and writes it: every access is translated by the page
tables, and an access to a page that is not mapped is a fault. `MemView` is what a state shows of
the area between `VM_START` and `VM_END`: what its pages are used for, and the bytes of those that
are backed by frames. `memset` and `memcpy` are those of `util/string.c`.
-/

namespace AvrKernel.Memory

open Comp
open Bytes (Layout)
structure SlabCache where
  objectSize : UInt32
  pageList : UInt32
  deriving DecidableEq

/-- The kernel's own variables are kept apart from the memory that is handed out. -/
structure KernelMemory where
  vmm : VmmState
  phys : UInt32 → UInt8
  caches : Nat → SlabCache
  cachesAt : UInt32
  /-- The address and the text that `kernel_crashout` was called with. -/
  crash : Option (UInt32 × String)

abbrev MemM (α : Type) : Type := Comp KernelMemory α

/-! ## Access to memory -/

def load8 (address : UInt32) : MemM UInt8 := do
  let s ← get
  require (s.vmm.tables.Mapped address)
  return s.phys (s.vmm.tables.vmmGetPhysAddr address)

def store8 (address : UInt32) (value : UInt8) : MemM Unit := do
  let s ← get
  require (s.vmm.tables.Mapped address)
  set { s with phys := Function.update s.phys (s.vmm.tables.vmmGetPhysAddr address) value }

/-- A word of four bytes, each in a page of its own if need be. -/
def load32 (address : UInt32) : MemM UInt32 := do
  let b0 ← load8 address
  let b1 ← load8 (address + 1)
  let b2 ← load8 (address + 2)
  let b3 ← load8 (address + 3)
  return Layout.u32.decode [b0, b1, b2, b3]

def storeBytes (address : UInt32) : List UInt8 → MemM Unit
  | [] => pure ()
  | value :: rest => do
      store8 address value
      storeBytes (address + 1) rest

def store32 (address value : UInt32) : MemM Unit := storeBytes address (Layout.u32.encode value)

def memset (str : UInt32) (value : UInt8) : Nat → MemM Unit
  | 0 => pure ()
  | n + 1 => do
      store8 str value
      memset (str + 1) value n

def memcpy (dest src : UInt32) : Nat → MemM Unit
  | 0 => pure ()
  | n + 1 => do
      let value ← load8 src
      store8 dest value
      memcpy (dest + 1) (src + 1) n

/-- `kernel_crashout` does not return. -/
def kernelCrashout {α : Type} (faultingAddress : UInt32) (extra : String) : MemM α := do
  modify fun s => { s with crash := some (faultingAddress, extra) }
  stop

/-- A function of the virtual memory manager. -/
def pager {α : Type} (c : VmmM α) : MemM α := zoom KernelMemory.vmm (fun vmm s => { s with vmm }) c

/-! ## Positions -/

/-- The address of a position in the area. -/
def areaAddress (x : Nat) : UInt32 := vmStart + .ofNat x

theorem areaAddress_add (x k : Nat) : areaAddress x + .ofNat k = areaAddress (x + k) := by
  rw [areaAddress, areaAddress, UInt32.ofNat_add, UInt32.add_assoc]

theorem areaAddress_succ (x : Nat) : areaAddress x + 1 = areaAddress (x + 1) := areaAddress_add x 1

/-! The fields of the headers of pages -/

theorem areaAddress_four (x : Nat) : areaAddress x + 4 = areaAddress (x + 4) := areaAddress_add x 4

theorem areaAddress_eight (x : Nat) : areaAddress x + 8 = areaAddress (x + 8) := areaAddress_add x 8

theorem areaAddress_twelve (x : Nat) : areaAddress x + 12 = areaAddress (x + 12) :=
  areaAddress_add x 12

theorem pageAddress_eq (page : Nat) : pageAddress page = areaAddress (4096 * page) := by
  rw [pageAddress, areaAddress, Nat.mul_comm, UInt32.ofNat_mul]
  rfl

theorem toNat_areaAddress {x : Nat} (hx : x < 0x10000000) :
    (areaAddress x).toNat = 0x10000000 + x := by
  have hstart : vmStart.toNat = 0x10000000 := rfl
  rw [areaAddress, UInt32.toNat_add, UInt32.toNat_ofNat', hstart]
  omega

theorem areaAddress_inj {x y : Nat} (hx : x < 0x10000000) (hy : y < 0x10000000) :
    areaAddress x = areaAddress y ↔ x = y := by
  rw [← UInt32.toNat_inj, toNat_areaAddress hx, toNat_areaAddress hy]
  omega

theorem areaAddress_ne_zero {x : Nat} (hx : x < 0x10000000) : areaAddress x ≠ 0 := by
  intro hzero
  have hnat := congrArg UInt32.toNat hzero
  rw [toNat_areaAddress hx, UInt32.toNat_zero] at hnat
  omega

theorem pageOf_areaAddress {y : Nat} (hy : y < 0x10000000) :
    PageSystem.pageOf (areaAddress y) = y / 4096 := by
  have hstart : vmStart.toNat = 0x10000000 := rfl
  have hsize : pageSize.toNat = 4096 := rfl
  have hnat := toNat_areaAddress hy
  rw [PageSystem.pageOf, UInt32.toNat_div,
    UInt32.toNat_sub_of_le _ _ (UInt32.le_iff_toNat_le.mpr (by omega)), hnat, hstart, hsize]
  omega

/-! ## What a state shows -/

/-- The page of the position is backed by a frame. -/
def Space.Backed (S : Space) (x : Nat) : Prop := ∃ frame, S.use (x / 4096) = some (.frame frame)

/-- All of the `n` positions from `x` on are backed. -/
def Space.BackedRange (S : Space) (x n : Nat) : Prop :=
  ∀ y, x ≤ y → y < x + n → S.Backed y

@[ext] structure MemView where
  space : Space
  bytes : Nat → UInt8
  caches : Nat → SlabCache
  cachesAt : UInt32

namespace MemView

variable {V : MemView} {x k : Nat}

def write (V : MemView) (x : Nat) (values : List UInt8) : MemView :=
  { V with bytes := Tape.write V.bytes x values }

def word (V : MemView) (x : Nat) : UInt32 := Layout.u32.decode (Tape.read V.bytes x 4)

def writeWord (V : MemView) (x : Nat) (value : UInt32) : MemView :=
  V.write x (Layout.u32.encode value)

theorem write_nil : V.write x [] = V := by
  have hbytes : Tape.write V.bytes x [] = V.bytes := Tape.write_read V.bytes x 0
  rw [write, hbytes]

theorem write_cons (value : UInt8) (values : List UInt8) :
    (V.write x [value]).write (x + 1) values = V.write x (value :: values) :=
  congrArg (MemView.mk V.space · V.caches V.cachesAt) (Tape.write_write V.bytes x [value] values)

/-- A position that is not written keeps its byte. -/
theorem bytes_write_of_not_mem {values : List UInt8} {y : Nat}
    (hy : ¬ (x ≤ y ∧ y < x + values.length)) : (V.write x values).bytes y = V.bytes y :=
  Tape.write_of_not_mem hy

theorem bytes_writeWord_of_not_mem {value : UInt32} {y : Nat} (hy : ¬ (x ≤ y ∧ y < x + 4)) :
    (V.writeWord x value).bytes y = V.bytes y := by
  apply bytes_write_of_not_mem
  rwa [Layout.u32.encode_length]

/-- All bytes of a filled range are equal. -/
theorem bytes_write_replicate {value : UInt8} {y : Nat} (hle : x ≤ y) (hlt : y < x + k) :
    (V.write x (List.replicate k value)).bytes y = value := by
  have hlen : (List.replicate k value).length = k := List.length_replicate
  apply Option.some.inj
  rw [write, Tape.write_of_mem (by omega), List.getElem?_replicate, if_pos (by omega)]

theorem word_congr {W : MemView} (h : ∀ y, x ≤ y → y < x + 4 → V.bytes y = W.bytes y) :
    V.word x = W.word x := by
  rw [word, word, Tape.read_congr _ _ h]

@[simp] theorem word_writeWord (value : UInt32) : (V.writeWord x value).word x = value := by
  have hread := Tape.read_write V.bytes x (Layout.u32.encode value)
  rw [Layout.u32.encode_length] at hread
  change Layout.u32.decode (Tape.read (Tape.write V.bytes x (Layout.u32.encode value)) x 4) = value
  rw [show Layout.u32.size = 4 from rfl] at hread
  rw [hread, Layout.u32.decode_encode_self]

theorem word_writeWord_of_ne {y : Nat} (value : UInt32) (h : x + 4 ≤ y ∨ y + 4 ≤ x) :
    (V.writeWord x value).word y = V.word y := by
  apply word_congr
  intro z hle hlt
  exact bytes_writeWord_of_not_mem (by omega)

end MemView

namespace KernelMemory

/-- What the area shows: its pages and their bytes. Outside of it nothing has changed since boot,
and the kernel has not crashed. -/
structure Shows (boot : VmmState) (s : KernelMemory) (V : MemView) : Prop where
  space : s.vmm.Shows V.space
  bytes : ∀ x, V.space.Backed x →
    s.phys (s.vmm.tables.vmmGetPhysAddr (areaAddress x)) = V.bytes x
  caches : s.caches = V.caches
  cachesAt : s.cachesAt = V.cachesAt
  outside : boot.SameOutside s.vmm
  crash : s.crash = none

variable {boot : VmmState} {s : KernelMemory} {V : MemView} {x k n : Nat}
  {halt : KernelMemory → Prop}

theorem samePage_areaAddress (hx : x < 0x10000000) :
    SamePage (areaAddress x) (pageAddress (x / 4096)) := by
  rw [SamePage, pageAddress_eq, toNat_areaAddress hx, toNat_areaAddress (by omega)]
  omega

theorem translate_area {vmm : VmmState} {S : Space} (h : vmm.Shows S) {frame : Nat}
    (huse : S.use (x / 4096) = some (.frame frame)) :
    vmm.tables.Mapped (areaAddress x) ∧
      (vmm.tables.vmmGetPhysAddr (areaAddress x)).toNat = frame * 4096 + x % 4096 := by
  have hpage : x / 4096 < 0x10000 := h.lt_virtPages huse
  have hx : x < 0x10000000 := by omega
  obtain ⟨hmapped, hphys⟩ := h.translate huse (samePage_areaAddress hx)
  rw [toNat_areaAddress hx] at hphys
  refine ⟨hmapped, ?_⟩
  omega

theorem Shows.mapped (h : s.Shows boot V) (hx : V.space.Backed x) :
    s.vmm.tables.Mapped (areaAddress x) := by
  obtain ⟨frame, huse⟩ := hx
  exact (translate_area h.space huse).1

/-- Two backed positions share no byte. -/
theorem Shows.translate_inj (h : s.Shows boot V) {y : Nat} (hx : V.space.Backed x)
    (hy : V.space.Backed y) (heq : s.vmm.tables.vmmGetPhysAddr (areaAddress x) =
      s.vmm.tables.vmmGetPhysAddr (areaAddress y)) : x = y := by
  obtain ⟨frame, huse⟩ := hx
  obtain ⟨frame', huse'⟩ := hy
  have hnat := congrArg UInt32.toNat heq
  rw [(translate_area h.space huse).2, (translate_area h.space huse').2] at hnat
  obtain rfl : frame = frame' := by omega
  have hpage := h.space.valid.once (Space.held_pool.mpr huse) (Space.held_pool.mpr huse')
  omega

theorem Shows.load8 (h : s.Shows boot V) (hx : V.space.Backed x)
    {post : UInt8 → KernelMemory → Prop} :
    Ensures n (load8 (areaAddress x)) s post halt ↔ post (V.bytes x) s := by
  rw [Memory.load8]
  simp [ensures_bind, h.mapped hx, h.bytes x hx]

theorem Shows.store8 (h : s.Shows boot V) (hx : V.space.Backed x) (value : UInt8) :
    Ensures n (store8 (areaAddress x) value) s (fun _ s' => s'.Shows boot (V.write x [value]))
      halt := by
  rw [Memory.store8]
  simp only [ensures_bind, ensures_get, ensures_require, h.mapped hx, true_and, ensures_set]
  refine ⟨h.space, fun y hy => ?_, h.caches, h.cachesAt, h.outside, h.crash⟩
  change Function.update s.phys (s.vmm.tables.vmmGetPhysAddr (areaAddress x)) value
    (s.vmm.tables.vmmGetPhysAddr (areaAddress y)) = (V.write x [value]).bytes y
  by_cases heq : y = x
  · subst heq
    rw [Function.update_self]
    exact (MemView.bytes_write_replicate (k := 1) (Nat.le_refl y) (Nat.lt_succ_self y)).symm
  · have hne : s.vmm.tables.vmmGetPhysAddr (areaAddress y) ≠
        s.vmm.tables.vmmGetPhysAddr (areaAddress x) :=
      fun hphys => heq (h.translate_inj hy hx hphys)
    have hout : ¬ (x ≤ y ∧ y < x + [value].length) := by
      rw [List.length_singleton]
      omega
    rw [Function.update_of_ne hne, MemView.bytes_write_of_not_mem hout]
    exact h.bytes y hy

theorem Space.BackedRange.head {S : Space} (h : S.BackedRange x (k + 1)) : S.Backed x :=
  h x (Nat.le_refl x) (by omega)

theorem Space.BackedRange.tail {S : Space} (h : S.BackedRange x (k + 1)) :
    S.BackedRange (x + 1) k :=
  fun y hle hlt => h y (by omega) (by omega)

theorem Shows.storeBytes {values : List UInt8} (h : s.Shows boot V)
    (hx : V.space.BackedRange x values.length) :
    Ensures n (storeBytes (areaAddress x) values) s (fun _ s' => s'.Shows boot (V.write x values))
      halt := by
  induction values generalizing s V x with
  | nil =>
      rw [MemView.write_nil]
      exact h
  | cons value rest ih =>
      rw [Memory.storeBytes, areaAddress_succ]
      refine (h.store8 (Space.BackedRange.head hx) value).bind fun _ s' hs' => ?_
      have hrest := ih hs' (Space.BackedRange.tail hx)
      rwa [MemView.write_cons] at hrest

theorem Shows.store32 (h : s.Shows boot V) (hx : V.space.BackedRange x 4) (value : UInt32) :
    Ensures n (store32 (areaAddress x) value) s (fun _ s' => s'.Shows boot (V.writeWord x value))
      halt :=
  h.storeBytes (by rwa [Layout.u32.encode_length])

theorem Shows.load32 (h : s.Shows boot V) (hx : V.space.BackedRange x 4)
    {post : UInt32 → KernelMemory → Prop} :
    Ensures n (load32 (areaAddress x)) s post halt ↔ post (V.word x) s := by
  have h0 := hx x (by omega) (by omega)
  have h1 := hx (x + 1) (by omega) (by omega)
  have h2 := hx (x + 2) (by omega) (by omega)
  have h3 := hx (x + 3) (by omega) (by omega)
  have e1 : areaAddress x + 1 = areaAddress (x + 1) := areaAddress_add x 1
  have e2 : areaAddress x + 2 = areaAddress (x + 2) := areaAddress_add x 2
  have e3 : areaAddress x + 3 = areaAddress (x + 3) := areaAddress_add x 3
  rw [Memory.load32, e1, e2, e3, ensures_bind, h.load8 h0, ensures_bind, h.load8 h1, ensures_bind,
    h.load8 h2, ensures_bind, h.load8 h3, ensures_pure]
  exact Iff.rfl

theorem Shows.memset {count : Nat} (h : s.Shows boot V) (hx : V.space.BackedRange x count)
    (value : UInt8) :
    Ensures n (memset (areaAddress x) value count) s
      (fun _ s' => s'.Shows boot (V.write x (List.replicate count value))) halt := by
  induction count generalizing s V x with
  | zero =>
      rw [List.replicate_zero, MemView.write_nil]
      exact h
  | succ count ih =>
      rw [Memory.memset, areaAddress_succ]
      refine (h.store8 (Space.BackedRange.head hx) value).bind fun _ s' hs' => ?_
      have hrest := ih hs' (Space.BackedRange.tail hx)
      rwa [MemView.write_cons] at hrest

theorem Shows.memcpy {count d : Nat} (h : s.Shows boot V) (hd : V.space.BackedRange d count)
    (hx : V.space.BackedRange x count) (hapart : d + count ≤ x ∨ x + count ≤ d) :
    Ensures n (memcpy (areaAddress d) (areaAddress x) count) s
      (fun _ s' => s'.Shows boot (V.write d (Tape.read V.bytes x count))) halt := by
  induction count generalizing s V x d with
  | zero =>
      rw [Tape.read, MemView.write_nil]
      exact h
  | succ count ih =>
      rw [Memory.memcpy, areaAddress_succ, areaAddress_succ, ensures_bind,
        h.load8 (Space.BackedRange.head hx)]
      refine (h.store8 (Space.BackedRange.head hd) _).bind fun _ s' hs' => ?_
      have hrest := ih hs' (Space.BackedRange.tail hd) (Space.BackedRange.tail hx) (by omega)
      have hsame : Tape.read (V.write d [V.bytes x]).bytes (x + 1) count =
          Tape.read V.bytes (x + 1) count := by
        apply Tape.read_congr
        intro y hle hlt
        apply MemView.bytes_write_of_not_mem
        rw [List.length_singleton]
        omega
      rw [hsame, MemView.write_cons] at hrest
      exact hrest

/-! ## Pages come and go -/

/-- Where the pages are used as before, the bytes are the same. -/
theorem Shows.repage (h : s.Shows boot V) {vmm : VmmState} {T : Space} (hT : vmm.Shows T)
    (hsame : s.vmm.SameOutside vmm) : ∃ bytes : Nat → UInt8,
      (∀ x, V.space.Backed x → T.use (x / 4096) = V.space.use (x / 4096) →
        bytes x = V.bytes x) ∧
      Shows boot { s with vmm } { V with space := T, bytes } := by
  refine ⟨fun x => s.phys (vmm.tables.vmmGetPhysAddr (areaAddress x)), fun x hx huse => ?_,
    hT, fun _ _ => rfl, h.caches, h.cachesAt, h.outside.trans hsame, h.crash⟩
  rw [← h.bytes x hx]
  obtain ⟨frame, hframe⟩ := hx
  have hphys : vmm.tables.vmmGetPhysAddr (areaAddress x) =
      s.vmm.tables.vmmGetPhysAddr (areaAddress x) := by
    apply UInt32.toNat_inj.mp
    rw [(translate_area hT (huse.trans hframe)).2, (translate_area h.space hframe).2]
  exact congrArg s.phys hphys

theorem Shows.vmmAllocPages (h : s.Shows boot V) (numPages : UInt32) :
    Ensures n (pager (vmmAllocPages numPages)) s
      (fun address s' => ∃ start T bytes, address = areaAddress (4096 * start) ∧
        0 < numPages.toNat ∧
        FirstFit.Lowest V.space.unused 0 virtPages numPages.toNat start ∧
        V.space.Taken start numPages.toNat T ∧ (∀ x, V.space.Backed x → bytes x = V.bytes x) ∧
        s'.Shows boot { V with space := T, bytes })
      fun s' => s'.Shows boot V ∧ (numPages = 0 ∨ ¬ V.space.HasRun numPages.toNat ∨
        V.space.free.card < numPages.toNat) := by
  rw [pager, ensures_zoom]
  refine (h.space.vmmAllocPages numPages).mono ?_ ?_
  · rintro address vmm ⟨start, T, rfl, hpos, hlowest, hT, htaken, hsame⟩
    obtain ⟨bytes, hbytes, hs'⟩ := h.repage hT hsame
    refine ⟨start, T, bytes, pageAddress_eq start, hpos, hlowest, htaken, fun x hx => ?_, hs'⟩
    apply hbytes x hx
    apply htaken.outside
    rintro ⟨hle, hlt⟩
    obtain ⟨frame, huse⟩ := hx
    rw [Space.use_of_run hlowest.run hle hlt] at huse
    cases huse
  · rintro vmm ⟨hvmm, hsame, hreason⟩
    obtain ⟨bytes, hbytes, hs'⟩ := h.repage hvmm hsame
    refine ⟨⟨hs'.space, fun x hx => ?_, hs'.caches, hs'.cachesAt, hs'.outside, hs'.crash⟩, hreason⟩
    rw [hs'.bytes x hx]
    exact hbytes x hx rfl

/-- The bytes of the pages that are left stay as they are. -/
theorem Shows.vmmFreePages (h : s.Shows boot V) {start count : Nat}
    (hstart : start < virtPages) (hrange : start + count ≤ virtPages)
    (hdevice : ∀ page, start ≤ page → page < start + count →
      ∀ entry, V.space.use page ≠ some (.device entry)) :
    Ensures n (pager (vmmFreePages (areaAddress (4096 * start)) (.ofNat count))) s
      (fun _ s' => ∃ T, V.space.Vacated start count T ∧ s'.Shows boot { V with space := T })
      halt := by
  have hrange' : start + count ≤ 0x10000 := hrange
  have hcount : (UInt32.ofNat count).toNat = count := by
    rw [UInt32.toNat_ofNat']
    omega
  rw [pager, ensures_zoom, ← pageAddress_eq]
  refine (h.space.vmmFreePages hstart (VmmState.pageAddress_page hstart) (by rwa [hcount])
    (by rwa [hcount])).imp ?_
  rintro - vmm ⟨T, hT, hvacated, hsame⟩
  rw [hcount] at hvacated
  obtain ⟨bytes, hbytes, hs'⟩ := h.repage hT hsame
  refine ⟨T, hvacated, hs'.space, fun x hx => ?_, hs'.caches, hs'.cachesAt, hs'.outside, hs'.crash⟩
  rw [hs'.bytes x hx]
  obtain ⟨frame, huse⟩ := hx
  have hsame' : T.use (x / 4096) = V.space.use (x / 4096) := by
    apply hvacated.outside
    rintro ⟨hle, hlt⟩
    rw [hvacated.inside _ hle hlt] at huse
    cases huse
  exact hbytes x ⟨frame, hsame' ▸ huse⟩ hsame'

end KernelMemory

end AvrKernel.Memory

import AvrKernel.Kernel.Blocks
import AvrKernel.Kernel.ReadOnly
import AvrKernel.Lib.Intervals
import Mathlib.Data.List.Pairwise

/-!
# Allocations of the kernel heap

What `kmalloc` has given to its callers and `kfree` has not taken back: each allocation has
blocks of its own, which the bitmap tells and a header in front of the payload.
-/

namespace AvrKernel.Kernel

open Bytes Effect

/-- What a caller of `kmalloc` holds. -/
structure Allocation where
  address : UInt32
  size : UInt32
  deriving DecidableEq

namespace Allocation

variable (heap : KernelHeap) (a : Allocation)

/-- The header, from the start of the heap. -/
def place : UInt32 := KernelM.headerOf heap a.address

/-- The first block. -/
def start : Nat := (a.place heap / heap.blockSize).toNat

def blocks : Nat := (KernelM.kmallocBlocksRequired heap (a.size + kmallocHeaderSize)).toNat

/-- Block `i` belongs to the allocation. -/
abbrev Covers (i : Nat) : Prop := Intervals.Covers (start heap) (blocks heap) a i

/-- The allocation is a range of blocks of the heap. -/
structure Lies : Prop where
  size_pos : 0 < a.size.toNat
  blocks_pos : 0 < a.blocks heap
  aligned : (a.place heap).toNat = a.start heap * heap.blockSize.toNat
  above : heap.reservedBlocks.toNat ≤ a.start heap
  below : a.start heap + a.blocks heap ≤ heap.blockCount.toNat

/-- The blocks of two allocations are different ones. -/
def ApartIn (a b : Allocation) : Prop :=
  a.start heap + a.blocks heap ≤ b.start heap ∨ b.start heap + b.blocks heap ≤ a.start heap

end Allocation

namespace KernelState

/-- The header at a place. -/
def header (k : KernelState) (place : UInt32) : KMallocHeader :=
  KMallocHeader.layout.decode (k.memory.read (k.heap.heapBegin + place) 16)

/-- An allocation in the heap, and its header. -/
structure Holds (k : KernelState) (a : Allocation) : Prop where
  lies : a.Lies k.heap
  magic : (k.header (a.place k.heap)).magic = kmallocMagic
  size : (k.header (a.place k.heap)).size = a.size

/-- The allocations in the heap are these. -/
structure Allocated (k : KernelState) (live : List Allocation) : Prop where
  placed : k.heap.Placed
  holds : ∀ a ∈ live, k.Holds a
  fits : ∀ a ∈ live, a.size.toNat + 16 < 2 ^ 32
  apart : live.Pairwise (Allocation.ApartIn k.heap)
  bits : ∀ i, k.heap.reservedBlocks.toNat ≤ i → i < 8 * k.heap.bitmapSize.toNat →
    (k.bit i = true ↔ ∃ a ∈ live, a.Covers k.heap i)

/-- The header and the payload of an allocation are as they were. -/
def Keeps (k k' : KernelState) (a : Allocation) : Prop :=
  ∀ j < 16 + a.size.toNat, k'.memory (k.heap.heapBegin + a.place k.heap + .ofNat j) =
    k.memory (k.heap.heapBegin + a.place k.heap + .ofNat j)

/-- The bytes at a place are those of a header whose blocks lie in the heap. -/
structure SpellsHeader (k : KernelState) (place : UInt32) : Prop where
  above : k.heap.reservedBlocks.toNat * k.heap.blockSize.toNat ≤ place.toNat
  below : place.toNat + 16 < k.heap.poolSize.toNat
  magic : (k.header place).magic = kmallocMagic
  size : (k.header place).size ≠ 0
  blocks : KernelM.kmallocBlocksRequired k.heap ((k.header place).size + kmallocHeaderSize) ≠ 0
  fits : place / k.heap.blockSize +
    KernelM.kmallocBlocksRequired k.heap ((k.header place).size + kmallocHeaderSize) ≤
      k.heap.blockCount

theorem SpellsHeader.byte {k : KernelState} {place : UInt32} (h : k.SpellsHeader place) :
    k.memory (k.heap.heapBegin + (place + 7)) = kmallocMagic := by
  have hread : (k.header place).magic =
      k.memory (k.heap.heapBegin + place + 1 + 1 + 1 + 1 + 1 + 1 + 1) := rfl
  rw [← h.magic, hread]
  simp only [UInt32.add_assoc]
  rfl

end KernelState

namespace KernelM

variable {k : KernelState} {n : Nat}

@[simp] theorem run_headerRead (place : UInt32) :
    (kmallocHeaderRead place).run n KernelState.handle k = some (k.header place, k) := rfl

@[simp] theorem run_headerWrite (place : UInt32) (header : KMallocHeader) :
    (kmallocHeaderWrite place header).run n KernelState.handle k =
      some ((), { k with
        memory := k.memory.write (k.heap.heapBegin + place)
          (KMallocHeader.layout.encode header) }) := rfl

end KernelM

/-! ## Blocks of a size -/

theorem headerSize_toNat : kmallocHeaderSize.toNat = 16 := rfl

/-- Blocks are enough for what they are required for, if there are any. -/
theorem le_blocksRequired_mul {heap : KernelHeap} (hpos : 0 < heap.blockSize.toNat) {total : UInt32}
    (hblocks : KernelM.kmallocBlocksRequired heap total ≠ 0) :
    total.toNat ≤
      (KernelM.kmallocBlocksRequired heap total).toNat * heap.blockSize.toNat := by
  have hlt := heap.blockSize.toNat_lt
  have htotal := total.toNat_lt
  rw [KernelM.kmallocBlocksRequired] at hblocks ⊢
  split at hblocks
  · exact absurd rfl hblocks
  next hzero =>
    rw [if_neg hzero, UInt32.toNat_div]
    have hminus : (heap.blockSize - 1).toNat = heap.blockSize.toNat - 1 := by
      rw [Mem.toNat_sub_of_le (by rw [UInt32.toNat_one]; omega), UInt32.toNat_one]
    have hsum : (total + (heap.blockSize - 1)).toNat =
        (total.toNat + (heap.blockSize.toNat - 1)) % 2 ^ 32 := by
      rw [UInt32.toNat_add, hminus]
    by_cases hwrap : total.toNat + (heap.blockSize.toNat - 1) < 2 ^ 32
    · rw [hsum, Nat.mod_eq_of_lt hwrap]
      have hround := Nat.div_add_mod' (total.toNat + (heap.blockSize.toNat - 1))
        heap.blockSize.toNat
      have hmod := Nat.mod_lt (total.toNat + (heap.blockSize.toNat - 1)) hpos
      omega
    · -- the sum has wrapped to less than a block
      exfalso
      apply hblocks
      apply UInt32.toNat_inj.mp
      rw [UInt32.toNat_div, hsum, UInt32.toNat_zero]
      exact Nat.div_eq_of_lt (by omega)

/-! ## Handles -/

section Handles

variable {k k' : KernelState} {n : Nat} {a : Allocation} {address : UInt32}

theorem add_headerOf (heap : KernelHeap) (address : UInt32) :
    heap.heapBegin + KernelM.headerOf heap address + kmallocHeaderSize = address := by
  rw [KernelM.headerOf, UInt32.add_comm heap.heapBegin, UInt32.sub_add_cancel,
    UInt32.sub_add_cancel]

theorem KernelHeap.Placed.dataBegin_toNat {heap : KernelHeap} (h : heap.Placed) :
    (KernelM.kmallocHeapDataBegin heap).toNat =
      heap.reservedBlocks.toNat * heap.blockSize.toNat := by
  have := h.reserved
  have := h.inside
  rw [KernelM.kmallocHeapDataBegin, UInt32.toNat_mul, Nat.mod_eq_of_lt (by omega)]

theorem KernelHeap.Placed.lt_div_of_le {heap : KernelHeap} (h : heap.Placed) {place : UInt32}
    (habove : heap.reservedBlocks.toNat * heap.blockSize.toNat ≤ place.toNat) :
    heap.reservedBlocks ≤ place / heap.blockSize := by
  rw [UInt32.le_iff_toNat_le, UInt32.toNat_div]
  exact (Nat.le_div_iff_mul_le h.blockSize_pos).mpr habove

/-- Where the checks of an address lead. -/
theorem KernelHeap.Placed.inRange_iff {heap : KernelHeap} (h : heap.Placed) (address : UInt32) :
    (¬address < heap.heapBegin + KernelM.kmallocHeapDataBegin heap + kmallocHeaderSize ∧
        ¬address ≥ heap.heapBegin + heap.poolSize) ↔
      heap.reservedBlocks.toNat * heap.blockSize.toNat ≤ (KernelM.headerOf heap address).toNat ∧
        (KernelM.headerOf heap address).toNat + 16 < heap.poolSize.toNat := by
  have hinside := h.inside
  have hreserved := h.reserved
  have hdata := h.dataBegin_toNat
  have hsize := headerSize_toNat
  have hlow : (heap.heapBegin + KernelM.kmallocHeapDataBegin heap + kmallocHeaderSize).toNat =
      heap.heapBegin.toNat + heap.reservedBlocks.toNat * heap.blockSize.toNat + 16 := by
    rw [UInt32.toNat_add, UInt32.toNat_add, hdata, hsize]
    omega
  have hhigh : (heap.heapBegin + heap.poolSize).toNat =
      heap.heapBegin.toNat + heap.poolSize.toNat := by
    rw [UInt32.toNat_add]
    omega
  have hplace : (KernelM.headerOf heap address).toNat =
      (address.toNat + 2 ^ 33 - 16 - heap.heapBegin.toNat) % 2 ^ 32 := by
    have hlt := address.toNat_lt
    have hlt' := heap.heapBegin.toNat_lt
    simp only [KernelM.headerOf, UInt32.toNat_sub, hsize]
    omega
  have hlt := address.toNat_lt
  rw [UInt32.lt_iff_toNat_lt, hlow, ge_iff_le, UInt32.le_iff_toNat_le, hhigh, hplace]
  constructor
  · rintro ⟨hge, hbelow⟩
    constructor <;> omega
  · rintro ⟨hge, hbelow⟩
    constructor <;> omega

/-- `kmalloc_is_valid` looks at the bytes in front of the address. -/
theorem KernelM.run_isValid (h : k.heap.Placed) (address : UInt32) :
    ∃ valid, (kmallocIsValid address).run n KernelState.handle k = some (valid, k) ∧
      (valid = true ↔ k.SpellsHeader (headerOf k.heap address)) := by
  have hinside := h.inside
  have hrange := h.inRange_iff address
  have hsize := headerSize_toNat
  have hdata := h.dataBegin_toNat
  rw [kmallocIsValid]
  split
  next hnull =>
    refine ⟨false, rfl, iff_of_false Bool.false_ne_true fun hspells => ?_⟩
    have habsent := (hrange.mpr ⟨hspells.above, hspells.below⟩).2
    rw [ge_iff_le, UInt32.le_iff_toNat_le, UInt32.toNat_add, hnull] at habsent
    exact habsent (by
      have : kmallocNull.toNat = 2 ^ 32 - 1 := rfl
      omega)
  next hnull =>
    simp only [Prog.run_bind, run_heap, Option.bind_some]
    by_cases hin : ¬address < k.heap.heapBegin + kmallocHeapDataBegin k.heap + kmallocHeaderSize ∧
        ¬address ≥ k.heap.heapBegin + k.heap.poolSize
    · obtain ⟨habove, hbelow⟩ := hrange.mp hin
      have hagain : ¬(headerOf k.heap address < kmallocHeapDataBegin k.heap ∨
          address - kmallocHeaderSize ≥ k.heap.heapBegin + k.heap.poolSize) := by
        have hnat := congrArg UInt32.toNat (add_headerOf k.heap address)
        rw [UInt32.toNat_add, UInt32.toNat_add, hsize] at hnat
        rw [UInt32.lt_iff_toNat_lt, ge_iff_le, UInt32.le_iff_toNat_le, hdata,
          Mem.toNat_sub_of_le (by rw [hsize]; omega), hsize, UInt32.toNat_add]
        omega
      have hreserved : ¬headerOf k.heap address / k.heap.blockSize < k.heap.reservedBlocks :=
        UInt32.not_lt.mpr (h.lt_div_of_le habove)
      rw [if_neg hin.1, if_neg hin.2, if_neg hagain, Prog.run_bind, run_headerRead,
        Option.bind_some]
      split
      next hheader =>
        refine ⟨false, rfl, iff_of_false Bool.false_ne_true fun hspells => ?_⟩
        exact hheader.elim (absurd hspells.magic) fun hzero => hspells.size hzero
      next hheader =>
        obtain ⟨hmagic, hheaderSize⟩ := not_or.mp hheader
        dsimp only
        split
        next hblocks =>
          refine ⟨false, rfl, iff_of_false Bool.false_ne_true fun hspells => ?_⟩
          exact hblocks.elim hspells.blocks hreserved
        next hblocks =>
          split
          next hfits =>
            refine ⟨false, rfl, iff_of_false Bool.false_ne_true fun hspells => ?_⟩
            exact absurd hspells.fits (UInt32.not_le.mpr hfits)
          next hfits =>
            refine ⟨true, rfl, iff_of_true rfl ?_⟩
            exact ⟨habove, hbelow, not_not.mp hmagic, hheaderSize,
              fun hzero => hblocks (.inl hzero),
              UInt32.not_lt.mp hfits⟩
    · refine ⟨false, ?_, iff_of_false Bool.false_ne_true fun hspells => hin (hrange.mpr
        ⟨hspells.above, hspells.below⟩)⟩
      rcases not_and_or.mp hin with hlow | hhigh
      · rw [if_pos (not_not.mp hlow)]
        rfl
      · split
        · rfl
        · rw [if_pos (not_not.mp hhigh)]
          rfl

/-! ## Where an allocation lies -/

namespace Allocation

variable {heap : KernelHeap} {b : Allocation}

theorem Lies.reach_le (ha : a.Lies heap) (h : heap.Placed) (hfits : a.size.toNat + 16 < 2 ^ 32) :
    (a.place heap).toNat + 16 + a.size.toNat ≤
      (a.start heap + a.blocks heap) * heap.blockSize.toNat := by
  have hpos : KernelM.kmallocBlocksRequired heap (a.size + kmallocHeaderSize) ≠ 0 := by
    intro hzero
    have hblocks := ha.blocks_pos
    rw [blocks, hzero] at hblocks
    exact absurd hblocks (by decide)
  have hsum : (a.size + kmallocHeaderSize).toNat = a.size.toNat + 16 := Mem.toNat_add_of_lt hfits
  have hmul := le_blocksRequired_mul h.blockSize_pos hpos
  rw [hsum] at hmul
  rw [ha.aligned, Nat.add_mul, blocks]
  omega

theorem Lies.reach_pool (ha : a.Lies heap) (h : heap.Placed) :
    (a.start heap + a.blocks heap) * heap.blockSize.toNat ≤ heap.poolSize.toNat :=
  (Nat.mul_le_mul_right _ ha.below).trans h.blocks

theorem Lies.above_place (ha : a.Lies heap) :
    heap.reservedBlocks.toNat * heap.blockSize.toNat ≤ (a.place heap).toNat := by
  rw [ha.aligned]
  exact Nat.mul_le_mul_right _ ha.above

instance (heap : KernelHeap) : Std.Symm (ApartIn heap) := ⟨fun _ _ h => h.symm⟩

/-- Allocations with different blocks have their bytes beside each other. -/
theorem ApartIn.reach (hapart : ApartIn heap a b) (h : heap.Placed) (ha : a.Lies heap)
    (hb : b.Lies heap) (hfits : a.size.toNat + 16 < 2 ^ 32)
    (hfits' : b.size.toNat + 16 < 2 ^ 32) :
    (a.place heap).toNat + 16 + a.size.toNat ≤ (b.place heap).toNat ∨
      (b.place heap).toNat + 16 + b.size.toNat ≤ (a.place heap).toNat := by
  have hreach := ha.reach_le h hfits
  have hreach' := hb.reach_le h hfits'
  rcases hapart with hbefore | hbehind
  · have hmul := Nat.mul_le_mul_right heap.blockSize.toNat hbefore
    rw [← hb.aligned] at hmul
    exact .inl (by omega)
  · have hmul := Nat.mul_le_mul_right heap.blockSize.toNat hbehind
    rw [← ha.aligned] at hmul
    exact .inr (by omega)

/-- Allocations without a block in common are apart. -/
theorem apartIn_of_covers (ha : a.Lies heap) (hb : b.Lies heap)
    (h : ∀ i, a.Covers heap i → ¬b.Covers heap i) : ApartIn heap a b := by
  have hpos := ha.blocks_pos
  have hpos' := hb.blocks_pos
  have hfirst := h (a.start heap)
  have hsecond := h (b.start heap)
  simp only [Covers, Intervals.Covers] at hfirst hsecond
  rw [ApartIn]
  omega

end Allocation

/-- The header of an allocation is one. -/
theorem KernelState.Holds.spellsHeader (ha : k.Holds a) (h : k.heap.Placed)
    (hfits : a.size.toNat + 16 < 2 ^ 32) : k.SpellsHeader (a.place k.heap) := by
  have hreach := ha.lies.reach_le h hfits
  have hpool := ha.lies.reach_pool h
  have hpos := ha.lies.size_pos
  refine ⟨ha.lies.above_place, by omega, ha.magic, ?_, ?_, ?_⟩
  · intro hzero
    rw [← ha.size, hzero] at hpos
    exact absurd hpos (by decide)
  · intro hzero
    have hblocks := ha.lies.blocks_pos
    rw [ha.size] at hzero
    rw [Allocation.blocks, hzero] at hblocks
    exact absurd hblocks (by decide)
  · have hbelow := ha.lies.below
    have hcount := k.heap.blockCount.toNat_lt
    rw [ha.size, UInt32.le_iff_toNat_le, Mem.toNat_add_of_lt]
    · exact hbelow
    · rw [Allocation.start, Allocation.blocks] at hbelow
      omega

/-! ## What changes an allocation -/

theorem KernelState.Keeps.header_eq (hkeeps : k.Keeps k' a) (hheap : k'.heap = k.heap) :
    k'.header (a.place k.heap) = k.header (a.place k.heap) := by
  rw [KernelState.header, KernelState.header, hheap]
  exact congrArg _ (Mem.read_congr _ fun i hi => hkeeps i (by omega))

theorem KernelState.Keeps.holds (hkeeps : k.Keeps k' a) (hheap : k'.heap = k.heap)
    (ha : k.Holds a) : k'.Holds a := by
  have hheader := hkeeps.header_eq hheap
  constructor
  · rw [hheap]
    exact ha.lies
  · rw [hheap, hheader]
    exact ha.magic
  · rw [hheap, hheader]
    exact ha.size

theorem KernelState.Keeps.trans {k₁ : KernelState} (hkeeps : k.Keeps k₁ a)
    (hheap : k₁.heap = k.heap) (hkeeps' : k₁.Keeps k' a) : k.Keeps k' a := by
  intro j hj
  have hnext := hkeeps' j hj
  rw [hheap] at hnext
  rw [hnext, hkeeps j hj]

theorem KernelState.Marked.keeps (hmarked : k.Marked k') (h : k.heap.Placed) (ha : a.Lies k.heap)
    (hfits : a.size.toNat + 16 < 2 ^ 32) : k.Keeps k' a := by
  intro j hj
  have hreach := ha.reach_le h hfits
  have hpool := ha.reach_pool h
  have habove := ha.above_place
  have hbitmaps := h.bitmaps
  have hinside := h.inside
  apply hmarked.outside
  have hplace : (k.heap.heapBegin + a.place k.heap + .ofNat j - k.heap.heapBegin).toNat =
      (a.place k.heap).toNat + j := by
    rw [UInt32.add_assoc, UInt32.add_comm, UInt32.add_sub_cancel, Mem.toNat_add_ofNat (by omega)]
  omega

/-- Bytes are written into the heap. -/
def KernelState.write (k : KernelState) (place : UInt32) (bytes : List UInt8) : KernelState :=
  { k with memory := k.memory.write (k.heap.heapBegin + place) bytes }

@[simp] theorem KernelState.write_heap (place : UInt32) (bytes : List UInt8) :
    (k.write place bytes).heap = k.heap := rfl

theorem KernelState.bit_write (h : k.heap.Placed) {place : UInt32} {bytes : List UInt8}
    (habove : k.heap.reservedBlocks.toNat * k.heap.blockSize.toNat ≤ place.toNat)
    (hbelow : place.toNat + bytes.length ≤ k.heap.poolSize.toNat) {i : Nat}
    (hi : i < 8 * k.heap.bitmapSize.toNat) : (k.write place bytes).bit i = k.bit i := by
  have hbitmaps := h.bitmaps
  have hinside := h.inside
  rw [KernelState.bit, KernelState.bit, KernelState.write_heap, h.bitmap]
  congr 2
  apply Mem.write_apply_of_ge _ _ (by omega)
  have hfirst : (k.heap.heapBegin + .ofNat (i / 8)).toNat = k.heap.heapBegin.toNat + i / 8 :=
    Mem.toNat_add_ofNat (by omega)
  have hsecond : (k.heap.heapBegin + place).toNat = k.heap.heapBegin.toNat + place.toNat :=
    Mem.toNat_add_of_lt (by omega)
  rw [UInt32.toNat_sub, hfirst, hsecond]
  omega

theorem KernelState.keeps_write (h : k.heap.Placed) (ha : a.Lies k.heap)
    (hfits : a.size.toNat + 16 < 2 ^ 32) {place : UInt32} {bytes : List UInt8}
    (hbelow : place.toNat + bytes.length ≤ k.heap.poolSize.toNat)
    (hbeside : place.toNat + bytes.length ≤ (a.place k.heap).toNat ∨
      (a.place k.heap).toNat + 16 + a.size.toNat ≤ place.toNat) :
    k.Keeps (k.write place bytes) a := by
  intro j hj
  have hreach := ha.reach_le h hfits
  have hpool := ha.reach_pool h
  have hinside := h.inside
  have hfirst : (k.heap.heapBegin + a.place k.heap).toNat =
      k.heap.heapBegin.toNat + (a.place k.heap).toNat := Mem.toNat_add_of_lt (by omega)
  have hsecond : (k.heap.heapBegin + place).toNat = k.heap.heapBegin.toNat + place.toNat :=
    Mem.toNat_add_of_lt (by omega)
  apply Mem.write_apply_of_ge _ _ (by omega)
  apply Mem.toNat_sub_ge_of_disjoint _ hj
  · omega
  · omega
  · omega

theorem toNat_eq_zero_iff (x : UInt32) : x.toNat = 0 ↔ x = 0 := UInt32.toNat_inj (b := 0)

theorem headerOf_add (heap : KernelHeap) (place : UInt32) :
    KernelM.headerOf heap (heap.heapBegin + place + kmallocHeaderSize) = place := by
  rw [KernelM.headerOf, UInt32.add_sub_cancel, UInt32.add_comm, UInt32.add_sub_cancel]

theorem KernelState.header_write (place : UInt32) (header : KMallocHeader) :
    (k.write place (KMallocHeader.layout.encode header)).header place = header := by
  have hsmall : (KMallocHeader.layout.encode header).length ≤ 2 ^ 32 := by
    rw [KMallocHeader.layout.encode_length, KMallocHeader.layout_size]
    decide
  have hread := Mem.read_write_self k.memory (k.heap.heapBegin + place) hsmall
  rw [KMallocHeader.layout.encode_length, KMallocHeader.layout_size] at hread
  rw [KernelState.header, KernelState.write_heap, KernelState.write, hread,
    Layout.decode_encode_self]

/-- The header of a new allocation. -/
def newHeader (size : UInt32) : KMallocHeader :=
  { size, flags := 0, type := 0, perm := 0, magic := kmallocMagic, padding := Vector.replicate 8 0 }

/-- `kmalloc` has found room for an allocation: its blocks are marked, its header is written, and
nothing else has changed. -/
structure KernelState.Gives (k : KernelState) (a : Allocation) (k' : KernelState) : Prop where
  heap : k'.heap = k.heap
  notNull : a.address ≠ kmallocNull
  holds : k'.Holds a
  header : k'.header (a.place k.heap) = newHeader a.size
  free : ∀ i, a.Covers k.heap i → k.bit i = false
  bits : ∀ i < 8 * k.heap.bitmapSize.toNat, (k'.bit i = true ↔ k.bit i = true ∨ a.Covers k.heap i)
  written : ∃ k₁, k.Marked k₁ ∧
    (k₁.write (a.place k.heap) (KMallocHeader.layout.encode (newHeader a.size))).Marked k'

theorem KernelState.Marked.header_eq (hmarked : k.Marked k') (h : k.heap.Placed) {place : UInt32}
    (habove : k.heap.reservedBlocks.toNat * k.heap.blockSize.toNat ≤ place.toNat)
    (hbelow : place.toNat + 16 ≤ k.heap.poolSize.toNat) : k'.header place = k.header place := by
  have hinside := h.inside
  have hbitmaps := h.bitmaps
  rw [KernelState.header, KernelState.header, hmarked.heap]
  refine congrArg _ (Mem.read_congr _ fun i hi => hmarked.outside _ ?_)
  rw [UInt32.add_assoc, UInt32.add_comm, UInt32.add_sub_cancel, Mem.toNat_add_ofNat (by omega)]
  omega

/-- The blocks that the search has found become an allocation. -/
theorem KernelM.run_allot (h : k.heap.Placed) {size startBlock : UInt32} (hsize : 0 < size.toNat)
    (hfits : size.toNat + 16 < 2 ^ 32)
    (hblocks : kmallocBlocksRequired k.heap (size + kmallocHeaderSize) ≠ 0)
    (hlowest : FirstFit.Lowest (fun i => !k.bit i) k.heap.reservedBlocks.toNat
      k.heap.blockCount.toNat (kmallocBlocksRequired k.heap (size + kmallocHeaderSize)).toNat
      startBlock.toNat) :
    ∃ k₁ k₂ k', (forIndices (kmallocBlockSetUsed k.heap)
          (kmallocBlocksRequired k.heap (size + kmallocHeaderSize)).toNat startBlock).run n
          KernelState.handle k = some ((), k₁) ∧
      (kmallocHeaderWrite (startBlock * k.heap.blockSize) (newHeader size)).run n
          KernelState.handle k₁ = some ((), k₂) ∧
      (kmallocBitmapWrite k.heap).run n KernelState.handle k₂ = some ((), k') ∧
      k.Gives ⟨k.heap.heapBegin + startBlock * k.heap.blockSize + kmallocHeaderSize, size⟩ k' := by
  have hbitsEnough := h.bits
  have hinside := h.inside
  have hpos := h.blockSize_pos
  have hfitsBlocks := hlowest.fits
  have hcount := k.heap.blockCount.toNat_lt
  have hmul := le_blocksRequired_mul h.blockSize_pos hblocks
  have htotal : (size + kmallocHeaderSize).toNat = size.toNat + 16 := Mem.toNat_add_of_lt hfits
  have hpositive : 0 < (kmallocBlocksRequired k.heap (size + kmallocHeaderSize)).toNat := by
    rw [Nat.pos_iff_ne_zero]
    exact fun hzero => hblocks (UInt32.toNat_inj.mp hzero)
  have hend := (Nat.mul_le_mul_right k.heap.blockSize.toNat hfitsBlocks).trans h.blocks
  rw [Nat.add_mul] at hend
  have hplace : (startBlock * k.heap.blockSize).toNat =
      startBlock.toNat * k.heap.blockSize.toNat := by
    rw [UInt32.toNat_mul, Nat.mod_eq_of_lt (by omega)]
  have habove : k.heap.reservedBlocks.toNat * k.heap.blockSize.toNat ≤
      (startBlock * k.heap.blockSize).toNat := by
    rw [hplace]
    exact Nat.mul_le_mul_right _ hlowest.ge
  set a : Allocation :=
    ⟨k.heap.heapBegin + startBlock * k.heap.blockSize + kmallocHeaderSize, size⟩ with ha
  have haplace : a.place k.heap = startBlock * k.heap.blockSize := headerOf_add ..
  have hastart : a.start k.heap = startBlock.toNat := by
    rw [Allocation.start, haplace, UInt32.toNat_div, hplace, Nat.mul_div_cancel _ hpos]
  obtain ⟨k₁, hrun₁, hmarked₁, hbits₁⟩ := (marks_used h).forIndices (n := n)
    (kmallocBlocksRequired k.heap (size + kmallocHeaderSize)).toNat startBlock (by omega) (by omega)
  have h₁ : k₁.heap.Placed := by rwa [hmarked₁.heap]
  have hlength : (KMallocHeader.layout.encode (newHeader size)).length = 16 := by
    rw [KMallocHeader.layout.encode_length, KMallocHeader.layout_size]
  set k₂ := k₁.write (startBlock * k.heap.blockSize)
    (KMallocHeader.layout.encode (newHeader size)) with hk₂
  have hheap₂ : k₂.heap = k.heap := hmarked₁.heap
  have h₂ : k₂.heap.Placed := by rwa [hheap₂]
  obtain ⟨k₃, hrun₃, hmarked₃, hbits₃⟩ := run_bitmapWrite (n := n) h₂
  have hheader : k₃.header (startBlock * k.heap.blockSize) = newHeader size := by
    rw [hmarked₃.header_eq h₂ (by rw [hheap₂]; exact habove) (by rw [hheap₂]; omega), hk₂,
      KernelState.header_write]
  have hheap₃ : k₃.heap = k.heap := hmarked₃.heap.trans hheap₂
  have hbits : ∀ i < 8 * k.heap.bitmapSize.toNat,
      (k₃.bit i = true ↔ k.bit i = true ∨ a.Covers k.heap i) := by
    intro i hi
    rw [hbits₃ i (by rwa [hheap₂]), hk₂, KernelState.bit_write h₁ (by rwa [hmarked₁.heap])
      (by rw [hmarked₁.heap, hlength]; omega) (by rwa [hmarked₁.heap]), hbits₁ i hi,
      Allocation.Covers, Intervals.Covers, hastart, Allocation.blocks]
    split
    next hin => exact iff_of_true rfl (.inr hin)
    next hout => exact ⟨.inl, fun hor => hor.resolve_right hout⟩
  refine ⟨k₁, k₂, k₃, hrun₁, ?_, ?_, ?_⟩
  · rw [run_headerWrite]
    rfl
  · rw [← hheap₂]
    exact hrun₃
  · refine ⟨hheap₃, ?_, ?_, by rw [haplace, hheader], ?_, hbits, k₁, hmarked₁, ?_⟩
    · intro hnull
      have hnat := congrArg UInt32.toNat hnull
      have hall : kmallocNull.toNat = 2 ^ 32 - 1 := rfl
      rw [ha, UInt32.toNat_add, UInt32.toNat_add, hplace, headerSize_toNat, hall] at hnat
      omega
    · have hlies : a.Lies k.heap := by
        refine ⟨hsize, hpositive, ?_, ?_, ?_⟩
        · rw [haplace, hastart, hplace]
        · rw [hastart]
          exact hlowest.ge
        · rw [hastart]
          exact hfitsBlocks
      constructor
      · rwa [hheap₃]
      · rw [hheap₃, haplace, hheader]
        rfl
      · rw [hheap₃, haplace, hheader]
        rfl
    · intro i hi
      rw [Allocation.Covers, Intervals.Covers, hastart] at hi
      have hfree := hlowest.run i hi.1 hi.2
      simpa using hfree
    · rw [haplace]
      exact hmarked₃

/-- `kmalloc` returns null, runs out of memory, or gives its caller an allocation. -/
theorem KernelM.run_kmalloc (h : k.heap.Placed) {size : UInt32} (hfits : size.toNat + 16 < 2 ^ 32) :
    (kmalloc size).run n KernelState.handle k = none ∨
      (kmalloc size).run n KernelState.handle k = some (kmallocNull, k) ∨
      ∃ address k', (kmalloc size).run n KernelState.handle k = some (address, k') ∧
        k.Gives ⟨address, size⟩ k' := by
  rw [kmalloc]
  split
  · exact .inr (.inl rfl)
  next hsize =>
    simp only [Prog.run_bind, run_heap, Option.bind_some]
    split
    · exact .inr (.inl rfl)
    · split
      · exact .inr (.inl rfl)
      next hrequired =>
        have hblocks := (not_or.mp hrequired).1
        by_cases hroom : k.heap.reservedBlocks.toNat ≤ k.heap.blockCount.toNat
        · have hcount := k.heap.blockCount.toNat_lt
          obtain ⟨result, hfind, hscan⟩ := run_findBlocks (k := k) (n := n)
            (kmallocBlocksRequired k.heap (size + kmallocHeaderSize))
            (k.heap.blockCount.toNat - k.heap.reservedBlocks.toNat) k.heap.reservedBlocks 0 0
            (by omega) (Nat.zero_le _)
          simp only [Prog.run_bind, hfind, Option.bind_some]
          cases result with
          | none => exact .inl rfl
          | some startBlock =>
              have hlowest := FirstFit.firstFit_some (by
                rw [Nat.pos_iff_ne_zero, ne_eq, toNat_eq_zero_iff]
                exact hblocks) hscan.symm
              obtain ⟨k₁, k₂, k', hrun₁, hrun₂, hrun₃, hgives⟩ := run_allot (n := n) h
                (by rw [Nat.pos_iff_ne_zero, ne_eq, toNat_eq_zero_iff]; exact hsize) hfits hblocks
                hlowest
              refine .inr (.inr ⟨_, k', ?_, hgives⟩)
              rw [newHeader] at hrun₂
              simp only [Prog.run_bind, hrun₁, hrun₂, hrun₃, Option.bind_some]
              rfl
        · rw [show k.heap.blockCount.toNat - k.heap.reservedBlocks.toNat = 0 by omega]
          exact .inl rfl

/-! ## Allocating and freeing -/

theorem KernelState.Allocated.apart_of_ne {live : List Allocation} {b : Allocation}
    (hall : k.Allocated live) (ha : a ∈ live) (hb : b ∈ live) (hne : a ≠ b) :
    Allocation.ApartIn k.heap a b := hall.apart.forall ha hb hne

theorem KernelState.keeps_writeHeader {b : Allocation} (hapart : Allocation.ApartIn k.heap a b)
    (h : k.heap.Placed) (ha : a.Lies k.heap) (hb : b.Lies k.heap)
    (hfits : a.size.toNat + 16 < 2 ^ 32) (hfits' : b.size.toNat + 16 < 2 ^ 32)
    (header : KMallocHeader) :
    k.Keeps (k.write (a.place k.heap) (KMallocHeader.layout.encode header)) b := by
  have hreach := hapart.reach h ha hb hfits hfits'
  have hend := (ha.reach_le h hfits).trans (ha.reach_pool h)
  have hlength : (KMallocHeader.layout.encode header).length = 16 := by
    rw [KMallocHeader.layout.encode_length, KMallocHeader.layout_size]
  apply KernelState.keeps_write h hb hfits'
  · omega
  · omega

/-- A header is written between changes of the bitmaps. -/
theorem KernelState.keeps_of_written {b : Allocation} {k₁ : KernelState} {header : KMallocHeader}
    (hmarked₁ : k.Marked k₁)
    (hmarked₂ : (k₁.write (a.place k.heap) (KMallocHeader.layout.encode header)).Marked k')
    (hapart : Allocation.ApartIn k.heap a b) (h : k.heap.Placed) (ha : a.Lies k.heap)
    (hb : b.Lies k.heap) (hfits : a.size.toNat + 16 < 2 ^ 32)
    (hfits' : b.size.toNat + 16 < 2 ^ 32) : k.Keeps k' b := by
  have hheap := hmarked₁.heap
  have hkeeps₁ := hmarked₁.keeps h hb hfits'
  rw [← hheap] at hapart h ha hb hmarked₂
  have hkeeps₂ := keeps_writeHeader hapart h ha hb hfits hfits' header
  have hkeeps₃ := hmarked₂.keeps h hb hfits'
  exact (hkeeps₁.trans hheap hkeeps₂).trans hheap hkeeps₃

/-- A new allocation is apart from the other ones. -/
theorem KernelState.Gives.apart {live : List Allocation} {b : Allocation} (hgives : k.Gives a k')
    (hall : k.Allocated live) (hb : b ∈ live) : Allocation.ApartIn k.heap a b := by
  have hlies := hgives.holds.lies
  rw [hgives.heap] at hlies
  have hbelow := (hall.holds b hb).lies.below
  apply Allocation.apartIn_of_covers hlies (hall.holds b hb).lies
  intro i hi hcovered
  have hused := (hall.bits i ((hall.holds b hb).lies.above.trans hcovered.1)
    (hcovered.2.trans_le (hbelow.trans hall.placed.bits))).mpr ⟨b, hb, hcovered⟩
  rw [hgives.free i hi] at hused
  cases hused

/-- `kmalloc` leaves the other allocations alone. -/
theorem KernelState.Gives.keeps {live : List Allocation} {b : Allocation} (hgives : k.Gives a k')
    (hall : k.Allocated live) (hfits : a.size.toNat + 16 < 2 ^ 32) (hb : b ∈ live) :
    k.Keeps k' b := by
  have hlies := hgives.holds.lies
  rw [hgives.heap] at hlies
  obtain ⟨k₁, hmarked₁, hmarked₂⟩ := hgives.written
  exact keeps_of_written hmarked₁ hmarked₂ (hgives.apart hall hb) hall.placed hlies
    (hall.holds b hb).lies hfits (hall.fits b hb)

theorem KernelState.Gives.allocated {live : List Allocation} (hgives : k.Gives a k')
    (hall : k.Allocated live) (hfits : a.size.toNat + 16 < 2 ^ 32) : k'.Allocated (a :: live) := by
  constructor
  · rw [hgives.heap]
    exact hall.placed
  · intro b hb
    rcases List.mem_cons.mp hb with rfl | hb
    · exact hgives.holds
    · exact (hgives.keeps hall hfits hb).holds hgives.heap (hall.holds b hb)
  · intro b hb
    rcases List.mem_cons.mp hb with rfl | hb
    · exact hfits
    · exact hall.fits b hb
  · rw [hgives.heap, List.pairwise_cons]
    exact ⟨fun b hb => hgives.apart hall hb, hall.apart⟩
  · intro i hlo hhi
    rw [hgives.heap] at hlo hhi ⊢
    rw [hgives.bits i hhi, hall.bits i hlo hhi]
    simp [or_comm]

theorem KernelState.Allocated.spellsHeader {live : List Allocation} (hall : k.Allocated live)
    (ha : a ∈ live) : k.SpellsHeader (a.place k.heap) :=
  (hall.holds a ha).spellsHeader hall.placed (hall.fits a ha)

/-- No address belongs to two allocations. -/
theorem KernelState.Allocated.eq_of_address {live : List Allocation} {b : Allocation}
    (hall : k.Allocated live) (ha : a ∈ live) (hb : b ∈ live) (haddress : a.address = b.address) :
    a = b := by
  by_contra hne
  have hstart : a.start k.heap = b.start k.heap := by
    rw [Allocation.start, Allocation.start, Allocation.place, Allocation.place, haddress]
  have hpos := (hall.holds a ha).lies.blocks_pos
  have hpos' := (hall.holds b hb).lies.blocks_pos
  rcases hall.apart_of_ne ha hb hne with hbefore | hbehind
  · omega
  · omega

/-- A header that says nothing. -/
def freeHeader : KMallocHeader :=
  { size := 0, flags := 0, type := 0, perm := 0, magic := 0, padding := Vector.replicate 8 0 }

/-- The blocks of an allocation are free, and its header is gone; nothing else has changed. -/
structure KernelState.Takes (k : KernelState) (a : Allocation) (k' : KernelState) : Prop where
  heap : k'.heap = k.heap
  bits : ∀ i < 8 * k.heap.bitmapSize.toNat,
    (k'.bit i = true ↔ k.bit i = true ∧ ¬a.Covers k.heap i)
  written : (k.write (a.place k.heap) (KMallocHeader.layout.encode freeHeader)).Marked k'

/-- `kfree` takes back what it is given. -/
theorem KernelM.run_kfree {live : List Allocation} (hall : k.Allocated live) (ha : a ∈ live) :
    ∃ k', (kfree a.address).run n KernelState.handle k = some ((), k') ∧ k.Takes a k' := by
  have h := hall.placed
  have hholds := hall.holds a ha
  have hlies := hholds.lies
  have hbelow := hlies.below
  have hcount := k.heap.blockCount.toNat_lt
  have hroom := h.bits
  have hend := (hlies.reach_le h (hall.fits a ha)).trans (hlies.reach_pool h)
  have habove := hlies.above_place
  have hlength : (KMallocHeader.layout.encode freeHeader).length = 16 := by
    rw [KMallocHeader.layout.encode_length, KMallocHeader.layout_size]
  obtain ⟨valid, hvalid, hspells⟩ := run_isValid (n := n) h a.address
  have htrue : valid = true := hspells.mpr (hall.spellsHeader ha)
  have hsize : (k.header (headerOf k.heap a.address)).size = a.size := hholds.size
  have hfits : ¬(headerOf k.heap a.address / k.heap.blockSize < k.heap.reservedBlocks ∨
      headerOf k.heap a.address / k.heap.blockSize +
        kmallocBlocksRequired k.heap (a.size + kmallocHeaderSize) > k.heap.blockCount) := by
    have hspells := hall.spellsHeader ha
    have hfitsBlocks := hspells.fits
    rw [hholds.size] at hfitsBlocks
    exact not_or.mpr ⟨UInt32.not_lt.mpr (h.lt_div_of_le habove), UInt32.not_lt.mpr hfitsBlocks⟩
  set k₁ := k.write (a.place k.heap) (KMallocHeader.layout.encode freeHeader) with hk₁
  have h₁ : k₁.heap.Placed := h
  obtain ⟨k₂, hrun₂, hmarked₂, hbits₂⟩ := (marks_free h₁).forIndices (n := n) (a.blocks k.heap)
    (a.place k.heap / k.heap.blockSize)
    (by rw [Allocation.start] at hbelow; exact (hbelow.trans hroom))
    (by rw [Allocation.start] at hbelow; omega)
  have h₂ : k₂.heap.Placed := by
    rw [hmarked₂.heap]
    exact h
  obtain ⟨k₃, hrun₃, hmarked₃, hbits₃⟩ := run_bitmapWrite (n := n) h₂
  refine ⟨k₃, ?_, hmarked₃.heap.trans hmarked₂.heap, fun i hi => ?_, hmarked₂.trans hmarked₃⟩
  · rw [kfree, Prog.run_bind, hvalid, Option.bind_some, htrue, if_pos rfl]
    simp only [Prog.run_bind, run_heap, run_headerRead, Option.bind_some, hsize]
    rw [if_neg hfits]
    simp only [Prog.run_bind, run_headerWrite, Option.bind_some]
    have hrun₂' : (forIndices (kmallocBlockSetFree k.heap)
        (kmallocBlocksRequired k.heap (a.size + kmallocHeaderSize)).toNat
        (headerOf k.heap a.address / k.heap.blockSize)).run n KernelState.handle k₁ =
        some ((), k₂) := hrun₂
    have hrun₃' : (kmallocBitmapWrite k.heap).run n KernelState.handle k₂ = some ((), k₃) := by
      rw [hmarked₂.heap] at hrun₃
      exact hrun₃
    rw [hk₁, KernelState.write, Allocation.place, freeHeader] at hrun₂'
    rw [hrun₂', Option.bind_some, hrun₃']
  · rw [hbits₃ i (by rw [hmarked₂.heap]; exact hi), hbits₂ i hi, hk₁,
      KernelState.bit_write h habove (by omega) hi]
    simp only [Allocation.Covers, Intervals.Covers, Allocation.start]
    split
    next hin => exact iff_of_false Bool.false_ne_true fun hfree => hfree.2 hin
    next hout => exact ⟨fun hbit => ⟨hbit, hout⟩, And.left⟩

theorem KernelState.Takes.keeps {live : List Allocation} {b : Allocation} (htakes : k.Takes a k')
    (hall : k.Allocated live) (ha : a ∈ live) (hb : b ∈ live) (hne : a ≠ b) : k.Keeps k' b :=
  keeps_of_written (.refl k) htakes.written (hall.apart_of_ne ha hb hne) hall.placed
    (hall.holds a ha).lies (hall.holds b hb).lies (hall.fits a ha) (hall.fits b hb)

/-- What is left when an address is freed. -/
def without (live : List Allocation) (address : UInt32) : List Allocation :=
  live.filter (·.address ≠ address)

theorem mem_without {live : List Allocation} {b : Allocation} :
    b ∈ without live address ↔ b ∈ live ∧ b.address ≠ address := by
  simp [without]

theorem KernelState.Takes.allocated {live : List Allocation} (htakes : k.Takes a k')
    (hall : k.Allocated live) (ha : a ∈ live) : k'.Allocated (without live a.address) := by
  have hother : ∀ b ∈ without live a.address, b ∈ live ∧ a ≠ b := by
    intro b hb
    obtain ⟨hmem, hne⟩ := mem_without.mp hb
    exact ⟨hmem, fun heq => hne (congrArg Allocation.address heq.symm)⟩
  constructor
  · rw [htakes.heap]
    exact hall.placed
  · intro b hb
    obtain ⟨hmem, hne⟩ := hother b hb
    exact (htakes.keeps hall ha hmem hne).holds htakes.heap (hall.holds b hmem)
  · exact fun b hb => hall.fits b (hother b hb).1
  · rw [htakes.heap]
    exact hall.apart.sublist List.filter_sublist
  · intro i hlo hhi
    rw [htakes.heap] at hlo hhi ⊢
    rw [htakes.bits i hhi, hall.bits i hlo hhi]
    constructor
    · rintro ⟨⟨b, hb, hcovers⟩, hnot⟩
      refine ⟨b, mem_without.mpr ⟨hb, fun haddress => hnot ?_⟩, hcovers⟩
      rwa [← hall.eq_of_address hb ha haddress]
    · rintro ⟨b, hb, hcovers⟩
      obtain ⟨hmem, hne⟩ := hother b hb
      refine ⟨⟨b, hmem, hcovers⟩, fun hcovered => ?_⟩
      have hapart := hall.apart_of_ne ha hmem hne
      rw [Allocation.ApartIn] at hapart
      simp only [Allocation.Covers, Intervals.Covers] at hcovers hcovered
      omega

/-! ## Headers that change -/

/-- A change of the fields which the heap itself does not look at. -/
def KeepsExtent (change : KMallocHeader → KMallocHeader) : Prop :=
  ∀ header, (change header).magic = header.magic ∧ (change header).size = header.size

theorem KernelM.run_kmallocSet {live : List Allocation} (hall : k.Allocated live) (ha : a ∈ live)
    (change : KMallocHeader → KMallocHeader) :
    (kmallocSet change a.address).run n KernelState.handle k =
      some ((), k.write (a.place k.heap)
        (KMallocHeader.layout.encode (change (k.header (a.place k.heap))))) := by
  obtain ⟨valid, hvalid, hspells⟩ := run_isValid (n := n) hall.placed a.address
  have htrue : valid = true := hspells.mpr (hall.spellsHeader ha)
  rw [kmallocSet, Prog.run_bind, hvalid, Option.bind_some, htrue, if_pos rfl]
  simp only [Prog.run_bind, run_heap, run_headerRead, Option.bind_some]
  exact run_headerWrite _ _

theorem KernelState.Allocated.writeHeader {live : List Allocation} (hall : k.Allocated live)
    (ha : a ∈ live) {change : KMallocHeader → KMallocHeader} (hchange : KeepsExtent change) :
    (k.write (a.place k.heap) (KMallocHeader.layout.encode
      (change (k.header (a.place k.heap))))).Allocated live := by
  have hlies := (hall.holds a ha).lies
  have hend := (hlies.reach_le hall.placed (hall.fits a ha)).trans (hlies.reach_pool hall.placed)
  refine ⟨hall.placed, fun b hb => ?_, hall.fits, hall.apart, fun i hlo hhi => ?_⟩
  · by_cases hne : a = b
    · subst hne
      have hheader := KernelState.header_write (k := k) (a.place k.heap)
        (change (k.header (a.place k.heap)))
      obtain ⟨hmagic, hsize⟩ := hchange (k.header (a.place k.heap))
      refine ⟨hlies, ?_, ?_⟩
      · rw [KernelState.write_heap, hheader, hmagic]
        exact (hall.holds a ha).magic
      · rw [KernelState.write_heap, hheader, hsize]
        exact (hall.holds a ha).size
    · exact (keeps_writeHeader (hall.apart_of_ne ha hb hne) hall.placed hlies
        (hall.holds b hb).lies (hall.fits a ha) (hall.fits b hb) _).holds rfl (hall.holds b hb)
  · rw [KernelState.write_heap] at hlo hhi ⊢
    rw [KernelState.bit_write hall.placed hlies.above_place
      (by rw [KMallocHeader.layout.encode_length, KMallocHeader.layout_size]; omega) hhi]
    exact hall.bits i hlo hhi

/-! ## Payloads -/

theorem KernelState.Allocated.write_keeps {live : List Allocation} {b : Allocation}
    (hall : k.Allocated live) (ha : a ∈ live) (hb : b ∈ live) (hne : a ≠ b) {offset : Nat}
    {bytes : List UInt8} (hinside : offset + bytes.length ≤ a.size.toNat) :
    k.Keeps (k.write (a.place k.heap + kmallocHeaderSize + .ofNat offset) bytes) b := by
  have hlies := (hall.holds a ha).lies
  have hplaced := hall.placed.inside
  have hend := (hlies.reach_le hall.placed (hall.fits a ha)).trans (hlies.reach_pool hall.placed)
  have hreach := (hall.apart_of_ne ha hb hne).reach hall.placed hlies (hall.holds b hb).lies
    (hall.fits a ha) (hall.fits b hb)
  have hplace : (a.place k.heap + kmallocHeaderSize + .ofNat offset).toNat =
      (a.place k.heap).toNat + 16 + offset := by
    have hpayload : (a.place k.heap + kmallocHeaderSize).toNat = (a.place k.heap).toNat + 16 :=
      Mem.toNat_add_of_lt (by rw [headerSize_toNat]; omega)
    rw [Mem.toNat_add_ofNat (by omega), hpayload]
  apply keeps_write hall.placed (hall.holds b hb).lies (hall.fits b hb)
  · omega
  · omega

theorem KernelState.Allocated.write {live : List Allocation} (hall : k.Allocated live)
    (ha : a ∈ live) {offset : Nat} {bytes : List UInt8}
    (hinside : offset + bytes.length ≤ a.size.toNat) :
    (k.write (a.place k.heap + kmallocHeaderSize + .ofNat offset) bytes).Allocated live ∧
      (k.write (a.place k.heap + kmallocHeaderSize + .ofNat offset) bytes).header
        (a.place k.heap) = k.header (a.place k.heap) := by
  have hlies := (hall.holds a ha).lies
  have hplaced := hall.placed.inside
  have habove := hlies.above_place
  have hend := (hlies.reach_le hall.placed (hall.fits a ha)).trans (hlies.reach_pool hall.placed)
  have hpayload : (a.place k.heap + kmallocHeaderSize).toNat = (a.place k.heap).toNat + 16 :=
    Mem.toNat_add_of_lt (by rw [headerSize_toNat]; omega)
  have hplace : (a.place k.heap + kmallocHeaderSize + .ofNat offset).toNat =
      (a.place k.heap).toNat + 16 + offset := by
    rw [Mem.toNat_add_ofNat (by omega), hpayload]
  have hheader : (k.write (a.place k.heap + kmallocHeaderSize + .ofNat offset) bytes).header
      (a.place k.heap) = k.header (a.place k.heap) := by
    rw [KernelState.header, KernelState.header, KernelState.write_heap]
    refine congrArg _ (Mem.read_write_disjoint _ _ (by omega) fun i hi => ?_)
    have hfirst : (k.heap.heapBegin + a.place k.heap).toNat =
        k.heap.heapBegin.toNat + (a.place k.heap).toNat := Mem.toNat_add_of_lt (by omega)
    have hsecond : (k.heap.heapBegin +
        (a.place k.heap + kmallocHeaderSize + .ofNat offset)).toNat =
        k.heap.heapBegin.toNat + ((a.place k.heap).toNat + 16 + offset) := by
      rw [Mem.toNat_add_of_lt (by omega), hplace]
    apply Mem.toNat_sub_ge_of_disjoint _ hi
    · omega
    · omega
    · omega
  refine ⟨⟨hall.placed, fun b hb => ?_, hall.fits, hall.apart, fun i hlo hhi => ?_⟩, hheader⟩
  · by_cases hne : a = b
    · subst hne
      refine ⟨hlies, ?_, ?_⟩
      · rw [KernelState.write_heap, hheader]
        exact (hall.holds a ha).magic
      · rw [KernelState.write_heap, hheader]
        exact (hall.holds a ha).size
    · exact (hall.write_keeps ha hb hne hinside).holds rfl (hall.holds b hb)
  · rw [KernelState.write_heap] at hlo hhi ⊢
    rw [KernelState.bit_write hall.placed (by omega) (by omega) hhi]
    exact hall.bits i hlo hhi

end Handles

end AvrKernel.Kernel

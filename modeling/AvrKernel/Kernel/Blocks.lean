import AvrKernel.Kernel.Heap
import AvrKernel.Lib.FirstFit
import Mathlib.Tactic.Ring
import Mathlib.Tactic.Linarith

/-!
# The bitmap of the kernel heap

`heap_init` puts the bitmap at the start of the heap and a byte for each byte of it behind, which
tells whether it has changed. The functions on blocks look at the bits and change them, and leave
the blocks themselves alone.
-/

namespace AvrKernel.Kernel

open Bytes Effect

/-- The variables that `heap_init` computes. -/
def KernelHeap.init (heap : KernelHeap) (blockSize totalMemory : UInt32) : KernelHeap :=
  if blockSize = 0 ∨ totalMemory = 0 then
    { heap with blockSize := 0, poolSize := 0, blockCount := 0, bitmapSize := 0,
                reservedBlocks := 0 }
  else
    let blockCount := totalMemory / blockSize
    let bitmapSize := (blockCount + 7) / 8
    { heap with
      blockSize, poolSize := totalMemory, blockCount, bitmapSize
      reservedBlocks := (bitmapSize * 2 + blockSize - 1) / blockSize
      bitmap := heap.heapBegin
      dirty := heap.heapBegin + bitmapSize }

/-- The bitmaps are cleared. -/
def KernelM.clearBitmaps (heap : KernelHeap) : KernelM Unit := do
  kmemWrite heap.bitmap (List.replicate heap.bitmapSize.toNat 0)
  kmemWrite heap.dirty (List.replicate heap.bitmapSize.toNat 0)
  kmallocBitmapWrite heap

/-- `heap_init` -/
def KernelState.heapInit (n : Nat) (blockSize totalMemory : UInt32) (k : KernelState) :
    Option KernelState :=
  let heap := k.heap.init blockSize totalMemory
  if blockSize = 0 ∨ totalMemory = 0 then some { k with heap }
  else ((KernelM.clearBitmaps heap).run n KernelState.handle { k with heap }).map (·.2)

/-! ## Where the heap lies -/

/-- A heap that has been initiated, in memory that does not end within the last bytes. -/
structure KernelHeap.Placed (heap : KernelHeap) : Prop where
  blockSize_pos : 0 < heap.blockSize.toNat
  bitmap : heap.bitmap = heap.heapBegin
  dirty : heap.dirty = heap.heapBegin + heap.bitmapSize
  blocks : heap.blockCount.toNat * heap.blockSize.toNat ≤ heap.poolSize.toNat
  bits : heap.blockCount.toNat ≤ 8 * heap.bitmapSize.toNat
  bitmaps : 2 * heap.bitmapSize.toNat ≤ heap.reservedBlocks.toNat * heap.blockSize.toNat
  reserved : heap.reservedBlocks.toNat * heap.blockSize.toNat ≤ heap.poolSize.toNat + 1
  inside : heap.heapBegin.toNat + heap.poolSize.toNat + 32 ≤ 2 ^ 32

/-- More than no block leaves room for both bitmaps. -/
theorem bitmaps_fit (total blockSize : Nat) (hpos : 0 < total / blockSize) :
    2 * ((total / blockSize + 7) / 8) + blockSize ≤ total + 2 := by
  have hcounts : total / blockSize * blockSize ≤ total := Nat.div_mul_le_self ..
  have hblock : 0 < blockSize := by
    apply Nat.pos_of_ne_zero
    rintro rfl
    simp at hpos
  have hmul : total / blockSize + blockSize ≤ total / blockSize * blockSize + 1 := by
    obtain ⟨a, ha⟩ := Nat.exists_eq_succ_of_ne_zero (Nat.pos_iff_ne_zero.mp hpos)
    obtain ⟨b, hb⟩ := Nat.exists_eq_succ_of_ne_zero (Nat.pos_iff_ne_zero.mp hblock)
    rw [ha, hb, Nat.succ_mul, Nat.mul_succ]
    omega
  omega

theorem KernelHeap.placed_init {heap : KernelHeap} {blockSize totalMemory : UInt32}
    (hblock : 0 < blockSize.toNat) (htotal : 0 < totalMemory.toNat)
    (hinside : heap.heapBegin.toNat + totalMemory.toNat + 32 ≤ 2 ^ 32) :
    (heap.init blockSize totalMemory).Placed := by
  have hzero : ¬(blockSize = 0 ∨ totalMemory = 0) := by
    rw [← UInt32.toNat_inj, ← UInt32.toNat_inj]
    simp only [UInt32.toNat_zero]
    omega
  have hcount : (totalMemory / blockSize).toNat = totalMemory.toNat / blockSize.toNat :=
    UInt32.toNat_div ..
  have hcounts : totalMemory.toNat / blockSize.toNat * blockSize.toNat ≤ totalMemory.toNat :=
    Nat.div_mul_le_self ..
  have hle : totalMemory.toNat / blockSize.toNat ≤ totalMemory.toNat := Nat.div_le_self ..
  have hfit := bitmaps_fit totalMemory.toNat blockSize.toNat
  rw [init, if_neg hzero]
  set count := totalMemory.toNat / blockSize.toNat
  have hseven : (totalMemory / blockSize + 7).toNat = count + 7 :=
    Mem.toNat_add_ofNat (k := 7) (by rw [hcount]; omega) |>.trans (by rw [hcount])
  have hbitmap : ((totalMemory / blockSize + 7) / 8).toNat = (count + 7) / 8 := by
    rw [UInt32.toNat_div, hseven]
    rfl
  have htwo : ((totalMemory / blockSize + 7) / 8 * 2).toNat = 2 * ((count + 7) / 8) := by
    have hconst : (2 : UInt32).toNat = 2 := rfl
    rw [UInt32.toNat_mul, hbitmap, hconst]
    omega
  have hblocklt := blockSize.toNat_lt
  have hsum : ((totalMemory / blockSize + 7) / 8 * 2 + blockSize - 1).toNat =
      2 * ((count + 7) / 8) + blockSize.toNat - 1 := by
    have hadd : ((totalMemory / blockSize + 7) / 8 * 2 + blockSize).toNat =
        2 * ((count + 7) / 8) + blockSize.toNat := by
      rw [Mem.toNat_add_of_lt, htwo]
      rw [htwo]
      omega
    rw [Mem.toNat_sub_of_le, hadd, UInt32.toNat_one]
    rw [hadd, UInt32.toNat_one]
    omega
  have hreserved : (((totalMemory / blockSize + 7) / 8 * 2 + blockSize - 1) / blockSize).toNat =
      (2 * ((count + 7) / 8) + blockSize.toNat - 1) / blockSize.toNat := by
    rw [UInt32.toNat_div, hsum]
  constructor
  · exact hblock
  · rfl
  · rfl
  · simpa only [hcount] using hcounts
  · simp only [hcount, hbitmap]
    omega
  · simp only [hbitmap, hreserved]
    have hround := Nat.div_add_mod' (2 * ((count + 7) / 8) + blockSize.toNat - 1) blockSize.toNat
    have hmod := Nat.mod_lt (2 * ((count + 7) / 8) + blockSize.toNat - 1) hblock
    omega
  · simp only [hreserved]
    have hround := Nat.div_mul_le_self (2 * ((count + 7) / 8) + blockSize.toNat - 1) blockSize.toNat
    by_cases hnone : count = 0
    · rw [hnone, Nat.div_eq_of_lt (by omega), Nat.zero_mul]
      omega
    · have := hfit (by omega)
      omega
  · exact hinside

/-! ## Bits -/

theorem blockMask_toBitVec (index : UInt32) :
    (KernelM.blockMask index).toBitVec = BitVec.twoPow 8 (index.toNat % 8) := by
  have hmod : ((index % 8).toUInt8).toNat = index.toNat % 8 := by
    have hconst : (8 : UInt32).toNat = 8 := rfl
    rw [UInt32.toNat_toUInt8, UInt32.toNat_mod, hconst]
    omega
  apply BitVec.eq_of_toNat_eq
  rw [BitVec.toNat_twoPow, UInt8.toNat_toBitVec, KernelM.blockMask, UInt8.toNat_shiftLeft, hmod,
    UInt8.toNat_one, Nat.shiftLeft_eq, Nat.one_mul, Nat.mod_mod]

theorem and_blockMask_eq_zero_iff (byte : UInt8) (index : UInt32) :
    byte &&& KernelM.blockMask index = 0 ↔ byte.toBitVec.getLsbD (index.toNat % 8) = false := by
  rw [← UInt8.toBitVec_inj, UInt8.toBitVec_and, blockMask_toBitVec, BitVec.and_twoPow]
  have hlt := Nat.mod_lt index.toNat (show 0 < 8 by decide)
  cases hbit : byte.toBitVec.getLsbD (index.toNat % 8) with
  | false => simp
  | true =>
      simp only [↓reduceIte, Bool.true_eq_false, iff_false]
      intro h
      have hbit := congrArg (fun v => BitVec.getLsbD v (index.toNat % 8)) h
      simp [hlt] at hbit

/-- A change of a byte that gives a bit of it a value. -/
def SetsBit (change : UInt8 → UInt8) (place : Nat) (value : Bool) : Prop :=
  ∀ byte : UInt8, ∀ j < 8,
    (change byte).toBitVec.getLsbD j = if j = place then value else byte.toBitVec.getLsbD j

theorem setsBit_used (index : UInt32) :
    SetsBit (fun byte => byte ||| KernelM.blockMask index) (index.toNat % 8) true := by
  intro byte j hj
  rw [UInt8.toBitVec_or, BitVec.getLsbD_or, blockMask_toBitVec, BitVec.getLsbD_twoPow]
  by_cases heq : j = index.toNat % 8
  · simp [heq, Nat.mod_lt]
  · simp [heq, Ne.symm heq]

theorem setsBit_free (index : UInt32) :
    SetsBit (fun byte => byte &&& ~~~KernelM.blockMask index) (index.toNat % 8) false := by
  intro byte j hj
  rw [UInt8.toBitVec_and, UInt8.toBitVec_not, BitVec.getLsbD_and, BitVec.getLsbD_not,
    blockMask_toBitVec, BitVec.getLsbD_twoPow]
  by_cases heq : j = index.toNat % 8
  · simp [heq, Nat.mod_lt]
  · simp [heq, Ne.symm heq, hj]

namespace KernelState

variable {k k' k₁ k₂ : KernelState} {n : Nat}

/-- The bit of a block. -/
def bit (k : KernelState) (i : Nat) : Bool :=
  (k.memory (k.heap.bitmap + .ofNat (i / 8))).toBitVec.getLsbD (i % 8)

/-- Nothing but the bitmaps differs. -/
structure Marked (k k' : KernelState) : Prop where
  heap : k'.heap = k.heap
  root : k'.root = k.root
  outside : ∀ x : UInt32, 2 * k.heap.bitmapSize.toNat ≤ (x - k.heap.heapBegin).toNat →
    k'.memory x = k.memory x

theorem Marked.refl (k : KernelState) : Marked k k := ⟨rfl, rfl, fun _ _ => rfl⟩

theorem Marked.trans (h : Marked k k₁) (h' : Marked k₁ k₂) : Marked k k₂ where
  heap := h'.heap.trans h.heap
  root := h'.root.trans h.root
  outside x hx := (h'.outside x (by rwa [h.heap])).trans (h.outside x hx)

/-- Another byte in memory. -/
def setByte (k : KernelState) (place : UInt32) (byte : UInt8) : KernelState :=
  { k with memory := Function.update k.memory place byte }

@[simp] theorem setByte_heap (place : UInt32) (byte : UInt8) :
    (k.setByte place byte).heap = k.heap :=
  rfl

theorem setByte_same (place : UInt32) (byte : UInt8) : (k.setByte place byte).memory place = byte :=
  Function.update_self ..

theorem setByte_other {place other : UInt32} (hne : other ≠ place) (byte : UInt8) :
    (k.setByte place byte).memory other = k.memory other := Function.update_of_ne hne ..

/-- A byte of the bitmaps may become anything. -/
theorem marked_setByte (place : Nat) (hplace : place < 2 * k.heap.bitmapSize.toNat)
    (hfits : k.heap.heapBegin.toNat + 2 * k.heap.bitmapSize.toNat ≤ 2 ^ 32) (byte : UInt8) :
    Marked k (k.setByte (k.heap.heapBegin + .ofNat place) byte) where
  heap := rfl
  root := rfl
  outside x hx := by
    apply setByte_other
    rintro rfl
    have hoff : (k.heap.heapBegin + .ofNat place - k.heap.heapBegin).toNat = place := by
      rw [UInt32.add_comm, UInt32.add_sub_cancel, UInt32.toNat_ofNat', Nat.mod_eq_of_lt (by omega)]
    omega

end KernelState

theorem KernelHeap.Placed.bitmaps_inside {heap : KernelHeap} (h : heap.Placed) :
    heap.heapBegin.toNat + 2 * heap.bitmapSize.toNat ≤ 2 ^ 32 := by
  have := h.bitmaps
  have := h.reserved
  have := h.inside
  omega

/-- The byte that tells whether a byte of the bitmap has changed. -/
theorem KernelHeap.Placed.dirty_add {heap : KernelHeap} (h : heap.Placed) (place : UInt32) :
    heap.dirty + place = heap.heapBegin + .ofNat (heap.bitmapSize.toNat + place.toNat) := by
  rw [h.dirty, UInt32.ofNat_add, UInt32.ofNat_toNat, UInt32.ofNat_toNat, UInt32.add_assoc]

/-- Places of the bitmaps are different bytes. -/
theorem KernelHeap.Placed.place_ne {heap : KernelHeap} (h : heap.Placed) {i j : Nat}
    (hi : i < 2 * heap.bitmapSize.toNat) (hj : j < 2 * heap.bitmapSize.toNat) (hne : i ≠ j) :
    heap.heapBegin + .ofNat i ≠ heap.heapBegin + .ofNat j := by
  intro heq
  have hinside := h.bitmaps_inside
  have hnat := congrArg UInt32.toNat heq
  rw [Mem.toNat_add_ofNat (by omega), Mem.toNat_add_ofNat (by omega)] at hnat
  omega

namespace KernelM

open KernelState

variable {k : KernelState} {n : Nat}

@[simp] theorem run_heap : heap.run n KernelState.handle k = some (k.heap, k) := rfl

@[simp] theorem run_readByte (source : UInt32) :
    (readByte source).run n KernelState.handle k = some (k.memory source, k) := rfl

@[simp] theorem run_writeByte (destination : UInt32) (value : UInt8) :
    (writeByte destination value).run n KernelState.handle k =
      some ((), k.setByte destination value) := rfl

theorem byteIndex_eq (blockIndex : UInt32) : blockIndex / 8 = .ofNat (blockIndex.toNat / 8) := by
  apply UInt32.toNat_inj.mp
  have hlt := blockIndex.toNat_lt
  rw [UInt32.toNat_div, UInt32.toNat_ofNat', Nat.mod_eq_of_lt (by omega)]
  rfl

theorem run_blockIsUsed (blockIndex : UInt32) :
    (kmallocBlockIsUsed k.heap blockIndex).run n KernelState.handle k =
      some (k.bit blockIndex.toNat, k) := by
  rw [kmallocBlockIsUsed, Prog.run_bind, run_readByte, Option.bind_some, bit, byteIndex_eq]
  simp only [Prog.pure_eq, Prog.run_ret, Option.some.injEq, Prod.mk.injEq, and_true]
  rw [Bool.eq_iff_iff, bne_iff_ne, ne_eq, and_blockMask_eq_zero_iff, Bool.not_eq_false]

/-- One bit changes. -/
theorem run_blockSet (h : k.heap.Placed) {change : UInt8 → UInt8} {blockIndex : UInt32}
    {value : Bool} (hchange : SetsBit change (blockIndex.toNat % 8) value)
    (hindex : blockIndex.toNat < 8 * k.heap.bitmapSize.toNat) :
    ∃ k', (kmallocBlockSet change k.heap blockIndex).run n KernelState.handle k = some ((), k') ∧
      Marked k k' ∧ ∀ j < 8 * k.heap.bitmapSize.toNat,
        k'.bit j = if j = blockIndex.toNat then value else k.bit j := by
  have hfits := h.bitmaps_inside
  have hplace : k.heap.bitmap + blockIndex / 8 =
      k.heap.heapBegin + .ofNat (blockIndex.toNat / 8) := by rw [h.bitmap, byteIndex_eq]
  -- the byte of the bit, whatever is written behind the bitmap
  have hbits : ∀ k' : KernelState, k'.heap = k.heap →
      (∀ j < k.heap.bitmapSize.toNat, k'.memory (k.heap.heapBegin + .ofNat j) =
        if j = blockIndex.toNat / 8 then change (k.memory (k.heap.heapBegin + .ofNat j))
        else k.memory (k.heap.heapBegin + .ofNat j)) →
      ∀ j < 8 * k.heap.bitmapSize.toNat,
        k'.bit j = if j = blockIndex.toNat then value else k.bit j := by
    intro k' hheap hbyte j hj
    rw [bit, bit, hheap, h.bitmap, hbyte (j / 8) (by omega)]
    by_cases hsame : j / 8 = blockIndex.toNat / 8
    · rw [if_pos hsame, hchange _ _ (Nat.mod_lt _ (by decide))]
      exact if_congr (by omega) rfl rfl
    · rw [if_neg hsame, if_neg (by rintro rfl; exact hsame rfl)]
  rw [kmallocBlockSet, Prog.run_bind, run_readByte, Option.bind_some, hplace]
  split
  next hnew =>
    have hmarked := marked_setByte (k := k) (blockIndex.toNat / 8) (by omega) hfits
      (change (k.memory (k.heap.heapBegin + .ofNat (blockIndex.toNat / 8))))
    simp only [Prog.run_bind, run_writeByte, Option.bind_some, kmallocBitmapMarkDirty]
    set k₁ := k.setByte (k.heap.heapBegin + .ofNat (blockIndex.toNat / 8))
      (change (k.memory (k.heap.heapBegin + .ofNat (blockIndex.toNat / 8)))) with hk₁
    have hbyte : ∀ j < k.heap.bitmapSize.toNat, k₁.memory (k.heap.heapBegin + .ofNat j) =
        if j = blockIndex.toNat / 8 then change (k.memory (k.heap.heapBegin + .ofNat j))
        else k.memory (k.heap.heapBegin + .ofNat j) := by
      intro j hj
      by_cases hsame : j = blockIndex.toNat / 8
      · rw [if_pos hsame, hsame, hk₁, setByte_same]
      · rw [if_neg hsame, hk₁, setByte_other (h.place_ne (by omega) (by omega) hsame)]
    split
    next hdirty =>
      have hbehind : k.heap.dirty + blockIndex / 8 =
          k₁.heap.heapBegin + .ofNat (k.heap.bitmapSize.toNat + blockIndex.toNat / 8) := by
        rw [h.dirty_add, byteIndex_eq, UInt32.toNat_ofNat', Nat.mod_eq_of_lt (by omega)]
        rfl
      have hmarked₁ := marked_setByte (k := k₁) (k.heap.bitmapSize.toNat + blockIndex.toNat / 8)
        (show _ < 2 * k.heap.bitmapSize.toNat by omega) hfits 1
      rw [run_writeByte, hbehind]
      refine ⟨_, rfl, hmarked.trans hmarked₁, hbits _ rfl fun j hj => ?_⟩
      have hne := h.place_ne (i := j) (j := k.heap.bitmapSize.toNat + blockIndex.toNat / 8)
        (by omega) (by omega) (by omega)
      exact (setByte_other hne 1).trans (hbyte j hj)
    next hdirty => exact ⟨k₁, rfl, hmarked, hbits k₁ rfl hbyte⟩
  next hold =>
    refine ⟨k, rfl, .refl k, hbits k rfl fun j hj => ?_⟩
    by_cases hsame : j = blockIndex.toNat / 8
    · rw [if_pos hsame, hsame]
      exact (not_not.mp hold).symm
    · rw [if_neg hsame]

/-- Marking a block changes its bit and no other one. -/
def Marks (heap : KernelHeap) (visit : UInt32 → KernelM Unit) (value : Bool) : Prop :=
  ∀ (n : Nat) (k : KernelState) (index : UInt32), k.heap = heap →
    index.toNat < 8 * heap.bitmapSize.toNat →
      ∃ k', (visit index).run n KernelState.handle k = some ((), k') ∧ Marked k k' ∧
        ∀ j < 8 * heap.bitmapSize.toNat, k'.bit j = if j = index.toNat then value else k.bit j

theorem marks_used {heap : KernelHeap} (h : heap.Placed) :
    Marks heap (kmallocBlockSetUsed heap) true := by
  rintro n k index rfl hindex
  exact run_blockSet h (setsBit_used index) hindex

theorem marks_free {heap : KernelHeap} (h : heap.Placed) :
    Marks heap (kmallocBlockSetFree heap) false := by
  rintro n k index rfl hindex
  exact run_blockSet h (setsBit_free index) hindex

/-- A range of blocks is marked. -/
theorem Marks.forIndices {visit : UInt32 → KernelM Unit} {value : Bool}
    (hmarks : Marks k.heap visit value) (count : Nat) (start : UInt32)
    (hend : start.toNat + count ≤ 8 * k.heap.bitmapSize.toNat)
    (hlt : start.toNat + count < 2 ^ 32) :
    ∃ k', (KernelM.forIndices visit count start).run n KernelState.handle k = some ((), k') ∧
      Marked k k' ∧ ∀ j < 8 * k.heap.bitmapSize.toNat,
        k'.bit j = if start.toNat ≤ j ∧ j < start.toNat + count then value else k.bit j := by
  induction count generalizing k start with
  | zero =>
      refine ⟨k, rfl, .refl k, fun j hj => ?_⟩
      rw [if_neg (by omega)]
  | succ count ih =>
      obtain ⟨k₁, hrun, hmarked, hbits⟩ := hmarks n k start rfl (by omega)
      have hnext : (start + 1).toNat = start.toNat + 1 := Mem.toNat_add_ofNat (k := 1) (by omega)
      rw [← hmarked.heap] at hmarks
      obtain ⟨k₂, hrest, hmarked₂, hbits₂⟩ := ih hmarks (start + 1)
        (by rw [hmarked.heap]; omega) (by omega)
      refine ⟨k₂, ?_, hmarked.trans hmarked₂, fun j hj => ?_⟩
      · rw [KernelM.forIndices, Prog.run_bind, hrun]
        exact hrest
      · rw [hbits₂ j (by rwa [hmarked.heap]), hbits j hj, hnext]
        by_cases hhead : j = start.toNat
        · rw [if_neg (by omega), if_pos hhead, if_pos (by omega)]
        · rw [if_neg hhead]
          exact if_congr (by omega) rfl rfl

/-- The bitmap is its own copy, so the bits stay while the changes are forgotten. -/
theorem run_writeBackByte (h : k.heap.Placed) (index : UInt32)
    (hindex : index.toNat < k.heap.bitmapSize.toNat) :
    ∃ k', (writeBackByte k.heap index).run n KernelState.handle k = some ((), k') ∧
      Marked k k' ∧ ∀ j < 8 * k.heap.bitmapSize.toNat, k'.bit j = k.bit j := by
  have hfits := h.bitmaps_inside
  rw [writeBackByte, Prog.run_bind, run_readByte, Option.bind_some]
  split
  · exact ⟨k, rfl, .refl k, fun _ _ => rfl⟩
  · have hsame : k.setByte (k.heap.heapBegin + index) (k.memory (k.heap.bitmap + index)) = k := by
      rw [setByte, h.bitmap, Function.update_eq_self]
    simp only [Prog.run_bind, run_readByte, run_writeByte, Option.bind_some, hsame]
    rw [h.dirty_add]
    refine ⟨_, rfl, marked_setByte _ (by omega) hfits 0, fun j hj => ?_⟩
    rw [bit, bit, setByte_heap, h.bitmap,
      setByte_other (h.place_ne (by omega) (by omega) (by omega))]

theorem run_writeBack (h : k.heap.Placed) (count : Nat) (start : UInt32)
    (hend : start.toNat + count ≤ k.heap.bitmapSize.toNat)
    (hlt : start.toNat + count < 2 ^ 32) :
    ∃ k', (forIndices (writeBackByte k.heap) count start).run n KernelState.handle k =
        some ((), k') ∧
      Marked k k' ∧ ∀ j < 8 * k.heap.bitmapSize.toNat, k'.bit j = k.bit j := by
  induction count generalizing k start with
  | zero => exact ⟨k, rfl, .refl k, fun _ _ => rfl⟩
  | succ count ih =>
      obtain ⟨k₁, hrun, hmarked, hbits⟩ := run_writeBackByte (n := n) h start (by omega)
      have hnext : (start + 1).toNat = start.toNat + 1 := Mem.toNat_add_ofNat (k := 1) (by omega)
      have h₁ : k₁.heap.Placed := by rwa [hmarked.heap]
      obtain ⟨k₂, hrest, hmarked₂, hbits₂⟩ := ih h₁ (start + 1)
        (by rw [hmarked.heap]; omega) (by omega)
      refine ⟨k₂, ?_, hmarked.trans hmarked₂, fun j hj => ?_⟩
      · rw [hmarked.heap] at hrest
        rw [forIndices, Prog.run_bind, hrun]
        exact hrest
      · rw [hbits₂ j (by rwa [hmarked.heap]), hbits j hj]

theorem run_bitmapWrite (h : k.heap.Placed) :
    ∃ k', (kmallocBitmapWrite k.heap).run n KernelState.handle k = some ((), k') ∧
      Marked k k' ∧ ∀ j < 8 * k.heap.bitmapSize.toNat, k'.bit j = k.bit j := by
  rw [kmallocBitmapWrite]
  split
  · exact ⟨k, rfl, .refl k, fun _ _ => rfl⟩
  next hbitmap =>
    have hfits := h.bitmaps_inside
    have hlt := k.heap.bitmapSize.toNat_lt
    -- the second bitmap lies behind the first one, so it is not at zero either
    have hdirty : k.heap.dirty ≠ 0 := by
      intro hzero
      apply hbitmap
      apply UInt32.toNat_inj.mp
      have hnat := congrArg UInt32.toNat hzero
      have hpool := h.inside
      rw [h.dirty, Mem.toNat_add_of_lt (by have := h.bitmaps; have := h.reserved; omega)] at hnat
      rw [h.bitmap, UInt32.toNat_zero]
      rw [UInt32.toNat_zero] at hnat
      omega
    rw [if_neg hdirty]
    apply run_writeBack h
    · simp
    · rw [UInt32.toNat_zero]
      omega

/-- Searching visits the blocks as the first-fit scan does. -/
theorem run_findBlocks (required : UInt32) (remaining : Nat) (current found start : UInt32)
    (hend : current.toNat + remaining < 2 ^ 32) (hfound : found.toNat ≤ current.toNat) :
    ∃ result, (findBlocks k.heap required remaining current found start).run n
        KernelState.handle k = some (result, k) ∧
      result.map UInt32.toNat = FirstFit.scan (fun i => !k.bit i) required.toNat remaining
        current.toNat start.toNat found.toNat := by
  induction remaining generalizing current found start with
  | zero => exact ⟨none, rfl, rfl⟩
  | succ remaining ih =>
      have hnext : (current + 1).toNat = current.toNat + 1 :=
        Mem.toNat_add_ofNat (k := 1) (by omega)
      have hlong : (found + 1).toNat = found.toNat + 1 := Mem.toNat_add_ofNat (k := 1) (by omega)
      have hzero : (found = 0) = (found.toNat = 0) := by
        rw [eq_iff_iff, ← UInt32.toNat_inj]
        rfl
      simp only [findBlocks, Prog.run_bind, run_blockIsUsed, Option.bind_some, FirstFit.scan]
      by_cases hbit : k.bit current.toNat = true
      · have hrest := ih (current + 1) 0 start (by omega) (Nat.zero_le _)
        rw [hnext] at hrest
        simpa [hbit] using hrest
      · have hstart : (if found = 0 then current else start).toNat =
            if found.toNat = 0 then current.toNat else start.toNat := by
          simp only [hzero]
          split <;> rfl
        rw [if_neg hbit, if_pos (show (!k.bit current.toNat) = true by simpa using hbit)]
        simp only [ge_iff_le, UInt32.le_iff_toNat_le, hlong]
        split
        · exact ⟨_, rfl, congrArg some hstart⟩
        · have hrest := ih (current + 1) (found + 1) (if found = 0 then current else start)
            (by omega) (by omega)
          rwa [hnext, hlong, hstart] at hrest

end KernelM

end AvrKernel.Kernel

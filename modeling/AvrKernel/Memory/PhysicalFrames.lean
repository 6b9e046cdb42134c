import AvrKernel.Lib.Masks
import AvrKernel.Lib.Bytes
import Mathlib.Data.Nat.Bitwise
import Mathlib.Tactic.Common

/-!
# Physical memory

`pmm_init` of `pmm.c`: the page frames below 4 GB that the memory map of the
boot loader leaves to the kernel.
-/

namespace AvrKernel.Memory

open Bytes

def pageSize : UInt32 := 4096

/-- `MAX_PHYS_MEMORY`, and the number of frames in it. -/
def maxPhysMemory : UInt64 := 0x100000000
def physTotalFrames : Nat := 0x100000

def multibootInfoMemMap : UInt32 := 0x40
def multibootMemoryAvailable : UInt32 := 1

/-- The fields of `struct MultibootInfo` that are read here. -/
structure MultibootInfo where
  flags : UInt32
  mmapLength : UInt32
  mmapAddr : UInt32

structure MultibootMmapEntry where
  size : UInt32
  addr : UInt64
  len : UInt64
  type : UInt32
  deriving DecidableEq

/-- A 64-bit word, least significant byte first. -/
def readWord64 (m : Mem) (a : UInt32) : UInt64 :=
  (Layout.u32.decode (m.read a 4)).toUInt64 +
    (Layout.u32.decode (m.read (a + 4) 4)).toUInt64 * 0x100000000

def readMmapEntry (m : Mem) (a : UInt32) : MultibootMmapEntry where
  size := Layout.u32.decode (m.read a 4)
  addr := readWord64 m (a + 4)
  len := readWord64 m (a + 12)
  type := Layout.u32.decode (m.read (a + 20) 4)

/-- The bitmap, in words of 32 frames; a bit is set for a frame that is not free. -/
structure PmmState where
  bitmap : UInt32 → UInt32
  totalFrames : UInt32

/-- The mask of a frame's bit in its word. -/
def frameMask (frame : UInt32) : UInt32 := 1 <<< (frame % 32)

namespace PmmState

def IsFree (s : PmmState) (frame : UInt32) : Prop :=
  s.bitmap (frame / 32) &&& frameMask frame = 0

instance (s : PmmState) (frame : UInt32) : Decidable (s.IsFree frame) :=
  inferInstanceAs (Decidable (_ = _))

/-- Clear the allocation of a frame. -/
def clearFrame (s : PmmState) (frame : UInt32) : PmmState where
  bitmap := Function.update s.bitmap (frame / 32) (s.bitmap (frame / 32) &&& ~~~frameMask frame)
  totalFrames := if frame ≥ s.totalFrames then frame + 1 else s.totalFrames

end PmmState

namespace MultibootMmapEntry

variable (e : MultibootMmapEntry)

/-- The end of a region, cut at 4 GB. -/
def regionEnd : UInt64 :=
  if e.addr + e.len > maxPhysMemory then maxPhysMemory else e.addr + e.len

/-- The first page boundary of a region, and its last. -/
def alignedStart : UInt64 := (e.addr + pageSize.toUInt64 - 1) &&& ~~~(pageSize.toUInt64 - 1)
def alignedEnd : UInt64 := e.regionEnd &&& ~~~(pageSize.toUInt64 - 1)

/-- Free the pages from `addr` on that are below `stop`, and not below `physicalBegin`. -/
def freePages (stop : UInt64) (physicalBegin : UInt32) : Nat → UInt64 → PmmState → Option PmmState
  | 0, _, _ => none
  | fuel + 1, addr, s =>
      if addr < stop then
        freePages stop physicalBegin fuel (addr + pageSize.toUInt64)
          (if addr < physicalBegin.toUInt64 then s else s.clearFrame (addr >>> 12).toUInt32)
      else some s

/-- Free the pages of a region, if it is available. -/
def freeRegion (fuel : Nat) (physicalBegin : UInt32) (s : PmmState) : Option PmmState :=
  if e.type = multibootMemoryAvailable then
    freePages e.alignedEnd physicalBegin fuel e.alignedStart s
  else some s

end MultibootMmapEntry

/-- The walk over the entries from `mmap` on. -/
def freeRegions (m : Mem) (fuel : Nat) (mmapEnd physicalBegin : UInt32) :
    Nat → UInt32 → PmmState → Option PmmState
  | 0, _, _ => none
  | n + 1, mmap, s =>
      if mmap < mmapEnd then do
        let entry := readMmapEntry m mmap
        let s ← entry.freeRegion fuel physicalBegin s
        freeRegions m fuel mmapEnd physicalBegin n (mmap + entry.size + 4) s
      else some s

/-- The state after the initialisation: none if it does not return, for want of `fuel`, or
because the kernel stops without a memory map. -/
def pmmInit (m : Mem) (fuel : Nat) (mbi : Option MultibootInfo) (physicalBegin : UInt32)
    (s : PmmState) : Option PmmState :=
  match mbi with
  | none => none
  | some mbi =>
      if mbi.flags &&& multibootInfoMemMap = 0 then none
      else
        freeRegions m fuel (mbi.mmapAddr + mbi.mmapLength) physicalBegin fuel mbi.mmapAddr
          { s with bitmap := fun _ => 0xFFFFFFFF }

/-! ## Bits and pages -/

theorem frameMask_toBitVec (frame : UInt32) :
    (frameMask frame).toBitVec = BitVec.twoPow 32 (frame.toNat % 32) := by
  apply BitVec.eq_of_toNat_eq
  have hmod : (frame % 32).toNat = frame.toNat % 32 := by simp
  rw [BitVec.toNat_twoPow, UInt32.toNat_toBitVec, frameMask, UInt32.toNat_shiftLeft, hmod,
    UInt32.toNat_one, Nat.shiftLeft_eq, Nat.one_mul, Nat.mod_mod]

theorem and_frameMask_eq_zero_iff (word frame : UInt32) :
    word &&& frameMask frame = 0 ↔ word.toBitVec.getLsbD (frame.toNat % 32) = false := by
  rw [← UInt32.toBitVec_inj, UInt32.toBitVec_and, frameMask_toBitVec, BitVec.and_twoPow]
  have hlt := Nat.mod_lt frame.toNat (show 0 < 32 by decide)
  cases hbit : word.toBitVec.getLsbD (frame.toNat % 32) with
  | false => simp
  | true =>
      simp only [↓reduceIte, Bool.true_eq_false, iff_false]
      intro h
      have hbit := congrArg (fun v => BitVec.getLsbD v (frame.toNat % 32)) h
      simp [hlt] at hbit

/-- Clearing a frame frees it, and no other. -/
theorem PmmState.isFree_clearFrame (s : PmmState) (frame other : UInt32) :
    (s.clearFrame frame).IsFree other ↔ other = frame ∨ s.IsFree other := by
  simp only [IsFree, clearFrame]
  by_cases hword : other / 32 = frame / 32
  · rw [hword, Function.update_self, and_frameMask_eq_zero_iff, and_frameMask_eq_zero_iff,
      UInt32.toBitVec_and, UInt32.toBitVec_not, frameMask_toBitVec, BitVec.getLsbD_and,
      BitVec.getLsbD_not, BitVec.getLsbD_twoPow]
    have hquot : other.toNat / 32 = frame.toNat / 32 := by simpa using congrArg UInt32.toNat hword
    have hlt := Nat.mod_lt other.toNat (show 0 < 32 by decide)
    have heq : frame.toNat % 32 = other.toNat % 32 ↔ other = frame := by
      rw [← UInt32.toNat_inj]
      omega
    have hlt' := Nat.mod_lt frame.toNat (show 0 < 32 by decide)
    by_cases hsame : other = frame
    · simp [hsame, hlt']
    · simp [hsame, heq, hlt]
  · rw [Function.update_of_ne hword]
    constructor
    · exact .inr
    · rintro (rfl | hfree)
      · exact absurd rfl hword
      · exact hfree

theorem pageFloor_toNat (x : UInt64) :
    (x &&& ~~~(pageSize.toUInt64 - 1)).toNat = x.toNat / 4096 * 4096 := by
  have hmask : (~~~(pageSize.toUInt64 - 1)).toNat = (2 ^ 52 - 1) <<< 12 := by decide
  rw [UInt64.toNat_and, hmask]
  exact Masks.and_upper (n := 12) (k := 52) x.toNat_lt

namespace MultibootMmapEntry

variable {e : MultibootMmapEntry} {physicalBegin : UInt32} {s : PmmState} {fuel : Nat}

theorem alignedEnd_le (e : MultibootMmapEntry) : e.alignedEnd.toNat ≤ 2 ^ 32 := by
  have hle : e.regionEnd.toNat ≤ 2 ^ 32 := by
    rw [regionEnd]
    split
    · exact Nat.le_refl _
    · rename_i hend
      exact UInt64.le_iff_toNat_le.mp (UInt64.not_lt.mp hend)
  rw [alignedEnd, pageFloor_toNat]
  omega

/-- The frame whose page begins at an address. -/
theorem frame_toNat {addr : UInt64} (hlt : addr.toNat < 2 ^ 32) :
    (addr >>> 12).toUInt32.toNat = addr.toNat / 4096 := by
  rw [UInt64.toNat_toUInt32, UInt64.toNat_shiftRight, Nat.shiftRight_eq_div_pow]
  exact Nat.mod_eq_of_lt (by change addr.toNat / 2 ^ 12 < 2 ^ 32; omega)

/-- The loop frees the pages between two page boundaries that are not below the limit. -/
theorem freePages_spec {stop addr : UInt64} (hstop : stop.toNat ≤ 2 ^ 32)
    (hpage : addr.toNat % 4096 = 0)
    (hfuel : (stop.toNat - addr.toNat + 4095) / 4096 < fuel) :
    ∃ s', freePages stop physicalBegin fuel addr s = some s' ∧ ∀ frame : UInt32,
      s'.IsFree frame ↔ s.IsFree frame ∨ physicalBegin.toNat ≤ frame.toNat * 4096 ∧
        addr.toNat ≤ frame.toNat * 4096 ∧ frame.toNat * 4096 < stop.toNat := by
  induction fuel generalizing addr s with
  | zero => exact absurd hfuel (Nat.not_lt_zero _)
  | succ fuel ih =>
      rw [freePages]
      split
      next hlt =>
        have hlt' : addr.toNat < stop.toNat := UInt64.lt_iff_toNat_lt.mp hlt
        have hnext : (addr + pageSize.toUInt64).toNat = addr.toNat + 4096 := by
          rw [UInt64.toNat_add]
          exact Nat.mod_eq_of_lt (by change addr.toNat + 4096 < 2 ^ 64; omega)
        have hnextPage : (addr + pageSize.toUInt64).toNat % 4096 = 0 := by omega
        obtain ⟨s', hrun, hfree⟩ := ih hnextPage (by omega)
          (s := if addr < physicalBegin.toUInt64 then s else s.clearFrame (addr >>> 12).toUInt32)
        refine ⟨s', hrun, fun frame => ?_⟩
        rw [hfree, hnext]
        have hframe : frame = (addr >>> 12).toUInt32 ↔ frame.toNat * 4096 = addr.toNat := by
          rw [← UInt32.toNat_inj, frame_toNat (by omega)]
          omega
        split
        next hbelow =>
          have hbelow' : addr.toNat < physicalBegin.toNat := by
            simpa using UInt64.lt_iff_toNat_lt.mp hbelow
          apply or_congr_right
          omega
        next habove =>
          have habove' : physicalBegin.toNat ≤ addr.toNat := by
            simpa using UInt64.le_iff_toNat_le.mp (UInt64.not_lt.mp habove)
          rw [PmmState.isFree_clearFrame, hframe]
          by_cases hold : s.IsFree frame
          · simp [hold]
          · simp only [hold, or_false, false_or]
            omega
      next hge =>
        have hge' : stop.toNat ≤ addr.toNat := UInt64.le_iff_toNat_le.mp (UInt64.not_lt.mp hge)
        refine ⟨s, rfl, fun frame => ?_⟩
        constructor
        · exact .inl
        · rintro (hfree | hpage)
          · exact hfree
          · omega

/-- The frames that the code frees for a region. -/
def Frees (e : MultibootMmapEntry) (frame : UInt32) : Prop :=
  e.type = multibootMemoryAvailable ∧ e.alignedStart.toNat ≤ frame.toNat * 4096 ∧
    frame.toNat * 4096 < e.alignedEnd.toNat

theorem freeRegion_spec (e : MultibootMmapEntry) (physicalBegin : UInt32) (s : PmmState)
    (hfuel : physTotalFrames < fuel) :
    ∃ s', e.freeRegion fuel physicalBegin s = some s' ∧ ∀ frame : UInt32,
      s'.IsFree frame ↔
        s.IsFree frame ∨ physicalBegin.toNat ≤ frame.toNat * 4096 ∧ e.Frees frame := by
  rw [freeRegion]
  split
  next havailable =>
    have hend := e.alignedEnd_le
    have hfuel' : 0x100000 < fuel := hfuel
    have hstart : e.alignedStart.toNat % 4096 = 0 := by rw [alignedStart, pageFloor_toNat]; omega
    have hsteps : (e.alignedEnd.toNat - e.alignedStart.toNat + 4095) / 4096 < fuel := by omega
    obtain ⟨s', hrun, hfree⟩ := freePages_spec hend hstart hsteps
    refine ⟨s', hrun, fun frame => ?_⟩
    rw [hfree, Frees]
    simp only [havailable, true_and]
  next hreserved =>
    refine ⟨s, rfl, fun frame => ?_⟩
    simp [Frees, hreserved]

/-- The page of a frame lies wholly inside of the region. -/
def Holds (e : MultibootMmapEntry) (frame : UInt32) : Prop :=
  e.addr.toNat ≤ frame.toNat * 4096 ∧
    frame.toNat * 4096 + 4096 ≤ e.addr.toNat + e.len.toNat

/-- The page of a frame and the region have a byte in common. -/
def Overlaps (e : MultibootMmapEntry) (frame : UInt32) : Prop :=
  e.addr.toNat < frame.toNat * 4096 + 4096 ∧
    frame.toNat * 4096 < e.addr.toNat + e.len.toNat

/-- Neither the end of the region nor its first page boundary lies past 64 bits. -/
structure InRange (e : MultibootMmapEntry) : Prop where
  regionEnd : e.addr.toNat + e.len.toNat < 2 ^ 64
  alignedStart : e.addr.toNat + 4095 < 2 ^ 64

/-- In range, rounding inwards keeps exactly the whole pages. -/
theorem InRange.frees_iff (h : e.InRange) {frame : UInt32}
    (hframe : frame.toNat < physTotalFrames) :
    e.Frees frame ↔ e.type = multibootMemoryAvailable ∧ e.Holds frame := by
  have hframe' : frame.toNat < 0x100000 := hframe
  obtain ⟨hregion, hround⟩ := h
  have hstart : e.alignedStart.toNat = (e.addr.toNat + 4095) / 4096 * 4096 := by
    have hsum : (e.addr + pageSize.toUInt64 - 1).toNat = e.addr.toNat + 4095 := by
      have hpage : pageSize.toUInt64.toNat = 4096 := rfl
      rw [UInt64.toNat_sub, UInt64.toNat_add, hpage, UInt64.toNat_one]
      omega
    rw [MultibootMmapEntry.alignedStart, pageFloor_toNat, hsum]
  have hsum : (e.addr + e.len).toNat = e.addr.toNat + e.len.toNat := by
    rw [UInt64.toNat_add]
    exact Nat.mod_eq_of_lt hregion
  have hend : e.regionEnd.toNat = min (e.addr.toNat + e.len.toNat) (2 ^ 32) := by
    rw [MultibootMmapEntry.regionEnd]
    split
    next hover =>
      have hover' := UInt64.lt_iff_toNat_lt.mp hover
      rw [hsum] at hover'
      exact (Nat.min_eq_right (Nat.le_of_lt hover')).symm
    next hin =>
      have hin' := UInt64.le_iff_toNat_le.mp (UInt64.not_lt.mp hin)
      rw [hsum] at hin' ⊢
      exact (Nat.min_eq_left hin').symm
  rw [Frees, Holds, hstart, alignedEnd, pageFloor_toNat, hend]
  apply and_congr_right
  intro _
  omega

end MultibootMmapEntry

/-! ## The memory map -/

/-- The entries that a walk from `mmap` on meets, until it is past the end of the map. -/
inductive MapAt (m : Mem) (stop : UInt32) : UInt32 → List MultibootMmapEntry → Prop
  | done {mmap : UInt32} (hdone : ¬ mmap < stop) : MapAt m stop mmap []
  | entry {mmap : UInt32} {rest : List MultibootMmapEntry} (hmore : mmap < stop)
      (hrest : MapAt m stop (mmap + (readMmapEntry m mmap).size + 4) rest) :
      MapAt m stop mmap (readMmapEntry m mmap :: rest)

/-- What the boot loader hands over: a memory map of any number of entries. -/
structure MemoryMap where
  mem : Mem
  mbi : MultibootInfo
  entries : List MultibootMmapEntry
  present : mbi.flags &&& multibootInfoMemMap ≠ 0
  layout : MapAt mem (mbi.mmapAddr + mbi.mmapLength) mbi.mmapAddr entries

variable {m : Mem} {stop mmap physicalBegin : UInt32} {entries : List MultibootMmapEntry}
  {s : PmmState} {fuel n : Nat}

theorem freeRegions_spec (hmap : MapAt m stop mmap entries) (hfuel : physTotalFrames < fuel)
    (hn : entries.length < n) :
    ∃ s', freeRegions m fuel stop physicalBegin n mmap s = some s' ∧ ∀ frame : UInt32,
      s'.IsFree frame ↔ s.IsFree frame ∨
        physicalBegin.toNat ≤ frame.toNat * 4096 ∧ ∃ e ∈ entries, e.Frees frame := by
  induction hmap generalizing s n with
  | done hdone =>
      obtain ⟨n, rfl⟩ := Nat.exists_eq_succ_of_ne_zero (Nat.ne_of_gt hn)
      refine ⟨s, by rw [freeRegions, if_neg hdone], fun frame => ?_⟩
      simp
  | @entry mmap rest hmore hrest ih =>
      obtain ⟨n, rfl⟩ := Nat.exists_eq_succ_of_ne_zero (Nat.ne_of_gt (Nat.zero_lt_of_lt hn))
      obtain ⟨s₁, hregion, hfree₁⟩ :=
        (readMmapEntry m mmap).freeRegion_spec physicalBegin s hfuel
      obtain ⟨s₂, hwalk, hfree₂⟩ := ih (s := s₁) (n := n) (Nat.lt_of_succ_lt_succ hn)
      refine ⟨s₂, ?_, fun frame => ?_⟩
      · rw [freeRegions, if_pos hmore]
        simp only [hregion, Option.bind_eq_bind, Option.bind_some, hwalk]
      · rw [hfree₂, hfree₁, List.exists_mem_cons_iff, and_or_left, or_assoc]

theorem not_isFree_full (totalFrames frame : UInt32) :
    ¬ ({ bitmap := fun _ => 0xFFFFFFFF, totalFrames } : PmmState).IsFree frame := by
  have hlt := Nat.mod_lt frame.toNat (show 0 < 32 by decide)
  have hones : (0xFFFFFFFF : UInt32).toBitVec = BitVec.allOnes 32 := rfl
  rw [PmmState.IsFree, and_frameMask_eq_zero_iff, hones, BitVec.getLsbD_allOnes]
  simp [hlt]

/-- `pmm_init` returns, and leaves free what it frees for some region. -/
theorem pmmInit_spec (map : MemoryMap) (physicalBegin : UInt32) (s : PmmState)
    (hfuel : physTotalFrames + map.entries.length < fuel) :
    ∃ s', pmmInit map.mem fuel (some map.mbi) physicalBegin s = some s' ∧ ∀ frame : UInt32,
      s'.IsFree frame ↔
        physicalBegin.toNat ≤ frame.toNat * 4096 ∧ ∃ e ∈ map.entries, e.Frees frame := by
  have hframes : physTotalFrames < fuel := by omega
  have hentries : map.entries.length < fuel := by omega
  obtain ⟨s', hrun, hfree⟩ := freeRegions_spec (s := { s with bitmap := fun _ => 0xFFFFFFFF })
    map.layout hframes hentries
  refine ⟨s', ?_, fun frame => ?_⟩
  · rw [pmmInit, if_neg map.present]
    exact hrun
  · rw [hfree]
    simp [not_isFree_full]

namespace MemoryMap

/-- After `pmm_init`, the frames below 4 GB that are free are those with the property. -/
def FreesExactly (map : MemoryMap) (physicalBegin : UInt32) (s : PmmState)
    (property : UInt32 → Prop) : Prop :=
  ∃ enough, ∀ fuel > enough, ∃ s', pmmInit map.mem fuel (some map.mbi) physicalBegin s = some s' ∧
    ∀ frame : UInt32, frame.toNat < physTotalFrames → (s'.IsFree frame ↔ property frame)

/-- A frame is in an available region and not below the limit. -/
def Available (map : MemoryMap) (physicalBegin frame : UInt32) : Prop :=
  (∃ e ∈ map.entries, e.type = multibootMemoryAvailable ∧ e.Holds frame) ∧
    physicalBegin.toNat ≤ frame.toNat * 4096

/-- A frame has a byte in common with a region that is not available. -/
def Reserved (map : MemoryMap) (frame : UInt32) : Prop :=
  ∃ e ∈ map.entries, e.type ≠ multibootMemoryAvailable ∧ e.Overlaps frame

/-- The available regions alone decide, as long as 64 bits hold their bounds. -/
theorem frees_available (map : MemoryMap) (physicalBegin : UInt32) (s : PmmState)
    (hrange : ∀ e ∈ map.entries, e.type = multibootMemoryAvailable → e.InRange) :
    map.FreesExactly physicalBegin s (map.Available physicalBegin) := by
  refine ⟨physTotalFrames + map.entries.length, fun fuel hfuel => ?_⟩
  obtain ⟨s', hrun, hfree⟩ := pmmInit_spec map physicalBegin s hfuel
  refine ⟨s', hrun, fun frame hframe => ?_⟩
  rw [hfree, Available, and_comm]
  apply and_congr_left
  intro _
  constructor
  · rintro ⟨e, hin, hfrees⟩
    exact ⟨e, hin, ((hrange e hin hfrees.1).frees_iff hframe).mp hfrees⟩
  · rintro ⟨e, hin, havailable, hholds⟩
    exact ⟨e, hin, ((hrange e hin havailable).frees_iff hframe).mpr ⟨havailable, hholds⟩⟩

/-- Two pages of memory, the second of which is reported as reserved, too. -/
def overlappingEntries : List MultibootMmapEntry :=
  [{ size := 20, addr := 0, len := 0x2000, type := 1 },
    { size := 20, addr := 0x1000, len := 0x1000, type := 2 }]

def encodeEntry (e : MultibootMmapEntry) : List UInt8 :=
  Layout.u32.encode e.size ++ Layout.u32.encode e.addr.toUInt32 ++ [0, 0, 0, 0] ++
    Layout.u32.encode e.len.toUInt32 ++ [0, 0, 0, 0] ++ Layout.u32.encode e.type

def overlappingMemory : Mem :=
  Mem.write (fun _ => 0) 0x500 (overlappingEntries.flatMap encodeEntry)

def overlappingMap : MemoryMap where
  mem := overlappingMemory
  mbi := { flags := multibootInfoMemMap, mmapLength := 48, mmapAddr := 0x500 }
  entries := [readMmapEntry overlappingMemory 0x500, readMmapEntry overlappingMemory 0x518]
  present := by decide
  layout := by
    have hsize : (0x500 : UInt32) + (readMmapEntry overlappingMemory 0x500).size + 4 = 0x518 := by
      decide +kernel
    have hsize' : (0x518 : UInt32) + (readMmapEntry overlappingMemory 0x518).size + 4 = 0x530 := by
      decide +kernel
    apply MapAt.entry (by decide)
    rw [hsize]
    apply MapAt.entry (by decide)
    rw [hsize']
    exact MapAt.done (by decide)

theorem overlappingMap_entries : overlappingMap.entries = overlappingEntries := by decide +kernel

theorem frees_available_overlapping :
    overlappingMap.FreesExactly 0 { bitmap := fun _ => 0, totalFrames := 0 }
      (overlappingMap.Available 0) := by
  apply frees_available
  rw [overlappingMap_entries]
  intro e hin _
  simp only [overlappingEntries, List.mem_cons, List.not_mem_nil, or_false] at hin
  rcases hin with rfl | rfl
  · exact ⟨by decide, by decide⟩
  · exact ⟨by decide, by decide⟩

/-- The second page is free, although it is reported as reserved. -/
theorem reserved_frame_free : ¬ ∀ (map : MemoryMap) (physicalBegin : UInt32) (s : PmmState),
    map.FreesExactly physicalBegin s
      fun frame => map.Available physicalBegin frame ∧ ¬ map.Reserved frame := by
  intro hall
  obtain ⟨enough, hexact⟩ := hall overlappingMap 0 { bitmap := fun _ => 0, totalFrames := 0 }
  have hfuel : physTotalFrames + overlappingMap.entries.length <
      enough + physTotalFrames + overlappingMap.entries.length + 1 := by omega
  obtain ⟨s', hrun, hfree⟩ :=
    pmmInit_spec overlappingMap 0 { bitmap := fun _ => 0, totalFrames := 0 } hfuel
  obtain ⟨s'', hrun', hproperty⟩ := hexact
    (enough + physTotalFrames + overlappingMap.entries.length + 1) (by omega)
  obtain rfl : s' = s'' := Option.some.inj (hrun.symm.trans hrun')
  have hfirst : s'.IsFree 1 := by
    rw [hfree, overlappingMap_entries]
    exact ⟨by decide, _, List.mem_cons_self, by decide, by decide, by decide⟩
  have hreserved : overlappingMap.Reserved 1 := by
    rw [Reserved, overlappingMap_entries]
    exact ⟨_, List.mem_cons_of_mem _ List.mem_cons_self, by decide, by decide, by decide⟩
  exact ((hproperty 1 (by decide)).mp hfirst).2 hreserved

end MemoryMap

end AvrKernel.Memory

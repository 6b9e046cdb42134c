import AvrKernel.Lib.BitArray
import AvrKernel.Memory.PhysicalFrames
import Mathlib.Data.Finset.Max
import Mathlib.Data.Finset.Range
import Mathlib.Data.List.Find

/-!
# Page frames

`pmm_alloc_frame` and `pmm_free_frame` of `pmm.c`: the lowest free frame is handed out, and a
frame that is given back is free again.
-/

namespace AvrKernel.Memory

/-- `PMM_NO_FRAME`. -/
def pmmNoFrame : UInt32 := 0xFFFFFFFF

def physBitmapWords : Nat := physTotalFrames / 32

/-! ## The address of a frame -/

variable {frame : Nat}

/-- The address of a frame below 4 GB. -/
def frameAddress (frame : Nat) : UInt32 := .ofNat frame * pageSize

theorem toNat_frameAddress (hframe : frame < physTotalFrames) :
    (frameAddress frame).toNat = frame * 4096 := by
  have hframe' : frame < 0x100000 := hframe
  have hpage : pageSize.toNat = 4096 := rfl
  rw [frameAddress, UInt32.toNat_mul, UInt32.toNat_ofNat', hpage]
  omega

theorem frameAddress_ne_noFrame (hframe : frame < physTotalFrames) :
    frameAddress frame ≠ pmmNoFrame := by
  intro heq
  have hnat := congrArg UInt32.toNat heq
  rw [toNat_frameAddress hframe] at hnat
  change frame * 4096 = 4294967295 at hnat
  omega

theorem frameAddress_div (hframe : frame < physTotalFrames) :
    frameAddress frame / pageSize = .ofNat frame := by
  have hframe' : frame < 0x100000 := hframe
  have hpage : pageSize.toNat = 4096 := rfl
  apply UInt32.toNat_inj.mp
  rw [UInt32.toNat_div, toNat_frameAddress hframe, hpage, UInt32.toNat_ofNat']
  omega

namespace PmmState

/-- The lowest bit of a word that is not set. -/
def clearBit (word : UInt32) : Option Nat :=
  (List.range 32).find? fun bit => word &&& (1 <<< UInt32.ofNat bit) = 0

/-- The search of `pmm_alloc_frame`, which skips the words without a free frame. -/
def searchFrame (s : PmmState) : Option Nat :=
  (List.range physBitmapWords).findSome? fun i =>
    if s.bitmap (.ofNat i) = 0xFFFFFFFF then none
    else (clearBit (s.bitmap (.ofNat i))).map fun bit => i * 32 + bit

/-- Mark a frame as used. -/
def takeFrame (s : PmmState) (frame : UInt32) : PmmState :=
  { s with
    bitmap := Function.update s.bitmap (frame / 32) (s.bitmap (frame / 32) ||| frameMask frame) }

/-- The address of the frame, or `PMM_NO_FRAME`. -/
def pmmAllocFrame (s : PmmState) : UInt32 × PmmState :=
  match s.searchFrame with
  | some frame => (.ofNat frame * pageSize, s.takeFrame (.ofNat frame))
  | none => (pmmNoFrame, s)

def pmmFreeFrame (s : PmmState) (physAddr : UInt32) : PmmState :=
  let frame := physAddr / pageSize
  if frame < s.totalFrames then
    { s with
      bitmap := Function.update s.bitmap (frame / 32)
        (s.bitmap (frame / 32) &&& ~~~frameMask frame) }
  else s

/-! ## The set of free frames -/

def freeFrames (s : PmmState) : Finset Nat :=
  (Finset.range physTotalFrames).filter fun frame => s.IsFree (.ofNat frame)

variable {s : PmmState}

theorem mem_freeFrames :
    frame ∈ s.freeFrames ↔ frame < physTotalFrames ∧ s.IsFree (.ofNat frame) := by
  simp [freeFrames]

theorem isFree_takeFrame (s : PmmState) (frame other : UInt32) :
    (s.takeFrame frame).IsFree other ↔ other ≠ frame ∧ s.IsFree other := by
  simp only [IsFree, takeFrame]
  by_cases hword : other / 32 = frame / 32
  · have hquot : other.toNat / 32 = frame.toNat / 32 := by simpa using congrArg UInt32.toNat hword
    have hlt := Nat.mod_lt other.toNat (show 0 < 32 by decide)
    have hlt' := Nat.mod_lt frame.toNat (show 0 < 32 by decide)
    have heq : frame.toNat % 32 = other.toNat % 32 ↔ other = frame := by
      rw [← UInt32.toNat_inj, BitArray.mod_eq_iff hquot]
    rw [hword, Function.update_self, and_frameMask_eq_zero_iff, and_frameMask_eq_zero_iff,
      UInt32.toBitVec_or, frameMask_toBitVec, BitVec.getLsbD_or, BitVec.getLsbD_twoPow]
    by_cases hsame : other = frame
    · simp [hsame, hlt']
    · simp [hsame, heq]
  · rw [Function.update_of_ne hword]
    have hne : other ≠ frame := by
      rintro rfl
      exact hword rfl
    simp [hne]

theorem ofNat_inj_of_lt {i j : Nat} (hi : i < physTotalFrames) (hj : j < physTotalFrames) :
    UInt32.ofNat i = UInt32.ofNat j ↔ i = j := by
  have hi' : i < 0x100000 := hi
  have hj' : j < 0x100000 := hj
  rw [← UInt32.toNat_inj, UInt32.toNat_ofNat', UInt32.toNat_ofNat']
  omega

theorem freeFrames_takeFrame (hframe : frame < physTotalFrames) :
    (s.takeFrame (.ofNat frame)).freeFrames = s.freeFrames.erase frame := by
  ext other
  rw [Finset.mem_erase, mem_freeFrames, mem_freeFrames, isFree_takeFrame]
  constructor
  · rintro ⟨hlt, hne, hfree⟩
    exact ⟨fun heq => hne (heq ▸ rfl), hlt, hfree⟩
  · rintro ⟨hne, hlt, hfree⟩
    exact ⟨hlt, fun heq => hne ((ofNat_inj_of_lt hlt hframe).mp heq), hfree⟩

/-! ## Allocation -/

theorem findSome?_congr {α β : Type} {l : List α} {f g : α → Option β} (h : ∀ a ∈ l, f a = g a) :
    l.findSome? f = l.findSome? g := by
  induction l with
  | nil => rfl
  | cons a l ih =>
      simp only [List.findSome?_cons, h a List.mem_cons_self,
        ih fun b hb => h b (List.mem_cons_of_mem a hb)]

theorem clearBit_full : clearBit 0xFFFFFFFF = none := by decide

/-- The search over words and bits is a search over the frames. -/
theorem searchFrame_eq (s : PmmState) : s.searchFrame =
    (List.range physTotalFrames).find? fun frame => s.IsFree (.ofNat frame) := by
  have hframes : physTotalFrames = physBitmapWords * 32 := rfl
  rw [hframes, ← BitArray.findSome?_words, searchFrame]
  apply findSome?_congr
  intro i hi
  have hi' : i < 0x8000 := List.mem_range.mp hi
  have hword : (List.range 32).find? (fun bit => s.IsFree (.ofNat (i * 32 + bit))) =
      clearBit (s.bitmap (.ofNat i)) := by
    apply List.find?_congr
    intro bit hbit
    have hbit' := List.mem_range.mp hbit
    have hquot : UInt32.ofNat (i * 32 + bit) / 32 = .ofNat i := by
      apply UInt32.toNat_inj.mp
      simp
      omega
    have hmod : UInt32.ofNat (i * 32 + bit) % 32 = .ofNat bit := by
      apply UInt32.toNat_inj.mp
      simp
      omega
    simp only [IsFree, hquot, frameMask, hmod]
  rw [hword]
  split
  next hfull => rw [hfull, clearBit_full, Option.map_none]
  next => rfl

theorem searchFrame_of_nonempty (h : s.freeFrames.Nonempty) :
    s.searchFrame = some (s.freeFrames.min' h) := by
  rw [searchFrame_eq, List.find?_range_eq_some]
  have hmin := mem_freeFrames.mp (s.freeFrames.min'_mem h)
  refine ⟨by simpa using hmin.2, List.mem_range.mpr hmin.1, fun j hj => ?_⟩
  have hused : ¬ s.IsFree (.ofNat j) := by
    intro hfree
    have hle := s.freeFrames.min'_le j (mem_freeFrames.mpr ⟨hj.trans hmin.1, hfree⟩)
    omega
  simpa using hused

theorem searchFrame_of_empty (h : s.freeFrames = ∅) : s.searchFrame = none := by
  rw [searchFrame_eq, List.find?_range_eq_none]
  intro frame hframe
  have hused : ¬ s.IsFree (.ofNat frame) := by
    intro hfree
    have hin := mem_freeFrames.mpr ⟨hframe, hfree⟩
    simp [h] at hin
  simpa using hused

-- what follows uses the two lemmas above, and is not to try and evaluate the search
attribute [irreducible] searchFrame

/-- The lowest free frame is handed out. -/
theorem pmmAllocFrame_of_nonempty (h : s.freeFrames.Nonempty) :
    s.pmmAllocFrame =
      (frameAddress (s.freeFrames.min' h), s.takeFrame (.ofNat (s.freeFrames.min' h))) := by
  unfold pmmAllocFrame
  rw [searchFrame_of_nonempty h]
  rfl

theorem pmmAllocFrame_of_empty (h : s.freeFrames = ∅) : s.pmmAllocFrame = (pmmNoFrame, s) := by
  unfold pmmAllocFrame
  rw [searchFrame_of_empty h]

/-! ## Consistency -/

/-- The frames that have been free are all below the total. -/
structure Ok (s : PmmState) : Prop where
  covers : ∀ frame, s.IsFree frame → frame < s.totalFrames
  total : s.totalFrames.toNat ≤ physTotalFrames

theorem Ok.takeFrame (h : s.Ok) (frame : UInt32) : (s.takeFrame frame).Ok :=
  ⟨fun other hfree => h.covers other ((isFree_takeFrame s frame other).mp hfree).2, h.total⟩

theorem Ok.lt_total (h : s.Ok) (hfree : frame ∈ s.freeFrames) : frame < s.totalFrames.toNat := by
  obtain ⟨hlt, hisFree⟩ := mem_freeFrames.mp hfree
  have hlt' : frame < 0x100000 := hlt
  have hcovered := UInt32.lt_iff_toNat_lt.mp (h.covers _ hisFree)
  rw [UInt32.toNat_ofNat'] at hcovered
  omega

/-- A frame below the total is free again after it is given back. -/
theorem pmmFreeFrame_eq (h : s.Ok) (hframe : frame < s.totalFrames.toNat) :
    s.pmmFreeFrame (frameAddress frame) = s.clearFrame (.ofNat frame) := by
  have hlt := hframe.trans_le h.total
  have hlt' : frame < 0x100000 := hlt
  have hbelow : UInt32.ofNat frame < s.totalFrames := by
    rw [UInt32.lt_iff_toNat_lt, UInt32.toNat_ofNat']
    omega
  rw [pmmFreeFrame]
  simp only [frameAddress_div hlt]
  rw [if_pos hbelow, clearFrame, if_neg (UInt32.not_le.mpr hbelow)]

theorem freeFrames_pmmFreeFrame (h : s.Ok) (hframe : frame < s.totalFrames.toNat) :
    (s.pmmFreeFrame (frameAddress frame)).freeFrames = insert frame s.freeFrames := by
  have hlt := hframe.trans_le h.total
  rw [pmmFreeFrame_eq h hframe]
  ext other
  rw [Finset.mem_insert, mem_freeFrames, mem_freeFrames, isFree_clearFrame]
  constructor
  · rintro ⟨hother, heq | hfree⟩
    · exact .inl ((ofNat_inj_of_lt hother hlt).mp heq)
    · exact .inr ⟨hother, hfree⟩
  · rintro (rfl | ⟨hother, hfree⟩)
    · exact ⟨hlt, .inl rfl⟩
    · exact ⟨hother, .inr hfree⟩

theorem totalFrames_pmmFreeFrame (s : PmmState) (physAddr : UInt32) :
    (s.pmmFreeFrame physAddr).totalFrames = s.totalFrames := by
  rw [pmmFreeFrame]
  split
  · rfl
  · rfl

theorem Ok.pmmFreeFrame (h : s.Ok) (hframe : frame < s.totalFrames.toNat) :
    (s.pmmFreeFrame (frameAddress frame)).Ok := by
  have hlt := hframe.trans_le h.total
  have hlt' : frame < 0x100000 := hlt
  refine ⟨fun other hfree => ?_, by rw [totalFrames_pmmFreeFrame]; exact h.total⟩
  rw [totalFrames_pmmFreeFrame]
  rw [pmmFreeFrame_eq h hframe, isFree_clearFrame] at hfree
  rcases hfree with rfl | hfree
  · rw [UInt32.lt_iff_toNat_lt, UInt32.toNat_ofNat']
    omega
  · exact h.covers other hfree

theorem Ok.clearFrame (h : s.Ok) {frame : UInt32} (hframe : frame.toNat < physTotalFrames) :
    (s.clearFrame frame).Ok := by
  have hframe' : frame.toNat < 0x100000 := hframe
  have hnext : (frame + 1).toNat = frame.toNat + 1 := by
    rw [UInt32.toNat_add, UInt32.toNat_one]
    omega
  have hgrow : s.totalFrames.toNat ≤ (s.clearFrame frame).totalFrames.toNat ∧
      frame.toNat < (s.clearFrame frame).totalFrames.toNat := by
    simp only [PmmState.clearFrame]
    split
    next hge =>
      have hge' := UInt32.le_iff_toNat_le.mp hge
      rw [hnext]
      omega
    next hlt =>
      have hlt' := UInt32.lt_iff_toNat_lt.mp (UInt32.not_le.mp hlt)
      exact ⟨Nat.le_refl _, hlt'⟩
  refine ⟨fun other hfree => ?_, ?_⟩
  · rw [isFree_clearFrame] at hfree
    rw [UInt32.lt_iff_toNat_lt]
    rcases hfree with rfl | hfree
    · exact hgrow.2
    · exact (UInt32.lt_iff_toNat_lt.mp (h.covers other hfree)).trans_le hgrow.1
  · simp only [PmmState.clearFrame]
    split
    · rw [hnext]
      exact hframe
    · exact h.total

end PmmState

/-! ## After the initialisation -/

open PmmState

variable {s s' : PmmState} {m : Bytes.Mem} {fuel : Nat} {physicalBegin : UInt32}

theorem MultibootMmapEntry.freePages_ok {stop addr : UInt64} (hstop : stop.toNat ≤ 2 ^ 32)
    (h : s.Ok) (hrun : freePages stop physicalBegin fuel addr s = some s') : s'.Ok := by
  induction fuel generalizing addr s with
  | zero => cases hrun
  | succ fuel ih =>
      rw [freePages] at hrun
      split at hrun
      next hlt =>
        have hlt' : addr.toNat < stop.toNat := UInt64.lt_iff_toNat_lt.mp hlt
        refine ih ?_ hrun
        split
        · exact h
        · apply h.clearFrame
          rw [frame_toNat (by omega)]
          change _ < 0x100000
          omega
      next =>
        cases hrun
        exact h

theorem freeRegions_ok {stop mmap : UInt32} {n : Nat} (h : s.Ok)
    (hrun : freeRegions m fuel stop physicalBegin n mmap s = some s') : s'.Ok := by
  induction n generalizing mmap s with
  | zero => cases hrun
  | succ n ih =>
      rw [freeRegions] at hrun
      split at hrun
      next =>
        obtain ⟨s₁, hregion, hrest⟩ := Option.bind_eq_some_iff.mp hrun
        refine ih ?_ hrest
        rw [MultibootMmapEntry.freeRegion] at hregion
        split at hregion
        · exact MultibootMmapEntry.freePages_ok (MultibootMmapEntry.alignedEnd_le _) h hregion
        · cases hregion
          exact h
      next =>
        cases hrun
        exact h

/-- All frames that `pmm_init` leaves free can be given back later on. -/
theorem pmmInit_ok {mbi : Option MultibootInfo} (htotal : s.totalFrames.toNat ≤ physTotalFrames)
    (hrun : pmmInit m fuel mbi physicalBegin s = some s') : s'.Ok := by
  cases mbi with
  | none => cases hrun
  | some mbi =>
      rw [pmmInit] at hrun
      split at hrun
      next => cases hrun
      next =>
        have hfull : Ok { s with bitmap := fun _ => 0xFFFFFFFF } :=
          ⟨fun frame hfree => absurd hfree (not_isFree_full _ frame), htotal⟩
        exact freeRegions_ok hfull hrun

/-- The frames that `pmm_init` leaves free lie above the kernel. -/
theorem pmmInit_freeFrames (map : MemoryMap) (hfuel : physTotalFrames + map.entries.length < fuel)
    (hrun : pmmInit map.mem fuel (some map.mbi) physicalBegin s = some s') {frame : Nat} :
    frame ∈ s'.freeFrames ↔ frame < physTotalFrames ∧ physicalBegin.toNat ≤ frame * 4096 ∧
      ∃ e ∈ map.entries, e.Frees (.ofNat frame) := by
  obtain ⟨s₁, hrun₁, hfree⟩ := pmmInit_spec map physicalBegin s hfuel
  obtain rfl := Option.some.inj (hrun.symm.trans hrun₁)
  rw [mem_freeFrames, hfree]
  apply and_congr_right
  intro hlt
  have hlt' : frame < 0x100000 := hlt
  have hnat : (UInt32.ofNat frame).toNat = frame := by
    rw [UInt32.toNat_ofNat']
    omega
  rw [hnat]

end AvrKernel.Memory

import AvrKernel.Lib.Outcome
import AvrKernel.Lib.Pool
import AvrKernel.Memory.PageEntries

/-!
# Virtual pages

The functions of `virtual/vmm.c` that hand out pages and take them back. What they keep track of
is a `Space`: what each page of the area is used for, and which frames are free.
-/

namespace AvrKernel.Memory

open Comp
abbrev VmmM (α : Type) : Type := Comp VmmState α

/-! ## The functions -/

/-- `VM_START + (virt_start_page * PAGE_SIZE)`. -/
def pageAddress (virtStartPage : Nat) : UInt32 := vmStart + .ofNat virtStartPage * pageSize

/-- `pmm_alloc_frame()`, from here. -/
def allocFrame : VmmM UInt32 := fun _ s =>
  .done s.pmm.pmmAllocFrame.1 { s with pmm := s.pmm.pmmAllocFrame.2 }

/-- `pmm_free_frame(phys_addr)`, from here. -/
def freeFrame (physAddr : UInt32) : VmmM Unit :=
  modify fun s => { s with pmm := s.pmm.pmmFreeFrame physAddr }

/-- A bit past the end of the bitmap is a fault. -/
def markPage (bit : Nat) : VmmM Unit := do
  require (bit / 8 < virtBitmapSize)
  modify fun s => s.setBit bit

def unmarkPage (bit : Nat) : VmmM Unit := do
  require (bit / 8 < virtBitmapSize)
  modify fun s => s.clearBit bit

def vmmMapPage (physicalAddr virtualAddr flags : UInt32) : VmmM Unit :=
  modify fun s =>
    let tables := linkTable s.tables s.tablesAt virtualAddr
    { s with tables := setEntry tables virtualAddr ((physicalAddr &&& ~~~0xFFF) ||| flags) }

def vmmUnmapPage (virtualAddr : UInt32) : VmmM Unit :=
  modify fun s =>
    if Linked s.tables virtualAddr then { s with tables := setEntry s.tables virtualAddr 0 } else s

/-- A round of the loop of `vmm_free_pages`. -/
def freePage (vaddr : UInt32) (virtStartPage i : Nat) : VmmM Unit := do
  let currentVaddr := vaddr + .ofNat i * pageSize
  let s ← get
  let pte := s.tables.pte currentVaddr
  if pte &&& vmPresent ≠ 0 then
    freeFrame (pte &&& ~~~0xFFF)
  vmmUnmapPage currentVaddr
  unmarkPage (virtStartPage + i)

def vmmFreePages (virtualAddr numPages : UInt32) : VmmM Unit :=
  let vaddr := virtualAddr &&& ~~~0xFFF
  if vaddr < vmStart ∨ vaddr ≥ vmEnd then pure ()
  else
    let virtStartPage := ((vaddr - vmStart) / pageSize).toNat
    forFrom (freePage vaddr virtStartPage) numPages.toNat 0

/-- A round of the loop of `vmm_alloc_pages`. Without a frame for it, the pages that have been
allocated are freed, and the kernel stops. -/
def allocPage (startVaddr : UInt32) (virtStartPage i : Nat) : VmmM Unit := do
  let currentVaddr := startVaddr + .ofNat i * pageSize
  let physFrame ← allocFrame
  if physFrame = pmmNoFrame then
    vmmFreePages startVaddr (.ofNat i)
    stop
  else
    vmmMapPage physFrame currentVaddr (vmPresent ||| vmReadwrite)
    markPage (virtStartPage + i)

/-- The kernel stops if there is no run of pages. -/
def vmmAllocPages (numPages : UInt32) : VmmM UInt32 := do
  let s ← get
  match VmmState.findContiguousBits s.virtBitmap virtBitmapSize numPages with
  | none => stop
  | some virtStartPage =>
      forFrom (allocPage (pageAddress virtStartPage) virtStartPage) numPages.toNat 0
      return pageAddress virtStartPage

/-- A round of the loop of `vmm_map_mmio_region`. -/
def mapDevicePage (startPhys startVaddr flags : UInt32) (virtStartPage i : Nat) : VmmM Unit := do
  vmmMapPage (startPhys + .ofNat i * pageSize) (startVaddr + .ofNat i * pageSize) flags
  markPage (virtStartPage + i)

/-- The number of pages that `size` bytes from `phys_addr` on lie in. -/
def regionPages (physAddr sizeBytes : UInt32) : UInt32 :=
  let pageOffset := physAddr &&& (pageSize - 1)
  let totalSize := sizeBytes + pageOffset
  (totalSize + (pageSize - 1)) / pageSize

/-- `NULL` if there is no run of pages. -/
def vmmMapMmioRegion (physAddr sizeBytes flags : UInt32) : VmmM UInt32 := do
  let pageOffset := physAddr &&& (pageSize - 1)
  let startPhys := physAddr &&& ~~~(pageSize - 1)
  let numPages := regionPages physAddr sizeBytes
  let s ← get
  match VmmState.findContiguousBits s.virtBitmap virtBitmapSize numPages with
  | none => return 0
  | some virtStartPage =>
      let startVaddr := pageAddress virtStartPage
      forFrom (mapDevicePage startPhys startVaddr flags virtStartPage) numPages.toNat 0
      return startVaddr + pageOffset

/-- `THREAD_ALLOC_PAGES`: four pages for the stack, and the guard page. -/
def threadAllocPages : UInt32 := 5

/-- The pages that `thread_setup_stack` of `scheduler.c` sets up: the frame of the lowest one is
given back, so that it guards the stack. -/
def setupStackPages : VmmM UInt32 := do
  let region ← vmmAllocPages threadAllocPages
  let s ← get
  let guardPhys := s.tables.vmmGetPhysAddr region
  vmmUnmapPage region
  if guardPhys ≠ 0 then
    freeFrame guardPhys
  return region

/-! ## What pages are used for -/

/-- A page in use is backed by a frame, or mapped to a device, or not mapped at all. -/
inductive PageUse
  | frame (frame : Nat)
  | device (entry : UInt32)
  | guard

namespace PageUse

def frame? : PageUse → Option Nat
  | frame f => some f
  | device _ => none
  | guard => none

/-- What the page table says. -/
def entry : PageUse → UInt32
  | frame f => (frameAddress f &&& ~~~0xFFF) ||| (vmPresent ||| vmReadwrite)
  | device entry => entry
  | guard => 0

end PageUse

@[ext] structure Space where
  use : Nat → Option PageUse
  free : Finset Nat

namespace Space

variable {S T : Space} {page start n : Nat} {frame : Nat}

/-- The frames, free or behind pages. -/
def pool (S : Space) : Pool Nat Nat := ⟨fun page => (S.use page).bind PageUse.frame?, S.free⟩

def unused (S : Space) (page : Nat) : Bool := (S.use page).isNone

theorem held_pool : S.pool.held page = some frame ↔ S.use page = some (.frame frame) := by
  rw [pool, Option.bind_eq_some_iff]
  constructor
  · rintro ⟨use, huse, hframe⟩
    cases use with
    | frame f =>
        cases hframe
        exact huse
    | device => cases hframe
    | guard => cases hframe
  · exact fun huse => ⟨.frame frame, huse, rfl⟩

/-- A frame for a page. -/
def occupy (S : Space) (page frame : Nat) : Space where
  use := Function.update S.use page (some (.frame frame))
  free := S.free.erase frame

/-- The page is not used any more; its frame, if it has one, is free. -/
def vacate (S : Space) (page : Nat) : Space where
  use := Function.update S.use page none
  free := (S.pool.held page).elim S.free fun frame => insert frame S.free

/-- The page is used for something that is no frame. -/
def reserve (S : Space) (page : Nat) (use : PageUse) : Space :=
  { S with use := Function.update S.use page (some use) }

theorem pool_occupy : (S.occupy page frame).pool = S.pool.take page frame := by
  apply Pool.ext
  · funext other
    rw [Pool.held_take]
    by_cases heq : other = page
    · simp [pool, occupy, heq, PageUse.frame?]
    · simp [pool, occupy, heq]
  · rfl

theorem pool_vacate (huse : S.use page = some (.frame frame)) :
    (S.vacate page).pool = S.pool.give page frame := by
  have hheld := held_pool.mpr huse
  apply Pool.ext
  · funext other
    rw [Pool.held_give]
    by_cases heq : other = page
    · simp [pool, vacate, heq]
    · simp [pool, vacate, heq]
  · simp only [pool, vacate, Pool.give] at hheld ⊢
    rw [hheld, Option.elim_some]

/-- Without a frame of the page, the frames stay as they are. -/
theorem pool_vacate_of_none (hheld : S.pool.held page = none) : (S.vacate page).pool = S.pool := by
  apply Pool.ext
  · funext other
    by_cases heq : other = page
    · rw [heq, hheld]
      simp [pool, vacate]
    · simp [pool, vacate, heq]
  · simp only [pool, vacate] at hheld ⊢
    rw [hheld, Option.elim_none]

theorem pool_reserve {use : PageUse} (hheld : S.pool.held page = none) (huse : use.frame? = none) :
    (S.reserve page use).pool = S.pool := by
  apply Pool.ext
  · funext other
    by_cases heq : other = page
    · rw [heq, hheld]
      simp [pool, reserve, huse]
    · simp [pool, reserve, heq]
  · rfl

/-- `n` pages from `start` on have been given frames. -/
structure Taken (S : Space) (start n : Nat) (T : Space) : Prop where
  outside : ∀ page, ¬ (start ≤ page ∧ page < start + n) → T.use page = S.use page
  inside : ∀ page, start ≤ page → page < start + n → ∃ frame, T.use page = some (.frame frame)
  valid : T.pool.Valid
  supply : T.pool.supply = S.pool.supply
  card : T.free.card + n = S.free.card

/-- `n` pages from `start` on are not used any more. -/
structure Vacated (S : Space) (start n : Nat) (T : Space) : Prop where
  outside : ∀ page, ¬ (start ≤ page ∧ page < start + n) → T.use page = S.use page
  inside : ∀ page, start ≤ page → page < start + n → T.use page = none
  valid : T.pool.Valid
  supply : T.pool.supply = S.pool.supply

theorem Taken.refl (h : S.pool.Valid) : S.Taken start 0 S where
  outside _ _ := rfl
  inside page hle hlt := by omega
  valid := h
  supply := rfl
  card := rfl

theorem Vacated.refl (h : S.pool.Valid) : S.Vacated start 0 S where
  outside _ _ := rfl
  inside page hle hlt := by omega
  valid := h
  supply := rfl

theorem Taken.occupy (h : S.Taken start n T) (hfree : frame ∈ T.free)
    (hunused : T.use (start + n) = none) :
    S.Taken start (n + 1) (T.occupy (start + n) frame) := by
  have hheld : T.pool.held (start + n) = none := by simp [pool, hunused]
  refine ⟨?_, ?_, ?_, ?_, ?_⟩
  · intro page hout
    have hne : page ≠ start + n := by omega
    simp only [Space.occupy, Function.update_of_ne hne]
    exact h.outside page (by omega)
  · intro page hle hlt
    by_cases hlast : page = start + n
    · exact ⟨frame, by simp [Space.occupy, hlast]⟩
    · simp only [Space.occupy, Function.update_of_ne hlast]
      exact h.inside page hle (by omega)
  · rw [pool_occupy]
    exact h.valid.take hfree
  · rw [pool_occupy, Pool.supply_take hfree hheld]
    exact h.supply
  · have hcard := Finset.card_erase_add_one hfree
    have hbefore := h.card
    simp only [Space.occupy]
    omega

theorem Vacated.vacate (h : S.Vacated start n T) :
    S.Vacated start (n + 1) (T.vacate (start + n)) := by
  have hframes : (T.vacate (start + n)).pool.Valid ∧
      (T.vacate (start + n)).pool.supply = T.pool.supply := by
    cases hheld : T.pool.held (start + n) with
    | none =>
        rw [pool_vacate_of_none hheld]
        exact ⟨h.valid, rfl⟩
    | some frame =>
        rw [pool_vacate (held_pool.mp hheld)]
        exact ⟨h.valid.give hheld, Pool.supply_give hheld⟩
  refine ⟨?_, ?_, hframes.1, hframes.2.trans h.supply⟩
  · intro page hout
    have hne : page ≠ start + n := by omega
    simp only [Space.vacate, Function.update_of_ne hne]
    exact h.outside page (by omega)
  · intro page hle hlt
    by_cases hlast : page = start + n
    · simp [Space.vacate, hlast]
    · simp only [Space.vacate, Function.update_of_ne hlast]
      exact h.inside page hle (by omega)

/-- What has been taken and vacated is as it was. -/
theorem Taken.undo (hS : S.pool.Valid) (h : S.Taken start n T) {U : Space}
    (hU : T.Vacated start n U)
    (hunused : ∀ page, start ≤ page → page < start + n → S.use page = none) : U = S := by
  have huse : U.use = S.use := by
    funext page
    by_cases hin : start ≤ page ∧ page < start + n
    · rw [hU.inside page hin.1 hin.2, hunused page hin.1 hin.2]
    · rw [hU.outside page hin, h.outside page hin]
  have hpool : U.pool = S.pool := by
    apply hU.valid.ext hS
    · simp [pool, huse]
    · rw [hU.supply, h.supply]
  exact Space.ext huse (congrArg Pool.free hpool)

/-- `n` pages from `start` on are mapped by entries of a device. -/
structure Reserved (S : Space) (start n : Nat) (entry : Nat → UInt32) (T : Space) : Prop where
  outside : ∀ page, ¬ (start ≤ page ∧ page < start + n) → T.use page = S.use page
  inside : ∀ i < n, T.use (start + i) = some (.device (entry i))
  pool : T.pool = S.pool

/-- The lowest of `n` pages from `start` on guards the others, which have been given frames. -/
structure Guarded (S : Space) (start n : Nat) (T : Space) : Prop where
  outside : ∀ page, ¬ (start ≤ page ∧ page < start + n) → T.use page = S.use page
  guard : T.use start = some .guard
  inside : ∀ page, start < page → page < start + n → ∃ frame, T.use page = some (.frame frame)
  valid : T.pool.Valid
  supply : T.pool.supply = S.pool.supply

/-- The frame of the lowest page is given back, and the page becomes a guard. -/
theorem Taken.guard (h : S.Taken start n T) (hn : 0 < n)
    (huse : T.use start = some (.frame frame)) :
    S.Guarded start n ((T.vacate start).reserve start .guard) := by
  have hpool : ((T.vacate start).reserve start .guard).pool = T.pool.give start frame := by
    rw [pool_reserve _ rfl, pool_vacate huse]
    simp [pool, vacate]
  refine ⟨?_, ?_, ?_, ?_, ?_⟩
  · intro page hout
    have hne : page ≠ start := by omega
    simp only [reserve, vacate, Function.update_of_ne hne]
    exact h.outside page hout
  · simp [reserve]
  · intro page hlt hin
    have hne : page ≠ start := by omega
    simp only [reserve, vacate, Function.update_of_ne hne]
    exact h.inside page hlt.le hin
  · rw [hpool]
    exact h.valid.give (held_pool.mpr huse)
  · rw [hpool, Pool.supply_give (held_pool.mpr huse)]
    exact h.supply

end Space

end AvrKernel.Memory

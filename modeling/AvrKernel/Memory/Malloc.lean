import AvrKernel.Memory.SlabSteps

/-!
# `malloc`

`malloc.c` serves small requests from six slab caches, and a large one by pages of its own, with
its number of pages in a page in front of it. The address alone tells which of the two a block is.
The functions run with interrupts off, so that one is never in the middle of another.
-/

namespace AvrKernel.Memory

open Comp

/-! ## The functions -/

def slabMaxSize : UInt32 := 512

/-- The number of caches in `malloc_caches`. -/
def cacheCount : Nat := 6

/-- `malloc_caches` before the first request. -/
def mallocCaches (cache : Nat) : SlabCache := ⟨.ofNat (16 * 2 ^ cache), 0⟩

/-- The first cache with slots that are large enough. -/
def firstCache (caches : Nat → SlabCache) (size : UInt32) : Option Nat :=
  (List.range cacheCount).find? fun i => decide (size ≤ (caches i).objectSize)

/-- The pages for a large request, and one in front of them. -/
def largePages (size : UInt32) : UInt32 := (size + pageSize + pageSize - 1) / pageSize

def mallocLarge (size : UInt32) : MemM UInt32 := do
  let numPages := largePages size
  let rawMem ← pager (vmmAllocPages numPages)
  if rawMem = 0 then return 0
  else do
    memset rawMem 0 (numPages * pageSize).toNat
    store32 rawMem numPages
    return rawMem + pageSize

def mallocUnlocked (size : UInt32) : MemM UInt32 :=
  if size = 0 then return 0
  else do
    let s ← get
    if size ≤ slabMaxSize then
      match firstCache s.caches size with
      | some cache => slabAlloc cache
      | none => mallocLarge size
    else mallocLarge size

/-- The cache at an address. -/
def cacheAt (cachesAt owner : UInt32) : Option Nat :=
  (List.range cacheCount).find? fun i => decide (cacheAddress cachesAt i = owner)

/-- The cache that the page of a slot names. Anything but the address of a cache is a fault. -/
def owningCache (ptr : UInt32) : MemM Nat := do
  let owner ← load32 ((ptr &&& ~~~(pageSize - 1)) + 12)
  let s ← get
  match cacheAt s.cachesAt owner with
  | some cache => return cache
  | none => fault

def isAligned (ptr : UInt32) : Prop := ptr &&& (pageSize - 1) = 0

instance (ptr : UInt32) : Decidable (isAligned ptr) := inferInstanceAs (Decidable (_ = _))

def freeUnlocked (ptr : UInt32) : MemM Unit :=
  if ptr = 0 then pure ()
  else if isAligned ptr then do
    let pagesToFree ← load32 (ptr - pageSize)
    pager (vmmFreePages (ptr - pageSize) pagesToFree)
  else do
    let cache ← owningCache ptr
    slabFree cache ptr

/-- The bytes that `realloc` copies. -/
def copySize (oldSize size : UInt32) : UInt32 := if oldSize < size then oldSize else size

/-- The fallback of `realloc`. -/
def moveBlock (ptr oldSize size : UInt32) : MemM UInt32 := do
  let newPtr ← mallocUnlocked size
  if newPtr = 0 then return 0
  else do
    memcpy newPtr ptr (copySize oldSize size).toNat
    freeUnlocked ptr
    return newPtr

/-- A smaller slot would do. -/
def fitsSmaller (caches : Nat → SlabCache) (oldSize size : UInt32) : Prop :=
  ∃ cache ∈ firstCache caches size, (caches cache).objectSize < oldSize

instance (caches : Nat → SlabCache) (oldSize size : UInt32) :
    Decidable (fitsSmaller caches oldSize size) :=
  inferInstanceAs (Decidable (∃ _ ∈ firstCache caches size, _))

def reallocUnlocked (ptr size : UInt32) : MemM UInt32 :=
  if ptr = 0 then mallocUnlocked size
  else if size = 0 then do
    freeUnlocked ptr
    return 0
  else if isAligned ptr then do
    let totalPages ← load32 (ptr - pageSize)
    if largePages size = totalPages then return ptr
    else moveBlock ptr (totalPages * pageSize - pageSize) size
  else do
    let cache ← owningCache ptr
    let s ← get
    let oldSize := (s.caches cache).objectSize
    if size ≤ oldSize ∧ ¬ fitsSmaller s.caches oldSize size then return ptr
    else moveBlock ptr oldSize size

end AvrKernel.Memory

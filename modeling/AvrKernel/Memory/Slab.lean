import AvrKernel.Memory.KernelMemory

/-!
# Slabs

The slab allocator of `slab.c`. A page of a slab starts with a header of four words: the free
list, the number of slots that are allocated, the link to the next page, and the cache. The slots
follow. A free slot holds the link to the next free one, and poison behind it.
-/

namespace AvrKernel.Memory

open Comp

/-! ## The functions -/

def kernelPageSize : Nat := 4096

/-- `sizeof(struct SlabPage)`, rounded up to words. -/
def startOffset : UInt32 := (16 + 3) &&& ~~~3

def poisonByte : UInt8 := 0xAA

/-- The loop of `slab_grow`; it leaves off at the last slot. -/
def chainSlots (objectSize : UInt32) : Nat → UInt32 → MemM UInt32
  | 0, current => return current
  | left + 1, current => do
      let nextNode := current + objectSize
      store32 current nextNode
      memset (current + 4) poisonByte (objectSize - 4).toNat
      chainSlots objectSize left nextNode

def slabGrow (objectSize : UInt32) : MemM UInt32 := do
  let rawPage ← pager (vmmAllocPages 1)
  if rawPage = 0 then return 0
  else do
    memset rawPage 0 kernelPageSize
    store32 (rawPage + 4) 0
    store32 (rawPage + 8) 0
    let objectSize := if objectSize < 4 then 4 else objectSize
    store32 rawPage (rawPage + startOffset)
    let current ← load32 rawPage
    let maxSlots := (pageSize - startOffset) / objectSize
    let last ← chainSlots objectSize (maxSlots - 1).toNat current
    store32 last 0
    memset (last + 4) poisonByte (objectSize - 4).toNat
    return rawPage

/-- A round of the search for a page with a free slot. -/
def nextPage (page : UInt32) : MemM (UInt32 ⊕ UInt32) :=
  if page = 0 then return .inr page
  else do
    let freeList ← load32 page
    if freeList = 0 then do
      let next ← load32 (page + 8)
      return .inl next
    else return .inr page

def findPage (page : UInt32) : MemM UInt32 := loop nextPage page

def isPoisoned (payload : UInt32) : Nat → MemM Bool
  | 0 => return true
  | n + 1 => do
      let value ← load8 payload
      if value = poisonByte then isPoisoned (payload + 1) n else return false

def checkSlot (objectSize allocatedSlot : UInt32) : MemM Bool :=
  if objectSize > 4 then isPoisoned (allocatedSlot + 4) (objectSize - 4).toNat else pure true

/-- The second half of `slab_alloc`: the first free slot of the page, unless it has been written
to while it was free. -/
def popSlot (objectSize page : UInt32) : MemM UInt32 := do
  let allocatedSlot ← load32 page
  let intact ← checkSlot objectSize allocatedSlot
  if intact then do
    let next ← load32 allocatedSlot
    store32 page next
    let numAllocated ← load32 (page + 4)
    store32 (page + 4) (numAllocated + 1)
    return allocatedSlot
  else kernelCrashout allocatedSlot "SEGMENTATION FAULT"

def KernelMemory.setPageList (s : KernelMemory) (cache : Nat) (page : UInt32) : KernelMemory :=
  { s with caches := Function.update s.caches cache ⟨(s.caches cache).objectSize, page⟩ }

/-- The address of a cache in `malloc_caches`. -/
def cacheAddress (cachesAt : UInt32) (cache : Nat) : UInt32 := cachesAt + .ofNat (8 * cache)

def slabAlloc (cache : Nat) : MemM UInt32 := do
  let s ← get
  let objectSize := (s.caches cache).objectSize
  let page ← findPage (s.caches cache).pageList
  if page = 0 then do
    let page ← slabGrow objectSize
    if page = 0 then return 0
    else do
      let s ← get
      store32 (page + 8) (s.caches cache).pageList
      store32 (page + 12) (cacheAddress s.cachesAt cache)
      modify (·.setPageList cache page)
      popSlot objectSize page
  else popSlot objectSize page

/-- A round of the search for the slot in the free list. -/
def nextFree (ptr current : UInt32) : MemM (UInt32 ⊕ Bool) :=
  if current = 0 then return .inr false
  else if current = ptr then return .inr true
  else do
    let next ← load32 current
    return .inl next

/-- `struct SlabPage**`: where the link to a page is kept. -/
inductive PageLink
  | head
  | next (page : UInt32)

def PageLink.load (cache : Nat) : PageLink → MemM UInt32
  | head => do
      let s ← get
      return (s.caches cache).pageList
  | next page => load32 (page + 8)

def PageLink.store (cache : Nat) (value : UInt32) : PageLink → MemM Unit
  | head => modify (·.setPageList cache value)
  | next page => store32 (page + 8) value

/-- A round of the search for the link to the page. -/
def nextLink (cache : Nat) (page : UInt32) (prev : PageLink) : MemM (PageLink ⊕ PageLink) := do
  let current ← prev.load cache
  if current ≠ 0 ∧ current ≠ page then return .inl (.next current) else return .inr prev

def unlinkPage (cache : Nat) (page : UInt32) : MemM Unit := do
  let prev ← loop (nextLink cache page) .head
  let current ← prev.load cache
  if current = page then do
    let next ← load32 (page + 8)
    prev.store cache next
  else pure ()

def slabFree (cache : Nat) (ptr : UInt32) : MemM Unit :=
  if ptr = 0 then pure ()
  else do
    let page := ptr &&& ~~~(pageSize - 1)
    let freeList ← load32 page
    let twice ← loop (nextFree ptr) freeList
    if twice then kernelCrashout ptr "double Free"
    else do
      let s ← get
      memset ptr poisonByte (s.caches cache).objectSize.toNat
      let freeList ← load32 page
      store32 ptr freeList
      store32 page ptr
      let numAllocated ← load32 (page + 4)
      store32 (page + 4) (numAllocated - 1)
      let numAllocated ← load32 (page + 4)
      if numAllocated = 0 then do
        unlinkPage cache page
        pager (vmmFreePages page 1)
      else pure ()

/-! ## Slots -/

/-- How many slots a page has. -/
def slotCount (size : Nat) : Nat := 4080 / size

theorem slotCount_pos {size : Nat} (hsize : 4 ≤ size) (hmost : size ≤ 4080) : 0 < slotCount size :=
  Nat.div_pos hmost (by omega)

/-- The position of a slot. -/
def slotAt (page size slot : Nat) : Nat := 4096 * page + 16 + slot * size

theorem slotAt_succ (page size slot : Nat) :
    slotAt page size (slot + 1) = slotAt page size slot + size := by
  rw [slotAt, slotAt, Nat.succ_mul slot, ← Nat.add_assoc]

theorem slot_end {size slot : Nat} (hslot : slot < slotCount size) : slot * size + size ≤ 4080 := by
  have hle : (slot + 1) * size ≤ 4080 / size * size := Nat.mul_le_mul_right size hslot
  have hdiv := Nat.div_mul_le_self 4080 size
  rw [Nat.succ_mul] at hle
  omega

theorem slot_apart (size : Nat) {slot slot' : Nat} (hlt : slot < slot') :
    slot * size + size ≤ slot' * size := by
  have hle : (slot + 1) * size ≤ slot' * size := Nat.mul_le_mul_right size hlt
  rwa [Nat.succ_mul] at hle

/-- Different slots of a page do not overlap. -/
theorem slotAt_apart (page size : Nat) {slot slot' : Nat} (hne : slot ≠ slot') :
    slotAt page size slot + size ≤ slotAt page size slot' ∨
      slotAt page size slot' + size ≤ slotAt page size slot := by
  simp only [slotAt]
  rcases Nat.lt_or_gt_of_ne hne with hlt | hgt
  · have hle := slot_apart size hlt
    omega
  · have hle := slot_apart size hgt
    omega

theorem slotAt_page {page size slot y : Nat} (hslot : slot < slotCount size)
    (hle : slotAt page size slot ≤ y) (hlt : y < slotAt page size slot + size) :
    y / 4096 = page ∧ 16 ≤ y % 4096 := by
  have hend := slot_end hslot
  simp only [slotAt] at hle hlt
  omega

/-! ## Slabs in memory -/

/-- A page of slots, and those of them that are free, in the order of the free list. -/
structure Slab where
  page : Nat
  free : List Nat
  deriving DecidableEq

/-- What links to a list of free slots. -/
def link (page size : Nat) : List Nat → UInt32
  | [] => 0
  | slot :: _ => areaAddress (slotAt page size slot)

namespace MemView

/-- The slot links to `next` and is poisoned. -/
structure FreeSlot (V : MemView) (page size slot : Nat) (next : UInt32) : Prop where
  next : V.word (slotAt page size slot) = next
  poison : ∀ y, slotAt page size slot + 4 ≤ y → y < slotAt page size slot + size →
    V.bytes y = poisonByte

def FreeList (V : MemView) (page size : Nat) : List Nat → Prop
  | [] => True
  | slot :: rest => slot < slotCount size ∧ V.FreeSlot page size slot (link page size rest) ∧
      V.FreeList page size rest

end MemView

namespace Slab

/-- The bytes that belong to the allocator: the header and the free slots. -/
def Own (q : Slab) (size y : Nat) : Prop :=
  (4096 * q.page ≤ y ∧ y < 4096 * q.page + 16) ∨
    ∃ slot ∈ q.free, slotAt q.page size slot ≤ y ∧ y < slotAt q.page size slot + size

/-- The page is laid out as a slab of the cache at `owner`. -/
structure Laid (q : Slab) (V : MemView) (size : Nat) (owner : UInt32) : Prop where
  freeList : V.word (4096 * q.page) = link q.page size q.free
  allocated : V.word (4096 * q.page + 4) = .ofNat (slotCount size - q.free.length)
  owner : V.word (4096 * q.page + 12) = owner
  list : V.FreeList q.page size q.free
  nodup : q.free.Nodup

end Slab

/-- The pages of a cache, from the first one on. -/
def MemView.PageList (V : MemView) (size : Nat) (owner : UInt32) : List Slab → UInt32 → Prop
  | [], head => head = 0
  | q :: rest, head => head = areaAddress (4096 * q.page) ∧ q.Laid V size owner ∧
      V.PageList size owner rest (V.word (4096 * q.page + 8))

/-- The size of the slots of a cache. -/
def MemView.slotSize (V : MemView) (cache : Nat) : Nat := (V.caches cache).objectSize.toNat

/-- A cache with its slabs. -/
structure MemView.Cached (V : MemView) (cache : Nat) (slabs : List Slab) : Prop where
  list : V.PageList (V.slotSize cache) (cacheAddress V.cachesAt cache) slabs
    (V.caches cache).pageList
  backed : ∀ q ∈ slabs, ∃ frame, V.space.use q.page = some (.frame frame)
  distinct : (slabs.map Slab.page).Nodup
  least : 4 ≤ V.slotSize cache
  most : V.slotSize cache ≤ 4080

/-! ## What a change of memory leaves alone -/

namespace MemView

variable {U V W : MemView} {page size slot x y k j : Nat} {next head owner : UInt32}
  {slots : List Nat} {slabs pre post rest : List Slab} {p q : Slab}

/-- Only bytes in the `k` positions from `x` on are different. -/
structure ChangedIn (V : MemView) (x k : Nat) (W : MemView) : Prop where
  space : W.space = V.space
  caches : W.caches = V.caches
  cachesAt : W.cachesAt = V.cachesAt
  bytes : ∀ y, ¬ (x ≤ y ∧ y < x + k) → W.bytes y = V.bytes y

theorem ChangedIn.refl (V : MemView) (x k : Nat) : V.ChangedIn x k V :=
  ⟨rfl, rfl, rfl, fun _ _ => rfl⟩

theorem ChangedIn.trans (h : V.ChangedIn x k W) (h' : W.ChangedIn x k U) : V.ChangedIn x k U where
  space := h'.space.trans h.space
  caches := h'.caches.trans h.caches
  cachesAt := h'.cachesAt.trans h.cachesAt
  bytes y hy := (h'.bytes y hy).trans (h.bytes y hy)

theorem ChangedIn.slotSize (h : V.ChangedIn x k W) (cache : Nat) :
    W.slotSize cache = V.slotSize cache := by
  rw [MemView.slotSize, h.caches, MemView.slotSize]

theorem ChangedIn.widen (h : V.ChangedIn x k W) (hle : y ≤ x) (hend : x + k ≤ y + j) :
    V.ChangedIn y j W where
  space := h.space
  caches := h.caches
  cachesAt := h.cachesAt
  bytes z hz := h.bytes z (by omega)

theorem changedIn_write (values : List UInt8) : V.ChangedIn x values.length (V.write x values) :=
  ⟨rfl, rfl, rfl, fun _ hy => bytes_write_of_not_mem hy⟩

theorem changedIn_writeWord (value : UInt32) : V.ChangedIn x 4 (V.writeWord x value) :=
  ⟨rfl, rfl, rfl, fun _ hy => bytes_writeWord_of_not_mem hy⟩

theorem ChangedIn.write (h : V.ChangedIn x k W) {values : List UInt8} (hle : x ≤ y)
    (hend : y + values.length ≤ x + k) : V.ChangedIn x k (W.write y values) :=
  h.trans ((changedIn_write values).widen hle hend)

theorem ChangedIn.writeWord (h : V.ChangedIn x k W) (hle : x ≤ y) (hend : y + 4 ≤ x + k)
    (value : UInt32) : V.ChangedIn x k (W.writeWord y value) :=
  h.trans ((changedIn_writeWord value).widen hle hend)

theorem ChangedIn.word (h : V.ChangedIn x k W) (hout : y + 4 ≤ x ∨ x + k ≤ y) :
    W.word y = V.word y :=
  word_congr fun z hle hlt => h.bytes z (by omega)

theorem FreeSlot.congr (h : V.FreeSlot page size slot next) (hsize : 4 ≤ size)
    (hbytes : ∀ y, slotAt page size slot ≤ y → y < slotAt page size slot + size →
      W.bytes y = V.bytes y) : W.FreeSlot page size slot next where
  next := (word_congr fun y hle hlt => hbytes y hle (by omega)).trans h.next
  poison y hle hlt := (hbytes y (by omega) hlt).trans (h.poison y hle hlt)

theorem FreeList.congr (h : V.FreeList page size slots) (hsize : 4 ≤ size)
    (hbytes : ∀ slot ∈ slots, ∀ y, slotAt page size slot ≤ y → y < slotAt page size slot + size →
      W.bytes y = V.bytes y) : W.FreeList page size slots := by
  induction slots with
  | nil => exact trivial
  | cons slot rest ih =>
      obtain ⟨hslot, hfree, hrest⟩ := h
      refine ⟨hslot, hfree.congr hsize (hbytes slot List.mem_cons_self), ih hrest ?_⟩
      exact fun slot' hmem => hbytes slot' (List.mem_cons_of_mem slot hmem)

theorem FreeList.lt (h : V.FreeList page size slots) : ∀ slot ∈ slots, slot < slotCount size := by
  induction slots with
  | nil => simp
  | cons slot rest ih =>
      obtain ⟨hslot, -, hrest⟩ := h
      intro slot' hmem
      rcases List.mem_cons.mp hmem with rfl | hmem
      · exact hslot
      · exact ih hrest slot' hmem

end MemView

namespace Slab

variable {V W : MemView} {size x k y : Nat} {owner : UInt32} {q : Slab}

/-- The link to the next page is no part of the layout. -/
theorem Laid.congr_next (h : q.Laid V size owner) (hsize : 4 ≤ size)
    (hbytes : ∀ y, q.Own size y → y < 4096 * q.page + 8 ∨ 4096 * q.page + 12 ≤ y →
      W.bytes y = V.bytes y) : q.Laid W size owner where
  freeList := by
    rw [← h.freeList]
    exact MemView.word_congr fun y hle hlt => hbytes y (.inl (by omega)) (.inl (by omega))
  allocated := by
    rw [← h.allocated]
    exact MemView.word_congr fun y hle hlt => hbytes y (.inl (by omega)) (.inl (by omega))
  owner := by
    rw [← h.owner]
    exact MemView.word_congr fun y hle hlt => hbytes y (.inl (by omega)) (.inr (by omega))
  list := by
    refine h.list.congr hsize fun slot hmem y hle hlt => hbytes y (.inr ⟨slot, hmem, hle, hlt⟩) ?_
    simp only [slotAt] at hle
    omega
  nodup := h.nodup

theorem Laid.congr (h : q.Laid V size owner) (hsize : 4 ≤ size)
    (hbytes : ∀ y, q.Own size y → W.bytes y = V.bytes y) : q.Laid W size owner :=
  h.congr_next hsize fun y hy _ => hbytes y hy

theorem Laid.next_congr (hbytes : ∀ y, q.Own size y → W.bytes y = V.bytes y) :
    W.word (4096 * q.page + 8) = V.word (4096 * q.page + 8) :=
  MemView.word_congr fun y hle hlt => hbytes y (.inl (by omega))

/-- All that belongs to the allocator lies in the page. -/
theorem Laid.own_page (h : q.Laid V size owner) (hy : q.Own size y) : y / 4096 = q.page := by
  rcases hy with hheader | ⟨slot, hmem, hle, hlt⟩
  · omega
  · exact (slotAt_page (h.list.lt slot hmem) hle hlt).1

/-- Different numbers below a bound are no more than it, and fewer if one is missing. -/
theorem length_le_of_lt {slots : List Nat} {count : Nat} (hnodup : slots.Nodup)
    (hlt : ∀ slot ∈ slots, slot < count) : slots.length ≤ count := by
  have hsub : slots ⊆ List.range count := fun slot hmem => List.mem_range.mpr (hlt slot hmem)
  simpa using (List.subperm_of_subset hnodup hsub).length_le

theorem length_lt_of_lt {slots : List Nat} {count slot : Nat} (hnodup : slots.Nodup)
    (hlt : ∀ slot ∈ slots, slot < count) (hslot : slot < count) (hnot : slot ∉ slots) :
    slots.length < count := by
  refine length_le_of_lt (List.nodup_cons.mpr ⟨hnot, hnodup⟩) fun slot' hmem => ?_
  rcases List.mem_cons.mp hmem with rfl | hmem
  · exact hslot
  · exact hlt slot' hmem

theorem Laid.length_le (h : q.Laid V size owner) : q.free.length ≤ slotCount size :=
  length_le_of_lt h.nodup h.list.lt

/-- A slot that is not free leaves room for it in the free list. -/
theorem Laid.length_lt (h : q.Laid V size owner) {slot : Nat} (hslot : slot < slotCount size)
    (hlive : slot ∉ q.free) : q.free.length < slotCount size :=
  length_lt_of_lt h.nodup h.list.lt hslot hlive

end Slab

namespace MemView

variable {V W : MemView} {size : Nat} {head owner : UInt32} {slabs pre rest rest' : List Slab}
  {p p' q : Slab}

theorem PageList.congr (h : V.PageList size owner slabs head) (hsize : 4 ≤ size)
    (hbytes : ∀ q ∈ slabs, ∀ y, q.Own size y → W.bytes y = V.bytes y) :
    W.PageList size owner slabs head := by
  induction slabs generalizing head with
  | nil => exact h
  | cons q rest ih =>
      obtain ⟨hhead, hlaid, hrest⟩ := h
      have hq := hbytes q List.mem_cons_self
      refine ⟨hhead, hlaid.congr hsize hq, ?_⟩
      rw [Slab.Laid.next_congr hq]
      exact ih hrest fun q' hmem => hbytes q' (List.mem_cons_of_mem q hmem)

theorem PageList.laid (h : V.PageList size owner slabs head) (hq : q ∈ slabs) :
    q.Laid V size owner := by
  induction slabs generalizing head with
  | nil => cases hq
  | cons p rest ih =>
      obtain ⟨-, hlaid, hrest⟩ := h
      rcases List.mem_cons.mp hq with rfl | hmem
      · exact hlaid
      · exact ih hrest hmem

theorem PageList.behind (h : V.PageList size owner (pre ++ p :: rest) head) :
    V.PageList size owner rest (V.word (4096 * p.page + 8)) := by
  induction pre generalizing head with
  | nil => exact h.2.2
  | cons q pre ih => exact ih h.2.2

theorem PageList.relink (h : V.PageList size owner (pre ++ p :: rest) head) (hsize : 4 ≤ size)
    (hbytes : ∀ q ∈ pre, ∀ y, q.Own size y → W.bytes y = V.bytes y) (hp : p'.Laid W size owner)
    (hpage : p'.page = p.page)
    (hrest : W.PageList size owner rest' (W.word (4096 * p.page + 8))) :
    W.PageList size owner (pre ++ p' :: rest') head := by
  induction pre generalizing head with
  | nil =>
      refine ⟨?_, hp, ?_⟩
      · rw [hpage]
        exact h.1
      · rw [hpage]
        exact hrest
  | cons q pre ih =>
      obtain ⟨hhead, hlaid, htail⟩ := h
      have hq := hbytes q List.mem_cons_self
      refine ⟨hhead, hlaid.congr hsize hq, ?_⟩
      rw [Slab.Laid.next_congr hq]
      exact ih htail fun q' hmem => hbytes q' (List.mem_cons_of_mem q hmem)

end MemView

end AvrKernel.Memory

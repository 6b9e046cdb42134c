import AvrKernel.Memory.Filling
import AvrKernel.Memory.MallocSteps

/-!
# Runs of the heap

Callers ask for blocks, write to them, and give them back, while others do the same with pages.
Each block is taken down with the bytes that its caller knows to be in it.
-/

namespace AvrKernel.Memory

open Comp
open Bytes (patch patch_length getElem?_patch)

structure Block where
  address : UInt32
  bytes : List UInt8

/-- Memory, the regions of pages that are held besides the heap, and the blocks of its callers. -/
structure HeapSystem where
  mem : KernelMemory
  regions : List Region
  blocks : List Block

inductive HeapOp
  | malloc (size : UInt32)
  | free (ptr : UInt32)
  | realloc (ptr size : UInt32)
  | write (ptr : UInt32) (offset : Nat) (values : List UInt8)
  | page (op : PageOp)

/-! ## Blocks -/

/-- The bytes at an address. -/
def KernelMemory.found (s : KernelMemory) (ptr : UInt32) (size : Nat) : List UInt8 :=
  (List.range size).map fun k => s.phys (s.vmm.tables.vmmGetPhysAddr (ptr + .ofNat k))

/-- A block with the bytes that were in it, and behind them those that are found. -/
def KernelMemory.block (s : KernelMemory) (ptr : UInt32) (size : Nat) (before : List UInt8) :
    Block :=
  ⟨ptr, before.take size ++ (s.found ptr size).drop before.length⟩

namespace Block

def others (ptr : UInt32) (blocks : List Block) : List Block :=
  blocks.filter fun b => decide (b.address ≠ ptr)

/-- The bytes of the block at an address, if there is one. -/
def contents (ptr : UInt32) (blocks : List Block) : List UInt8 :=
  ((blocks.find? fun b => decide (b.address = ptr)).map Block.bytes).getD []

def overwrite (ptr : UInt32) (offset : Nat) (values : List UInt8) (b : Block) : Block :=
  if b.address = ptr then { b with bytes := patch b.bytes offset values } else b

theorem mem_others {ptr : UInt32} {blocks : List Block} {b : Block} :
    b ∈ others ptr blocks ↔ b ∈ blocks ∧ b.address ≠ ptr := by
  rw [others, List.mem_filter, decide_eq_true_eq]

theorem contents_of_mem {blocks : List Block} {b : Block}
    (hdistinct : (blocks.map Block.address).Nodup) (hb : b ∈ blocks) :
    contents b.address blocks = b.bytes := by
  cases hfind : blocks.find? fun c => decide (c.address = b.address) with
  | none =>
      have hnone := List.find?_eq_none.mp hfind b hb
      simp at hnone
  | some c =>
      have hsame := List.find?_some hfind
      rw [decide_eq_true_eq] at hsame
      have heq : c = b :=
        List.inj_on_of_nodup_map hdistinct (List.mem_of_find?_eq_some hfind) hb hsame
      rw [contents, hfind, heq, Option.map_some, Option.getD_some]

end Block

/-! ## Steps -/

namespace HeapSystem

/-- A function of the heap. -/
def heap {α : Type} (c : MemM α) : Comp HeapSystem α :=
  zoom HeapSystem.mem (fun mem s => { s with mem }) c

/-- What callers of the virtual memory manager do. -/
def pages {α : Type} (c : Comp PageSystem α) : Comp HeapSystem α :=
  zoom (fun s => ⟨s.mem.vmm, s.regions⟩)
    (fun p s => { s with mem := { s.mem with vmm := p.vmm }, regions := p.regions }) c

/-- The blocks after a call that has returned an address, `NULL` for nothing. -/
def record (ptr : UInt32) (size : Nat) (before : List UInt8) (blocks : List Block) :
    Comp HeapSystem Unit :=
  modify fun s =>
    { s with blocks := if ptr = 0 then blocks else s.mem.block ptr size before :: blocks }

def step : HeapOp → Comp HeapSystem Unit
  | .malloc size => do
      let s ← get
      let ptr ← heap (mallocUnlocked size)
      record ptr size.toNat [] s.blocks
  | .free ptr => do
      heap (freeUnlocked ptr)
      modify fun s => { s with blocks := Block.others ptr s.blocks }
  | .realloc ptr size => do
      let s ← get
      let newPtr ← heap (reallocUnlocked ptr size)
      -- without memory for it the block stays where it is
      if newPtr = 0 ∧ size ≠ 0 then pure ()
      else record newPtr size.toNat (Block.contents ptr s.blocks) (Block.others ptr s.blocks)
  | .write ptr offset values => do
      heap (storeBytes (ptr + .ofNat offset) values)
      modify fun s => { s with blocks := s.blocks.map (Block.overwrite ptr offset values) }
  | .page op => pages (PageSystem.step op)

/-- The address is `NULL`, or that of a block. -/
def Known (s : HeapSystem) (ptr : UInt32) : Prop := ptr = 0 ∨ ∃ b ∈ s.blocks, b.address = ptr

/-- Only blocks are given back, and writes stay in them. No size is so large that the pages for it
cannot be counted in 32 bits. -/
def Ok (s : HeapSystem) : HeapOp → Prop
  | .malloc size => size.toNat + 8191 < 2 ^ 32
  | .free ptr => s.Known ptr
  | .realloc ptr size => s.Known ptr ∧ size.toNat + 8191 < 2 ^ 32
  | .write ptr offset values =>
      ∃ b ∈ s.blocks, b.address = ptr ∧ offset + values.length ≤ b.bytes.length
  | .page op => PageSystem.Ok ⟨s.mem.vmm, s.regions⟩ op

instance (s : HeapSystem) (ptr : UInt32) : Decidable (s.Known ptr) :=
  inferInstanceAs (Decidable (_ ∨ _))

instance (s : HeapSystem) (op : HeapOp) : Decidable (s.Ok op) :=
  match op with
  | .malloc size => inferInstanceAs (Decidable (size.toNat + 8191 < 2 ^ 32))
  | .free ptr => inferInstanceAs (Decidable (s.Known ptr))
  | .realloc ptr size =>
      inferInstanceAs (Decidable (s.Known ptr ∧ size.toNat + 8191 < 2 ^ 32))
  | .write ptr offset values => inferInstanceAs (Decidable
      (∃ b ∈ s.blocks, b.address = ptr ∧ offset + values.length ≤ b.bytes.length))
  | .page op => inferInstanceAs (Decidable (PageSystem.Ok ⟨s.mem.vmm, s.regions⟩ op))

end HeapSystem

/-! ## Blocks in memory -/

/-- The block lies at a position, within the object there, and the bytes are in it. -/
structure Block.At (b : Block) (V : MemView) (x cap : Nat) : Prop where
  address : b.address = areaAddress x
  fits : b.bytes.length ≤ cap
  bytes : ∀ k value, b.bytes[k]? = some value → V.bytes (x + k) = value

/-- The blocks are the objects of a heap. -/
structure MemView.Blocks (V : MemView) (live : Nat → Nat → Prop) (blocks : List Block) : Prop where
  bound : ∀ x cap, live x cap → x < 0x10000000
  object : ∀ b ∈ blocks, ∃ x cap, live x cap ∧ b.At V x cap
  known : ∀ x cap, live x cap → ∃ b ∈ blocks, b.address = areaAddress x
  distinct : (blocks.map Block.address).Nodup

section Blocks

variable {V W : MemView} {live live' : Nat → Nat → Prop} {blocks : List Block} {b : Block}
  {x cap x' cap' size : Nat}

theorem Block.At.congr (h : b.At V x cap)
    (hbytes : ∀ y, x ≤ y → y < x + cap → W.bytes y = V.bytes y) : b.At W x cap := by
  refine ⟨h.address, h.fits, fun k value hk => ?_⟩
  obtain ⟨hlt, -⟩ := List.getElem?_eq_some_iff.mp hk
  have hfits := h.fits
  rw [hbytes _ (Nat.le_add_right x k) (by omega)]
  exact h.bytes k value hk

theorem KernelMemory.Shows.block {boot : VmmState} {s : KernelMemory} {before : List UInt8}
    (h : s.Shows boot V) (hback : V.space.BackedRange x cap) (hsize : size ≤ cap)
    (hbefore : ∀ k value, k < size → before[k]? = some value → V.bytes (x + k) = value) :
    (s.block (areaAddress x) size before).At V x cap := by
  have hfound : (s.found (areaAddress x) size).length = size := by simp [found]
  refine ⟨rfl, ?_, fun k value hk => ?_⟩
  · rw [KernelMemory.block, List.length_append, List.length_take, List.length_drop, hfound]
    omega
  · rw [KernelMemory.block, List.getElem?_append, List.length_take] at hk
    split at hk
    next hlt =>
      rw [List.getElem?_take_of_lt (by omega)] at hk
      exact hbefore k value (by omega) hk
    next hge =>
      obtain ⟨hlt, -⟩ := List.getElem?_eq_some_iff.mp hk
      rw [List.length_drop, hfound] at hlt
      have hindex : before.length + (k - min size before.length) = k := by omega
      rw [List.getElem?_drop, hindex, found, List.getElem?_map, List.getElem?_range (by omega),
        Option.map_some, Option.some.injEq, areaAddress_add] at hk
      rw [← hk]
      exact (h.bytes _ (hback _ (Nat.le_add_right x k) (by omega))).symm

namespace MemView.Blocks

theorem at_address (h : V.Blocks live blocks) {ptr : UInt32}
    (hb : ∃ b ∈ blocks, b.address = ptr) :
    ∃ b ∈ blocks, ∃ x cap, ptr = areaAddress x ∧ live x cap ∧ b.At V x cap := by
  obtain ⟨b, hb, rfl⟩ := hb
  obtain ⟨x, cap, hlive, hat⟩ := h.object b hb
  exact ⟨b, hb, x, cap, hat.address, hlive, hat⟩

theorem congr (h : V.Blocks live blocks)
    (hbytes : ∀ x cap, live x cap → ∀ y, x ≤ y → y < x + cap → W.bytes y = V.bytes y) :
    W.Blocks live blocks where
  bound := h.bound
  object b hb := by
    obtain ⟨x, cap, hlive, hat⟩ := h.object b hb
    exact ⟨x, cap, hlive, hat.congr (hbytes x cap hlive)⟩
  known := h.known
  distinct := h.distinct

theorem cons (h : V.Blocks live blocks) (hb : b.At W x' cap') (hnew : live' x' cap')
    (hfresh : ∀ y c, live y c → y ≠ x') (hbound : ∀ y c, live' y c → y < 0x10000000)
    (hkeep : ∀ y c, live y c → live' y c)
    (hcover : ∀ y c, live' y c → y = x' ∨ live y c)
    (hbytes : ∀ y c, live y c → ∀ z, y ≤ z → z < y + c → W.bytes z = V.bytes z) :
    W.Blocks live' (b :: blocks) where
  bound := hbound
  object b' hb' := by
    rcases List.mem_cons.mp hb' with rfl | hb'
    · exact ⟨x', cap', hnew, hb⟩
    · obtain ⟨y, c, hlive, hat⟩ := h.object b' hb'
      exact ⟨y, c, hkeep y c hlive, hat.congr (hbytes y c hlive)⟩
  known y c hlive := by
    rcases hcover y c hlive with rfl | hlive
    · exact ⟨b, List.mem_cons_self, hb.address⟩
    · obtain ⟨b', hb', haddress⟩ := h.known y c hlive
      exact ⟨b', List.mem_cons_of_mem b hb', haddress⟩
  distinct := by
    rw [List.map_cons, List.nodup_cons]
    refine ⟨fun hmem => ?_, h.distinct⟩
    obtain ⟨b', hb', hsame⟩ := List.mem_map.mp hmem
    obtain ⟨y, c, hlive, hat⟩ := h.object b' hb'
    rw [hat.address, hb.address] at hsame
    have heq := (areaAddress_inj (h.bound y c hlive) (hbound x' cap' hnew)).mp hsame
    exact hfresh y c hlive heq

theorem others (h : V.Blocks live blocks) (hx : x < 0x10000000)
    (hlive : ∀ y c, live' y c ↔ live y c ∧ y ≠ x)
    (hbytes : ∀ y c, live' y c → ∀ z, y ≤ z → z < y + c → W.bytes z = V.bytes z) :
    W.Blocks live' (Block.others (areaAddress x) blocks) where
  bound y c hy := h.bound y c ((hlive y c).mp hy).1
  object b hb := by
    obtain ⟨hb, hne⟩ := Block.mem_others.mp hb
    obtain ⟨y, c, hy, hat⟩ := h.object b hb
    have hyx : y ≠ x := by
      rintro rfl
      exact hne hat.address
    have hy' := (hlive y c).mpr ⟨hy, hyx⟩
    exact ⟨y, c, hy', hat.congr (hbytes y c hy')⟩
  known y c hy := by
    obtain ⟨hold, hyx⟩ := (hlive y c).mp hy
    obtain ⟨b, hb, haddress⟩ := h.known y c hold
    refine ⟨b, Block.mem_others.mpr ⟨hb, ?_⟩, haddress⟩
    rw [haddress, Ne, areaAddress_inj (h.bound y c hold) hx]
    exact hyx
  distinct := h.distinct.sublist (List.filter_sublist.map Block.address)

theorem replace (h : V.Blocks live blocks) (hx : x < 0x10000000) (hb : b.At W x' cap')
    (hnew : live' x' cap') (hfresh : ∀ y c, live y c → y ≠ x → y ≠ x')
    (hbound : ∀ y c, live' y c → y < 0x10000000)
    (hkeep : ∀ y c, live y c → y ≠ x → live' y c)
    (hcover : ∀ y c, live' y c → y = x' ∨ (live y c ∧ y ≠ x))
    (hbytes : ∀ y c, live y c → y ≠ x → ∀ z, y ≤ z → z < y + c → W.bytes z = V.bytes z) :
    W.Blocks live' (b :: Block.others (areaAddress x) blocks) := by
  have hothers : W.Blocks (fun y c => live y c ∧ y ≠ x) (Block.others (areaAddress x) blocks) :=
    h.others hx (fun y c => Iff.rfl) fun y c hy => hbytes y c hy.1 hy.2
  exact hothers.cons hb hnew (fun y c hy => hfresh y c hy.1 hy.2) hbound
    (fun y c hy => hkeep y c hy.1 hy.2) hcover fun _ _ _ _ _ _ => rfl

theorem overwrite (h : V.Blocks live blocks) (hb : b ∈ blocks) (hat : b.At V x cap)
    (hlive : live x cap)
    (hapart : ∀ y c, live y c → x ≠ y → x + cap ≤ y ∨ y + c ≤ x) {offset : Nat}
    {values : List UInt8} (hfits : offset + values.length ≤ b.bytes.length) :
    (V.write (x + offset) values).Blocks live
      (blocks.map (Block.overwrite (areaAddress x) offset values)) where
  bound := h.bound
  object b' hb' := by
    obtain ⟨b', hmem, rfl⟩ := List.mem_map.mp hb'
    have hcap := hat.fits
    by_cases hsame : b'.address = areaAddress x
    · obtain rfl : b' = b :=
        List.inj_on_of_nodup_map h.distinct hmem hb (hsame.trans hat.address.symm)
      refine ⟨x, cap, hlive, ?_⟩
      rw [Block.overwrite, if_pos hsame]
      refine ⟨hat.address, ?_, fun k value hk => ?_⟩
      · change (patch b'.bytes offset values).length ≤ cap
        rwa [patch_length hfits]
      · change (patch b'.bytes offset values)[k]? = some value at hk
        rw [getElem?_patch hfits] at hk
        split at hk
        next hin =>
          have hwritten := Tape.write_of_mem (t := V.bytes)
            (show x + offset ≤ x + k ∧ x + k < x + offset + values.length by omega)
          have hindex : x + k - (x + offset) = k - offset := by omega
          rw [hindex, hk] at hwritten
          exact Option.some.inj hwritten
        next hout =>
          rw [bytes_write_of_not_mem (by omega)]
          exact hat.bytes k value hk
    · rw [Block.overwrite, if_neg hsame]
      obtain ⟨y, c, hy, hat'⟩ := h.object b' hmem
      have hne : x ≠ y := by
        rintro rfl
        exact hsame hat'.address
      have hout := hapart y c hy hne
      exact ⟨y, c, hy, hat'.congr fun z hle hlt => bytes_write_of_not_mem (by omega)⟩
  known y c hy := by
    obtain ⟨b', hmem, haddress⟩ := h.known y c hy
    refine ⟨_, List.mem_map_of_mem hmem, ?_⟩
    rw [Block.overwrite]
    split
    · exact haddress
    · exact haddress
  distinct := by
    have hsame : Block.address ∘ Block.overwrite (areaAddress x) offset values = Block.address := by
      funext b'
      rw [Function.comp_apply, Block.overwrite]
      split
      · rfl
      · rfl
    rw [List.map_map, hsame]
    exact h.distinct

/-- There is no block at `NULL`. -/
theorem at_null (h : V.Blocks live blocks) :
    Block.contents 0 blocks = [] ∧ Block.others 0 blocks = blocks := by
  have hne : ∀ b ∈ blocks, b.address ≠ 0 := by
    intro b hb
    obtain ⟨x, cap, hlive, hat⟩ := h.object b hb
    rw [hat.address]
    exact areaAddress_ne_zero (h.bound x cap hlive)
  constructor
  · have hfind : (blocks.find? fun b => decide (b.address = 0)) = none := by
      rw [List.find?_eq_none]
      intro b hb
      rw [decide_eq_true_eq]
      exact hne b hb
    rw [Block.contents, hfind, Option.map_none, Option.getD_none]
  · rw [Block.others, List.filter_eq_self]
    intro b hb
    rw [decide_eq_true_eq]
    exact hne b hb

end MemView.Blocks

end Blocks

/-! ## Runs -/

theorem HeapAt.live_lt {boot : VmmState} {held : List Region} {s : KernelMemory} {V : MemView}
    {H : Heap} (h : HeapAt boot held s V H) (x cap : Nat) (hlive : H.Live x cap) :
    x < 0x10000000 := by
  obtain ⟨hpos, hend, -⟩ := h.liveBacked hlive
  omega

/-- Objects lie in pages of the heap. -/
theorem HeapAt.live_region {boot : VmmState} {held : List Region} {s : KernelMemory} {V : MemView}
    {H : Heap} {x cap y : Nat} (h : HeapAt boot held s V H) (hlive : H.Live x cap) (hle : x ≤ y)
    (hlt : y < x + cap) : ∃ r ∈ H.regions, r.Contains (y / 4096) := by
  rcases hlive with ⟨i, hi, q, hq, ⟨slot, hslot, -, rfl⟩, rfl⟩ | ⟨r, hr, rfl, rfl⟩
  · refine ⟨q.region, Heap.region_mem hi hq, Slab.region_contains.mpr ?_⟩
    exact (slotAt_page hslot hle hlt).1
  · have hcount := h.largeFits hr
    refine ⟨r, Heap.large_mem hr, ?_⟩
    change r.first ≤ y / 4096 ∧ y / 4096 < r.first + r.count
    omega

/-- A heap without objects has no pages. -/
theorem HeapAt.empty_of_dead {boot : VmmState} {held : List Region} {s : KernelMemory} {V : MemView}
    {H : Heap} (h : HeapAt boot held s V H) (hdead : ∀ x cap, ¬ H.Live x cap) :
    (∀ i < cacheCount, H.slabs i = []) ∧ H.large = [] := by
  refine ⟨fun i hi => List.eq_nil_iff_forall_not_mem.mpr fun q hq => ?_,
    List.eq_nil_iff_forall_not_mem.mpr fun r hr => hdead _ _ (.inr ⟨r, hr, rfl, rfl⟩)⟩
  -- the page has fewer free slots than slots
  have hfull : List.range (slotCount (cacheSize i)) ⊆ q.free := by
    intro slot hslot
    by_contra hnot
    exact hdead _ _ (.inl ⟨i, hi, q, hq, ⟨slot, List.mem_range.mp hslot, hnot, rfl⟩, rfl⟩)
  have hlength := (List.subperm_of_subset List.nodup_range hfull).length_le
  rw [List.length_range] at hlength
  exact absurd (h.laid.used i hi q hq) (Nat.not_lt.mpr hlength)

namespace HeapSystem

variable {boot : VmmState} {s : HeapSystem} {kernelEnd ptr size : UInt32} {n : Nat} {op : HeapOp}

/-- The blocks of the callers are the objects of the heap. Every frame that was free at boot is
free, or behind one page of the heap or of a region. -/
def Kept (boot : VmmState) (s : HeapSystem) : Prop :=
  ∃ V H, HeapAt boot s.regions s.mem V H ∧ V.Blocks H.Live s.blocks ∧
    V.space.pool.supply = boot.pmm.freeFrames

/-- The kernel after boot, before anything has been asked for. -/
def start (boot : VmmState) (phys : UInt32 → UInt8) (cachesAt : UInt32) : HeapSystem :=
  ⟨⟨boot, phys, mallocCaches, cachesAt, none⟩, [], []⟩

theorem Kept.start (hboot : Booted kernelEnd boot) (phys : UInt32 → UInt8) (cachesAt : UInt32) :
    Kept boot (start boot phys cachesAt) := by
  have hsizes : ∀ i < cacheCount, (mallocCaches i).objectSize.toNat = cacheSize i := by decide
  let V : MemView := ⟨Space.empty boot.pmm.freeFrames,
    fun x => phys (boot.tables.vmmGetPhysAddr (areaAddress x)), mallocCaches, cachesAt⟩
  have hregions : (⟨fun _ => [], []⟩ : Heap).regions = [] := by simp [Heap.regions]
  have hdead : ∀ x cap, ¬ (⟨fun _ => [], []⟩ : Heap).Live x cap := by
    rintro x cap (⟨i, -, q, hq, -⟩ | ⟨r, hr, -⟩)
    · cases hq
    · cases hr
  refine ⟨V, ⟨fun _ => [], []⟩,
    ⟨?_, ⟨hsizes, fun i hi => ?_, fun i _ q hq => ?_, fun r hr => ?_⟩, ?_⟩,
    ⟨fun x cap hlive => absurd hlive (hdead x cap), fun b hb => ?_,
      fun x cap hlive => absurd hlive (hdead x cap), .nil⟩, Space.supply_empty _⟩
  · exact ⟨hboot.shows, fun _ _ => rfl, rfl, rfl, .refl boot, rfl⟩
  · have hbounds := Heap.cacheSize_bounds hi
    have hsize : V.slotSize i = cacheSize i := hsizes i hi
    refine ⟨rfl, fun q hq => ?_, List.nodup_nil, by omega, by omega⟩
    cases hq
  · cases hq
  · cases hr
  · rw [hregions]
    exact Space.Holds.nil _
  · cases hb

/-- What a call returns becomes a block. -/
theorem Kept.allocate (h : Kept boot s) (hsize : size.toNat + 8191 < 2 ^ 32) (hn : 0x10000 < n) :
    Ensures n (heap (mallocUnlocked size)) s
      (fun ptr s' => (ptr = 0 → size = 0) ∧ Kept boot { s' with
        blocks := if ptr = 0 then s.blocks else s'.mem.block ptr size.toNat [] :: s.blocks })
      fun s' => Kept boot s' ∧ s'.mem.vmm.Exhausted (pagesNeeded size) := by
  obtain ⟨V, H, hheap, hblocks, hsupply⟩ := h
  rw [heap, ensures_zoom]
  refine (hheap.mallocUnlocked hsize hn).mono ?_ ?_
  · rintro ptr mem (⟨hzero, rfl, rfl⟩ | ⟨x, cap, W, H', -, rfl, hle, hheap', hserves⟩)
    · rw [if_pos rfl]
      exact ⟨fun _ => hzero, V, H, hheap, hblocks, hsupply⟩
    · have hnew : H'.Live x cap := (hserves.live x cap).mpr (.inl ⟨rfl, rfl⟩)
      obtain ⟨-, -, hback⟩ := hheap'.liveBacked hnew
      have hb := hheap'.shows.block hback hle fun k value _
        (hk : ([] : List UInt8)[k]? = some value) =>
        by simp at hk
      have hne := areaAddress_ne_zero (hheap'.live_lt x cap hnew)
      rw [if_neg hne]
      refine ⟨fun hzero => absurd hzero hne, W, H', hheap', hblocks.cons hb hnew hserves.fresh
        hheap'.live_lt (fun y c hy => ?_) (fun y c hy => ?_) hserves.bytes,
        hserves.supply.trans hsupply⟩
      · exact (hserves.live y c).mpr (.inr hy)
      · exact ((hserves.live y c).mp hy).imp And.left id
  · rintro mem ⟨hheap', hreason⟩
    exact ⟨⟨V, H, hheap', hblocks, hsupply⟩, hheap'.shows.space.exhausted hreason⟩

theorem Kept.malloc (h : Kept boot s) (hsize : size.toNat + 8191 < 2 ^ 32) (hn : 0x10000 < n) :
    Ensures n (step (.malloc size)) s (fun _ s' => Kept boot s') (Kept boot) := by
  rw [step, ensures_bind, ensures_get]
  refine ((h.allocate hsize hn).mono (fun _ _ => id) fun _ => And.left).bind ?_
  rintro ptr s' ⟨-, hkept⟩
  exact hkept

/-- A block that is freed is known no more. -/
theorem Kept.free (h : Kept boot s) (hptr : s.Known ptr) (hn : 0x10000 < n) :
    Ensures n (step (.free ptr)) s (fun _ s' => Kept boot s') (Kept boot) := by
  obtain ⟨V, H, hheap, hblocks, hsupply⟩ := h
  rw [step, ensures_bind, heap, ensures_zoom]
  rcases hptr with rfl | hb
  · rw [freeUnlocked, if_pos rfl, ensures_pure, ensures_modify]
    refine ⟨V, H, hheap, ?_, hsupply⟩
    rw [hblocks.at_null.2]
    exact hblocks
  · obtain ⟨b, hb, x, cap, rfl, hlive, -⟩ := hblocks.at_address hb
    refine (hheap.freeUnlocked hlive hn).imp ?_
    rintro - mem ⟨W, H', hheap', hreleases⟩
    rw [ensures_modify]
    exact ⟨W, H', hheap', hblocks.others (hheap.live_lt x cap hlive) hreleases.live hreleases.bytes,
      hreleases.supply.trans hsupply⟩

/-- A block that has moved still begins with what was in it. -/
theorem Kept.realloc (h : Kept boot s) (hptr : s.Known ptr) (hsize : size.toNat + 8191 < 2 ^ 32)
    (hn : 0x10000 < n) :
    Ensures n (step (.realloc ptr size)) s (fun _ s' => Kept boot s') (Kept boot) := by
  rcases hptr with rfl | hb
  · -- `realloc(NULL, size)` is `malloc(size)`
    have hnew := (h.allocate hsize hn).mono (fun _ _ => id) fun _ => And.left
    obtain ⟨V, H, -, hblocks, -⟩ := h
    rw [step, ensures_bind, ensures_get, reallocUnlocked, if_pos rfl, hblocks.at_null.1,
      hblocks.at_null.2]
    refine hnew.bind ?_
    rintro newPtr s' ⟨hzero, hkept⟩
    rw [if_neg (fun hnone => hnone.2 (hzero hnone.1))]
    exact hkept
  · obtain ⟨V, H, hheap, hblocks, hsupply⟩ := h
    obtain ⟨b, hmem, x, cap, rfl, hlive, hat⟩ := hblocks.at_address hb
    have hx := hheap.live_lt x cap hlive
    have hcontents : Block.contents (areaAddress x) s.blocks = b.bytes := by
      rw [← hat.address]
      exact Block.contents_of_mem hblocks.distinct hmem
    rw [step, ensures_bind, ensures_get, ensures_bind, heap, ensures_zoom, hcontents]
    refine (hheap.reallocUnlocked hlive hsize hn).mono ?_ ?_
    · rintro newPtr mem (⟨rfl, rfl, W, H', hheap', hreleases⟩ | ⟨hpos, rfl, rfl, hle⟩ |
        ⟨hpos, x', cap', W, H', rfl, hle, hheap', hmoves⟩)
      · rw [if_neg (by simp), record, ensures_modify, if_pos rfl]
        exact ⟨W, H', hheap', hblocks.others hx hreleases.live hreleases.bytes,
          hreleases.supply.trans hsupply⟩
      · -- the block stays, and is as long as was asked for now
        have hne := areaAddress_ne_zero hx
        have hb' := hheap.shows.block (hheap.liveBacked hlive).2.2 hle
          fun k value _ hk => hat.bytes k value hk
        rw [if_neg (fun hboth => hne hboth.1), record, ensures_modify, if_neg hne]
        refine ⟨V, H, hheap, hblocks.replace hx hb' hlive (fun _ _ _ hyx => hyx) hheap.live_lt
          (fun _ _ hy _ => hy) (fun y c hy => ?_) (fun _ _ _ _ _ _ _ => rfl), hsupply⟩
        by_cases hyx : y = x
        · exact .inl hyx
        · exact .inr ⟨hy, hyx⟩
      · -- the block has moved
        have hnew : H'.Live x' cap' := (hmoves.live x' cap').mpr (.inl ⟨rfl, rfl⟩)
        have hne := areaAddress_ne_zero (hheap'.live_lt x' cap' hnew)
        have hbefore : ∀ k value, k < size.toNat → b.bytes[k]? = some value →
            W.bytes (x' + k) = value := by
          intro k value hk hvalue
          obtain ⟨hlt, -⟩ := List.getElem?_eq_some_iff.mp hvalue
          have hfits := hat.fits
          rw [hmoves.copied k (by omega) hk]
          exact hat.bytes k value hvalue
        have hb' := hheap'.shows.block (hheap'.liveBacked hnew).2.2 hle hbefore
        rw [if_neg (fun hboth => hne hboth.1), record, ensures_modify, if_neg hne]
        refine ⟨W, H', hheap', hblocks.replace hx hb' hnew (fun y c hy _ => hmoves.fresh y c hy)
          hheap'.live_lt (fun y c hy hyx => (hmoves.live y c).mpr (.inr ⟨hy, hyx⟩))
          (fun y c hy => ?_) hmoves.bytes, hmoves.supply.trans hsupply⟩
        exact ((hmoves.live y c).mp hy).imp And.left id
    · rintro mem ⟨hheap', -⟩
      exact ⟨V, H, hheap', hblocks, hsupply⟩

/-- A caller that stays in its block disturbs no other one. -/
theorem Kept.write {offset : Nat} {values : List UInt8} (h : Kept boot s)
    (hok : s.Ok (.write ptr offset values)) :
    Ensures n (step (.write ptr offset values)) s (fun _ s' => Kept boot s') (Kept boot) := by
  obtain ⟨V, H, hheap, hblocks, hsupply⟩ := h
  obtain ⟨b, hb, rfl, hfits⟩ := hok
  obtain ⟨x, cap, hlive, hat⟩ := hblocks.object b hb
  obtain ⟨-, -, hback⟩ := hheap.liveBacked hlive
  have hcap := hat.fits
  rw [step, ensures_bind, heap, ensures_zoom, hat.address, areaAddress_add]
  refine (hheap.shows.storeBytes (hback.sub (Nat.le_add_right x offset) (by omega))).imp ?_
  rintro - mem hmem
  rw [ensures_modify]
  refine ⟨_, H, hheap.write hlive (Nat.le_add_right x offset) (by omega) hmem,
    hblocks.overwrite hb hat hlive (fun y c hy hne => hheap.liveApart hlive hy hne) hfits, hsupply⟩

/-- What happens to other pages does not concern the heap. -/
theorem Kept.page {pageOp : PageOp} (hboot : Booted kernelEnd boot) (h : Kept boot s)
    (hok : s.Ok (.page pageOp)) :
    Ensures n (step (.page pageOp)) s (fun _ s' => Kept boot s') (Kept boot) := by
  obtain ⟨V, H, hheap, hblocks, hsupply⟩ := h
  have hzero : 0 ∉ V.space.pool.supply := hsupply ▸ hboot.zero_not_free
  rw [step, pages, ensures_zoom]
  refine (PageSystem.step_held hheap.shows.space hheap.holds hzero hok).mono ?_ ?_
  · rintro - p ⟨hsame, T, hT, hholds, hsupply', huse⟩
    obtain ⟨bytes, hbytes, hs'⟩ := hheap.shows.repage hT hsame
    have hown : ∀ y, H.Own y → bytes y = V.bytes y := by
      intro y hy
      obtain ⟨hback, r, hr, hin⟩ := hheap.own_all hy
      exact hbytes y hback (huse r hr _ hin)
    have hlive : ∀ x cap, H.Live x cap → ∀ y, x ≤ y → y < x + cap → bytes y = V.bytes y := by
      intro x cap hlive y hle hlt
      obtain ⟨r, hr, hin⟩ := hheap.live_region hlive hle hlt
      exact hbytes y ((hheap.liveBacked hlive).2.2 y hle hlt) (huse r hr _ hin)
    exact ⟨{ V with space := T, bytes }, H, ⟨hs', hheap.laid.congr rfl rfl huse hown, hholds⟩,
      hblocks.congr hlive, hsupply'.trans hsupply⟩
  · -- the kernel has stopped, and the pages are as they were
    rintro p ⟨hregions, hvmm, hsame⟩
    obtain ⟨bytes, hbytes, hs'⟩ := hheap.shows.repage hvmm hsame
    have hkept : ∀ y, V.space.Backed y → bytes y = V.bytes y := fun y hy => hbytes y hy rfl
    refine ⟨{ V with bytes }, H, ⟨hs', hheap.laid.congr rfl rfl (fun _ _ _ _ => rfl) fun y hy =>
      hkept y (hheap.own_all hy).1, ?_⟩, hblocks.congr fun x cap hlive y hle hlt => ?_, hsupply⟩
    · exact hregions ▸ hheap.holds
    · exact hkept y ((hheap.liveBacked hlive).2.2 y hle hlt)

/-- The step lemma: the heap serves its callers, whatever they ask for. This holds of the state
that the kernel stops in, too. -/
theorem Kept.step (hboot : Booted kernelEnd boot) (h : Kept boot s) (hok : s.Ok op)
    (hn : 0x10000 < n) :
    Ensures n (step op) s (fun _ s' => Kept boot s') (Kept boot) := by
  cases op with
  | malloc size => exact h.malloc hok hn
  | free ptr => exact h.free hok hn
  | realloc ptr size => exact h.realloc hok.1 hok.2 hn
  | write ptr offset values => exact h.write hok
  | page pageOp => exact h.page hboot hok

/-- What the callers may rely on. A block reads as its caller left it, no two blocks share a byte,
and the allocator has found nothing wrong. -/
structure Sound (s : HeapSystem) : Prop where
  reads : ∀ b ∈ s.blocks, ∀ k value, b.bytes[k]? = some value → ∀ n,
    Ensures n (load8 (b.address + .ofNat k)) s.mem (fun found mem => found = value ∧ mem = s.mem)
      fun _ => False
  apart : s.blocks.Pairwise fun b b' =>
    b.address.toNat + b.bytes.length ≤ b'.address.toNat ∨
      b'.address.toNat + b'.bytes.length ≤ b.address.toNat
  crash : s.mem.crash = none

theorem Kept.sound (h : Kept boot s) : s.Sound := by
  obtain ⟨V, H, hheap, hblocks, -⟩ := h
  refine ⟨fun b hb k value hk n => ?_, ?_, hheap.shows.crash⟩
  · obtain ⟨x, cap, hlive, hat⟩ := hblocks.object b hb
    obtain ⟨hlt, -⟩ := List.getElem?_eq_some_iff.mp hk
    have hfits := hat.fits
    have hback : V.space.Backed (x + k) :=
      (hheap.liveBacked hlive).2.2 _ (Nat.le_add_right x k) (by omega)
    rw [hat.address, areaAddress_add, hheap.shows.load8 hback]
    exact ⟨hat.bytes k value hk, rfl⟩
  · have hnodup := List.pairwise_map.mp hblocks.distinct
    refine hnodup.imp_of_mem fun {b b'} hb hb' hne => ?_
    obtain ⟨x, cap, hlive, hat⟩ := hblocks.object b hb
    obtain ⟨x', cap', hlive', hat'⟩ := hblocks.object b' hb'
    have hxx' : x ≠ x' := by
      rintro rfl
      exact hne (hat.address.trans hat'.address.symm)
    have hapart := hheap.liveApart hlive hlive' hxx'
    have hfits := hat.fits
    have hfits' := hat'.fits
    rw [hat.address, hat'.address, toNat_areaAddress (hblocks.bound x cap hlive),
      toNat_areaAddress (hblocks.bound x' cap' hlive')]
    omega

/-- When all has been given back, memory is as it was at boot. -/
structure Clean (boot : VmmState) (s : HeapSystem) : Prop where
  frames : s.mem.vmm.pmm.freeFrames = boot.pmm.freeFrames
  bits : ∀ page < virtPages, s.mem.vmm.bit page = false
  entries : ∀ page < virtPages, s.mem.vmm.tables.pte (pageAddress page) = 0
  caches : ∀ i < cacheCount, (s.mem.caches i).pageList = 0

theorem Kept.clean (h : Kept boot s) (hblocks : s.blocks = []) (hregions : s.regions = []) :
    Clean boot s := by
  obtain ⟨V, H, hheap, hknown, hsupply⟩ := h
  have hdead : ∀ x cap, ¬ H.Live x cap := by
    intro x cap hlive
    obtain ⟨b, hb, -⟩ := hknown.known x cap hlive
    rw [hblocks] at hb
    cases hb
  obtain ⟨hslabs, hlarge⟩ := hheap.empty_of_dead hdead
  have hnone : H.regions = [] := by
    rw [Heap.regions, hlarge, List.append_nil, List.flatMap_eq_nil_iff]
    intro i hi
    rw [hslabs i (List.mem_range.mp hi), List.map_nil]
  have hunused : ∀ page, V.space.use page = none := by
    intro page
    by_contra huse
    obtain ⟨r, hr, -⟩ := hheap.holds.covered page huse
    rw [hregions, hnone] at hr
    cases hr
  have hshows := hheap.shows.space
  refine ⟨?_, fun page hpage => ?_, fun page hpage => ?_, fun i hi => ?_⟩
  · have hempty : V.space = Space.empty V.space.free := Space.ext (funext hunused) rfl
    rw [hempty, Space.supply_empty] at hsupply
    rw [hshows.free]
    exact Finset.coe_injective hsupply
  · rw [hshows.bit page hpage, hunused]
    rfl
  · rw [hshows.pte page hpage, hunused]
    rfl
  · have hlist := (hheap.laid.cached i hi).list
    rw [hslabs i hi] at hlist
    rw [hheap.shows.caches]
    exact hlist

/-- The run lemma: from boot on, blocks are served, moved, written to and given back in any order
and number, while others do the same with pages. -/
theorem run_sound (hboot : Booted kernelEnd boot) (phys : UInt32 → UInt8) (cachesAt : UInt32)
    {ops : List HeapOp} (hn : 0x10000 < n)
    (hops : Permitted n step Ok (start boot phys cachesAt) ops) :
    Ensures n (run step ops) (start boot phys cachesAt) (fun _ s => s.Sound) Sound := by
  have hrun := ensures_run (fun _ _ h hok => Kept.step hboot h hok hn)
    (Kept.start hboot phys cachesAt) hops
  exact hrun.mono (fun _ _ h => h.sound) fun _ h => h.sound

/-- A large block and a slot, which are written to; the large block moves to a smaller one. -/
def exampleOps : List HeapOp :=
  [.malloc 5000, .page (.alloc 2), .malloc 300, .write 0x10001000 0 [1, 2, 3],
    .write 0x10005010 0 [4, 5, 6], .realloc 0x10001000 600]

/-- The blocks with their first bytes. -/
def firstBytes (s : HeapSystem) : List (UInt32 × List UInt8) :=
  s.blocks.map fun b => (b.address, b.bytes.take 3)

set_option maxRecDepth 10000 in
theorem exampleOps_run : (run (guarded step Ok) exampleOps 0x20000
    (start exampleBoot (fun _ => 0) 0)).shown firstBytes =
      some [(0x10007000, [1, 2, 3]), (0x10005010, [4, 5, 6])] := by
  refine Eq.substr (p := fun f => (run (guarded f Ok) exampleOps 0x20000
    (start exampleBoot (fun _ => 0) 0)).shown firstBytes =
      some [(0x10007000, [1, 2, 3]), (0x10005010, [4, 5, 6])]) (a := ?f) ?h ?_
  case h =>
    conv_lhs =>
      delta step heap mallocUnlocked freeUnlocked reallocUnlocked moveBlock mallocUnlocked
        mallocLarge slabAlloc slabGrow slabFree owningCache popSlot store32
      rw [memset_eq 3, memcpy_eq 2, storeBytes_eq, chainSlots_eq]
  decide +kernel

theorem run_sound_exampleBoot : ∃ answers s,
    run step exampleOps 0x20000 (start exampleBoot (fun _ => 0) 0) = .done answers s ∧
      s.firstBytes = [(0x10007000, [1, 2, 3]), (0x10005010, [4, 5, 6])] ∧ s.Sound := by
  obtain ⟨answers, s, hguarded, hblocks⟩ := Outcome.exists_of_shown exampleOps_run
  obtain ⟨hops, hrun⟩ := permitted_of_guarded hguarded
  exact ⟨answers, s, hrun, hblocks,
    (run_sound booted_exampleBoot (fun _ => 0) 0 (by decide) hops).of_done hrun⟩

/-- In every state reached, `malloc` serves a request for at least a byte with a block apart from
all others. It stops only when the pages for it have run out. -/
theorem run_serves (hboot : Booted kernelEnd boot) (phys : UInt32 → UInt8) (cachesAt : UInt32)
    {ops : List HeapOp} {answers : List Unit} (hn : 0x10000 < n)
    (hops : Permitted n step Ok (start boot phys cachesAt) ops)
    (hrun : run step ops n (start boot phys cachesAt) = .done answers s)
    (hpos : size ≠ 0) (hsize : size.toNat + 8191 < 2 ^ 32) :
    Ensures n (heap (mallocUnlocked size)) s
      (fun ptr s' => ptr ≠ 0 ∧
        ({ s' with blocks := s'.mem.block ptr size.toNat [] :: s.blocks } : HeapSystem).Sound)
      fun s' => s'.mem.vmm.Exhausted (pagesNeeded size) := by
  have hkept := (ensures_run (fun _ _ h hok => Kept.step hboot h hok hn)
    (Kept.start hboot phys cachesAt) hops).of_done hrun
  refine (Kept.allocate hkept hsize hn).mono ?_ fun _ h => h.2
  rintro ptr s' ⟨hnull, hkept'⟩
  have hne : ptr ≠ 0 := fun hzero => hpos (hnull hzero)
  rw [if_neg hne] at hkept'
  exact ⟨hne, hkept'.sound⟩

theorem run_serves_exampleBoot : ∃ answers s,
    run step exampleOps 0x20000 (start exampleBoot (fun _ => 0) 0) = .done answers s ∧
      s.firstBytes = [(0x10007000, [1, 2, 3]), (0x10005010, [4, 5, 6])] ∧
      Ensures 0x20000 (heap (mallocUnlocked 700)) s
        (fun ptr s' => ptr ≠ 0 ∧
          ({ s' with blocks := s'.mem.block ptr 700 [] :: s.blocks } : HeapSystem).Sound)
        fun s' => s'.mem.vmm.Exhausted (pagesNeeded 700) := by
  obtain ⟨answers, s, hguarded, hblocks⟩ := Outcome.exists_of_shown exampleOps_run
  obtain ⟨hops, hrun⟩ := permitted_of_guarded hguarded
  exact ⟨answers, s, hrun, hblocks,
    run_serves booted_exampleBoot (fun _ => 0) 0 (by decide) hops hrun (by decide) (by decide)⟩

/-- Nothing leaks. -/
theorem run_clean (hboot : Booted kernelEnd boot) (phys : UInt32 → UInt8) (cachesAt : UInt32)
    {ops : List HeapOp} (hn : 0x10000 < n)
    (hops : Permitted n step Ok (start boot phys cachesAt) ops) :
    Ensures n (run step ops) (start boot phys cachesAt)
      (fun _ s => s.blocks = [] → s.regions = [] → s.Clean boot) fun _ => True := by
  have hrun := ensures_run (fun _ _ h hok => Kept.step hboot h hok hn)
    (Kept.start hboot phys cachesAt) hops
  exact hrun.mono (fun _ _ h => h.clean) fun _ _ => trivial

/-- Everything is given back. -/
def exampleFrees : List HeapOp :=
  exampleOps ++ [.free 0x10005010, .page (.free ⟨.pages, 3, 2⟩), .free 0x10007000]

set_option maxRecDepth 10000 in
theorem exampleFrees_run : (run (guarded step Ok) exampleFrees 0x20000
    (start exampleBoot (fun _ => 0) 0)).shown (fun s => (s.firstBytes, s.regions)) =
      some ([], []) := by
  refine Eq.substr (p := fun f => (run (guarded f Ok) exampleFrees 0x20000
    (start exampleBoot (fun _ => 0) 0)).shown (fun s => (s.firstBytes, s.regions)) =
      some ([], [])) (a := ?f) ?h ?_
  case h =>
    conv_lhs =>
      delta step heap mallocUnlocked freeUnlocked reallocUnlocked moveBlock mallocUnlocked
        mallocLarge slabAlloc slabGrow slabFree owningCache popSlot store32
      rw [memset_eq 3, memcpy_eq 2, storeBytes_eq, chainSlots_eq]
  decide +kernel

theorem run_clean_exampleBoot : ∃ answers s,
    run step exampleFrees 0x20000 (start exampleBoot (fun _ => 0) 0) = .done answers s ∧
      s.Clean exampleBoot := by
  obtain ⟨answers, s, hguarded, hnothing⟩ := Outcome.exists_of_shown exampleFrees_run
  obtain ⟨hops, hrun⟩ := permitted_of_guarded hguarded
  obtain ⟨hblocks, hregions⟩ := Prod.mk.inj hnothing
  refine ⟨answers, s, hrun, ?_⟩
  exact (run_clean booted_exampleBoot (fun _ => 0) 0 (by decide) hops).of_done hrun
    (List.map_eq_nil_iff.mp hblocks) hregions

end HeapSystem

end AvrKernel.Memory

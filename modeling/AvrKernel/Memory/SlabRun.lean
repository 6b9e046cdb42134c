import AvrKernel.Memory.Filling
import AvrKernel.Memory.HeapSteps

/-!
# Runs of a cache

One cache of objects of any size for which a page has a slot. Its callers take objects, write to
them and give them back, while others do the same with pages.
-/

namespace AvrKernel.Memory

open Comp

/-- Memory with a cache, the regions of pages that are held besides, and the objects that callers
of the cache hold. -/
structure SlabSystem where
  mem : KernelMemory
  regions : List Region
  live : List UInt32

inductive SlabOp
  | alloc
  | free (ptr : UInt32)
  | write (ptr : UInt32) (offset : Nat) (values : List UInt8)
  | page (op : PageOp)

/-- An object of the page is at the address. -/
def Slab.Object (q : Slab) (size : Nat) (ptr : UInt32) : Prop :=
  ∃ x, q.LiveSlot size x ∧ ptr = areaAddress x

namespace SlabSystem

/-- A function of the cache. -/
def slab {α : Type} (c : MemM α) : Comp SlabSystem α :=
  zoom SlabSystem.mem (fun mem s => { s with mem }) c

/-- What callers of the virtual memory manager do. -/
def pages {α : Type} (c : Comp PageSystem α) : Comp SlabSystem α :=
  zoom (fun s => ⟨s.mem.vmm, s.regions⟩)
    (fun p s => { s with mem := { s.mem with vmm := p.vmm }, regions := p.regions }) c

def step : SlabOp → Comp SlabSystem Unit
  | .alloc => do
      let ptr ← slab (slabAlloc 0)
      modify fun s => { s with live := if ptr = 0 then s.live else ptr :: s.live }
  | .free ptr => do
      slab (slabFree 0 ptr)
      modify fun s => { s with live := s.live.erase ptr }
  | .write ptr offset values => slab (storeBytes (ptr + .ofNat offset) values)
  | .page op => pages (PageSystem.step op)

/-- Only objects are given back, and writes stay in them. -/
def Ok (s : SlabSystem) : SlabOp → Prop
  | .alloc => True
  | .free ptr => ptr ∈ s.live
  | .write ptr offset values =>
      ptr ∈ s.live ∧ offset + values.length ≤ (s.mem.caches 0).objectSize.toNat
  | .page op => PageSystem.Ok ⟨s.mem.vmm, s.regions⟩ op

instance (s : SlabSystem) (op : SlabOp) : Decidable (s.Ok op) :=
  match op with
  | .alloc => isTrue trivial
  | .free ptr => inferInstanceAs (Decidable (ptr ∈ s.live))
  | .write ptr offset values => inferInstanceAs
      (Decidable (ptr ∈ s.live ∧ offset + values.length ≤ (s.mem.caches 0).objectSize.toNat))
  | .page op => inferInstanceAs (Decidable (PageSystem.Ok ⟨s.mem.vmm, s.regions⟩ op))

/-- The kernel after boot, with an empty cache. -/
def start (boot : VmmState) (phys : UInt32 → UInt8) (cachesAt objectSize : UInt32) : SlabSystem :=
  ⟨⟨boot, phys, fun _ => ⟨objectSize, 0⟩, cachesAt, none⟩, [], []⟩

/-- The cache lies in memory: its pages are those of `slabs`, linked in this order, each with a slot
in use. The objects of the callers are the slots in use. -/
structure At (boot : VmmState) (size : Nat) (s : SlabSystem) (V : MemView) (slabs : List Slab) :
    Prop where
  shows : s.mem.Shows boot V
  cached : V.Cached 0 slabs
  sized : V.slotSize 0 = size
  used : ∀ q ∈ slabs, q.free.length < slotCount size
  holds : V.space.Holds (s.regions ++ slabs.map Slab.region)
  supply : V.space.pool.supply = boot.pmm.freeFrames
  nodup : s.live.Nodup
  live : ∀ ptr, ptr ∈ s.live ↔ ∃ q ∈ slabs, q.Object size ptr

def Kept (boot : VmmState) (size : Nat) (s : SlabSystem) : Prop :=
  ∃ V slabs, At boot size s V slabs

end SlabSystem

/-! ## Objects -/

section Objects

variable {boot : VmmState} {size page slot x n : Nat} {free : List Nat} {q : Slab}
  {pre post slabs : List Slab} {ptr kernelEnd : UInt32} {V W : MemView} {s : SlabSystem}

theorem Slab.size_pos (hslot : slot < slotCount size) : 0 < size := by
  refine Nat.pos_of_ne_zero ?_
  rintro rfl
  exact absurd hslot (by simp [slotCount])

theorem Slab.LiveSlot.bounds (h : q.LiveSlot size x) (hpage : q.page < 0x10000) :
    q.page * 4096 + 16 ≤ x ∧ x + size ≤ (q.page + 1) * 4096 ∧ x < 0x10000000 := by
  obtain ⟨slot, hslot, -, rfl⟩ := h
  have hend := slot_end hslot
  have hpos := Slab.size_pos hslot
  simp only [slotAt]
  omega

theorem Slab.Object.pageOf (h : q.Object size ptr) (hpage : q.page < 0x10000) :
    PageSystem.pageOf ptr = q.page := by
  obtain ⟨x, hlive, rfl⟩ := h
  have hbounds := hlive.bounds hpage
  obtain ⟨slot, hslot, -, rfl⟩ := hlive
  have hpos := Slab.size_pos hslot
  rw [pageOf_areaAddress hbounds.2.2]
  omega

theorem Slab.LiveSlot.not_own {y : Nat} (h : q.LiveSlot size x) (hy : q.Own size y) :
    y < x ∨ x + size ≤ y := by
  obtain ⟨slot, hslot, hnot, rfl⟩ := h
  rcases hy with ⟨-, hheader⟩ | ⟨slot', hfree, hle, hlt⟩
  · simp only [slotAt]
    omega
  · have hslots : slot ≠ slot' := fun hsame => hnot (hsame ▸ hfree)
    have hapart := slotAt_apart q.page size hslots
    omega

theorem Slab.object_pop (hslot : slot < slotCount size) (hfree : slot ∉ free) :
    (⟨page, free⟩ : Slab).Object size ptr ↔
      ptr = areaAddress (slotAt page size slot) ∨
        (⟨page, slot :: free⟩ : Slab).Object size ptr := by
  simp only [Object, liveSlot_pop hslot hfree]
  constructor
  · rintro ⟨x, rfl | hlive, rfl⟩
    · exact .inl rfl
    · exact .inr ⟨x, hlive, rfl⟩
  · rintro (rfl | ⟨x, hlive, rfl⟩)
    · exact ⟨_, .inl rfl, rfl⟩
    · exact ⟨x, .inr hlive, rfl⟩

theorem Slab.not_object_cons (hpage : page < 0x10000) (hsize : 0 < size)
    (hslot : slot < slotCount size) :
    ¬ (⟨page, slot :: free⟩ : Slab).Object size (areaAddress (slotAt page size slot)) := by
  rintro ⟨x, hlive, heq⟩
  have hbounds := hlive.bounds hpage
  obtain ⟨slot', hslot', hnot, rfl⟩ := hlive
  have hend := slot_end hslot
  have hplace : slotAt page size slot = slotAt page size slot' :=
    (areaAddress_inj (by simp only [slotAt]; omega) hbounds.2.2).mp heq
  have hne : slot ≠ slot' := fun hsame => hnot (hsame ▸ List.mem_cons_self)
  have hapart := slotAt_apart page size hne
  omega

theorem objects_insert : (∃ q' ∈ pre ++ q :: post, q'.Object size ptr) ↔
    q.Object size ptr ∨ ∃ q' ∈ pre ++ post, q'.Object size ptr := by
  simp only [List.mem_append, List.mem_cons]
  constructor
  · rintro ⟨q', hpre | rfl | hpost, hobject⟩
    · exact .inr ⟨q', .inl hpre, hobject⟩
    · exact .inl hobject
    · exact .inr ⟨q', .inr hpost, hobject⟩
  · rintro (hobject | ⟨q', hpre | hpost, hobject⟩)
    · exact ⟨q, .inr (.inl rfl), hobject⟩
    · exact ⟨q', .inl hpre, hobject⟩
    · exact ⟨q', .inr (.inr hpost), hobject⟩

theorem MemView.Cached.object_page (hc : V.Cached 0 (pre ++ q :: post)) {vmm : VmmState}
    (hs : vmm.Shows V.space) (hobject : q.Object size ptr) :
    ¬ ∃ q' ∈ pre ++ post, q'.Object size ptr := by
  rintro ⟨q', hq', hobject'⟩
  have hside := List.mem_append.mp hq'
  have hlt := hc.lt hs (show q ∈ pre ++ q :: post by simp)
  have hlt' : q'.page < 0x10000 := hc.lt hs <| by
    rw [List.mem_append, List.mem_cons]
    exact hside.imp id .inr
  exact hc.page_ne hside ((hobject'.pageOf hlt').symm.trans (hobject.pageOf hlt))

theorem Slab.not_object_of_full (hnodup : q.free.Nodup)
    (hlt : ∀ slot ∈ q.free, slot < slotCount size) (hfull : q.free.length = slotCount size) :
    ¬ q.Object size ptr := by
  rintro ⟨x, hlive, -⟩
  exact not_liveSlot_of_full hnodup hlt hfull hlive

/-- Unless all slots are free, there is one with an object. -/
theorem exists_slot (h : free.length < slotCount size) : ∃ slot < slotCount size, slot ∉ free := by
  by_contra hall
  have hfull : List.range (slotCount size) ⊆ free := by
    intro slot hslot
    by_contra hnot
    exact hall ⟨slot, List.mem_range.mp hslot, hnot⟩
  have hlength := (List.subperm_of_subset List.nodup_range hfull).length_le
  rw [List.length_range] at hlength
  omega

theorem regions_insert {regions : List Region} :
    (regions ++ (pre ++ q :: post).map Slab.region).Perm
      (q.region :: (regions ++ (pre ++ post).map Slab.region)) := by
  have hmiddle : (pre ++ q :: post).Perm (q :: (pre ++ post)) := List.perm_middle
  refine ((hmiddle.map Slab.region).append_left regions).trans ?_
  rw [List.map_cons]
  exact List.perm_middle

end Objects

/-! ## Steps -/

namespace SlabSystem

variable {boot : VmmState} {size n slot : Nat} {page : Nat} {free : List Nat}
  {pre post slabs : List Slab} {ptr kernelEnd objectSize : UInt32} {V W : MemView}
  {s : SlabSystem} {mem : KernelMemory} {op : SlabOp}

theorem At.size_pos (h : s.At boot size V slabs) : 4 ≤ size ∧ size ≤ 4080 :=
  h.sized ▸ ⟨h.cached.least, h.cached.most⟩

/-- A slot that was free holds one object more. -/
theorem At.taken (h : s.At boot size V slabs) (hmem : mem.Shows boot W)
    (hcached : W.Cached 0 (pre ++ ⟨page, free⟩ :: post)) (hsize : W.slotSize 0 = size)
    (hslot : slot < slotCount size) (hfree : slot ∉ free)
    (hlive : ∀ ptr, ptr ∈ s.live ↔ (⟨page, slot :: free⟩ : Slab).Object size ptr ∨
      ∃ q ∈ pre ++ post, q.Object size ptr)
    (hused : ∀ q ∈ pre ++ post, q.free.length < slotCount size)
    (hlength : free.length < slotCount size)
    (hholds : W.space.Holds (s.regions ++ (pre ++ ⟨page, free⟩ :: post).map Slab.region))
    (hsupply : W.space.pool.supply = boot.pmm.freeFrames) :
    At boot size
      { s with mem, live := areaAddress (slotAt page size slot) :: s.live } W
      (pre ++ ⟨page, free⟩ :: post) := by
  have hpos := h.size_pos
  have hq : (⟨page, free⟩ : Slab) ∈ pre ++ ⟨page, free⟩ :: post := by simp
  have hpage : page < 0x10000 := hcached.lt hmem.space hq
  have hnew : (⟨page, free⟩ : Slab).Object size (areaAddress (slotAt page size slot)) :=
    ⟨_, ⟨slot, hslot, hfree, rfl⟩, rfl⟩
  refine ⟨hmem, hcached, hsize, fun q hq => ?_, hholds, hsupply, ?_, fun ptr => ?_⟩
  · rw [List.mem_append, List.mem_cons] at hq
    rcases hq with hpre | rfl | hpost
    · exact hused q (List.mem_append_left post hpre)
    · exact hlength
    · exact hused q (List.mem_append_right pre hpost)
  · rw [List.nodup_cons, hlive]
    exact ⟨fun hold => hold.elim (Slab.not_object_cons hpage (by omega) hslot)
      (hcached.object_page hmem.space hnew), h.nodup⟩
  · rw [objects_insert, Slab.object_pop hslot hfree, List.mem_cons, hlive, or_assoc]

theorem Kept.step_alloc (h : s.Kept boot size) (hn : 0x10000 < n) :
    Ensures n (step .alloc) s (fun _ s' => s'.Kept boot size) (Kept boot size) := by
  obtain ⟨V, slabs, h⟩ := h
  have hpos := h.size_pos
  rw [step, ensures_bind, slab, ensures_zoom]
  refine (h.shows.slabAlloc h.cached hn).mono ?_ ?_
  · rintro ptr mem ⟨page, slot, slabs', W, rfl, hW, htaken⟩
    obtain ⟨pre, free, post, rfl, -, hcase⟩ := htaken.slot
    have hq : (⟨page, free⟩ : Slab) ∈ pre ++ ⟨page, free⟩ :: post := by simp
    have hpage : page < 0x10000 := htaken.cached.lt hW.space hq
    have hsize : W.slotSize 0 = size := htaken.size.trans h.sized
    rw [ensures_modify, h.sized]
    rcases hcase with ⟨rfl, hspace⟩ | ⟨rfl, rfl, -, hslots, hlowest, hpageTaken⟩
    · have hlaid := h.cached.laid (show (⟨page, slot :: free⟩ : Slab) ∈ _ by simp)
      rw [h.sized] at hlaid
      obtain ⟨hfree, -⟩ := List.nodup_cons.mp hlaid.nodup
      have hslot : slot < slotCount size := hlaid.list.lt slot List.mem_cons_self
      have hlength := h.used ⟨page, slot :: free⟩ (by simp)
      have hend := slot_end hslot
      rw [if_neg (areaAddress_ne_zero (by simp only [slotAt]; omega))]
      refine ⟨W, _, h.taken hW htaken.cached hsize hslot hfree (fun ptr => ?_) (fun q hq => ?_)
        (Nat.lt_of_succ_lt hlength) ?_ (hspace ▸ h.supply)⟩
      · rw [h.live, objects_insert]
      · apply h.used
        rw [List.mem_append, List.mem_cons]
        exact (List.mem_append.mp hq).imp id .inr
      · have hholds := h.holds
        rw [hspace]
        simpa [Slab.region] using hholds
    · -- the first slot of a new page
      rw [h.sized] at hslots
      have hrange : (slot :: free).Nodup ∧ (slot :: free).length = slotCount size ∧
          ∀ i ∈ slot :: free, i < slotCount size := by
        rw [hslots]
        exact ⟨List.nodup_range', by simp, fun i hi => by simpa using (List.mem_range'_1.mp hi).2⟩
      obtain ⟨hnodup, hlength, hlt⟩ := hrange
      have hslot := hlt slot List.mem_cons_self
      have hend := slot_end hslot
      rw [if_neg (areaAddress_ne_zero (by simp only [slotAt]; omega))]
      refine ⟨W, _, h.taken hW htaken.cached hsize hslot (List.nodup_cons.mp hnodup).1
        (fun ptr => ?_) h.used (by rw [← hlength]; simp) ?_ (hpageTaken.supply.trans h.supply)⟩
      · rw [h.live, or_iff_right]
        · rfl
        · exact Slab.not_object_of_full hnodup hlt hlength
      · refine Space.Holds.perm ?_ regions_insert.symm
        refine h.holds.cons Nat.one_pos hlowest.fits (fun other hin => ?_) hpageTaken.outside
          fun other hin => hpageTaken.inside other hin.1 hin.2
        exact Space.use_of_run hlowest.run hin.1 hin.2
  · rintro mem ⟨hmem, -⟩
    exact ⟨V, slabs, hmem, h.cached, h.sized, h.used, h.holds, h.supply, h.nodup, h.live⟩

theorem At.live_erase (h : s.At boot size V (pre ++ ⟨page, free⟩ :: post))
    (hslot : slot < slotCount size) (hnot : slot ∉ free) :
    ptr ∈ s.live.erase (areaAddress (slotAt page size slot)) ↔
      (⟨page, slot :: free⟩ : Slab).Object size ptr ∨ ∃ q ∈ pre ++ post, q.Object size ptr := by
  have hpos := h.size_pos
  have hpage : page < 0x10000 :=
    h.cached.lt h.shows.space (show (⟨page, free⟩ : Slab) ∈ pre ++ ⟨page, free⟩ :: post by simp)
  have hobject : (⟨page, free⟩ : Slab).Object size (areaAddress (slotAt page size slot)) :=
    ⟨_, ⟨slot, hslot, hnot, rfl⟩, rfl⟩
  rw [h.nodup.mem_erase_iff, h.live, objects_insert, Slab.object_pop hslot hnot, or_assoc]
  constructor
  · rintro ⟨hne, heq | hrest⟩
    · exact absurd heq hne
    · exact hrest
  · intro hrest
    refine ⟨?_, .inr hrest⟩
    rintro rfl
    exact hrest.elim (Slab.not_object_cons hpage (by omega) hslot)
      (h.cached.object_page h.shows.space hobject)

/-- The last object of a page is the only one in it. -/
theorem At.not_object_last (h : s.At boot size V (pre ++ ⟨page, free⟩ :: post))
    (hslot : slot < slotCount size) (hnot : slot ∉ free)
    (hlast : free.length + 1 = slotCount size) :
    ¬ (⟨page, slot :: free⟩ : Slab).Object size ptr := by
  have hlaid := h.cached.laid
    (show (⟨page, free⟩ : Slab) ∈ pre ++ ⟨page, free⟩ :: post by simp)
  rw [h.sized] at hlaid
  refine Slab.not_object_of_full (List.nodup_cons.mpr ⟨hnot, hlaid.nodup⟩) (fun i hi => ?_) hlast
  rcases List.mem_cons.mp hi with rfl | hi
  · exact hslot
  · exact hlaid.list.lt i hi

/-- An object that is given back is a free slot again, or its whole page is given up. -/
theorem Kept.step_free (h : s.Kept boot size) (hptr : ptr ∈ s.live) (hn : 0x10000 < n) :
    Ensures n (step (.free ptr)) s (fun _ s' => s'.Kept boot size) (Kept boot size) := by
  obtain ⟨V, slabs, h⟩ := h
  obtain ⟨⟨page, free⟩, hq, x, ⟨slot, hslot, hnot, rfl⟩, rfl⟩ := (h.live ptr).mp hptr
  obtain ⟨pre, post, rfl⟩ := List.append_of_mem hq
  have hsize := h.sized
  subst hsize
  rw [step, ensures_bind, slab, ensures_zoom]
  refine (h.shows.slabFree h.cached hslot hnot hn).imp ?_
  rintro - mem ⟨slabs', W, hW, hfreed⟩
  rw [ensures_modify]
  have hrest : ∀ q ∈ pre ++ post, q.free.length < slotCount (V.slotSize 0) := by
    intro q hq
    apply h.used
    rw [List.mem_append, List.mem_cons]
    exact (List.mem_append.mp hq).imp id .inr
  rcases hfreed.slabs with ⟨hmore, rfl, hspace⟩ | ⟨hlast, rfl, hvacated⟩
  · refine ⟨W, _, hW, hfreed.cached, hfreed.size, fun q hq => ?_, ?_, hspace ▸ h.supply,
      h.nodup.erase _, fun ptr => ?_⟩
    · rw [List.mem_append, List.mem_cons] at hq
      rcases hq with hpre | rfl | hpost
      · exact hrest q (List.mem_append_left post hpre)
      · exact hmore
      · exact hrest q (List.mem_append_right pre hpost)
    · have hholds := h.holds
      rw [hspace]
      simpa [Slab.region] using hholds
    · rw [h.live_erase hslot hnot, objects_insert]
  · refine ⟨W, _, hW, hfreed.cached, hfreed.size, hrest, ?_, hvacated.supply.trans h.supply,
      h.nodup.erase _, fun ptr => ?_⟩
    · have herased := (h.holds.perm regions_insert).erase List.mem_cons_self hvacated.outside
        fun page hin => hvacated.inside page hin.1 hin.2
      rwa [List.erase_cons_head] at herased
    · rw [h.live_erase hslot hnot, or_iff_right (h.not_object_last hslot hnot hlast)]

/-- What a caller writes to its object is not seen by the cache. -/
theorem Kept.step_write {offset : Nat} {values : List UInt8} (h : s.Kept boot size)
    (hok : s.Ok (.write ptr offset values)) :
    Ensures n (step (.write ptr offset values)) s (fun _ s' => s'.Kept boot size)
      (Kept boot size) := by
  obtain ⟨V, slabs, h⟩ := h
  obtain ⟨hptr, hfits⟩ := hok
  obtain ⟨q, hq, x, hlive, rfl⟩ := (h.live ptr).mp hptr
  have hbounds := hlive.bounds (h.cached.lt h.shows.space hq)
  obtain ⟨frame, huse⟩ := h.cached.backed q hq
  have hsize : (s.mem.caches 0).objectSize.toNat = size := by
    rw [h.shows.caches]
    exact h.sized
  rw [step, slab, ensures_zoom, areaAddress_add]
  refine (h.shows.storeBytes ((Space.backed_page huse).sub (by omega) (by omega))).imp ?_
  rintro - mem hmem
  refine ⟨_, slabs, hmem, h.cached.frame rfl rfl (fun _ _ => rfl) fun q' hq' y hy => ?_, h.sized,
    h.used, h.holds, h.supply, h.nodup, h.live⟩
  apply MemView.bytes_write_of_not_mem
  intro hin
  have hpage := (h.cached.laid hq').own_page hy
  obtain rfl : q' = q :=
    List.inj_on_of_nodup_map h.cached.distinct hq' hq (by omega)
  rw [h.sized] at hy
  have hout := hlive.not_own hy
  omega

/-- What happens to other pages does not concern the cache. -/
theorem Kept.step_page {pageOp : PageOp} (hboot : Booted kernelEnd boot) (h : s.Kept boot size)
    (hok : s.Ok (.page pageOp)) :
    Ensures n (step (.page pageOp)) s (fun _ s' => s'.Kept boot size) (Kept boot size) := by
  obtain ⟨V, slabs, h⟩ := h
  have hzero : 0 ∉ V.space.pool.supply := h.supply ▸ hboot.zero_not_free
  have hown : ∀ q ∈ slabs, ∀ y, q.Own (V.slotSize 0) y →
      y / 4096 = q.page ∧ V.space.Backed y := by
    intro q hq y hy
    have hpage := (h.cached.laid hq).own_page hy
    obtain ⟨frame, huse⟩ := h.cached.backed q hq
    exact ⟨hpage, frame, hpage ▸ huse⟩
  rw [step, pages, ensures_zoom]
  refine (PageSystem.step_held h.shows.space h.holds hzero hok).mono ?_ ?_
  · rintro - p ⟨hsame, T, hT, hholds, hsupply, huse⟩
    obtain ⟨bytes, hbytes, hmem⟩ := h.shows.repage hT hsame
    have hpages : ∀ q ∈ slabs, T.use q.page = V.space.use q.page := fun q hq =>
      huse q.region (List.mem_map_of_mem hq) q.page (Slab.region_contains.mpr rfl)
    refine ⟨_, slabs, hmem, h.cached.frame rfl rfl hpages fun q hq y hy => ?_, h.sized, h.used,
      hholds, hsupply.trans h.supply, h.nodup, h.live⟩
    obtain ⟨hpage, hback⟩ := hown q hq y hy
    exact hbytes y hback (hpage ▸ hpages q hq)
  · rintro p ⟨hregions, hvmm, hsame⟩
    obtain ⟨bytes, hbytes, hmem⟩ := h.shows.repage hvmm hsame
    refine ⟨_, slabs, hmem, h.cached.frame rfl rfl (fun _ _ => rfl) fun q hq y hy => ?_, h.sized,
      h.used, hregions ▸ h.holds, h.supply, h.nodup, h.live⟩
    exact hbytes y (hown q hq y hy).2 rfl

theorem Kept.step (hboot : Booted kernelEnd boot) (h : s.Kept boot size) (hok : s.Ok op)
    (hn : 0x10000 < n) :
    Ensures n (step op) s (fun _ s' => s'.Kept boot size) (Kept boot size) := by
  cases op with
  | alloc => exact h.step_alloc hn
  | free ptr => exact h.step_free hok hn
  | write ptr offset values => exact h.step_write hok
  | page pageOp => exact h.step_page hboot hok

theorem Kept.start (hboot : Booted kernelEnd boot) (phys : UInt32 → UInt8) (cachesAt : UInt32)
    (hlow : 4 ≤ objectSize.toNat) (hhigh : objectSize.toNat ≤ 4080) :
    (start boot phys cachesAt objectSize).Kept boot objectSize.toNat :=
  ⟨⟨Space.empty boot.pmm.freeFrames, fun x => phys (boot.tables.vmmGetPhysAddr (areaAddress x)),
      fun _ => ⟨objectSize, 0⟩, cachesAt⟩, [],
    ⟨hboot.shows, fun _ _ => rfl, rfl, rfl, .refl boot, rfl⟩,
    ⟨rfl, by simp, List.nodup_nil, hlow, hhigh⟩, rfl, by simp, Space.Holds.nil _,
    Space.supply_empty _, List.nodup_nil, by simp [SlabSystem.start]⟩

/-! ## What the cache is -/

/-- The pages in the list of the cache are those with objects. The slots of each of them are either
free or objects, and `num_allocated` counts these. No check has failed, and a page is given up
exactly when its last object is. -/
structure Partitioned (boot : VmmState) (n size : Nat) (s : SlabSystem) : Prop where
  laid : ∃ V slabs, At boot size s V slabs ∧
    (∀ page, page ∈ slabs.map Slab.page ↔ ∃ ptr ∈ s.live, PageSystem.pageOf ptr = page) ∧
    ∀ q ∈ slabs, q.Laid V size (cacheAddress V.cachesAt 0) ∧
      (∀ slot < slotCount size,
        slot ∈ q.free ↔ areaAddress (slotAt q.page size slot) ∉ s.live) ∧
      (V.word (4096 * q.page + 4)).toNat =
        (s.live.filter fun ptr => PageSystem.pageOf ptr = q.page).length
  header : ∀ ptr ∈ s.live, 16 ≤ ptr.toNat % 4096 ∧ ptr.toNat % 4096 + size ≤ 4096
  crash : s.mem.crash = none
  given : ∀ ptr ∈ s.live, Ensures n (slabFree 0 ptr) s.mem
    (fun _ mem => ∀ page < virtPages, mem.vmm.bit page = true ↔ s.mem.vmm.bit page = true ∧
      ¬ (page = PageSystem.pageOf ptr ∧
        ∀ other ∈ s.live, PageSystem.pageOf other = page → other = ptr)) fun _ => False

theorem At.object_iff {q : Slab} (h : s.At boot size V slabs) (hq : q ∈ slabs)
    (hslot : slot < slotCount size) :
    slot ∈ q.free ↔ areaAddress (slotAt q.page size slot) ∉ s.live := by
  obtain ⟨pre, post, rfl⟩ := List.append_of_mem hq
  have hpage : q.page < 0x10000 := h.cached.lt h.shows.space hq
  have hpos := h.size_pos
  rw [h.live, objects_insert]
  constructor
  · rintro hfree (⟨x, hlive, heq⟩ | ⟨q', hq', hobject⟩)
    · have hsame : (⟨q.page, slot :: q.free⟩ : Slab).Object size
          (areaAddress (slotAt q.page size slot)) := by
        obtain ⟨slot', hslot', hnot, rfl⟩ := hlive
        refine ⟨_, ⟨slot', hslot', ?_, rfl⟩, heq⟩
        rw [List.mem_cons, not_or]
        exact ⟨fun hsame => hnot (hsame ▸ hfree), hnot⟩
      exact Slab.not_object_cons hpage (by omega) hslot hsame
    · have hmine : (⟨q.page, []⟩ : Slab).Object size (areaAddress (slotAt q.page size slot)) :=
        ⟨_, ⟨slot, hslot, by simp, rfl⟩, rfl⟩
      have hside := List.mem_append.mp hq'
      have hlt' : q'.page < 0x10000 := h.cached.lt h.shows.space <| by
        rw [List.mem_append, List.mem_cons]
        exact hside.imp id .inr
      exact h.cached.page_ne hside ((hobject.pageOf hlt').symm.trans (hmine.pageOf hpage))
  · intro hnone
    by_contra hnot
    exact hnone (.inl ⟨_, ⟨slot, hslot, hnot, rfl⟩, rfl⟩)

theorem At.pageOf_mem (h : s.At boot size V slabs) (page : Nat) :
    page ∈ slabs.map Slab.page ↔ ∃ ptr ∈ s.live, PageSystem.pageOf ptr = page := by
  rw [List.mem_map]
  constructor
  · rintro ⟨q, hq, rfl⟩
    obtain ⟨slot, hslot, hnot⟩ := exists_slot (h.used q hq)
    have hobject : q.Object size (areaAddress (slotAt q.page size slot)) :=
      ⟨_, ⟨slot, hslot, hnot, rfl⟩, rfl⟩
    exact ⟨_, (h.live _).mpr ⟨q, hq, hobject⟩, hobject.pageOf (h.cached.lt h.shows.space hq)⟩
  · rintro ⟨ptr, hptr, rfl⟩
    obtain ⟨q, hq, hobject⟩ := (h.live ptr).mp hptr
    exact ⟨q, hq, (hobject.pageOf (h.cached.lt h.shows.space hq)).symm⟩

/-- The slots of a page that are in use are counted by its objects. -/
theorem At.count {q : Slab} (h : s.At boot size V slabs) (hq : q ∈ slabs) :
    (s.live.filter fun ptr => PageSystem.pageOf ptr = q.page).length =
      slotCount size - q.free.length := by
  have hpage : q.page < 0x10000 := h.cached.lt h.shows.space hq
  have hpos := h.size_pos
  have hlaid := h.cached.laid hq
  rw [h.sized] at hlaid
  have hplace : ∀ slot < slotCount size, slotAt q.page size slot < 0x10000000 := by
    intro slot hslot
    have hend := slot_end hslot
    simp only [slotAt]
    omega
  have hinj : ∀ slot < slotCount size, ∀ slot' < slotCount size,
      areaAddress (slotAt q.page size slot) = areaAddress (slotAt q.page size slot') →
        slot = slot' := by
    intro slot hslot slot' hslot' heq
    rw [areaAddress_inj (hplace slot hslot) (hplace slot' hslot')] at heq
    by_contra hne
    have hapart := slotAt_apart q.page size hne
    omega
  have hobjects : (s.live.filter fun ptr => PageSystem.pageOf ptr = q.page).Perm
      (((List.range (slotCount size)).filter (· ∉ q.free)).map fun slot =>
        areaAddress (slotAt q.page size slot)) := by
    rw [List.perm_ext_iff_of_nodup (h.nodup.filter _)
      ((List.nodup_range.filter _).map_on fun slot hslot slot' hslot' => ?_)]
    · intro ptr
      simp only [List.mem_filter, List.mem_map, List.mem_range, decide_eq_true_eq]
      constructor
      · rintro ⟨hptr, hsame⟩
        obtain ⟨q', hq', hobject⟩ := (h.live ptr).mp hptr
        have hpage' := hobject.pageOf (h.cached.lt h.shows.space hq')
        obtain rfl : q' = q :=
          List.inj_on_of_nodup_map h.cached.distinct hq' hq (hpage'.symm.trans hsame)
        obtain ⟨x, ⟨slot, hslot, hnot, rfl⟩, rfl⟩ := hobject
        exact ⟨slot, ⟨hslot, hnot⟩, rfl⟩
      · rintro ⟨slot, ⟨hslot, hnot⟩, rfl⟩
        have hobject : q.Object size (areaAddress (slotAt q.page size slot)) :=
          ⟨_, ⟨slot, hslot, hnot, rfl⟩, rfl⟩
        exact ⟨(h.live _).mpr ⟨q, hq, hobject⟩, hobject.pageOf hpage⟩
    · simp only [List.mem_filter, List.mem_range] at hslot hslot'
      exact hinj slot hslot.1 slot' hslot'.1
  have hfree : ((List.range (slotCount size)).filter (· ∈ q.free)).Perm q.free := by
    rw [List.perm_ext_iff_of_nodup (List.nodup_range.filter _) hlaid.nodup]
    intro slot
    simp only [List.mem_filter, List.mem_range, decide_eq_true_eq]
    exact ⟨And.right, fun hfree => ⟨hlaid.list.lt slot hfree, hfree⟩⟩
  have hsplit := List.length_eq_length_filter_add (l := List.range (slotCount size))
    fun slot => decide (slot ∈ q.free)
  rw [List.length_range, hfree.length_eq] at hsplit
  rw [hobjects.length_eq, List.length_map]
  simp only [decide_not]
  omega

theorem At.given (h : s.At boot size V slabs) (hptr : ptr ∈ s.live) (hn : 0x10000 < n) :
    Ensures n (slabFree 0 ptr) s.mem
      (fun _ mem => ∀ page < virtPages, mem.vmm.bit page = true ↔ s.mem.vmm.bit page = true ∧
        ¬ (page = PageSystem.pageOf ptr ∧
          ∀ other ∈ s.live, PageSystem.pageOf other = page → other = ptr)) fun _ => False := by
  obtain ⟨⟨page, free⟩, hq, x, ⟨slot, hslot, hnot, rfl⟩, rfl⟩ := (h.live ptr).mp hptr
  obtain ⟨pre, post, rfl⟩ := List.append_of_mem hq
  have hsize := h.sized
  subst hsize
  have hpage : page < 0x10000 := h.cached.lt h.shows.space hq
  have hmine : (⟨page, free⟩ : Slab).Object (V.slotSize 0)
      (areaAddress (slotAt page (V.slotSize 0) slot)) := ⟨_, ⟨slot, hslot, hnot, rfl⟩, rfl⟩
  rw [hmine.pageOf hpage]
  -- the other objects of the page are those of its other slots
  have hothers : (∀ other ∈ s.live, PageSystem.pageOf other = page →
      other = areaAddress (slotAt page (V.slotSize 0) slot)) ↔
        ∀ other, ¬ (⟨page, slot :: free⟩ : Slab).Object (V.slotSize 0) other := by
    constructor
    · intro hall other hobject
      have hold := (Slab.object_pop hslot hnot).mpr (.inr hobject)
      rw [hall other ((h.live other).mpr ⟨_, hq, hold⟩) (hold.pageOf hpage)] at hobject
      exact Slab.not_object_cons hpage (by have := h.size_pos; omega) hslot hobject
    · intro hnone other hlive hsame
      obtain ⟨q', hq', hobject⟩ := (h.live other).mp hlive
      have hpage' := hobject.pageOf (h.cached.lt h.shows.space hq')
      obtain rfl : q' = ⟨page, free⟩ :=
        List.inj_on_of_nodup_map h.cached.distinct hq' hq (hpage'.symm.trans hsame)
      exact ((Slab.object_pop hslot hnot).mp hobject).resolve_right (hnone other)
  refine (h.shows.slabFree h.cached hslot hnot hn).imp ?_
  rintro - mem ⟨slabs', W, hW, hfreed⟩ other hother
  rw [hW.space.bit other hother, h.shows.space.bit other hother]
  rcases hfreed.slabs with ⟨hmore, -, hspace⟩ | ⟨hlast, -, hvacated⟩
  · obtain ⟨slot', hslot', hnot'⟩ : ∃ slot' < slotCount (V.slotSize 0), slot' ∉ slot :: free :=
      exists_slot hmore
    rw [hspace, iff_self_and]
    rintro - ⟨rfl, hall⟩
    exact hothers.mp hall _ ⟨_, ⟨slot', hslot', hnot', rfl⟩, rfl⟩
  · by_cases hsame : other = page
    · subst hsame
      rw [hvacated.inside other (Nat.le_refl other) (Nat.lt_succ_self other)]
      refine iff_of_false Bool.false_ne_true fun hkept => hkept.2 ⟨rfl, hothers.mpr fun ptr => ?_⟩
      exact h.not_object_last hslot hnot hlast
    · have hout : ¬ (Slab.region ⟨page, free⟩).Contains other := fun hin =>
        hsame (Slab.region_contains.mp hin)
      rw [hvacated.outside other hout, iff_self_and]
      exact fun _ hboth => hsame hboth.1

theorem Kept.partitioned (h : s.Kept boot size) (hn : 0x10000 < n) : s.Partitioned boot n size := by
  obtain ⟨V, slabs, h⟩ := h
  refine ⟨⟨V, slabs, h, h.pageOf_mem, fun q hq => ?_⟩, fun ptr hptr => ?_, h.shows.crash,
    fun ptr hptr => h.given hptr hn⟩
  · have hlaid := h.cached.laid hq
    rw [h.sized] at hlaid
    refine ⟨hlaid, fun slot hslot => h.object_iff hq hslot, ?_⟩
    have hcount : slotCount size ≤ 4080 := Nat.div_le_self _ _
    rw [h.count hq, hlaid.allocated, UInt32.toNat_ofNat']
    omega
  · obtain ⟨q, hq, x, hlive, rfl⟩ := (h.live ptr).mp hptr
    have hbounds := hlive.bounds (h.cached.lt h.shows.space hq)
    have hpos := h.size_pos
    rw [toNat_areaAddress hbounds.2.2]
    omega

/-- From boot on, whatever callers of a cache take, write and give back, while others do the same
with pages, its pages are partitioned into objects and free slots. -/
theorem run_partitioned (hboot : Booted kernelEnd boot) (phys : UInt32 → UInt8)
    (cachesAt : UInt32) (hlow : 16 ≤ objectSize.toNat) (hhigh : objectSize.toNat ≤ 4080)
    {ops : List SlabOp} (hn : 0x10000 < n)
    (hops : Permitted n step Ok (start boot phys cachesAt objectSize) ops) :
    Ensures n (run step ops) (start boot phys cachesAt objectSize)
      (fun _ s => s.Partitioned boot n objectSize.toNat)
      fun s => s.Partitioned boot n objectSize.toNat := by
  have hrun := ensures_run (fun _ _ h hok => Kept.step hboot h hok hn)
    (Kept.start hboot phys cachesAt (by omega) hhigh) hops
  exact hrun.mono (fun _ _ h => h.partitioned hn) fun _ h => h.partitioned hn

/-- Objects of 120 bytes; the first page is given back, and the cache then takes another one. -/
def exampleOps : List SlabOp :=
  [.alloc, .page (.alloc 2), .free 0x10000010, .page (.alloc 1), .alloc, .alloc,
    .write 0x10003088 116 [1, 2, 3, 4]]

set_option maxRecDepth 10000 in
theorem exampleOps_run : (run (guarded step Ok) exampleOps 0x20000
    (start exampleBoot (fun _ => 0) 0 120)).shown live = some [0x10003088, 0x10003010] := by
  refine Eq.substr (p := fun f => (run (guarded f Ok) exampleOps 0x20000
    (start exampleBoot (fun _ => 0) 0 120)).shown live = some [0x10003088, 0x10003010])
    (a := ?f) ?h ?_
  case h =>
    conv_lhs =>
      delta step slab slabAlloc slabGrow slabFree popSlot store32
      rw [memset_eq 3, storeBytes_eq, chainSlots_eq]
  decide +kernel

theorem run_partitioned_exampleBoot : ∃ answers s,
    run step exampleOps 0x20000 (start exampleBoot (fun _ => 0) 0 120) = .done answers s ∧
      s.live = [0x10003088, 0x10003010] ∧ s.Partitioned exampleBoot 0x20000 120 := by
  obtain ⟨answers, s, hguarded, hlive⟩ := Outcome.exists_of_shown exampleOps_run
  obtain ⟨hops, hrun⟩ := permitted_of_guarded hguarded
  exact ⟨answers, s, hrun, hlive, (run_partitioned booted_exampleBoot (fun _ => 0) 0 (by decide)
    (by decide) (by decide) hops).of_done hrun⟩

/-- A page has no slot for objects of 5000 bytes. `slab_grow` poisons memory behind the page. -/
theorem run_not_partitioned :
    Permitted 0x20000 step Ok (start exampleBoot (fun _ => 0) 0 5000) [.alloc] ∧
      ¬ Ensures 0x20000 (run step [.alloc]) (start exampleBoot (fun _ => 0) 0 5000)
        (fun _ s => s.Partitioned exampleBoot 0x20000 5000)
        fun s => s.Partitioned exampleBoot 0x20000 5000 := by
  have hfault : (run step [.alloc] 0x20000 (start exampleBoot (fun _ => 0) 0 5000)).isFault =
      true := by
    refine Eq.substr (p := fun f =>
      (run f [SlabOp.alloc] 0x20000 (start exampleBoot (fun _ => 0) 0 5000)).isFault = true)
      (a := ?f) ?h ?_
    case h =>
      conv_lhs =>
        delta step slab slabAlloc slabGrow slabFree popSlot store32
        rw [memset_eq 3, storeBytes_eq, chainSlots_eq]
    decide +kernel
  exact ⟨⟨trivial, fun _ _ _ => trivial⟩, not_ensures_of_fault (Outcome.eq_fault hfault)⟩

end SlabSystem

end AvrKernel.Memory

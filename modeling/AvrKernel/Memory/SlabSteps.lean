import AvrKernel.Memory.Slab

/-!
# The slab allocator at work

What `slab_grow`, `slab_alloc` and `slab_free` do to the pages of a cache: where the header and
the free list are as they left them, neither of their two checks ever fails.
-/

namespace AvrKernel.Memory

open Comp

/-! ## Parts of a page -/

namespace Space

variable {S : Space} {page x k y j frame : Nat}

theorem backed_page (huse : S.use page = some (.frame frame)) :
    S.BackedRange (4096 * page) 4096 := by
  intro y hle hlt
  have hpage : y / 4096 = page := by omega
  exact ⟨frame, by rw [hpage, huse]⟩

theorem BackedRange.sub (h : S.BackedRange x k) (hle : x ≤ y) (hend : y + j ≤ x + k) :
    S.BackedRange y j :=
  fun z hz hlt => h z (by omega) (by omega)

theorem backed_slot (huse : S.use page = some (.frame frame)) {size slot : Nat}
    (hslot : slot < slotCount size) : S.BackedRange (slotAt page size slot) size := by
  have hend := slot_end hslot
  refine (backed_page huse).sub ?_ ?_
  · simp only [slotAt]
    omega
  · simp only [slotAt]
    omega

end Space

namespace MemView

variable {V : MemView} {page size slot : Nat}

theorem freeSlot_write (hsize : 4 ≤ size) (next : UInt32) :
    ((V.writeWord (slotAt page size slot) next).write (slotAt page size slot + 4)
      (List.replicate (size - 4) poisonByte)).FreeSlot page size slot next where
  next := by
    have hpoison := changedIn_write (V := V.writeWord (slotAt page size slot) next)
      (x := slotAt page size slot + 4) (List.replicate (size - 4) poisonByte)
    rw [hpoison.word (.inl (Nat.le_refl _)), word_writeWord]
  poison y hle hlt := bytes_write_replicate hle (by omega)

theorem freeList_range {k i : Nat} (hk : i + k ≤ slotCount size)
    (h : ∀ j, i ≤ j → j < i + k →
      V.FreeSlot page size j (if j + 1 = i +
        k then 0 else areaAddress (slotAt page size (j + 1)))) :
    V.FreeList page size (List.range' i k) := by
  induction k generalizing i with
  | zero => exact trivial
  | succ k ih =>
      refine ⟨by omega, ?_, ih (by omega) fun j hle hlt => ?_⟩
      · have hfirst := h i (Nat.le_refl i) (by omega)
        cases k with
        | zero => simpa [link] using hfirst
        | succ k => simpa [link, List.range'_succ] using hfirst
      · have hrest := h j (by omega) (by omega)
        rwa [← Nat.add_assoc, Nat.add_right_comm i k 1] at hrest

theorem header_write {x : Nat} (V : MemView) (zeros : List UInt8) (hzeros : zeros.length = 4096)
    (first : UInt32) : ∃ W, W =
      (((V.write x zeros).writeWord (x + 4) 0).writeWord (x + 8) 0).writeWord x first ∧
      V.ChangedIn x 4096 W ∧ W.word x = first ∧ W.word (x + 4) = 0 := by
  refine ⟨_, rfl, ?_, word_writeWord first, ?_⟩
  · have hzero : V.ChangedIn x 4096 (V.write x zeros) := hzeros ▸ changedIn_write zeros
    apply ChangedIn.writeWord _ (Nat.le_refl x) (by omega)
    apply ChangedIn.writeWord _ (Nat.le_add_right x 8) (by omega)
    exact hzero.writeWord (Nat.le_add_right x 4) (by omega) 0
  · rw [word_writeWord_of_ne _ (by omega), word_writeWord_of_ne _ (by omega), word_writeWord]

/-- All slots of the page are free. -/
structure FreshPage (W : MemView) (page size : Nat) : Prop where
  first : W.word (4096 * page) = areaAddress (slotAt page size 0)
  allocated : W.word (4096 * page + 4) = 0
  list : W.FreeList page size (List.range' 0 (slotCount size))

end MemView

theorem toNat_sub_four {objectSize : UInt32} (h : 4 ≤ objectSize.toNat) :
    (objectSize - 4).toNat = objectSize.toNat - 4 :=
  UInt32.toNat_sub_of_le _ _ (UInt32.le_iff_toNat_le.mpr h)

namespace KernelMemory

variable {boot : VmmState} {s : KernelMemory} {V : MemView} {page size slot frame n : Nat}
  {objectSize : UInt32} {halt : KernelMemory → Prop}

/-! ## A new page -/

theorem Shows.writeSlot {α : Type} {c : MemM α} {post : α → KernelMemory → Prop} {next : UInt32}
    (h : s.Shows boot V) (huse : V.space.use page = some (.frame frame))
    (hslot : slot < slotCount objectSize.toNat) (hsize : 4 ≤ objectSize.toNat)
    (hrest : ∀ s' W, s'.Shows boot W →
      V.ChangedIn (slotAt page objectSize.toNat slot) objectSize.toNat W →
      W.FreeSlot page objectSize.toNat slot next → Ensures n c s' post halt) :
    Ensures n (do
      Memory.store32 (areaAddress (slotAt page objectSize.toNat slot)) next
      Memory.memset (areaAddress (slotAt page objectSize.toNat slot) + 4) poisonByte
        (objectSize - 4).toNat
      c) s post halt := by
  have hback := Space.backed_slot huse hslot
  have hpayload : areaAddress (slotAt page objectSize.toNat slot) + 4 =
      areaAddress (slotAt page objectSize.toNat slot + 4) := areaAddress_add _ 4
  rw [hpayload, toNat_sub_four hsize]
  refine (h.store32 (hback.sub (Nat.le_refl _) (by omega)) next).bind fun _ s₁ hs₁ => ?_
  refine (hs₁.memset (hback.sub (by omega) (by omega)) poisonByte).bind fun _ s₂ hs₂ => ?_
  refine hrest s₂ _ hs₂ ?_ (MemView.freeSlot_write hsize next)
  apply MemView.ChangedIn.write _ (by omega)
  · rw [List.length_replicate]
    omega
  · exact (MemView.ChangedIn.refl V _ _).writeWord (Nat.le_refl _) (by omega) next

/-- The loop of `slab_grow` links each slot to the one behind it. -/
theorem Shows.chainSlots {left i : Nat} (h : s.Shows boot V)
    (huse : V.space.use page = some (.frame frame)) (hsize : 4 ≤ objectSize.toNat)
    (hslots : i + left < slotCount objectSize.toNat) :
    Ensures n (chainSlots objectSize left (areaAddress (slotAt page objectSize.toNat i))) s
      (fun last s' => last = areaAddress (slotAt page objectSize.toNat (i + left)) ∧
        ∃ W, s'.Shows boot W ∧
          V.ChangedIn (slotAt page objectSize.toNat i) (left * objectSize.toNat) W ∧
          ∀ j, i ≤ j → j < i + left →
            W.FreeSlot page objectSize.toNat j (areaAddress (slotAt page objectSize.toNat (j + 1))))
      halt := by
  induction left generalizing i s V with
  | zero => exact ⟨rfl, V, h, .refl .., fun j hle hlt => by omega⟩
  | succ left ih =>
      have hnext : areaAddress (slotAt page objectSize.toNat i) + objectSize =
          areaAddress (slotAt page objectSize.toNat (i + 1)) := by
        have hadd := areaAddress_add (slotAt page objectSize.toNat i) objectSize.toNat
        rw [UInt32.ofNat_toNat] at hadd
        rw [hadd, slotAt_succ]
      rw [Memory.chainSlots, hnext]
      refine h.writeSlot huse (by omega) hsize fun s₁ W hW hchanged hfree => ?_
      refine (ih hW (hchanged.space ▸ huse) (by omega)).imp ?_
      rintro last s₂ ⟨hlast, U, hU, hchanged', hslots'⟩
      have hstart := slotAt_succ page objectSize.toNat i
      refine ⟨by rw [hlast, Nat.add_right_comm, Nat.add_assoc], U, hU, ?_, fun j hle hlt => ?_⟩
      · rw [Nat.succ_mul]
        refine (hchanged.widen (Nat.le_refl _) (by omega)).trans (hchanged'.widen ?_ ?_)
        · omega
        · omega
      · by_cases hfirst : j = i
        · subst hfirst
          exact hfree.congr hsize fun y hle' hlt' => hchanged'.bytes y (by omega)
        · exact hslots' j (by omega) (by omega)

theorem toNat_maxSlots (objectSize : UInt32) :
    ((pageSize - startOffset) / objectSize).toNat = slotCount objectSize.toNat := by
  rw [UInt32.toNat_div]
  rfl

/-- `slab_grow` lays out a new page. -/
theorem Shows.slabGrow (h : s.Shows boot V) (hsize : 4 ≤ objectSize.toNat)
    (hmost : objectSize.toNat ≤ 4080) :
    Ensures n (slabGrow objectSize) s
      (fun address s' => ∃ page W, address = areaAddress (4096 * page) ∧
        FirstFit.Lowest V.space.unused 0 virtPages 1 page ∧ V.space.Taken page 1 W.space ∧
        W.caches = V.caches ∧ W.cachesAt = V.cachesAt ∧
        (∀ x, V.space.Backed x → W.bytes x = V.bytes x) ∧ W.FreshPage page objectSize.toNat ∧
        s'.Shows boot W)
      fun s' => s'.Shows boot V ∧ (¬ V.space.HasRun 1 ∨ V.space.free.card < 1) := by
  rw [Memory.slabGrow]
  refine (h.vmmAllocPages 1).bind_of ?_ ?_
  · rintro s' ⟨hs', hzero | hreason⟩
    · cases hzero
    · exact ⟨hs', hreason⟩
  rintro address s₁ ⟨page, T, bytes, rfl, -, hlowest, htaken, hbytes, hs₁⟩
  have hpage : page < 0x10000 := by
    have hfits := hlowest.fits
    change page + 1 ≤ 0x10000 at hfits
    omega
  obtain ⟨frame, huse⟩ := htaken.inside page (Nat.le_refl page) (Nat.lt_succ_self page)
  have hback := Space.backed_page huse
  have hcount := slotCount_pos hsize hmost
  have hfirst : areaAddress (4096 * page) + startOffset =
      areaAddress (slotAt page objectSize.toNat 0) := by
    rw [slotAt, Nat.zero_mul]
    exact areaAddress_add _ 16
  have hbump : (if objectSize < 4 then (4 : UInt32) else objectSize) = objectSize := by
    refine if_neg fun hlt => ?_
    have hlt' : objectSize.toNat < 4 := UInt32.lt_iff_toNat_lt.mp hlt
    omega
  have hleft : ((pageSize - startOffset) / objectSize - 1).toNat =
      slotCount objectSize.toNat - 1 := by
    have hmax := toNat_maxSlots objectSize
    have hle : (1 : UInt32) ≤ (pageSize - startOffset) / objectSize :=
      UInt32.le_iff_toNat_le.mpr (by rw [hmax]; exact hcount)
    rw [UInt32.toNat_sub_of_le _ _ hle, hmax]
    rfl
  simp only [areaAddress_four, areaAddress_eight, hfirst, hbump, hleft]
  rw [if_neg (areaAddress_ne_zero (by omega))]
  -- the page is cleared, and then come the three words of its header
  refine (hs₁.memset hback 0).bind fun _ s₂ hs₂ => ?_
  refine (hs₂.store32 (hback.sub (by omega) (by omega)) 0).bind fun _ s₃ hs₃ => ?_
  refine (hs₃.store32 (hback.sub (by omega) (by omega)) 0).bind fun _ s₄ hs₄ => ?_
  refine (hs₄.store32 (hback.sub (Nat.le_refl _) (by omega)) _).bind fun _ s₅ hs₅ => ?_
  obtain ⟨W₀, hW₀, hheader, hlist, hzero⟩ := MemView.header_write (x := 4096 * page)
    { V with space := T, bytes } (List.replicate 4096 0) List.length_replicate
    (areaAddress (slotAt page objectSize.toNat 0))
  rw [← hW₀] at hs₅
  clear hW₀ hs₂ hs₃ hs₄
  have hspace : W₀.space = T := hheader.space
  have huse₀ : W₀.space.use page = some (.frame frame) := hspace ▸ huse
  rw [ensures_bind, hs₅.load32 ((hspace ▸ hback).sub (Nat.le_refl _) (by omega)), hlist]
  -- the header is written, and the slots come next
  refine (hs₅.chainSlots huse₀ hsize (by omega)).bind ?_
  rintro last s₆ ⟨rfl, W, hW, hchanged, hslots⟩
  rw [Nat.zero_add] at hslots ⊢
  refine hW.writeSlot (hchanged.space ▸ huse₀) (by omega) hsize fun s₇ U hU hchanged' hlast => ?_
  have hend := slot_end (Nat.sub_lt hcount Nat.one_pos)
  have hslot₀ : slotAt page objectSize.toNat 0 = 4096 * page + 16 := by
    rw [slotAt, Nat.zero_mul, Nat.add_zero]
  have hslotLast : slotAt page objectSize.toNat (slotCount objectSize.toNat - 1) =
      4096 * page + 16 + (slotCount objectSize.toNat - 1) * objectSize.toNat := rfl
  -- all of it happens in the new page, behind the header
  have hbehind : W₀.ChangedIn (4096 * page + 16) 4080 U :=
    (hchanged.widen (by omega) (by omega)).trans (hchanged'.widen (by omega) (by omega))
  have hpageOnly := hheader.trans (hbehind.widen (Nat.le_add_right _ 16) (Nat.le_refl _))
  refine ⟨page, U, rfl, hlowest, hpageOnly.space ▸ htaken, hpageOnly.caches, hpageOnly.cachesAt,
    fun x hx => ?_, ⟨?_, ?_, ?_⟩, hU⟩
  · obtain ⟨f, hf⟩ := id hx
    have hout : ¬ (4096 * page ≤ x ∧ x < 4096 * page + 4096) := by
      rintro ⟨hle, hlt⟩
      have hpage' : x / 4096 = page := by omega
      rw [hpage', Space.use_of_run hlowest.run (Nat.le_refl page) (Nat.lt_succ_self page)] at hf
      cases hf
    rw [hpageOnly.bytes x hout]
    exact hbytes x hx
  · rw [hbehind.word (.inl (by omega)), hlist]
  · rw [hbehind.word (.inl (by omega)), hzero]
  · refine MemView.freeList_range (Nat.zero_add _).le fun j _ hj => ?_
    by_cases hlastSlot : j = slotCount objectSize.toNat - 1
    · rw [if_pos (by omega), hlastSlot]
      exact hlast
    · have hlt : j < slotCount objectSize.toNat - 1 := by omega
      rw [if_neg (by omega)]
      refine (hslots j (Nat.zero_le j) hlt).congr hsize fun y hle hlt' => ?_
      have hapart := slot_apart objectSize.toNat hlt
      apply hchanged'.bytes
      simp only [slotAt] at hlt' ⊢
      omega

end KernelMemory

/-! ## One page of a cache -/

theorem areaAddress_slot_ne_zero {page size slot : Nat} (hpage : page < 0x10000) (hsize : 4 ≤ size)
    (hslot : slot < slotCount size) : areaAddress (slotAt page size slot) ≠ 0 := by
  have hend := slot_end hslot
  apply areaAddress_ne_zero
  simp only [slotAt]
  omega

theorem link_eq_zero_iff {page size : Nat} {free : List Nat} (hpage : page < 0x10000)
    (hsize : 4 ≤ size) (hfree : ∀ slot ∈ free, slot < slotCount size) :
    link page size free = 0 ↔ free = [] := by
  cases free with
  | nil => exact ⟨fun _ => rfl, fun _ => rfl⟩
  | cons slot rest =>
      have hne := areaAddress_slot_ne_zero hpage hsize (hfree slot List.mem_cons_self)
      exact ⟨fun hzero => absurd hzero hne, fun hnil => absurd hnil (List.cons_ne_nil _ _)⟩

namespace MemView

variable {V W : MemView} {cache page slot : Nat} {slabs pre post : List Slab} {q q' : Slab}
  {free : List Nat}

theorem Cached.laid (h : V.Cached cache slabs) (hq : q ∈ slabs) :
    q.Laid V (V.slotSize cache) (cacheAddress V.cachesAt cache) :=
  h.list.laid hq

theorem Cached.lt (hc : V.Cached cache slabs) {s : VmmState} (hs : s.Shows V.space)
    (hq : q ∈ slabs) : q.page < 0x10000 := by
  obtain ⟨frame, huse⟩ := hc.backed q hq
  exact hs.lt_virtPages huse

theorem Cached.length_le (hc : V.Cached cache slabs) {s : VmmState} (hs : s.Shows V.space) :
    slabs.length ≤ 0x10000 := by
  have hsub : slabs.map Slab.page ⊆ List.range 0x10000 := by
    intro page hmem
    obtain ⟨q, hq, rfl⟩ := List.mem_map.mp hmem
    exact List.mem_range.mpr (hc.lt hs hq)
  have hle := (List.subperm_of_subset hc.distinct hsub).length_le
  rwa [List.length_map, List.length_range] at hle

theorem Cached.page_ne (hc : V.Cached cache (pre ++ q :: post)) {p : Slab}
    (hp : p ∈ pre ∨ p ∈ post) : p.page ≠ q.page := by
  have hdistinct := hc.distinct
  rw [List.map_append, List.map_cons, List.nodup_append, List.nodup_cons] at hdistinct
  obtain ⟨-, ⟨hpost, -⟩, hpre⟩ := hdistinct
  intro heq
  rcases hp with hmem | hmem
  · exact hpre p.page (List.mem_map_of_mem hmem) q.page List.mem_cons_self heq
  · exact hpost (heq ▸ List.mem_map_of_mem hmem)

/-- What changes in one page leaves the others as they are. -/
theorem Cached.own_kept (hc : V.Cached cache (pre ++ q :: post))
    (hW : V.ChangedIn (4096 * q.page) 4096 W) {p : Slab} (hp : p ∈ pre ∨ p ∈ post) {y : Nat}
    (hy : p.Own (V.slotSize cache) y) : W.bytes y = V.bytes y := by
  have hmem : p ∈ pre ++ q :: post := by
    rw [List.mem_append, List.mem_cons]
    exact hp.imp id .inr
  have hpage := (hc.laid hmem).own_page hy
  have hne := hc.page_ne hp
  apply hW.bytes
  omega

/-- A page is laid out in another way, at the same place in the list. -/
theorem Cached.update (hc : V.Cached cache (pre ++ q :: post))
    (hW : V.ChangedIn (4096 * q.page) 4096 W)
    (hnext : W.word (4096 * q.page + 8) = V.word (4096 * q.page + 8)) (hpage : q'.page = q.page)
    (hlaid : q'.Laid W (V.slotSize cache) (cacheAddress V.cachesAt cache)) :
    W.Cached cache (pre ++ q' :: post) := by
  have hlist : W.PageList (V.slotSize cache) (cacheAddress V.cachesAt cache) (pre ++ q' :: post)
      (V.caches cache).pageList := by
    refine hc.list.relink hc.least (fun p hp y hy => hc.own_kept hW (.inl hp) hy) hlaid hpage ?_
    rw [hnext]
    exact hc.list.behind.congr hc.least fun p hp y hy => hc.own_kept hW (.inr hp) hy
  refine ⟨?_, ?_, ?_, ?_, ?_⟩
  · rw [hW.slotSize, hW.caches, hW.cachesAt]
    exact hlist
  · intro p hp
    rw [hW.space]
    rw [List.mem_append, List.mem_cons] at hp
    rcases hp with hmem | rfl | hmem
    · exact hc.backed p (List.mem_append_left _ hmem)
    · rw [hpage]
      exact hc.backed q (by simp)
    · exact hc.backed p (by simp [hmem])
  · have hdistinct := hc.distinct
    rw [List.map_append, List.map_cons] at hdistinct ⊢
    rwa [hpage]
  · rw [hW.slotSize]
    exact hc.least
  · rw [hW.slotSize]
    exact hc.most

end MemView

namespace KernelMemory

variable {boot : VmmState} {s : KernelMemory} {V : MemView} {cache page slot n x count : Nat}
  {slabs pre post : List Slab} {free : List Nat} {head : UInt32} {halt : KernelMemory → Prop}

theorem Shows.isPoisoned (h : s.Shows boot V) (hback : V.space.BackedRange x count)
    (hpoison : ∀ y, x ≤ y → y < x + count → V.bytes y = poisonByte) :
    Ensures n (isPoisoned (areaAddress x) count) s (fun intact s' => intact = true ∧ s' = s)
      halt := by
  induction count generalizing x with
  | zero => exact ⟨rfl, rfl⟩
  | succ count ih =>
      rw [Memory.isPoisoned, ensures_bind, h.load8 (Space.BackedRange.head hback),
        hpoison x (Nat.le_refl x) (by omega), if_pos rfl, areaAddress_succ]
      exact ih (Space.BackedRange.tail hback) fun y hle hlt => hpoison y (by omega) (by omega)

/-- A free slot passes the check. -/
theorem Shows.checkSlot {objectSize next : UInt32} (h : s.Shows boot V)
    (hsize : 4 ≤ objectSize.toNat)
    (hback : V.space.BackedRange (slotAt page objectSize.toNat slot) objectSize.toNat)
    (hfree : V.FreeSlot page objectSize.toNat slot next) :
    Ensures n (checkSlot objectSize (areaAddress (slotAt page objectSize.toNat slot))) s
      (fun intact s' => intact = true ∧ s' = s) halt := by
  have hpayload : areaAddress (slotAt page objectSize.toNat slot) + 4 =
      areaAddress (slotAt page objectSize.toNat slot + 4) := areaAddress_add _ 4
  rw [Memory.checkSlot, hpayload, toNat_sub_four hsize]
  split
  · refine h.isPoisoned (hback.sub (Nat.le_add_right _ 4) (by omega)) fun y hle hlt => ?_
    exact hfree.poison y hle (by omega)
  · exact ⟨rfl, rfl⟩

/-- `slab_alloc` takes the first slot of the free list of a page. Its poison is intact. -/
theorem Shows.popSlot (h : s.Shows boot V)
    (hc : V.Cached cache (pre ++ ⟨page, slot :: free⟩ :: post)) :
    Ensures n (popSlot (V.caches cache).objectSize (areaAddress (4096 * page))) s
      (fun ptr s' => ptr = areaAddress (slotAt page (V.slotSize cache) slot) ∧
        ∃ W, s'.Shows boot W ∧ V.ChangedIn (4096 * page) 8 W ∧
          W.Cached cache (pre ++ ⟨page, free⟩ :: post)) halt := by
  have hmem : (⟨page, slot :: free⟩ : Slab) ∈ pre ++ ⟨page, slot :: free⟩ :: post := by simp
  have hlaid := hc.laid hmem
  obtain ⟨frame, huse⟩ : ∃ frame, V.space.use page = some (.frame frame) := hc.backed _ hmem
  obtain ⟨hslot, hfree, hrest⟩ : slot < slotCount (V.slotSize cache) ∧
    V.FreeSlot page (V.slotSize cache) slot (link page (V.slotSize cache) free) ∧
    V.FreeList page (V.slotSize cache) free := hlaid.list
  have hfirst : V.word (4096 * page) = areaAddress (slotAt page (V.slotSize cache) slot) :=
    hlaid.freeList
  have hallocated : V.word (4096 * page + 4) =
    .ofNat (slotCount (V.slotSize cache) - (free.length + 1)) := hlaid.allocated
  have hlength : free.length + 1 ≤ slotCount (V.slotSize cache) := hlaid.length_le
  have hsize : 4 ≤ V.slotSize cache := hc.least
  have hback := Space.backed_page huse
  have hbackSlot := Space.backed_slot huse hslot
  rw [Memory.popSlot, ensures_bind, h.load32 (hback.sub (Nat.le_refl _) (by omega)),
    hfirst, areaAddress_four]
  refine (h.checkSlot hsize hbackSlot hfree).bind ?_
  rintro intact s' ⟨rfl, rfl⟩
  rw [if_pos rfl, ensures_bind,
    h.load32 (hbackSlot.sub (Nat.le_refl _) (Nat.add_le_add_left hsize _)), hfree.next]
  refine (h.store32 (hback.sub (Nat.le_refl _) (by omega)) _).bind fun _ s₁ hs₁ => ?_
  rw [ensures_bind, hs₁.load32 (hback.sub (by omega) (by omega)),
    MemView.word_writeWord_of_ne _ (.inl (Nat.le_refl _)), hallocated]
  refine (hs₁.store32 (hback.sub (by omega) (by omega)) _).bind fun _ s₂ hs₂ => ?_
  rw [ensures_pure]
  generalize hW : MemView.writeWord _ (4096 * page + 4) _ = W at hs₂
  have hchanged : V.ChangedIn (4096 * page) 8 W := by
    rw [← hW]
    exact ((MemView.ChangedIn.refl V _ 8).writeWord (Nat.le_refl _) (by omega) _).writeWord
      (by omega) (by omega) _
  have hslots : ∀ slot' ∈ free, ∀ y, slotAt page (V.slotSize cache) slot' ≤ y →
      y < slotAt page (V.slotSize cache) slot' + V.slotSize cache → W.bytes y = V.bytes y := by
    intro slot' _ y hle _
    apply hchanged.bytes
    simp only [slotAt] at hle
    omega
  have hpageOnly : V.ChangedIn (4096 * page) 4096 W := hchanged.widen (Nat.le_refl _) (by omega)
  refine ⟨rfl, W, hs₂, hchanged, hc.update hpageOnly ?_ rfl ?_⟩
  · exact hchanged.word (.inr (Nat.le_refl _))
  · refine ⟨?_, ?_, ?_, hrest.congr hsize hslots, (List.nodup_cons.mp hlaid.nodup).2⟩
    · rw [← hW, MemView.word_writeWord_of_ne _ (.inr (Nat.le_refl _)), MemView.word_writeWord]
    · have hcount : slotCount (V.slotSize cache) - (free.length + 1) + 1 =
          slotCount (V.slotSize cache) - free.length := by omega
      rw [← hW, MemView.word_writeWord, ← hcount, UInt32.ofNat_add]
      rfl
    · have howner : W.word (4096 * page + 12) = V.word (4096 * page + 12) :=
        hchanged.word (.inr (by omega))
      exact howner.trans hlaid.owner

/-! ## `slab_alloc` -/

/-- The search ends at the first page with a free slot, or at the end of the list. -/
theorem Shows.findPage (h : s.Shows boot V) (hc : V.Cached cache slabs) (hn : 0x10000 < n) :
    Ensures n (findPage (V.caches cache).pageList) s
      (fun address s' => s' = s ∧ ((address = 0 ∧ ∀ q ∈ slabs, q.free = []) ∨
        ∃ pre page slot free post, slabs = pre ++ ⟨page, slot :: free⟩ :: post ∧
          (∀ q ∈ pre, q.free = []) ∧ address = areaAddress (4096 * page))) halt := by
  have hlength := hc.length_le h.space
  -- the pages in front of the current one are full
  refine ensures_loop (fun k address s' => s' = s ∧ ∃ pre rest, slabs = pre ++ rest ∧
      (∀ q ∈ pre, q.free = []) ∧ rest.length = k ∧
      V.PageList (V.slotSize cache) (cacheAddress V.cachesAt cache) rest address) ?_
    ⟨rfl, [], slabs, rfl, by simp, rfl, hc.list⟩ (by omega)
  rintro k address s' ⟨rfl, pre, rest, rfl, hfull, hlen, hlist⟩
  rw [nextPage]
  cases rest with
  | nil =>
      rw [if_pos (show address = 0 from hlist), ensures_pure]
      refine ⟨rfl, .inl ⟨hlist, ?_⟩⟩
      rwa [List.append_nil]
  | cons q rest =>
      obtain ⟨rfl, hlaid, hrest⟩ := hlist
      have hmem : q ∈ pre ++ q :: rest := by simp
      have hpage := hc.lt h.space hmem
      obtain ⟨frame, huse⟩ := hc.backed q hmem
      have hback := Space.backed_page huse
      rw [if_neg (areaAddress_ne_zero (by omega)), ensures_bind,
        h.load32 (hback.sub (Nat.le_refl _) (by omega)), hlaid.freeList, areaAddress_eight]
      simp only [link_eq_zero_iff hpage hc.least hlaid.list.lt]
      split
      next hnil =>
        rw [ensures_bind, h.load32 (hback.sub (by omega) (by omega)), ensures_pure]
        refine ⟨rest.length, by rw [← hlen]; exact Nat.lt_succ_self _, rfl, pre ++ [q], rest, ?_,
          ?_, rfl, hrest⟩
        · rw [List.append_assoc, List.singleton_append]
        · intro p hp
          rcases List.mem_append.mp hp with hmem | hmem
          · exact hfull p hmem
          · rwa [List.mem_singleton.mp hmem]
      next hne =>
        obtain ⟨page, free⟩ := q
        cases free with
        | nil => exact absurd rfl hne
        | cons slot free =>
            rw [ensures_pure]
            exact ⟨rfl, .inr ⟨pre, page, slot, free, rest, rfl, hfull, rfl⟩⟩

end KernelMemory

namespace MemView

variable {V W : MemView} {cache page slot : Nat} {slabs : List Slab}

def setPageList (V : MemView) (cache : Nat) (head : UInt32) : MemView :=
  { V with caches := Function.update V.caches cache ⟨(V.caches cache).objectSize, head⟩ }

@[simp] theorem slotSize_setPageList {other : Nat} {head : UInt32} :
    (V.setPageList cache head).slotSize other = V.slotSize other := by
  by_cases heq : other = cache
  · simp [slotSize, setPageList, heq]
  · simp [slotSize, setPageList, heq]

/-- A new page, once its header is complete, is the first one of the cache. -/
theorem Cached.push (hc : V.Cached cache slabs)
    (huse : ∃ frame, W.space.use page = some (.frame frame))
    (hfresh : W.FreshPage page (V.slotSize cache))
    (hnext : W.word (4096 * page + 8) = (V.caches cache).pageList)
    (howner : W.word (4096 * page + 12) = cacheAddress V.cachesAt cache)
    (hcaches : W.caches = V.caches) (hcachesAt : W.cachesAt = V.cachesAt)
    (hunused : V.space.use page = none)
    (hspace : ∀ other, V.space.use other ≠ none → W.space.use other = V.space.use other)
    (hbytes : ∀ y, V.space.Backed y → W.bytes y = V.bytes y) :
    (W.setPageList cache (areaAddress (4096 * page))).Cached cache
      (⟨page, List.range' 0 (slotCount (V.slotSize cache))⟩ :: slabs) := by
  have hsize : 4 ≤ V.slotSize cache := hc.least
  have hcount := slotCount_pos hc.least hc.most
  have hsame : (W.setPageList cache (areaAddress (4096 * page))).slotSize cache =
      V.slotSize cache := by
    rw [slotSize_setPageList, slotSize, hcaches, slotSize]
  have hheads : ((W.setPageList cache (areaAddress (4096 * page))).caches cache).pageList =
      areaAddress (4096 * page) := by simp [setPageList]
  have hlaid : (⟨page, List.range' 0 (slotCount (V.slotSize cache))⟩ : Slab).Laid
      (W.setPageList cache (areaAddress (4096 * page))) (V.slotSize cache)
      (cacheAddress V.cachesAt cache) := by
    refine ⟨?_, ?_, howner, hfresh.list.congr hsize fun _ _ _ _ _ => rfl, List.nodup_range'⟩
    · obtain ⟨k, hk⟩ := Nat.exists_eq_add_of_lt hcount
      rw [hk, Nat.zero_add, List.range'_succ]
      exact hfresh.first
    · rw [List.length_range', Nat.sub_self]
      exact hfresh.allocated
  have hlist : W.PageList (V.slotSize cache) (cacheAddress V.cachesAt cache) slabs
      (V.caches cache).pageList := by
    refine hc.list.congr hsize fun q hq y hy => hbytes y ?_
    obtain ⟨frame, huse⟩ := hc.backed q hq
    exact ⟨frame, by rw [(hc.laid hq).own_page hy, huse]⟩
  refine ⟨?_, ?_, ?_, ?_, ?_⟩
  · rw [hsame, hheads]
    change MemView.PageList _ _ (cacheAddress W.cachesAt cache) _ _
    rw [hcachesAt]
    refine ⟨rfl, hlaid, ?_⟩
    change MemView.PageList _ _ _ _ (W.word (4096 * page + 8))
    rw [hnext]
    exact hlist.congr hsize fun _ _ _ _ => rfl
  · intro q hq
    change ∃ frame, W.space.use q.page = some (.frame frame)
    rcases List.mem_cons.mp hq with rfl | hq
    · exact huse
    · obtain ⟨frame, hframe⟩ := hc.backed q hq
      exact ⟨frame, (hspace q.page (by simp [hframe])).trans hframe⟩
  · rw [List.map_cons, List.nodup_cons]
    refine ⟨fun hmem => ?_, hc.distinct⟩
    obtain ⟨q, hq, hpage⟩ := List.mem_map.mp hmem
    obtain ⟨frame, hframe⟩ := hc.backed q hq
    rw [hpage, hunused] at hframe
    cases hframe
  · rw [hsame]
    exact hc.least
  · rw [hsame]
    exact hc.most

theorem range_slots {size : Nat} (hsize : 4 ≤ size) (hmost : size ≤ 4080) :
    List.range' 0 (slotCount size) = 0 :: List.range' 1 (slotCount size - 1) := by
  obtain ⟨k, hk⟩ := Nat.exists_eq_add_of_lt (slotCount_pos hsize hmost)
  rw [hk, Nat.zero_add, List.range'_succ, Nat.add_sub_cancel]

/-- The page that `slab_grow` has laid out, once it is linked to the others. -/
theorem Cached.grow {U : MemView} (hc : V.Cached cache slabs)
    (hlowest : FirstFit.Lowest V.space.unused 0 virtPages 1 page)
    (htaken : V.space.Taken page 1 W.space) (hcaches : W.caches = V.caches)
    (hcachesAt : W.cachesAt = V.cachesAt) (hbytes : ∀ y, V.space.Backed y → W.bytes y = V.bytes y)
    (hfresh : W.FreshPage page (V.slotSize cache))
    (hU : (W.writeWord (4096 * page + 8) (V.caches cache).pageList).writeWord (4096 * page + 12)
      (cacheAddress V.cachesAt cache) = U) :
    W.ChangedIn (4096 * page + 8) 8 U ∧ (∀ y, V.space.Backed y → U.bytes y = V.bytes y) ∧
      (U.setPageList cache (areaAddress (4096 * page))).Cached cache
        (⟨page, 0 :: List.range' 1 (slotCount (V.slotSize cache) - 1)⟩ :: slabs) := by
  have hchanged : W.ChangedIn (4096 * page + 8) 8 U := by
    rw [← hU]
    exact ((ChangedIn.refl W _ 8).writeWord (Nat.le_refl _) (by omega) _).writeWord (by omega)
      (by omega) _
  -- the slots lie behind both words
  have hbehind : ∀ slot ∈ List.range' 0 (slotCount (V.slotSize cache)), ∀ y,
      slotAt page (V.slotSize cache) slot ≤ y →
      y < slotAt page (V.slotSize cache) slot + V.slotSize cache → U.bytes y = W.bytes y := by
    intro slot _ y hle _
    apply hchanged.bytes
    simp only [slotAt] at hle
    omega
  have hfresh' : U.FreshPage page (V.slotSize cache) :=
    ⟨(hchanged.word (.inl (by omega))).trans hfresh.first,
      (hchanged.word (.inl (by omega))).trans hfresh.allocated,
      hfresh.list.congr hc.least hbehind⟩
  have hnext : U.word (4096 * page + 8) = (V.caches cache).pageList := by
    rw [← hU, word_writeWord_of_ne _ (.inr (Nat.le_refl _)), word_writeWord]
  have howner : U.word (4096 * page + 12) = cacheAddress V.cachesAt cache := by
    rw [← hU, word_writeWord]
  have hunused : V.space.use page = none :=
    Space.use_of_run hlowest.run (Nat.le_refl page) (Nat.lt_succ_self page)
  have hout : ∀ other, V.space.use other ≠ none → U.space.use other = V.space.use other := by
    intro other hother
    rw [hchanged.space]
    apply htaken.outside
    rintro ⟨hle, hlt⟩
    obtain rfl : other = page := by omega
    exact hother hunused
  have hbytes' : ∀ y, V.space.Backed y → U.bytes y = V.bytes y := by
    intro y hy
    have hne : y / 4096 ≠ page := by
      obtain ⟨f, hf⟩ := id hy
      rintro rfl
      rw [hunused] at hf
      cases hf
    rw [hchanged.bytes y (by omega)]
    exact hbytes y hy
  obtain ⟨frame, huse⟩ := htaken.inside page (Nat.le_refl page) (Nat.lt_succ_self page)
  have hpush := hc.push ⟨frame, hchanged.space ▸ huse⟩ hfresh' hnext howner
    (hchanged.caches.trans hcaches) (hchanged.cachesAt.trans hcachesAt) hunused hout hbytes'
  rw [range_slots hc.least hc.most] at hpush
  exact ⟨hchanged, hbytes', hpush⟩

/-- A slot has been taken, out of the first page with a free one, or out of a new page. -/
structure SlotTaken (V W : MemView) (cache : Nat) (slabs slabs' : List Slab) (page slot : Nat) :
    Prop where
  cached : W.Cached cache slabs'
  slot : ∃ pre free post, slabs' = pre ++ ⟨page, free⟩ :: post ∧ (∀ q ∈ pre, q.free = []) ∧
    ((slabs = pre ++ ⟨page, slot :: free⟩ :: post ∧ W.space = V.space) ∨
      (pre = [] ∧ slabs = post ∧ (∀ q ∈ slabs, q.free = []) ∧
        slot :: free = List.range' 0 (slotCount (V.slotSize cache)) ∧
        FirstFit.Lowest V.space.unused 0 virtPages 1 page ∧ V.space.Taken page 1 W.space))
  bytes : ∀ y, V.space.Backed y → y < 4096 * page ∨ 4096 * page + 16 ≤ y → W.bytes y = V.bytes y
  others : ∀ other ≠ cache, W.caches other = V.caches other
  size : W.slotSize cache = V.slotSize cache
  cachesAt : W.cachesAt = V.cachesAt

end MemView

namespace KernelMemory

variable {boot : VmmState} {s : KernelMemory} {V : MemView} {cache n : Nat} {slabs : List Slab}

theorem Shows.setPageList (h : s.Shows boot V) (cache : Nat) (head : UInt32) :
    (s.setPageList cache head).Shows boot (V.setPageList cache head) where
  space := h.space
  bytes := h.bytes
  caches := by
    simp only [KernelMemory.setPageList, MemView.setPageList, h.caches]
  cachesAt := h.cachesAt
  outside := h.outside
  crash := h.crash

/-- `slab_alloc` takes a slot, unless it needs a new page and there is none. -/
theorem Shows.slabAlloc (h : s.Shows boot V) (hc : V.Cached cache slabs) (hn : 0x10000 < n) :
    Ensures n (slabAlloc cache) s
      (fun ptr s' => ∃ page slot slabs' W, ptr = areaAddress (slotAt page (V.slotSize cache) slot) ∧
        s'.Shows boot W ∧ V.SlotTaken W cache slabs slabs' page slot)
      fun s' => s'.Shows boot V ∧ (¬ V.space.HasRun 1 ∨ V.space.free.card < 1) := by
  rw [Memory.slabAlloc, ensures_bind, ensures_get]
  simp only [h.caches]
  refine (h.findPage hc hn).bind ?_
  rintro address s' ⟨rfl, ⟨rfl, hfull⟩ | ⟨pre, page, slot, free, post, rfl, hpre, rfl⟩⟩
  · -- no page has a free slot
    rw [if_pos rfl]
    refine (h.slabGrow hc.least hc.most).bind ?_
    rintro address s₁ ⟨page, W, rfl, hlowest, htaken, hcaches, hcachesAt, hbytes, hfresh, hs₁⟩
    have hfits := hlowest.fits
    have hpage : page < 0x10000 := hfits
    obtain ⟨frame, huse⟩ := htaken.inside page (Nat.le_refl page) (Nat.lt_succ_self page)
    have hback := Space.backed_page huse
    rw [if_neg (areaAddress_ne_zero (by omega)), ensures_bind, ensures_get, hs₁.caches, hcaches,
      hs₁.cachesAt, hcachesAt, areaAddress_eight, areaAddress_twelve]
    refine (hs₁.store32 (hback.sub (by omega) (by omega)) _).bind fun _ s₂ hs₂ => ?_
    refine (hs₂.store32 (hback.sub (by omega) (by omega)) _).bind fun _ s₃ hs₃ => ?_
    rw [ensures_bind, ensures_modify]
    generalize hU : MemView.writeWord _ (4096 * page + 12) _ = U at hs₃
    obtain ⟨hchanged, hbytes', hpush⟩ :=
      hc.grow hlowest htaken hcaches hcachesAt hbytes hfresh hU
    have hsize : (U.setPageList cache (areaAddress (4096 * page))).slotSize cache =
        V.slotSize cache := by
      rw [MemView.slotSize_setPageList, hchanged.slotSize, MemView.slotSize, hcaches,
        MemView.slotSize]
    have hobject : ((U.setPageList cache (areaAddress (4096 * page))).caches cache).objectSize =
        (V.caches cache).objectSize := UInt32.toNat_inj.mp hsize
    have hfirst : MemView.Cached _ cache ([] ++ _ :: slabs) := hpush
    rw [← hobject]
    refine ((hs₃.setPageList cache (areaAddress (4096 * page))).popSlot hfirst).imp ?_
    rintro ptr s₄ ⟨rfl, X, hX, hchanged', hcached⟩
    refine ⟨page, 0, _, X, by rw [hsize], hX, hcached, ?_, fun y hy hheader => ?_,
      fun other hne => ?_, ?_, ?_⟩
    · refine ⟨[], _, slabs, rfl, by simp, .inr ⟨rfl, rfl, hfull,
        (MemView.range_slots hc.least hc.most).symm, hlowest, ?_⟩⟩
      rw [hchanged'.space]
      exact hchanged.space ▸ htaken
    · rw [hchanged'.bytes y (by omega)]
      exact hbytes' y hy
    · rw [hchanged'.caches]
      change Function.update U.caches cache _ other = _
      rw [Function.update_of_ne hne, hchanged.caches, hcaches]
    · rw [hchanged'.slotSize, hsize]
    · exact hchanged'.cachesAt.trans (hchanged.cachesAt.trans hcachesAt)
  · have hpage := hc.lt h.space (show (⟨page, slot :: free⟩ : Slab) ∈ _ by simp)
    have hpage' : page < 0x10000 := hpage
    rw [if_neg (areaAddress_ne_zero (by omega))]
    refine (h.popSlot hc).imp ?_
    rintro ptr s₁ ⟨rfl, W, hW, hchanged, hcached⟩
    refine ⟨page, slot, _, W, rfl, hW, hcached, ?_, fun y _ hheader => ?_,
      fun other _ => ?_, ?_, ?_⟩
    · exact ⟨pre, free, post, rfl, hpre, .inl ⟨rfl, hchanged.space⟩⟩
    · exact hchanged.bytes y (by omega)
    · rw [hchanged.caches]
    · exact hchanged.slotSize cache
    · exact hchanged.cachesAt

end KernelMemory

/-! ## `slab_free` -/

theorem page_of_slot {page size slot : Nat} (hpage : page < 0x10000) (hsize : 4 ≤ size)
    (hslot : slot < slotCount size) :
    areaAddress (slotAt page size slot) &&& ~~~(pageSize - 1) = areaAddress (4096 * page) := by
  have hend := slot_end hslot
  have hmask : pageSize - 1 = 0xFFF := rfl
  apply UInt32.toNat_inj.mp
  rw [hmask, toNat_frame, toNat_areaAddress (by simp only [slotAt]; omega),
    toNat_areaAddress (by omega)]
  simp only [slotAt]
  omega

/-- A slot that has been poisoned and linked is at the front of the free list. -/
theorem Slab.Laid.push {V W : MemView} {size page slot : Nat} {owner : UInt32} {free : List Nat}
    (h : (⟨page, free⟩ : Slab).Laid V size owner) (hsize : 4 ≤ size)
    (hslot : slot < slotCount size) (hlive : slot ∉ free)
    (hfree : W.FreeSlot page size slot (link page size free))
    (hfirst : W.word (4096 * page) = areaAddress (slotAt page size slot))
    (hcount : W.word (4096 * page + 4) = .ofNat (slotCount size - (free.length + 1)))
    (hrest : ∀ y, 4096 * page + 8 ≤ y →
      y < slotAt page size slot ∨ slotAt page size slot + size ≤ y → W.bytes y = V.bytes y) :
    (⟨page, slot :: free⟩ : Slab).Laid W size owner where
  freeList := hfirst
  allocated := hcount
  owner := by
    have howner : W.word (4096 * page + 12) = V.word (4096 * page + 12) := by
      apply MemView.word_congr
      intro y hle hlt
      apply hrest y (by omega)
      simp only [slotAt]
      omega
    exact howner.trans h.owner
  list := by
    have hlist : V.FreeList page size free := h.list
    refine ⟨hslot, hfree, hlist.congr hsize fun slot' hmem y hle hlt => ?_⟩
    have hne : slot ≠ slot' := fun heq => hlive (heq ▸ hmem)
    apply hrest y
    · simp only [slotAt] at hle
      omega
    · rcases slotAt_apart page size hne with hbefore | hafter
      · exact .inr (Nat.le_trans hbefore hle)
      · exact .inl (Nat.lt_of_lt_of_le hlt hafter)
  nodup := List.nodup_cons.mpr ⟨hlive, h.nodup⟩

namespace KernelMemory

variable {boot : VmmState} {s : KernelMemory} {V : MemView} {cache page slot n : Nat}
  {slabs pre post : List Slab} {free : List Nat} {q : Slab} {halt : KernelMemory → Prop}

/-- A slot that is in use is not found in the free list. -/
theorem Shows.notFree {size : Nat} (h : s.Shows boot V) (hpage : page < 0x10000)
    (huse : ∃ frame, V.space.use page = some (.frame frame)) (hsize : 4 ≤ size)
    (hslot : slot < slotCount size) (hlist : V.FreeList page size free) (hlive : slot ∉ free)
    (hn : free.length < n) :
    Ensures n (loop (nextFree (areaAddress (slotAt page size slot))) (link page size free)) s
      (fun twice s' => twice = false ∧ s' = s) halt := by
  obtain ⟨frame, hframe⟩ := huse
  refine ensures_loop (fun k current s' => s' = s ∧ ∃ rest, current = link page size rest ∧
    V.FreeList page size rest ∧ slot ∉ rest ∧ rest.length = k) ?_
    ⟨rfl, free, rfl, hlist, hlive, rfl⟩ hn
  rintro k current s' ⟨rfl, rest, rfl, hrest, hnot, hlen⟩
  rw [nextFree]
  cases rest with
  | nil =>
      rw [if_pos (show link page size [] = 0 from rfl), ensures_pure]
      exact ⟨rfl, rfl⟩
  | cons slot' rest =>
      obtain ⟨hslot', hfree, htail⟩ := hrest
      rw [List.mem_cons, not_or] at hnot
      have hback := Space.backed_slot hframe hslot'
      have hend := slot_end hslot
      have hend' := slot_end hslot'
      have hne : areaAddress (slotAt page size slot') ≠ areaAddress (slotAt page size slot) := by
        intro heq
        rw [areaAddress_inj (by simp only [slotAt]; omega) (by simp only [slotAt]; omega)] at heq
        rcases slotAt_apart page size hnot.1 with hbefore | hafter
        · omega
        · omega
      rw [link, if_neg (areaAddress_slot_ne_zero hpage hsize hslot'), if_neg hne, ensures_bind,
        h.load32 (hback.sub (Nat.le_refl _) (Nat.add_le_add_left hsize _)), hfree.next,
        ensures_pure]
      exact ⟨rest.length, hlen ▸ Nat.lt_succ_self _, rfl, rest, rfl, htail, hnot.2, rfl⟩

/-- The link behind some pages, if the first of them is linked from `prev`. -/
def linkBehind (prev : PageLink) : List Slab → PageLink
  | [] => prev
  | q :: rest => linkBehind (.next (areaAddress (4096 * q.page))) rest

theorem linkBehind_concat (prev : PageLink) (pre : List Slab) (q : Slab) :
    linkBehind prev (pre ++ [q]) = .next (areaAddress (4096 * q.page)) := by
  induction pre generalizing prev with
  | nil => rfl
  | cons p pre ih => exact ih _

/-- The search ends at the link to the page. -/
theorem Shows.findLink (h : s.Shows boot V) (hc : V.Cached cache (pre ++ q :: post))
    (hn : 0x10000 < n) :
    Ensures n (loop (nextLink cache (areaAddress (4096 * q.page))) .head) s
      (fun prev s' => prev = linkBehind .head pre ∧ s' = s) halt := by
  have hlength := hc.length_le h.space
  rw [List.length_append, List.length_cons] at hlength
  refine ensures_loop (fun k prev s' => s' = s ∧ ∃ done rest, pre = done ++ rest ∧
    prev = linkBehind .head done ∧ rest.length = k) ?_ ⟨rfl, [], pre, rfl, rfl, rfl⟩ (by omega)
  rintro k prev s' ⟨rfl, done, rest, rfl, rfl, hlen⟩
  have hpage := hc.lt h.space (show q ∈ done ++ rest ++ q :: post by simp)
  -- the link is the one to the first of the pages that are left
  have hload : ∀ p tail, rest ++ q :: post = p :: tail →
      ∀ {post' : UInt32 → KernelMemory → Prop},
      Ensures n ((linkBehind .head done).load cache) s' post' halt ↔
        post' (areaAddress (4096 * p.page)) s' := by
    intro p tail htail post'
    have hlist := hc.list
    rw [List.append_assoc, htail] at hlist
    rcases List.eq_nil_or_concat done with rfl | ⟨front, last, rfl⟩
    · rw [linkBehind, PageLink.load, ensures_bind, ensures_get, ensures_pure, h.caches, hlist.1]
    · rw [List.concat_eq_append, List.append_assoc, List.singleton_append] at hlist
      have hmem : last ∈ front.concat last ++ rest ++ q :: post := by simp
      obtain ⟨frame, huse⟩ := hc.backed last hmem
      have hback := Space.backed_page huse
      rw [List.concat_eq_append, linkBehind_concat, PageLink.load, areaAddress_eight,
        h.load32 (hback.sub (by omega) (by omega)), hlist.behind.1]
  rw [nextLink, ensures_bind]
  cases rest with
  | nil =>
      rw [hload q post rfl, if_neg (by simp), ensures_pure]
      exact ⟨by rw [List.append_nil], rfl⟩
  | cons p rest =>
      have hp : p ∈ done ++ p :: rest ++ q :: post := by simp
      have hpage' := hc.lt h.space hp
      have hne : p.page ≠ q.page := hc.page_ne (.inl (by simp))
      have hne' : areaAddress (4096 * p.page) ≠ areaAddress (4096 * q.page) := by
        rw [Ne, areaAddress_inj (by omega) (by omega)]
        omega
      rw [hload p (rest ++ q :: post) rfl, if_pos ⟨areaAddress_ne_zero (by omega), hne'⟩,
        ensures_pure]
      refine ⟨rest.length, hlen ▸ Nat.lt_succ_self _, rfl, done ++ [p], rest, ?_, ?_, rfl⟩
      · rw [List.append_assoc, List.singleton_append]
      · rw [linkBehind_concat]

end KernelMemory

namespace MemView

variable {V W : MemView} {cache : Nat} {pre post front : List Slab} {q last : Slab}

/-- A page has been taken out of the list of the cache; at most links in headers have changed. -/
structure Unlinked (V W : MemView) (cache : Nat) (pre post : List Slab) : Prop where
  cached : W.Cached cache (pre ++ post)
  space : W.space = V.space
  bytes : ∀ y, (∀ q ∈ pre, y < 4096 * q.page ∨ 4096 * q.page + 16 ≤ y) → W.bytes y = V.bytes y
  others : ∀ other ≠ cache, W.caches other = V.caches other
  size : W.slotSize cache = V.slotSize cache
  cachesAt : W.cachesAt = V.cachesAt

theorem Cached.distinct_append (hc : V.Cached cache (pre ++ q :: post)) :
    ((pre ++ post).map Slab.page).Nodup := by
  refine hc.distinct.sublist (List.Sublist.map _ ?_)
  exact List.Sublist.append_left (List.sublist_cons_self q post) pre

theorem Cached.backed_append (hc : V.Cached cache (pre ++ q :: post)) {p : Slab}
    (hp : p ∈ pre ++ post) : ∃ frame, V.space.use p.page = some (.frame frame) := by
  refine hc.backed p ?_
  rw [List.mem_append, List.mem_cons]
  exact (List.mem_append.mp hp).imp id .inr

theorem Cached.unlink_head (hc : V.Cached cache (q :: post)) :
    V.Unlinked (V.setPageList cache (V.word (4096 * q.page + 8))) cache [] post := by
  have hsize : (V.setPageList cache (V.word (4096 * q.page + 8))).slotSize cache =
      V.slotSize cache := slotSize_setPageList
  have hhead : ((V.setPageList cache (V.word (4096 * q.page + 8))).caches cache).pageList =
      V.word (4096 * q.page + 8) := by simp [setPageList]
  refine ⟨⟨?_, ?_, ?_, ?_, ?_⟩, rfl, fun _ _ => rfl, fun other hne => ?_, hsize, rfl⟩
  · rw [hsize, hhead]
    exact hc.list.2.2.congr hc.least fun _ _ _ _ => rfl
  · exact fun p hp => hc.backed p (List.mem_cons_of_mem q hp)
  · exact (List.nodup_cons.mp hc.distinct).2
  · rw [hsize]
    exact hc.least
  · rw [hsize]
    exact hc.most
  · exact Function.update_of_ne hne _ _

theorem Cached.unlink_next (hc : V.Cached cache (front ++ [last] ++ q :: post)) :
    V.Unlinked (V.writeWord (4096 * last.page + 8) (V.word (4096 * q.page + 8))) cache
      (front ++ [last]) post := by
  have hchanged : V.ChangedIn (4096 * last.page + 8) 4
      (V.writeWord (4096 * last.page + 8) (V.word (4096 * q.page + 8))) := changedIn_writeWord _
  have hc' : V.Cached cache (front ++ last :: q :: post) := by
    rwa [List.append_assoc, List.singleton_append] at hc
  have hpage : V.ChangedIn (4096 * last.page) 4096
      (V.writeWord (4096 * last.page + 8) (V.word (4096 * q.page + 8))) :=
    hchanged.widen (by omega) (by omega)
  have hlaid : last.Laid (V.writeWord (4096 * last.page + 8) (V.word (4096 * q.page + 8)))
      (V.slotSize cache) (cacheAddress V.cachesAt cache) :=
    (hc'.laid (by simp)).congr_next hc.least fun y _ hy => hchanged.bytes y (by omega)
  have hrest : (V.writeWord (4096 * last.page + 8) (V.word (4096 * q.page + 8))).PageList
      (V.slotSize cache) (cacheAddress V.cachesAt cache) post (V.word (4096 * q.page + 8)) := by
    refine hc.list.behind.congr hc.least fun p hp y hy => ?_
    exact hc'.own_kept hpage (.inr (List.mem_cons_of_mem q hp)) hy
  refine ⟨⟨?_, ?_, hc.distinct_append, hc.least, hc.most⟩, rfl, fun y hy => ?_, fun _ _ => rfl, rfl,
    rfl⟩
  · rw [List.append_assoc, List.singleton_append]
    refine hc'.list.relink hc.least (fun p hp y hy => hc'.own_kept hpage (.inl hp) hy) hlaid rfl ?_
    rwa [word_writeWord]
  · exact fun p hp => hc.backed_append hp
  · have hout := hy last (by simp)
    exact hchanged.bytes y (by omega)

end MemView

namespace KernelMemory

variable {boot : VmmState} {s : KernelMemory} {V : MemView} {cache page slot n : Nat}
  {slabs pre post : List Slab} {free : List Nat} {q : Slab} {halt : KernelMemory → Prop}

theorem Shows.unlinkPage (h : s.Shows boot V) (hc : V.Cached cache (pre ++ q :: post))
    (hn : 0x10000 < n) :
    Ensures n (unlinkPage cache (areaAddress (4096 * q.page))) s
      (fun _ s' => ∃ W, s'.Shows boot W ∧ V.Unlinked W cache pre post) halt := by
  rw [Memory.unlinkPage]
  refine (h.findLink hc hn).bind ?_
  rintro prev s' ⟨rfl, rfl⟩
  obtain ⟨frame, huse⟩ := hc.backed q (by simp)
  have hback := Space.backed_page huse
  have hnext : ∀ {post' : UInt32 → KernelMemory → Prop},
      Ensures n (Memory.load32 (areaAddress (4096 * q.page) + 8)) s' post' halt ↔
        post' (V.word (4096 * q.page + 8)) s' := by
    intro post'
    rw [areaAddress_eight, h.load32 (hback.sub (by omega) (by omega))]
  rcases List.eq_nil_or_concat pre with rfl | ⟨front, last, rfl⟩
  · rw [linkBehind, ensures_bind, PageLink.load, ensures_bind, ensures_get, ensures_pure, h.caches,
      hc.list.1, if_pos rfl, ensures_bind, hnext, PageLink.store, ensures_modify]
    exact ⟨_, h.setPageList cache _, hc.unlink_head⟩
  · rw [List.concat_eq_append] at hc ⊢
    obtain ⟨frame', huse'⟩ := hc.backed last (by simp)
    have hback' := Space.backed_page huse'
    have hlist := hc.list
    rw [List.append_assoc, List.singleton_append] at hlist
    rw [linkBehind_concat, ensures_bind, PageLink.load, areaAddress_eight,
      h.load32 (hback'.sub (by omega) (by omega)), hlist.behind.1, if_pos rfl, ensures_bind, hnext,
      PageLink.store, areaAddress_eight]
    exact (h.store32 (hback'.sub (by omega) (by omega)) _).imp fun _ s₁ hs₁ =>
      ⟨_, hs₁, hc.unlink_next⟩

/-- The slot is poisoned and comes to the front of the free list. -/
theorem Shows.pushSlot (h : s.Shows boot V) (hc : V.Cached cache (pre ++ ⟨page, free⟩ :: post))
    (hslot : slot < slotCount (V.slotSize cache)) (hlive : slot ∉ free) {α : Type} {c : MemM α}
    {result : α → KernelMemory → Prop}
    (hrest : ∀ s' W, s'.Shows boot W → V.ChangedIn (4096 * page) 4096 W →
      W.word (4096 * page + 4) = .ofNat (slotCount (V.slotSize cache) - (free.length + 1)) →
      (∀ y, 4096 * page + 16 ≤ y → y < slotAt page (V.slotSize cache) slot ∨
        slotAt page (V.slotSize cache) slot + V.slotSize cache ≤ y → W.bytes y = V.bytes y) →
      W.Cached cache (pre ++ ⟨page, slot :: free⟩ :: post) → Ensures n c s' result halt) :
    Ensures n (do
      Memory.memset (areaAddress (slotAt page (V.slotSize cache) slot)) poisonByte
        (V.slotSize cache)
      let freeList ← Memory.load32 (areaAddress (4096 * page))
      Memory.store32 (areaAddress (slotAt page (V.slotSize cache) slot)) freeList
      Memory.store32 (areaAddress (4096 * page)) (areaAddress (slotAt page (V.slotSize cache) slot))
      let numAllocated ← Memory.load32 (areaAddress (4096 * page + 4))
      Memory.store32 (areaAddress (4096 * page + 4)) (numAllocated - 1)
      c) s result halt := by
  have hmem : (⟨page, free⟩ : Slab) ∈ pre ++ ⟨page, free⟩ :: post := by simp
  have hlaid := hc.laid hmem
  have hsize := hc.least
  have hlength : free.length < slotCount (V.slotSize cache) := hlaid.length_lt hslot hlive
  have hfirst : V.word (4096 * page) = link page (V.slotSize cache) free := hlaid.freeList
  have hallocated : V.word (4096 * page + 4) =
    .ofNat (slotCount (V.slotSize cache) - free.length) := hlaid.allocated
  obtain ⟨frame, huse⟩ : ∃ frame, V.space.use page = some (.frame frame) := hc.backed _ hmem
  have hback := Space.backed_page huse
  have hbackSlot := Space.backed_slot huse hslot
  have hend := slot_end hslot
  have hplace : slotAt page (V.slotSize cache) slot = 4096 * page + 16 + slot * V.slotSize cache :=
    rfl
  generalize hposition : slotAt page (V.slotSize cache) slot = position at hbackSlot hplace ⊢
  -- first the slot itself, then the two words of the header
  refine (h.memset hbackSlot poisonByte).bind fun _ s₁ hs₁ => ?_
  have hpoison : V.ChangedIn position (V.slotSize cache)
      (V.write position (List.replicate (V.slotSize cache) poisonByte)) := by
    have hwrite := MemView.changedIn_write (V := V) (x := position)
      (List.replicate (V.slotSize cache) poisonByte)
    rwa [List.length_replicate] at hwrite
  have hpoisoned : ∀ y, position ≤ y → y < position + V.slotSize cache →
      (V.write position (List.replicate (V.slotSize cache) poisonByte)).bytes y = poisonByte :=
    fun y hle hlt => MemView.bytes_write_replicate hle hlt
  generalize V.write position (List.replicate (V.slotSize cache) poisonByte) = V₁
    at hs₁ hpoison hpoisoned
  have hspace₁ := hpoison.space
  rw [ensures_bind, hs₁.load32 (hspace₁ ▸ hback.sub (Nat.le_refl _) (by omega)),
    hpoison.word (.inl (by omega)), hfirst]
  refine (hs₁.store32 (hspace₁ ▸ hbackSlot.sub (Nat.le_refl _) (by omega)) _).bind
    fun _ s₂ hs₂ => ?_
  refine (hs₂.store32 (hspace₁ ▸ hback.sub (Nat.le_refl _) (by omega)) _).bind fun _ s₃ hs₃ => ?_
  rw [ensures_bind, hs₃.load32 (hspace₁ ▸ hback.sub (by omega) (by omega)),
    MemView.word_writeWord_of_ne _ (.inl (Nat.le_refl _)),
    MemView.word_writeWord_of_ne _ (.inr (by omega)), hpoison.word (.inl (by omega)), hallocated]
  refine (hs₃.store32 (hspace₁ ▸ hback.sub (by omega) (by omega)) _).bind fun _ s₄ hs₄ => ?_
  generalize hV₂ : V₁.writeWord position _ = V₂ at hs₄
  generalize hW : MemView.writeWord _ (4096 * page + 4) _ = W at hs₄
  have hslotOnly : V.ChangedIn position (V.slotSize cache) V₂ := by
    rw [← hV₂]
    exact hpoison.writeWord (Nat.le_refl _) (by omega) _
  have hheader : V₂.ChangedIn (4096 * page) 8 W := by
    rw [← hW]
    exact ((MemView.ChangedIn.refl V₂ _ 8).writeWord (Nat.le_refl _) (by omega) _).writeWord
      (by omega) (by omega) _
  have hpageOnly : V.ChangedIn (4096 * page) 4096 W :=
    (hslotOnly.widen (by omega) (by omega)).trans (hheader.widen (by omega) (by omega))
  have hcount : W.word (4096 * page + 4) =
      .ofNat (slotCount (V.slotSize cache) - (free.length + 1)) := by
    have hsucc : slotCount (V.slotSize cache) - free.length =
        slotCount (V.slotSize cache) - (free.length + 1) + 1 := by omega
    rw [← hW, MemView.word_writeWord, hsucc, UInt32.ofNat_add]
    exact UInt32.add_sub_cancel _ _
  have hkept : ∀ y, 4096 * page + 8 ≤ y → y < position ∨ position + V.slotSize cache ≤ y →
      W.bytes y = V.bytes y := by
    intro y hle hout
    rw [hheader.bytes y (by omega), hslotOnly.bytes y (by omega)]
  refine hrest s₄ W hs₄ hpageOnly hcount
    (fun y hle hout => hkept y (by omega) (hposition ▸ hout)) ?_
  refine hc.update hpageOnly ?_ rfl (hlaid.push hsize hslot hlive ⟨?_, ?_⟩ ?_ hcount ?_)
  · exact (hheader.word (.inr (Nat.le_refl _))).trans (hslotOnly.word (.inl (by omega)))
  · rw [hposition, hheader.word (.inr (by omega)), ← hV₂, MemView.word_writeWord]
  · rw [hposition]
    intro y hle hlt
    rw [hheader.bytes y (by omega), ← hV₂, MemView.bytes_writeWord_of_not_mem (by omega)]
    exact hpoisoned y (by omega) hlt
  · rw [hposition, ← hW, MemView.word_writeWord_of_ne _ (.inr (Nat.le_refl _)),
      MemView.word_writeWord]
  · rw [hposition]
    exact hkept

end KernelMemory

/-- A slot has been given back, and with the last one of a page the page. -/
structure MemView.SlotFreed (V W : MemView) (cache : Nat) (pre post slabs' : List Slab)
    (page slot : Nat) (free : List Nat) : Prop where
  cached : W.Cached cache slabs'
  slabs : (free.length + 1 < slotCount (V.slotSize cache) ∧
      slabs' = pre ++ ⟨page, slot :: free⟩ :: post ∧ W.space = V.space) ∨
    (free.length + 1 = slotCount (V.slotSize cache) ∧ slabs' = pre ++ post ∧
      V.space.Vacated page 1 W.space)
  bytes : ∀ y, (∀ q ∈ pre, y < 4096 * q.page ∨ 4096 * q.page + 16 ≤ y) →
    y < 4096 * page ∨ 4096 * page + 16 ≤ y → y < slotAt page (V.slotSize cache) slot ∨
      slotAt page (V.slotSize cache) slot + V.slotSize cache ≤ y → W.bytes y = V.bytes y
  others : ∀ other ≠ cache, W.caches other = V.caches other
  size : W.slotSize cache = V.slotSize cache
  cachesAt : W.cachesAt = V.cachesAt

/-- The cache stays as it is when a page that it does not use is given up. -/
theorem MemView.Cached.vacated {V : MemView} {cache page : Nat} {slabs : List Slab} {T : Space}
    (hc : V.Cached cache slabs) (hT : V.space.Vacated page 1 T) (hne : ∀ q ∈ slabs, q.page ≠ page) :
    ({ V with space := T } : MemView).Cached cache slabs := by
  refine ⟨hc.list.congr hc.least fun _ _ _ _ => rfl, fun q hq => ?_, hc.distinct, hc.least, hc.most⟩
  obtain ⟨frame, huse⟩ := hc.backed q hq
  have hpage := hne q hq
  exact ⟨frame, (hT.outside q.page (by omega)).trans huse⟩

namespace KernelMemory

variable {boot : VmmState} {s : KernelMemory} {V : MemView} {cache page slot n : Nat}
  {pre post : List Slab} {free : List Nat} {halt : KernelMemory → Prop}

/-- `slab_free` takes a slot back that is in use. -/
theorem Shows.slabFree (h : s.Shows boot V) (hc : V.Cached cache (pre ++ ⟨page, free⟩ :: post))
    (hslot : slot < slotCount (V.slotSize cache)) (hlive : slot ∉ free) (hn : 0x10000 < n) :
    Ensures n (slabFree cache (areaAddress (slotAt page (V.slotSize cache) slot))) s
      (fun _ s' => ∃ slabs' W, s'.Shows boot W ∧ V.SlotFreed W cache pre post slabs' page slot free)
      halt := by
  have hmem : (⟨page, free⟩ : Slab) ∈ pre ++ ⟨page, free⟩ :: post := by simp
  have hlaid := hc.laid hmem
  have hpage : page < 0x10000 := hc.lt h.space hmem
  obtain ⟨frame, huse⟩ : ∃ frame, V.space.use page = some (.frame frame) := hc.backed _ hmem
  have hback := Space.backed_page huse
  have hlist : V.FreeList page (V.slotSize cache) free := hlaid.list
  have hfirst : V.word (4096 * page) = link page (V.slotSize cache) free := hlaid.freeList
  have hlength : free.length < slotCount (V.slotSize cache) := hlaid.length_lt hslot hlive
  have hcount : slotCount (V.slotSize cache) ≤ 4080 := Nat.div_le_self _ _
  have hobject : (s.caches cache).objectSize.toNat = V.slotSize cache := by
    rw [h.caches, MemView.slotSize]
  rw [Memory.slabFree, if_neg (areaAddress_slot_ne_zero hpage hc.least hslot),
    page_of_slot hpage hc.least hslot]
  simp only [areaAddress_four]
  rw [ensures_bind, h.load32 (hback.sub (Nat.le_refl _) (by omega)), hfirst]
  refine (h.notFree hpage ⟨frame, huse⟩ hc.least hslot hlist hlive (by omega)).bind ?_
  rintro twice s' ⟨rfl, rfl⟩
  -- the slot is not on the free list, so this is no second `free`
  rw [if_neg Bool.false_ne_true, ensures_bind, ensures_get, hobject]
  refine h.pushSlot hc hslot hlive fun s₁ W hs₁ hpageOnly hallocated hkept hcached => ?_
  have hsize := hpageOnly.slotSize cache
  rw [ensures_bind, hs₁.load32 (hpageOnly.space ▸ hback.sub (by omega) (by omega)), hallocated]
  have hzero : UInt32.ofNat (slotCount (V.slotSize cache) - (free.length + 1)) = 0 ↔
      free.length + 1 = slotCount (V.slotSize cache) := by
    rw [← UInt32.toNat_inj, UInt32.toNat_ofNat', UInt32.toNat_zero]
    omega
  split
  next hlast =>
    -- the whole page is free now, and goes back to the virtual memory manager
    refine (hs₁.unlinkPage hcached hn).bind ?_
    rintro - s₂ ⟨U, hs₂, hunlinked⟩
    have hspace : U.space = V.space := hunlinked.space.trans hpageOnly.space
    have hpage' : page < virtPages := hpage
    have hdevice : ∀ other, page ≤ other → other < page + 1 →
        ∀ entry, U.space.use other ≠ some (.device entry) := by
      intro other hle hlt entry
      obtain rfl : other = page := by omega
      rw [hspace, huse]
      simp
    refine (hs₂.vmmFreePages hpage' (show page + 1 ≤ virtPages from hpage) hdevice).imp ?_
    rintro - s₃ ⟨T, hvacated, hs₃⟩
    have hne : ∀ q ∈ pre ++ post, q.page ≠ page := fun q hq =>
      hc.page_ne (List.mem_append.mp hq)
    refine ⟨_, _, hs₃, hunlinked.cached.vacated hvacated hne,
      .inr ⟨hzero.mp hlast, rfl, ?_⟩, ?_, ?_,
      ?_, ?_⟩
    · exact hspace ▸ hvacated
    · intro y hpre hheader hout
      refine (hunlinked.bytes y hpre).trans ?_
      rcases hheader with hbefore | hbehind
      · exact hpageOnly.bytes y (by omega)
      · exact hkept y hbehind hout
    · intro other hother
      exact (hunlinked.others other hother).trans (congrFun hpageOnly.caches other)
    · exact hunlinked.size.trans hsize
    · exact hunlinked.cachesAt.trans hpageOnly.cachesAt
  next hmore =>
    rw [ensures_pure]
    have hne : free.length + 1 ≠ slotCount (V.slotSize cache) := fun hlast =>
      hmore (hzero.mpr hlast)
    refine ⟨_, W, hs₁, hcached, .inl ⟨by omega, rfl, hpageOnly.space⟩, ?_, ?_, hsize,
      hpageOnly.cachesAt⟩
    · intro y _ hheader hout
      rcases hheader with hbefore | hbehind
      · exact hpageOnly.bytes y (by omega)
      · exact hkept y hbehind hout
    · exact fun other _ => congrFun hpageOnly.caches other

end KernelMemory

end AvrKernel.Memory

import AvrKernel.Memory.Heap

/-!
# Slots and pages of the heap come and go

A slot that is taken is one more object, and one that is given back is one object less. All other
objects keep their bytes, and so does the allocator what it needs.
-/

namespace AvrKernel.Memory

/-! ## Regions -/

theorem Space.Holds.perm {S : Space} {regions regions' : List Region} (h : S.Holds regions)
    (hperm : regions.Perm regions') : S.Holds regions' where
  fits r hr := h.fits r (hperm.mem_iff.mpr hr)
  apart := by
    have hsymm : ∀ {r r' : Region}, r.Apart r' → r'.Apart r := fun hapart => hapart.symm
    exact (hperm.pairwise_iff hsymm).mp h.apart
  covered page huse := by
    obtain ⟨r, hr, hin⟩ := h.covered page huse
    exact ⟨r, hperm.mem_iff.mp hr, hin⟩
  used r hr := h.used r (hperm.mem_iff.mpr hr)

theorem flatMap_update_perm {α β : Type} [DecidableEq α] (f : α → List β) {l : List α} {i : α}
    (hl : l.Nodup) (hi : i ∈ l) (before rest : List β) (b : β) :
    (l.flatMap (Function.update f i (before ++ b :: rest))).Perm
      (b :: l.flatMap (Function.update f i (before ++ rest))) := by
  induction l with
  | nil => cases hi
  | cons j l ih =>
      obtain ⟨hj, hrest⟩ := List.nodup_cons.mp hl
      rw [List.flatMap_cons, List.flatMap_cons]
      by_cases heq : j = i
      · subst heq
        have hsame : ∀ values : List β, l.flatMap (Function.update f j values) = l.flatMap f := by
          intro values
          refine List.flatMap_congr fun a ha => ?_
          have hne : a ≠ j := fun heq => hj (heq ▸ ha)
          exact Function.update_of_ne hne _ _
        rw [Function.update_self, Function.update_self, hsame, hsame, List.append_assoc,
          List.cons_append, List.append_assoc]
        exact List.perm_middle
      · have hmem : i ∈ l := (List.mem_cons.mp hi).resolve_left (Ne.symm heq)
        rw [Function.update_of_ne heq, Function.update_of_ne heq]
        exact (List.Perm.append_left (f j) (ih hrest hmem)).trans List.perm_middle

namespace Heap

variable {H : Heap} {i j page slot x y cap c : Nat} {q q' : Slab} {slabs pre post : List Slab}
  {free : List Nat}

def setSlabs (H : Heap) (i : Nat) (slabs : List Slab) : Heap :=
  { H with slabs := Function.update H.slabs i slabs }

@[simp] theorem slabs_setSlabs : (H.setSlabs i slabs).slabs i = slabs := Function.update_self ..

theorem slabs_setSlabs_of_ne (hne : j ≠ i) : (H.setSlabs i slabs).slabs j = H.slabs j :=
  Function.update_of_ne hne _ _

theorem setSlabs_self (h : H.slabs i = slabs) : H.setSlabs i slabs = H := by
  rw [setSlabs, ← h, Function.update_eq_self]

theorem regions_setSlabs : (H.setSlabs i slabs).regions =
    (List.range cacheCount).flatMap (Function.update (fun j => (H.slabs j).map Slab.region) i
      (slabs.map Slab.region)) ++ H.large := by
  have hslabs : (fun j => ((H.setSlabs i slabs).slabs j).map Slab.region) =
      Function.update (fun j => (H.slabs j).map Slab.region) i (slabs.map Slab.region) := by
    funext j
    by_cases heq : j = i
    · rw [heq, slabs_setSlabs, Function.update_self]
    · rw [slabs_setSlabs_of_ne heq, Function.update_of_ne heq]
  rw [regions, hslabs]
  rfl

/-- The free slots of a page do not matter to what is held. -/
theorem regions_replace (hpage : q'.page = q.page) :
    (H.setSlabs i (pre ++ q' :: post)).regions = (H.setSlabs i (pre ++ q :: post)).regions := by
  have hregion : q'.region = q.region := by rw [Slab.region, hpage, Slab.region]
  rw [regions_setSlabs, regions_setSlabs, List.map_append, List.map_cons, hregion, List.map_append,
    List.map_cons]

theorem regions_insert (hi : i < cacheCount) : (H.setSlabs i (pre ++ q :: post)).regions.Perm
    (q.region :: (H.setSlabs i (pre ++ post)).regions) := by
  rw [regions_setSlabs, regions_setSlabs, List.map_append, List.map_cons, List.map_append,
    ← List.cons_append]
  exact (flatMap_update_perm _ List.nodup_range (List.mem_range.mpr hi) _ _ _).append_right _

theorem live_insert (hi : i < cacheCount) : (H.setSlabs i (pre ++ q :: post)).Live x cap ↔
    (q.LiveAt i x ∧ cap = cacheSize i) ∨ (H.setSlabs i (pre ++ post)).Live x cap := by
  constructor
  · rintro (⟨j, hj, q', hq', hlive, rfl⟩ | hlarge)
    · by_cases heq : j = i
      · subst heq
        rw [slabs_setSlabs, List.mem_append, List.mem_cons] at hq'
        rcases hq' with hmem | rfl | hmem
        · exact .inr (.inl ⟨j, hj, q', by simp [hmem], hlive, rfl⟩)
        · exact .inl ⟨hlive, rfl⟩
        · exact .inr (.inl ⟨j, hj, q', by simp [hmem], hlive, rfl⟩)
      · rw [slabs_setSlabs_of_ne heq] at hq'
        exact .inr (.inl ⟨j, hj, q', by rwa [slabs_setSlabs_of_ne heq], hlive, rfl⟩)
    · exact .inr (.inr hlarge)
  · rintro (⟨hlive, rfl⟩ | ⟨j, hj, q', hq', hlive, rfl⟩ | hlarge)
    · exact .inl ⟨i, hi, q, by simp, hlive, rfl⟩
    · by_cases heq : j = i
      · subst heq
        rw [slabs_setSlabs, List.mem_append] at hq'
        refine .inl ⟨j, hj, q', ?_, hlive, rfl⟩
        rw [slabs_setSlabs, List.mem_append, List.mem_cons]
        exact hq'.imp id .inr
      · rw [slabs_setSlabs_of_ne heq] at hq'
        exact .inl ⟨j, hj, q', by rwa [slabs_setSlabs_of_ne heq], hlive, rfl⟩
    · exact .inr hlarge

end Heap

theorem Heap.setSlabs_nil_subset {H : Heap} {i : Nat} (j : Nat) :
    (H.setSlabs i []).slabs j ⊆ H.slabs j := by
  by_cases heq : j = i
  · subst heq
    rw [slabs_setSlabs]
    exact List.nil_subset _
  · rw [slabs_setSlabs_of_ne heq]
    exact List.Subset.refl _

/-! ## Objects of one page -/

namespace Slab

variable {i page size slot x : Nat} {free : List Nat} {q : Slab}

theorem liveSlot_pop (hslot : slot < slotCount size) (hfree : slot ∉ free) :
    (⟨page, free⟩ : Slab).LiveSlot size x ↔
      x = slotAt page size slot ∨ (⟨page, slot :: free⟩ : Slab).LiveSlot size x := by
  constructor
  · rintro ⟨slot', hslot', hnot, rfl⟩
    by_cases heq : slot' = slot
    · exact .inl (by rw [heq])
    · refine .inr ⟨slot', hslot', ?_, rfl⟩
      rw [List.mem_cons, not_or]
      exact ⟨heq, hnot⟩
  · rintro (rfl | ⟨slot', hslot', hnot, rfl⟩)
    · exact ⟨slot, hslot, hfree, rfl⟩
    · exact ⟨slot', hslot', fun hmem => hnot (List.mem_cons_of_mem slot hmem), rfl⟩

theorem liveAt_pop (hslot : slot < slotCount (cacheSize i)) (hfree : slot ∉ free) :
    (⟨page, free⟩ : Slab).LiveAt i x ↔
      x = slotAt page (cacheSize i) slot ∨ (⟨page, slot :: free⟩ : Slab).LiveAt i x :=
  liveSlot_pop hslot hfree

/-- No slot is in use when all of them are free. -/
theorem not_liveSlot_of_full (hnodup : q.free.Nodup)
    (hlt : ∀ slot ∈ q.free, slot < slotCount size) (hfull : q.free.length = slotCount size) :
    ¬ q.LiveSlot size x := by
  rintro ⟨slot, hslot, hnot, -⟩
  exact Nat.ne_of_lt (length_lt_of_lt hnodup hlt hslot hnot) hfull

end Slab

/-! ## A slot is taken -/

/-- There is one more object, and all others have kept their bytes. -/
structure MemView.Serves (V W : MemView) (H H' : Heap) (x cap : Nat) : Prop where
  live : ∀ y c, H'.Live y c ↔ (y = x ∧ c = cap) ∨ H.Live y c
  fresh : ∀ y c, H.Live y c → y ≠ x
  bytes : ∀ y c, H.Live y c → ∀ z, y ≤ z → z < y + c → W.bytes z = V.bytes z
  supply : W.space.pool.supply = V.space.pool.supply

/-- There is one object less, and all others have kept their bytes. -/
structure MemView.Releases (V W : MemView) (H H' : Heap) (x : Nat) : Prop where
  live : ∀ y c, H'.Live y c ↔ H.Live y c ∧ y ≠ x
  bytes : ∀ y c, H'.Live y c → ∀ z, y ≤ z → z < y + c → W.bytes z = V.bytes z
  supply : W.space.pool.supply = V.space.pool.supply

theorem MemView.Cached.frame {V W : MemView} {i : Nat} {slabs : List Slab} (hc : V.Cached i slabs)
    (hcaches : W.caches i = V.caches i) (hcachesAt : W.cachesAt = V.cachesAt)
    (hspace : ∀ q ∈ slabs, W.space.use q.page = V.space.use q.page)
    (hbytes : ∀ q ∈ slabs, ∀ y, q.Own (V.slotSize i) y → W.bytes y = V.bytes y) :
    W.Cached i slabs := by
  have hsize : W.slotSize i = V.slotSize i := by rw [slotSize, hcaches, slotSize]
  refine ⟨?_, fun q hq => ?_, hc.distinct, hsize ▸ hc.least, hsize ▸ hc.most⟩
  · rw [hsize, hcaches, hcachesAt]
    exact hc.list.congr hc.least hbytes
  · rw [hspace q hq]
    exact hc.backed q hq

section Steps

variable {boot : VmmState} {held : List Region} {s s' : KernelMemory} {V W : MemView} {H : Heap}
  {i page slot x y cap : Nat} {slabs' : List Slab}

theorem HeapAt.page_ne_of_unused (h : HeapAt boot held s V H) (hunused : V.space.use page = none) :
    (∀ j < cacheCount, ∀ q ∈ H.slabs j, q.page ≠ page) ∧
      ∀ r ∈ H.large, ¬ r.Contains page := by
  constructor
  · rintro j hj q hq rfl
    obtain ⟨frame, huse⟩ := (h.laid.cached j hj).backed q hq
    rw [hunused] at huse
    cases huse
  · intro r hr hin
    obtain ⟨frame, huse⟩ := h.largeUse hr hin
    rw [hunused] at huse
    cases huse

/-- What belongs to the allocator in some of its pages lies in these. -/
theorem HeapAt.own_region {H' : Heap} (h : HeapAt boot held s V H)
    (hslabs : ∀ j, H'.slabs j ⊆ H.slabs j) (hlarge : H'.large = H.large) (hy : H'.Own y) :
    V.space.Backed y ∧ ∃ r ∈ H'.regions, r.Contains (y / 4096) := by
  rcases hy with ⟨j, hj, q, hq, hown⟩ | ⟨r, hr, hle, hlt⟩
  · have hpage := (h.laidOf hj (hslabs j hq)).own_page hown
    obtain ⟨frame, huse⟩ := (h.laid.cached j hj).backed q (hslabs j hq)
    refine ⟨⟨frame, hpage ▸ huse⟩, q.region, Heap.region_mem hj hq, ?_⟩
    exact Slab.region_contains.mpr hpage
  · have hr' : r ∈ H.large := hlarge ▸ hr
    have hcount := h.largeFits hr'
    have hpage : y / 4096 = r.first := by omega
    have hin : r.Contains r.first := ⟨Nat.le_refl _, by omega⟩
    obtain ⟨frame, huse⟩ := h.largeUse hr' hin
    exact ⟨⟨frame, hpage ▸ huse⟩, r, Heap.large_mem hr, hpage ▸ hin⟩

theorem HeapAt.own_all (h : HeapAt boot held s V H) (hy : H.Own y) :
    V.space.Backed y ∧ ∃ r ∈ H.regions, r.Contains (y / 4096) :=
  h.own_region (fun _ => List.Subset.refl _) rfl hy

/-- No page of a cache is one of the other caches or the large blocks. -/
theorem HeapAt.others_off (h : HeapAt boot held s V H) (hi : i < cacheCount)
    (hpage : (∃ q ∈ H.slabs i, q.page = page) ∨ V.space.use page = none) :
    ∀ r ∈ (H.setSlabs i []).regions, ¬ r.Contains page := by
  intro r hr hin
  rw [Heap.regions, List.mem_append, List.mem_flatMap] at hr
  have hoff : (∀ j < cacheCount, j ≠ i → ∀ q ∈ H.slabs j, q.page ≠ page) ∧
      ∀ r ∈ H.large, ¬ r.Contains page := by
    rcases hpage with ⟨q, hq, rfl⟩ | hunused
    · refine ⟨fun j hj hne q' hq' => Heap.page_ne_of_cache h.apart hj hi hne hq' hq, fun r hr => ?_⟩
      exact Heap.not_contains_slab h.apart hi hq hr
    · obtain ⟨hslabs, hlarge⟩ := h.page_ne_of_unused hunused
      exact ⟨fun j hj _ => hslabs j hj, hlarge⟩
  rcases hr with ⟨j, hj, hr⟩ | hr
  · obtain ⟨q, hq, rfl⟩ := List.mem_map.mp hr
    by_cases heq : j = i
    · subst heq
      rw [Heap.slabs_setSlabs] at hq
      cases hq
    · rw [Heap.slabs_setSlabs_of_ne heq] at hq
      exact hoff.1 j (List.mem_range.mp hj) heq q hq (Slab.region_contains.mp hin).symm
  · exact hoff.2 r hr hin

/-- The other caches and the large blocks, if only one page of a cache has been written to. -/
theorem HeapAt.replace (h : HeapAt boot held s V H) (hi : i < cacheCount)
    (hpage : (∃ q ∈ H.slabs i, q.page = page) ∨ V.space.use page = none)
    (hcached : W.Cached i slabs') (hused : ∀ q ∈ slabs', q.free.length < slotCount (cacheSize i))
    (hsize : W.slotSize i = V.slotSize i) (hothers : ∀ j ≠ i, W.caches j = V.caches j)
    (hcachesAt : W.cachesAt = V.cachesAt)
    (houtside : ∀ other ≠ page, W.space.use other = V.space.use other)
    (hkept : ∀ y, V.space.Backed y → (∀ q ∈ H.slabs i, y / 4096 ≠ q.page) → y / 4096 ≠ page →
      W.bytes y = V.bytes y) :
    W.HeapLaid (H.setSlabs i slabs') := by
  have hoff := h.others_off hi hpage
  have hspace : ∀ r ∈ (H.setSlabs i []).regions, ∀ other, r.Contains other →
      W.space.use other = V.space.use other :=
    fun r hr other hin => houtside other fun heq => hoff r hr (heq ▸ hin)
  have hbytes : ∀ y, (H.setSlabs i []).Own y → W.bytes y = V.bytes y := by
    intro y hy
    obtain ⟨hback, r, hr, hin⟩ := h.own_region Heap.setSlabs_nil_subset rfl hy
    refine hkept y hback (fun q hq heq => ?_) fun heq => hoff r hr (heq ▸ hin)
    exact h.others_off hi (.inl ⟨q, hq, rfl⟩) r hr (heq ▸ hin)
  have hmem : ∀ {j q}, j < cacheCount → j ≠ i → q ∈ H.slabs j → q ∈ (H.setSlabs i []).slabs j :=
    fun hj hne hq => by rwa [Heap.slabs_setSlabs_of_ne hne]
  refine ⟨fun j hj => ?_, fun j hj => ?_, fun j hj => ?_, fun r hr => ?_⟩
  · by_cases heq : j = i
    · rw [heq, hsize]
      exact h.laid.sizes i hi
    · rw [MemView.slotSize, hothers j heq]
      exact h.laid.sizes j hj
  · by_cases heq : j = i
    · subst heq
      rwa [Heap.slabs_setSlabs]
    · rw [Heap.slabs_setSlabs_of_ne heq]
      refine (h.laid.cached j hj).frame (hothers j heq) hcachesAt (fun q hq => ?_) fun q hq y hy =>
        ?_
      · exact hspace q.region (Heap.region_mem hj (hmem hj heq hq)) q.page
          (Slab.region_contains.mpr rfl)
      · rw [h.laid.sizes j hj] at hy
        exact hbytes y (.inl ⟨j, hj, q, hmem hj heq hq, hy⟩)
  · by_cases heq : j = i
    · subst heq
      rwa [Heap.slabs_setSlabs]
    · rw [Heap.slabs_setSlabs_of_ne heq]
      exact h.laid.used j hj
  · obtain ⟨hkind, hcount, hword⟩ := h.laid.large r hr
    refine ⟨hkind, hcount, (MemView.word_congr fun y hle hlt => ?_).trans hword⟩
    exact hbytes y (.inr ⟨r, hr, hle, hlt⟩)

/-- `slab_alloc` adds an object to the heap. -/
theorem HeapAt.takeSlot (h : HeapAt boot held s V H) (hi : i < cacheCount)
    (htaken : V.SlotTaken W i (H.slabs i) slabs' page slot) (hs' : s'.Shows boot W) :
    HeapAt boot held s' W (H.setSlabs i slabs') ∧
      V.Serves W H (H.setSlabs i slabs') (slotAt page (cacheSize i) slot) (cacheSize i) := by
  have hsize := h.laid.sizes i hi
  obtain ⟨pre, free, post, rfl, -, hcases⟩ := htaken.slot
  -- the page of the slot was one of the cache before, or it was not in use
  have hpage : (∃ q ∈ H.slabs i, q.page = page) ∨ V.space.use page = none := by
    rcases hcases with ⟨hslabs, -⟩ | ⟨-, -, -, -, hlowest, -⟩
    · exact .inl ⟨⟨page, slot :: free⟩, by simp [hslabs], rfl⟩
    · exact .inr (Space.use_of_run hlowest.run (Nat.le_refl page) (Nat.lt_succ_self page))
  have hspace : ∀ other ≠ page, W.space.use other = V.space.use other := by
    intro other hne
    rcases hcases with ⟨-, hspace⟩ | ⟨-, -, -, -, -, hpages⟩
    · rw [hspace]
    · exact hpages.outside other (by omega)
  -- a slot that was free, in a page that may have been free as a whole
  have hslot : slot < slotCount (cacheSize i) ∧ slot ∉ free ∧
      free.length < slotCount (cacheSize i) := by
    rcases hcases with ⟨hslabs, -⟩ | ⟨-, -, -, hslots, -, -⟩
    · have hlaid := h.laidOf hi (show ⟨page, slot :: free⟩ ∈ H.slabs i by simp [hslabs])
      exact ⟨hlaid.list.lt slot List.mem_cons_self, (List.nodup_cons.mp hlaid.nodup).1,
        hlaid.length_le⟩
    · rw [hsize] at hslots
      have hnodup : (slot :: free).Nodup := hslots ▸ List.nodup_range'
      have hmem : slot ∈ List.range' 0 (slotCount (cacheSize i)) := hslots ▸ List.mem_cons_self
      have hlength := congrArg List.length hslots
      rw [List.length_cons, List.length_range'] at hlength
      exact ⟨by simpa using hmem, (List.nodup_cons.mp hnodup).1, by omega⟩
  -- in a new page nothing was live
  have hbefore : ∀ y c, H.Live y c ↔
      ((⟨page, slot :: free⟩ : Slab).LiveAt i y ∧ c = cacheSize i) ∨
        (H.setSlabs i (pre ++ post)).Live y c := by
    intro y c
    rcases hcases with ⟨hslabs, -⟩ | ⟨rfl, hslabs, -, hslots, -, -⟩
    · rw [← Heap.live_insert hi, Heap.setSlabs_self hslabs]
    · rw [List.nil_append, Heap.setSlabs_self hslabs]
      refine ⟨.inr, ?_⟩
      rintro (⟨⟨slot', hslot', hnot, -⟩, -⟩ | hlive)
      · rw [hsize] at hslots
        refine absurd ?_ hnot
        change slot' ∈ slot :: free
        rw [hslots]
        simpa using hslot'
      · exact hlive
  have hused : ∀ q ∈ pre ++ ⟨page, free⟩ :: post, q.free.length < slotCount (cacheSize i) := by
    intro q hq
    rw [List.mem_append, List.mem_cons] at hq
    rcases hcases with ⟨hslabs, -⟩ | ⟨rfl, hslabs, -, -, -, -⟩
    · rcases hq with hmem | rfl | hmem
      · exact h.laid.used i hi q (by simp [hslabs, hmem])
      · exact hslot.2.2
      · exact h.laid.used i hi q (by simp [hslabs, hmem])
    · rcases hq with hmem | rfl | hmem
      · cases hmem
      · exact hslot.2.2
      · exact h.laid.used i hi q (by rwa [hslabs])
  have hlaid := h.replace hi hpage htaken.cached hused htaken.size htaken.others htaken.cachesAt
    hspace fun y hback _ hne => htaken.bytes y hback (by omega)
  refine ⟨⟨hs', hlaid, ?_⟩, fun y c => ?_, fun y c hlive => ?_, fun y c hlive z hle hlt => ?_, ?_⟩
  · rcases hcases with ⟨hslabs, hsame⟩ | ⟨rfl, hslabs, -, -, hlowest, hpages⟩
    · have hregions : (H.setSlabs i (pre ++ ⟨page, free⟩ :: post)).regions =
          (H.setSlabs i (pre ++ ⟨page, slot :: free⟩ :: post)).regions := Heap.regions_replace rfl
      rw [hregions, Heap.setSlabs_self hslabs, hsame]
      exact h.holds
    · have hfits := hlowest.fits
      have hcons : W.space.Holds ((⟨page, free⟩ : Slab).region :: (held ++ H.regions)) := by
        refine h.holds.cons Nat.one_pos hfits (fun other hin => ?_) (fun other hout => ?_)
          fun other hin => ?_
        · exact Space.use_of_run hlowest.run hin.1 hin.2
        · exact hpages.outside other hout
        · exact hpages.inside other hin.1 hin.2
      refine hcons.perm (List.perm_middle.symm.trans (List.Perm.append_left held ?_))
      have hinsert : (H.setSlabs i ([] ++ ⟨page, free⟩ :: post)).regions.Perm
          ((⟨page, free⟩ : Slab).region :: (H.setSlabs i ([] ++ post)).regions) :=
        Heap.regions_insert hi
      rw [List.nil_append, List.nil_append, Heap.setSlabs_self hslabs] at hinsert
      exact hinsert.symm
  · rw [Heap.live_insert hi, Slab.liveAt_pop hslot.1 hslot.2.1, hbefore]
    tauto
  · rintro rfl
    have hpos := (h.liveBacked hlive).1
    rcases hcases with ⟨hslabs, -⟩ | ⟨-, -, -, -, hlowest, -⟩
    · have hsizePos := Heap.cacheSize_bounds hi
      have hin : slotAt page (cacheSize i) slot < slotAt page (cacheSize i) slot + cacheSize i := by
        omega
      have hown : H.Own (slotAt page (cacheSize i) slot) := .inl ⟨i, hi, ⟨page, slot :: free⟩,
        by simp [hslabs], .inr ⟨slot, List.mem_cons_self, Nat.le_refl _, hin⟩⟩
      have hout := h.liveNotOwn hlive hown
      omega
    · obtain ⟨frame, huse⟩ := (h.liveBacked hlive).2.2 _ (Nat.le_refl _) (by omega)
      have hsizePos := Heap.cacheSize_bounds hi
      have hin : slotAt page (cacheSize i) slot / 4096 = page :=
        (slotAt_page hslot.1 (Nat.le_refl _) (by omega)).1
      rw [hin, Space.use_of_run hlowest.run (Nat.le_refl page) (Nat.lt_succ_self page)] at huse
      cases huse
  · have hback := (h.liveBacked hlive).2.2 z hle hlt
    refine htaken.bytes z hback ?_
    rcases hcases with ⟨hslabs, -⟩ | ⟨-, -, -, -, hlowest, -⟩
    · by_contra hheader
      have hown : H.Own z := .inl ⟨i, hi, ⟨page, slot :: free⟩, by simp [hslabs],
        .inl ⟨by change 4096 * page ≤ z; omega, by change z < 4096 * page + 16; omega⟩⟩
      have hout := h.liveNotOwn hlive hown
      omega
    · obtain ⟨frame, huse⟩ := hback
      have hne : z / 4096 ≠ page := by
        intro heq
        rw [heq, Space.use_of_run hlowest.run (Nat.le_refl page) (Nat.lt_succ_self page)] at huse
        cases huse
      omega
  · rcases hcases with ⟨-, hsame⟩ | ⟨-, -, -, -, -, hpages⟩
    · rw [hsame]
    · exact hpages.supply

/-! ## A slot is given back -/

theorem HeapAt.rest_page {pre post : List Slab} {q : Slab} {c : Nat}
    (h : HeapAt boot held s V H) (hi : i < cacheCount) (hslabs : H.slabs i = pre ++ q :: post)
    (hlive : (H.setSlabs i (pre ++ post)).Live y c) : y / 4096 ≠ q.page := by
  have hq : q ∈ H.slabs i := by simp [hslabs]
  rcases hlive with ⟨j, hj, q', hq', ⟨slot, hslot, -, rfl⟩, rfl⟩ | ⟨r, hr, rfl, rfl⟩
  · have hsizePos := Heap.cacheSize_bounds hj
    have hin : slotAt q'.page (cacheSize j) slot / 4096 = q'.page :=
      (slotAt_page hslot (Nat.le_refl _) (by omega)).1
    rw [hin]
    by_cases heq : j = i
    · subst heq
      rw [Heap.slabs_setSlabs, List.mem_append] at hq'
      have hcached := h.laid.cached j hi
      rw [hslabs] at hcached
      exact hcached.page_ne hq'
    · rw [Heap.slabs_setSlabs_of_ne heq] at hq'
      exact Heap.page_ne_of_cache h.apart hj hi heq hq' hq
  · have hcount := h.largeFits hr
    have hnot := Heap.not_contains_slab h.apart hi hq hr
    intro heq
    exact hnot ⟨by omega, by omega⟩

/-- `slab_free` takes an object out of the heap. -/
theorem HeapAt.freeSlot {pre post : List Slab} {free : List Nat} (h : HeapAt boot held s V H)
    (hi : i < cacheCount) (hslabs : H.slabs i = pre ++ ⟨page, free⟩ :: post)
    (hslot : slot < slotCount (cacheSize i)) (hnot : slot ∉ free)
    (hfreed : V.SlotFreed W i pre post slabs' page slot free) (hs' : s'.Shows boot W) :
    HeapAt boot held s' W (H.setSlabs i slabs') ∧
      V.Releases W H (H.setSlabs i slabs') (slotAt page (cacheSize i) slot) := by
  have hsize := h.laid.sizes i hi
  have hq : (⟨page, free⟩ : Slab) ∈ H.slabs i := by simp [hslabs]
  have hlaid₀ := h.laidOf hi hq
  have hcases := hfreed.slabs
  rw [hsize] at hcases
  have hspace : ∀ other ≠ page, W.space.use other = V.space.use other := by
    intro other hne
    rcases hcases with ⟨-, -, hspace⟩ | ⟨-, -, hvacated⟩
    · rw [hspace]
    · exact hvacated.outside other (by omega)
  have hmemPre : ∀ p ∈ pre, p ∈ H.slabs i := fun p hp => by simp [hslabs, hp]
  have hmemPost : ∀ p ∈ post, p ∈ H.slabs i := fun p hp => by simp [hslabs, hp]
  have hplace : slotAt page (cacheSize i) slot = 4096 * page + 16 + slot * cacheSize i := rfl
  have hend := slot_end hslot
  have hbytes : ∀ y, V.space.Backed y → (∀ p ∈ H.slabs i, y / 4096 ≠ p.page) →
      y / 4096 ≠ page → W.bytes y = V.bytes y := by
    intro y _ hne hne'
    refine hfreed.bytes y (fun p hp => ?_) (by omega) (by rw [hsize]; omega)
    have hpage := hne p (hmemPre p hp)
    omega
  have hbefore : ∀ y c, H.Live y c ↔
      ((y = slotAt page (cacheSize i) slot ∨ (⟨page, slot :: free⟩ : Slab).LiveAt i y) ∧
        c = cacheSize i) ∨ (H.setSlabs i (pre ++ post)).Live y c := by
    intro y c
    rw [← Slab.liveAt_pop hslot hnot, ← Heap.live_insert hi, Heap.setSlabs_self hslabs]
  have hother : ∀ y, (⟨page, slot :: free⟩ : Slab).LiveAt i y →
      y ≠ slotAt page (cacheSize i) slot := by
    rintro y ⟨slot', hslot', hnot', rfl⟩ heq
    have hne : slot' ≠ slot := fun hsame => hnot' (hsame ▸ List.mem_cons_self)
    have hsizePos := Heap.cacheSize_bounds hi
    rcases slotAt_apart page (cacheSize i) hne with hlt | hgt
    · change slotAt page (cacheSize i) slot' = _ at heq
      omega
    · change slotAt page (cacheSize i) slot' = _ at heq
      omega
  have hrest : ∀ y c, (H.setSlabs i (pre ++ post)).Live y c →
      y ≠ slotAt page (cacheSize i) slot := by
    intro y c hlive heq
    have hpage : y / 4096 ≠ page := h.rest_page hi hslabs hlive
    have hsizePos := Heap.cacheSize_bounds hi
    omega
  have hlive : ∀ y c, (H.setSlabs i slabs').Live y c ↔
      H.Live y c ∧ y ≠ slotAt page (cacheSize i) slot := by
    intro y c
    have hkept : (H.setSlabs i slabs').Live y c ↔
        ((⟨page, slot :: free⟩ : Slab).LiveAt i y ∧ c = cacheSize i) ∨
          (H.setSlabs i (pre ++ post)).Live y c := by
      rcases hcases with ⟨-, rfl, -⟩ | ⟨hlast, rfl, -⟩
      · exact Heap.live_insert hi
      · -- the page is gone, but there was nothing else in it
        have hnodup : (slot :: free).Nodup := List.nodup_cons.mpr ⟨hnot, hlaid₀.nodup⟩
        have hlt : ∀ slot' ∈ slot :: free, slot' < slotCount (cacheSize i) := by
          intro slot' hmem
          rcases List.mem_cons.mp hmem with rfl | hmem
          · exact hslot
          · exact hlaid₀.list.lt slot' hmem
        have hnone : ¬ (⟨page, slot :: free⟩ : Slab).LiveAt i y :=
          Slab.not_liveSlot_of_full hnodup hlt hlast
        simp [hnone]
    rw [hkept, hbefore]
    constructor
    · rintro (⟨hat, rfl⟩ | hat)
      · exact ⟨.inl ⟨.inr hat, rfl⟩, hother y hat⟩
      · exact ⟨.inr hat, hrest y c hat⟩
    · rintro ⟨⟨heq | hat, rfl⟩ | hat, hne⟩
      · exact absurd heq hne
      · exact .inl ⟨hat, rfl⟩
      · exact .inr hat
  have hused : ∀ q ∈ slabs', q.free.length < slotCount (cacheSize i) := by
    intro q hmem
    rcases hcases with ⟨hmore, rfl, -⟩ | ⟨-, rfl, -⟩
    · rw [List.mem_append, List.mem_cons] at hmem
      rcases hmem with hmem | rfl | hmem
      · exact h.laid.used i hi q (hmemPre q hmem)
      · exact hmore
      · exact h.laid.used i hi q (hmemPost q hmem)
    · rcases List.mem_append.mp hmem with hmem | hmem
      · exact h.laid.used i hi q (hmemPre q hmem)
      · exact h.laid.used i hi q (hmemPost q hmem)
  have hlaid := h.replace hi (.inl ⟨_, hq, rfl⟩) hfreed.cached hused hfreed.size hfreed.others
    hfreed.cachesAt hspace hbytes
  refine ⟨⟨hs', hlaid, ?_⟩, hlive, fun y c hat z hle hlt => ?_, ?_⟩
  · rcases hcases with ⟨-, rfl, hsame⟩ | ⟨-, rfl, hvacated⟩
    · have hregions : (H.setSlabs i (pre ++ ⟨page, slot :: free⟩ :: post)).regions =
          (H.setSlabs i (pre ++ ⟨page, free⟩ :: post)).regions := Heap.regions_replace rfl
      rw [hregions, Heap.setSlabs_self hslabs, hsame]
      exact h.holds
    · have hinsert : (H.setSlabs i (pre ++ ⟨page, free⟩ :: post)).regions.Perm
          ((⟨page, free⟩ : Slab).region :: (H.setSlabs i (pre ++ post)).regions) :=
        Heap.regions_insert hi
      rw [Heap.setSlabs_self hslabs] at hinsert
      have hperm := (List.Perm.append_left held hinsert).trans List.perm_middle
      have herased := (h.holds.perm hperm).erase List.mem_cons_self
        (fun other hout => hvacated.outside other hout)
        fun other hin => hvacated.inside other hin.1 hin.2
      rwa [List.erase_cons_head] at herased
  · -- an object is neither in a header nor in the slot
    obtain ⟨hold, hne⟩ := (hlive y c).mp hat
    have hbelow : ∀ p ∈ H.slabs i, z < 4096 * p.page ∨ 4096 * p.page + 16 ≤ z := by
      intro p hp
      by_contra hheader
      have hown : H.Own z := .inl ⟨i, hi, p, hp, .inl ⟨by omega, by omega⟩⟩
      have hout := h.liveNotOwn hold hown
      omega
    have hfreedSlot : H.Live (slotAt page (cacheSize i) slot) (cacheSize i) :=
      .inl ⟨i, hi, _, hq, ⟨slot, hslot, hnot, rfl⟩, rfl⟩
    have hapart := h.liveApart hold hfreedSlot hne
    refine hfreed.bytes z (fun p hp => hbelow p (hmemPre p hp)) (hbelow _ hq) ?_
    rw [hsize]
    omega
  · rcases hcases with ⟨-, -, hsame⟩ | ⟨-, -, hvacated⟩
    · rw [hsame]
    · exact hvacated.supply

/-! ## Large blocks -/

/-- A heap whose pages and bytes are not touched. -/
theorem MemView.HeapLaid.congr (h : V.HeapLaid H) (hcaches : W.caches = V.caches)
    (hcachesAt : W.cachesAt = V.cachesAt)
    (hspace : ∀ r ∈ H.regions, ∀ page, r.Contains page → W.space.use page = V.space.use page)
    (hbytes : ∀ y, H.Own y → W.bytes y = V.bytes y) : W.HeapLaid H where
  sizes i hi := by
    rw [slotSize, hcaches]
    exact h.sizes i hi
  cached i hi := by
    refine (h.cached i hi).frame (congrFun hcaches i) hcachesAt (fun q hq => ?_) fun q hq y hy => ?_
    · exact hspace q.region (Heap.region_mem hi hq) q.page (Slab.region_contains.mpr rfl)
    · rw [h.sizes i hi] at hy
      exact hbytes y (.inl ⟨i, hi, q, hq, hy⟩)
  used := h.used
  large r hr := by
    obtain ⟨hkind, hcount, hword⟩ := h.large r hr
    refine ⟨hkind, hcount, (MemView.word_congr fun y hle hlt => ?_).trans hword⟩
    exact hbytes y (.inr ⟨r, hr, hle, hlt⟩)

/-- A large block adds an object to the heap, behind its first page. -/
theorem HeapAt.addLarge {start k : Nat} (h : HeapAt boot held s V H)
    (hrun : FirstFit.Run V.space.unused start k) (hfits : start + k ≤ virtPages) (hk : 2 ≤ k)
    (htaken : V.space.Taken start k W.space) (hword : W.word (4096 * start) = .ofNat k)
    (hcaches : W.caches = V.caches) (hcachesAt : W.cachesAt = V.cachesAt)
    (hbytes : ∀ y, V.space.Backed y → W.bytes y = V.bytes y) (hs' : s'.Shows boot W) :
    HeapAt boot held s' W { H with large := ⟨.pages, start, k⟩ :: H.large } ∧
      V.Serves W H { H with large := ⟨.pages, start, k⟩ :: H.large } (4096 * (start + 1))
        (4096 * (k - 1)) := by
  have hunused : ∀ page, (⟨.pages, start, k⟩ : Region).Contains page → V.space.use page = none :=
    fun page hin => Space.use_of_run hrun hin.1 hin.2
  have hspace : ∀ r ∈ H.regions, ∀ page, r.Contains page →
      W.space.use page = V.space.use page := by
    intro r hr page hin
    refine htaken.outside page fun hboth => ?_
    have hused := h.holds.used r (List.mem_append_right held hr) page hin
    exact hused.ne_none (hunused page hboth)
  have hlaid := h.laid.congr hcaches hcachesAt hspace fun y hy => hbytes y (h.own_all hy).1
  refine ⟨⟨hs', ⟨hlaid.sizes, hlaid.cached, hlaid.used, fun r hr => ?_⟩, ?_⟩, fun y c => ?_,
    fun y c hlive => ?_, fun y c hlive z hle hlt => ?_, htaken.supply⟩
  · rcases List.mem_cons.mp hr with rfl | hr
    · exact ⟨rfl, hk, hword⟩
    · exact hlaid.large r hr
  · have hcons : W.space.Holds (⟨.pages, start, k⟩ :: (held ++ H.regions)) :=
      h.holds.cons (show 0 < k by omega) hfits hunused htaken.outside
        fun page hin => htaken.inside page hin.1 hin.2
    refine hcons.perm (List.perm_middle.symm.trans (List.Perm.append_left held ?_))
    exact List.perm_middle.symm
  · constructor
    · rintro (hslot | ⟨r, hr, rfl, rfl⟩)
      · exact .inr (.inl hslot)
      · rcases List.mem_cons.mp hr with rfl | hr
        · exact .inl ⟨rfl, rfl⟩
        · exact .inr (.inr ⟨r, hr, rfl, rfl⟩)
    · rintro (⟨rfl, rfl⟩ | hslot | ⟨r, hr, rfl, rfl⟩)
      · exact .inr ⟨_, List.mem_cons_self, rfl, rfl⟩
      · exact .inl hslot
      · exact .inr ⟨r, List.mem_cons_of_mem _ hr, rfl, rfl⟩
  · rintro rfl
    obtain ⟨hpos, -, hback⟩ := h.liveBacked hlive
    obtain ⟨frame, huse⟩ := hback _ (Nat.le_refl _) (by omega)
    have hpage : 4096 * (start + 1) / 4096 = start + 1 := by omega
    rw [hpage, hunused (start + 1) ⟨by change start ≤ start + 1; omega,
      by change start + 1 < start + k; omega⟩] at huse
    cases huse
  · exact hbytes z ((h.liveBacked hlive).2.2 z hle hlt)

/-- A large block is taken out of the heap with all of its pages. -/
theorem HeapAt.removeLarge {r : Region} {T : Space} (h : HeapAt boot held s V H)
    (hr : r ∈ H.large) (hvacated : V.space.Vacated r.first r.count T)
    (hs' : s'.Shows boot { V with space := T }) :
    HeapAt boot held s' { V with space := T } { H with large := H.large.erase r } ∧
      V.Releases { V with space := T } H { H with large := H.large.erase r }
        (4096 * (r.first + 1)) := by
  have hcount := h.largeFits hr
  have hapart : ∀ r' ∈ H.large, r' ≠ r → r'.Apart r := fun r' hr' hne =>
    Heap.large_apart h.apart hr' hr hne
  have hnodup : H.large.Nodup := by
    have hlarge := (List.pairwise_append.mp h.apart).2.1
    refine hlarge.imp_of_mem fun {a b} ha hb hab heq => ?_
    have hfits := h.largeFits ha
    exact hab a.first ⟨⟨Nat.le_refl _, by omega⟩, heq ▸ ⟨Nat.le_refl _, by omega⟩⟩
  have hmem : ∀ {r' : Region}, r' ∈ H.large.erase r ↔ r' ≠ r ∧ r' ∈ H.large :=
    hnodup.mem_erase_iff
  have hregions : H.regions.Perm (r :: ({ H with large := H.large.erase r } : Heap).regions) :=
    ((List.perm_cons_erase hr).append_left _).trans List.perm_middle
  have hholds := h.holds.perm ((hregions.append_left held).trans List.perm_middle)
  have hspace : ∀ r' ∈ ({ H with large := H.large.erase r } : Heap).regions, ∀ page,
      r'.Contains page → T.use page = V.space.use page := by
    intro r' hr' page hin
    refine hvacated.outside page fun hboth => ?_
    exact (List.pairwise_cons.mp hholds.apart).1 r' (List.mem_append_right held hr') page
      ⟨hboth, hin⟩
  have hsub : V.HeapLaid { H with large := H.large.erase r } :=
    ⟨h.laid.sizes, h.laid.cached, h.laid.used, fun r' hr' => h.laid.large r' (hmem.mp hr').2⟩
  have herased := hholds.erase List.mem_cons_self (fun page hout => hvacated.outside page hout)
    fun page hin => hvacated.inside page hin.1 hin.2
  rw [List.erase_cons_head] at herased
  refine ⟨⟨hs', hsub.congr rfl rfl hspace fun _ _ => rfl, herased⟩, fun y c => ?_,
    fun _ _ _ _ _ _ => rfl, hvacated.supply⟩
  constructor
  · rintro (⟨i, hi, q, hq, ⟨slot, hslot, hnot, rfl⟩, rfl⟩ | ⟨r', hr', rfl, rfl⟩)
    · have hsizePos := Heap.cacheSize_bounds hi
      have hoffset : 16 ≤ slotAt q.page (cacheSize i) slot % 4096 :=
        (slotAt_page hslot (Nat.le_refl _) (by omega)).2
      exact ⟨.inl ⟨i, hi, q, hq, ⟨slot, hslot, hnot, rfl⟩, rfl⟩, by omega⟩
    · obtain ⟨hne, hold⟩ := hmem.mp hr'
      have hcount' := h.largeFits hold
      have hfirst : r'.first ≠ r.first := by
        intro heq
        refine hapart r' hold hne r.first ⟨heq ▸ ⟨Nat.le_refl _, ?_⟩, Nat.le_refl _, ?_⟩
        · omega
        · omega
      exact ⟨.inr ⟨r', hold, rfl, rfl⟩, by omega⟩
  · rintro ⟨hslot | ⟨r', hr', rfl, rfl⟩, hne⟩
    · exact .inl hslot
    · have hdistinct : r' ≠ r := by
        rintro rfl
        exact hne rfl
      exact .inr ⟨r', hmem.mpr ⟨hdistinct, hr'⟩, rfl, rfl⟩

end Steps

end AvrKernel.Memory

import AvrKernel.Memory.Malloc
import Mathlib.Data.List.Pairwise

/-!
# The heap that `malloc` keeps

The slabs of its caches and its large blocks, what is live in them, and how they lie in memory.
-/

namespace AvrKernel.Memory

/-- The size of the slots of a cache. -/
def cacheSize (cache : Nat) : Nat := 16 * 2 ^ cache

/-- A large block is the region of all of its pages, the one in front included. -/
structure Heap where
  slabs : Nat → List Slab
  large : List Region

namespace Slab

def region (q : Slab) : Region := ⟨.pages, q.page, 1⟩

/-- The slot at a position of the page is in use. -/
def LiveSlot (q : Slab) (size x : Nat) : Prop :=
  ∃ slot < slotCount size, slot ∉ q.free ∧ x = slotAt q.page size slot

/-- There is an object at a position of the page. -/
def LiveAt (q : Slab) (cache x : Nat) : Prop :=
  ∃ slot < slotCount (cacheSize cache), slot ∉ q.free ∧ x = slotAt q.page (cacheSize cache) slot

theorem region_contains {q : Slab} {page : Nat} : q.region.Contains page ↔ page = q.page := by
  change q.page ≤ page ∧ page < q.page + 1 ↔ _
  omega

end Slab

namespace Heap

variable {H : Heap} {i j : Nat} {q q' : Slab} {r : Region}

/-- All that the heap has taken from the virtual memory manager. -/
def regions (H : Heap) : List Region :=
  (List.range cacheCount).flatMap (fun i => (H.slabs i).map Slab.region) ++ H.large

/-- There is an object with `cap` bytes at a position. -/
def Live (H : Heap) (x cap : Nat) : Prop :=
  (∃ i < cacheCount, ∃ q ∈ H.slabs i, q.LiveAt i x ∧ cap = cacheSize i) ∨
  ∃ r ∈ H.large, x = 4096 * (r.first + 1) ∧ cap = 4096 * (r.count - 1)

/-- The bytes that belong to the allocator. -/
def Own (H : Heap) (y : Nat) : Prop :=
  (∃ i < cacheCount, ∃ q ∈ H.slabs i, q.Own (cacheSize i) y) ∨
  ∃ r ∈ H.large, 4096 * r.first ≤ y ∧ y < 4096 * r.first + 4

theorem cacheSize_bounds (hi : i < cacheCount) : 16 ≤ cacheSize i ∧ cacheSize i ≤ 512 := by
  have hi' : i ≤ 5 := Nat.le_of_lt_succ hi
  have hlow := Nat.one_le_two_pow (n := i)
  have hhigh := Nat.pow_le_pow_right (show 0 < 2 by decide) hi'
  rw [cacheSize]
  omega

theorem region_mem (hi : i < cacheCount) (hq : q ∈ H.slabs i) : q.region ∈ H.regions :=
  List.mem_append_left _ (List.mem_flatMap.mpr ⟨i, List.mem_range.mpr hi, List.mem_map_of_mem hq⟩)

theorem large_mem (hr : r ∈ H.large) : r ∈ H.regions := List.mem_append_right _ hr

/-- No page belongs to two caches. -/
theorem page_ne_of_cache (h : H.regions.Pairwise Region.Apart) (hi : i < cacheCount)
    (hj : j < cacheCount) (hne : i ≠ j) (hq : q ∈ H.slabs i) (hq' : q' ∈ H.slabs j) :
    q.page ≠ q'.page := by
  have hcaches := (List.pairwise_flatMap.mp (List.pairwise_append.mp h).1).2
  have hsymm : Std.Symm fun i j => ∀ a ∈ (H.slabs i).map Slab.region,
      ∀ b ∈ (H.slabs j).map Slab.region, Region.Apart a b :=
    ⟨fun i j hij a ha b hb => (hij b hb a ha).symm⟩
  have hapart := hcaches.forall (List.mem_range.mpr hi) (List.mem_range.mpr hj) hne
    q.region (List.mem_map_of_mem hq) q'.region (List.mem_map_of_mem hq')
  intro heq
  exact hapart q.page ⟨Slab.region_contains.mpr rfl, Slab.region_contains.mpr heq⟩

theorem not_contains_slab (h : H.regions.Pairwise Region.Apart) (hi : i < cacheCount)
    (hq : q ∈ H.slabs i) (hr : r ∈ H.large) : ¬ r.Contains q.page := by
  intro hin
  have hmem : q.region ∈ (List.range cacheCount).flatMap fun i => (H.slabs i).map Slab.region :=
    List.mem_flatMap.mpr ⟨i, List.mem_range.mpr hi, List.mem_map_of_mem hq⟩
  have hapart := (List.pairwise_append.mp h).2.2 q.region hmem r hr
  exact hapart q.page ⟨Slab.region_contains.mpr rfl, hin⟩

/-- A page of a cache lies in front of a large block, or behind it. -/
theorem page_outside (h : H.regions.Pairwise Region.Apart) (hi : i < cacheCount)
    (hq : q ∈ H.slabs i) (hr : r ∈ H.large) : q.page < r.first ∨ r.first + r.count ≤ q.page := by
  have hnot := not_contains_slab h hi hq hr
  by_contra hin
  exact hnot ⟨by omega, by omega⟩

theorem large_apart (h : H.regions.Pairwise Region.Apart) {r' : Region} (hr : r ∈ H.large)
    (hr' : r' ∈ H.large) (hne : r ≠ r') : r.Apart r' := by
  have hlarge := (List.pairwise_append.mp h).2.1
  have hsymm : Std.Symm Region.Apart := ⟨fun _ _ hab => hab.symm⟩
  exact hlarge.forall hr hr' hne

end Heap

/-- The heap lies in memory. Each of its slabs is in use. -/
structure MemView.HeapLaid (V : MemView) (H : Heap) : Prop where
  sizes : ∀ i < cacheCount, V.slotSize i = cacheSize i
  cached : ∀ i < cacheCount, V.Cached i (H.slabs i)
  used : ∀ i < cacheCount, ∀ q ∈ H.slabs i, q.free.length < slotCount (cacheSize i)
  large : ∀ r ∈ H.large, r.kind = .pages ∧ 2 ≤ r.count ∧ V.word (4096 * r.first) = .ofNat r.count

/-- A state with its heap, besides the regions that others hold. -/
structure HeapAt (boot : VmmState) (held : List Region) (s : KernelMemory) (V : MemView)
    (H : Heap) : Prop where
  shows : s.Shows boot V
  laid : V.HeapLaid H
  holds : V.space.Holds (held ++ H.regions)

/-! ## Where objects are -/

section Places

variable {boot : VmmState} {held : List Region} {s : KernelMemory} {V W : MemView} {H : Heap}
  {i x y cap cap' : Nat} {q : Slab} {r : Region}

theorem HeapAt.apart (h : HeapAt boot held s V H) : H.regions.Pairwise Region.Apart :=
  (List.pairwise_append.mp h.holds.apart).2.1

theorem HeapAt.laidOf (h : HeapAt boot held s V H) (hi : i < cacheCount) (hq : q ∈ H.slabs i) :
    q.Laid V (cacheSize i) (cacheAddress V.cachesAt i) := by
  have hlaid := (h.laid.cached i hi).laid hq
  rwa [h.laid.sizes i hi] at hlaid

theorem HeapAt.largeUse (h : HeapAt boot held s V H) (hr : r ∈ H.large) {page : Nat}
    (hpage : r.Contains page) : ∃ frame, V.space.use page = some (.frame frame) := by
  have hused := h.holds.used r (List.mem_append_right _ (Heap.large_mem hr)) page hpage
  rwa [Region.Uses, (h.laid.large r hr).1] at hused

theorem HeapAt.largeFits (h : HeapAt boot held s V H) (hr : r ∈ H.large) :
    2 ≤ r.count ∧ r.first + r.count ≤ 0x10000 :=
  ⟨(h.laid.large r hr).2.1, (h.holds.fits r (List.mem_append_right _ (Heap.large_mem hr))).2⟩

theorem HeapAt.liveBacked (h : HeapAt boot held s V H) (hlive : H.Live x cap) :
    0 < cap ∧ x + cap ≤ 0x10000000 ∧ V.space.BackedRange x cap := by
  rcases hlive with ⟨i, hi, q, hq, ⟨slot, hslot, -, rfl⟩, rfl⟩ | ⟨r, hr, rfl, rfl⟩
  · have hsize := Heap.cacheSize_bounds hi
    have hpage : q.page < 0x10000 := (h.laid.cached i hi).lt h.shows.space hq
    obtain ⟨frame, huse⟩ := (h.laid.cached i hi).backed q hq
    have hend := slot_end hslot
    refine ⟨by omega, ?_, Space.backed_slot huse hslot⟩
    simp only [slotAt]
    omega
  · obtain ⟨hcount, hfits⟩ := h.largeFits hr
    refine ⟨by omega, by omega, fun y hle hlt => ?_⟩
    have hin : r.Contains (y / 4096) := by
      change r.first ≤ y / 4096 ∧ y / 4096 < r.first + r.count
      omega
    exact h.largeUse hr hin

/-- Objects do not overlap. -/
theorem HeapAt.liveApart (h : HeapAt boot held s V H) (hx : H.Live x cap)
    (hy : H.Live y cap') (hne : x ≠ y) : x + cap ≤ y ∨ y + cap' ≤ x := by
  rcases hx with ⟨i, hi, q, hq, ⟨slot, hslot, -, rfl⟩, rfl⟩ | ⟨r, hr, rfl, rfl⟩
  · have hend := slot_end hslot
    rcases hy with ⟨j, hj, q', hq', ⟨slot', hslot', -, rfl⟩, rfl⟩ | ⟨r, hr, rfl, rfl⟩
    · have hend' := slot_end hslot'
      by_cases hpage : q.page = q'.page
      · obtain rfl : i = j := by
          by_contra hcache
          exact Heap.page_ne_of_cache h.apart hi hj hcache hq hq' hpage
        rw [← hpage] at hne ⊢
        exact slotAt_apart _ _ fun hsame => hne (by rw [hsame])
      · simp only [slotAt]
        omega
    · have hout := Heap.page_outside h.apart hi hq hr
      have hcount := h.largeFits hr
      simp only [slotAt]
      omega
  · have hcount := h.largeFits hr
    rcases hy with ⟨j, hj, q', hq', ⟨slot', hslot', -, rfl⟩, rfl⟩ | ⟨r', hr', rfl, rfl⟩
    · have hend' := slot_end hslot'
      have hout := Heap.page_outside h.apart hj hq' hr
      simp only [slotAt]
      omega
    · have hcount' := h.largeFits hr'
      have hdistinct : r ≠ r' := fun hsame => hne (by rw [hsame])
      have hapart := Heap.large_apart h.apart hr hr' hdistinct
      have hfirst := hapart r.first
      have hfirst' := hapart r'.first
      simp only [Region.Contains] at hfirst hfirst'
      omega

theorem HeapAt.liveNotOwn (h : HeapAt boot held s V H) (hlive : H.Live x cap) (hy : H.Own y) :
    y < x ∨ x + cap ≤ y := by
  rcases hlive with ⟨i, hi, q, hq, ⟨slot, hslot, hnot, rfl⟩, rfl⟩ | ⟨r, hr, rfl, rfl⟩
  · have hend := slot_end hslot
    rcases hy with ⟨j, hj, q', hq', hown⟩ | ⟨r, hr, hle, hlt⟩
    · have hpage' := (h.laidOf hj hq').own_page hown
      by_cases hpage : q.page = q'.page
      · obtain rfl : i = j := by
          by_contra hcache
          exact Heap.page_ne_of_cache h.apart hi hj hcache hq hq' hpage
        obtain rfl : q = q' := List.inj_on_of_nodup_map (h.laid.cached i hi).distinct hq hq' hpage
        rcases hown with ⟨-, hheader⟩ | ⟨slot', hfree, hle, hlt⟩
        · simp only [slotAt]
          omega
        · have hslots : slot ≠ slot' := fun hsame => hnot (hsame ▸ hfree)
          rcases slotAt_apart q.page (cacheSize i) hslots with hbefore | hafter
          · exact .inr (Nat.le_trans hbefore hle)
          · exact .inl (Nat.lt_of_lt_of_le hlt hafter)
      · simp only [slotAt]
        omega
    · have hcount := h.largeFits hr
      have hout := Heap.page_outside h.apart hi hq hr
      simp only [slotAt]
      omega
  · have hcount := h.largeFits hr
    rcases hy with ⟨j, hj, q', hq', hown⟩ | ⟨r', hr', hle, hlt⟩
    · have hpage' := (h.laidOf hj hq').own_page hown
      have hout := Heap.page_outside h.apart hj hq' hr
      omega
    · by_cases hsame : r = r'
      · rw [hsame]
        omega
      · have hcount' := h.largeFits hr'
        have hfirst' := Heap.large_apart h.apart hr hr' hsame r'.first
        simp only [Region.Contains] at hfirst'
        omega

end Places

end AvrKernel.Memory

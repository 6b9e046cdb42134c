import AvrKernel.Memory.HeapSteps

/-!
# What `malloc`, `free` and `realloc` do

Each of them leaves the heap in order. A block that is handed out is large enough, and the bytes of
all other blocks stay as they are; `realloc` keeps those of the block that it moves.
-/

namespace AvrKernel.Memory

open Comp

/-! ## Numbers and addresses -/

theorem toNat_largePages {size : UInt32} (hsize : size.toNat + 8191 < 2 ^ 32) :
    (largePages size).toNat = (size.toNat + 8191) / 4096 := by
  have hpage : pageSize.toNat = 4096 := rfl
  have hsum : (size + pageSize + pageSize).toNat = size.toNat + 8192 - 2 ^ 32 *
    ((size.toNat + 8192) / 2 ^ 32) := by
    rw [UInt32.toNat_add, UInt32.toNat_add, hpage]
    omega
  rw [largePages, UInt32.toNat_div, UInt32.toNat_sub, hsum, hpage, UInt32.toNat_one]
  omega

theorem isAligned_iff {x : Nat} (hx : x < 0x10000000) :
    isAligned (areaAddress x) ↔ x % 4096 = 0 := by
  have hmask : pageSize - 1 = 0xFFF := rfl
  rw [isAligned, ← UInt32.toNat_inj, hmask, toNat_and_fff, toNat_areaAddress hx,
    UInt32.toNat_zero]
  omega

/-- The page in front of a large block. -/
theorem areaAddress_sub_page (first : Nat) :
    areaAddress (4096 * (first + 1)) - pageSize = areaAddress (4096 * first) := by
  have hadd : areaAddress (4096 * first) + pageSize = areaAddress (4096 * (first + 1)) := by
    have hnext := areaAddress_add (4096 * first) 4096
    rwa [← Nat.mul_succ] at hnext
  rw [← hadd, UInt32.add_sub_cancel]

theorem cacheAt_cacheAddress (cachesAt : UInt32) {i : Nat} (hi : i < cacheCount) :
    cacheAt cachesAt (cacheAddress cachesAt i) = some i := by
  have hi' : i < 6 := hi
  rw [cacheAt, List.find?_range_eq_some]
  refine ⟨decide_eq_true rfl, List.mem_range.mpr hi, fun j hj => ?_⟩
  rw [Bool.not_eq_true', decide_eq_false_iff_not, cacheAddress, cacheAddress, UInt32.add_right_inj,
    ← UInt32.toNat_inj, UInt32.toNat_ofNat', UInt32.toNat_ofNat']
  omega

/-- A small request finds a cache. -/
theorem firstCache_of_le {V : MemView} {H : Heap} {size : UInt32} (hlaid : V.HeapLaid H)
    (hsize : size ≤ slabMaxSize) : ∃ i < cacheCount, firstCache V.caches size = some i ∧
      size.toNat ≤ cacheSize i := by
  have hfits : ∀ i < cacheCount, size ≤ (V.caches i).objectSize ↔ size.toNat ≤ cacheSize i := by
    intro i hi
    rw [UInt32.le_iff_toNat_le, ← hlaid.sizes i hi, MemView.slotSize]
  cases hfind : firstCache V.caches size with
  | none =>
      have hnone := List.find?_eq_none.mp hfind 5 (List.mem_range.mpr (by decide))
      rw [decide_eq_true_eq, hfits 5 (by decide)] at hnone
      exact absurd (UInt32.le_iff_toNat_le.mp hsize) hnone
  | some i =>
      have hi := List.mem_range.mp (List.mem_of_find?_eq_some hfind)
      have hle := List.find?_some hfind
      rw [decide_eq_true_eq, hfits i hi] at hle
      exact ⟨i, hi, rfl, hle⟩

section Steps

variable {boot : VmmState} {held : List Region} {s s' : KernelMemory} {V W : MemView} {H : Heap}
  {x cap n : Nat} {size : UInt32} {halt : KernelMemory → Prop}

/-! ## `malloc` -/

/-- The pages that a request may need. -/
def pagesNeeded (size : UInt32) : Nat :=
  if size ≤ slabMaxSize then 1 else (largePages size).toNat

/-- A run of pages, with their number in the first of them. The address is that of the second. -/
theorem KernelMemory.Shows.mallocLarge (hs : s.Shows boot V) (size : UInt32) :
    Ensures n (mallocLarge size) s
      (fun ptr s' => ∃ start W, ptr = areaAddress (4096 * (start + 1)) ∧
        0 < (largePages size).toNat ∧
        FirstFit.Lowest V.space.unused 0 virtPages (largePages size).toNat start ∧
        V.space.Taken start (largePages size).toNat W.space ∧
        W.word (4096 * start) = largePages size ∧ W.caches = V.caches ∧ W.cachesAt = V.cachesAt ∧
        (∀ y, V.space.Backed y → W.bytes y = V.bytes y) ∧ s'.Shows boot W)
      fun s' => s'.Shows boot V ∧ (largePages size = 0 ∨
        V.space.Exhausted (largePages size).toNat) := by
  have hpage : pageSize.toNat = 4096 := rfl
  rw [Memory.mallocLarge]
  refine (hs.vmmAllocPages (largePages size)).bind ?_
  rintro address s₁ ⟨start, T, bytes, rfl, hpos, hlowest, htaken, hbytes, hs₁⟩
  have hfits : start + (largePages size).toNat ≤ 0x10000 := hlowest.fits
  have htotal : (largePages size * pageSize).toNat = 4096 * (largePages size).toNat := by
    rw [UInt32.toNat_mul, hpage]
    omega
  have hback : T.BackedRange (4096 * start) (4096 * (largePages size).toNat) := by
    intro y hle hlt
    obtain ⟨frame, huse⟩ := htaken.inside (y / 4096) (by omega) (by omega)
    exact ⟨frame, huse⟩
  rw [if_neg (areaAddress_ne_zero (by omega)), htotal]
  refine (hs₁.memset hback 0).bind fun _ s₂ hs₂ => ?_
  refine (hs₂.store32 (hback.sub (Nat.le_refl _) (by omega)) _).bind fun _ s₃ hs₃ => ?_
  have hnext : areaAddress (4096 * start) + pageSize = areaAddress (4096 * (start + 1)) := by
    have hadd := areaAddress_add (4096 * start) 4096
    rwa [← Nat.mul_succ] at hadd
  rw [ensures_pure, hnext]
  generalize hW : MemView.writeWord _ (4096 * start) _ = W at hs₃
  have hchanged : MemView.ChangedIn { V with space := T, bytes } (4096 * start)
      (4096 * (largePages size).toNat) W := by
    rw [← hW]
    refine MemView.ChangedIn.writeWord ?_ (Nat.le_refl _) (by omega) _
    refine (MemView.ChangedIn.refl _ _ _).write (Nat.le_refl _) ?_
    rw [List.length_replicate]
  refine ⟨start, W, rfl, hpos, hlowest, hchanged.space ▸ htaken, ?_, hchanged.caches,
    hchanged.cachesAt, ?_, hs₃⟩
  · rw [← hW, MemView.word_writeWord]
  · rintro y ⟨frame, huse⟩
    have hout : y < 4096 * start ∨ 4096 * start + 4096 * (largePages size).toNat ≤ y := by
      by_contra hin
      rw [Space.use_of_run hlowest.run (by omega) (by omega)] at huse
      cases huse
    rw [hchanged.bytes y (by omega)]
    exact hbytes y ⟨frame, huse⟩

theorem HeapAt.mallocLarge (h : HeapAt boot held s V H) (hpos : size ≠ 0)
    (hsize : size.toNat + 8191 < 2 ^ 32) :
    Ensures n (mallocLarge size) s
      (fun ptr s' => ∃ x cap W H', ptr = areaAddress x ∧ size.toNat ≤ cap ∧
        HeapAt boot held s' W H' ∧ V.Serves W H H' x cap)
      fun s' => HeapAt boot held s' V H ∧ V.space.Exhausted (largePages size).toNat := by
  have hpages := toNat_largePages hsize
  have hnat : size.toNat ≠ 0 := fun hzero => hpos (UInt32.toNat_inj.mp hzero)
  refine (h.shows.mallocLarge size).mono ?_ ?_
  · rintro ptr s' ⟨start, W, rfl, -, hlowest, htaken, hword, hcaches, hcachesAt, hbytes, hs'⟩
    rw [← UInt32.ofNat_toNat (x := largePages size)] at hword
    have hadded := h.addLarge hlowest.run hlowest.fits (by omega) htaken hword hcaches hcachesAt
      hbytes hs'
    exact ⟨_, _, _, _, rfl, by omega, hadded.1, hadded.2⟩
  · rintro s' ⟨hs', hzero | hreason⟩
    · have hnone := congrArg UInt32.toNat hzero
      rw [hpages, UInt32.toNat_zero] at hnone
      omega
    · exact ⟨⟨hs', h.laid, h.holds⟩, hreason⟩

/-- A request for which the number of pages cannot be counted in 32 bits. Whenever `malloc` returns
an address for it, it has taken the page in front of that address, and none behind it. -/
theorem KernelMemory.Shows.mallocUnlocked_wrap (hs : s.Shows boot V)
    (hsize : 2 ^ 32 ≤ size.toNat + 8191) :
    Ensures n (mallocUnlocked size) s
      (fun ptr s' => ∃ start W, ptr = areaAddress (4096 * (start + 1)) ∧
        V.space.Taken start 1 W.space ∧ W.space.use (start + 1) = V.space.use (start + 1) ∧
        s'.Shows boot W)
      fun s' => s'.Shows boot V := by
  have hlt := size.toNat_lt
  have hpos : size ≠ 0 := by
    rintro rfl
    rw [UInt32.toNat_zero] at hsize
    omega
  have hlarge : ¬ size ≤ slabMaxSize := by
    have hmax : slabMaxSize.toNat = 512 := rfl
    rw [UInt32.le_iff_toNat_le, hmax]
    omega
  have hpages : (largePages size).toNat ≤ 1 := by
    have hpage : pageSize.toNat = 4096 := rfl
    rw [largePages, UInt32.toNat_div, UInt32.toNat_sub, UInt32.toNat_add, UInt32.toNat_add, hpage,
      UInt32.toNat_one]
    omega
  rw [Memory.mallocUnlocked, if_neg hpos, ensures_bind, ensures_get, if_neg hlarge]
  refine (hs.mallocLarge size).mono ?_ fun _ hstopped => hstopped.1
  rintro ptr s' ⟨start, W, rfl, hcount, -, htaken, -, -, -, -, hs'⟩
  have hone : (largePages size).toNat = 1 := by omega
  rw [hone] at htaken
  exact ⟨start, W, rfl, htaken, htaken.outside (start + 1) (by omega), hs'⟩

theorem mallocUnlocked_wrap_exampleBoot :
    let V : MemView := ⟨Space.empty exampleBoot.pmm.freeFrames, fun _ => 0, mallocCaches, 0⟩
    Ensures 3 (mallocUnlocked 0xFFFFFFFF) ⟨exampleBoot, fun _ => 0, mallocCaches, 0, none⟩
      (fun ptr s' => ∃ start W, ptr = areaAddress (4096 * (start + 1)) ∧
        V.space.Taken start 1 W.space ∧ W.space.use (start + 1) = V.space.use (start + 1) ∧
        s'.Shows exampleBoot W)
      fun s' => s'.Shows exampleBoot V :=
  KernelMemory.Shows.mallocUnlocked_wrap
    ⟨booted_exampleBoot.shows, fun _ _ => rfl, rfl, rfl, .refl _, rfl⟩ (by decide)

/-- A block for every request but one for nothing, unless pages run out. -/
theorem HeapAt.mallocUnlocked (h : HeapAt boot held s V H) (hsize : size.toNat + 8191 < 2 ^ 32)
    (hn : 0x10000 < n) :
    Ensures n (mallocUnlocked size) s
      (fun ptr s' => (size = 0 ∧ ptr = 0 ∧ s' = s) ∨ ∃ x cap W H', size ≠ 0 ∧ ptr = areaAddress x ∧
        size.toNat ≤ cap ∧ HeapAt boot held s' W H' ∧ V.Serves W H H' x cap)
      fun s' => HeapAt boot held s' V H ∧ V.space.Exhausted (pagesNeeded size) := by
  rw [Memory.mallocUnlocked, pagesNeeded]
  split
  next hzero => exact .inl ⟨hzero, rfl, rfl⟩
  next hpos =>
    rw [ensures_bind, ensures_get, h.shows.caches]
    split
    next hsmall =>
      obtain ⟨i, hi, hcache, hle⟩ := firstCache_of_le h.laid hsmall
      rw [hcache]
      refine (h.shows.slabAlloc (h.laid.cached i hi) hn).mono ?_ ?_
      · rintro ptr s' ⟨page, slot, slabs', W, rfl, hs', htaken⟩
        rw [h.laid.sizes i hi]
        have hstep := h.takeSlot hi htaken hs'
        exact .inr ⟨_, _, W, _, hpos, rfl, hle, hstep.1, hstep.2⟩
      · rintro s' ⟨hs', hreason⟩
        exact ⟨⟨hs', h.laid, h.holds⟩, hreason⟩
    next hlarge =>
      refine (h.mallocLarge hpos hsize).imp ?_
      rintro ptr s' ⟨x, cap, W, H', rfl, hle, hstep⟩
      exact .inr ⟨x, cap, W, H', hpos, rfl, hle, hstep⟩

/-! ## `free` -/

/-- The page of an object in a slab names its cache. -/
theorem HeapAt.owningCache {i slot : Nat} {q : Slab} (h : HeapAt boot held s V H)
    (hi : i < cacheCount) (hq : q ∈ H.slabs i) (hslot : slot < slotCount (cacheSize i)) :
    Ensures n (owningCache (areaAddress (slotAt q.page (cacheSize i) slot))) s
      (fun cache s' => cache = i ∧ s' = s) halt := by
  have hsize := Heap.cacheSize_bounds hi
  have hpage := (h.laid.cached i hi).lt h.shows.space hq
  obtain ⟨frame, huse⟩ := (h.laid.cached i hi).backed q hq
  have hback := Space.backed_page huse
  rw [Memory.owningCache, page_of_slot hpage (by omega) hslot, areaAddress_twelve, ensures_bind,
    h.shows.load32 (hback.sub (by omega) (by omega)), (h.laidOf hi hq).owner, ensures_bind,
    ensures_get, h.shows.cachesAt, cacheAt_cacheAddress _ hi]
  exact ⟨rfl, rfl⟩

/-- The address of a block tells what it is. -/
theorem HeapAt.live_cases (h : HeapAt boot held s V H) (hlive : H.Live x cap) :
    (¬ isAligned (areaAddress x) ∧ ∃ i < cacheCount, ∃ pre page free post slot,
      H.slabs i = pre ++ ⟨page, free⟩ :: post ∧ slot < slotCount (cacheSize i) ∧ slot ∉ free ∧
      x = slotAt page (cacheSize i) slot ∧ cap = cacheSize i) ∨
    (isAligned (areaAddress x) ∧ ∃ r ∈ H.large, x = 4096 * (r.first + 1) ∧
      cap = 4096 * (r.count - 1)) := by
  obtain ⟨hpos, hend, -⟩ := h.liveBacked hlive
  rw [isAligned_iff (by omega)]
  rcases hlive with ⟨i, hi, q, hq, ⟨slot, hslot, hnot, rfl⟩, rfl⟩ | hlarge
  · obtain ⟨pre, post, hslabs⟩ := List.append_of_mem hq
    have hoffset : 16 ≤ slotAt q.page (cacheSize i) slot % 4096 :=
      (slotAt_page hslot (Nat.le_refl _) (by omega)).2
    exact .inl ⟨by omega, i, hi, pre, q.page, q.free, post, slot, hslabs, hslot, hnot, rfl, rfl⟩
  · obtain ⟨r, hr, rfl, rfl⟩ := hlarge
    exact .inr ⟨by omega, r, hr, rfl, rfl⟩

/-- The number of pages is found in front of a large block. -/
theorem HeapAt.loadPages {r : Region} {result : UInt32 → KernelMemory → Prop}
    (h : HeapAt boot held s V H) (hr : r ∈ H.large) :
    Ensures n (load32 (areaAddress (4096 * (r.first + 1)) - pageSize)) s result halt ↔
      result (.ofNat r.count) s := by
  have hcount := h.largeFits hr
  obtain ⟨frame, huse⟩ := h.largeUse hr (show r.Contains r.first from ⟨Nat.le_refl _, by omega⟩)
  have hback := Space.backed_page huse
  rw [areaAddress_sub_page, h.shows.load32 (hback.sub (Nat.le_refl _) (by omega)),
    (h.laid.large r hr).2.2]

/-- `free` gives up the block at an address. -/
theorem HeapAt.freeUnlocked (h : HeapAt boot held s V H) (hlive : H.Live x cap)
    (hn : 0x10000 < n) :
    Ensures n (freeUnlocked (areaAddress x)) s
      (fun _ s' => ∃ W H', HeapAt boot held s' W H' ∧ V.Releases W H H' x) halt := by
  obtain ⟨hpos, hend, -⟩ := h.liveBacked hlive
  rw [Memory.freeUnlocked, if_neg (areaAddress_ne_zero (by omega))]
  rcases h.live_cases hlive with
    ⟨hnot, i, hi, pre, page, free, post, slot, hslabs, hslot, hused, rfl, rfl⟩ |
    ⟨haligned, r, hr, rfl, rfl⟩
  · -- a slot lies behind the header of its page, so it is never aligned
    have hcached := h.laid.cached i hi
    rw [hslabs] at hcached
    have hq : (⟨page, free⟩ : Slab) ∈ H.slabs i := by simp [hslabs]
    rw [if_neg hnot]
    refine (h.owningCache hi hq hslot).bind ?_
    rintro cache s' ⟨rfl, rfl⟩
    have hsize := h.laid.sizes cache hi
    have hslot' := hslot
    rw [← hsize] at hslot' ⊢
    refine (h.shows.slabFree hcached hslot' hused hn).imp ?_
    rintro - s₁ ⟨slabs', W, hs₁, hfreed⟩
    rw [hsize]
    have hstep := h.freeSlot hi hslabs hslot hused hfreed hs₁
    exact ⟨W, _, hstep.1, hstep.2⟩
  · have hcount := h.largeFits hr
    rw [if_pos haligned, ensures_bind, h.loadPages hr, areaAddress_sub_page]
    have hdevice : ∀ page, r.first ≤ page → page < r.first + r.count →
        ∀ entry, V.space.use page ≠ some (.device entry) := by
      intro page hle hlt entry
      obtain ⟨frame, huse⟩ := h.largeUse hr ⟨hle, hlt⟩
      rw [huse]
      simp
    have hstart : r.first < virtPages := by
      change r.first < 0x10000
      omega
    refine (h.shows.vmmFreePages hstart hcount.2 hdevice).imp ?_
    rintro - s₁ ⟨T, hvacated, hs₁⟩
    have hstep := h.removeLarge hr hvacated hs₁
    exact ⟨_, _, hstep.1, hstep.2⟩

/-! ## `realloc` -/

/-- What a caller writes to its block does not disturb the heap. -/
theorem HeapAt.write {values : List UInt8} {y : Nat} (h : HeapAt boot held s V H)
    (hlive : H.Live x cap) (hle : x ≤ y) (hend : y + values.length ≤ x + cap)
    (hs' : s'.Shows boot (V.write y values)) : HeapAt boot held s' (V.write y values) H := by
  refine ⟨hs', h.laid.congr rfl rfl (fun _ _ _ _ => rfl) fun z hz => ?_, h.holds⟩
  have hout := h.liveNotOwn hlive hz
  exact MemView.bytes_write_of_not_mem (by omega)

/-- An object has moved to another place, with as many of its bytes as fit into `count`. All others
have kept theirs. -/
structure MemView.Moves (V W : MemView) (H H' : Heap) (x cap x' cap' count : Nat) : Prop where
  live : ∀ y c, H'.Live y c ↔ (y = x' ∧ c = cap') ∨ (H.Live y c ∧ y ≠ x)
  fresh : ∀ y c, H.Live y c → y ≠ x'
  bytes : ∀ y c, H.Live y c → y ≠ x → ∀ z, y ≤ z → z < y + c → W.bytes z = V.bytes z
  copied : ∀ k, k < cap → k < count → W.bytes (x' + k) = V.bytes (x + k)
  supply : W.space.pool.supply = V.space.pool.supply

theorem toNat_copySize (oldSize size : UInt32) :
    (copySize oldSize size).toNat = min oldSize.toNat size.toNat := by
  rw [copySize]
  split
  next hlt =>
    rw [UInt32.lt_iff_toNat_lt] at hlt
    omega
  next hge =>
    rw [UInt32.lt_iff_toNat_lt] at hge
    omega

theorem HeapAt.moveBlock {oldSize : UInt32} (h : HeapAt boot held s V H) (hlive : H.Live x cap)
    (hold : oldSize.toNat = cap) (hpos : size ≠ 0) (hsize : size.toNat + 8191 < 2 ^ 32)
    (hn : 0x10000 < n) :
    Ensures n (moveBlock (areaAddress x) oldSize size) s
      (fun ptr s' => ∃ x' cap' W H', ptr = areaAddress x' ∧ size.toNat ≤ cap' ∧
        HeapAt boot held s' W H' ∧ V.Moves W H H' x cap x' cap' size.toNat)
      fun s' => HeapAt boot held s' V H ∧ V.space.Exhausted (pagesNeeded size) := by
  rw [Memory.moveBlock]
  refine (h.mallocUnlocked hsize hn).bind ?_
  rintro ptr s₁ (⟨hzero, -, -⟩ | ⟨x', cap', W₁, H₁, -, rfl, hle, h₁, hserves⟩)
  · exact absurd hzero hpos
  have hnew : H₁.Live x' cap' := (hserves.live x' cap').mpr (.inl ⟨rfl, rfl⟩)
  have hkept : H₁.Live x cap := (hserves.live x cap).mpr (.inr hlive)
  have hne : x ≠ x' := hserves.fresh x cap hlive
  obtain ⟨hpos', hend', hback'⟩ := h₁.liveBacked hnew
  obtain ⟨-, -, hback⟩ := h₁.liveBacked hkept
  have hapart := h₁.liveApart hkept hnew hne
  rw [if_neg (areaAddress_ne_zero (by omega)), toNat_copySize, hold]
  -- the copy goes into the new block only
  refine (h₁.shows.memcpy (hback'.sub (Nat.le_refl _) (by omega))
    (hback.sub (Nat.le_refl _) (by omega)) (by omega)).bind fun _ s₂ hs₂ => ?_
  have h₂ := h₁.write hnew (Nat.le_refl x') (by rw [Tape.read_length]; omega) hs₂
  refine (h₂.freeUnlocked hkept hn).bind ?_
  rintro - s₃ ⟨W, H', h₃, hreleases⟩
  have hnew' : H'.Live x' cap' := (hreleases.live x' cap').mpr ⟨hnew, Ne.symm hne⟩
  refine ⟨x', cap', W, H', rfl, hle, h₃, fun y c => ?_, hserves.fresh,
    fun y c hy hyx z hz hlt => ?_,
    fun k hk hcount => ?_, ?_⟩
  · rw [hreleases.live, hserves.live]
    constructor
    · rintro ⟨⟨rfl, rfl⟩ | hy, hyx⟩
      · exact .inl ⟨rfl, rfl⟩
      · exact .inr ⟨hy, hyx⟩
    · rintro (⟨rfl, rfl⟩ | ⟨hy, hyx⟩)
      · exact ⟨.inl ⟨rfl, rfl⟩, Ne.symm hne⟩
      · exact ⟨.inr hy, hyx⟩
  · have hy₁ : H₁.Live y c := (hserves.live y c).mpr (.inr hy)
    have hout := h₁.liveApart hy₁ hnew (hserves.fresh y c hy)
    rw [hreleases.bytes y c ((hreleases.live y c).mpr ⟨hy₁, hyx⟩) z hz hlt,
      MemView.bytes_write_of_not_mem (by rw [Tape.read_length]; omega)]
    exact hserves.bytes y c hy z hz hlt
  · rw [hreleases.bytes x' cap' hnew' (x' + k) (by omega) (by omega)]
    have hin : k < min cap size.toNat := by omega
    have hrange : x' ≤ x' + k ∧
        x' + k < x' + (Tape.read W₁.bytes x (min cap size.toNat)).length := by
      rw [Tape.read_length]
      omega
    have hwritten := Tape.write_of_mem (t := W₁.bytes) hrange
    rw [Nat.add_sub_cancel_left, Tape.getElem?_read _ _ hin] at hwritten
    have hcopied := Option.some.inj hwritten
    exact hcopied.trans (hserves.bytes x cap hlive (x + k) (by omega) (by omega))
  · exact hreleases.supply.trans hserves.supply

/-- `realloc` of a live block frees it, leaves it where it is, or moves it. -/
theorem HeapAt.reallocUnlocked (h : HeapAt boot held s V H) (hlive : H.Live x cap)
    (hsize : size.toNat + 8191 < 2 ^ 32) (hn : 0x10000 < n) :
    Ensures n (reallocUnlocked (areaAddress x) size) s
      (fun ptr s' =>
        (size = 0 ∧ ptr = 0 ∧ ∃ W H', HeapAt boot held s' W H' ∧ V.Releases W H H' x) ∨
        (size ≠ 0 ∧ ptr = areaAddress x ∧ s' = s ∧ size.toNat ≤ cap) ∨
        size ≠ 0 ∧ ∃ x' cap' W H', ptr = areaAddress x' ∧ size.toNat ≤ cap' ∧
          HeapAt boot held s' W H' ∧ V.Moves W H H' x cap x' cap' size.toNat)
      fun s' => HeapAt boot held s' V H ∧ V.space.Exhausted (pagesNeeded size) := by
  obtain ⟨hcap, hend, -⟩ := h.liveBacked hlive
  rw [Memory.reallocUnlocked, if_neg (areaAddress_ne_zero (by omega))]
  split
  next hzero =>
    refine (h.freeUnlocked hlive hn).bind ?_
    rintro - s' hreleased
    exact .inl ⟨hzero, rfl, hreleased⟩
  next hpos =>
    rcases h.live_cases hlive with
      ⟨hnot, i, hi, pre, page, free, post, slot, hslabs, hslot, hused, rfl, rfl⟩ |
      ⟨haligned, r, hr, rfl, rfl⟩
    · have hq : (⟨page, free⟩ : Slab) ∈ H.slabs i := by simp [hslabs]
      have hobject : (V.caches i).objectSize.toNat = cacheSize i := h.laid.sizes i hi
      rw [if_neg hnot]
      refine (h.owningCache hi hq hslot).bind ?_
      rintro cache s' ⟨rfl, rfl⟩
      rw [ensures_bind, ensures_get, h.shows.caches]
      dsimp only
      split
      next hfits =>
        -- no smaller cache would do
        have hle := UInt32.le_iff_toNat_le.mp hfits.1
        exact .inr (.inl ⟨hpos, rfl, rfl, by rwa [hobject] at hle⟩)
      next =>
        exact (h.moveBlock hlive hobject hpos hsize hn).imp fun ptr s' hmoved =>
          .inr (.inr ⟨hpos, hmoved⟩)
    · have hcount := h.largeFits hr
      have hpage : pageSize.toNat = 4096 := rfl
      have hnat : (UInt32.ofNat r.count).toNat = r.count := by
        rw [UInt32.toNat_ofNat']
        omega
      rw [if_pos haligned, ensures_bind, h.loadPages hr]
      split
      next hsame =>
        have hpages := congrArg UInt32.toNat hsame
        rw [toNat_largePages hsize, hnat] at hpages
        exact .inr (.inl ⟨hpos, rfl, rfl, by omega⟩)
      next =>
        have hold : (UInt32.ofNat r.count * pageSize - pageSize).toNat = 4096 * (r.count - 1) := by
          rw [UInt32.toNat_sub, UInt32.toNat_mul, hnat, hpage]
          omega
        exact (h.moveBlock hlive hold hpos hsize hn).imp fun ptr s' hmoved =>
          .inr (.inr ⟨hpos, hmoved⟩)

end Steps

end AvrKernel.Memory

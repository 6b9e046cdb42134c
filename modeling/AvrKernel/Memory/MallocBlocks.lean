import AvrKernel.Memory.MallocRun

/-!
# What blocks are

In every state that callers of `malloc`, `free` and `realloc` reach, the memory of a block is
mapped and no one else's, the alignment of its address tells how it was allocated, and `realloc`
keeps its beginning.
-/

namespace AvrKernel.Memory

open Comp

/-- A large block begins at a page, and the page in front of it is the first of its region. Any
other block is a slot of a cache, and does not begin at a page. -/
def Block.Classified (H : Heap) (b : Block) : Prop :=
  (isAligned b.address ∧ ∃ r ∈ H.large, b.address = pageAddress (r.first + 1) ∧
    b.bytes.length ≤ 4096 * (r.count - 1)) ∨
  (¬ isAligned b.address ∧ ∃ i < cacheCount, ∃ q ∈ H.slabs i, ∃ slot < slotCount (cacheSize i),
    slot ∉ q.free ∧ b.address = areaAddress (slotAt q.page (cacheSize i) slot) ∧
      b.bytes.length ≤ cacheSize i)

namespace HeapSystem

variable {boot : VmmState} {s : HeapSystem} {kernelEnd size : UInt32} {n : Nat} {b : Block}

/-- What the callers of the heap are promised of their blocks. A `realloc` that returned `NULL`
for some bytes would change nothing. -/
structure Served (boot : VmmState) (n : Nat) (s : HeapSystem) : Prop where
  sound : s.Sound
  owned : ∀ b ∈ s.blocks, ∀ k < b.bytes.length,
    s.mem.vmm.tables.Mapped (b.address + .ofNat k) ∧
      ∀ r ∈ s.regions, ¬ r.Contains (PageSystem.pageOf (b.address + .ofNat k))
  unshared : ∀ b ∈ s.blocks, ∀ b' ∈ s.blocks, ∀ k < b.bytes.length, ∀ k' < b'.bytes.length,
    s.mem.vmm.tables.vmmGetPhysAddr (b.address + .ofNat k) =
      s.mem.vmm.tables.vmmGetPhysAddr (b'.address + .ofNat k') → b = b' ∧ k = k'
  classified : ∃ V H, HeapAt boot s.regions s.mem V H ∧ ∀ b ∈ s.blocks, b.Classified H
  moved : ∀ b ∈ s.blocks, ∀ size : UInt32, size.toNat + 8191 < 2 ^ 32 →
    Ensures n (heap (reallocUnlocked b.address size)) s
      (fun ptr s' => (ptr = 0 → size ≠ 0 → s' = s) ∧
        ∀ k value, k < size.toNat → b.bytes[k]? = some value →
          Ensures n (load8 (ptr + .ofNat k)) s'.mem (fun found _ => found = value) fun _ => False)
      Sound

theorem Kept.classified {V : MemView} {H : Heap} (hheap : HeapAt boot s.regions s.mem V H)
    (hblocks : V.Blocks H.Live s.blocks) (hb : b ∈ s.blocks) : b.Classified H := by
  obtain ⟨x, cap, hlive, hat⟩ := hblocks.object b hb
  have hfits := hat.fits
  rw [Block.Classified, hat.address]
  rcases hheap.live_cases hlive with
    ⟨hnot, i, hi, pre, page, free, post, slot, hslabs, hslot, hused, rfl, rfl⟩ |
    ⟨haligned, r, hr, rfl, rfl⟩
  · have hq : (⟨page, free⟩ : Slab) ∈ H.slabs i := by simp [hslabs]
    exact .inr ⟨hnot, i, hi, _, hq, slot, hslot, hused, rfl, hfits⟩
  · exact .inl ⟨haligned, r, hr, (pageAddress_eq _).symm, hfits⟩

/-- What a block has moved to begins with what was in it. -/
theorem Kept.moved (h : Kept boot s) (hb : b ∈ s.blocks) (hsize : size.toNat + 8191 < 2 ^ 32)
    (hn : 0x10000 < n) :
    Ensures n (heap (reallocUnlocked b.address size)) s
      (fun ptr s' => (ptr = 0 → size ≠ 0 → s' = s) ∧
        ∀ k value, k < size.toNat → b.bytes[k]? = some value →
          Ensures n (load8 (ptr + .ofNat k)) s'.mem (fun found _ => found = value) fun _ => False)
      Sound := by
  obtain ⟨V, H, hheap, hblocks, hsupply⟩ := h
  obtain ⟨x, cap, hlive, hat⟩ := hblocks.object b hb
  have hfits := hat.fits
  rw [heap, ensures_zoom, hat.address]
  refine (hheap.reallocUnlocked hlive hsize hn).mono ?_ ?_
  · rintro ptr mem (⟨hzero, -, -⟩ | ⟨-, rfl, rfl, -⟩ |
      ⟨-, x', cap', W, H', rfl, hle, hheap', hmoves⟩)
    · refine ⟨fun _ hpos => absurd hzero hpos, fun k value hk _ => ?_⟩
      rw [hzero] at hk
      exact absurd hk (Nat.not_lt_zero k)
    · refine ⟨fun _ _ => rfl, fun k value _ hvalue => ?_⟩
      obtain ⟨hlt, -⟩ := List.getElem?_eq_some_iff.mp hvalue
      have hback := (hheap.liveBacked hlive).2.2 (x + k) (by omega) (by omega)
      rw [areaAddress_add, hheap.shows.load8 hback]
      exact hat.bytes k value hvalue
    · have hnew : H'.Live x' cap' := (hmoves.live x' cap').mpr (.inl ⟨rfl, rfl⟩)
      refine ⟨fun hnull => absurd hnull (areaAddress_ne_zero (hheap'.live_lt x' cap' hnew)),
        fun k value hk hvalue => ?_⟩
      obtain ⟨hlt, -⟩ := List.getElem?_eq_some_iff.mp hvalue
      have hback := (hheap'.liveBacked hnew).2.2 (x' + k) (by omega) (by omega)
      rw [areaAddress_add, hheap'.shows.load8 hback, hmoves.copied k (by omega) hk]
      exact hat.bytes k value hvalue
  · rintro mem ⟨hheap', -⟩
    have hkept : Kept boot { s with mem } := ⟨V, H, hheap', hblocks, hsupply⟩
    exact hkept.sound

theorem Kept.served (h : Kept boot s) (hn : 0x10000 < n) : s.Served boot n := by
  have hsound := h.sound
  have hmoved := fun b (hb : b ∈ s.blocks) (size : UInt32) (hsize : size.toNat + 8191 < 2 ^ 32) =>
    h.moved (n := n) hb hsize hn
  obtain ⟨V, H, hheap, hblocks, -⟩ := h
  -- the position of every byte of a block, in one of its pages
  have hplace : ∀ b ∈ s.blocks, ∃ x cap, H.Live x cap ∧ b.At V x cap ∧
      ∀ k < b.bytes.length, V.space.Backed (x + k) := by
    intro b hb
    obtain ⟨x, cap, hlive, hat⟩ := hblocks.object b hb
    have hfits := hat.fits
    exact ⟨x, cap, hlive, hat, fun k hk =>
      (hheap.liveBacked hlive).2.2 _ (Nat.le_add_right x k) (by omega)⟩
  refine ⟨hsound, fun b hb k hk => ?_, fun b hb b' hb' k hk k' hk' heq => ?_,
    ⟨V, H, hheap, fun b hb => Kept.classified hheap hblocks hb⟩, hmoved⟩
  · obtain ⟨x, cap, hlive, hat, hback⟩ := hplace b hb
    obtain ⟨-, hend, -⟩ := hheap.liveBacked hlive
    have hfits := hat.fits
    rw [hat.address, areaAddress_add, pageOf_areaAddress (by omega)]
    refine ⟨hheap.shows.mapped (hback k hk), fun r hr hin => ?_⟩
    obtain ⟨r', hr', hin'⟩ := hheap.live_region hlive (Nat.le_add_right x k) (by omega)
    exact (List.pairwise_append.mp hheap.holds.apart).2.2 r hr r' hr' _ ⟨hin, hin'⟩
  · obtain ⟨x, cap, hlive, hat, hback⟩ := hplace b hb
    obtain ⟨x', cap', hlive', hat', hback'⟩ := hplace b' hb'
    have hfits := hat.fits
    have hfits' := hat'.fits
    rw [hat.address, hat'.address, areaAddress_add, areaAddress_add] at heq
    have hsame := hheap.shows.translate_inj (hback k hk) (hback' k' hk') heq
    obtain rfl : x = x' := by
      by_contra hne
      have hapart := hheap.liveApart hlive hlive' hne
      omega
    exact ⟨List.inj_on_of_nodup_map hblocks.distinct hb hb' (hat.address.trans hat'.address.symm),
      by omega⟩

/-- Whatever callers of the heap ask for, write and give back, while others do the same with
pages, they are served. -/
theorem run_served (hboot : Booted kernelEnd boot) (phys : UInt32 → UInt8) (cachesAt : UInt32)
    {ops : List HeapOp} (hn : 0x10000 < n)
    (hops : Permitted n step Ok (start boot phys cachesAt) ops) :
    Ensures n (run step ops) (start boot phys cachesAt) (fun _ s => s.Served boot n) Sound := by
  have hrun := ensures_run (fun _ _ h hok => Kept.step hboot h hok hn)
    (Kept.start hboot phys cachesAt) hops
  exact hrun.mono (fun _ _ h => h.served hn) fun _ h => h.sound

/-- A large block has moved, and a slot is in use besides it. -/
theorem run_served_exampleBoot : ∃ answers s,
    run step exampleOps 0x20000 (start exampleBoot (fun _ => 0) 0) = .done answers s ∧
      s.firstBytes = [(0x10007000, [1, 2, 3]), (0x10005010, [4, 5, 6])] ∧
      s.Served exampleBoot 0x20000 := by
  obtain ⟨answers, s, hguarded, hblocks⟩ := Outcome.exists_of_shown exampleOps_run
  obtain ⟨hops, hrun⟩ := permitted_of_guarded hguarded
  exact ⟨answers, s, hrun, hblocks,
    (run_served booted_exampleBoot (fun _ => 0) 0 (by decide) hops).of_done hrun⟩

end HeapSystem

end AvrKernel.Memory

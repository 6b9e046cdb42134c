import AvrKernel.Processes.Table
import Mathlib.Data.Finset.Insert
import Mathlib.Data.Finset.Lattice.Lemmas

/-!
# The memory of a process

What a process has allocated is in its slot, and `process_free_resources` frees
what is in the slot.
-/

namespace AvrKernel.Processes

namespace Heap

/-- A heap after the allocation of some blocks. -/
structure Grown (h h' : Heap) (blocks : Finset Nat) : Prop where
  fresh : h.fresh ≤ h'.fresh
  live : h'.live = h.live ∪ blocks
  new : ∀ b ∈ blocks, h.fresh ≤ b
  below : ∀ b ∈ blocks, b < h'.fresh

theorem Grown.rfl {h : Heap} : h.Grown h ∅ :=
  ⟨le_rfl, by simp, by simp, by simp⟩

theorem Grown.trans {h h' h'' : Heap} {blocks blocks' : Finset Nat} (hfirst : h.Grown h' blocks)
    (hsecond : h'.Grown h'' blocks') : h.Grown h'' (blocks ∪ blocks') := by
  refine ⟨hfirst.fresh.trans hsecond.fresh, ?_, ?_, ?_⟩
  · rw [hsecond.live, hfirst.live, Finset.union_assoc]
  · intro b hb
    rcases Finset.mem_union.mp hb with hb | hb
    · exact hfirst.new b hb
    · exact hfirst.fresh.trans (hsecond.new b hb)
  · intro b hb
    rcases Finset.mem_union.mp hb with hb | hb
    · exact (hfirst.below b hb).trans_le hsecond.fresh
    · exact hsecond.below b hb

theorem malloc_grown (h : Heap) (memory : Bool) :
    h.Grown (h.malloc memory).2 (h.malloc memory).1.toFinset := by
  cases memory with
  | false => exact Grown.rfl
  | true =>
      refine ⟨Nat.le_succ _, ?_, ?_, ?_⟩
      · ext b
        simp [malloc]
      · simp [malloc]
      · simp [malloc]

/-- The blocks that are new in a heap are among those that were allocated. -/
theorem Grown.sdiff_subset {h h' : Heap} {blocks : Finset Nat} (hgrown : h.Grown h' blocks) :
    h'.live \ h.live ⊆ blocks := by
  intro b hb
  rw [hgrown.live] at hb
  simp only [Finset.mem_sdiff, Finset.mem_union] at hb
  exact hb.1.resolve_left hb.2

theorem Grown.live_of_lt {h h' : Heap} {blocks : Finset Nat} (hgrown : h.Grown h' blocks) {b : Nat}
    (hlt : b < h.fresh) (hb : b ∈ h'.live) : b ∈ h.live := by
  rw [hgrown.live] at hb
  rcases Finset.mem_union.mp hb with hb | hb
  · exact hb
  · exact absurd (hgrown.new b hb) (by omega)

end Heap

/-- What `segment_free` frees of a segment. -/
def ProcessSegment.blocks (segment : ProcessSegment) : Finset Nat :=
  if segment.owned then segment.raw.toFinset else ∅

@[simp] theorem ProcessSegment.blocks_zero : ProcessSegment.zero.blocks = ∅ := rfl

theorem segmentFree_live (segment : ProcessSegment) (h : Heap) :
    (segmentFree segment h).live = h.live \ segment.blocks := by
  unfold segmentFree ProcessSegment.blocks
  split
  · rfl
  · simp

theorem segmentFree_fresh (segment : ProcessSegment) (h : Heap) :
    (segmentFree segment h).fresh = h.fresh := by
  unfold segmentFree
  split <;> rfl

theorem segmentAlloc_grown (size : UInt32) (memory : Bool) (h : Heap) :
    h.Grown (segmentAlloc size memory h).2.2 (segmentAlloc size memory h).2.1.blocks := by
  unfold segmentAlloc
  split
  · exact Heap.Grown.rfl
  · split
    · exact Heap.Grown.rfl
    · cases memory with
      | false => exact Heap.Grown.rfl
      | true => exact h.malloc_grown true

/-- What a process has allocated but its threads. -/
def Process.resources (p : Process) : Finset Nat :=
  p.code.blocks ∪ p.data.blocks ∪ p.bss.blocks ∪ p.pageDirectoryRaw.toFinset

/-- Everything in the slot is freed. -/
theorem processFreeResources_live (p : Process) (h : Heap) :
    (processFreeResources p h).live = h.live \ p.resources := by
  simp only [processFreeResources, Heap.free, segmentFree_live, Process.resources]
  ext b
  simp only [Finset.mem_sdiff, Finset.mem_union]
  tauto

theorem processFreeResources_fresh (p : Process) (h : Heap) :
    (processFreeResources p h).fresh = h.fresh := by
  simp only [processFreeResources, Heap.free, segmentFree_fresh]

/-- A slot that has its image filled in is the same process. -/
structure Process.Same (p p' : Process) : Prop where
  state : p'.state = p.state
  generation : p'.generation = p.generation
  pid : p'.pid = p.pid
  threads : p'.threads = p.threads

theorem Process.Same.trans {p p' p'' : Process} (hfirst : p.Same p') (hsecond : p'.Same p'') :
    p.Same p'' :=
  ⟨hsecond.state.trans hfirst.state, hsecond.generation.trans hfirst.generation,
    hsecond.pid.trans hfirst.pid, hsecond.threads.trans hfirst.threads⟩

theorem addressSpaceCreate_same (p : Process) (memory : Bool) (h : Heap) :
    p.Same (addressSpaceCreate p memory h).2.1 := by
  unfold addressSpaceCreate
  split <;> exact ⟨rfl, rfl, rfl, rfl⟩

theorem addressSpaceCreate_grown (p : Process) (memory : Bool) (h : Heap) :
    ∃ blocks ⊆ (addressSpaceCreate p memory h).2.1.resources,
      h.Grown (addressSpaceCreate p memory h).2.2 blocks := by
  have hgrown := segmentAlloc_grown pageSize memory h
  unfold addressSpaceCreate
  split
  next pd h' halloc =>
    have hpd : pd = .zero := by
      cases memory <;> simp_all [segmentAlloc, Heap.malloc, pageSize]
    rw [halloc] at hgrown
    exact ⟨∅, Finset.empty_subset _, by simpa [hpd] using hgrown⟩
  next pd h' halloc =>
    rw [halloc] at hgrown
    refine ⟨pd.blocks, ?_, hgrown⟩
    intro b hb
    apply Finset.mem_union_right
    unfold ProcessSegment.blocks at hb
    split at hb
    · exact hb
    · exact absurd hb (Finset.notMem_empty b)

theorem imageAlloc_same (layout : ProcessImageLayout) (memory : ImagePart → Bool) (p : Process)
    (h : Heap) : p.Same (imageAlloc layout memory p h).2.1 := by
  unfold imageAlloc
  split
  · exact ⟨rfl, rfl, rfl, rfl⟩
  · split
    · exact ⟨rfl, rfl, rfl, rfl⟩
    · split
      · exact ⟨rfl, rfl, rfl, rfl⟩
      · apply Process.Same.trans _ (addressSpaceCreate_same _ _ _)
        exact ⟨rfl, rfl, rfl, rfl⟩

theorem addressSpaceCreate_segments (p : Process) (memory : Bool) (h : Heap) :
    p.code.blocks ∪ p.data.blocks ∪ p.bss.blocks ⊆
      (addressSpaceCreate p memory h).2.1.resources := by
  intro b hb
  unfold addressSpaceCreate
  split <;> exact Finset.mem_union_left _ hb

/-- Whether or not there is memory for all of the image, what was allocated is in the slot. -/
theorem imageAlloc_grown (layout : ProcessImageLayout) (memory : ImagePart → Bool) (p : Process)
    (h : Heap) : ∃ blocks ⊆ (imageAlloc layout memory p h).2.1.resources,
      h.Grown (imageAlloc layout memory p h).2.2 blocks := by
  have hcode := segmentAlloc_grown layout.codeSize (memory .code) h
  unfold imageAlloc
  split
  next code h₁ halloc =>
    rw [halloc] at hcode
    refine ⟨code.blocks, ?_, hcode⟩
    intro b hb
    simp [Process.resources, hb]
  next code h₁ halloc =>
    rw [halloc] at hcode
    have hdata := segmentAlloc_grown layout.dataSize (memory .data) h₁
    split
    next data h₂ halloc =>
      rw [halloc] at hdata
      refine ⟨code.blocks ∪ data.blocks, ?_, hcode.trans hdata⟩
      intro b hb
      rcases Finset.mem_union.mp hb with hb | hb <;> simp [Process.resources, hb]
    next data h₂ halloc =>
      rw [halloc] at hdata
      have hbss := segmentAlloc_grown layout.bssSize (memory .bss) h₂
      split
      next bss h₃ halloc =>
        rw [halloc] at hbss
        refine ⟨code.blocks ∪ data.blocks ∪ bss.blocks, ?_, (hcode.trans hdata).trans hbss⟩
        intro b hb
        exact Finset.mem_union_left _ hb
      next bss h₃ halloc =>
        rw [halloc] at hbss
        obtain ⟨directory, hsub, hdirectory⟩ :=
          addressSpaceCreate_grown { p with code, data, bss } (memory .directory) h₃
        refine ⟨code.blocks ∪ data.blocks ∪ bss.blocks ∪ directory, ?_,
          ((hcode.trans hdata).trans hbss).trans hdirectory⟩
        apply Finset.union_subset _ hsub
        exact addressSpaceCreate_segments { p with code, data, bss } (memory .directory) h₃

end AvrKernel.Processes

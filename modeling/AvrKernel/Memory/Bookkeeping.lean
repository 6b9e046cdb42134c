import AvrKernel.Memory.PageRun

/-!
# The books of the virtual memory manager

The bitmap of pages and the page tables of `virtual/vmm.c`, and the bitmap of frames of
`virtual/pmm.c`, compared with the regions that callers hold, after any calls in any order.
-/

namespace AvrKernel.Memory

open Comp

namespace VmmState

/-- The page is mapped, and present, and the frame is behind it. -/
def MapsTo (s : VmmState) (page frame : Nat) : Prop :=
  frame < physTotalFrames ∧ s.tables.Mapped (pageAddress page) ∧
    s.tables.vmmGetPhysAddr (pageAddress page) = frameAddress frame

/-- The bitmap marks the pages of the regions. Each page that was allocated has a frame, which is
marked as used and behind no other one. -/
structure Agrees (s : VmmState) (regions : List Region) : Prop where
  bits : ∀ page < virtPages, s.bit page = true ↔ ∃ r ∈ regions, r.Contains page
  backed : ∀ r ∈ regions, r.kind = .pages → ∀ page, r.Contains page →
    ∃ frame, s.MapsTo page frame ∧ ¬ s.pmm.IsFree (.ofNat frame)
  alone : ∀ r ∈ regions, r.kind = .pages → ∀ page, r.Contains page → ∀ r' ∈ regions,
    r'.kind ≠ .device → ∀ page', r'.Contains page' → ∀ frame,
      s.MapsTo page frame → s.MapsTo page' frame → page' = page

/-- Both bitmaps, and the entries of the area in the page tables, are the same. -/
structure SameBooks (s s' : VmmState) : Prop where
  bits : ∀ page < virtPages, s'.bit page = s.bit page
  entries : ∀ page < virtPages,
    s'.tables.pte (pageAddress page) = s.tables.pte (pageAddress page)
  frames : ∀ frame < physTotalFrames,
    s'.pmm.IsFree (.ofNat frame) ↔ s.pmm.IsFree (.ofNat frame)

/-- The frames behind the pages of the region are free in the second state. -/
def Returned (r : Region) (s s' : VmmState) : Prop :=
  ∀ page frame, r.Contains page → s.MapsTo page frame → s'.pmm.IsFree (.ofNat frame)

variable {s s' : VmmState} {S T : Space} {regions : List Region} {r : Region}
  {page frame frame' n : Nat} {halt : VmmState → Prop}

theorem MapsTo.unique (h : s.MapsTo page frame) (h' : s.MapsTo page frame') : frame = frame' := by
  obtain ⟨hlt, -, hphys⟩ := h
  obtain ⟨hlt', -, hphys'⟩ := h'
  have hnat := congrArg UInt32.toNat (hphys.symm.trans hphys')
  rw [toNat_frameAddress hlt, toNat_frameAddress hlt'] at hnat
  omega

theorem Shows.mapsTo (h : s.Shows S) (huse : S.use page = some (.frame frame)) :
    s.MapsTo page frame := by
  have hlt := (h.known huse).trans_le h.ok.total
  have hpage := h.lt_virtPages huse
  obtain ⟨hmapped, hphys⟩ := h.translate huse (show SamePage _ (pageAddress page) from rfl)
  refine ⟨hlt, hmapped, UInt32.toNat_inj.mp ?_⟩
  rw [hphys, toNat_frameAddress hlt, toNat_pageAddress hpage]
  omega

/-- Devices apart, only pages that are backed by frames are mapped. -/
theorem Shows.use_of_mapsTo (h : s.Shows S) (hpage : page < virtPages)
    (hdevice : ∀ entry, S.use page ≠ some (.device entry)) (hmaps : s.MapsTo page frame) :
    S.use page = some (.frame frame) := by
  have hpresent := hmaps.2.1.2
  rw [h.pte page hpage] at hpresent
  cases huse : S.use page with
  | none =>
      rw [huse] at hpresent
      exact absurd rfl hpresent
  | some use =>
      cases use with
      | frame f => rw [(h.mapsTo huse).unique hmaps]
      | device entry => exact absurd huse (hdevice entry)
      | guard =>
          rw [huse] at hpresent
          exact absurd rfl hpresent

theorem Shows.not_isFree (h : s.Shows S) (huse : S.use page = some (.frame frame)) :
    ¬ s.pmm.IsFree (.ofNat frame) := by
  intro hfree
  have hmem := PmmState.mem_freeFrames.mpr ⟨(h.known huse).trans_le h.ok.total, hfree⟩
  rw [h.free] at hmem
  exact h.valid.taken (Space.held_pool.mpr huse) hmem

theorem Shows.agrees (h : s.Shows S) (hholds : S.Holds regions) : s.Agrees regions where
  bits page hpage := by
    rw [h.bit page hpage, Option.isSome_iff_ne_none]
    constructor
    · exact hholds.covered page
    · rintro ⟨r, hr, hin⟩
      exact (hholds.used r hr page hin).ne_none
  backed r hr hkind page hin := by
    have huses := hholds.used r hr page hin
    rw [Region.Uses, hkind] at huses
    obtain ⟨frame, huse⟩ := huses
    exact ⟨frame, h.mapsTo huse, h.not_isFree huse⟩
  alone r hr hkind page hin r' hr' hkind' page' hin' frame hmaps hmaps' := by
    have hnot : r.kind ≠ .device := by simp [hkind]
    have huse : ∀ {r : Region} {page : Nat}, r ∈ regions → r.kind ≠ .device → r.Contains page →
        s.MapsTo page frame → S.use page = some (.frame frame) := by
      intro r page hr hkind hin hmaps
      have hpage := (hholds.fits r hr).2
      have hlt := hin.2
      exact h.use_of_mapsTo (by omega) (hholds.not_device hr hkind hin) hmaps
    exact h.valid.once (Space.held_pool.mpr (huse hr' hkind' hin' hmaps'))
      (Space.held_pool.mpr (huse hr hnot hin hmaps))

theorem Shows.sameBooks (h : s.Shows S) (h' : s'.Shows S) : s.SameBooks s' where
  bits page hpage := (h'.bit page hpage).trans (h.bit page hpage).symm
  entries page hpage := (h'.pte page hpage).trans (h.pte page hpage).symm
  frames frame hframe := by
    have hfree : s'.pmm.freeFrames = s.pmm.freeFrames := h'.free.trans h.free.symm
    have hmem := congrArg (frame ∈ ·) hfree
    simpa [PmmState.mem_freeFrames, hframe] using hmem

/-- A frame that only a page of the region held is free when the region is given up. -/
theorem Shows.returned (h : s.Shows S) (hholds : S.Holds regions) (hr : r ∈ regions)
    (hkind : r.kind ≠ .device) (h' : s'.Shows T) (hvacated : S.Vacated r.first r.count T) :
    Returned r s s' := by
  intro page frame hin hmaps
  have hfits := (hholds.fits r hr).2
  have hlt := hin.2
  have huse := h.use_of_mapsTo (by omega) (hholds.not_device hr hkind hin) hmaps
  have hfree : frame ∈ T.pool.free := by
    rw [hvacated.valid.mem_free_iff, hvacated.supply]
    refine ⟨.inr ⟨page, Space.held_pool.mpr huse⟩, fun page' hheld => ?_⟩
    have huse' := Space.held_pool.mp hheld
    by_cases hin' : r.Contains page'
    · rw [hvacated.inside page' hin'.1 hin'.2] at huse'
      cases huse'
    · rw [hvacated.outside page' hin'] at huse'
      rw [h.valid.once (Space.held_pool.mpr huse') (Space.held_pool.mpr huse)] at hin'
      exact hin' hin
  exact (PmmState.mem_freeFrames.mp (h'.free ▸ hfree)).2

end VmmState

namespace PageSystem

variable {s : PageSystem} {boot : VmmState} {kernelEnd : UInt32} {n : Nat}

/-- The books agree with the regions. Giving up a region gives back its frames, and a call that
cannot allocate all of its pages changes none of the books before the kernel stops. -/
structure Booked (n : Nat) (s : PageSystem) : Prop where
  agrees : s.vmm.Agrees s.regions
  freed : ∀ r ∈ s.regions, r.kind ≠ .device →
    Ensures n (vmmFreePages (pageAddress r.first) (.ofNat r.count)) s.vmm
      (fun _ vmm => VmmState.Returned r s.vmm vmm) fun _ => False
  restored : ∀ numPages, Ensures n (vmmAllocPages numPages) s.vmm (fun _ _ => True) s.vmm.SameBooks

theorem Kept.booked (h : Kept boot s) : s.Booked n := by
  obtain ⟨⟨S, hS, hholds, -⟩, -⟩ := h
  refine ⟨hS.agrees hholds, fun r hr hkind => ?_, fun numPages => ?_⟩
  · refine (hholds.freeRegion hS hr hkind).imp ?_
    rintro - vmm ⟨T, hT, hvacated, -⟩
    exact hS.returned hholds hr hkind hT hvacated
  · refine (hS.vmmAllocPages numPages).mono (fun _ _ _ => trivial) ?_
    rintro vmm ⟨hvmm, -⟩
    exact hS.sameBooks hvmm

/-- From boot on, whatever is allocated, mapped and given back, the books agree with what callers
hold, and stay as they are when memory runs out within a call. -/
theorem run_booked (hboot : Booted kernelEnd boot) {ops : List PageOp}
    (hops : Permitted n PageSystem.step Ok ⟨boot, []⟩ ops) :
    Ensures n (run PageSystem.step ops) ⟨boot, []⟩ (fun _ s => s.Booked n)
      fun s => s.vmm.Agrees s.regions := by
  have hrun := ensures_run (fun _ _ h hok => Kept.step hboot h hok) (Kept.start hboot) hops
  exact hrun.mono (fun _ _ h => h.booked) fun _ h => (h.booked (n := n)).agrees

/-- More pages than there were frames at boot are never served. -/
theorem Kept.stops {numPages : UInt32} (h : Kept boot s)
    (hmany : boot.pmm.freeFrames.card < numPages.toNat) :
    ∃ vmm, vmmAllocPages numPages n s.vmm = .stopped vmm := by
  obtain ⟨⟨S, hS, -, hsupply⟩, -⟩ := h
  have hfree : S.free ⊆ boot.pmm.freeFrames := by
    intro frame hmem
    have hin : frame ∈ S.pool.supply := .inl hmem
    rwa [hsupply] at hin
  have hspec := hS.vmmAllocPages (n := n) numPages
  rw [Ensures] at hspec
  cases hrun : vmmAllocPages numPages n s.vmm with
  | stopped vmm => exact ⟨vmm, rfl⟩
  | done address vmm =>
      rw [hrun] at hspec
      obtain ⟨start, T, -, -, -, -, htaken, -⟩ := hspec
      have hcard := htaken.card
      have hle := Finset.card_le_card hfree
      omega
  | fault | running =>
      rw [hrun] at hspec
      exact hspec.elim

/-- After the example run, a call for 65 pages finds a run of them, but not that
many frames. -/
theorem run_booked_exampleBoot : ∃ answers s vmm,
    run PageSystem.step exampleOps 3 ⟨exampleBoot, []⟩ = .done answers s ∧
      s.regions = [⟨.device, 10, 2⟩, ⟨.stack, 5, 5⟩, ⟨.pages, 0, 2⟩] ∧ s.Booked 3 ∧
      vmmAllocPages 65 3 s.vmm = .stopped vmm ∧ s.vmm.SameBooks vmm := by
  obtain ⟨answers, s, hrun, hregions, -⟩ := run_exampleOps
  have hbooked := (run_booked booted_exampleBoot exampleOps_permitted).of_done hrun
  have hkept := (ensures_run (fun _ _ h hok => Kept.step booted_exampleBoot h hok)
    (Kept.start booted_exampleBoot) exampleOps_permitted).of_done hrun
  have hframes : exampleBoot.pmm.freeFrames ⊆ Finset.range 64 := by
    intro frame hfree
    have htotal : exampleBoot.pmm.totalFrames = 64 := by decide +kernel
    have hlt := booted_exampleBoot.shows.ok.lt_total hfree
    rw [htotal] at hlt
    exact Finset.mem_range.mpr hlt
  have hcard := Finset.card_le_card hframes
  rw [Finset.card_range] at hcard
  have hmany : exampleBoot.pmm.freeFrames.card < (65 : UInt32).toNat := Nat.lt_succ_of_le hcard
  obtain ⟨vmm, hstop⟩ := hkept.stops (n := 3) hmany
  exact ⟨answers, s, vmm, hrun, hregions, hbooked, hstop, (hbooked.restored 65).of_stopped hstop⟩

end PageSystem

end AvrKernel.Memory

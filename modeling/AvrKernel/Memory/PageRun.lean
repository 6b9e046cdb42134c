import AvrKernel.Memory.Boot

/-!
# Runs of the virtual memory manager

The callers hold regions of pages: ones that they have allocated, the stacks of threads, and
windows to devices. Whatever they ask for and give back, in any order, the bitmap, the page
tables and the frames agree with what they hold.
-/

namespace AvrKernel.Memory

open Comp
inductive RegionKind
  | pages
  | stack
  | device
  deriving DecidableEq

/-- A run of pages that a caller holds. -/
structure Region where
  kind : RegionKind
  first : Nat
  count : Nat
  deriving DecidableEq

namespace Region

def Contains (r : Region) (page : Nat) : Prop := r.first ≤ page ∧ page < r.first + r.count

/-- What the pages of the region are used for. The lowest page of a stack is its guard. -/
def Uses (r : Region) (page : Nat) (use : Option PageUse) : Prop :=
  match r.kind with
  | .pages => ∃ frame, use = some (.frame frame)
  | .stack => if page = r.first then use = some .guard else ∃ frame, use = some (.frame frame)
  | .device => ∃ entry, use = some (.device entry)

def Apart (r r' : Region) : Prop := ∀ page, ¬ (r.Contains page ∧ r'.Contains page)

theorem Apart.symm {r r' : Region} (h : r.Apart r') : r'.Apart r :=
  fun page hboth => h page hboth.symm

/-- The page is used at all. -/
theorem Uses.ne_none {r : Region} {page : Nat} {use : Option PageUse} (h : r.Uses page use) :
    use ≠ none := by
  rintro rfl
  rw [Uses] at h
  split at h
  · simp at h
  · split at h
    · simp at h
    · simp at h
  · simp at h

end Region

/-- The manager, and the regions that its callers hold. -/
structure PageSystem where
  vmm : VmmState
  regions : List Region

/-- What callers ask for. -/
inductive PageOp
  | alloc (numPages : UInt32)
  | stack
  | device (physAddr sizeBytes flags : UInt32)
  | free (r : Region)

namespace PageSystem

/-- A function of the manager. -/
def manager {α : Type} (c : VmmM α) : Comp PageSystem α :=
  zoom PageSystem.vmm (fun vmm s => { s with vmm }) c

/-- The page of an address in the area. -/
def pageOf (address : UInt32) : Nat := ((address - vmStart) / pageSize).toNat

def hold (r : Region) : Comp PageSystem Unit := modify fun s => { s with regions := r :: s.regions }

/-- The caller keeps what it gets, and forgets what it frees. -/
def step : PageOp → Comp PageSystem Unit
  | .alloc numPages => do
      let address ← manager (vmmAllocPages numPages)
      hold ⟨.pages, pageOf address, numPages.toNat⟩
  | .stack => do
      let address ← manager setupStackPages
      hold ⟨.stack, pageOf address, threadAllocPages.toNat⟩
  | .device physAddr sizeBytes flags => do
      let address ← manager (vmmMapMmioRegion physAddr sizeBytes flags)
      if address = 0 then pure ()
      else hold ⟨.device, pageOf address, (regionPages physAddr sizeBytes).toNat⟩
  | .free r => do
      manager (vmmFreePages (pageAddress r.first) (.ofNat r.count))
      modify fun s => { s with regions := s.regions.erase r }

/-- Only what is held is freed, and no window to a device. -/
def Ok (s : PageSystem) : PageOp → Prop
  | .free r => r ∈ s.regions ∧ r.kind ≠ .device
  | _ => True

instance (s : PageSystem) (op : PageOp) : Decidable (s.Ok op) :=
  match op with
  | .free r => inferInstanceAs (Decidable (r ∈ s.regions ∧ r.kind ≠ .device))
  | .alloc _ | .stack | .device _ _ _ => isTrue trivial

end PageSystem

/-- The regions are all that is used, and do not overlap. -/
structure Space.Holds (S : Space) (regions : List Region) : Prop where
  fits : ∀ r ∈ regions, 0 < r.count ∧ r.first + r.count ≤ virtPages
  apart : regions.Pairwise Region.Apart
  covered : ∀ page, S.use page ≠ none → ∃ r ∈ regions, r.Contains page
  used : ∀ r ∈ regions, ∀ page, r.Contains page → r.Uses page (S.use page)

namespace Space

variable {S T : Space} {regions : List Region} {r : Region} {page : Nat}

theorem Holds.nil (free : Finset Nat) : (Space.empty free).Holds [] where
  fits r hr := by cases hr
  apart := .nil
  covered page huse := absurd rfl huse
  used r hr := by cases hr

/-- A region of pages that were not in use is held besides the others. -/
theorem Holds.cons (h : S.Holds regions) (hpos : 0 < r.count)
    (hfits : r.first + r.count ≤ virtPages)
    (hunused : ∀ page, r.Contains page → S.use page = none)
    (houtside : ∀ page, ¬ r.Contains page → T.use page = S.use page)
    (hinside : ∀ page, r.Contains page → r.Uses page (T.use page)) : T.Holds (r :: regions) where
  fits r' hr' := by
    rcases List.mem_cons.mp hr' with rfl | hr'
    · exact ⟨hpos, hfits⟩
    · exact h.fits r' hr'
  apart := by
    refine List.pairwise_cons.mpr ⟨fun r' hr' page hboth => ?_, h.apart⟩
    exact (h.used r' hr' page hboth.2).ne_none (hunused page hboth.1)
  covered page huse := by
    by_cases hin : r.Contains page
    · exact ⟨r, List.mem_cons_self, hin⟩
    · rw [houtside page hin] at huse
      obtain ⟨r', hr', hin'⟩ := h.covered page huse
      exact ⟨r', List.mem_cons_of_mem r hr', hin'⟩
  used r' hr' page hin := by
    rcases List.mem_cons.mp hr' with rfl | hr'
    · exact hinside page hin
    · have hout : ¬ r.Contains page := fun hboth =>
        (h.used r' hr' page hin).ne_none (hunused page hboth)
      rw [houtside page hout]
      exact h.used r' hr' page hin

/-- A region that is freed leaves the others as they are. -/
theorem Holds.erase (h : S.Holds regions) (hr : r ∈ regions)
    (houtside : ∀ page, ¬ r.Contains page → T.use page = S.use page)
    (hinside : ∀ page, r.Contains page → T.use page = none) : T.Holds (regions.erase r) := by
  have hperm : regions.Perm (r :: regions.erase r) := List.perm_cons_erase hr
  have hsymm : ∀ {r r' : Region}, r.Apart r' → r'.Apart r := fun hapart => hapart.symm
  obtain ⟨hapart, hrest⟩ := List.pairwise_cons.mp ((hperm.pairwise_iff hsymm).mp h.apart)
  refine ⟨fun r' hr' => h.fits r' (List.mem_of_mem_erase hr'), hrest, fun page huse => ?_, ?_⟩
  · have hout : ¬ r.Contains page := fun hin => huse (hinside page hin)
    rw [houtside page hout] at huse
    obtain ⟨r', hr', hin⟩ := h.covered page huse
    rcases List.mem_cons.mp (hperm.mem_iff.mp hr') with rfl | hr'
    · exact absurd hin hout
    · exact ⟨r', hr', hin⟩
  · intro r' hr' page hin
    have hout : ¬ r.Contains page := fun hboth => hapart r' hr' page ⟨hboth, hin⟩
    rw [houtside page hout]
    exact h.used r' (List.mem_of_mem_erase hr') page hin

/-- No page of a region that may be freed is mapped to a device. -/
theorem Holds.not_device (h : S.Holds regions) (hr : r ∈ regions) (hkind : r.kind ≠ .device)
    (hin : r.Contains page) (entry : UInt32) : S.use page ≠ some (.device entry) := by
  have huses := h.used r hr page hin
  intro huse
  rw [huse, Region.Uses] at huses
  split at huses
  next => simp at huses
  next =>
    split at huses
    · simp at huses
    · simp at huses
  next hdevice => exact hkind hdevice

/-- A region that is given up has no pages any more. -/
theorem Holds.freeRegion {s : VmmState} {n : Nat} {halt : VmmState → Prop} (h : S.Holds regions)
    (hS : s.Shows S) (hr : r ∈ regions) (hkind : r.kind ≠ .device) :
    Ensures n (vmmFreePages (pageAddress r.first) (.ofNat r.count)) s
      (fun _ s' => ∃ T, s'.Shows T ∧ S.Vacated r.first r.count T ∧ s.SameOutside s') halt := by
  obtain ⟨hpos, hfits⟩ := h.fits r hr
  have hfits' : r.first + r.count ≤ 0x10000 := hfits
  have hcount : (UInt32.ofNat r.count).toNat = r.count := by
    rw [UInt32.toNat_ofNat']
    omega
  have hpage : r.first < virtPages := by omega
  refine (hS.vmmFreePages hpage (VmmState.pageAddress_page hpage) (by omega) ?_).imp ?_
  · intro page hle hlt
    rw [hcount] at hlt
    exact h.not_device hr hkind ⟨hle, hlt⟩
  · rintro - s' ⟨T, hT, hvacated, hsame⟩
    rw [hcount] at hvacated
    exact ⟨T, hT, hvacated, hsame⟩

end Space

namespace PageSystem

variable {s s' : PageSystem} {boot : VmmState} {S : Space} {kernelEnd : UInt32} {n : Nat}
  {op : PageOp}

/-- What the callers hold is what is in use, and every frame that was free at boot is free, or
behind exactly one page. -/
structure Kept (boot : VmmState) (s : PageSystem) : Prop where
  space : ∃ S, s.vmm.Shows S ∧ S.Holds s.regions ∧ S.pool.supply = boot.pmm.freeFrames
  outside : boot.SameOutside s.vmm

theorem Kept.start (h : Booted kernelEnd boot) : Kept boot ⟨boot, []⟩ :=
  ⟨⟨_, h.shows, .nil _, Space.supply_empty _⟩, .refl boot⟩

theorem pageOf_pageAddress {page : Nat} (hpage : page < virtPages) :
    pageOf (pageAddress page) = page := VmmState.page_of_pageAddress hpage

theorem toNat_and_offset (x : UInt32) : (x &&& (pageSize - 1)).toNat = x.toNat % 4096 :=
  toNat_and_fff x

theorem pageOf_add {page : Nat} (hpage : page < virtPages) (x : UInt32) :
    pageOf (pageAddress page + (x &&& (pageSize - 1))) = page := by
  have hpage' : page < 0x10000 := hpage
  have hoffset := toNat_and_offset x
  have hsize : pageSize.toNat = 4096 := rfl
  have hstart : vmStart.toNat = 0x10000000 := rfl
  have hnat := toNat_pageAddress hpage
  have hsum : (pageAddress page + (x &&& (pageSize - 1))).toNat =
      0x10000000 + page * 4096 + x.toNat % 4096 := by
    rw [UInt32.toNat_add, hoffset, hnat]
    omega
  rw [pageOf, UInt32.toNat_div, UInt32.toNat_sub_of_le _ _ (UInt32.le_iff_toNat_le.mpr (by omega)),
    hsize, hstart, hsum]
  omega

theorem pageAddress_add_ne_zero {page : Nat} (hpage : page < virtPages) (x : UInt32) :
    pageAddress page + (x &&& (pageSize - 1)) ≠ 0 := by
  have hpage' : page < 0x10000 := hpage
  intro hzero
  have hnat := congrArg UInt32.toNat hzero
  rw [UInt32.toNat_add, toNat_and_offset, toNat_pageAddress hpage, UInt32.toNat_zero] at hnat
  omega

/-- The pages that others hold stay as they are, whatever a caller asks for and gives back. The
kernel stops only in a space that is as it was. -/
theorem step_held (hS : s.vmm.Shows S) {held : List Region}
    (hholds : S.Holds (s.regions ++ held)) (hzero : 0 ∉ S.pool.supply) (hok : s.Ok op) :
    Ensures n (step op) s
      (fun _ s' => s.vmm.SameOutside s'.vmm ∧ ∃ T, s'.vmm.Shows T ∧
        T.Holds (s'.regions ++ held) ∧ T.pool.supply = S.pool.supply ∧
        ∀ r ∈ held, ∀ page, r.Contains page → T.use page = S.use page)
      fun s' => s'.regions = s.regions ∧ s'.vmm.Shows S ∧ s.vmm.SameOutside s'.vmm := by
  -- pages that are in use do not lie in a run of free ones
  have hrun : ∀ {start count : Nat}, FirstFit.Run S.unused start count → ∀ r ∈ held, ∀ page,
      r.Contains page → ¬ (start ≤ page ∧ page < start + count) := by
    intro start count hrun r hr page hin hboth
    have hmem : r ∈ s.regions ++ held := List.mem_append_right _ hr
    exact (hholds.used r hmem page hin).ne_none (Space.use_of_run hrun hboth.1 hboth.2)
  cases op with
  | alloc numPages =>
      rw [PageSystem.step, ensures_bind, manager, ensures_zoom]
      refine (hS.vmmAllocPages numPages).mono ?_ ?_
      · rintro address vmm ⟨start, T, rfl, hpos, hlowest, hT, htaken, hsame⟩
        have hfits := hlowest.fits
        rw [hold, ensures_modify, pageOf_pageAddress (by omega)]
        refine ⟨hsame, T, hT, ?_, htaken.supply, fun r hr page hin =>
          htaken.outside page (hrun hlowest.run r hr page hin)⟩
        exact hholds.cons hpos hfits
          (fun page hin => Space.use_of_run hlowest.run hin.1 hin.2) htaken.outside
          fun page hin => htaken.inside page hin.1 hin.2
      · rintro vmm ⟨hvmm, hsame, -⟩
        exact ⟨rfl, hvmm, hsame⟩
  | stack =>
      rw [PageSystem.step, ensures_bind, manager, ensures_zoom]
      refine (hS.setupStackPages hzero).mono ?_ ?_
      · rintro address vmm ⟨start, T, rfl, hlowest, hT, hguarded, hsame⟩
        have hcount : threadAllocPages.toNat = 5 := rfl
        have hfits := hlowest.fits
        rw [hold, ensures_modify, pageOf_pageAddress (by omega)]
        refine ⟨hsame, T, hT, ?_, hguarded.supply, fun r hr page hin =>
          hguarded.outside page (hrun hlowest.run r hr page hin)⟩
        refine hholds.cons (by simp [hcount]) hfits
          (fun page hin => Space.use_of_run hlowest.run hin.1 hin.2) hguarded.outside ?_
        intro page hin
        change if page = start then _ else _
        split
        next heq => rw [heq, hguarded.guard]
        next hne =>
          have hlt : start < page := lt_of_le_of_ne hin.1 (Ne.symm hne)
          exact hguarded.inside page hlt hin.2
      · rintro vmm ⟨hvmm, hsame, -⟩
        exact ⟨rfl, hvmm, hsame⟩
  | device physAddr sizeBytes flags =>
      rw [PageSystem.step, ensures_bind, manager, ensures_zoom]
      refine (hS.vmmMapMmioRegion physAddr sizeBytes flags).imp ?_
      rintro address vmm ⟨hsame, ⟨start, T, rfl, hpos, hlowest, hT, hreserved⟩ | ⟨rfl, hvmm, -⟩⟩
      · have hfits := hlowest.fits
        have hpage : start < virtPages := by omega
        rw [if_neg (pageAddress_add_ne_zero hpage _), hold, ensures_modify, pageOf_add hpage]
        refine ⟨hsame, T, hT, ?_, by rw [hreserved.pool], fun r hr page hin =>
          hreserved.outside page (hrun hlowest.run r hr page hin)⟩
        refine hholds.cons hpos hfits
          (fun page hin => Space.use_of_run hlowest.run hin.1 hin.2) hreserved.outside ?_
        intro page hin
        have hle : start ≤ page := hin.1
        have hlt : page < start + (regionPages physAddr sizeBytes).toNat := hin.2
        have hdevice := hreserved.inside (page - start) (by omega)
        rw [Nat.add_sub_cancel' hle] at hdevice
        exact ⟨_, hdevice⟩
      · -- no run is long enough, and the caller gets `NULL`
        rw [if_pos rfl, ensures_pure]
        exact ⟨hsame, S, hvmm, hholds, rfl, fun _ _ _ _ => rfl⟩
  | free r =>
      obtain ⟨hr, hkind⟩ := hok
      have hmem : r ∈ s.regions ++ held := List.mem_append_left _ hr
      rw [PageSystem.step, ensures_bind, manager, ensures_zoom]
      refine (hholds.freeRegion hS hmem hkind).imp ?_
      rintro - vmm ⟨T, hT, hvacated, hsame⟩
      rw [ensures_modify]
      refine ⟨hsame, T, hT, ?_, hvacated.supply, fun r' hr' page hin => ?_⟩
      · have herased := hholds.erase hmem hvacated.outside
          fun page hin => hvacated.inside page hin.1 hin.2
        rwa [List.erase_append_left _ hr] at herased
      · apply hvacated.outside
        intro hboth
        have hapart := (List.pairwise_append.mp hholds.apart).2.2 r hr r' hr'
        exact hapart page ⟨hboth, hin⟩

/-- The step lemma: what callers ask for and give back keeps the state consistent. This holds of
the state that the kernel stops in, too. -/
theorem Kept.step (hboot : Booted kernelEnd boot) (h : Kept boot s) (hok : s.Ok op) :
    Ensures n (step op) s (fun _ s' => Kept boot s') (Kept boot) := by
  obtain ⟨⟨S, hS, hholds, hsupply⟩, houtside⟩ := h
  have hzero : 0 ∉ S.pool.supply := hsupply ▸ hboot.zero_not_free
  refine (step_held hS (show S.Holds (s.regions ++ []) by rwa [List.append_nil]) hzero hok).mono ?_
    ?_
  · rintro - s' ⟨hsame, T, hT, hholds', hsupply', -⟩
    rw [List.append_nil] at hholds'
    exact ⟨⟨T, hT, hholds', hsupply'.trans hsupply⟩, houtside.trans hsame⟩
  · rintro s' ⟨hregions, hvmm, hsame⟩
    exact ⟨⟨S, hvmm, hregions ▸ hholds, hsupply⟩, houtside.trans hsame⟩

/-- The run lemma: from boot on, the callers may ask for pages, stacks and windows, and free what
they hold, in any order and number. -/
theorem run_kept (hboot : Booted kernelEnd boot) {ops : List PageOp}
    (hops : Permitted n PageSystem.step Ok ⟨boot, []⟩ ops) :
    Ensures n (run PageSystem.step ops) ⟨boot, []⟩ (fun _ s => Kept boot s) (Kept boot) :=
  ensures_run (fun _ _ h hok => h.step hboot hok) (Kept.start hboot) hops

/-- Pages, a stack and a window; three pages between others are given back. -/
def exampleOps : List PageOp :=
  [.alloc 2, .alloc 3, .stack, .device 0xFEBC0010 0x1800 vmPresent, .free ⟨.pages, 2, 3⟩]

theorem exampleOps_permitted : Permitted 3 PageSystem.step Ok ⟨exampleBoot, []⟩ exampleOps := by
  decide +kernel

theorem run_exampleOps : ∃ answers s,
    run PageSystem.step exampleOps 3 ⟨exampleBoot, []⟩ = .done answers s ∧
      s.regions = [⟨.device, 10, 2⟩, ⟨.stack, 5, 5⟩, ⟨.pages, 0, 2⟩] ∧
      (List.range 16).filter s.vmm.unused = [2, 3, 4, 12, 13, 14, 15] := by
  obtain ⟨answers, s, hrun, hshown⟩ := Outcome.exists_of_shown
    (show (run PageSystem.step exampleOps 3 ⟨exampleBoot, []⟩).shown
      (fun s => (s.regions, (List.range 16).filter s.vmm.unused)) = some
      ([⟨.device, 10, 2⟩, ⟨.stack, 5, 5⟩, ⟨.pages, 0, 2⟩], [2, 3, 4, 12, 13, 14, 15]) by
      decide +kernel)
  obtain ⟨hregions, hunused⟩ := Prod.mk.inj hshown
  exact ⟨answers, s, hrun, hregions, hunused⟩

theorem run_kept_exampleBoot : ∃ answers s,
    run PageSystem.step exampleOps 3 ⟨exampleBoot, []⟩ = .done answers s ∧
      s.regions = [⟨.device, 10, 2⟩, ⟨.stack, 5, 5⟩, ⟨.pages, 0, 2⟩] ∧ Kept exampleBoot s := by
  obtain ⟨answers, s, hrun, hregions, -⟩ := run_exampleOps
  exact ⟨answers, s, hrun, hregions,
    (run_kept booted_exampleBoot exampleOps_permitted).of_done hrun⟩

/-- In every state reached, `vmm_alloc_pages` takes the lowest run of pages. It stops only if there
is none, or too few frames. -/
theorem run_allocates (hboot : Booted kernelEnd boot) {ops : List PageOp} {answers : List Unit}
    {numPages : UInt32} (hops : Permitted n PageSystem.step Ok ⟨boot, []⟩ ops)
    (hrun : run PageSystem.step ops n ⟨boot, []⟩ = .done answers s) (hpos : numPages ≠ 0) :
    Ensures n (vmmAllocPages numPages) s.vmm
      (fun address _ => ∃ start, address = pageAddress start ∧
        FirstFit.Lowest s.vmm.unused 0 virtPages numPages.toNat start)
      fun _ => s.vmm.Exhausted numPages.toNat := by
  have hkept := ensures_run (fun _ _ h hok => Kept.step hboot h hok) (Kept.start hboot) hops
  obtain ⟨⟨S, hS, -⟩, -⟩ := hkept.of_done hrun
  refine (hS.vmmAllocPages numPages).mono ?_ ?_
  · rintro - - ⟨start, T, rfl, -, hlowest, -⟩
    exact ⟨start, rfl, hlowest.congr fun page hpage => (hS.unused_eq hpage).symm⟩
  · rintro - ⟨-, -, hzero | hreason⟩
    · exact absurd hzero hpos
    · exact hS.exhausted hreason

/-- Three pages fit into the hole, four do not. -/
theorem run_allocates_exampleBoot : ∃ answers s,
    run PageSystem.step exampleOps 3 ⟨exampleBoot, []⟩ = .done answers s ∧
      (List.range 16).filter s.vmm.unused = [2, 3, 4, 12, 13, 14, 15] ∧
      (∀ numPages : UInt32, numPages = 3 ∨ numPages = 4 →
        Ensures 3 (vmmAllocPages numPages) s.vmm
          (fun address _ => ∃ start, address = pageAddress start ∧
            FirstFit.Lowest s.vmm.unused 0 virtPages numPages.toNat start)
          fun _ => s.vmm.Exhausted numPages.toNat) := by
  obtain ⟨answers, s, hrun, -, hunused⟩ := run_exampleOps
  refine ⟨answers, s, hrun, hunused, fun numPages hnum => ?_⟩
  apply run_allocates booted_exampleBoot exampleOps_permitted hrun
  rcases hnum with rfl | rfl
  · decide
  · decide

end PageSystem

end AvrKernel.Memory

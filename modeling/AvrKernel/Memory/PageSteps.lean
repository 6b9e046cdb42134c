import AvrKernel.Memory.Virtual

/-!
# Pages and the space they show

What a state of the virtual memory manager shows, and that the loops of its functions keep to it.
-/

namespace AvrKernel.Memory

open Comp
/-! ## Addresses of pages -/

theorem toNat_pageAddress {page : Nat} (hpage : page < virtPages) :
    (pageAddress page).toNat = 0x10000000 + page * 4096 := by
  have hpage' : page < 0x10000 := hpage
  have hsize : pageSize.toNat = 4096 := rfl
  have hstart : vmStart.toNat = 0x10000000 := rfl
  rw [pageAddress, UInt32.toNat_add, UInt32.toNat_mul, UInt32.toNat_ofNat', hsize, hstart]
  omega

theorem pageAddress_add (page i : Nat) :
    pageAddress page + .ofNat i * pageSize = pageAddress (page + i) := by
  rw [pageAddress, pageAddress, UInt32.ofNat_add, UInt32.add_mul, UInt32.add_assoc]

theorem samePage_pageAddress {page other : Nat} (hpage : page < virtPages)
    (hother : other < virtPages) : SamePage (pageAddress page) (pageAddress other) ↔
      page = other := by
  rw [SamePage, toNat_pageAddress hpage, toNat_pageAddress hother]
  omega

/-- The addresses between `VM_START` and `VM_END`. -/
def InArea (v : UInt32) : Prop := 0x10000000 ≤ v.toNat ∧ v.toNat < 0x20000000

theorem inArea_pageAddress {page : Nat} (hpage : page < virtPages) : InArea (pageAddress page) := by
  have hpage' : page < 0x10000 := hpage
  rw [InArea, toNat_pageAddress hpage]
  omega

/-- What lies outside of the area has other page tables. -/
theorem directory_ne_of_outside {v v' : UInt32} (hv : ¬ InArea v) (hv' : InArea v') :
    v >>> 22 ≠ v' >>> 22 := by
  intro heq
  have hnat := congrArg UInt32.toNat heq
  rw [directory_index_toNat, directory_index_toNat] at hnat
  rw [InArea] at hv hv'
  omega

theorem frameAddress_frame {frame : Nat} (hframe : frame < physTotalFrames) :
    frameAddress frame &&& ~~~0xFFF = frameAddress frame := by
  apply UInt32.toNat_inj.mp
  rw [toNat_frame, toNat_frameAddress hframe]
  omega

theorem or_and_frame (x y z : UInt32) : (x ||| y) &&& z = (x &&& z) ||| (y &&& z) := by
  apply UInt32.toBitVec_inj.mp
  simp [BitVec.and_or_distrib_right]

theorem entry_frame {frame : Nat} (hframe : frame < physTotalFrames) :
    (PageUse.frame frame).entry &&& ~~~0xFFF = frameAddress frame := by
  have hflags : (vmPresent ||| vmReadwrite) &&& ~~~(0xFFF : UInt32) = 0 := by decide
  rw [PageUse.entry, or_and_frame, hflags, UInt32.or_zero,
    frameAddress_frame hframe, frameAddress_frame hframe]

theorem entry_frame_present (frame : Nat) : (PageUse.frame frame).entry &&& vmPresent ≠ 0 := by
  rw [PageUse.entry, ← UInt32.or_assoc]
  exact present_or _ _

/-! ## What a state shows -/

namespace VmmState

structure Shows (s : VmmState) (S : Space) : Prop where
  bit : ∀ page < virtPages, s.bit page = (S.use page).isSome
  beyond : ∀ page, virtPages ≤ page → S.use page = none
  pte : ∀ page < virtPages,
    s.tables.pte (pageAddress page) = ((S.use page).map PageUse.entry).getD 0
  linked : ∀ page < virtPages,
    s.tables.pte (pageAddress page) ≠ 0 → Linked s.tables (pageAddress page)
  free : s.pmm.freeFrames = S.free
  ok : s.pmm.Ok
  known : ∀ {page frame}, S.use page = some (.frame frame) → frame < s.pmm.totalFrames.toNat
  valid : S.pool.Valid

/-- Outside of the area nothing has changed. -/
structure SameOutside (s s' : VmmState) : Prop where
  pte : ∀ v, ¬ InArea v → s'.tables.pte v = s.tables.pte v
  linked : ∀ v, ¬ InArea v → (Linked s'.tables v ↔ Linked s.tables v)
  tablesAt : s'.tablesAt = s.tablesAt
  totalFrames : s'.pmm.totalFrames = s.pmm.totalFrames

variable {s s' s'' : VmmState} {S T : Space} {page frame n : Nat} {halt : VmmState → Prop}

@[simp] theorem SameOutside.refl (s : VmmState) : s.SameOutside s :=
  ⟨fun _ _ => rfl, fun _ _ => Iff.rfl, rfl, rfl⟩

theorem SameOutside.trans (h : s.SameOutside s') (h' : s'.SameOutside s'') : s.SameOutside s'' where
  pte v hv := (h'.pte v hv).trans (h.pte v hv)
  linked v hv := (h'.linked v hv).trans (h.linked v hv)
  tablesAt := h'.tablesAt.trans h.tablesAt
  totalFrames := h'.totalFrames.trans h.totalFrames

/-- The page is mapped by an entry. -/
def mapped (s : VmmState) (page : Nat) (entry : UInt32) : VmmState :=
  { s with
    tables := setEntry (linkTable s.tables s.tablesAt (pageAddress page)) (pageAddress page) entry }

/-- The page is not mapped any more. -/
def unmapped (s : VmmState) (page : Nat) : VmmState :=
  if Linked s.tables (pageAddress page) then
    { s with tables := setEntry s.tables (pageAddress page) 0 }
  else s

@[simp] theorem bit_mapped {entry : UInt32} {other : Nat} :
    (s.mapped page entry).bit other = s.bit other := rfl

theorem pte_mapped {entry : UInt32} {other : Nat} (hpage : page < virtPages)
    (hother : other < virtPages) : (s.mapped page entry).tables.pte (pageAddress other) =
      if other = page then entry else s.tables.pte (pageAddress other) := by
  simp only [mapped, pte_setEntry, pte_linkTable, samePage_pageAddress hother hpage]

theorem linked_mapped {entry : UInt32} {v : UInt32} (hlinked : Linked s.tables v) :
    Linked (s.mapped page entry).tables v := by
  simp only [mapped, linked_setEntry]
  exact linked_linkTable.mpr (.inr hlinked)

theorem linked_mapped_self {entry : UInt32} :
    Linked (s.mapped page entry).tables (pageAddress page) := by
  simp only [mapped, linked_setEntry]
  exact linked_linkTable.mpr (.inl rfl)

theorem sameOutside_mapped (hpage : page < virtPages) (entry : UInt32) :
    s.SameOutside (s.mapped page entry) := by
  have harea := inArea_pageAddress hpage
  refine ⟨fun v hv => ?_, fun v hv => ?_, rfl, rfl⟩
  · have hne : ¬ SamePage v (pageAddress page) := fun hsame =>
      directory_ne_of_outside hv harea ((indices_eq_iff v _).mpr hsame).1
    simp only [mapped, pte_setEntry, pte_linkTable, if_neg hne]
  · simp only [mapped, linked_setEntry, linked_linkTable]
    exact or_iff_right (directory_ne_of_outside hv harea)

@[simp] theorem bit_unmapped {other : Nat} : (s.unmapped page).bit other = s.bit other := by
  rw [unmapped]
  split
  · rfl
  · rfl

@[simp] theorem pmm_unmapped : (s.unmapped page).pmm = s.pmm := by
  rw [unmapped]
  split
  · rfl
  · rfl

@[simp] theorem linked_unmapped {v : UInt32} :
    Linked (s.unmapped page).tables v ↔ Linked s.tables v := by
  rw [unmapped]
  split
  · exact Iff.rfl
  · exact Iff.rfl

theorem pte_unmapped {other : Nat} (hpage : page < virtPages) (hother : other < virtPages)
    (hlinked : s.tables.pte (pageAddress page) ≠ 0 → Linked s.tables (pageAddress page)) :
    (s.unmapped page).tables.pte (pageAddress other) =
      if other = page then 0 else s.tables.pte (pageAddress other) := by
  rw [unmapped]
  split
  next => simp only [pte_setEntry, samePage_pageAddress hother hpage]
  next hnot =>
    split
    next heq =>
      -- the page table was never linked, so there is nothing in it
      by_contra hpte
      exact hnot (hlinked (heq ▸ hpte))
    next => rfl

theorem sameOutside_unmapped (hpage : page < virtPages) : s.SameOutside (s.unmapped page) := by
  have harea := inArea_pageAddress hpage
  refine ⟨fun v hv => ?_, fun v _ => linked_unmapped, ?_, by rw [pmm_unmapped]⟩
  · have hne : ¬ SamePage v (pageAddress page) := fun hsame =>
      directory_ne_of_outside hv harea ((indices_eq_iff v _).mpr hsame).1
    rw [unmapped]
    split
    · simp only [pte_setEntry, if_neg hne]
    · rfl
  · rw [unmapped]
    split
    · rfl
    · rfl

/-! ## One page -/

theorem Shows.occupy (h : s.Shows S) (hpage : page < virtPages) (hframe : frame ∈ S.free) :
    ((({ s with pmm := s.pmm.takeFrame (.ofNat frame) } : VmmState).mapped page
      (PageUse.frame frame).entry).setBit page).Shows (S.occupy page frame) where
  bit other hother := by
    by_cases heq : other = page
    · simp [Space.occupy, heq]
    · have hbit := h.bit other hother
      simp only [bit_setBit, heq, decide_false, Bool.false_or, bit_mapped, Space.occupy,
        Function.update_of_ne heq]
      exact hbit
  beyond other hother := by
    have hne : other ≠ page := by omega
    simp only [Space.occupy, Function.update_of_ne hne]
    exact h.beyond other hother
  pte other hother := by
    change (VmmState.mapped _ page _).tables.pte (pageAddress other) = _
    rw [pte_mapped hpage hother]
    by_cases heq : other = page
    · simp [Space.occupy, heq]
    · simp only [heq, if_false, Space.occupy, Function.update_of_ne heq]
      exact h.pte other hother
  linked other hother hpte := by
    change (VmmState.mapped _ page _).tables.pte (pageAddress other) ≠ 0 at hpte
    rw [pte_mapped hpage hother] at hpte
    change Linked (VmmState.mapped _ page _).tables (pageAddress other)
    by_cases heq : other = page
    · rw [heq]
      exact linked_mapped_self
    · rw [if_neg heq] at hpte
      exact linked_mapped (h.linked other hother hpte)
  free := by
    have hlt := (PmmState.mem_freeFrames.mp (h.free ▸ hframe)).1
    change (s.pmm.takeFrame (.ofNat frame)).freeFrames = S.free.erase frame
    rw [PmmState.freeFrames_takeFrame hlt, h.free]
  ok := h.ok.takeFrame _
  known {other f} huse := by
    change f < s.pmm.totalFrames.toNat
    by_cases heq : other = page
    · simp only [Space.occupy, heq, Function.update_self, Option.some.injEq,
        PageUse.frame.injEq] at huse
      rw [← huse]
      exact h.ok.lt_total (h.free ▸ hframe)
    · simp only [Space.occupy, Function.update_of_ne heq] at huse
      exact h.known huse
  valid := by
    rw [Space.pool_occupy]
    exact h.valid.take hframe

/-- A page is given up, and its frame, if it has one, is free. -/
theorem Shows.vacate (h : s.Shows S) (hpage : page < virtPages) {pmm : PmmState}
    (hfree : pmm.freeFrames = (S.vacate page).free) (hok : pmm.Ok)
    (htotal : pmm.totalFrames = s.pmm.totalFrames) :
    ((({ s with pmm } : VmmState).unmapped page).clearBit page).Shows (S.vacate page) where
  bit other hother := by
    by_cases heq : other = page
    · simp [Space.vacate, heq]
    · have hbit := h.bit other hother
      simp only [bit_clearBit, heq, decide_false, Bool.not_false, Bool.true_and, bit_unmapped,
        Space.vacate, Function.update_of_ne heq]
      exact hbit
  beyond other hother := by
    have hne : other ≠ page := by omega
    simp only [Space.vacate, Function.update_of_ne hne]
    exact h.beyond other hother
  pte other hother := by
    change (VmmState.unmapped _ page).tables.pte (pageAddress other) = _
    rw [pte_unmapped (s := { s with pmm }) hpage hother (h.linked page hpage)]
    by_cases heq : other = page
    · simp [Space.vacate, heq]
    · simp only [heq, if_false, Space.vacate, Function.update_of_ne heq]
      exact h.pte other hother
  linked other hother hpte := by
    change (VmmState.unmapped _ page).tables.pte (pageAddress other) ≠ 0 at hpte
    rw [pte_unmapped (s := { s with pmm }) hpage hother (h.linked page hpage)] at hpte
    change Linked (VmmState.unmapped _ page).tables (pageAddress other)
    rw [linked_unmapped]
    split at hpte
    next => exact absurd rfl hpte
    next => exact h.linked other hother hpte
  free := by
    change (VmmState.unmapped _ page).pmm.freeFrames = _
    rw [pmm_unmapped]
    exact hfree
  ok := by
    change (VmmState.unmapped _ page).pmm.Ok
    rw [pmm_unmapped]
    exact hok
  known {other f} huse := by
    change f < (VmmState.unmapped _ page).pmm.totalFrames.toNat
    rw [pmm_unmapped]
    change f < pmm.totalFrames.toNat
    rw [htotal]
    by_cases heq : other = page
    · simp [Space.vacate, heq] at huse
    · simp only [Space.vacate, Function.update_of_ne heq] at huse
      exact h.known huse
  valid := by
    cases hheld : S.pool.held page with
    | none =>
        rw [Space.pool_vacate_of_none hheld]
        exact h.valid
    | some f =>
        rw [Space.pool_vacate (Space.held_pool.mp hheld)]
        exact h.valid.give hheld

/-- A page without a frame is used for something else that has none. -/
theorem Shows.reserve (h : s.Shows S) (hpage : page < virtPages) {use : PageUse}
    (hheld : S.pool.held page = none) (huse : use.frame? = none)
    (hlinked : use.entry ≠ 0 → Linked s'.tables (pageAddress page))
    (hbit : ∀ other < virtPages, s'.bit other = (decide (other = page) || s.bit other))
    (hpte : ∀ other < virtPages, s'.tables.pte (pageAddress other) =
      if other = page then use.entry else s.tables.pte (pageAddress other))
    (hsame : ∀ v, Linked s.tables v → Linked s'.tables v) (hpmm : s'.pmm = s.pmm) :
    s'.Shows (S.reserve page use) where
  bit other hother := by
    rw [hbit other hother]
    by_cases heq : other = page
    · simp [Space.reserve, heq]
    · simp [Space.reserve, heq, h.bit other hother]
  beyond other hother := by
    have hne : other ≠ page := by omega
    simp only [Space.reserve, Function.update_of_ne hne]
    exact h.beyond other hother
  pte other hother := by
    rw [hpte other hother]
    by_cases heq : other = page
    · simp [Space.reserve, heq]
    · simp [Space.reserve, heq, h.pte other hother]
  linked other hother hne := by
    rw [hpte other hother] at hne
    split at hne
    next heq => exact heq ▸ hlinked hne
    next => exact hsame _ (h.linked other hother hne)
  free := by rw [hpmm, h.free, Space.reserve]
  ok := hpmm ▸ h.ok
  known {other f} hother := by
    rw [hpmm]
    by_cases heq : other = page
    · simp only [Space.reserve, heq, Function.update_self, Option.some.injEq] at hother
      rw [hother] at huse
      cases huse
    · simp only [Space.reserve, Function.update_of_ne heq] at hother
      exact h.known hother
  valid := by
    rw [Space.pool_reserve hheld huse]
    exact h.valid

/-! ## The rounds of the loops -/

theorem div_lt_virtBitmapSize (hpage : page < virtPages) : page / 8 < virtBitmapSize := by
  have hpage' : page < 0x10000 := hpage
  change page / 8 < 0x2000
  omega

theorem ensures_unmarkPage (hpage : page < virtPages) {post : Unit → VmmState → Prop} :
    Ensures n (unmarkPage page) s post halt ↔ post () (s.clearBit page) := by
  rw [unmarkPage, ensures_bind]
  simp [div_lt_virtBitmapSize hpage]

theorem ensures_markPage (hpage : page < virtPages) {post : Unit → VmmState → Prop} :
    Ensures n (markPage page) s post halt ↔ post () (s.setBit page) := by
  rw [markPage, ensures_bind]
  simp [div_lt_virtBitmapSize hpage]

theorem ensures_vmmUnmapPage {post : Unit → VmmState → Prop} :
    Ensures n (vmmUnmapPage (pageAddress page)) s post halt ↔ post () (s.unmapped page) := Iff.rfl

theorem sameOutside_clearBit : s.SameOutside (s.clearBit page) :=
  ⟨fun _ _ => rfl, fun _ _ => Iff.rfl, rfl, rfl⟩

/-- A page that is not mapped to a device is given up. -/
theorem Shows.freePage (h : s.Shows S) {start i : Nat} (hpage : start + i < virtPages)
    (hdevice : ∀ entry, S.use (start + i) ≠ some (.device entry)) :
    Ensures n (Memory.freePage (pageAddress start) start i) s
      (fun _ s' => s'.Shows (S.vacate (start + i)) ∧ s.SameOutside s') halt := by
  have hpte := h.pte (start + i) hpage
  -- without a frame there is no entry, and nothing is given back
  have hnone : S.pool.held (start + i) = none →
    ((S.use (start + i)).map PageUse.entry).getD 0 = 0 := by
    intro hheld
    cases huse : S.use (start + i) with
    | none => rfl
    | some use =>
        cases use with
        | frame f => simp [Space.held_pool.mpr huse] at hheld
        | device entry => exact absurd huse (hdevice entry)
        | guard => rfl
  rw [Memory.freePage, ensures_bind]
  simp only [pageAddress_add, ensures_get, hpte]
  cases hheld : S.pool.held (start + i) with
  | none =>
      have hzero : (0 : UInt32) &&& vmPresent = 0 := by decide
      simp only [hnone hheld, hzero, ne_eq, not_true_eq_false, if_false]
      rw [ensures_bind, ensures_vmmUnmapPage, ensures_unmarkPage hpage]
      have hfree : s.pmm.freeFrames = (S.vacate (start + i)).free := by
        rw [h.free, Space.vacate, hheld, Option.elim_none]
      exact ⟨h.vacate hpage hfree h.ok rfl,
        (sameOutside_unmapped hpage).trans sameOutside_clearBit⟩
  | some f =>
      have huse := Space.held_pool.mp hheld
      have hknown := h.known huse
      have hlt := hknown.trans_le h.ok.total
      simp only [huse, Option.map_some, Option.getD_some, ne_eq, entry_frame_present f,
        not_false_eq_true, if_true, entry_frame hlt, freeFrame]
      rw [ensures_bind, ensures_modify, ensures_bind, ensures_vmmUnmapPage,
        ensures_unmarkPage hpage]
      have hfree : (s.pmm.pmmFreeFrame (frameAddress f)).freeFrames =
          (S.vacate (start + i)).free := by
        rw [PmmState.freeFrames_pmmFreeFrame h.ok hknown, h.free, Space.vacate, hheld,
          Option.elim_some]
      have hgive : s.SameOutside { s with pmm := s.pmm.pmmFreeFrame (frameAddress f) } :=
        ⟨fun _ _ => rfl, fun _ _ => Iff.rfl, rfl, PmmState.totalFrames_pmmFreeFrame ..⟩
      exact ⟨h.vacate hpage hfree (h.ok.pmmFreeFrame hknown) (PmmState.totalFrames_pmmFreeFrame ..),
        (hgive.trans (sameOutside_unmapped hpage)).trans sameOutside_clearBit⟩

/-! ## Freeing pages -/

theorem pageAddress_page (hpage : page < virtPages) :
    pageAddress page &&& ~~~0xFFF = pageAddress page := by
  apply UInt32.toNat_inj.mp
  rw [toNat_frame, toNat_pageAddress hpage]
  omega

theorem pageAddress_between (hpage : page < virtPages) :
    ¬ (pageAddress page < vmStart ∨ pageAddress page ≥ vmEnd) := by
  have hpage' : page < 0x10000 := hpage
  have hnat := toNat_pageAddress hpage
  rintro (hlow | hhigh)
  · have hlow' := UInt32.lt_iff_toNat_lt.mp hlow
    change _ < 0x10000000 at hlow'
    omega
  · have hhigh' := UInt32.le_iff_toNat_le.mp hhigh
    change 0x20000000 ≤ _ at hhigh'
    omega

theorem page_of_pageAddress (hpage : page < virtPages) :
    ((pageAddress page - vmStart) / pageSize).toNat = page := by
  have hsize : pageSize.toNat = 4096 := rfl
  have hstart : vmStart.toNat = 0x10000000 := rfl
  have hnat := toNat_pageAddress hpage
  rw [UInt32.toNat_div, UInt32.toNat_sub_of_le _ _ (UInt32.le_iff_toNat_le.mpr (by omega)), hsize,
    hstart, hnat]
  omega

/-- Pages that are not mapped to a device are given up one after the other. -/
theorem Shows.freePages (h : s.Shows S) {start count : Nat} (hrange : start + count ≤ virtPages)
    (hdevice : ∀ page, start ≤ page → page < start + count →
      ∀ entry, S.use page ≠ some (.device entry)) :
    Ensures n (forFrom (Memory.freePage (pageAddress start) start) count 0) s
      (fun _ s' => ∃ T, s'.Shows T ∧ S.Vacated start count T ∧ s.SameOutside s') halt := by
  refine ensures_for (fun i s' => ∃ T, s'.Shows T ∧ S.Vacated start i T ∧ s.SameOutside s') ?_
    ⟨S, h, .refl h.valid, .refl s⟩
  rintro i s₁ hi ⟨T, hT, hvacated, hsame⟩
  have huse : T.use (start + i) = S.use (start + i) := hvacated.outside _ (by omega)
  have hdevice' : ∀ entry, T.use (start + i) ≠ some (.device entry) := by
    rw [huse]
    exact hdevice _ (by omega) (by omega)
  refine (hT.freePage (by omega) hdevice').imp ?_
  rintro - s₂ ⟨hs₂, hsame'⟩
  exact ⟨_, hs₂, hvacated.vacate, hsame.trans hsame'⟩

/-- `vmm_free_pages`, wherever in the first page the address lies. -/
theorem Shows.vmmFreePages (h : s.Shows S) {start : Nat} {virtualAddr numPages : UInt32}
    (hstart : start < virtPages) (haddress : virtualAddr &&& ~~~0xFFF = pageAddress start)
    (hrange : start + numPages.toNat ≤ virtPages)
    (hdevice : ∀ page, start ≤ page → page < start + numPages.toNat →
      ∀ entry, S.use page ≠ some (.device entry)) :
    Ensures n (Memory.vmmFreePages virtualAddr numPages) s
      (fun _ s' => ∃ T, s'.Shows T ∧ S.Vacated start numPages.toNat T ∧ s.SameOutside s') halt := by
  unfold Memory.vmmFreePages
  simp only [haddress, if_neg (pageAddress_between hstart), page_of_pageAddress hstart]
  exact h.freePages hrange hdevice

/-! ## Allocating pages -/

theorem ensures_allocFrame {post : UInt32 → VmmState → Prop} :
    Ensures n allocFrame s post halt ↔
      post s.pmm.pmmAllocFrame.1 { s with pmm := s.pmm.pmmAllocFrame.2 } := Iff.rfl

/-- A round gives a frame to one more page. If there is none left, the kernel stops, and the pages
that had been allocated are as they were. -/
theorem Shows.allocPage (h : s.Shows S) {start i : Nat} (hpage : start + i < virtPages)
    (hunused : ∀ page, start ≤ page → page < start + (i + 1) → S.use page = none)
    {s₁ : VmmState} (hs₁ : s₁.Shows T) (htaken : S.Taken start i T) (hsame : s.SameOutside s₁) :
    Ensures n (Memory.allocPage (pageAddress start) start i) s₁
      (fun _ s' => ∃ T', s'.Shows T' ∧ S.Taken start (i + 1) T' ∧ s.SameOutside s')
      fun s' => s'.Shows S ∧ s.SameOutside s' ∧ S.free.card ≤ i := by
  rw [Memory.allocPage, ensures_bind, ensures_allocFrame]
  rcases s₁.pmm.freeFrames.eq_empty_or_nonempty with hempty | hfree
  rotate_left
  · rw [PmmState.pmmAllocFrame_of_nonempty hfree]
    have hmin := s₁.pmm.freeFrames.min'_mem hfree
    generalize s₁.pmm.freeFrames.min' hfree = frame at hmin ⊢
    have hlt := (PmmState.mem_freeFrames.mp hmin).1
    have hlast : T.use (start + i) = none := by
      rw [htaken.outside _ (by omega), hunused _ (by omega) (by omega)]
    simp only [pageAddress_add]
    rw [if_neg (frameAddress_ne_noFrame hlt), ensures_bind, vmmMapPage, ensures_modify,
      ensures_markPage hpage]
    have hfree' : frame ∈ T.free := hs₁.free ▸ hmin
    refine ⟨_, hs₁.occupy hpage hfree', htaken.occupy hfree' hlast, hsame.trans ?_⟩
    have hmapped := sameOutside_mapped (s := s₁) hpage (PageUse.frame frame).entry
    exact ⟨hmapped.pte, hmapped.linked, rfl, rfl⟩
  · -- no frame is left: the rounds before this one are undone
    have hcard : S.free.card = i := by
      have htotal := htaken.card
      rw [← hs₁.free, hempty, Finset.card_empty] at htotal
      omega
    rw [PmmState.pmmAllocFrame_of_empty hempty]
    have hi : i < 0x10000 := lt_of_le_of_lt (Nat.le_add_left i start) hpage
    have hcount : (UInt32.ofNat i).toNat = i := by
      rw [UInt32.toNat_ofNat']
      omega
    have hstart : start < virtPages := lt_of_le_of_lt (Nat.le_add_right start i) hpage
    have hframes : ∀ page, start ≤ page → page < start + (UInt32.ofNat i).toNat →
        ∀ entry, T.use page ≠ some (.device entry) := by
      intro page hle hlt entry
      rw [hcount] at hlt
      obtain ⟨f, hf⟩ := htaken.inside page hle hlt
      simp [hf]
    rw [if_pos rfl]
    refine (hs₁.vmmFreePages hstart (pageAddress_page hstart) (by omega) hframes).bind ?_
    rintro - s₂ ⟨U, hU, hvacated, hsame'⟩
    rw [hcount] at hvacated
    have hundo := htaken.undo h.valid hvacated
      fun page hle hlt => hunused page hle (by omega)
    rw [ensures_stop]
    exact ⟨hundo ▸ hU, hsame.trans hsame', hcard.le⟩

theorem Shows.unused_eq (h : s.Shows S) (hpage : page < virtPages) :
    s.unused page = S.unused page := by
  rw [VmmState.unused, Space.unused, h.bit page hpage]
  cases S.use page <;> rfl

/-- The search finds the lowest run of pages that are not in use. -/
theorem Shows.find (h : s.Shows S) (numPages : UInt32) :
    findContiguousBits s.virtBitmap virtBitmapSize numPages =
      if numPages = 0 then none
      else FirstFit.firstFit S.unused numPages.toNat 0 virtPages := by
  rw [findContiguousBits_eq, FirstFit.firstFit_congr fun page _ hpage => h.unused_eq hpage]

end VmmState

/-- There is a run of `n` pages that are not in use. -/
def Space.HasRun (S : Space) (n : Nat) : Prop :=
  ∃ start, start + n ≤ virtPages ∧ FirstFit.Run S.unused start n

/-- There is no run of that many pages, or not a frame for each of them. -/
def Space.Exhausted (S : Space) (count : Nat) : Prop := ¬ S.HasRun count ∨ S.free.card < count

/-- The same, in the terms of the bitmaps. -/
def VmmState.Exhausted (s : VmmState) (count : Nat) : Prop :=
  (¬ ∃ start, start + count ≤ virtPages ∧ FirstFit.Run s.unused start count) ∨
    s.pmm.freeFrames.card < count

theorem Space.use_of_run {S : Space} {start n page : Nat} (hrun : FirstFit.Run S.unused start n)
    (hle : start ≤ page) (hlt : page < start + n) : S.use page = none := by
  have hunused := hrun page hle hlt
  rwa [Space.unused, Option.isNone_iff_eq_none] at hunused

namespace VmmState

variable {s s' : VmmState} {S : Space} {n : Nat} {numPages : UInt32}

theorem Shows.exhausted (h : s.Shows S) {count : Nat} (hreason : S.Exhausted count) :
    s.Exhausted count := by
  refine hreason.imp ?_ fun hfew => h.free ▸ hfew
  rintro hnone ⟨start, hfits, hrun⟩
  refine hnone ⟨start, hfits, fun page hle hlt => ?_⟩
  rw [← h.unused_eq (by omega)]
  exact hrun page hle hlt

theorem Shows.find_none (h : s.Shows S)
    (hfind : findContiguousBits s.virtBitmap virtBitmapSize numPages = none) :
    numPages = 0 ∨ ¬ S.HasRun numPages.toNat := by
  rw [h.find] at hfind
  split at hfind
  next hzero => exact .inl hzero
  next hne =>
    right
    rintro ⟨start, hfits, hrun⟩
    have hpos : 0 < numPages.toNat :=
      Nat.pos_of_ne_zero fun hnat => hne (UInt32.toNat_inj.mp hnat)
    exact FirstFit.firstFit_none hpos hfind (Nat.zero_le start) hfits hrun

theorem Shows.find_some (h : s.Shows S) {start : Nat}
    (hfind : findContiguousBits s.virtBitmap virtBitmapSize numPages = some start) :
    0 < numPages.toNat ∧ FirstFit.Lowest S.unused 0 virtPages numPages.toNat start := by
  rw [h.find] at hfind
  split at hfind
  next => cases hfind
  next hne =>
    have hpos : 0 < numPages.toNat :=
      Nat.pos_of_ne_zero fun hnat => hne (UInt32.toNat_inj.mp hnat)
    exact ⟨hpos, FirstFit.firstFit_some hpos hfind⟩

/-- `vmm_alloc_pages` takes the lowest run of pages and gives them frames. It stops if there is no
such run, or too few frames; then the space is what it was. -/
theorem Shows.vmmAllocPages (h : s.Shows S) (numPages : UInt32) :
    Ensures n (Memory.vmmAllocPages numPages) s
      (fun address s' => ∃ start T, address = pageAddress start ∧ 0 < numPages.toNat ∧
        FirstFit.Lowest S.unused 0 virtPages numPages.toNat start ∧ s'.Shows T ∧
        S.Taken start numPages.toNat T ∧ s.SameOutside s')
      fun s' => s'.Shows S ∧ s.SameOutside s' ∧
        (numPages = 0 ∨ ¬ S.HasRun numPages.toNat ∨ S.free.card < numPages.toNat) := by
  rw [Memory.vmmAllocPages, ensures_bind, ensures_get]
  cases hfind : findContiguousBits s.virtBitmap virtBitmapSize numPages with
  | none =>
      have hnone := h.find_none hfind
      rw [ensures_stop]
      exact ⟨h, .refl s, hnone.imp id .inl⟩
  | some start =>
      obtain ⟨hpos, hlowest⟩ := h.find_some hfind
      have hfits := hlowest.fits
      refine (ensures_for
        (fun i s' => ∃ T, s'.Shows T ∧ S.Taken start i T ∧ s.SameOutside s') ?_
        ⟨S, h, .refl h.valid, .refl s⟩).bind ?_
      · rintro i s₁ hi ⟨T, hT, htaken, hsame⟩
        refine (h.allocPage (by omega) ?_ hT htaken hsame).mono (fun _ _ => id) ?_
        · exact fun page hle hlt => Space.use_of_run hlowest.run hle (by omega)
        · rintro s₂ ⟨hs₂, hsame', hcard⟩
          exact ⟨hs₂, hsame', .inr (.inr (by omega))⟩
      · rintro - s' ⟨T, hT, htaken, hsame⟩
        exact ⟨start, T, rfl, hpos, hlowest, hT, htaken, hsame⟩

/-! ## Translation -/

theorem Shows.lt_virtPages (h : s.Shows S) {page : Nat} {use : PageUse}
    (huse : S.use page = some use) : page < virtPages := by
  by_contra hge
  rw [h.beyond page (Nat.le_of_not_lt hge)] at huse
  cases huse

/-- A page that is backed by a frame is mapped to it. -/
theorem Shows.translate (h : s.Shows S) {page frame : Nat} {v : UInt32}
    (huse : S.use page = some (.frame frame)) (hv : SamePage v (pageAddress page)) :
    s.tables.Mapped v ∧
      (s.tables.vmmGetPhysAddr v).toNat = frame * 4096 + v.toNat % 4096 := by
  have hpage := h.lt_virtPages huse
  have hlt := (h.known huse).trans_le h.ok.total
  have hentry : s.tables.pte (pageAddress page) = (PageUse.frame frame).entry := by
    rw [h.pte page hpage, huse, Option.map_some, Option.getD_some]
  have hpresent := entry_frame_present frame
  have hne : s.tables.pte (pageAddress page) ≠ 0 := by
    intro hzero
    rw [← hentry, hzero] at hpresent
    exact hpresent (by decide)
  have hmapped : s.tables.Mapped (pageAddress page) :=
    ⟨h.linked page hpage hne, hentry ▸ hpresent⟩
  obtain ⟨hpte, hiff⟩ := s.tables.pte_congr hv
  have hmasked := congrArg UInt32.toNat (entry_frame hlt)
  rw [toNat_frame, toNat_frameAddress hlt] at hmasked
  refine ⟨hiff.mpr hmapped, ?_⟩
  rw [PageTables.toNat_vmmGetPhysAddr (hiff.mpr hmapped), hpte, hentry, hmasked]

/-! ## Device pages and stacks -/

/-- The entry of a page of a device. -/
def deviceEntry (startPhys flags : UInt32) (i : Nat) : UInt32 :=
  ((startPhys + .ofNat i * pageSize) &&& ~~~0xFFF) ||| flags

theorem Shows.mapDevicePage (h : s.Shows S) {startPhys flags : UInt32} {start i : Nat}
    (hpage : start + i < virtPages) (hunused : S.use (start + i) = none) :
    Ensures n (mapDevicePage startPhys (pageAddress start) flags start i) s
      (fun _ s' => s'.Shows (S.reserve (start + i) (.device (deviceEntry startPhys flags i))) ∧
        s.SameOutside s') halt := by
  rw [Memory.mapDevicePage, ensures_bind, pageAddress_add, vmmMapPage, ensures_modify,
    ensures_markPage hpage]
  have hheld : S.pool.held (start + i) = none := by simp [Space.pool, hunused]
  have hmapped := sameOutside_mapped (s := s) hpage (deviceEntry startPhys flags i)
  refine ⟨h.reserve hpage hheld rfl ?_ ?_ ?_ ?_ rfl, hmapped.pte, hmapped.linked, rfl, rfl⟩
  · exact fun _ => linked_mapped_self
  · exact fun other _ => bit_setBit
  · exact fun other hother => pte_mapped hpage hother
  · exact fun v => linked_mapped

/-- `vmm_map_mmio_region` takes the lowest run of pages, or none and returns `NULL`. -/
theorem Shows.vmmMapMmioRegion (h : s.Shows S) (physAddr sizeBytes flags : UInt32) :
    Ensures n (vmmMapMmioRegion physAddr sizeBytes flags) s
      (fun address s' => s.SameOutside s' ∧
        ((∃ start T, address = pageAddress start + (physAddr &&& (pageSize - 1)) ∧
          0 < (regionPages physAddr sizeBytes).toNat ∧
          FirstFit.Lowest S.unused 0 virtPages (regionPages physAddr sizeBytes).toNat start ∧
          s'.Shows T ∧ S.Reserved start (regionPages physAddr sizeBytes).toNat
            (deviceEntry (physAddr &&& ~~~(pageSize - 1)) flags) T) ∨
        address = 0 ∧ s'.Shows S ∧ (regionPages physAddr sizeBytes = 0 ∨
          ¬ S.HasRun (regionPages physAddr sizeBytes).toNat)))
      halt := by
  rw [Memory.vmmMapMmioRegion]
  simp only [ensures_bind, ensures_get]
  cases hfind : findContiguousBits s.virtBitmap virtBitmapSize (regionPages physAddr sizeBytes) with
  | none =>
      rw [ensures_pure]
      exact ⟨.refl s, .inr ⟨rfl, h, h.find_none hfind⟩⟩
  | some start =>
      obtain ⟨hpos, hlowest⟩ := h.find_some hfind
      have hfits := hlowest.fits
      refine (ensures_for (fun i s' => ∃ T, s'.Shows T ∧ s.SameOutside s' ∧
        S.Reserved start i (deviceEntry (physAddr &&& ~~~(pageSize - 1)) flags) T) ?_
        ⟨S, h, .refl s, fun _ _ => rfl, fun i hi => absurd hi (Nat.not_lt_zero i), rfl⟩).bind ?_
      · -- a window takes no frame, so the pool stays as it is
        rintro i s₁ hi ⟨T, hT, hsame, hreserved⟩
        have hunused : T.use (start + i) = none := by
          rw [hreserved.outside _ (by omega)]
          exact Space.use_of_run hlowest.run (by omega) (by omega)
        refine (hT.mapDevicePage (by omega) hunused).imp ?_
        rintro - s₂ ⟨hs₂, hsame'⟩
        refine ⟨_, hs₂, hsame.trans hsame', ?_, ?_, ?_⟩
        · intro page hout
          have hne : page ≠ start + i := by omega
          simp only [Space.reserve, Function.update_of_ne hne]
          exact hreserved.outside page (by omega)
        · intro j hj
          by_cases hlast : j = i
          · simp [Space.reserve, hlast]
          · have hne : start + j ≠ start + i := by omega
            simp only [Space.reserve, Function.update_of_ne hne]
            exact hreserved.inside j (by omega)
        · rw [Space.pool_reserve (by simp [Space.pool, hunused]) rfl]
          exact hreserved.pool
      · rintro - s' ⟨T, hT, hsame, hreserved⟩
        rw [ensures_pure]
        exact ⟨hsame, .inl ⟨start, T, rfl, hpos, hlowest, hT, hreserved⟩⟩

theorem unmapped_pmm (s : VmmState) (page : Nat) (pmm : PmmState) :
    { s.unmapped page with pmm } = ({ s with pmm } : VmmState).unmapped page := by
  rw [unmapped, unmapped]
  split
  · rfl
  · rfl

/-- The frame of a page is given back, but the page stays in use. -/
theorem Shows.guard (h : s.Shows S) {page frame : Nat} (huse : S.use page = some (.frame frame)) :
    (({ s with pmm := s.pmm.pmmFreeFrame (frameAddress frame) } : VmmState).unmapped page).Shows
      ((S.vacate page).reserve page .guard) := by
  have hpage := h.lt_virtPages huse
  have hknown := h.known huse
  have hheld := Space.held_pool.mpr huse
  have hfree : (s.pmm.pmmFreeFrame (frameAddress frame)).freeFrames = (S.vacate page).free := by
    rw [PmmState.freeFrames_pmmFreeFrame h.ok hknown, h.free, Space.vacate, hheld,
      Option.elim_some]
  have hvacated := h.vacate hpage hfree (h.ok.pmmFreeFrame hknown)
    (PmmState.totalFrames_pmmFreeFrame ..)
  refine hvacated.reserve hpage ?_ rfl ?_ ?_ ?_ (fun _ => id) rfl
  · simp [Space.pool, Space.vacate]
  · exact fun hne => absurd rfl hne
  · intro other hother
    by_cases heq : other = page
    · have hbit := h.bit page hpage
      rw [huse] at hbit
      rw [heq, bit_unmapped, decide_eq_true rfl, Bool.true_or]
      exact hbit
    · simp [heq]
  · intro other hother
    split
    next heq =>
      have hgone := pte_unmapped (s := { s with pmm := s.pmm.pmmFreeFrame (frameAddress frame) })
        hpage hother (h.linked page hpage)
      rw [hgone, if_pos heq]
      rfl
    next => rfl

/-- `thread_setup_stack`: pages with a guard, unless there is no run of pages or no frame for
each of them. -/
theorem Shows.setupStackPages (h : s.Shows S) (hzero : 0 ∉ S.pool.supply) :
    Ensures n setupStackPages s
      (fun address s' => ∃ start T, address = pageAddress start ∧
        FirstFit.Lowest S.unused 0 virtPages threadAllocPages.toNat start ∧ s'.Shows T ∧
        S.Guarded start threadAllocPages.toNat T ∧ s.SameOutside s')
      fun s' => s'.Shows S ∧ s.SameOutside s' ∧
        (¬ S.HasRun threadAllocPages.toNat ∨ S.free.card < threadAllocPages.toNat) := by
  have hcount : threadAllocPages.toNat = 5 := rfl
  rw [Memory.setupStackPages]
  refine (h.vmmAllocPages threadAllocPages).bind_of ?_ ?_
  · rintro s' ⟨hs', hsame, hzero | hreason⟩
    · cases hzero
    · exact ⟨hs', hsame, hreason⟩
  · rintro address s₁ ⟨start, T, rfl, hpos, hlowest, hT, htaken, hsame⟩
    have hfits := hlowest.fits
    rw [hcount] at hfits htaken
    obtain ⟨frame, huse⟩ := htaken.inside start (Nat.le_refl start) (by omega)
    have hlt := (hT.known huse).trans_le hT.ok.total
    have hpage : start < virtPages := by omega
    obtain ⟨hmapped, hphys⟩ := hT.translate huse rfl
    rw [toNat_pageAddress hpage] at hphys
    have hframe : s₁.tables.vmmGetPhysAddr (pageAddress start) = frameAddress frame := by
      apply UInt32.toNat_inj.mp
      rw [hphys, toNat_frameAddress hlt]
      omega
    -- frame 0 is never in use, so the guard page does have a frame to give back
    have hne : frameAddress frame ≠ 0 := by
      intro hzero'
      have hnat := congrArg UInt32.toNat hzero'
      rw [toNat_frameAddress hlt, UInt32.toNat_zero] at hnat
      obtain rfl : frame = 0 := by omega
      apply hzero
      rw [← htaken.supply]
      exact .inr ⟨start, Space.held_pool.mpr huse⟩
    simp only [ensures_bind, ensures_get, hframe]
    rw [if_pos hne, ensures_vmmUnmapPage, ensures_bind, freeFrame, ensures_modify,
      pmm_unmapped, unmapped_pmm, ensures_pure]
    have hgive : s₁.SameOutside { s₁ with pmm := s₁.pmm.pmmFreeFrame (frameAddress frame) } :=
      ⟨fun _ _ => rfl, fun _ _ => Iff.rfl, rfl, PmmState.totalFrames_pmmFreeFrame ..⟩
    exact ⟨start, _, rfl, hlowest, hT.guard huse, htaken.guard (by omega) huse,
      (hsame.trans hgive).trans (sameOutside_unmapped hpage)⟩

end VmmState

end AvrKernel.Memory

import AvrKernel.Memory.PageSteps

/-!
# Memory after boot

`vmm_init` of `virtual/vmm.c`, which maps the memory of the kernel to itself, after `pmm_init`,
which leaves the frames above it free.
-/

namespace AvrKernel.Memory

open Bytes (Mem)

/-! ## The identity map -/

/-- The address of the page with these indices, which is where it is mapped to. -/
def identityAddress (pdIdx ptIdx : UInt32) : UInt32 := pdIdx * 1024 * pageSize + ptIdx * pageSize

def identityEntry (identityMapSize pdIdx ptIdx : UInt32) : UInt32 :=
  let physicalAddress := identityAddress pdIdx ptIdx
  if physicalAddress < identityMapSize then physicalAddress ||| vmPresent ||| vmReadwrite else 0

/-- `dir_has_mappings`. -/
def dirHasMappings (identityMapSize pdIdx : UInt32) : Bool :=
  (List.range 1024).any fun ptIdx => identityAddress pdIdx (.ofNat ptIdx) < identityMapSize

/-- `vmm_init`, as far as the tables go. -/
def vmmInit (tablesAt : UInt32) (pmm : PmmState) (identityMapSize : UInt32) : VmmState where
  virtBitmap _ := 0
  tables :=
    { pageDirectory := fun pdIdx =>
        if dirHasMappings identityMapSize pdIdx then
          (tablesAt + pdIdx * pageSize) ||| vmPresent ||| vmReadwrite
        else 0
      staticPageTables := identityEntry identityMapSize }
  tablesAt := tablesAt
  pmm := pmm

variable {tablesAt identityMapSize v : UInt32} {pmm : PmmState}

theorem identityAddress_indices (v : UInt32) :
    (identityAddress (v >>> 22) ((v >>> 12) &&& 0x3FF)).toNat = v.toNat / 4096 * 4096 := by
  have hlt := v.toNat_lt
  have hsize : pageSize.toNat = 4096 := rfl
  have hthousand : (1024 : UInt32).toNat = 1024 := rfl
  rw [identityAddress, UInt32.toNat_add, UInt32.toNat_mul, UInt32.toNat_mul, UInt32.toNat_mul,
    directory_index_toNat, table_index_toNat, hsize, hthousand]
  omega

theorem identityAddress_lt_iff :
    identityAddress (v >>> 22) ((v >>> 12) &&& 0x3FF) < identityMapSize ↔
    v.toNat / 4096 * 4096 < identityMapSize.toNat := by
  rw [UInt32.lt_iff_toNat_lt, identityAddress_indices]

theorem pte_vmmInit : (vmmInit tablesAt pmm identityMapSize).tables.pte v =
    if v.toNat / 4096 * 4096 < identityMapSize.toNat then
      (v &&& ~~~0xFFF) ||| vmPresent ||| vmReadwrite
    else 0 := by
  have hpage : identityAddress (v >>> 22) ((v >>> 12) &&& 0x3FF) = v &&& ~~~0xFFF := by
    apply UInt32.toNat_inj.mp
    rw [identityAddress_indices, toNat_frame]
  simp only [PageTables.pte, vmmInit, identityEntry, hpage, UInt32.lt_iff_toNat_lt, toNat_frame]

/-- The page directory has an entry wherever a page is mapped. -/
theorem linked_vmmInit (hv : v.toNat / 4096 * 4096 < identityMapSize.toNat) :
    Linked (vmmInit tablesAt pmm identityMapSize).tables v := by
  have hany : dirHasMappings identityMapSize (v >>> 22) = true := by
    refine List.any_eq_true.mpr ⟨((v >>> 12) &&& (0x3FF : UInt32)).toNat, ?_, ?_⟩
    · rw [List.mem_range, table_index_toNat]
      exact Nat.mod_lt _ (by decide)
    · rw [UInt32.ofNat_toNat]
      exact decide_eq_true (identityAddress_lt_iff.mpr hv)
  rw [Linked, vmmInit]
  simp only [hany, if_true]
  exact present_or _ _

/-- An address below the end of the kernel is mapped to itself, another one is not mapped. -/
theorem mapped_vmmInit : (vmmInit tablesAt pmm identityMapSize).tables.Mapped v ↔
    v.toNat / 4096 * 4096 < identityMapSize.toNat := by
  rw [mapped_iff, pte_vmmInit]
  constructor
  · rintro ⟨-, hpresent⟩
    by_contra hge
    rw [if_neg hge] at hpresent
    exact hpresent (by decide)
  · intro hv
    rw [if_pos hv]
    exact ⟨linked_vmmInit hv, present_or _ _⟩

theorem vmmInit_identity (hv : v.toNat / 4096 * 4096 < identityMapSize.toNat) :
    (vmmInit tablesAt pmm identityMapSize).tables.vmmGetPhysAddr v = v := by
  have hmapped : (vmmInit tablesAt pmm identityMapSize).tables.Mapped v := mapped_vmmInit.mpr hv
  have hentry := toNat_frame ((v &&& ~~~0xFFF) ||| vmPresent ||| vmReadwrite)
  have hflags : (vmPresent ||| vmReadwrite) &&& ~~~(0xFFF : UInt32) = 0 := by decide
  rw [UInt32.or_assoc, or_and_frame, hflags, UInt32.or_zero, toNat_frame, toNat_frame] at hentry
  apply UInt32.toNat_inj.mp
  rw [PageTables.toNat_vmmGetPhysAddr hmapped, pte_vmmInit, if_pos hv, UInt32.or_assoc, ← hentry]
  clear hentry
  omega

/-! ## The space after boot -/

/-- No page of the area is in use. -/
def Space.empty (free : Finset Nat) : Space := ⟨fun _ => none, free⟩

theorem Space.valid_empty (free : Finset Nat) : (Space.empty free).pool.Valid :=
  ⟨fun hi _ => by simp [pool, empty] at hi, fun hi => by simp [pool, empty] at hi⟩

theorem Space.supply_empty (free : Finset Nat) : (Space.empty free).pool.supply = free := by
  ext frame
  rw [Pool.mem_supply]
  constructor
  · rintro (hfree | ⟨page, hpage⟩)
    · exact hfree
    · cases hpage
  · exact .inl

/-- If the kernel ends below the area, nothing in the area is in use. -/
theorem shows_vmmInit (hok : pmm.Ok) (hend : identityMapSize.toNat ≤ 0x10000000) :
    (vmmInit tablesAt pmm identityMapSize).Shows (Space.empty pmm.freeFrames) where
  bit page _ := by
    rw [VmmState.bit, BitArray.bit]
    simp [VmmState.words, vmmInit, Space.empty]
  beyond _ _ := rfl
  pte page hpage := by
    rw [pte_vmmInit, toNat_pageAddress hpage, if_neg (by omega)]
    rfl
  linked page hpage hne := by
    rw [pte_vmmInit, toNat_pageAddress hpage, if_neg (by omega)] at hne
    exact absurd rfl hne
  free := rfl
  ok := hok
  known huse := by cases huse
  valid := Space.valid_empty _

/-- The kernel between boot and its first allocation: `pmm_init` and `vmm_init` with the end of
the kernel, which is not 0, and does not reach into the area. -/
structure Booted (kernelEnd : UInt32) (s : VmmState) : Prop where
  nonzero : kernelEnd ≠ 0
  below : kernelEnd.toNat ≤ 0x10000000
  init : ∃ (map : MemoryMap) (fuel : Nat) (before pmm : PmmState) (tablesAt : UInt32),
    before.totalFrames.toNat ≤ physTotalFrames ∧ physTotalFrames + map.entries.length < fuel ∧
    pmmInit map.mem fuel (some map.mbi) kernelEnd before = some pmm ∧
    s = vmmInit tablesAt pmm kernelEnd

variable {kernelEnd : UInt32} {s : VmmState}

theorem Booted.shows (h : Booted kernelEnd s) : s.Shows (Space.empty s.pmm.freeFrames) := by
  obtain ⟨map, fuel, before, pmm, tablesAt, htotal, -, hrun, rfl⟩ := h.init
  exact shows_vmmInit (pmmInit_ok htotal hrun) h.below

/-- The free frames lie above the kernel. -/
theorem Booted.above (h : Booted kernelEnd s) {frame : Nat} (hfree : frame ∈ s.pmm.freeFrames) :
    kernelEnd.toNat ≤ frame * 4096 := by
  obtain ⟨map, fuel, before, pmm, tablesAt, -, hfuel, hrun, rfl⟩ := h.init
  exact ((pmmInit_freeFrames map hfuel hrun).mp hfree).2.1

theorem Booted.zero_not_free (h : Booted kernelEnd s) : 0 ∉ s.pmm.freeFrames := by
  intro hfree
  have habove := h.above hfree
  exact h.nonzero (UInt32.toNat_inj.mp (by simpa using habove))

theorem Booted.mapped_iff (h : Booted kernelEnd s) :
    s.tables.Mapped v ↔ v.toNat / 4096 * 4096 < kernelEnd.toNat := by
  obtain ⟨map, fuel, before, pmm, tablesAt, -, -, -, rfl⟩ := h.init
  exact mapped_vmmInit

theorem Booted.identity (h : Booted kernelEnd s) (hv : v.toNat / 4096 * 4096 < kernelEnd.toNat) :
    s.tables.vmmGetPhysAddr v = v := by
  obtain ⟨map, fuel, before, pmm, tablesAt, -, -, -, rfl⟩ := h.init
  exact vmmInit_identity hv

def exampleMemory : Mem :=
  Mem.write (fun _ => 0) 0x500
    (MemoryMap.encodeEntry { size := 20, addr := 0, len := 0x40000, type := 1 })

/-- 64 frames of memory. -/
def exampleMap : MemoryMap where
  mem := exampleMemory
  mbi := { flags := multibootInfoMemMap, mmapLength := 24, mmapAddr := 0x500 }
  entries := [readMmapEntry exampleMemory 0x500]
  present := by decide
  layout := by
    have hsize : (0x500 : UInt32) + (readMmapEntry exampleMemory 0x500).size + 4 = 0x518 := by
      decide +kernel
    apply MapAt.entry (by decide)
    rw [hsize]
    exact MapAt.done (by decide)

/-- A machine with this memory, the first 16 frames of which belong to the kernel. -/
def exampleBoot : VmmState :=
  let before : PmmState := { bitmap := fun _ => 0, totalFrames := 0 }
  vmmInit 0 ((pmmInit exampleMemory 0x100002 (some exampleMap.mbi) 0x10000 before).getD before)
    0x10000

theorem booted_exampleBoot : Booted 0x10000 exampleBoot := by
  have hfuel : physTotalFrames + exampleMap.entries.length < 0x100002 := by decide
  obtain ⟨pmm, hrun, -⟩ := pmmInit_spec exampleMap 0x10000
    { bitmap := fun _ => 0, totalFrames := 0 } hfuel
  refine ⟨by decide, by decide, exampleMap, 0x100002, _, pmm, 0, ?_, hfuel, hrun, ?_⟩
  · exact Nat.zero_le _
  · rw [exampleBoot]
    change pmmInit exampleMemory _ _ _ _ = _ at hrun
    simp only [hrun, Option.getD_some]

end AvrKernel.Memory

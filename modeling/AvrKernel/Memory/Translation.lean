import AvrKernel.Memory.PageRun

/-!
# Virtual and physical addresses

After any run of the manager, two addresses of the kernel's memory never share a byte of physical
memory, and none of them lies in a free frame. `vmm_get_virt_addr` of `virtual/vmm.c` undoes the
translation, as far as it can be undone.
-/

namespace AvrKernel.Memory

open Comp
/-! ## Isolation -/

namespace PageSystem

variable {s : PageSystem} {boot : VmmState} {kernelEnd : UInt32} {n : Nat}

/-- The kernel itself, and what is allocated: pages, and stacks without their guards. -/
def Ram (kernelEnd : UInt32) (s : PageSystem) (v : UInt32) : Prop :=
  v.toNat / 4096 * 4096 < kernelEnd.toNat ∨
    ∃ page, SamePage v (pageAddress page) ∧ ∃ r ∈ s.regions, r.kind ≠ .device ∧ r.Contains page ∧
      ¬ (r.kind = .stack ∧ page = r.first)

/-- Memory is mapped, every byte of it at one address only, and none of it is free. The guard
below a stack is not mapped. -/
structure Isolated (kernelEnd : UInt32) (s : PageSystem) : Prop where
  mapped : ∀ v, s.Ram kernelEnd v → s.vmm.tables.Mapped v
  injective : ∀ v v', s.Ram kernelEnd v → s.Ram kernelEnd v' →
    s.vmm.tables.vmmGetPhysAddr v = s.vmm.tables.vmmGetPhysAddr v' → v = v'
  taken : ∀ v, s.Ram kernelEnd v →
    (s.vmm.tables.vmmGetPhysAddr v).toNat / 4096 ∉ s.vmm.pmm.freeFrames
  guarded : ∀ r ∈ s.regions, r.kind = .stack → ∀ v, SamePage v (pageAddress r.first) →
    ¬ s.vmm.tables.Mapped v

/-- Where the bytes of memory are: at their own address, or in the frame of a page. -/
theorem Kept.ram_cases (hboot : Booted kernelEnd boot) (houtside : boot.SameOutside s.vmm)
    {S : Space} (hS : s.vmm.Shows S) (hholds : S.Holds s.regions) {v : UInt32}
    (hv : s.Ram kernelEnd v) : s.vmm.tables.Mapped v ∧
      ((v.toNat / 4096 * 4096 < kernelEnd.toNat ∧ s.vmm.tables.vmmGetPhysAddr v = v) ∨
      ∃ page frame, SamePage v (pageAddress page) ∧ S.use page = some (.frame frame) ∧
        (s.vmm.tables.vmmGetPhysAddr v).toNat = frame * 4096 + v.toNat % 4096) := by
  rcases hv with hlow | ⟨page, hsame, r, hr, hkind, hin, hguard⟩
  · have harea : ¬ InArea v := by
      have hbelow := hboot.below
      rw [InArea]
      omega
    have hpte := houtside.pte v harea
    have hlinked := houtside.linked v harea
    have hmapped : s.vmm.tables.Mapped v := by
      rw [mapped_iff, hlinked, hpte, ← mapped_iff]
      exact hboot.mapped_iff.mpr hlow
    refine ⟨hmapped, .inl ⟨hlow, ?_⟩⟩
    have hphys := PageTables.toNat_vmmGetPhysAddr hmapped
    rw [hpte, ← PageTables.toNat_vmmGetPhysAddr (hboot.mapped_iff.mpr hlow),
      hboot.identity hlow] at hphys
    exact UInt32.toNat_inj.mp hphys
  · have huses := hholds.used r hr page hin
    have hframe : ∃ frame, S.use page = some (.frame frame) := by
      rw [Region.Uses] at huses
      split at huses
      next => exact huses
      next hstack =>
        rw [if_neg fun heq => hguard ⟨hstack, heq⟩] at huses
        exact huses
      next hdevice => exact absurd hdevice hkind
    obtain ⟨frame, huse⟩ := hframe
    obtain ⟨hmapped, hphys⟩ := hS.translate huse hsame
    exact ⟨hmapped, .inr ⟨page, frame, hsame, huse, hphys⟩⟩

theorem Kept.isolated (hboot : Booted kernelEnd boot) (h : Kept boot s) :
    s.Isolated kernelEnd := by
  obtain ⟨⟨S, hS, hholds, hsupply⟩, houtside⟩ := h
  have hcases := fun v (hv : s.Ram kernelEnd v) => Kept.ram_cases hboot houtside hS hholds hv
  -- all frames lie above the kernel
  have habove : ∀ frame ∈ S.pool.supply, kernelEnd.toNat ≤ frame * 4096 := by
    intro frame hframe
    rw [hsupply] at hframe
    exact hboot.above hframe
  have hheld : ∀ {page frame}, S.use page = some (.frame frame) →
      kernelEnd.toNat ≤ frame * 4096 := fun huse =>
    habove _ (.inr ⟨_, Space.held_pool.mpr huse⟩)
  refine ⟨fun v hv => (hcases v hv).1, fun v v' hv hv' heq => ?_, fun v hv hfree => ?_, ?_⟩
  · have hnat := congrArg UInt32.toNat heq
    apply UInt32.toNat_inj.mp
    -- at their own address, in frames, or one of each
    rcases (hcases v hv).2 with ⟨hlow, hid⟩ | ⟨page, frame, hsame, huse, hphys⟩
    · rcases (hcases v' hv').2 with ⟨-, hid'⟩ | ⟨page', frame', -, huse', hphys'⟩
      · rwa [hid, hid'] at hnat
      · have hle := hheld huse'
        rw [hid, hphys'] at hnat
        omega
    · rcases (hcases v' hv').2 with ⟨hlow', hid'⟩ | ⟨page', frame', hsame', huse', hphys'⟩
      · have hle := hheld huse
        rw [hphys, hid'] at hnat
        omega
      · rw [hphys, hphys'] at hnat
        obtain rfl : frame = frame' := by omega
        obtain rfl := hS.valid.once (Space.held_pool.mpr huse) (Space.held_pool.mpr huse')
        rw [SamePage] at hsame hsame'
        omega
  · -- a frame in use is not free, and the kernel lies below all frames
    rw [hS.free] at hfree
    rcases (hcases v hv).2 with ⟨hlow, hid⟩ | ⟨page, frame, -, huse, hphys⟩
    · have hle := habove _ (.inl hfree)
      rw [hid] at hle
      omega
    · have hframe : (s.vmm.tables.vmmGetPhysAddr v).toNat / 4096 = frame := by omega
      rw [hframe] at hfree
      exact hS.valid.taken (Space.held_pool.mpr huse) hfree
  · intro r hr hstack v hsame hmapped
    obtain ⟨hpos, hfits⟩ := hholds.fits r hr
    have huses := hholds.used r hr r.first ⟨Nat.le_refl _, by omega⟩
    rw [Region.Uses, hstack] at huses
    simp only [if_true] at huses
    obtain ⟨hpte, hiff⟩ := s.vmm.tables.pte_congr hsame
    have hentry := hS.pte r.first (by omega)
    rw [huses] at hentry
    have hpresent := (hiff.mp hmapped).2
    rw [hentry] at hpresent
    exact hpresent (by decide)

/-- After boot no two addresses of memory ever share a byte, whatever the callers allocate and
free, and none of them lies in a free frame. -/
theorem run_isolated (hboot : Booted kernelEnd boot) {ops : List PageOp}
    (hops : Permitted n PageSystem.step Ok ⟨boot, []⟩ ops) :
    Ensures n (run PageSystem.step ops) ⟨boot, []⟩ (fun _ s => s.Isolated kernelEnd)
      fun s => s.Isolated kernelEnd := by
  have hrun := ensures_run (fun _ _ h hok => Kept.step hboot h hok) (Kept.start hboot) hops
  exact hrun.mono (fun _ _ h => h.isolated hboot) fun _ h => h.isolated hboot

theorem run_isolated_exampleBoot : ∃ answers s,
    run PageSystem.step exampleOps 3 ⟨exampleBoot, []⟩ = .done answers s ∧
      s.regions = [⟨.device, 10, 2⟩, ⟨.stack, 5, 5⟩, ⟨.pages, 0, 2⟩] ∧ s.Isolated 0x10000 := by
  obtain ⟨answers, s, hrun, hregions, -⟩ := run_exampleOps
  exact ⟨answers, s, hrun, hregions,
    (run_isolated booted_exampleBoot exampleOps_permitted).of_done hrun⟩

end PageSystem

/-! ## The way back -/

/-- The entry is present and names the frame. -/
def Names (pte targetFrame : UInt32) : Prop :=
    pte &&& vmPresent ≠ 0 ∧ pte &&& ~~~0xFFF = targetFrame

instance (pte targetFrame : UInt32) : Decidable (Names pte targetFrame) :=
  inferInstanceAs (Decidable (_ ∧ _))

/-- `vmm_get_virt_addr`; 0 stands for `NULL`. -/
def vmmGetVirtAddr (t : PageTables) (physicalAddr : UInt32) : UInt32 :=
  let targetFrame := physicalAddr &&& ~~~0xFFF
  let pageOffset := physicalAddr &&& 0xFFF
  let found := (List.range 1024).findSome? fun pdIndex =>
    if t.pageDirectory (.ofNat pdIndex) &&& vmPresent ≠ 0 then
      ((List.range 1024).find? fun ptIndex =>
        Names (t.staticPageTables (.ofNat pdIndex) (.ofNat ptIndex)) targetFrame).map fun ptIndex =>
          (UInt32.ofNat pdIndex <<< 22) ||| (UInt32.ofNat ptIndex <<< 12) ||| pageOffset
    else none
  found.getD 0

/-- The address in a page that has the offset of `physicalAddr`. -/
def addressIn (physicalAddr : UInt32) (page : Nat) : UInt32 :=
  .ofNat (page * 4096 + physicalAddr.toNat % 4096)

/-- The page is where `physicalAddr` is mapped. -/
def Hits (t : PageTables) (physicalAddr : UInt32) (page : Nat) : Prop :=
  t.Mapped (addressIn physicalAddr page) ∧
    t.vmmGetPhysAddr (addressIn physicalAddr page) = physicalAddr

instance (t : PageTables) (physicalAddr : UInt32) (page : Nat) :
    Decidable (Hits t physicalAddr page) := inferInstanceAs (Decidable (_ ∧ _))

variable {t : PageTables} {physicalAddr v : UInt32} {page pdIndex ptIndex : Nat}

theorem toNat_addressIn (physicalAddr : UInt32) (hpage : page < 0x100000) :
    (addressIn physicalAddr page).toNat = page * 4096 + physicalAddr.toNat % 4096 := by
  rw [addressIn, UInt32.toNat_ofNat']
  omega

theorem addressIn_page (hv : v.toNat % 4096 = physicalAddr.toNat % 4096) :
    addressIn physicalAddr (v.toNat / 4096) = v := by
  have hlt := v.toNat_lt
  apply UInt32.toNat_inj.mp
  rw [toNat_addressIn physicalAddr (by omega)]
  omega

theorem offset_of_translation (hmapped : t.Mapped v) (hphys : t.vmmGetPhysAddr v = physicalAddr) :
    v.toNat % 4096 = physicalAddr.toNat % 4096 := by
  have hnat := PageTables.toNat_vmmGetPhysAddr hmapped
  rw [hphys] at hnat
  omega

theorem indices_addressIn (physicalAddr : UInt32) (hpd : pdIndex < 1024) (hpt : ptIndex < 1024) :
    addressIn physicalAddr (pdIndex * 1024 + ptIndex) >>> 22 = .ofNat pdIndex ∧
      (addressIn physicalAddr (pdIndex * 1024 + ptIndex) >>> 12) &&& (0x3FF : UInt32) =
        .ofNat ptIndex := by
  have hpage : pdIndex * 1024 + ptIndex < 0x100000 := by omega
  have hnat := toNat_addressIn physicalAddr hpage
  constructor
  · apply UInt32.toNat_inj.mp
    rw [directory_index_toNat, hnat, UInt32.toNat_ofNat']
    omega
  · apply UInt32.toNat_inj.mp
    rw [table_index_toNat, hnat, UInt32.toNat_ofNat']
    omega

/-- The address that the code puts together from the indices. -/
theorem or_indices (hpd : pdIndex < 1024) (hpt : ptIndex < 1024) :
    (UInt32.ofNat pdIndex <<< 22) ||| (UInt32.ofNat ptIndex <<< 12) ||| (physicalAddr &&& 0xFFF) =
      addressIn physicalAddr (pdIndex * 1024 + ptIndex) := by
  have hoffset := Nat.mod_lt physicalAddr.toNat (show 0 < 4096 by decide)
  have hpt' : (UInt32.ofNat ptIndex).toNat = ptIndex := by
    rw [UInt32.toNat_ofNat']
    omega
  have hpd' : (UInt32.ofNat pdIndex).toNat = pdIndex := by
    rw [UInt32.toNat_ofNat']
    omega
  have hshift : (12 : UInt32).toNat % 32 = 12 := rfl
  have hshift' : (22 : UInt32).toNat % 32 = 22 := rfl
  have hlow : (UInt32.ofNat ptIndex <<< 12).toNat = ptIndex <<< 12 := by
    rw [UInt32.toNat_shiftLeft, hpt', hshift, Nat.shiftLeft_eq]
    exact Nat.mod_eq_of_lt (by omega)
  have hhigh : (UInt32.ofNat pdIndex <<< 22).toNat = pdIndex <<< 22 := by
    rw [UInt32.toNat_shiftLeft, hpd', hshift', Nat.shiftLeft_eq]
    exact Nat.mod_eq_of_lt (by omega)
  apply UInt32.toNat_inj.mp
  rw [toNat_addressIn physicalAddr (by omega), UInt32.or_assoc, UInt32.toNat_or, UInt32.toNat_or,
    toNat_and_fff, hlow, hhigh, ← Nat.shiftLeft_add_eq_or_of_lt (show _ < 2 ^ 12 from hoffset)]
  have hlower : ptIndex <<< 12 + physicalAddr.toNat % 4096 < 2 ^ 22 := by
    rw [Nat.shiftLeft_eq]
    omega
  rw [← Nat.shiftLeft_add_eq_or_of_lt hlower, Nat.shiftLeft_eq, Nat.shiftLeft_eq]
  omega

/-- The page with these indices is a hit if its table is linked and its entry names the frame. -/
theorem hits_iff (hpd : pdIndex < 1024) (hpt : ptIndex < 1024) :
    Hits t physicalAddr (pdIndex * 1024 + ptIndex) ↔
      t.pageDirectory (.ofNat pdIndex) &&& vmPresent ≠ 0 ∧
        Names (t.staticPageTables (.ofNat pdIndex) (.ofNat ptIndex))
          (physicalAddr &&& ~~~0xFFF) := by
  obtain ⟨hdirectory, htable⟩ := indices_addressIn physicalAddr hpd hpt
  have hpage : pdIndex * 1024 + ptIndex < 0x100000 := by omega
  have hnat := toNat_addressIn physicalAddr hpage
  have hentry : t.pte (addressIn physicalAddr (pdIndex * 1024 + ptIndex)) =
      t.staticPageTables (.ofNat pdIndex) (.ofNat ptIndex) := by
    rw [PageTables.pte, hdirectory, htable]
  rw [Hits, Names, mapped_iff, Linked, hdirectory, hentry]
  constructor
  · rintro ⟨⟨hlinked, hpresent⟩, hphys⟩
    refine ⟨hlinked, hpresent, ?_⟩
    have hmapped : t.Mapped (addressIn physicalAddr (pdIndex * 1024 + ptIndex)) := by
      rw [mapped_iff, Linked, hdirectory, hentry]
      exact ⟨hlinked, hpresent⟩
    have htranslated := PageTables.toNat_vmmGetPhysAddr hmapped
    rw [hphys, hentry, hnat] at htranslated
    apply UInt32.toNat_inj.mp
    rw [toNat_frame, toNat_frame]
    omega
  · rintro ⟨hlinked, hpresent, hframe⟩
    refine ⟨⟨hlinked, hpresent⟩, ?_⟩
    have hmapped : t.Mapped (addressIn physicalAddr (pdIndex * 1024 + ptIndex)) := by
      rw [mapped_iff, Linked, hdirectory, hentry]
      exact ⟨hlinked, hpresent⟩
    have hframe' := congrArg UInt32.toNat hframe
    rw [toNat_frame, toNat_frame] at hframe'
    have hoffset : ((pdIndex * 1024 + ptIndex) * 4096 + physicalAddr.toNat % 4096) % 4096 =
        physicalAddr.toNat % 4096 := by rw [Nat.mul_add_mod', Nat.mod_mod]
    apply UInt32.toNat_inj.mp
    rw [PageTables.toNat_vmmGetPhysAddr hmapped, hentry, hnat, hoffset, hframe']
    exact Nat.div_add_mod' _ _

/-- The two loops find the first hit among the pages of the address space. -/
theorem vmmGetVirtAddr_eq (t : PageTables) (physicalAddr : UInt32) :
    vmmGetVirtAddr t physicalAddr = (((List.range (1024 * 1024)).find? fun page =>
      Hits t physicalAddr page).map (addressIn physicalAddr)).getD 0 := by
  rw [vmmGetVirtAddr, ← BitArray.findSome?_words, List.map_findSome?]
  refine congrArg (fun found => Option.getD found 0) (PmmState.findSome?_congr ?_)
  intro pdIndex hpdIndex
  have hpd := List.mem_range.mp hpdIndex
  by_cases hlinked : t.pageDirectory (.ofNat pdIndex) &&& vmPresent ≠ 0
  · have hsame : (List.range 1024).find? (fun ptIndex =>
        Names (t.staticPageTables (.ofNat pdIndex) (.ofNat ptIndex)) (physicalAddr &&& ~~~0xFFF)) =
        (List.range 1024).find? fun ptIndex => Hits t physicalAddr (pdIndex * 1024 + ptIndex) := by
      apply List.find?_congr
      intro ptIndex hptIndex
      simp [hits_iff hpd (List.mem_range.mp hptIndex), hlinked]
    simp only [if_pos hlinked]
    rw [hsame, Function.comp_apply, Option.map_map]
    apply Option.map_congr
    intro ptIndex hfound
    have hpt := List.mem_range.mp (List.mem_of_find?_eq_some hfound)
    exact or_indices hpd hpt
  · have hnone : (List.range 1024).find? (fun ptIndex =>
        decide (Hits t physicalAddr (pdIndex * 1024 + ptIndex))) = none := by
      rw [List.find?_eq_none]
      intro ptIndex hptIndex
      simp [hits_iff hpd (List.mem_range.mp hptIndex), hlinked]
    simp only [if_neg hlinked, Function.comp_apply, hnone, Option.map_none]

/-- `vmm_get_virt_addr` finds the lowest address that is translated to the given one. If there is
none, it returns 0. -/
theorem vmmGetVirtAddr_spec (t : PageTables) (physicalAddr : UInt32) :
    ((∃ v, t.Mapped v ∧ t.vmmGetPhysAddr v = physicalAddr) →
      t.Mapped (vmmGetVirtAddr t physicalAddr) ∧
      t.vmmGetPhysAddr (vmmGetVirtAddr t physicalAddr) = physicalAddr ∧
      ∀ v, t.Mapped v → t.vmmGetPhysAddr v = physicalAddr →
        vmmGetVirtAddr t physicalAddr ≤ v) ∧
    ((∀ v, t.Mapped v → t.vmmGetPhysAddr v ≠ physicalAddr) →
      vmmGetVirtAddr t physicalAddr = 0) := by
  -- an address and the page that it is in
  have hpage : ∀ v, t.Mapped v → t.vmmGetPhysAddr v = physicalAddr →
      v.toNat / 4096 < 1024 * 1024 ∧ Hits t physicalAddr (v.toNat / 4096) := by
    intro v hmapped hphys
    have hlt := v.toNat_lt
    refine ⟨by omega, ?_⟩
    rw [Hits, addressIn_page (offset_of_translation hmapped hphys)]
    exact ⟨hmapped, hphys⟩
  rw [vmmGetVirtAddr_eq]
  cases hfind : (List.range (1024 * 1024)).find? fun page => Hits t physicalAddr page with
  | none =>
      rw [List.find?_range_eq_none] at hfind
      refine ⟨?_, fun _ => rfl⟩
      rintro ⟨v, hmapped, hphys⟩
      obtain ⟨hlt, hhits⟩ := hpage v hmapped hphys
      have hmiss := hfind _ hlt
      simp [hhits] at hmiss
  | some page =>
      rw [List.find?_range_eq_some] at hfind
      obtain ⟨hhits, hin, hbefore⟩ := hfind
      have hlt := List.mem_range.mp hin
      rw [decide_eq_true_iff] at hhits
      simp only [Option.map_some, Option.getD_some]
      refine ⟨fun _ => ⟨hhits.1, hhits.2, fun v hmapped hphys => ?_⟩, fun hnone => ?_⟩
      · have hle : page ≤ v.toNat / 4096 := by
          by_contra hlower
          have hmiss := hbefore _ (Nat.not_le.mp hlower)
          simp [(hpage v hmapped hphys).2] at hmiss
        have hoffset := offset_of_translation hmapped hphys
        rw [UInt32.le_iff_toNat_le, toNat_addressIn physicalAddr (by omega)]
        omega
      · exact absurd hhits.2 (hnone _ hhits.1)

end AvrKernel.Memory

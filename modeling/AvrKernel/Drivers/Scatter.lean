import AvrKernel.Lib.Blocks
import AvrKernel.Lib.Runs
import AvrKernel.Memory.PageTables

/-!
# Scatter lists

`ahci_build_prdt` of `ahci/ahci.c`: the pages of a buffer are translated one by one, and what is
adjacent in physical memory becomes one entry.
-/

namespace AvrKernel.Drivers

open Memory (PageTables vmPresent toNat_and_fff)

/-! ## The list -/

def pageSize : UInt32 := 4096

def ahciMaxPrdt : Nat := 248
def ahciPrdtMaxBytes : UInt32 := 0x400000

/-- `struct AHCI_PRDT_Entry`, without its reserved fields. -/
structure PrdtEntry where
  dataBaseAddr : UInt32
  dataBaseAddrUpper : UInt32
  byteCount : BitVec 22
  interrupt : Bool

/-- The variables of `ahci_build_prdt`. -/
structure Building where
  prdtEntries : List PrdtEntry
  entries : Nat
  vaddr : UInt32
  remaining : UInt32

namespace Building

/-- `(uint32_t)prev->byte_count + 1`. -/
def prevLen (prev : PrdtEntry) : UInt32 := .ofNat prev.byteCount.toNat + 1

/-- The entry before, if the bytes at `phys` continue it and it has room for them. -/
def continued (s : Building) (phys chunk : UInt32) : Option PrdtEntry :=
  if s.entries > 0 then
    s.prdtEntries[s.entries - 1]?.filter fun prev =>
      prev.dataBaseAddr + prevLen prev = phys ∧ prevLen prev + chunk ≤ ahciPrdtMaxBytes
  else none

/-- Describe the bytes at `phys`; `none` in the result means that there is no entry left. -/
def describe (s : Building) (phys chunk : UInt32) : Option (Option Building) :=
  match s.continued phys chunk with
  | some prev =>
      let byteCount := BitVec.ofNat 22 (prevLen prev + chunk - 1).toNat
      (Blocks.store (s.entries - 1) { prev with byteCount } s.prdtEntries).map fun prdtEntries =>
        some { s with prdtEntries }
  | none =>
      if s.entries ≥ ahciMaxPrdt then some none
      else
        let e : PrdtEntry :=
          { dataBaseAddr := phys, dataBaseAddrUpper := 0
            byteCount := BitVec.ofNat 22 (chunk - 1).toNat, interrupt := false }
        (Blocks.store s.entries e s.prdtEntries).map fun prdtEntries =>
          some { s with prdtEntries, entries := s.entries + 1 }

/-- `page_left`, or what remains if that is less. -/
def chunk (s : Building) : UInt32 :=
  let pageLeft := pageSize - (s.vaddr &&& (pageSize - 1))
  if s.remaining < pageLeft then s.remaining else pageLeft

/-- `while (remaining > 0)`: what the function returns, and the table. A store outside of the
table is a fault. -/
def loop (vm : PageTables) : Nat → Building → Option (Int × List PrdtEntry)
  | 0, _ => none
  | fuel + 1, s =>
      if s.remaining > 0 then
        let phys := vm.vmmGetPhysAddr s.vaddr
        if phys = 0 then some (-1, s.prdtEntries)
        else
          (s.describe phys s.chunk).bind fun
            | none => some (-1, s.prdtEntries)
            | some s' =>
                loop vm fuel
                  { s' with vaddr := s.vaddr + s.chunk, remaining := s.remaining - s.chunk }
      else some (s.entries, s.prdtEntries)

end Building

def ahciBuildPrdt (fuel : Nat) (vm : PageTables) (prdtEntries : List PrdtEntry)
    (buffer bytes : UInt32) : Option (Int × List PrdtEntry) :=
  if bytes = 0 ∨ buffer &&& 1 ≠ 0 then some (-1, prdtEntries)
  else Building.loop vm fuel { prdtEntries, entries := 0, vaddr := buffer, remaining := bytes }

/-! ## Entries -/

theorem toNat_and_one (x : UInt32) : (x &&& 1).toNat = x.toNat % 2 := by
  rw [UInt32.toNat_and]
  exact Nat.and_two_pow_sub_one_eq_mod x.toNat 1

/-- The run of physical addresses that an entry describes. -/
def PrdtEntry.run (e : PrdtEntry) : Runs.Run :=
  { base := e.dataBaseAddr.toNat + 2 ^ 32 * e.dataBaseAddrUpper.toNat
    length := e.byteCount.toNat + 1 }

/-- The physical addresses that entries describe, in order. -/
def described (entries : List PrdtEntry) : List Nat := Runs.cells (entries.map PrdtEntry.run)

/-- An entry that begins at an even address and ends within physical memory. -/
structure PrdtEntry.Valid (e : PrdtEntry) : Prop where
  even : e.dataBaseAddr.toNat % 2 = 0
  upper : e.dataBaseAddrUpper = 0
  fits : e.dataBaseAddr.toNat + (e.byteCount.toNat + 1) ≤ 2 ^ 32

theorem PrdtEntry.Valid.run_eq {e : PrdtEntry} (h : e.Valid) :
    e.run = { base := e.dataBaseAddr.toNat, length := e.byteCount.toNat + 1 } := by
  rw [PrdtEntry.run, h.upper]
  rfl

theorem take_set_succ {α : Type} {l : List α} {n : Nat} (h : n < l.length) (a : α) :
    (l.set n a).take (n + 1) = l.take n ++ [a] := by
  rw [List.take_add_one, List.take_set_of_le (Nat.le_refl n), List.getElem?_set_self h]
  rfl

namespace Building

variable {s : Building} {phys chunk : UInt32}

/-- The entries in use. -/
def used (s : Building) : List PrdtEntry := s.prdtEntries.take s.entries

/-- The table is whole, and the entries in use are valid. -/
structure Table (s : Building) : Prop where
  length : s.prdtEntries.length = ahciMaxPrdt
  entries : s.entries ≤ ahciMaxPrdt
  valid : ∀ e ∈ s.used, e.Valid

theorem used_advance (vaddr remaining : UInt32) : used { s with vaddr, remaining } = s.used := rfl

theorem Table.advance (h : s.Table) (vaddr remaining : UInt32) :
    Table { s with vaddr, remaining } := ⟨h.length, h.entries, h.valid⟩

theorem toNat_prevLen (prev : PrdtEntry) : (prevLen prev).toNat = prev.byteCount.toNat + 1 := by
  have hlt := prev.byteCount.isLt
  rw [prevLen, UInt32.toNat_add, UInt32.toNat_ofNat', UInt32.toNat_one]
  omega

theorem Table.replace (h : s.Table) {n : Nat} (hn : n < ahciMaxPrdt) (hle : n ≤ s.entries)
    {e : PrdtEntry} (he : e.Valid) :
    ∃ prdtEntries, Blocks.store n e s.prdtEntries = some prdtEntries ∧
      Table { s with prdtEntries, entries := n + 1 } ∧
      used { s with prdtEntries, entries := n + 1 } = s.prdtEntries.take n ++ [e] := by
  have hin : n < s.prdtEntries.length := h.length ▸ hn
  have hused : used { s with prdtEntries := s.prdtEntries.set n e, entries := n + 1 } =
      s.prdtEntries.take n ++ [e] := take_set_succ hin e
  refine ⟨s.prdtEntries.set n e, if_pos hin, ⟨?_, hn, ?_⟩, hused⟩
  · exact List.length_set.trans h.length
  · intro e' he'
    rw [hused, List.mem_append, List.mem_singleton] at he'
    rcases he' with hbefore | rfl
    · exact h.valid e' ((List.take_subset_take_left _ hle) hbefore)
    · exact he

/-- What continues the entry before begins where that ends. -/
theorem Table.continued (h : s.Table) (hphys : phys ≠ 0) {prev : PrdtEntry}
    (hprev : s.continued phys chunk = some prev) (hpage : chunk.toNat ≤ 4096) :
    ∃ n, s.entries = n + 1 ∧ s.used = s.prdtEntries.take n ++ [prev] ∧
      prev.dataBaseAddr.toNat + (prev.byteCount.toNat + 1) = phys.toNat ∧
      prev.byteCount.toNat + 1 + chunk.toNat ≤ 2 ^ 22 := by
  rw [Building.continued] at hprev
  split at hprev
  next hpos =>
    obtain ⟨hget, hok⟩ := Option.filter_eq_some_iff.mp hprev
    obtain ⟨hbase, hroom⟩ := of_decide_eq_true hok
    have hn : s.entries = s.entries - 1 + 1 := by omega
    have hused : s.used = s.prdtEntries.take (s.entries - 1) ++ [prev] := by
      rw [used, hn, List.take_add_one, Nat.add_sub_cancel, hget]
      rfl
    have hvalid : prev.Valid := h.valid prev (by rw [hused]; simp)
    have hlt := prev.byteCount.isLt
    have hfits := hvalid.fits
    have hsum := congrArg UInt32.toNat hbase
    have hnonzero : phys.toNat ≠ 0 := fun hzero => hphys (UInt32.toNat_inj.mp hzero)
    rw [UInt32.toNat_add, toNat_prevLen] at hsum
    rw [UInt32.le_iff_toNat_le, UInt32.toNat_add, toNat_prevLen] at hroom
    change _ ≤ 4194304 at hroom
    exact ⟨s.entries - 1, hn, hused, by omega, by omega⟩
  next => cases hprev

/-- A chunk becomes part of the entry before, or an entry of its own. -/
theorem Table.describe (h : s.Table) (chunk : UInt32) (hphys : phys ≠ 0)
    (heven : phys.toNat % 2 = 0) (hpos : 0 < chunk.toNat) (hpage : chunk.toNat ≤ 4096)
    (hfits : phys.toNat + chunk.toNat ≤ 2 ^ 32) :
    (s.describe phys chunk = some none ∧ s.entries = ahciMaxPrdt) ∨
    ∃ s', s.describe phys chunk = some (some s') ∧ s'.Table ∧ 0 < s'.entries ∧
      described s'.used = described s.used ++ List.range' phys.toNat chunk.toNat := by
  rw [Building.describe]
  have hentries := h.entries
  cases hprev : s.continued phys chunk with
  | some prev =>
      right
      obtain ⟨n, hn, hused, hend, hroom⟩ := h.continued hphys hprev hpage
      have hvalid : prev.Valid := h.valid prev (by rw [hused]; simp)
      have hcount : (BitVec.ofNat 22 (prevLen prev + chunk - 1).toNat).toNat =
          prev.byteCount.toNat + chunk.toNat := by
        have hsub : (prevLen prev + chunk - 1).toNat = prev.byteCount.toNat + chunk.toNat := by
          rw [UInt32.toNat_sub, UInt32.toNat_add, toNat_prevLen, UInt32.toNat_one]
          omega
        rw [BitVec.toNat_ofNat, hsub]
        omega
      have hgrown : PrdtEntry.Valid
          { prev with byteCount := BitVec.ofNat 22 (prevLen prev + chunk - 1).toNat } := by
        have hfits' : prev.dataBaseAddr.toNat + (prev.byteCount.toNat + chunk.toNat + 1) ≤
            2 ^ 32 := by omega
        rw [← hcount] at hfits'
        exact ⟨hvalid.even, hvalid.upper, hfits'⟩
      obtain ⟨table, hstore, htable, hused'⟩ := h.replace (n := n) (by omega) (by omega) hgrown
      rw [← hn] at htable hused'
      refine ⟨{ s with prdtEntries := table }, ?_, htable, hn ▸ Nat.succ_pos n, ?_⟩
      · simp only [hn, Nat.add_sub_cancel, hstore, Option.map_some]
      · rw [hused', hused, described, described, List.map_append, List.map_append,
          List.map_singleton, List.map_singleton, hgrown.run_eq, hvalid.run_eq, hcount, ← hend]
        have hlength : prev.byteCount.toNat + chunk.toNat + 1 =
            prev.byteCount.toNat + 1 + chunk.toNat := by omega
        rw [hlength]
        exact Runs.cells_grow _ { base := _, length := prev.byteCount.toNat + 1 } _
  | none =>
      by_cases hfull : s.entries ≥ ahciMaxPrdt
      · left
        exact ⟨if_pos hfull, by omega⟩
      · right
        have hcount : (BitVec.ofNat 22 (chunk - 1).toNat).toNat + 1 = chunk.toNat := by
          have hsub : (chunk - 1).toNat = chunk.toNat - 1 := by
            rw [UInt32.toNat_sub, UInt32.toNat_one]
            omega
          rw [BitVec.toNat_ofNat, hsub]
          omega
        have hnew : PrdtEntry.Valid
            { dataBaseAddr := phys, dataBaseAddrUpper := 0
              byteCount := BitVec.ofNat 22 (chunk - 1).toNat, interrupt := false } := by
          refine ⟨heven, rfl, ?_⟩
          rw [hcount]
          exact hfits
        obtain ⟨table, hstore, htable, hused'⟩ :=
          h.replace (n := s.entries) (by omega) (Nat.le_refl _) hnew
        refine ⟨_, ?_, htable, Nat.succ_pos _, ?_⟩
        · simp only [if_neg hfull, hstore, Option.map_some]
        · rw [hused', described, List.map_append, List.map_singleton, hnew.run_eq, hcount]
          exact Runs.cells_concat _ { base := phys.toNat, length := chunk.toNat }

end Building

/-! ## The loop -/

namespace Building

variable {vm : PageTables} {buffer : UInt32} {total k : Nat} {s : Building}

/-- The first `k` bytes of the buffer have been described. -/
structure Built (vm : PageTables) (buffer : UInt32) (total k : Nat) (s : Building) : Prop where
  table : s.Table
  address : s.vaddr = buffer + .ofNat k
  rest : s.remaining.toNat + k = total
  done : described s.used = vm.addresses buffer 0 k
  started : 0 < k → 0 < s.entries
  aligned : k = 0 ∨ s.remaining.toNat = 0 ∨ s.vaddr.toNat % 4096 = 0

theorem toNat_chunk (s : Building) :
    s.chunk.toNat = min s.remaining.toNat (4096 - s.vaddr.toNat % 4096) := by
  have hleft : (pageSize - (s.vaddr &&& (pageSize - 1))).toNat =
      4096 - s.vaddr.toNat % 4096 := by
    have hoffset : (s.vaddr &&& (pageSize - 1)).toNat = s.vaddr.toNat % 4096 :=
      toNat_and_fff s.vaddr
    have hsize : pageSize.toNat = 4096 := rfl
    rw [UInt32.toNat_sub_of_le _ _ (by
      rw [UInt32.le_iff_toNat_le, hoffset, hsize]
      omega), hoffset, hsize]
  rw [chunk]
  split
  next hlt =>
    rw [UInt32.lt_iff_toNat_lt, hleft] at hlt
    omega
  next hge =>
    rw [UInt32.lt_iff_toNat_lt, hleft] at hge
    rw [hleft]
    omega

theorem Built.next (h : s.Built vm buffer total k) (hmapped : vm.Mapped s.vaddr) {s' : Building}
    (htable : s'.Table) (hentries : 0 < s'.entries)
    (hused : described s'.used = described s.used ++
      List.range' (vm.vmmGetPhysAddr s.vaddr).toNat s.chunk.toNat) :
    Built vm buffer total (k + s.chunk.toNat)
      { s' with vaddr := s.vaddr + s.chunk, remaining := s.remaining - s.chunk } := by
  have hchunk := s.toNat_chunk
  have hrest := h.rest
  have hle : s.chunk ≤ s.remaining := by
    rw [UInt32.le_iff_toNat_le]
    omega
  have hremaining : (s.remaining - s.chunk).toNat = s.remaining.toNat - s.chunk.toNat :=
    UInt32.toNat_sub_of_le _ _ hle
  have haddress : s.vaddr + s.chunk = buffer + .ofNat (k + s.chunk.toNat) := by
    rw [UInt32.ofNat_add, UInt32.ofNat_toNat, ← UInt32.add_assoc, h.address]
  refine ⟨htable.advance _ _, haddress, ?_, ?_, fun _ => hentries, ?_⟩
  · change (s.remaining - s.chunk).toNat + _ = _
    omega
  · have hpage : (buffer + .ofNat k).toNat % 4096 + s.chunk.toNat ≤ 4096 := by
      rw [← h.address]
      omega
    rw [h.address] at hmapped hused
    rw [used_advance, hused, h.done, vm.addresses_add, Nat.zero_add,
      PageTables.addresses_page hmapped hpage]
  · right
    change (s.remaining - s.chunk).toNat = 0 ∨ (s.vaddr + s.chunk).toNat % 4096 = 0
    rw [UInt32.toNat_add]
    omega

/-- What `ahci_build_prdt` promises about its result: all of the bytes, or -1. -/
structure Complete (vm : PageTables) (buffer : UInt32) (total : Nat) (n : Int)
    (prdtEntries : List PrdtEntry) : Prop where
  length : prdtEntries.length = ahciMaxPrdt
  all : n ≠ -1 → 0 < n ∧ n ≤ ahciMaxPrdt ∧
    described (prdtEntries.take n.toNat) = vm.addresses buffer 0 total ∧
    ∀ e ∈ prdtEntries.take n.toNat, e.dataBaseAddr.toNat % 2 = 0 ∧
      1 ≤ e.run.length ∧ e.run.length ≤ ahciPrdtMaxBytes.toNat
  unmapped : (∃ i < total, ¬vm.Mapped (buffer + .ofNat i)) → n = -1

/-- The loop returns, with a complete list or with -1. -/
theorem Built.loop (h : s.Built vm buffer total k) (heven : buffer.toNat % 2 = 0)
    (hend : buffer.toNat + total ≤ 2 ^ 32) (hpos : 0 < total)
    (hmapped : ∀ i < k, vm.Mapped (buffer + .ofNat i)) {fuel : Nat}
    (hfuel : s.remaining.toNat < fuel) :
    ∃ n prdtEntries, Building.loop vm fuel s = some (n, prdtEntries) ∧
      Complete vm buffer total n prdtEntries := by
  induction fuel generalizing s k with
  | zero => omega
  | succ fuel ih =>
      rw [Building.loop]
      by_cases hmore : s.remaining > 0
      · have hremaining : 0 < s.remaining.toNat := UInt32.lt_iff_toNat_lt.mp hmore
        have hchunk := s.toNat_chunk
        have hfail : Complete vm buffer total (-1) s.prdtEntries :=
          ⟨h.table.length, fun hne => absurd rfl hne, fun _ => rfl⟩
        rw [if_pos hmore]
        by_cases hphys : vm.vmmGetPhysAddr s.vaddr = 0
        · exact ⟨-1, _, if_pos hphys, hfail⟩
        · have hhere : vm.Mapped s.vaddr := PageTables.mapped_of_ne hphys
          have htoNat := PageTables.toNat_vmmGetPhysAddr hhere
          have hpte := (vm.pte s.vaddr).toNat_lt
          have hoffset : s.vaddr.toNat % 2 = 0 := by
            rcases h.aligned with rfl | hdone | haligned
            · rw [h.address]
              simpa using heven
            · omega
            · omega
          simp only [if_neg hphys]
          rcases h.table.describe s.chunk hphys (by omega) (by omega) (by omega)
            (by omega) with ⟨hfull, -⟩ | ⟨s', hdescribe, htable, hentries, hused⟩
          · rw [hfull, Option.bind_some]
            exact ⟨-1, _, rfl, hfail⟩
          · rw [hdescribe, Option.bind_some]
            have hnext := h.next hhere htable hentries hused
            have hrest := hnext.rest
            apply ih hnext
            · intro i hi
              by_cases hold : i < k
              · exact hmapped i hold
              · have hsplit : i = k + (i - k) := by omega
                have hsame : (buffer + .ofNat i).toNat / 4096 = s.vaddr.toNat / 4096 := by
                  have hlt := s.vaddr.toNat_lt
                  rw [hsplit, UInt32.ofNat_add, ← UInt32.add_assoc, ← h.address, UInt32.toNat_add,
                    UInt32.toNat_ofNat']
                  omega
                exact (vm.pte_congr hsame).2.mpr hhere
            · have hold := h.rest
              change (s.remaining - s.chunk).toNat < fuel
              change (s.remaining - s.chunk).toNat + _ = _ at hrest
              omega
      · have hdone : s.remaining.toNat = 0 := by
          rw [gt_iff_lt, UInt32.lt_iff_toNat_lt, UInt32.toNat_zero] at hmore
          omega
        have hrest := h.rest
        have hk : k = total := by omega
        subst hk
        have hentries := h.started hpos
        have hmax := h.table.entries
        rw [if_neg hmore]
        refine ⟨s.entries, s.prdtEntries, rfl, h.table.length, ?_, ?_⟩
        · intro _
          rw [Int.toNat_natCast]
          refine ⟨by omega, by omega, h.done, fun e he => ?_⟩
          have hvalid := h.table.valid e he
          have hlt := e.byteCount.isLt
          rw [hvalid.run_eq]
          exact ⟨hvalid.even, Nat.succ_pos _, hlt⟩
        · rintro ⟨i, hi, hnot⟩
          exact absurd (hmapped i hi) hnot

end Building

/-- The list describes all bytes of the buffer in order, or the function returns -1; it does so
for every buffer with an unmapped page, and for one that no list of that size describes. -/
theorem ahciBuildPrdt_complete (vm : PageTables) (prdtEntries : List PrdtEntry)
    (hlength : prdtEntries.length = ahciMaxPrdt) (buffer bytes : UInt32)
    (hend : buffer.toNat + bytes.toNat ≤ 2 ^ 32) (fuel : Nat) (hfuel : bytes.toNat < fuel) :
    ∃ n table, ahciBuildPrdt fuel vm prdtEntries buffer bytes = some (n, table) ∧
      Building.Complete vm buffer bytes.toNat n table ∧
      ((∀ entries : List PrdtEntry, entries.length ≤ ahciMaxPrdt →
        described entries ≠ vm.addresses buffer 0 bytes.toNat) → n = -1) := by
  rw [ahciBuildPrdt]
  by_cases hrefused : bytes = 0 ∨ buffer &&& 1 ≠ 0
  · rw [if_pos hrefused]
    exact ⟨-1, prdtEntries, rfl, ⟨hlength, fun hne => absurd rfl hne, fun _ => rfl⟩, fun _ => rfl⟩
  · rw [if_neg hrefused]
    rw [not_or, not_not] at hrefused
    obtain ⟨hbytes, heven⟩ := hrefused
    have hpos : 0 < bytes.toNat := by
      apply Nat.pos_of_ne_zero
      exact fun hzero => hbytes (UInt32.toNat_inj.mp hzero)
    have heven : buffer.toNat % 2 = 0 := by
      rw [← toNat_and_one, heven, UInt32.toNat_zero]
    have hstart : Building.Built vm buffer bytes.toNat 0
        { prdtEntries, entries := 0, vaddr := buffer, remaining := bytes } := by
      refine ⟨⟨hlength, Nat.zero_le _, fun e he => absurd he List.not_mem_nil⟩, ?_, rfl, rfl,
        fun hlt => absurd hlt (Nat.lt_irrefl 0), .inl rfl⟩
      exact (UInt32.add_zero buffer).symm
    obtain ⟨n, table, hloop, hcomplete⟩ :=
      hstart.loop heven hend hpos (fun i hi => absurd hi (Nat.not_lt_zero i)) hfuel
    refine ⟨n, table, hloop, hcomplete, fun hnone => ?_⟩
    by_contra hne
    obtain ⟨-, -, hall, -⟩ := hcomplete.all hne
    have hle : (table.take n.toNat).length ≤ ahciMaxPrdt :=
      (List.length_take_le' _ _).trans_eq hcomplete.length
    exact hnone _ hle hall

/-- Every page is mapped to itself. -/
def identity : PageTables where
  pageDirectory _ := vmPresent
  staticPageTables pdIndex ptIndex := (pdIndex <<< 22) ||| (ptIndex <<< 12) ||| vmPresent

/-- A table as `memset` leaves it. -/
def clearTable : List PrdtEntry :=
  List.replicate ahciMaxPrdt
    { dataBaseAddr := 0, dataBaseAddrUpper := 0, byteCount := 0, interrupt := false }

/-- Two pages that are adjacent in physical memory. -/
theorem ahciBuildPrdt_complete_adjacent :
    ∃ n table, ahciBuildPrdt 5 identity clearTable 4094 4 = some (n, table) ∧
      Building.Complete identity 4094 (4 : UInt32).toNat n table ∧
      ((∀ entries : List PrdtEntry, entries.length ≤ ahciMaxPrdt →
        described entries ≠ identity.addresses 4094 0 (4 : UInt32).toNat) → n = -1) :=
  ahciBuildPrdt_complete identity clearTable List.length_replicate 4094 4 (by decide) 5 (by decide)

end AvrKernel.Drivers

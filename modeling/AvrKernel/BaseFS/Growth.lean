import AvrKernel.BaseFS.Isolation

/-!
# Growth that fails

A file grows by one extent after the other, and nothing is undone when a request
is refused. What was allocated until then stays allocated.
-/

namespace AvrKernel.BaseFS

open Bytes Effect

namespace Store

variable {g : FSGeometry} {S S' : Store g} {d d' : Device} {es added : List Extent}
  {next : UInt32}

theorem eq_of_cells (h : S'.cells = S.cells) : S' = S := by
  cases S
  cases S'
  cases h
  rfl

theorem Linked.cells_eq (h : S.Linked es next) (h' : S'.Linked es next) :
    ∀ a ∈ es.map Extent.address, S'.cells a = S.cells a := by
  induction es with
  | nil => exact fun a ha => absurd ha List.not_mem_nil
  | cons e es ih =>
      intro a ha
      rw [List.map_cons, List.mem_cons] at ha
      rcases ha with rfl | ha
      · rw [h'.1, h.1]
      · exact ih h.2 h'.2 a ha

/-- What is linked behind a chain changes no sizes in the chain. -/
theorem Linked.length_eq (h : S.Linked es fsNull) (h' : S'.Linked (es ++ added) fsNull) :
    ∀ a ∈ es.map Extent.address,
      (S'.cells a).map List.length = (S.cells a).map List.length := by
  induction es with
  | nil => exact fun a ha => absurd ha List.not_mem_nil
  | cons e es ih =>
      intro a ha
      rw [List.map_cons, List.mem_cons] at ha
      rcases ha with rfl | ha
      · rw [h'.1, h.1, Option.map_some, Option.map_some, Extent.bytes_length, Extent.bytes_length]
      · exact ih h.2 h'.2 a ha

/-- The device is as before: it holds the same allocations, and its bitmap is the same. -/
def Unchanged (S : Store g) (d d' : Device) : Prop :=
  d'.Holds S ∧ ∀ i < g.blockCount.toNat, d'.bit i = d.bit i

/-- There is room for all extents of the growth, taken one after the other. -/
def Grows (S : Store g) (n : Nat) (growth : UInt32) : Prop := (FS.fills g n S.free growth).1 = true

/-- There is no room for the first extent of the growth. -/
def Refuses (S : Store g) (growth : UInt32) : Prop :=
  S.fit (12 + FS.chunkAllocation g.sectorSize growth) = none

end Store

namespace FS.Grown

variable {g : FSGeometry} {S S' : Store g} {d d' : Device} {address : UInt32}
  {es added : List Extent}

theorem eq_of_nil (h : Grown S S' address es []) (hlinked : S.Linked es fsNull) : S' = S := by
  obtain ⟨hlinked', -, -, hkept⟩ := h
  rw [List.append_nil] at hlinked' hkept
  refine Store.eq_of_cells (funext fun a => ?_)
  by_cases hin : a ∈ es.map Extent.address
  · exact hlinked.cells_eq hlinked' a hin
  · exact hkept a hin

/-- An extent that was added takes a block that was free. -/
theorem exists_used (h : Grown S S' address es added) (hlinked : S.Linked es fsNull)
    (hadded : added ≠ []) :
    ∃ i < g.blockCount.toNat, g.reservedBlocks.toNat ≤ i ∧ ¬S.Used i ∧ S'.Used i := by
  obtain ⟨x, rest, rfl⟩ := List.exists_cons_of_ne_nil hadded
  have hnew : S.cells x.address = none := h.fresh x.address List.mem_cons_self
  obtain ⟨-, hcell, -⟩ := Store.linked_append.mp h.linked
  have hplaced := S'.placed hcell
  have hcount := Allocation.count_pos S'.geometry
    ⟨x.address, .ofNat (x.bytes (Extent.link rest fsNull)).length⟩
  have hge := hplaced.ge
  have hfits := hplaced.fits
  refine ⟨_, by omega, hge, ?_, x.address, _, hcell, Nat.le_refl _, by omega⟩
  rintro ⟨b, p, hb, hcovers⟩
  have hne : b ≠ x.address := fun heq => by
    rw [heq, hnew] at hb
    cases hb
  -- the allocation that took the block before is still there, and of the same size
  have hlength : (S'.cells b).map List.length = (S.cells b).map List.length := by
    by_cases hin : b ∈ (es ++ x :: rest).map Extent.address
    · rw [List.map_append, List.mem_append] at hin
      rcases hin with hin | hin
      · exact hlinked.length_eq h.linked b hin
      · rw [h.fresh b hin] at hb
        cases hb
    · rw [h.kept b hin]
  rw [hb, Option.map_some, Option.map_eq_some_iff] at hlength
  obtain ⟨q, hq, hlength⟩ := hlength
  have hapart := S'.disjoint hq hcell hne
  rw [hlength] at hapart
  obtain ⟨hlow, hhigh⟩ := hcovers
  rcases hapart with hapart | hapart <;> omega

/-- Growth that failed left the device as it was if and only if it added nothing. -/
theorem unchanged_iff (hd : d.Holds S) (hd' : d'.Holds S') (h : Grown S S' address es added)
    (hlinked : S.Linked es fsNull) : S.Unchanged d d' ↔ added = [] := by
  constructor
  · intro hsame
    by_contra hadded
    obtain ⟨i, hlt, hge, hfree, hused⟩ := h.exists_used hlinked hadded
    have hbit := (hd.bit_iff hlt).not.mpr (not_or.mpr ⟨by omega, hfree⟩)
    rw [← hsame.2 i hlt] at hbit
    exact hbit ((hd'.bit_iff hlt).mpr (.inr hused))
  · rintro rfl
    obtain rfl := h.eq_of_nil hlinked
    exact ⟨hd', fun i hlt => Bool.eq_iff_iff.mpr ((hd'.bit_iff hlt).trans (hd.bit_iff hlt).symm)⟩

end FS.Grown

namespace FS

variable {g : FSGeometry} {n : Nat} {S S' : Store g} {d d' : Device} {address newSize : UInt32}
  {file : FSFileHeader} {es : List Extent}

/-- Growth that does not go through gets no extent at all only if the first one is refused. -/
theorem fills_fst_zero {growth : UInt32} {k : Nat} (hn : 0 < n) (hgrowth : growth ≠ 0)
    (hfills : fills g n S.free growth = (false, k)) : k = 0 ↔ S.Refuses growth := by
  obtain ⟨n, rfl⟩ := obtain_succ hn
  rw [Store.Refuses, Store.fit]
  rw [fills, if_neg hgrowth] at hfills
  dsimp only at hfills
  split at hfills
  next hnone => simp [hnone, (Prod.mk.inj hfills).2.symm]
  next s hsome => simp [hsome, (Prod.mk.inj hfills).2.symm]

/-- `fs_file_resize` with a larger size grows the file. -/
theorem ensures_resizeGrow (hn : 2 ^ 32 ≤ n) (hchain : S.ChainAt address file es)
    (hless : file.totalLogicalSize < newSize) {post : Bool → Store g → Prop}
    (hsome : ∀ S' : Store g, S.Grows n (newSize - file.totalLogicalSize) → post true S')
    (hnone : ∀ (S' : Store g) (added : List Extent), Grown S S' address es added →
      fills g n S.free (newSize - file.totalLogicalSize) = (false, added.length) →
        post false S') :
    (world g n (fun _ _ => True) fun _ _ => True).Ensures (fsFileResize address newSize) S
      post := by
  rw [fsFileResize]
  refine Refine.ensures_bind (ensures_check hchain ?_)
  rw [if_pos rfl]
  refine Refine.ensures_bind (ensures_readFile hchain ?_)
  rw [if_neg (UInt32.ne_of_lt hless), if_neg (UInt32.lt_asymm hless)]
  refine ensures_grow hn hchain hless (fun _ _ _ => trivial)
    (fun S' _ added _ _ _ _ _ hfills => hsome S' ?_)
    fun S' added hgrown _ hfills => hnone S' added hgrown hfills
  rw [Store.Grows, hfills]

/-- A handle open for writing the file at `address`. -/
structure WritesAt (handle : FileHandle) (address : UInt32) : Prop where
  address : handle.address = address
  ctx : handle.ctx ≠ 0
  isOpen : handle.isOpen = true
  write : hasFlag handle.mode fsFileModeWrite = true

/-- `fs_file_write` past the end of the file first resizes it, and gives up if that fails. -/
theorem ensures_writeRefused (hn : 2 ^ 32 ≤ n) (hchain : S.ChainAt address file es)
    {handle : FileHandle} (hhandle : WritesAt handle address) {source : List UInt8} {size : UInt32}
    (hsize : size ≠ 0) (hless : file.totalLogicalSize < handle.position + size)
    (hroom : ¬S.Grows n (handle.position + size - file.totalLogicalSize))
    {post : UInt32 × FileHandle → Store g → Prop}
    (hnone : ∀ (S' : Store g) (added : List Extent), Grown S S' address es added →
      fills g n S.free (handle.position + size - file.totalLogicalSize) = (false, added.length) →
        post (0, handle) S') :
    (world g n (fun _ _ => True) fun _ _ => True).Ensures (fsFileWrite handle source size) S
      post := by
  obtain ⟨rfl, hctx, hopen, hwrite⟩ := hhandle
  rw [fsFileWrite, fsFileStructIsValid, if_neg (by simp [hctx, hopen])]
  refine Refine.ensures_bind (ensures_check hchain ?_)
  rw [if_pos rfl, hwrite, Bool.not_true, if_neg Bool.false_ne_true, if_neg hsize]
  refine Refine.ensures_bind (ensures_getSize hchain ?_)
  rw [if_pos hless]
  refine Refine.ensures_bind (ensures_resizeGrow hn hchain hless
    (fun S' hgrows => absurd hgrows hroom) fun S' added hgrown hfills => ?_)
  rw [if_neg Bool.false_ne_true]
  exact Refine.ensures_ret (hnone S' added hgrown hfills)

end FS

section

variable {g : FSGeometry} {n : Nat} {S : Store g} {d : Device} {address newSize : UInt32}
  {file : FSFileHeader} {es : List Extent}

theorem FS.Grown.unchanged_iff_refuses {d' : Device} {S' : Store g} {added : List Extent}
    (hgrown : FS.Grown S S' address es added)
    (hn : 2 ^ 32 ≤ n) (hd : d.Holds S) (hd' : d'.Holds S') (hchain : S.ChainAt address file es)
    (hless : file.totalLogicalSize < newSize)
    (hfills : FS.fills g n S.free (newSize - file.totalLogicalSize) = (false, added.length)) :
    S.Unchanged d d' ↔ S.Refuses (newSize - file.totalLogicalSize) := by
  have hgrowth : newSize - file.totalLogicalSize ≠ 0 := by
    intro hzero
    have hlow := UInt32.lt_iff_toNat_lt.mp hless
    have hsub := Mem.toNat_sub_of_le (Nat.le_of_lt hlow)
    rw [hzero, UInt32.toNat_zero] at hsub
    omega
  rw [hgrown.unchanged_iff hd hd' hchain.linked, ← List.length_eq_zero_iff]
  exact FS.fills_fst_zero (by omega) hgrowth hfills

/-- Growing a file answers whether there is room for all of it. -/
theorem Device.Holds.resizeGrow (hn : 2 ^ 32 ≤ n) (hd : d.Holds S)
    (hchain : S.ChainAt address file es) (hless : file.totalLogicalSize < newSize) :
    ∃ (ok : Bool) (d' : Device),
      (FS.fsFileResize address newSize).run n Device.handle d = some (ok, d') ∧
      (ok = true ↔ S.Grows n (newSize - file.totalLogicalSize)) ∧
      (ok = false → (S.Unchanged d d' ↔ S.Refuses (newSize - file.totalLogicalSize))) := by
  have hresize : (world g n (fun _ _ => True) fun _ _ => True).Ensures
      (FS.fsFileResize address newSize) S fun ok S' =>
        (ok = true ↔ S.Grows n (newSize - file.totalLogicalSize)) ∧
        (ok = false → ∃ added : List Extent, FS.Grown S S' address es added ∧
          FS.fills g n S.free (newSize - file.totalLogicalSize) = (false, added.length)) := by
    refine FS.ensures_resizeGrow hn hchain hless (fun S' hgrows => ⟨?_, fun h => by cases h⟩)
      fun S' added hgrown hfills => ⟨?_, fun _ => ⟨added, hgrown, hfills⟩⟩
    · exact ⟨fun _ => hgrows, fun _ => rfl⟩
    · simp [Store.Grows, hfills]
  obtain ⟨ok, d', S', hrun, hd', hok, hfailed⟩ := hd.run_of_ensures hresize
  refine ⟨ok, d', hrun, hok, fun hfalse => ?_⟩
  obtain ⟨added, hgrown, hfills⟩ := hfailed hfalse
  exact hgrown.unchanged_iff_refuses hn hd hd' hchain hless hfills

/-- A resize that fails, and a write whose growth fails, leave the device as it was if and only
if the very first extent was refused: what was allocated before a later refusal stays. -/
theorem failed_growth_kept_iff (hn : 2 ^ 32 ≤ n) (hd : d.Holds S)
    (hchain : S.ChainAt address file es) (hless : file.totalLogicalSize < newSize) :
    (∃ (ok : Bool) (d' : Device),
      (FS.fsFileResize address newSize).run n Device.handle d = some (ok, d') ∧
      (ok = true ↔ S.Grows n (newSize - file.totalLogicalSize)) ∧
      ((ok = false → S.Unchanged d d') ↔
        S.Grows n (newSize - file.totalLogicalSize) ∨
          S.Refuses (newSize - file.totalLogicalSize))) ∧
    ∀ (handle : FileHandle) (source : List UInt8) (size : UInt32), FS.WritesAt handle address →
      size ≠ 0 → handle.position + size = newSize →
      ¬S.Grows n (newSize - file.totalLogicalSize) →
        ∃ d' : Device,
          (FS.fsFileWrite handle source size).run n Device.handle d = some ((0, handle), d') ∧
          (S.Unchanged d d' ↔ S.Refuses (newSize - file.totalLogicalSize)) := by
  refine ⟨?_, fun handle source size hhandle hsize hsum hroom => ?_⟩
  · obtain ⟨ok, d', hrun, hok, hfailed⟩ := hd.resizeGrow hn hchain hless
    refine ⟨ok, d', hrun, hok, ?_⟩
    cases ok with
    | true => simp [hok.mp rfl]
    | false =>
        have hroom : ¬S.Grows n (newSize - file.totalLogicalSize) :=
          fun hgrows => Bool.false_ne_true (hok.mpr hgrows)
        rw [or_iff_right hroom, ← hfailed rfl]
        exact ⟨fun h => h rfl, fun h _ => h⟩
  · subst hsum
    have hwrite : (world g n (fun _ _ => True) fun _ _ => True).Ensures
        (FS.fsFileWrite handle source size) S fun result S' => result = (0, handle) ∧
          ∃ added : List Extent, FS.Grown S S' address es added ∧
            FS.fills g n S.free (handle.position + size - file.totalLogicalSize) =
              (false, added.length) :=
      FS.ensures_writeRefused hn hchain hhandle hsize hless hroom
        fun S' added hgrown hfills => ⟨rfl, added, hgrown, hfills⟩
    obtain ⟨result, d', S', hrun, hd', rfl, added, hgrown, hfills⟩ := hd.run_of_ensures hwrite
    exact ⟨d', hrun, hgrown.unchanged_iff_refuses hn hd hd' hchain hless hfills⟩

end

/-- On a device with sixteen blocks an empty file cannot grow to 5000 bytes: the first extent is
refused, and nothing changes. -/
theorem failed_growth_kept_iff_small : ∃ (n : Nat) (d d' : Device) (S : Store smallGeometry)
    (address : UInt32), S.FileAt address emptyFile [] ∧
    (FS.fsFileResize address 5000).run n Device.handle d = some (false, d') ∧
      S.Unchanged d d' := by
  obtain ⟨_, d, S, address, -, -, hd, hfile, hfree⟩ :=
    exists_emptyFile_of 1024 (g := smallGeometry) rfl (by decide) (by decide)
      ⟨by decide, by decide⟩
  have hless : emptyFile.totalLogicalSize < (5000 : UInt32) := by decide
  obtain ⟨⟨ok, d', hrun, hok, hkept⟩, -⟩ :=
    failed_growth_kept_iff (n := 2 ^ 32) (Nat.le_refl _) hd hfile.chain hless
  have hgrows : ¬S.Grows (2 ^ 32) (5000 - emptyFile.totalLogicalSize) := by
    rw [Store.Grows, hfree]
    decide +kernel
  have hrefuses : S.Refuses (5000 - emptyFile.totalLogicalSize) := by
    rw [Store.Refuses, Store.fit, hfree]
    decide +kernel
  obtain rfl : ok = false := Bool.eq_false_iff.mpr fun h => hgrows (hok.mp h)
  exact ⟨2 ^ 32, d, d', S, address, hfile, hrun, hkept.mpr (.inr hrefuses) rfl⟩

/-- A device of 8192 bytes in blocks of 64. -/
abbrev wideGeometry : FSGeometry := .ofPartition .ata (Device.formatPartition 8192 64)

theorem exists_wideFile : ∃ (d : Device) (S : Store wideGeometry) (address : UInt32),
    d.Holds S ∧ S.FileAt address emptyFile [] ∧ S.free = FirstFit.occupy (fun _ => true) 1 1 := by
  obtain ⟨_, d, S, address, -, -, hd, hfile, hfree⟩ :=
    exists_emptyFile_of 8192 (g := wideGeometry) rfl (by decide) (by decide)
      ⟨by decide, by decide⟩
  exact ⟨d, S, address, hd, hfile, hfree⟩

/-- On it an empty file cannot grow to 8080 bytes: the second extent is refused, and the first
one stays allocated. -/
theorem failed_growth_not_kept : ∃ (n : Nat) (d d' : Device) (S : Store wideGeometry)
    (address : UInt32), 2 ^ 32 ≤ n ∧ d.Holds S ∧ S.FileAt address emptyFile [] ∧
    (FS.fsFileResize address 8080).run n Device.handle d = some (false, d') ∧
      ¬S.Unchanged d d' := by
  obtain ⟨d, S, address, hd, hfile, hfree⟩ := exists_wideFile
  have hless : emptyFile.totalLogicalSize < (8080 : UInt32) := by decide
  obtain ⟨ok, d', hrun, hok, hkept⟩ := hd.resizeGrow (n := 2 ^ 32) (Nat.le_refl _) hfile.chain hless
  have hfills : FS.fills wideGeometry (2 ^ 32) S.free (8080 - emptyFile.totalLogicalSize) =
      (false, 1) := by
    rw [hfree]
    decide +kernel
  have hrefuses : ¬S.Refuses (8080 - emptyFile.totalLogicalSize) := by
    rw [Store.Refuses, Store.fit, hfree]
    decide +kernel
  obtain rfl : ok = false := by
    rw [Bool.eq_false_iff, ne_eq, hok, Store.Grows, hfills]
    exact Bool.false_ne_true
  exact ⟨2 ^ 32, d, d', S, address, Nat.le_refl _, hd, hfile, hrun,
    fun hsame => hrefuses ((hkept rfl).mp hsame)⟩

end AvrKernel.BaseFS

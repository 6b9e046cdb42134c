import AvrKernel.Kernel.HeapRun

/-!
# The allocations in order

`kmalloc_next` goes from one allocation to the next one. What lies between them is free, so a
block that is used is where the next header is.
-/

namespace AvrKernel.Kernel

open Bytes Effect KernelM

variable {n : Nat} {k k' : KernelState} {live live' : List Allocation} {a : Allocation}

/-- From a block on, these allocations use the blocks. -/
abbrev KernelState.LaidFrom (k : KernelState) (block : Nat) (sorted : List Allocation) : Prop :=
  Intervals.Laid (Allocation.start k.heap) (Allocation.blocks k.heap) k.bit
    k.heap.blockCount.toNat block sorted

/-- The address of the first of them. -/
def firstAddress : List Allocation → UInt32
  | [] => kmallocNull
  | a :: _ => a.address

theorem KernelState.Holds.address_eq (ha : k.Holds a) (h : k.heap.Placed) {block : UInt32}
    (hblock : a.start k.heap = block.toNat) : block * k.heap.blockSize = a.place k.heap := by
  have hend := Nat.mul_le_mul_right k.heap.blockSize.toNat ha.lies.below
  have hpool := h.blocks
  have hinside := h.inside
  rw [Nat.add_mul] at hend
  apply UInt32.toNat_inj.mp
  rw [UInt32.toNat_mul, ha.lies.aligned, hblock, Nat.mod_eq_of_lt]
  rw [hblock] at hend
  omega

/-- The search stops at the first allocation. -/
theorem run_nextHeader (hall : k.Allocated live) {sorted : List Allocation}
    (hsorted : ∀ a ∈ sorted, a ∈ live) (remaining : Nat) (block : UInt32)
    (hremaining : k.heap.blockCount.toNat - block.toNat = remaining)
    (hlaid : k.LaidFrom block.toNat sorted) :
    (nextHeader k.heap remaining block).run n KernelState.handle k =
      some (firstAddress sorted, k) := by
  have hcount := k.heap.blockCount.toNat_lt
  induction remaining generalizing block with
  | zero =>
      rw [hlaid.eq_nil (by omega)]
      rfl
  | succ remaining ih =>
      have hnext : (block + 1).toNat = block.toNat + 1 := Mem.toNat_add_ofNat (k := 1) (by omega)
      rw [nextHeader, Prog.run_bind, run_blockIsUsed, Option.bind_some]
      by_cases hbit : k.bit block.toNat = true
      · obtain ⟨a, rest, rfl, hstart, -, -⟩ := hlaid.head_of_used (by omega) hbit
        have ha := hsorted a (List.mem_cons_self ..)
        have hholds := hall.holds a ha
        have hspells := hall.spellsHeader ha
        have hplace := hholds.address_eq hall.placed hstart
        have hheader : ¬((k.header (a.place k.heap)).magic ≠ kmallocMagic ∨
            (k.header (a.place k.heap)).size = 0) :=
          not_or.mpr ⟨not_not.mpr hholds.magic, hspells.size⟩
        have habove : ¬a.place k.heap < kmallocHeapDataBegin k.heap := by
          rw [UInt32.lt_iff_toNat_lt, hall.placed.dataBegin_toNat]
          exact Nat.not_lt.mpr hspells.above
        have hbelow : ¬a.place k.heap + kmallocHeaderSize ≥ k.heap.poolSize := by
          have hinside := hall.placed.inside
          have hpool := hspells.below
          have hsum : (a.place k.heap + kmallocHeaderSize).toNat = (a.place k.heap).toNat + 16 :=
            Mem.toNat_add_of_lt (by rw [headerSize_toNat]; omega)
          rw [ge_iff_le, UInt32.le_iff_toNat_le, hsum]
          omega
        rw [if_pos hbit, hplace, if_neg habove, Prog.run_bind, run_headerRead, Option.bind_some,
          if_neg hheader, if_neg hbelow]
        have haddress := add_headerOf k.heap a.address
        exact congrArg (fun address => some (address, k)) haddress
      · rw [if_neg hbit]
        apply ih (block + 1) (by omega)
        rw [hnext]
        exact hlaid.succ (by simpa using hbit)

theorem KernelState.Allocated.address_toNat (hall : k.Allocated live) (ha : a ∈ live) :
    a.address.toNat = k.heap.heapBegin.toNat + (a.place k.heap).toNat + 16 := by
  have hpool := (hall.spellsHeader ha).below
  have hinside := hall.placed.inside
  have hnat := congrArg UInt32.toNat (add_headerOf k.heap a.address)
  have hplace : (headerOf k.heap a.address).toNat = (a.place k.heap).toNat := rfl
  rw [UInt32.toNat_add, UInt32.toNat_add, headerSize_toNat, hplace] at hnat
  omega

theorem KernelState.Allocated.address_ne (hall : k.Allocated live) (ha : a ∈ live) :
    a.address ≠ kmallocNull := by
  have hpool := (hall.spellsHeader ha).below
  have hinside := hall.placed.inside
  have hnat := hall.address_toNat ha
  intro hnull
  rw [hnull, show kmallocNull.toNat = 2 ^ 32 - 1 from rfl] at hnat
  omega

/-- Behind an allocation the search goes on with the next one. -/
theorem run_kmallocNext_live (hall : k.Allocated live) {sorted : List Allocation}
    (hsorted : ∀ b ∈ sorted, b ∈ live) (ha : a ∈ live)
    (hlaid : k.LaidFrom (a.start k.heap + a.blocks k.heap) sorted) :
    (kmallocNext a.address).run n KernelState.handle k = some (firstAddress sorted, k) := by
  have hspells := hall.spellsHeader ha
  have hholds := hall.holds a ha
  have hcount := k.heap.blockCount.toNat_lt
  have hbelow := hholds.lies.below
  have hnull := hall.address_ne ha
  obtain ⟨valid, hvalid, hiff⟩ := run_isValid (n := n) hall.placed a.address
  have htrue : valid = true := hiff.mpr hspells
  have hend : (headerOf k.heap a.address / k.heap.blockSize +
      kmallocBlocksRequired k.heap (a.size + kmallocHeaderSize)).toNat =
      a.start k.heap + a.blocks k.heap := by
    rw [Mem.toNat_add_of_lt]
    · rfl
    · exact Nat.lt_of_le_of_lt hbelow hcount
  have hheader : (k.header (headerOf k.heap a.address)).size = a.size := hholds.size
  rw [kmallocNext, Prog.run_bind, run_heap, Option.bind_some, if_neg hnull, Prog.run_bind, hvalid,
    Option.bind_some, htrue, if_pos rfl, Prog.run_bind, run_headerRead, Option.bind_some]
  simp only [hheader]
  apply run_nextHeader hall hsorted
  · rfl
  · rwa [hend]

theorem run_kmallocNext_null (hall : k.Allocated live) {sorted : List Allocation}
    (hsorted : ∀ b ∈ sorted, b ∈ live) (hlaid : k.LaidFrom k.heap.reservedBlocks.toNat sorted) :
    (kmallocNext kmallocNull).run n KernelState.handle k = some (firstAddress sorted, k) := by
  rw [kmallocNext, Prog.run_bind, run_heap, Option.bind_some, if_pos rfl]
  exact run_nextHeader hall hsorted _ _ rfl hlaid

/-! ## The whole enumeration -/

/-- What `kmalloc_next` visits behind an address, up to its end. -/
inductive Visits (n : Nat) (k : KernelState) : UInt32 → List UInt32 → Prop
  | done {previous : UInt32}
      (hrun : (kmallocNext previous).run n KernelState.handle k = some (kmallocNull, k)) :
      Visits n k previous []
  | next {previous address : UInt32} {rest : List UInt32}
      (hrun : (kmallocNext previous).run n KernelState.handle k = some (address, k))
      (hlive : address ≠ kmallocNull) (hrest : Visits n k address rest) :
      Visits n k previous (address :: rest)

theorem visits_behind (hall : k.Allocated live) {sorted : List Allocation}
    (hsorted : ∀ b ∈ sorted, b ∈ live) (ha : a ∈ live)
    (hlaid : k.LaidFrom (a.start k.heap + a.blocks k.heap) sorted) :
    Visits n k a.address (sorted.map Allocation.address) := by
  have hrun := run_kmallocNext_live (n := n) hall hsorted ha hlaid
  induction sorted generalizing a with
  | nil => exact .done hrun
  | cons b rest ih =>
      have hb := hsorted b (List.mem_cons_self ..)
      have hrest : ∀ c ∈ rest, c ∈ live := fun c hc => hsorted c (List.mem_cons_of_mem _ hc)
      have hbehind := hlaid.2.2.2.2.2
      exact .next hrun (hall.address_ne hb)
        (ih hrest hb hbehind (run_kmallocNext_live hall hrest hb hbehind))

theorem visits_laid (hall : k.Allocated live) {sorted : List Allocation}
    (hsorted : ∀ b ∈ sorted, b ∈ live) (hlaid : k.LaidFrom k.heap.reservedBlocks.toNat sorted) :
    Visits n k kmallocNull (sorted.map Allocation.address) := by
  have hrun := run_kmallocNext_null (n := n) hall hsorted hlaid
  cases sorted with
  | nil => exact .done hrun
  | cons b rest =>
      have hb := hsorted b (List.mem_cons_self ..)
      exact .next hrun (hall.address_ne hb) (visits_behind hall
        (fun c hc => hsorted c (List.mem_cons_of_mem _ hc)) hb hlaid.2.2.2.2.2)

/-- Every allocation is visited, from the lowest address to the highest one. -/
theorem KernelState.Allocated.visits (hall : k.Allocated live) :
    ∃ addresses, Visits n k kmallocNull addresses ∧ addresses.Pairwise (· < ·) ∧
      addresses.Perm (live.map Allocation.address) := by
  have hroom := hall.placed.bits
  have hexists : ∃ sorted : List Allocation, sorted.Perm live ∧
      k.LaidFrom k.heap.reservedBlocks.toNat sorted :=
    Intervals.exists_laid (fun a ha => ⟨(hall.holds a ha).lies.blocks_pos,
      (hall.holds a ha).lies.above, (hall.holds a ha).lies.below⟩) hall.apart
      fun i hlo hhi => hall.bits i hlo (by omega)
  obtain ⟨sorted, hperm, hlaid⟩ := hexists
  have hsorted : ∀ b ∈ sorted, b ∈ live := fun b hb => hperm.mem_iff.mp hb
  refine ⟨sorted.map Allocation.address, visits_laid hall hsorted hlaid, ?_, hperm.map _⟩
  rw [List.pairwise_map]
  refine hlaid.pairwise.imp_of_mem fun {a b} ha hb hlt => ?_
  have hmul := Nat.mul_lt_mul_of_pos_right hlt hall.placed.blockSize_pos
  rw [← (hall.holds a (hsorted a ha)).lies.aligned, ← (hall.holds b (hsorted b hb)).lies.aligned]
    at hmul
  rw [UInt32.lt_iff_toNat_lt, hall.address_toNat (hsorted a ha), hall.address_toNat (hsorted b hb)]
  omega

/-! ## The heap over a run -/

/-- `kmalloc` of a size that can be rounded up, `kfree` of an allocation, or a caller that writes
into its own. -/
def HeapCall.Plain (call : HeapCall) (k : KernelState) (live : List Allocation) : Prop :=
  match call with
  | kmalloc size => size.toNat + 16 + k.heap.blockSize.toNat - 1 < 2 ^ 32
  | kfree address => IsLive live address
  | write destination source => InPayload live destination source.length
  | setFlags .. | setType .. | setPermissions .. => False

instance (call : HeapCall) (k : KernelState) (live : List Allocation) :
    Decidable (call.Plain k live) :=
  match call with
  | .kmalloc size => inferInstanceAs (Decidable (size.toNat + 16 + k.heap.blockSize.toNat - 1 < _))
  | .kfree address => inferInstanceAs (Decidable (IsLive live address))
  | .write destination _ => inferInstanceAs (Decidable (InPayload live destination _))
  | .setFlags .. | .setType .. | .setPermissions .. => inferInstanceAs (Decidable False)

/-- Headers are what `kmalloc` has written. -/
def KernelState.Intact (k : KernelState) (live : List Allocation) : Prop :=
  ∀ a ∈ live, k.header (a.place k.heap) = newHeader a.size

/-- A call of the heap leaves an allocation alone. -/
def HeapCall.Spares (k k' : KernelState) (a : Allocation) : HeapCall → Prop
  | kmalloc _ | kfree _ => k.Keeps k' a
  | write .. => k'.header (a.place k.heap) = k.header (a.place k.heap)
  | setFlags .. | setType .. | setPermissions .. => True

theorem KernelState.Allocated.plain (hall : k.Allocated live) {call : HeapCall}
    (hcall : call.Plain k live) : call.Harmless k live := by
  have hpos := hall.placed.blockSize_pos
  cases call with
  | kmalloc size =>
      simp only [HeapCall.Plain, HeapCall.Harmless] at hcall ⊢
      omega
  | kfree address => exact .inl hcall
  | setFlags | setType | setPermissions => exact hcall.elim
  | write destination source => exact hcall

/-- What a call does to what stays allocated, and the header of what is new. -/
theorem KernelState.Allocated.spares (hall : k.Allocated live) {call : HeapCall}
    (hcall : call.Plain k live) (hstep : call.step n k live = some (k', live')) :
    k'.heap = k.heap ∧ (∀ a ∈ live', a ∈ live → call.Spares k k' a) ∧
      ∀ a ∈ live', a ∈ live ∨ k'.header (a.place k.heap) = newHeader a.size := by
  have hharmless := hall.plain hcall
  cases call with
  | kmalloc size =>
      rcases run_kmalloc (n := n) hall.placed hharmless with hrun | hrun
        | ⟨address, k₁, hrun, hgives⟩
      · rw [HeapCall.step, hrun] at hstep
        cases hstep
      · rw [HeapCall.step, hrun] at hstep
        cases hstep
        exact ⟨rfl, fun _ _ _ _ _ => rfl, fun a ha => .inl ha⟩
      · have hnull : address ≠ kmallocNull := hgives.notNull
        simp only [HeapCall.step, hrun, Option.map_some, if_neg hnull] at hstep
        cases hstep
        refine ⟨hgives.heap, fun a _ ha => hgives.keeps hall hharmless ha, fun a ha => ?_⟩
        rcases List.mem_cons.mp ha with rfl | ha
        · exact .inr hgives.header
        · exact .inl ha
  | kfree address =>
      obtain ⟨a, ha, rfl⟩ := hcall
      obtain ⟨k₁, hrun, htakes⟩ := run_kfree (n := n) hall ha
      rw [HeapCall.step, hrun] at hstep
      cases hstep
      refine ⟨htakes.heap, fun b hb hmem => ?_, fun b hb => .inl (mem_without.mp hb).1⟩
      exact htakes.keeps hall ha hmem fun heq =>
        (mem_without.mp hb).2 (congrArg Allocation.address heq.symm)
  | setFlags | setType | setPermissions => exact hcall.elim
  | write destination source =>
      obtain ⟨a, ha, offset, rfl, hinside⟩ := hcall
      rw [HeapCall.step, KernelState.write_payload] at hstep
      cases hstep
      refine ⟨rfl, fun b _ hb => ?_, fun b hb => .inl hb⟩
      by_cases hne : a = b
      · rw [← hne]
        exact (hall.write ha hinside).2
      · exact (hall.write_keeps ha hb hne hinside).header_eq rfl

theorem KernelState.Intact.step (hintact : k.Intact live) (hall : k.Allocated live)
    {call : HeapCall} (hcall : call.Plain k live)
    (hstep : call.step n k live = some (k', live')) : k'.Intact live' := by
  obtain ⟨hheap, hspares, hnew⟩ := hall.spares hcall hstep
  intro a ha
  rw [hheap]
  rcases hnew a ha with hold | hheader
  · have hspare := hspares a ha hold
    rw [← hintact a hold]
    cases call with
    | kmalloc | kfree => exact KernelState.Keeps.header_eq hspare hheap
    | setFlags | setType | setPermissions => exact hcall.elim
    | write => exact hspare
  · exact hheader

theorem HeapRun.intact {k₀ : KernelState} (h₀ : k₀.Allocated [])
    (hrun : HeapRun n HeapCall.Plain k₀ k live) : k.Allocated live ∧ k.Intact live := by
  induction hrun with
  | start => exact ⟨h₀, fun a ha => absurd ha List.not_mem_nil⟩
  | step _ hcall hstep ih =>
      exact ⟨ih.1.step (ih.1.plain hcall) hstep, ih.2.step ih.1 hcall hstep⟩

/-- A heap with allocations of its callers. -/
structure HeapSound (n : Nat) (k : KernelState) (live : List Allocation) : Prop where
  inside : ∀ a ∈ live, k.heap.reservedBlocks.toNat ≤ a.start k.heap ∧ 0 < a.blocks k.heap ∧
    a.start k.heap + a.blocks k.heap ≤ k.heap.blockCount.toNat ∧
    (a.place k.heap).toNat = a.start k.heap * k.heap.blockSize.toNat ∧
    16 + a.size.toNat ≤ a.blocks k.heap * k.heap.blockSize.toNat
  apart : live.Pairwise (Allocation.ApartIn k.heap)
  bits : ∀ i, k.heap.reservedBlocks.toNat ≤ i → i < 8 * k.heap.bitmapSize.toNat →
    (k.bit i = true ↔ ∃ a ∈ live, a.Covers k.heap i)
  intact : k.Intact live
  visits : ∃ addresses, Visits n k kmallocNull addresses ∧ addresses.Pairwise (· < ·) ∧
    addresses.Perm (live.map Allocation.address)
  spares : ∀ (call : HeapCall) k' live', call.Plain k live → call.step n k live = some (k', live') →
    ∀ a ∈ live', a ∈ live → call.Spares k k' a

/-- From `heap_init` on the blocks, the bitmap, the headers and `kmalloc_next` agree. -/
theorem heap_sound (n : Nat) {start k₀ k : KernelState} {blockSize totalMemory : UInt32}
    (hblock : 0 < blockSize.toNat) (htotal : 0 < totalMemory.toNat)
    (hinside : start.heap.heapBegin.toNat + totalMemory.toNat + 32 ≤ 2 ^ 32)
    (hinit : start.heapInit n blockSize totalMemory = some k₀) {live : List Allocation}
    (hrun : HeapRun n HeapCall.Plain k₀ k live) : HeapSound n k live := by
  obtain ⟨fresh, hfresh, hempty, -⟩ :=
    KernelState.heapInit_allocated (n := n) hblock htotal hinside
  rw [hinit] at hfresh
  cases hfresh
  obtain ⟨hall, hintact⟩ := hrun.intact hempty
  refine ⟨fun a ha => ?_, hall.apart, hall.bits, hintact, hall.visits,
    fun call k' live' hcall hstep => (hall.spares hcall hstep).2.1⟩
  have hlies := (hall.holds a ha).lies
  have hreach := hlies.reach_le hall.placed (hall.fits a ha)
  refine ⟨hlies.above, hlies.blocks_pos, hlies.below, hlies.aligned, ?_⟩
  rw [Nat.add_mul, ← hlies.aligned] at hreach
  omega

theorem heap_sound_small :
    ∃ k, HeapRun 0 HeapCall.Plain .small k [⟨0x1020, 30⟩, ⟨0x1070, 16⟩] ∧
      HeapSound 0 k [⟨0x1020, 30⟩, ⟨0x1070, 16⟩] := by
  -- the third allocation takes blocks of the first, which its holder has written to
  have hlive : (HeapCall.steps HeapCall.Plain 0 .small [] [.kmalloc 64, .kmalloc 16,
      .write 0x1024 [0x55, 1, 2], .write 0x1070 [7], .kfree 0x1020, .kmalloc 30]).map Prod.snd =
      some [⟨0x1020, 30⟩, ⟨0x1070, 16⟩] := by decide +kernel
  obtain ⟨⟨k, live⟩, hsteps, rfl⟩ := Option.map_eq_some_iff.mp hlive
  have hrun := HeapRun.start.steps hsteps
  exact ⟨k, hrun, heap_sound 0 (by decide) (by decide) (by decide) KernelState.heapInit_blank hrun⟩

end AvrKernel.Kernel

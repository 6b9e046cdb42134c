import AvrKernel.Kernel.Allocations

/-!
# Runs of the kernel heap

From `heap_init` on, `kmalloc`, `kfree` and the changes of headers in any order, with callers
that write into what they hold.
-/

namespace AvrKernel.Kernel

open Bytes Effect KernelM

variable {n : Nat} {k k' : KernelState} {live live' : List Allocation}

/-! ## The start -/

theorem memory_write_zeros {m : Mem} {start x : UInt32} {count : Nat} (hcount : count ≤ 2 ^ 32)
    (hzero : (x - start).toNat < count ∨ m x = 0) :
    m.write start (List.replicate count 0) x = 0 := by
  by_cases hin : (x - start).toNat < count
  · have hlength : (List.replicate count (0 : UInt8)).length = count := List.length_replicate
    have hwritten := Mem.write_apply_of_lt m start (hlength.trans_le hcount)
      (hin.trans_eq hlength.symm)
    rw [List.getElem?_replicate, if_pos hin] at hwritten
    exact Option.some.inj hwritten
  · rw [Mem.write_apply_of_ge _ _ (by simpa using hcount) (by simp; omega)]
    exact hzero.resolve_left hin

/-- A fresh heap has no allocations. -/
theorem KernelState.heapInit_allocated {blockSize totalMemory : UInt32}
    (hblock : 0 < blockSize.toNat) (htotal : 0 < totalMemory.toNat)
    (hinside : k.heap.heapBegin.toNat + totalMemory.toNat + 32 ≤ 2 ^ 32) :
    ∃ k', k.heapInit n blockSize totalMemory = some k' ∧ k'.Allocated [] ∧
      k'.heap = k.heap.init blockSize totalMemory ∧
      ∀ x : UInt32, 2 * k'.heap.bitmapSize.toNat ≤ (x - k'.heap.heapBegin).toNat →
        k'.memory x = k.memory x := by
  have hplaced := KernelHeap.placed_init hblock htotal hinside
  have hzero : ¬(blockSize = 0 ∨ totalMemory = 0) := by
    rw [← toNat_eq_zero_iff, ← toNat_eq_zero_iff]
    omega
  set heap := k.heap.init blockSize totalMemory with hheap
  have hlt := heap.bitmapSize.toNat_lt
  set k₁ : KernelState := { k with
    heap
    memory := (k.memory.write heap.bitmap (List.replicate heap.bitmapSize.toNat 0)).write heap.dirty
      (List.replicate heap.bitmapSize.toNat 0) } with hk₁
  have h₁ : k₁.heap.Placed := hplaced
  obtain ⟨k₂, hrun, hmarked, hbits⟩ := run_bitmapWrite (n := n) h₁
  refine ⟨k₂, ?_, ⟨?_, ?_, ?_, .nil, ?_⟩, hmarked.heap, ?_⟩
  · rw [KernelState.heapInit, if_neg hzero]
    simp only [clearBitmaps, kmemWrite, Prog.perform, Prog.call_bind, Prog.run_call]
    exact congrArg (Option.map Prod.snd) hrun
  · rwa [hmarked.heap]
  · exact fun a ha => absurd ha (List.not_mem_nil)
  · exact fun a ha => absurd ha (List.not_mem_nil)
  · intro i hlo hhi
    rw [hmarked.heap] at hlo hhi
    refine iff_of_false ?_ fun ⟨a, ha, _⟩ => absurd ha (List.not_mem_nil)
    have hplace : (k₁.heap.bitmap + .ofNat (i / 8) - k₁.heap.bitmap).toNat <
        k₁.heap.bitmapSize.toNat := by
      rw [UInt32.add_comm, UInt32.add_sub_cancel, UInt32.toNat_ofNat']
      exact (Nat.mod_le _ _).trans_lt (by omega)
    have hbyte : k₁.memory (k₁.heap.bitmap + .ofNat (i / 8)) = 0 :=
      memory_write_zeros (by omega) (.inr (memory_write_zeros (by omega) (.inl hplace)))
    rw [hbits i hhi, KernelState.bit, hbyte]
    simp
  · -- both bitmaps lie in front of it
    intro x hx
    rw [hmarked.heap] at hx
    have hbeyond : 2 * heap.bitmapSize.toNat ≤ (x - heap.heapBegin).toNat := hx
    have hlength : (List.replicate heap.bitmapSize.toNat (0 : UInt8)).length =
        heap.bitmapSize.toNat := List.length_replicate
    have hfirst : heap.bitmapSize.toNat ≤ (x - heap.bitmap).toNat := by
      rw [h₁.bitmap]
      exact Nat.le_trans (Nat.le_mul_of_pos_left _ (by decide)) hbeyond
    have hsecond : heap.bitmapSize.toNat ≤ (x - heap.dirty).toNat := by
      have hdirty : heap.dirty = heap.heapBegin + heap.bitmapSize := h₁.dirty
      have hbegin := heap.heapBegin.toNat_lt
      have hlast := x.toNat_lt
      rw [hdirty]
      simp only [UInt32.toNat_sub, UInt32.toNat_add] at hbeyond ⊢
      omega
    rw [hmarked.outside x hx]
    exact (Mem.write_apply_of_ge _ _ (by omega) (by omega)).trans
      (Mem.write_apply_of_ge _ _ (by omega) (by omega))

/-! ## Calls -/

/-- What happens to the heap. -/
inductive HeapCall
  | kmalloc (size : UInt32)
  | kfree (address : UInt32)
  | setFlags (address : UInt32) (flags : UInt8)
  | setType (address : UInt32) (type : UInt8)
  | setPermissions (address : UInt32) (permissions : UInt8)
  /-- A caller writes to memory. -/
  | write (destination : UInt32) (source : List UInt8)

namespace HeapCall

/-- A call, and who holds what after it. -/
def step (n : Nat) (k : KernelState) (live : List Allocation) :
    HeapCall → Option (KernelState × List Allocation)
  | kmalloc size => ((KernelM.kmalloc size).run n KernelState.handle k).map fun result =>
      (result.2, if result.1 = kmallocNull then live else ⟨result.1, size⟩ :: live)
  | kfree address => ((KernelM.kfree address).run n KernelState.handle k).map fun result =>
      (result.2, without live address)
  | setFlags address flags =>
      ((kmallocSetFlags address flags).run n KernelState.handle k).map fun result =>
        (result.2, live)
  | setType address type =>
      ((kmallocSetType address type).run n KernelState.handle k).map fun result => (result.2, live)
  | setPermissions address permissions =>
      ((kmallocSetPermissions address permissions).run n KernelState.handle k).map fun result =>
        (result.2, live)
  | write destination source =>
      some ({ k with memory := k.memory.write destination source }, live)

end HeapCall

/-- A state that calls as `Permitted` lead to. -/
inductive HeapRun (n : Nat) (Permitted : HeapCall → KernelState → List Allocation → Prop)
    (k₀ : KernelState) : KernelState → List Allocation → Prop
  | start : HeapRun n Permitted k₀ k₀ []
  | step {k k' : KernelState} {live live' : List Allocation} {call : HeapCall} :
      HeapRun n Permitted k₀ k live → Permitted call k live →
        call.step n k live = some (k', live') → HeapRun n Permitted k₀ k' live'

/-- The address belongs to an allocation. -/
def IsLive (live : List Allocation) (address : UInt32) : Prop := ∃ a ∈ live, a.address = address

instance (live : List Allocation) (address : UInt32) : Decidable (IsLive live address) :=
  inferInstanceAs (Decidable (∃ a ∈ live, a.address = address))

/-- The bytes lie in an allocation. -/
def InPayload (live : List Allocation) (destination : UInt32) (length : Nat) : Prop :=
  ∃ a ∈ live, ∃ offset, destination = a.address + .ofNat offset ∧ offset + length ≤ a.size.toNat

theorem inPayload_iff {live : List Allocation} {destination : UInt32} {length : Nat} :
    InPayload live destination length ↔
      ∃ a ∈ live, (destination - a.address).toNat + length ≤ a.size.toNat := by
  constructor
  · rintro ⟨a, ha, offset, rfl, hinside⟩
    refine ⟨a, ha, ?_⟩
    have hoffset : (UInt32.ofNat offset).toNat ≤ offset := Nat.mod_le _ _
    rw [UInt32.add_comm, UInt32.add_sub_cancel]
    omega
  · rintro ⟨a, ha, hinside⟩
    refine ⟨a, ha, (destination - a.address).toNat, ?_, hinside⟩
    rw [UInt32.ofNat_toNat, UInt32.add_comm, UInt32.sub_add_cancel]

instance (live : List Allocation) (destination : UInt32) (length : Nat) :
    Decidable (InPayload live destination length) :=
  decidable_of_iff _ inPayload_iff.symm

/-- Sizes do not wrap, callers write into their own allocations, and what is taken for an address is
one or does not look like one. -/
def HeapCall.Harmless (call : HeapCall) (k : KernelState) (live : List Allocation) : Prop :=
  match call with
  | kmalloc size => size.toNat + 16 < 2 ^ 32
  | kfree address | setFlags address _ | setType address _ | setPermissions address _ =>
      IsLive live address ∨ ¬k.SpellsHeader (headerOf k.heap address)
  | write destination source => InPayload live destination source.length

/-! ## One call -/

theorem run_kfree_of_not_spells (h : k.heap.Placed) {address : UInt32}
    (hnot : ¬k.SpellsHeader (headerOf k.heap address)) :
    (KernelM.kfree address).run n KernelState.handle k = some ((), k) := by
  obtain ⟨valid, hvalid, hspells⟩ := run_isValid (n := n) h address
  have hfalse : ¬valid = true := fun htrue => hnot (hspells.mp htrue)
  rw [KernelM.kfree, Prog.run_bind, hvalid, Option.bind_some, if_neg hfalse]
  rfl

theorem run_kmallocSet_of_not_spells (h : k.heap.Placed) {address : UInt32}
    (hnot : ¬k.SpellsHeader (headerOf k.heap address)) (change : KMallocHeader → KMallocHeader) :
    (kmallocSet change address).run n KernelState.handle k = some ((), k) := by
  obtain ⟨valid, hvalid, hspells⟩ := run_isValid (n := n) h address
  have hfalse : ¬valid = true := fun htrue => hnot (hspells.mp htrue)
  rw [kmallocSet, Prog.run_bind, hvalid, Option.bind_some, if_neg hfalse]
  rfl

theorem without_of_not_isLive {address : UInt32} (h : ¬IsLive live address) :
    without live address = live := by
  rw [without, List.filter_eq_self]
  intro a ha
  simpa using fun heq => h ⟨a, ha, heq⟩

theorem KernelState.write_payload (a : Allocation) (offset : UInt32) (source : List UInt8) :
    { k with memory := k.memory.write (a.address + offset) source } =
      k.write (a.place k.heap + kmallocHeaderSize + offset) source := by
  rw [KernelState.write, Allocation.place, ← UInt32.add_assoc, ← UInt32.add_assoc, add_headerOf]

/-- A change of a header, of an allocation or of nothing. -/
theorem KernelState.Allocated.setHeader (hall : k.Allocated live)
    (change : KMallocHeader → KMallocHeader) (hchange : KeepsExtent change) {address : UInt32}
    (hharmless : IsLive live address ∨ ¬k.SpellsHeader (headerOf k.heap address))
    (hrun : ((kmallocSet change address).run n KernelState.handle k).map (fun r => (r.2, live)) =
      some (k', live')) : k'.Allocated live' := by
  by_cases hlive : IsLive live address
  · obtain ⟨a, ha, rfl⟩ := hlive
    rw [run_kmallocSet hall ha] at hrun
    cases hrun
    exact hall.writeHeader ha hchange
  · rw [run_kmallocSet_of_not_spells hall.placed (hharmless.resolve_left hlive)] at hrun
    cases hrun
    exact hall

/-- Harmless calls leave a heap with the allocations that its callers hold. -/
theorem KernelState.Allocated.step (hall : k.Allocated live) {call : HeapCall}
    (hharmless : call.Harmless k live) (hstep : call.step n k live = some (k', live')) :
    k'.Allocated live' := by
  cases call with
  | kmalloc size =>
      rcases run_kmalloc (n := n) hall.placed hharmless with hrun | hrun
        | ⟨address, k₁, hrun, hgives⟩
      · rw [HeapCall.step, hrun] at hstep
        cases hstep
      · rw [HeapCall.step, hrun] at hstep
        cases hstep
        exact hall
      · have hnull : address ≠ kmallocNull := hgives.notNull
        simp only [HeapCall.step, hrun, Option.map_some, if_neg hnull] at hstep
        cases hstep
        exact hgives.allocated hall hharmless
  | kfree address =>
      by_cases hlive : IsLive live address
      · obtain ⟨a, ha, rfl⟩ := hlive
        obtain ⟨k₁, hrun, htakes⟩ := run_kfree (n := n) hall ha
        rw [HeapCall.step, hrun] at hstep
        cases hstep
        exact htakes.allocated hall ha
      · rw [HeapCall.step,
          run_kfree_of_not_spells hall.placed (hharmless.resolve_left hlive)] at hstep
        cases hstep
        rwa [without_of_not_isLive hlive]
  | setFlags address flags =>
      exact hall.setHeader (fun header => { header with flags })
        (fun _ => ⟨rfl, rfl⟩) hharmless hstep
  | setType address type =>
      exact hall.setHeader (fun header => { header with type })
        (fun _ => ⟨rfl, rfl⟩) hharmless hstep
  | setPermissions address permissions =>
      exact hall.setHeader (fun header => { header with perm := permissions })
        (fun _ => ⟨rfl, rfl⟩) hharmless hstep
  | write destination source =>
      obtain ⟨a, ha, offset, rfl, hinside⟩ := hharmless
      rw [HeapCall.step, KernelState.write_payload] at hstep
      cases hstep
      exact (hall.write ha hinside).1

/-! ## Runs -/

/-- Every harmless run leaves a heap with the allocations that its callers hold. -/
theorem HeapRun.allocated {k₀ : KernelState}
    {Permitted : HeapCall → KernelState → List Allocation → Prop}
    (hpermitted : ∀ call k live, Permitted call k live → call.Harmless k live)
    (h₀ : k₀.Allocated []) (hrun : HeapRun n Permitted k₀ k live) : k.Allocated live := by
  induction hrun with
  | start => exact h₀
  | step _ hcall hstep ih => exact ih.step (hpermitted _ _ _ hcall) hstep

/-- Permitted calls one after the other. -/
def HeapCall.steps (Permitted : HeapCall → KernelState → List Allocation → Prop)
    [∀ call k live, Decidable (Permitted call k live)] (n : Nat) (k : KernelState)
    (live : List Allocation) : List HeapCall → Option (KernelState × List Allocation)
  | [] => some (k, live)
  | call :: calls =>
      if Permitted call k live then
        (call.step n k live).bind fun result => steps Permitted n result.1 result.2 calls
      else none

theorem HeapRun.steps {k₀ : KernelState}
    {Permitted : HeapCall → KernelState → List Allocation → Prop}
    [∀ call k live, Decidable (Permitted call k live)] {calls : List HeapCall}
    (hrun : HeapRun n Permitted k₀ k live)
    (hsteps : HeapCall.steps Permitted n k live calls = some (k', live')) :
    HeapRun n Permitted k₀ k' live' := by
  induction calls generalizing k live with
  | nil =>
      cases hsteps
      exact hrun
  | cons call calls ih =>
      by_cases hcall : Permitted call k live
      · rw [HeapCall.steps, if_pos hcall] at hsteps
        obtain ⟨⟨k₁, live₁⟩, hstep, hrest⟩ := Option.bind_eq_some_iff.mp hsteps
        exact ih (hrun.step hcall hstep) hrest
      · rw [HeapCall.steps, if_neg hcall] at hsteps
        cases hsteps

/-! ## A small heap -/

/-- A kernel whose heap begins at `0x1000`. -/
def KernelState.blank : KernelState where
  memory := fun _ => 0
  heap :=
    { heapBegin := 0x1000, blockSize := 0, poolSize := 0, blockCount := 0, bitmapSize := 0
      reservedBlocks := 0, bitmap := 0, dirty := 0 }
  root := 0

/-- `heap_init(16, 256)` -/
def KernelState.small : KernelState := (KernelState.blank.heapInit 0 16 256).getD .blank

theorem KernelState.heapInit_blank : KernelState.blank.heapInit 0 16 256 = some .small := by
  obtain ⟨k, hk, -, -⟩ := KernelState.heapInit_allocated (n := 0) (k := .blank)
    (show 0 < (16 : UInt32).toNat by decide) (show 0 < (256 : UInt32).toNat by decide) (by decide)
  rw [KernelState.small, hk, Option.getD_some]

/-- The first allocation of so many bytes, and the kernel after it. -/
def KernelState.smallWith (size : UInt32) : KernelState :=
  (((kmalloc size).run 0 KernelState.handle .small).map (·.2)).getD .blank

theorem KernelState.run_kmalloc_small :
    (kmalloc 64).run 0 KernelState.handle .small = some (0x1020, .smallWith 64) := by
  have haddress : ((kmalloc 64).run 0 KernelState.handle .small).map (·.1) = some 0x1020 := by
    decide +kernel
  rw [KernelState.smallWith]
  obtain ⟨⟨address, k'⟩, hrun, rfl⟩ := Option.map_eq_some_iff.mp haddress
  rw [hrun]
  rfl

theorem step_kmalloc_small :
    (HeapCall.kmalloc 64).step 0 .small [] = some (.smallWith 64, [⟨0x1020, 64⟩]) := by
  rw [HeapCall.step, KernelState.run_kmalloc_small]
  rfl

end AvrKernel.Kernel

import AvrKernel.Kernel.Knode

/-!
# Kernel programs that only read

Looking at kernel nodes leaves the memory of the kernel as it is.
-/

namespace AvrKernel.Kernel

open Bytes Effect

/-- Calls that write nothing. -/
def KernelCall.Reads : KernelCall → Prop
  | heap | root | memRead .. => True
  | memWrite .. => False

theorem KernelState.handle_snd {e : KernelCall} (he : e.Reads) (k : KernelState) :
    (KernelState.handle e k).2 = k := by
  cases e with
  | heap | root | memRead => rfl
  | memWrite => exact he.elim

namespace KernelM

/-- A program whose calls only read. -/
abbrev ReadOnly {α : Type} (p : KernelM α) : Prop := p.All KernelCall.Reads

/-- A run of a reading program leaves the kernel as it is. -/
theorem ReadOnly.run {α : Type} {p : KernelM α} (hp : ReadOnly p) {n : Nat} {k k' : KernelState}
    {value : α} (hrun : p.run n KernelState.handle k = some (value, k')) : k' = k := by
  have hcalls : p.Calls n KernelState.handle (fun e _ => e.Reads) k :=
    hp.calls _ _ (fun _ _ he => he) k
  exact Prog.run_preserves n KernelState.handle
    (fun e k₁ (hk₁ : k₁ = k) he => (KernelState.handle_snd he k₁).trans hk₁) rfl hcalls hrun

/-- What a reading program answers determines its run. -/
theorem ReadOnly.run_eq {α : Type} {p : KernelM α} (hp : ReadOnly p) {n : Nat} {k : KernelState}
    {value : α} (h : (p.run n KernelState.handle k).map Prod.fst = some value) :
    p.run n KernelState.handle k = some (value, k) := by
  obtain ⟨⟨value', k'⟩, hrun, rfl⟩ := Option.map_eq_some_iff.mp h
  rw [hrun, hp.run hrun]

theorem readOnly_heap : ReadOnly heap := ⟨trivial, fun _ => trivial⟩

theorem readOnly_getRoot : ReadOnly knodeGetRoot := ⟨trivial, fun _ => trivial⟩

theorem readOnly_kmemRead (source size : UInt32) : ReadOnly (kmemRead source size) :=
  ⟨trivial, fun _ => trivial⟩

theorem readOnly_readStruct {α : Type} (layout : Layout α) (source : UInt32) :
    ReadOnly (readStruct layout source) := ⟨trivial, fun _ => trivial⟩

theorem readOnly_headerRead (address : UInt32) : ReadOnly (kmallocHeaderRead address) :=
  readOnly_heap.bind fun _ => readOnly_readStruct _ _

theorem readOnly_isValid (address : UInt32) : ReadOnly (kmallocIsValid address) := by
  rw [kmallocIsValid]
  split
  · trivial
  · refine readOnly_heap.bind fun heap => ?_
    split
    · trivial
    · split
      · trivial
      · split
        · trivial
        · refine (readOnly_headerRead _).bind fun header => ?_
          split
          · trivial
          · dsimp only
            split
            · trivial
            · split <;> trivial

theorem readOnly_kmallocGet {α : Type} [OfNat α 0] (field : KMallocHeader → α)
    (address : UInt32) : ReadOnly (kmallocGet field address) := by
  refine (readOnly_isValid address).bind fun valid => ?_
  split
  · exact readOnly_heap.bind fun _ => (readOnly_headerRead _).bind fun _ => trivial
  · trivial

theorem readOnly_getFlags (address : UInt32) : ReadOnly (kmallocGetFlags address) :=
  readOnly_kmallocGet _ _

theorem readOnly_getPermissions (address : UInt32) : ReadOnly (kmallocGetPermissions address) :=
  readOnly_kmallocGet _ _

theorem readOnly_getSize (address : UInt32) : ReadOnly (kmallocGetSize address) :=
  readOnly_kmallocGet _ _

theorem readOnly_isValidAddress (address : UInt32) : ReadOnly (knodeIsValidAddress address) := by
  rw [knodeIsValidAddress]
  split
  · trivial
  · exact (readOnly_getFlags _).bind fun _ => trivial

theorem readOnly_getSlot {n : Nat} (slots : Vector UInt32 n) (index : UInt32) :
    ReadOnly (getSlot slots index) := by
  rw [getSlot]
  split <;> trivial

theorem readOnly_getRound (state : UInt32 × UInt32) : ReadOnly (getRound state) := by
  obtain ⟨extentAddress, index⟩ := state
  rw [getRound]
  split
  · trivial
  · refine (readOnly_readStruct _ _).bind fun extent => ?_
    split
    · exact (readOnly_getSlot _ _).bind fun _ => trivial
    · trivial

theorem readOnly_getReference (directoryAddress index : UInt32) :
    ReadOnly (knodeGetReference directoryAddress index) := by
  refine (readOnly_isValidAddress _).bind fun valid => ?_
  split
  · refine (readOnly_readStruct _ _).bind fun directory => ?_
    split
    · exact readOnly_getSlot _ _
    · exact Prog.All.loop readOnly_getRound _
  · trivial

theorem readOnly_getReferenceCount (directoryAddress : UInt32) :
    ReadOnly (knodeGetReferenceCount directoryAddress) := by
  refine (readOnly_isValidAddress _).bind fun valid => ?_
  split
  · refine (readOnly_readStruct _ _).bind fun directory => Prog.All.loop ?_ _
    rintro ⟨extentAddress, totalCount⟩
    rw [countRound]
    split
    · trivial
    · exact (readOnly_readStruct _ _).bind fun _ => trivial
  · trivial

theorem readOnly_getParent (directoryAddress : UInt32) :
    ReadOnly (knodeGetParent directoryAddress) := by
  refine (readOnly_isValidAddress _).bind fun valid => ?_
  split
  · refine (readOnly_readStruct _ _).bind fun directory => ?_
    split
    · trivial
    · refine (readOnly_isValidAddress _).bind fun valid => ?_
      split <;> trivial
  · trivial

theorem readOnly_readName (address : UInt32) : ReadOnly (readName address) :=
  (readOnly_kmemRead _ _).bind fun _ => trivial

theorem readOnly_findByName (directoryAddress : UInt32) (name : List UInt8) :
    ReadOnly (knodeFindByName directoryAddress name) := by
  refine (readOnly_isValidAddress _).bind fun valid => ?_
  split
  · split
    · trivial
    · refine Prog.All.loop (fun referenceIndex => ?_) _
      refine (readOnly_getReference _ _).bind fun referenceAddress => ?_
      split
      · trivial
      · refine (readOnly_readName _).bind fun objectName => ?_
        split <;> trivial
  · trivial

end KernelM

end AvrKernel.Kernel

import AvrKernel.BaseFS.Directory

/-!
# Programs that only read

Reading moves the sector window and nothing else: the logical device stays as it
is.
-/

namespace AvrKernel.BaseFS

open Bytes Effect

/-- Calls that write, allocate and free nothing. -/
def FSCall.Reads : FSCall → Prop
  | geometry | memRead .. => True
  | memWrite .. | alloc _ | free _ => False

/-- A reading call leaves the logical device as it is. -/
theorem Device.Coherent.handle {d : Device} (h : d.Coherent) {e : FSCall} (he : e.Reads) :
    (Device.handle e d).2.Coherent ∧ (Device.handle e d).2.logical = d.logical := by
  cases e with
  | geometry => exact ⟨h, rfl⟩
  | memRead address size =>
      obtain ⟨hcoherent, hlogical, -⟩ := h.memRead address size.toNat
      exact ⟨hcoherent, hlogical⟩
  | memWrite | alloc | free => exact he.elim

/-- A run of a reading program leaves the logical device as it is. -/
theorem Device.Coherent.run {d d' : Device} (h : d.Coherent) {α : Type} {p : FS α}
    (hp : p.All FSCall.Reads) {n : Nat} {value : α}
    (hrun : p.run n Device.handle d = some (value, d')) :
    d'.Coherent ∧ d'.logical = d.logical := by
  have hcalls : p.Calls n Device.handle (fun e _ => e.Reads) d := hp.calls _ _ (fun _ _ he => he) d
  refine Prog.run_preserves n Device.handle
    (fun e d₁ (hd₁ : d₁.Coherent ∧ d₁.logical = d.logical) he => ?_) ⟨h, rfl⟩ hcalls hrun
  obtain ⟨hcoherent, hlogical⟩ := hd₁.1.handle he
  exact ⟨hcoherent, hlogical.trans hd₁.2⟩

namespace FS

/-- A program whose calls only read. -/
abbrev ReadOnly {α : Type} (p : FS α) : Prop := p.All FSCall.Reads

theorem readOnly_readStruct {α : Type} (layout : Layout α) (address : UInt32) :
    ReadOnly (readStruct layout address) := ⟨trivial, fun _ => trivial⟩

theorem readOnly_context : ReadOnly context := ⟨trivial, fun _ => trivial⟩

theorem readOnly_getPartition : ReadOnly fsDeviceGetPartition :=
  (readOnly_readStruct _ _).bind fun _ => trivial

/-- What a reading program returns, from the logical device alone. -/
def view (n : Nat) (g : FSGeometry) (m : Mem) {α : Type} : FS α → Option α
  | .ret value => some value
  | .call .geometry next => view n g m (next g)
  | .call (.memRead address size) next => view n g m (next (m.read address size.toNat))
  | .call (.memWrite _ _) _ => none
  | .call (.alloc _) _ => none
  | .call (.free _) _ => none
  | .fuel next => view n g m (next n)
  | .halt => none

/-! ## Files -/

theorem readOnly_fileCheck (address : UInt32) : ReadOnly (fsFileCheck address) := by
  rw [fsFileCheck]
  split
  · trivial
  · refine (readOnly_readStruct _ _).bind fun alloc => ?_
    split
    · trivial
    · exact (readOnly_readStruct _ _).bind fun _ => trivial

theorem readOnly_getSize (address : UInt32) : ReadOnly (fsFileGetSize address) := by
  refine (readOnly_fileCheck address).bind fun ok => ?_
  split
  · exact (readOnly_readStruct _ _).bind fun _ => trivial
  · trivial

theorem readOnly_structIsValid (handle : FileHandle) : ReadOnly (fsFileStructIsValid handle) := by
  rw [fsFileStructIsValid]
  split
  · trivial
  · exact readOnly_fileCheck _

theorem readOnly_getName (address : UInt32) : ReadOnly (fsFileGetName address) := by
  rw [fsFileGetName]
  split
  · trivial
  · exact (readOnly_readStruct _ _).bind fun _ => trivial

theorem readOnly_getPermissions (address : UInt32) : ReadOnly (fsFileGetPermissions address) :=
  (readOnly_readStruct _ _).bind fun _ => trivial

theorem readOnly_checkDirectoryValid (address : UInt32) :
    ReadOnly (fsCheckDirectoryValid address) :=
  (readOnly_readStruct _ _).bind fun _ => trivial

theorem readOnly_open (ctx address : UInt32) (mode : UInt8) :
    ReadOnly (fsFileOpen ctx address mode) := by
  refine (readOnly_fileCheck address).bind fun ok => ?_
  split
  · refine (readOnly_readStruct _ _).bind fun header => ?_
    split
    · trivial
    · split
      · trivial
      · split
        · exact (readOnly_getSize _).bind fun _ => trivial
        · trivial
  · trivial

/-! ## Directories -/

theorem readOnly_allocHeaderRead (address : UInt32) : ReadOnly (fsFileAllocHeaderRead address) := by
  rw [fsFileAllocHeaderRead]
  split
  · trivial
  · split
    · trivial
    · exact (readOnly_readStruct _ _).bind fun _ => trivial

theorem readOnly_walkLimit : ReadOnly fsDirectoryWalkLimit :=
  readOnly_context.bind fun _ => trivial

theorem readOnly_headerRead (address : UInt32) : ReadOnly (fsDirectoryHeaderRead address) := by
  refine (readOnly_allocHeaderRead address).bind fun header => ?_
  cases header with
  | none => trivial
  | some header =>
      dsimp only
      split
      · trivial
      · exact (readOnly_readStruct _ _).bind fun _ => trivial

theorem readOnly_dirExtentRead (address : UInt32) : ReadOnly (fsDirectoryExtentRead address) := by
  refine (readOnly_allocHeaderRead address).bind fun header => ?_
  cases header with
  | none => trivial
  | some header =>
      dsimp only
      split
      · trivial
      · exact (readOnly_readStruct _ _).bind fun _ => trivial

theorem readOnly_referenceInExtents (walkGuard : Nat) (address index : UInt32) :
    ReadOnly (referenceInExtents walkGuard address index) := by
  induction walkGuard generalizing address index with
  | zero => trivial
  | succ walkGuard ih =>
      rw [referenceInExtents]
      split
      · trivial
      · refine (readOnly_dirExtentRead _).bind fun extent => ?_
        cases extent with
        | none => trivial
        | some extent =>
            dsimp only
            split
            · exact readOnly_readStruct _ _
            · exact ih _ _

theorem readOnly_getReference (address index : UInt32) :
    ReadOnly (fsDirectoryGetReference address index) := by
  refine (readOnly_headerRead address).bind fun directory => ?_
  cases directory with
  | none => trivial
  | some directory =>
      dsimp only
      split
      · exact readOnly_readStruct _ _
      · exact readOnly_walkLimit.bind fun _ => readOnly_referenceInExtents _ _ _

theorem readOnly_countInExtents (walkGuard : Nat) (address count : UInt32) :
    ReadOnly (countInExtents walkGuard address count) := by
  induction walkGuard generalizing address count with
  | zero => trivial
  | succ walkGuard ih =>
      rw [countInExtents]
      split
      · trivial
      · refine (readOnly_dirExtentRead _).bind fun extent => ?_
        cases extent with
        | none => trivial
        | some extent => exact ih _ _

theorem readOnly_getReferenceCount (address : UInt32) :
    ReadOnly (fsDirectoryGetReferenceCount address) := by
  refine (readOnly_headerRead address).bind fun directory => ?_
  cases directory with
  | none => trivial
  | some directory => exact readOnly_walkLimit.bind fun _ => readOnly_countInExtents _ _ _

theorem readOnly_getParent (address : UInt32) : ReadOnly (fsDirectoryGetParent address) := by
  refine (readOnly_headerRead address).bind fun directory => ?_
  cases directory <;> trivial

end FS

/-- What a reading program finds on a device. -/
def Device.view (n : Nat) (d : Device) {α : Type} (p : FS α) : Option α :=
  p.view n d.ctx.geometry d.image

theorem Device.view_of_logical {d d' : Device} (h : d'.logical = d.logical) {α : Type} (p : FS α)
    (n : Nat) : d'.view n p = d.view n p := by
  rw [view, view, geometry_of_logical h, image_of_logical h]

/-- What a file or a directory looks like does not depend on the sector in the window. -/
theorem Device.Sound.run_view {d : Device} (h : d.Sound) {α : Type} {p : FS α}
    (hp : FS.ReadOnly p) (n : Nat) : d.view n p = (p.run n Device.handle d).map Prod.fst := by
  induction p generalizing d with
  | ret value => rfl
  | call e next ih =>
      cases e with
      | geometry => exact ih d.ctx.geometry h (hp.2 _)
      | memRead address size =>
          obtain ⟨hbytes, hsound, hlogical⟩ := h.memRead address size.toNat
          have hrest := ih (d.fsMemRead address size.toNat).1 hsound (hp.2 _)
          rw [view_of_logical hlogical, hbytes] at hrest
          rw [view, FS.view, ← view, hrest, Prog.run_call]
          exact congrArg (fun bytes => ((next bytes).run n Device.handle
            (d.fsMemRead address size.toNat).2).map Prod.fst) hbytes.symm
      | memWrite | alloc | free => exact hp.1.elim
  | fuel next ih => exact ih n h (hp n)
  | halt => rfl

theorem Device.Sound.run_readOnly {d d' : Device} (h : d.Sound) {α : Type} {p : FS α}
    (hp : FS.ReadOnly p) {n : Nat} {value : α} (hrun : p.run n Device.handle d = some (value, d')) :
    d'.Sound ∧ d'.logical = d.logical ∧ d.view n p = some value := by
  obtain ⟨hcoherent, hlogical⟩ := h.coherent.run hp hrun
  refine ⟨h.of_logical hcoherent (m := d.image) hlogical, hlogical, ?_⟩
  rw [h.run_view hp, hrun]
  rfl

end AvrKernel.BaseFS

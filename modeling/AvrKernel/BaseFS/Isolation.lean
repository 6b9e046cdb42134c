import AvrKernel.BaseFS.ByteFile

/-!
# Isolation of files

A write to a file and a change of its size, with any arguments and whether or not
they succeed, leave every allocation alone that is not part of the file.
-/

namespace AvrKernel.BaseFS

open Bytes Effect

/-- The allocations of a file with the extents `es`. -/
def fileBlocks (address : UInt32) (es : List Extent) : List UInt32 :=
  address :: es.map Extent.address

/-- Every allocation outside `as` is still there, with the bytes it had. -/
def Store.Untouched {g : FSGeometry} (S S' : Store g) (as : List UInt32) : Prop :=
  ∀ a ∉ as, S.cells a ≠ none → S'.cells a = S.cells a

namespace Store.Untouched

variable {g : FSGeometry} {S S' S'' : Store g} {as as' : List UInt32}

theorem refl : S.Untouched S as := fun _ _ _ => rfl

end Store.Untouched

/-! ## Devices that hold a store -/

namespace Device.Holds

variable {g : FSGeometry} {S : Store g} {d d' : Device} {n : Nat} {α : Type} {p : FS α}

/-- Moving the sector window leaves the store. -/
theorem of_logical (h : d.Holds S) (hcoherent : d'.Coherent) (hlogical : d'.logical = d.logical) :
    d'.Holds S := by
  obtain ⟨rfl, live, hinv, hcells⟩ := h
  obtain ⟨hinv', hcells'⟩ := hinv.of_step
    ⟨hcoherent, hinv.frameOk.of_logical hlogical, wiring_of_logical hlogical,
      fun _ _ => by rw [image_of_logical hlogical]⟩ fun j _ => bit_of_logical hlogical j
  exact ⟨geometry_of_logical hlogical, live, hinv', hcells.trans hcells'.symm⟩

theorem coherent (h : d.Holds S) : d.Coherent := by
  obtain ⟨-, live, hinv, -⟩ := h
  exact hinv.sound.coherent

theorem sound (h : d.Holds S) : d.Sound := by
  obtain ⟨-, live, hinv, -⟩ := h
  exact hinv.sound

/-- Reading leaves the store. -/
theorem run_readOnly (h : d.Holds S) (hp : FS.ReadOnly p) {value : α}
    (hrun : p.run n Device.handle d = some (value, d')) : d'.Holds S := by
  obtain ⟨hcoherent, hlogical⟩ := h.coherent.run hp hrun
  exact h.of_logical hcoherent hlogical

/-- What a program ensures, its run shows. -/
theorem run_of_ensures (h : d.Holds S) {post : α → Store g → Prop}
    (hp : (world g n (fun _ _ => True) fun _ _ => True).Ensures p S post) :
    ∃ (value : α) (d' : Device) (S' : Store g), p.run n Device.handle d = some (value, d') ∧
      d'.Holds S' ∧ post value S' := by
  obtain ⟨-, value, d', S', hrun, hd', hpost⟩ :=
    hp d h (Prog.Calls.of_forall _ _ (fun _ _ => trivial) _ _)
  exact ⟨value, d', S', hrun, hd', hpost⟩

/-- What a reading program finds, if it ensures that it finds it. -/
theorem view_of_ensures (h : d.Holds S) (hread : FS.ReadOnly p) {value : α}
    (hp : (world g n (fun _ _ => True) fun _ _ => True).Ensures p S fun found _ => found = value) :
    d.view n p = some value := by
  obtain ⟨found, d', S', hrun, -, rfl⟩ := h.run_of_ensures hp
  rw [h.sound.run_view hread, hrun]
  rfl

variable {address : UInt32} {file : FSFileHeader} {es : List Extent}

theorem view_check (h : d.Holds S) (hchain : S.ChainAt address file es) (n : Nat) :
    d.view n (FS.fsFileCheck address) = some true :=
  h.view_of_ensures (FS.readOnly_fileCheck address) (FS.ensures_check hchain rfl)

theorem view_size (h : d.Holds S) (hchain : S.ChainAt address file es) (n : Nat) :
    d.view n (FS.fsFileGetSize address) = some file.totalLogicalSize :=
  h.view_of_ensures (FS.readOnly_getSize address) (FS.ensures_getSize hchain rfl)

end Device.Holds

namespace FS

variable {g : FSGeometry} {n : Nat} {A : FSCall → Device → Prop} {B : UInt32 → Device → Prop}
  {S : Store g} {address : UInt32} {file : FSFileHeader} {es : List Extent}

/-! ## Writing and resizing -/

/-- What an operation leaves of a file: the allocations of the file may have changed, its name,
its permissions and its other attributes have not. -/
def Within (S : Store g) (address : UInt32) (file : FSFileHeader) (es : List Extent)
    (S' : Store g) : Prop :=
  S.Untouched S' (fileBlocks address es) ∧ ∃ (file' : FSFileHeader) (es' : List Extent),
    S'.ChainAt address file' es' ∧ file'.block = file.block

/-- Growing that is refused leaves the file with some of its new extents, or with none if it
had none. -/
theorem Grown.within {S' : Store g} {added : List Extent} (hchain : S.ChainAt address file es)
    (hgrown : Grown S S' address es added) : Within S address file es S' := by
  have hheader : S'.cells address = S.cells address :=
    hgrown.kept _ (List.nodup_cons.mp hgrown.nodup).1
  refine ⟨fun a hout hheld => hgrown.kept a ?_, ?_⟩
  · rw [List.map_append, List.mem_append, not_or]
    exact ⟨fun hin => hout (List.mem_cons_of_mem _ hin), fun hin => hheld (hgrown.fresh a hin)⟩
  · obtain ⟨tail, hcell⟩ := hchain.cell
    cases es with
    | nil =>
        exact ⟨file, [], ⟨⟨tail, hheader.trans hcell⟩, hchain.regular, hchain.next, trivial,
          by simp, hchain.size⟩, rfl⟩
    | cons e es =>
        refine ⟨file, e :: es ++ added, ⟨⟨tail, hheader.trans hcell⟩, hchain.regular, hchain.next,
          hgrown.linked, hgrown.nodup, ?_⟩, rfl⟩
        rw [Extent.content_append, List.length_append]
        exact hchain.size.trans (Nat.le_add_right _ _)

variable {d d' : Device} {handle : FileHandle}

end FS

end AvrKernel.BaseFS

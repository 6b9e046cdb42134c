import AvrKernel.BaseFS.Store

/-!
# Rules for calls on a store

What each call of a program does to the store of the device, in the form in
which the structure of a program asks for it.
-/

namespace AvrKernel.BaseFS

open Bytes Effect

/-- Devices with the sizes `g` that hold a store. Calls are trusted to be answered as
`assume` says, every allocation is made as `grant` says, and loops run for `fuel` rounds. -/
def world (g : FSGeometry) (fuel : Nat) (assume : FSCall → Device → Prop)
    (grant : UInt32 → Device → Prop) : Refine FSCall FSCall.Answer Device (Store g) where
  fuel
  handler := Device.handle
  rel d S := d.Holds S
  assume
  grant e d := match e with
    | .alloc size => grant size d
    | _ => True

/-- Allocations are trusted to succeed. -/
def Supplied : FSCall → Device → Prop
  | .alloc size, d => (d.fsAlloc size).1 ≠ fsNull
  | _, _ => True

instance Supplied.decidable : (e : FSCall) → (d : Device) → Decidable (Supplied e d)
  | .alloc size, d => inferInstanceAs (Decidable ((d.fsAlloc size).1 ≠ fsNull))
  | .geometry, _ | .memRead .., _ | .memWrite .., _ | .free _, _ =>
      inferInstanceAs (Decidable True)

namespace FS

variable {g : FSGeometry} {n : Nat} {A : FSCall → Device → Prop} {B : UInt32 → Device → Prop}
  {S : Store g}
  {a address size : UInt32} {before middle after payload source : List UInt8} {α : Type}

theorem ensures_context {post : FSGeometry → Store g → Prop} (h : post g S) :
    (world g n A B).Ensures context S post :=
  Refine.ensures_perform fun _ hd _ =>
    ⟨trivial, S, hd, by simpa only [world, Device.handle, hd.1] using h⟩

theorem ensures_memRead {post : List UInt8 → Store g → Prop}
    (hcell : S.cells a = some (before ++ middle ++ after))
    (haddress : address = a + .ofNat before.length) (hsize : size.toNat = middle.length)
    (h : post middle S) : (world g n A B).Ensures (memRead address size) S post := by
  refine Refine.ensures_perform fun d hd _ => ?_
  obtain ⟨hbytes, hd'⟩ := hd.memRead address size.toNat
  refine ⟨trivial, S, hd', ?_⟩
  have hmiddle : d.image.read address size.toNat = middle := by
    rw [haddress, hsize, Mem.read_sub _ _ (n := (before ++ middle ++ after).length) (by simp),
      (hd.cell hcell).1]
    simp
  exact (hbytes.trans hmiddle) ▸ h

theorem ensures_readStruct_at {post : α → Store g → Prop} {layout : Layout α} {value : α}
    (hcell : S.cells a = some (before ++ layout.encode value ++ after))
    (haddress : address = a + .ofNat before.length) (h : post value S) :
    (world g n A B).Ensures (readStruct layout address) S post := by
  have hlt := S.length_lt hcell
  simp only [List.length_append, layout.encode_length] at hlt
  refine Refine.ensures_bind (ensures_memRead hcell haddress ?_ ?_)
  · rw [layout.encode_length, UInt32.toNat_ofNat', Nat.mod_eq_of_lt (by omega)]
  · exact Refine.ensures_ret (by rwa [layout.decode_encode_self])

theorem ensures_readStruct {post : α → Store g → Prop} {layout : Layout α} {value : α}
    (hcell : S.cells address = some (layout.encode value ++ after)) (h : post value S) :
    (world g n A B).Ensures (readStruct layout address) S post :=
  ensures_readStruct_at (by rwa [List.nil_append]) (UInt32.add_zero _).symm h

theorem ensures_readHeader {post : FSAllocHeader → Store g → Prop}
    (hcell : S.cells a = some payload) (h : post ⟨.ofNat payload.length⟩ S) :
    (world g n A B).Ensures (readStruct FSAllocHeader.layout (a - 4)) S post := by
  refine Refine.ensures_bind (Refine.ensures_perform fun d hd _ => ?_)
  obtain ⟨hbytes, hd'⟩ := hd.memRead (a - 4) 4
  refine ⟨trivial, S, hd', Refine.ensures_ret ?_⟩
  have hheader := hbytes.trans (hd.cell hcell).2
  rw [← FSAllocHeader.layout.decode_encode_self ⟨.ofNat payload.length⟩, ← hheader] at h
  exact h

theorem ensures_memWrite {post : Unit → Store g → Prop}
    (hcell : S.cells a = some (before ++ middle ++ after))
    (haddress : address = a + .ofNat before.length) (hlen : source.length = middle.length)
    (h : ∀ S' : Store g, S'.cells =
      Function.update S.cells a (some (before ++ source ++ after)) → post () S') :
    (world g n A B).Ensures (memWrite address source) S post := by
  refine Refine.ensures_perform fun d hd _ => ?_
  have hfit : before.length + source.length ≤ (before ++ middle ++ after).length := by
    simp only [List.length_append]
    omega
  obtain ⟨S', hcells, hd'⟩ := hd.memWrite hcell hfit
  rw [patch_append_middle _ _ _ _ hlen] at hcells
  refine ⟨trivial, S', ?_, h S' hcells⟩
  rw [haddress]
  exact hd'

theorem ensures_writeStruct_at {post : Unit → Store g → Prop} {layout : Layout α} {value : α}
    (hcell : S.cells a = some (before ++ middle ++ after))
    (haddress : address = a + .ofNat before.length) (hlen : middle.length = layout.size)
    (h : ∀ S' : Store g, S'.cells =
      Function.update S.cells a (some (before ++ layout.encode value ++ after)) → post () S') :
    (world g n A B).Ensures (writeStruct layout address value) S post :=
  ensures_memWrite hcell haddress ((layout.encode_length value).trans hlen.symm) h

theorem ensures_writeStruct {post : Unit → Store g → Prop} {layout : Layout α} {value : α}
    (hcell : S.cells address = some (middle ++ after)) (hlen : middle.length = layout.size)
    (h : ∀ S' : Store g, S'.cells =
      Function.update S.cells address (some (layout.encode value ++ after)) → post () S') :
    (world g n A B).Ensures (writeStruct layout address value) S post :=
  ensures_writeStruct_at (by rwa [List.nil_append]) (UInt32.add_zero _).symm hlen
    (by rwa [List.nil_append])

/-- Allocating takes the first fit. -/
theorem ensures_alloc {post : UInt32 → Store g → Prop} (hserves : S.Serves size)
    (hgrant : ∀ d : Device, d.Holds S → A (.alloc size) d → B size d)
    (hnone : ∀ d : Device, A (.alloc size) d → (d.fsAlloc size).1 = fsNull →
      S.place size = none → post fsNull S)
    (hsome : ∀ (S' : Store g) (address : UInt32) (payload : List UInt8), Sized g size →
      S.place size = some address → S.cells address = none → payload.length = size.toNat →
        S'.cells = Function.update S.cells address (some payload) → post address S') :
    (world g n A B).Ensures (alloc size) S post := by
  refine Refine.ensures_perform fun d hd hassume => ?_
  refine ⟨hgrant d hd hassume, ?_⟩
  obtain hsize | hfull := hserves
  swap
  · obtain ⟨hplace, hnull, hd'⟩ := hd.alloc_full hfull
    exact ⟨S, hd', hnull ▸ hnone d hassume hnull hplace⟩
  obtain ⟨hnull, hplaced⟩ := hd.alloc hsize
  cases hplace : S.place size with
  | none =>
      obtain ⟨haddress, hd'⟩ := hnull hplace
      exact ⟨S, hd', haddress ▸ hnone d hassume haddress hplace⟩
  | some address =>
      obtain ⟨heq, hfresh, S', payload, hlen, hcells, hd'⟩ := hplaced address hplace
      exact ⟨S', hd', heq ▸
        hsome S' address payload hsize hplace hfresh hlen hcells⟩

theorem ensures_free {post : Unit → Store g → Prop} (hcell : S.cells a = some payload)
    (h : ∀ S' : Store g, S'.cells = Function.update S.cells a none → post () S') :
    (world g n A B).Ensures (free a) S post := by
  refine Refine.ensures_perform fun d hd _ => ?_
  obtain ⟨S', hcells, hd'⟩ := hd.free hcell
  exact ⟨trivial, S', hd', h S' hcells⟩

end FS

end AvrKernel.BaseFS

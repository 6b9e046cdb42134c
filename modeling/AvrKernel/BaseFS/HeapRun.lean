import AvrKernel.BaseFS.Calls
import AvrKernel.BaseFS.Store

/-!
# Heaps under programs

A program that gives back only what it was given, and writes only into that or
into the headers in front of the bitmap, keeps the heap of its device.
-/

namespace AvrKernel.BaseFS

open Bytes Effect

namespace Heap

variable {h : Heap}

/-- What is allocated after a call with its answer. -/
def track (live : List Allocation) : (e : FSCall) → e.Answer → List Allocation
  | .alloc size, address => if address = fsNull then live else ⟨address, size⟩ :: live
  | .free address, _ => live.filter (·.address ≠ address)
  | .geometry, _ | .memRead .., _ | .memWrite .., _ => live

/-- Calls are carried out on the device of a heap. -/
def handle : Prog.Handler FSCall FSCall.Answer Heap := fun e h =>
  let result := Device.handle e h.device
  (result.1, ⟨result.2, track h.live e result.1⟩)

/-- The bytes lie in an allocation. -/
def Within (h : Heap) (address : UInt32) (size : Nat) : Prop :=
  ∃ a ∈ h.live, a.address.toNat ≤ address.toNat ∧
    address.toNat + size ≤ a.address.toNat + a.size.toNat

instance (address : UInt32) (size : Nat) : Decidable (h.Within address size) :=
  inferInstanceAs (Decidable (∃ a ∈ h.live, _))

/-- The bytes lie in front of the bitmap, and so do no blocks. -/
def InHeaders (h : Heap) (address : UInt32) (size : Nat) : Prop :=
  address.toNat + size ≤ 48 ∧
    48 ≤ h.device.ctx.geometry.reservedBlocks.toNat * h.device.ctx.geometry.sectorSize.toNat

instance (address : UInt32) (size : Nat) : Decidable (h.InHeaders address size) :=
  inferInstanceAs (Decidable (_ ∧ _))

/-- The call keeps to what is allocated. -/
def Tame : FSCall → Heap → Prop
  | .alloc size, h => h.Allowed (.alloc size)
  | .free address, h => h.Allowed (.free address)
  | .memWrite address source, h => h.Within address source.length ∨
      h.InHeaders address source.length
  | .geometry, _ | .memRead .., _ => True

instance Tame.decidable : (e : FSCall) → (h : Heap) → Decidable (Tame e h)
  | .alloc size, h => inferInstanceAs (Decidable (h.Allowed (.alloc size)))
  | .free address, h => inferInstanceAs (Decidable (h.Allowed (.free address)))
  | .memWrite .., _ => inferInstanceAs (Decidable (_ ∨ _))
  | .geometry, _ | .memRead .., _ => inferInstanceAs (Decidable True)

/-- Writing into the headers in front of the bitmap leaves what is allocated. -/
theorem Inv.memWrite_headers (hinv : h.Inv) {address : UInt32} {source : List UInt8}
    (hheaders : h.InHeaders address source.length) :
    Inv ⟨h.device.fsMemWrite address source, h.live⟩ := by
  obtain ⟨hfit, hreserved⟩ := hheaders
  have hgeo := hinv.geometry
  have hsmall := hgeo.small
  have hapart : h.device.ctx.geometry.Apart address source.length := by
    intro k hk
    have hoff : (UInt32.ofNat k).toNat = k := by
      rw [UInt32.toNat_ofNat', Nat.mod_eq_of_lt (by omega)]
    simp only [fsBitmapAddress, UInt32.toNat_sub, UInt32.toNat_add, hoff, UInt32.reduceToNat]
    omega
  have hwrote := hinv.sound.memWrite_apart hinv.frameOk address (by omega) hapart
  refine hinv.of_wrote hwrote fun b hb => ?_
  have hplaced := hinv.placed hb
  have hword := hplaced.word_toNat
  have hend := hplaced.end_lt hgeo
  have haddress := hplaced.address_eq
  have hge := Nat.mul_le_mul_right h.device.ctx.geometry.sectorSize.toNat hplaced.ge
  refine Mem.read_write_disjoint _ _ (by omega) fun i hi => ?_
  exact Mem.toNat_sub_ge_of_disjoint _ hi (by omega) (by omega) (by omega)

/-- A tame call keeps the heap. -/
theorem Inv.call (hinv : h.Inv) {e : FSCall} (htame : Tame e h) : (handle e h).2.Inv := by
  cases e with
  | geometry => exact hinv
  | memRead address size => exact (hinv.memRead address size.toNat).2.1
  | memWrite address source =>
      rcases htame with ⟨a, ha, hle, hfit⟩ | hheaders
      · have hstart : a.address + UInt32.ofNat (address.toNat - a.address.toNat) = address := by
          have hlt := address.toNat_lt
          rw [← UInt32.toNat_inj, Mem.toNat_add_ofNat (by omega)]
          omega
        have hwrote : Inv ⟨h.device.fsMemWrite
            (a.address + .ofNat (address.toNat - a.address.toNat)) source, h.live⟩ :=
          (hinv.memWrite ha (by omega)).1
        rwa [hstart] at hwrote
      · exact hinv.memWrite_headers hheaders
  | alloc size =>
      have hallowed : h.Allowed (.alloc size) := htame
      exact hinv.step hallowed
  | free address =>
      have hallowed : h.Allowed (.free address) := htame
      exact hinv.step hallowed

variable {α : Type} {p : Prog FSCall FSCall.Answer α} {n : Nat} {value : α}

/-- Keeping track of what is allocated does not change what a program does. -/
theorem run_handle (p : Prog FSCall FSCall.Answer α) (n : Nat) (h : Heap) :
    (p.run n handle h).map (fun result => (result.1, result.2.device)) =
      p.run n Device.handle h.device := by
  induction p generalizing h with
  | ret value => rfl
  | call e next ih => exact ih _ _
  | fuel next ih => exact ih _ _
  | halt => rfl

/-- What a tame program leaves is a heap. -/
theorem Inv.run {h' : Heap} (hinv : h.Inv) (htame : p.Calls n handle Tame h)
    (hrun : p.run n handle h = some (value, h')) : h'.Inv :=
  Prog.run_preserves n handle (fun _ _ hinv htame => hinv.call htame) hinv htame hrun

end Heap

end AvrKernel.BaseFS

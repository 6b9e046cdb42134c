import Mathlib.Order.Interval.Finset.Nat
import Mathlib.Algebra.BigOperators.Group.Finset.Basic
import AvrKernel.BaseFS.Heap
import AvrKernel.BaseFS.Calls

/-!
# Stores

What the allocator and its memory are for: a finite map from addresses to the
bytes allocated there. A heap represents a store, and every call that files and
directories make on a device has its meaning on the store it represents.
-/

namespace AvrKernel.BaseFS

open Bytes Effect

/-! ## The bytes of allocations -/

/-- The header word and the bytes lie in the blocks of the allocation. -/
theorem Allocation.size_le {g : FSGeometry} (hgeo : g.Ok) (a : Allocation) :
    a.size.toNat + 4 ≤ a.count g * g.sectorSize.toNat :=
  FSGeometry.le_div_mul_of_roundUp hgeo.sector_pos (a.size.toNat + 4)

theorem Allocation.count_pos {g : FSGeometry} (hgeo : g.Ok) (a : Allocation) : 0 < a.count g := by
  have hsize := a.size_le hgeo
  by_contra hzero
  rw [Nat.eq_zero_of_not_pos hzero] at hsize
  omega

/-- Where an allocation can lie. -/
structure Placed (g : FSGeometry) (a : Allocation) : Prop where
  sized : Sized g a.size
  address_eq : a.address.toNat = a.first g * g.sectorSize.toNat + 4
  ge : g.reservedBlocks.toNat ≤ a.first g
  fits : a.first g + a.count g ≤ g.blockCount.toNat

namespace Placed

variable {g : FSGeometry} {a b : Allocation}

theorem end_lt (h : Placed g a) (hgeo : g.Ok) : a.address.toNat + a.size.toNat < 2 ^ 32 := by
  have hsize := a.size_le hgeo
  have haddress := h.address_eq
  have hblocks := hgeo.blocks_fit
  have hfits := Nat.mul_le_mul_right g.sectorSize.toNat h.fits
  rw [Nat.add_mul] at hfits
  omega

theorem ne_fsNull (h : Placed g a) (hgeo : g.Ok) : a.address ≠ fsNull := by
  intro heq
  have hend := h.end_lt hgeo
  have hpos := h.sized.1
  rw [heq] at hend
  simp only [fsNull, UInt32.reduceToNat] at hend
  omega

theorem word_toNat (h : Placed g a) : (a.address - 4).toNat + 4 = a.address.toNat := by
  have haddress := h.address_eq
  rw [Mem.toNat_sub_of_le (by simp only [UInt32.reduceToNat]; omega)]
  simp only [UInt32.reduceToNat]
  omega

/-- The bytes of an allocation are not part of the bitmap. -/
theorem apart (h : Placed g a) (hgeo : g.Ok) : g.Apart a.address a.size.toNat := by
  intro k hk
  have hsmall := hgeo.small
  have hend := h.end_lt hgeo
  have haddress := h.address_eq
  have hsized := h.sized.2
  have hk' : (UInt32.ofNat k).toNat = k := by
    rw [UInt32.toNat_ofNat', Nat.mod_eq_of_lt (by omega)]
  simp only [fsBitmapAddress, UInt32.toNat_sub, UInt32.toNat_add, UInt32.reduceToNat, hk']
  obtain hbehind | ⟨hzero, hone, hbyte, hlarge⟩ := hgeo.start
  · have hmul := Nat.mul_le_mul_right g.sectorSize.toNat h.ge
    omega
  · have hsize := a.size_le hgeo
    have hfits := h.fits
    have hfirst : a.first g = 0 := by
      by_contra hne
      have hcount : a.count g = 0 := by omega
      rw [hcount] at hsize
      omega
    rw [hfirst] at haddress
    omega

/-- Disjoint blocks hold their words and bytes at different addresses. -/
theorem spans (ha : Placed g a) (hb : Placed g b) (hgeo : g.Ok) (h : Allocation.Disjoint g a b) :
    a.address.toNat + a.size.toNat + 4 ≤ b.address.toNat ∨
      b.address.toNat + b.size.toNat + 4 ≤ a.address.toNat := by
  have hsizeA := a.size_le hgeo
  have hsizeB := b.size_le hgeo
  have haddressA := ha.address_eq
  have haddressB := hb.address_eq
  refine h.imp (fun hle => ?_) fun hle => ?_
  · have hmul := Nat.mul_le_mul_right g.sectorSize.toNat hle
    rw [Nat.add_mul] at hmul
    omega
  · have hmul := Nat.mul_le_mul_right g.sectorSize.toNat hle
    rw [Nat.add_mul] at hmul
    omega

end Placed

namespace Heap

variable {h : Heap}

theorem Inv.placed (hinv : h.Inv) {a : Allocation} (ha : a ∈ h.live) :
    Placed h.device.ctx.geometry a :=
  ⟨(hinv.sized a ha).1, (hinv.sized a ha).2, (hinv.consistent.inside a ha).1,
    (hinv.consistent.inside a ha).2⟩

theorem Inv.disjoint (hinv : h.Inv) {a b : Allocation} (ha : a ∈ h.live) (hb : b ∈ h.live)
    (hne : a.address ≠ b.address) : Allocation.Disjoint h.device.ctx.geometry a b :=
  hinv.consistent.disjoint.forall ha hb fun heq => hne (by rw [heq])

/-- The bytes of the live allocation at `address`. -/
def cells (h : Heap) (address : UInt32) : Option (List UInt8) :=
  (h.live.find? (·.address = address)).map fun a => h.device.image.read a.address a.size.toNat

theorem Inv.find?_eq (hinv : h.Inv) {a : Allocation} (ha : a ∈ h.live) :
    h.live.find? (·.address = a.address) = some a := by
  cases hfind : h.live.find? (·.address = a.address) with
  | none => simpa using List.find?_eq_none.mp hfind a ha
  | some b =>
      have haddress := List.find?_some hfind
      rw [hinv.eq_of_address (List.mem_of_find?_eq_some hfind) ha (by simpa using haddress)]

theorem Inv.cells_eq (hinv : h.Inv) {a : Allocation} (ha : a ∈ h.live) :
    h.cells a.address = some (h.device.image.read a.address a.size.toNat) := by
  rw [cells, hinv.find?_eq ha, Option.map_some]

theorem cells_eq_none_iff {address : UInt32} :
    h.cells address = none ↔ ∀ a ∈ h.live, a.address ≠ address := by
  simp [cells]

theorem cells_eq_some {address : UInt32} {payload : List UInt8}
    (hcell : h.cells address = some payload) :
    ∃ a ∈ h.live, a.address = address ∧
      payload = h.device.image.read a.address a.size.toNat := by
  obtain ⟨a, hfind, rfl⟩ := Option.map_eq_some_iff.mp hcell
  exact ⟨a, List.mem_of_find?_eq_some hfind, by simpa using List.find?_some hfind, rfl⟩

theorem cells_congr {d : Device}
    (hread : ∀ a ∈ h.live, d.image.read a.address a.size.toNat =
      h.device.image.read a.address a.size.toNat) :
    (Heap.mk d h.live).cells = h.cells := by
  funext address
  simp only [cells]
  cases hfind : h.live.find? (·.address = address) with
  | none => rfl
  | some a => rw [Option.map_some, Option.map_some, hread a (List.mem_of_find?_eq_some hfind)]

/-- Allocated bytes are outside the bitmap. -/
theorem Inv.read_of_outside (hinv : h.Inv) {d : Device}
    (houtside : ∀ address : UInt32,
      h.device.ctx.geometry.bitmapSize.toNat ≤ (address - fsBitmapAddress).toNat →
        d.image address = h.device.image address) {a : Allocation} (ha : a ∈ h.live) :
    d.image.read a.address a.size.toNat = h.device.image.read a.address a.size.toNat :=
  Mem.read_congr _ fun _ hi =>
    houtside _ (Device.apart_outside ((hinv.placed ha).apart hinv.geometry) hi)

/-- Reading, or moving the window or the frame, leaves a heap with its bytes. -/
theorem Inv.of_step (hinv : h.Inv) {d : Device} (hstep : Device.BitmapStep h.device d)
    (hbits : ∀ j < 8 * h.device.ctx.geometry.bitmapSize.toNat, d.bit j = h.device.bit j) :
    Inv ⟨d, h.live⟩ ∧ (Heap.mk d h.live).cells = h.cells :=
  ⟨hinv.of_bitmapStep hstep hbits, cells_congr fun _ ha => hinv.read_of_outside hstep.outside ha⟩

theorem Inv.memRead (hinv : h.Inv) (address : UInt32) (size : Nat) :
    (h.device.fsMemRead address size).1 = h.device.image.read address size ∧
      Inv ⟨(h.device.fsMemRead address size).2, h.live⟩ ∧
      (Heap.mk (h.device.fsMemRead address size).2 h.live).cells = h.cells := by
  obtain ⟨hbytes, hsound, hlogical⟩ := hinv.sound.memRead address size
  refine ⟨hbytes, hinv.of_step ⟨hsound.coherent, hinv.frameOk.of_logical hlogical,
    Device.wiring_of_logical hlogical, fun _ _ => ?_⟩ fun j _ => Device.bit_of_logical hlogical j⟩
  rw [Device.image_of_logical hlogical]

/-- Writing beside the bitmap and the header words of the allocations keeps the heap. -/
theorem Inv.of_wrote (hinv : h.Inv) {address : UInt32} {source : List UInt8} {d : Device}
    (hwrote : Device.Wrote h.device address source d)
    (hword : ∀ a ∈ h.live, (h.device.image.write address source).read (a.address - 4) 4 =
      h.device.image.read (a.address - 4) 4) :
    Inv ⟨d, h.live⟩ := by
  have hgeo := hinv.geometry
  refine ⟨hwrote.sound, hwrote.frameOk, ?_, ?_, ?_, ?_, ?_, ?_⟩
  · simpa only [hwrote.geometry] using hgeo
  · simpa only [hwrote.geometry] using hinv.sized
  · simpa only [hwrote.geometry] using hinv.consistent.inside
  · simpa only [hwrote.geometry] using hinv.consistent.disjoint
  · intro i hi
    simp only [hwrote.geometry] at hi ⊢
    rw [hwrote.bits i (by have := hgeo.bits; omega)]
    exact hinv.consistent.bits i hi
  · intro a ha
    dsimp only
    rw [hwrote.image, hword a ha]
    exact hinv.consistent.header a ha

/-- Writing into an allocation changes its bytes and nothing else. -/
theorem Inv.memWrite (hinv : h.Inv) {a : Allocation} (ha : a ∈ h.live) {off : Nat}
    {source : List UInt8} (hfit : off + source.length ≤ a.size.toNat) :
    Inv ⟨h.device.fsMemWrite (a.address + .ofNat off) source, h.live⟩ ∧
      (Heap.mk (h.device.fsMemWrite (a.address + .ofNat off) source) h.live).cells =
        Function.update h.cells a.address
          (some (patch (h.device.image.read a.address a.size.toNat) off source)) := by
  have hgeo := hinv.geometry
  have hplaced := hinv.placed ha
  have hend := hplaced.end_lt hgeo
  have hstart : (a.address + UInt32.ofNat off).toNat = a.address.toNat + off :=
    Mem.toNat_add_ofNat (by omega)
  have hapart : h.device.ctx.geometry.Apart (a.address + UInt32.ofNat off) source.length := by
    intro k hk
    have hbyte := hplaced.apart hgeo k hk
    have hlt := a.address.toNat_lt
    have hoff : (UInt32.ofNat off).toNat = off := by
      rw [UInt32.toNat_ofNat', Nat.mod_eq_of_lt (by omega)]
    simp only [UInt32.toNat_sub, UInt32.toNat_add, hoff] at hbyte ⊢
    omega
  have hwrote := hinv.sound.memWrite_apart hinv.frameOk _ (by omega) hapart
  -- nothing that ends before the allocation or starts behind it is touched
  have hkept : ∀ (address : UInt32) (n : Nat), address.toNat + n ≤ 2 ^ 32 →
      (a.address.toNat + a.size.toNat ≤ address.toNat ∨ address.toNat + n ≤ a.address.toNat) →
      (h.device.image.write (a.address + .ofNat off) source).read address n =
        h.device.image.read address n := by
    intro address n hn hor
    refine Mem.read_write_disjoint _ _ (by omega) fun i hi => ?_
    exact Mem.toNat_sub_ge_of_disjoint _ hi (by omega) hn (by omega)
  have hword : ∀ b ∈ h.live,
      (h.device.image.write (a.address + .ofNat off) source).read (b.address - 4) 4 =
        h.device.image.read (b.address - 4) 4 := by
    intro b hb
    have hwordB := (hinv.placed hb).word_toNat
    have hendB := (hinv.placed hb).end_lt hgeo
    refine hkept _ _ (by omega) ?_
    by_cases heq : a.address = b.address
    · rw [heq]
      omega
    · have hspans := hplaced.spans (hinv.placed hb) hgeo (hinv.disjoint ha hb heq)
      omega
  refine ⟨hinv.of_wrote hwrote hword, ?_⟩
  · funext address
    by_cases heq : address = a.address
    · subst heq
      rw [Function.update_self, cells, hinv.find?_eq ha, Option.map_some, hwrote.image,
        Mem.read_write_within _ _ hfit (by omega)]
    · rw [Function.update_of_ne heq]
      simp only [cells]
      cases hfind : h.live.find? (·.address = address) with
      | none => rfl
      | some b =>
          have hb := List.mem_of_find?_eq_some hfind
          have hne : a.address ≠ b.address := by
            have hb' : b.address = address := by simpa using List.find?_some hfind
            rw [hb']
            exact Ne.symm heq
          have hendB := (hinv.placed hb).end_lt hgeo
          have hspans := hplaced.spans (hinv.placed hb) hgeo (hinv.disjoint ha hb hne)
          rw [Option.map_some, Option.map_some, hwrote.image, hkept _ _ (by omega) (by omega)]

/-- Allocating or freeing another allocation leaves the bytes of this one. -/
theorem Inv.read_of_reallotted (hinv : h.Inv) {b : Allocation} (hb : b ∈ h.live) {d : Device}
    {s : Nat} {size header address : UInt32} {value : Bool}
    (hallot : Device.Reallotted h.device s size value header address d)
    (hspans : address.toNat ≤ b.address.toNat ∨
      b.address.toNat + b.size.toNat + 4 ≤ address.toNat) :
    d.image.read b.address b.size.toNat = h.device.image.read b.address b.size.toNat := by
  have hlen := FSAllocHeader.layout.encode_length ⟨header⟩
  rw [FSAllocHeader.layout_size] at hlen
  have haddress := hallot.address_eq
  have hbound := address.toNat_lt
  have hword : (address - 4).toNat + 4 = address.toNat := by
    rw [Mem.toNat_sub_of_le (by simp only [UInt32.reduceToNat]; omega)]
    simp only [UInt32.reduceToNat]
    omega
  have hend := (hinv.placed hb).end_lt hinv.geometry
  calc d.image.read b.address b.size.toNat
      = (h.device.image.write (address - 4) (FSAllocHeader.layout.encode ⟨header⟩)).read
          b.address b.size.toNat :=
        Mem.read_congr _ fun _ hi => hallot.image _
          (Device.apart_outside ((hinv.placed hb).apart hinv.geometry) hi)
    _ = h.device.image.read b.address b.size.toNat :=
        Mem.read_write_disjoint _ _ (by omega) fun _ hi =>
          Mem.toNat_sub_ge_of_disjoint _ hi (by omega) (by omega) (by omega)

/-- The new allocation has some bytes; the others keep theirs. -/
theorem Inv.allot_cells (hinv : h.Inv) {size address : UInt32} {s : Nat} {d : Device}
    (hsized : Sized h.device.ctx.geometry size)
    (hlow : FirstFit.Lowest h.device.free h.device.ctx.geometry.reservedBlocks.toNat
      h.device.ctx.geometry.blockCount.toNat (h.device.blocks size) s)
    (hallot : Device.Reallotted h.device s size true size address d) :
    h.cells address = none ∧ (Heap.mk d (⟨address, size⟩ :: h.live)).cells =
      Function.update h.cells address (some (d.image.read address size.toNat)) := by
  have hinv' := hinv.allot hsized hlow hallot
  have hnew : (⟨address, size⟩ : Allocation) ∈ (⟨address, size⟩ :: h.live : List Allocation) :=
    List.mem_cons_self
  have hold : ∀ b ∈ h.live, b.address ≠ address := by
    intro b hb heq
    have hpair := (List.pairwise_cons.mp hinv'.consistent.disjoint).1 b hb
    have hsame := hinv'.eq_of_address (List.mem_cons_of_mem _ hb) hnew heq
    have hpos := hinv'.count_pos hnew
    rw [hsame] at hpair
    unfold Allocation.Disjoint at hpair
    omega
  refine ⟨cells_eq_none_iff.mpr hold, ?_⟩
  funext x
  by_cases heq : x = address
  · subst heq
    rw [Function.update_self]
    exact hinv'.cells_eq hnew
  · rw [Function.update_of_ne heq]
    simp only [cells]
    rw [List.find?_cons_of_neg (by simpa using Ne.symm heq)]
    cases hfind : h.live.find? (·.address = x) with
    | none => rfl
    | some b =>
        have hb := List.mem_of_find?_eq_some hfind
        have hspans := (hinv'.placed hnew).spans (hinv'.placed (List.mem_cons_of_mem _ hb))
          hinv'.geometry (hinv'.disjoint hnew (List.mem_cons_of_mem _ hb) (hold b hb).symm)
        dsimp only at hspans
        rw [Option.map_some, Option.map_some,
          hinv.read_of_reallotted hb hallot (by omega)]

/-- A freed allocation is gone; the others keep their bytes. -/
theorem Inv.release_cells (hinv : h.Inv) {a : Allocation} (ha : a ∈ h.live) {d : Device}
    (hfree : Device.Reallotted h.device (a.first h.device.ctx.geometry) a.size false 0 a.address
      d) :
    (Heap.mk d (h.live.filter (·.address ≠ a.address))).cells =
      Function.update h.cells a.address none := by
  funext x
  by_cases heq : x = a.address
  · subst heq
    rw [Function.update_self]
    exact cells_eq_none_iff.mpr fun b hb => by simpa using (List.mem_filter.mp hb).2
  · rw [Function.update_of_ne heq]
    simp only [cells]
    rw [List.find?_filter]
    have hpred : (fun b : Allocation => decide (decide (b.address ≠ a.address) = true ∧
        decide (b.address = x) = true)) = fun b => decide (b.address = x) := by
      funext b
      by_cases hb : b.address = x <;> simp [hb, heq]
    rw [hpred]
    cases hfind : h.live.find? (·.address = x) with
    | none => rfl
    | some b =>
        have hb := List.mem_of_find?_eq_some hfind
        have hne : b.address ≠ a.address := by
          have hb' : b.address = x := by simpa using List.find?_some hfind
          rwa [hb']
        have hspans := (hinv.placed ha).spans (hinv.placed hb) hinv.geometry
          (hinv.disjoint ha hb hne.symm)
        rw [Option.map_some, Option.map_some, hinv.read_of_reallotted hb hfree (by omega)]

end Heap

/-! ## Stores -/

/-- The bytes of every live allocation of a device with the sizes `g`. -/
@[ext]
structure Store (g : FSGeometry) where
  cells : UInt32 → Option (List UInt8)
  geometry : g.Ok
  length_lt : ∀ {address payload}, cells address = some payload → payload.length < 2 ^ 32
  placed : ∀ {address payload}, cells address = some payload →
    Placed g ⟨address, .ofNat payload.length⟩
  disjoint : ∀ {a b p q}, cells a = some p → cells b = some q → a ≠ b →
    Allocation.Disjoint g ⟨a, .ofNat p.length⟩ ⟨b, .ofNat q.length⟩

/-- The store that a heap represents. -/
def Heap.Inv.store {h : Heap} (hinv : h.Inv) : Store h.device.ctx.geometry where
  cells := h.cells
  geometry := hinv.geometry
  length_lt hcell := by
    obtain ⟨a, -, -, rfl⟩ := Heap.cells_eq_some hcell
    simpa using a.size.toNat_lt
  placed hcell := by
    obtain ⟨a, ha, rfl, rfl⟩ := Heap.cells_eq_some hcell
    simpa using hinv.placed ha
  disjoint hp hq hne := by
    obtain ⟨a, ha, rfl, rfl⟩ := Heap.cells_eq_some hp
    obtain ⟨b, hb, rfl, rfl⟩ := Heap.cells_eq_some hq
    simpa using hinv.disjoint ha hb hne

namespace Store

variable {g : FSGeometry} (S : Store g) {address : UInt32} {payload : List UInt8}

theorem end_lt (hcell : S.cells address = some payload) :
    address.toNat + payload.length < 2 ^ 32 := by
  have hend := (S.placed hcell).end_lt S.geometry
  rwa [UInt32.toNat_ofNat', Nat.mod_eq_of_lt (S.length_lt hcell)] at hend

theorem ne_fsNull (hcell : S.cells address = some payload) : address ≠ fsNull :=
  (S.placed hcell).ne_fsNull S.geometry

theorem four_le (hcell : S.cells address = some payload) : 4 ≤ address.toNat := by
  have haddress := (S.placed hcell).address_eq
  dsimp only at haddress
  omega

/-- Block `i` belongs to a live allocation. -/
def Used (i : Nat) : Prop :=
  ∃ address payload, S.cells address = some payload ∧
    Allocation.Covers g ⟨address, .ofNat payload.length⟩ i

open Classical in
/-- Block `i` belongs to no live allocation. -/
noncomputable def free (i : Nat) : Bool := !decide (S.Used i)

/-- The first block of the first fit for `size` bytes. -/
noncomputable def fit (size : UInt32) : Option Nat :=
  FirstFit.firstFit S.free (g.blocksFor size).toNat g.reservedBlocks.toNat g.blockCount.toNat

/-- The address of the first fit for `size` bytes. -/
noncomputable def place (size : UInt32) : Option UInt32 :=
  (S.fit size).map fun s => .ofNat (s * g.sectorSize.toNat + 4)

variable {S} {S' : Store g}

/-- Which blocks are used depends on the sizes of the allocations. -/
theorem free_congr (h : ∀ a, (S'.cells a).map List.length = (S.cells a).map List.length) :
    S'.free = S.free := by
  have hused : ∀ (S S' : Store g) (i : Nat),
      (∀ a, (S'.cells a).map List.length = (S.cells a).map List.length) → S.Used i → S'.Used i := by
    rintro S S' i h ⟨a, p, hcell, hcovers⟩
    have hlength := h a
    rw [hcell, Option.map_some] at hlength
    obtain ⟨p', hcell', hp'⟩ := Option.map_eq_some_iff.mp hlength
    exact ⟨a, p', hcell', by rwa [hp']⟩
  funext i
  rw [free, free, decide_eq_decide.mpr ⟨hused S' S i fun a => (h a).symm, hused S S' i h⟩]

theorem free_update (hcell : S.cells address = some payload) {payload' : List UInt8}
    (hlen : payload'.length = payload.length)
    (hcells : S'.cells = Function.update S.cells address (some payload')) : S'.free = S.free := by
  refine free_congr fun a => ?_
  by_cases heq : a = address
  · subst heq
    rw [hcells, Function.update_self, hcell, Option.map_some, Option.map_some, hlen]
  · rw [hcells, Function.update_of_ne heq]

theorem used_alloc (hnone : S.cells address = none)
    (hcells : S'.cells = Function.update S.cells address (some payload)) {i : Nat} :
    S'.Used i ↔ S.Used i ∨ Allocation.Covers g ⟨address, .ofNat payload.length⟩ i := by
  constructor
  · rintro ⟨a, p, hcell, hcovers⟩
    by_cases heq : a = address
    · subst heq
      rw [hcells, Function.update_self, Option.some_inj] at hcell
      exact .inr (hcell ▸ hcovers)
    · rw [hcells, Function.update_of_ne heq] at hcell
      exact .inl ⟨a, p, hcell, hcovers⟩
  · rintro (⟨a, p, hcell, hcovers⟩ | hcovers)
    · have heq : a ≠ address := fun heq => by simp [← heq, hcell] at hnone
      exact ⟨a, p, by rw [hcells, Function.update_of_ne heq, hcell], hcovers⟩
    · exact ⟨address, payload, by rw [hcells, Function.update_self], hcovers⟩

/-- Allocating takes the blocks of the first fit. -/
theorem free_alloc {size : UInt32} (hsized : Sized g size) (hplace : S.place size = some address)
    (hnone : S.cells address = none) (hlen : payload.length = size.toNat)
    (hcells : S'.cells = Function.update S.cells address (some payload)) :
    ∃ s, S.fit size = some s ∧ S'.free = FirstFit.occupy S.free s (g.blocksFor size).toNat := by
  obtain ⟨s, hfit, haddress⟩ := Option.map_eq_some_iff.mp hplace
  refine ⟨s, hfit, ?_⟩
  have hpos := S.geometry.sector_pos
  have hneed : (g.blocksFor size).toNat = Allocation.count g ⟨address, size⟩ := by
    rw [FSGeometry.blocksFor_toNat hpos hsized.2, Allocation.count, Nat.add_comm size.toNat]
  have hcell : S'.cells address = some payload := by rw [hcells, Function.update_self]
  have hsize : UInt32.ofNat payload.length = size := by rw [hlen, UInt32.ofNat_toNat]
  have hplaced := S'.placed hcell
  rw [hsize] at hplaced
  have hlow : FirstFit.Lowest S.free g.reservedBlocks.toNat g.blockCount.toNat
      (g.blocksFor size).toNat s := by
    refine FirstFit.firstFit_some ?_ hfit
    have hmul := Allocation.size_le S.geometry ⟨address, size⟩
    rw [hneed]
    by_contra hzero
    rw [Nat.eq_zero_of_not_pos hzero] at hmul
    omega
  have hfirst : Allocation.first g ⟨address, size⟩ = s := by
    have hblocks := S.geometry.blocks_fit
    have hfits := Nat.mul_le_mul_right g.sectorSize.toNat hlow.fits
    rw [hneed, Nat.add_mul] at hfits
    have hmul := Allocation.size_le S.geometry ⟨address, size⟩
    refine Heap.first_of_address hpos ?_
    rw [← haddress, UInt32.toNat_ofNat', Nat.mod_eq_of_lt (by dsimp only at *; omega)]
  funext i
  rw [Bool.eq_iff_iff]
  simp only [free, FirstFit.occupy, used_alloc hnone hcells, hsize, Allocation.Covers, hfirst,
    hneed, Bool.not_eq_true', decide_eq_false_iff_not, Bool.and_eq_true, not_or]

/-- How many blocks are free. -/
noncomputable def room (S : Store g) : Nat :=
  ((Finset.range g.blockCount.toNat).filter fun i => S.free i = true).card

theorem room_alloc {size : UInt32} (hsized : Sized g size) (hplace : S.place size = some address)
    (hnone : S.cells address = none) (hlen : payload.length = size.toNat)
    (hcells : S'.cells = Function.update S.cells address (some payload)) : S'.room < S.room := by
  obtain ⟨s, hfit, hfree⟩ := free_alloc hsized hplace hnone hlen hcells
  have hneed := FSGeometry.blocksFor_toNat S.geometry.sector_pos hsized.2
  have hpos : 0 < (g.blocksFor size).toNat := by
    rw [hneed]
    exact Nat.div_pos (by omega) S.geometry.sector_pos
  have hlow := FirstFit.firstFit_some hpos hfit
  have hfits := hlow.fits
  refine Finset.card_lt_card (Finset.ssubset_iff_of_subset ?_ |>.mpr ⟨s, ?_, ?_⟩)
  · intro i hi
    simp only [Finset.mem_filter, hfree, FirstFit.occupy, Bool.and_eq_true] at hi ⊢
    exact ⟨hi.1, hi.2.1⟩
  · rw [Finset.mem_filter, Finset.mem_range]
    exact ⟨by omega, hlow.run s (Nat.le_refl s) (by omega)⟩
  · rw [Finset.mem_filter, hfree, FirstFit.occupy]
    simp [hpos]

theorem free_empty (hempty : S.cells = fun _ => none) : S.free = fun _ => true := by
  funext i
  simp [free, Used, hempty]

/-- In an empty store the first fit starts behind the reserved blocks. -/
theorem fit_empty (hempty : S.cells = fun _ => none) {size : UInt32}
    (hneed : 0 < (g.blocksFor size).toNat)
    (hfits : g.reservedBlocks.toNat + (g.blocksFor size).toNat ≤ g.blockCount.toNat) :
    S.fit size = some g.reservedBlocks.toNat := by
  have hlow : FirstFit.Lowest S.free g.reservedBlocks.toNat g.blockCount.toNat
      (g.blocksFor size).toNat g.reservedBlocks.toNat :=
    ⟨Nat.le_refl _, hfits, fun i _ _ => by rw [free_empty hempty], fun _ hlo _ => hlo⟩
  exact (FirstFit.firstFit_eq_some_iff hneed).mpr hlow

theorem place_empty (hempty : S.cells = fun _ => none) {size : UInt32}
    (hneed : 0 < (g.blocksFor size).toNat)
    (hfits : g.reservedBlocks.toNat + (g.blocksFor size).toNat ≤ g.blockCount.toNat) :
    S.place size = some (.ofNat (g.reservedBlocks.toNat * g.sectorSize.toNat + 4)) := by
  rw [place, fit_empty hempty hneed hfits, Option.map_some]

theorem room_lt : S.room < 2 ^ 32 := by
  refine Nat.lt_of_le_of_lt ?_ g.blockCount.toNat_lt
  exact (Finset.card_filter_le _ _).trans_eq (Finset.card_range _)

end Store

/-- There are no more allocations than blocks. -/
theorem Store.length_le {g : FSGeometry} {S : Store g} {as : List UInt32} (hnodup : as.Nodup)
    (hheld : ∀ a ∈ as, S.cells a ≠ none) : as.length ≤ g.blockCount.toNat := by
  have hinj : ∀ a ∈ as, ∀ b ∈ as, Allocation.first g ⟨a, 0⟩ = Allocation.first g ⟨b, 0⟩ →
      a = b := by
    intro a ha b hb heq
    by_contra hne
    obtain ⟨p, hp⟩ := Option.ne_none_iff_exists'.mp (hheld a ha)
    obtain ⟨q, hq⟩ := Option.ne_none_iff_exists'.mp (hheld b hb)
    have hposA := Allocation.count_pos S.geometry ⟨a, .ofNat p.length⟩
    have hposB := Allocation.count_pos S.geometry ⟨b, .ofNat q.length⟩
    have hdisjoint := S.disjoint hp hq hne
    simp only [Allocation.Disjoint, Allocation.first] at hdisjoint heq
    omega
  have hsub : as.map (fun a => Allocation.first g ⟨a, 0⟩) ⊆ List.range g.blockCount.toNat := by
    intro i hi
    obtain ⟨a, ha, rfl⟩ := List.mem_map.mp hi
    obtain ⟨p, hp⟩ := Option.ne_none_iff_exists'.mp (hheld a ha)
    have hpos := Allocation.count_pos S.geometry ⟨a, .ofNat p.length⟩
    have hfits := (S.placed hp).fits
    rw [List.mem_range]
    simp only [Allocation.first] at hfits ⊢
    omega
  simpa using (List.subperm_of_subset (hnodup.map_on hinj) hsub).length_le

/-- The blocks that the allocation at `address` takes. -/
def Store.blocksAt {g : FSGeometry} (S : Store g) (address : UInt32) : Nat :=
  Allocation.count g ⟨address, .ofNat ((S.cells address).getD []).length⟩

/-- Allocations do not take more blocks than there are. -/
theorem Store.length_blocks_le {g : FSGeometry} {S : Store g} {as : List UInt32} (hnodup : as.Nodup)
    (hheld : ∀ a ∈ as, S.cells a ≠ none) : (as.map S.blocksAt).sum ≤ g.blockCount.toNat := by
  let blocks (a : UInt32) : Finset Nat :=
    Finset.Ico (Allocation.first g ⟨a, 0⟩) (Allocation.first g ⟨a, 0⟩ + S.blocksAt a)
  have hdisjoint : (as.toFinset : Set UInt32).PairwiseDisjoint blocks := by
    intro a ha b hb hne
    obtain ⟨p, hp⟩ := Option.ne_none_iff_exists'.mp (hheld a (by simpa using ha))
    obtain ⟨q, hq⟩ := Option.ne_none_iff_exists'.mp (hheld b (by simpa using hb))
    have hapart := S.disjoint hp hq hne
    simp only [Allocation.Disjoint, Allocation.first] at hapart
    rw [Function.onFun, Finset.disjoint_left]
    intro i hi hi'
    simp only [blocks, blocksAt, hp, hq, Option.getD_some, Finset.mem_Ico,
      Allocation.first] at hi hi'
    omega
  have hsub : as.toFinset.biUnion blocks ⊆ Finset.range g.blockCount.toNat := by
    intro i hi
    rw [Finset.mem_biUnion] at hi
    obtain ⟨a, ha, hi⟩ := hi
    obtain ⟨p, hp⟩ := Option.ne_none_iff_exists'.mp (hheld a (by simpa using ha))
    have hfits := (S.placed hp).fits
    simp only [blocks, blocksAt, hp, Option.getD_some, Finset.mem_Ico, Finset.mem_range,
      Allocation.first] at hi hfits ⊢
    omega
  calc (as.map S.blocksAt).sum
      = ∑ a ∈ as.toFinset, (blocks a).card := by
        simp only [blocks, Nat.card_Ico, Nat.add_sub_cancel_left, List.sum_toFinset _ hnodup]
    _ = (as.toFinset.biUnion blocks).card := (Finset.card_biUnion hdisjoint).symm
    _ ≤ g.blockCount.toNat := (Finset.card_le_card hsub).trans_eq (Finset.card_range _)

/-- The bytes of allocations fit into the address space. -/
theorem Store.length_sum_lt {g : FSGeometry} {S : Store g} {as : List UInt32} (hnodup : as.Nodup)
    (hheld : ∀ a ∈ as, S.cells a ≠ none) :
    (as.map fun a => ((S.cells a).getD []).length).sum < 2 ^ 32 := by
  have hblocks := S.geometry.blocks_fit
  have hsum := Nat.mul_le_mul_right g.sectorSize.toNat (length_blocks_le hnodup hheld)
  have hbytes : (as.map fun a => ((S.cells a).getD []).length).sum ≤
      (as.map S.blocksAt).sum * g.sectorSize.toNat := by
    clear hnodup hsum
    induction as with
    | nil => exact Nat.zero_le _
    | cons a as ih =>
        obtain ⟨payload, hcell⟩ := Option.ne_none_iff_exists'.mp (hheld a List.mem_cons_self)
        have hsize := Allocation.size_le S.geometry ⟨a, .ofNat payload.length⟩
        have hrest := ih fun b hb => hheld b (List.mem_cons_of_mem _ hb)
        dsimp only at hsize
        rw [UInt32.toNat_ofNat', Nat.mod_eq_of_lt (S.length_lt hcell)] at hsize
        rw [List.map_cons, List.map_cons, List.sum_cons, List.sum_cons, Nat.add_mul, blocksAt,
          hcell, Option.getD_some]
        omega
  omega

/-- `S'` is `S` after an operation on the allocations at `as`, which are now at `as'`: what was
given up is free, what was taken was free, and everything else is as it was. -/
structure Store.Changed {g : FSGeometry} (S S' : Store g) (as as' : List UInt32) : Prop where
  outside : ∀ a ∉ as, a ∉ as' → S'.cells a = S.cells a
  dropped : ∀ a ∈ as, a ∉ as' → S'.cells a = none
  fresh : ∀ a ∈ as', a ∉ as → S.cells a = none

namespace Store.Changed

variable {g : FSGeometry} {S S' S'' : Store g} {as as' as'' : List UInt32}

theorem refl : S.Changed S as as :=
  ⟨fun _ _ _ => rfl, fun _ hin hout => absurd hin hout, fun _ hin hout => absurd hin hout⟩

/-- Whatever else was allocated is still there. -/
theorem kept (h : S.Changed S' as as') {a : UInt32} (hout : a ∉ as) (hheld : S.cells a ≠ none) :
    S'.cells a = S.cells a :=
  h.outside a hout fun hin => hheld (h.fresh a hin hout)

theorem trans (h : S.Changed S' as as') (h' : S'.Changed S'' as' as'') : S.Changed S'' as as'' := by
  constructor
  · intro a hout hout''
    by_cases hin : a ∈ as'
    · rw [h'.dropped a hin hout'', h.fresh a hin hout]
    · rw [h'.outside a hin hout'', h.outside a hout hin]
  · intro a hin hout''
    by_cases hin' : a ∈ as'
    · exact h'.dropped a hin' hout''
    · rw [h'.outside a hin' hout'', h.dropped a hin hin']
  · intro a hin'' hout
    by_cases hin' : a ∈ as'
    · exact h.fresh a hin' hout
    · rw [← h.outside a hout hin', h'.fresh a hin'' hin']

theorem cons {address : UInt32}
    (outside : ∀ a, a ≠ address → a ∉ as → a ∉ as' → S'.cells a = S.cells a)
    (dropped : ∀ a ∈ as, a ∉ as' → S'.cells a = none)
    (fresh : ∀ a ∈ as', a ∉ as → S.cells a = none) :
    S.Changed S' (address :: as) (address :: as') := by
  constructor
  · intro a hout hout'
    rw [List.mem_cons, not_or] at hout hout'
    exact outside a hout.1 hout.2 hout'.2
  · intro a hin hout
    rw [List.mem_cons, not_or] at hout
    exact dropped a ((List.mem_cons.mp hin).resolve_left hout.1) hout.2
  · intro a hin hout
    rw [List.mem_cons, not_or] at hout
    exact fresh a ((List.mem_cons.mp hin).resolve_left hout.1) hout.2

theorem update {a : UInt32} {cell : Option (List UInt8)} (ha : a ∈ as)
    (hcells : S'.cells = Function.update S.cells a cell) : S.Changed S' as as :=
  ⟨fun b hout _ => by rw [hcells, Function.update_of_ne (ne_of_mem_of_not_mem ha hout).symm],
    fun _ hin hout => absurd hin hout, fun _ hin hout => absurd hin hout⟩

end Store.Changed

/-! ## Devices that hold a store -/

/-- The device is a heap that represents `S`. -/
def Device.Holds {g : FSGeometry} (d : Device) (S : Store g) : Prop :=
  d.ctx.geometry = g ∧ ∃ live, (Heap.mk d live).Inv ∧ S.cells = (Heap.mk d live).cells

/-- Requests of `size` bytes are answered as first fits: their size can be rounded to blocks,
or no block is free. -/
def Store.Serves {g : FSGeometry} (S : Store g) (size : UInt32) : Prop :=
  Sized g size ∨ ∀ i, g.reservedBlocks.toNat ≤ i → i < g.blockCount.toNat → S.Used i

/-- A device with an allocation has blocks small enough for requests of up to a few
thousand bytes, or it has only the one block. -/
theorem Store.serves_of_held {g : FSGeometry} {S : Store g} {address : UInt32}
    (hheld : S.cells address ≠ none) {size : UInt32} (hpos : 0 < size.toNat)
    (hsmall : size.toNat ≤ 4108) : S.Serves size := by
  obtain ⟨payload, hcell⟩ := Option.ne_none_iff_exists'.mp hheld
  have hplaced := S.placed hcell
  have hcount := Allocation.count_pos S.geometry ⟨address, .ofNat payload.length⟩
  have hge := hplaced.ge
  have hfits := hplaced.fits
  have hblocks := S.geometry.blocks_fit
  obtain hbehind | ⟨hzero, hone, -⟩ := S.geometry.start
  · have hreserved : 0 < g.reservedBlocks.toNat := by
      by_contra hzero
      rw [Nat.eq_zero_of_not_pos hzero] at hbehind
      omega
    have hdouble := Nat.mul_le_mul_right g.sectorSize.toNat (show 2 ≤ g.blockCount.toNat by omega)
    exact .inl ⟨hpos, by omega⟩
  · refine .inr fun i _ hlt => ⟨address, payload, hcell, ?_⟩
    constructor <;> omega

namespace Device.Holds

variable {g : FSGeometry} {S : Store g} {d : Device} {address size : UInt32}

theorem exists_store {d' : Device} {live : List Allocation} (hg : d'.ctx.geometry = g)
    (hinv : (Heap.mk d' live).Inv) :
    ∃ S' : Store g, S'.cells = (Heap.mk d' live).cells ∧ d'.Holds S' := by
  subst hg
  exact ⟨hinv.store, rfl, rfl, live, hinv, rfl⟩

theorem memRead (h : d.Holds S) (address : UInt32) (size : Nat) :
    (d.fsMemRead address size).1 = d.image.read address size ∧
      (d.fsMemRead address size).2.Holds S := by
  obtain ⟨rfl, live, hinv, hcells⟩ := h
  obtain ⟨hbytes, hinv', hcells'⟩ := hinv.memRead address size
  have hlogical := (hinv.sound.memRead address size).2.2
  exact ⟨hbytes, Device.geometry_of_logical hlogical, live, hinv', hcells.trans hcells'.symm⟩

theorem cell (h : d.Holds S) {payload : List UInt8} (hcell : S.cells address = some payload) :
    d.image.read address payload.length = payload ∧
      d.image.read (address - 4) 4 = FSAllocHeader.layout.encode ⟨.ofNat payload.length⟩ := by
  obtain ⟨rfl, live, hinv, hcells⟩ := h
  rw [hcells] at hcell
  obtain ⟨a, ha, rfl, rfl⟩ := Heap.cells_eq_some hcell
  simpa using hinv.consistent.header a ha

theorem memWrite (h : d.Holds S) {payload source : List UInt8} {off : Nat}
    (hcell : S.cells address = some payload) (hfit : off + source.length ≤ payload.length) :
    ∃ S' : Store g, S'.cells = Function.update S.cells address (some (patch payload off source)) ∧
      (d.fsMemWrite (address + .ofNat off) source).Holds S' := by
  obtain ⟨rfl, live, hinv, hcells⟩ := h
  have hgeometry := hinv.sound.memWrite_geometry (address + .ofNat off) source
  rw [hcells] at hcell ⊢
  obtain ⟨a, ha, rfl, rfl⟩ := Heap.cells_eq_some hcell
  rw [Mem.read_length] at hfit
  obtain ⟨hinv', hcells'⟩ := hinv.memWrite ha hfit
  rw [← hcells']
  exact exists_store hgeometry hinv'

theorem free (h : d.Holds S) {payload : List UInt8} (hcell : S.cells address = some payload) :
    ∃ S' : Store g, S'.cells = Function.update S.cells address none ∧
      (d.fsFree address).Holds S' := by
  obtain ⟨rfl, live, hinv, hcells⟩ := h
  rw [hcells] at hcell ⊢
  obtain ⟨a, ha, rfl, rfl⟩ := Heap.cells_eq_some hcell
  have hgeo := hinv.geometry
  have hplaced := hinv.placed ha
  have hfits := hplaced.fits
  rw [Heap.count_eq_blocks hgeo.sector_pos hplaced.sized] at hfits
  have hfree := hinv.sound.free hinv.frameOk hgeo (hplaced.ne_fsNull hgeo) hplaced.sized.2
    hplaced.address_eq hplaced.ge hfits (hinv.consistent.header a ha)
  rw [← hinv.release_cells ha hfree]
  exact exists_store hfree.geometry (hinv.release ha hfree)

/-- The bits of the blocks tell which ones are reserved or used. -/
theorem bit_iff (h : d.Holds S) {i : Nat} (hlt : i < g.blockCount.toNat) :
    d.bit i = true ↔ i < g.reservedBlocks.toNat ∨ S.Used i := by
  obtain ⟨rfl, live, hinv, hcells⟩ := h
  rw [hinv.consistent.bits i (.inl hlt)]
  refine or_congr_right ⟨?_, ?_⟩
  · rintro ⟨a, ha, hcovers⟩
    refine ⟨a.address, _, by rw [hcells]; exact hinv.cells_eq ha, ?_⟩
    simpa using hcovers
  · rintro ⟨address, payload, hcell, hcovers⟩
    rw [hcells] at hcell
    obtain ⟨a, ha, rfl, rfl⟩ := Heap.cells_eq_some hcell
    exact ⟨a, ha, by simpa using hcovers⟩

theorem free_eq (h : d.Holds S) {i : Nat} (hge : g.reservedBlocks.toNat ≤ i)
    (hlt : i < g.blockCount.toNat) : d.free i = true ↔ ¬ S.Used i := by
  rw [Device.free, Bool.not_eq_true', ← Bool.not_eq_true, h.bit_iff hlt, not_iff_not,
    or_iff_right (Nat.not_lt.mpr hge)]

/-- A formatted device holds nothing yet. -/
theorem of_fresh {deviceType : FSDeviceType} {part : FSPartitionBlock} {disk : Mem}
    (h : d.Fresh deviceType part disk) (hgeo : d.ctx.geometry.Ok) (hg : d.ctx.geometry = g) :
    ∃ S : Store g, S.cells = (fun _ => none) ∧ d.Holds S := by
  obtain ⟨S, hcells, hd⟩ := exists_store hg (Heap.Inv.of_fresh h hgeo)
  exact ⟨S, hcells, hd⟩

/-- `fs_alloc` finds nothing on a device whose blocks are all used. -/
theorem alloc_full (h : d.Holds S)
    (hfull : ∀ i, g.reservedBlocks.toNat ≤ i → i < g.blockCount.toNat → S.Used i) :
    S.place size = none ∧ (d.fsAlloc size).1 = fsNull ∧ (d.fsAlloc size).2.Holds S := by
  have hused : ∀ i, g.reservedBlocks.toNat ≤ i → i < g.blockCount.toNat → d.free i = false :=
    fun i hge hlt => Bool.eq_false_iff.mpr fun hfree =>
      (h.free_eq hge hlt).mp hfree (hfull i hge hlt)
  have hplace : S.place size = none := by
    rw [Store.place, Store.fit, FirstFit.firstFit_eq_none_of_used, Option.map_none]
    intro i hge hlt
    simp [Store.free, hfull i hge hlt]
  obtain ⟨rfl, live, hinv, hcells⟩ := h
  obtain ⟨hfound, hstep, hbits⟩ :=
    hinv.sound.findRun hinv.frameOk hinv.geometry (d.ctx.geometry.blocksFor size)
  rw [FirstFit.firstFit_eq_none_of_used hused, Option.map_eq_none_iff] at hfound
  obtain ⟨hinv', hcells'⟩ := hinv.of_step hstep hbits
  simp only [Device.fsAlloc, hfound]
  exact ⟨hplace, trivial, hstep.geometry, live, hinv', hcells.trans hcells'.symm⟩

/-- `fs_alloc` takes the first fit, or reports that there is none. -/
theorem alloc (h : d.Holds S) (hsized : Sized g size) :
    (S.place size = none → (d.fsAlloc size).1 = fsNull ∧ (d.fsAlloc size).2.Holds S) ∧
      ∀ address, S.place size = some address →
        (d.fsAlloc size).1 = address ∧ S.cells address = none ∧
          ∃ (S' : Store g) (payload : List UInt8), payload.length = size.toNat ∧
            S'.cells = Function.update S.cells address (some payload) ∧
            (d.fsAlloc size).2.Holds S' := by
  have hfit : S.fit size = FirstFit.firstFit d.free (g.blocksFor size).toNat
      g.reservedBlocks.toNat g.blockCount.toNat := by
    refine FirstFit.firstFit_congr fun i hge hlt => Bool.eq_iff_iff.mpr ?_
    rw [h.free_eq hge hlt, Store.free, Bool.not_eq_true', decide_eq_false_iff_not]
  simp only [Store.place, hfit]
  obtain ⟨rfl, live, hinv, hcells⟩ := h
  have hgeo := hinv.geometry
  have hneed := Device.blocks_pos hgeo.sector_pos hsized.2
  have hspec := hinv.sound.alloc hinv.frameOk hgeo hsized.2
  rw [Device.blocks] at hspec
  cases hslot : FirstFit.firstFit d.free (d.ctx.geometry.blocksFor size).toNat
      d.ctx.geometry.reservedBlocks.toNat d.ctx.geometry.blockCount.toNat with
  | none =>
      rw [hslot] at hspec
      obtain ⟨hnull, hstep, hbits⟩ := hspec
      obtain ⟨hinv', hcells'⟩ := hinv.of_step hstep hbits
      exact ⟨fun _ => ⟨hnull, hstep.geometry, live, hinv', hcells.trans hcells'.symm⟩,
        fun address hsome => by cases hsome⟩
  | some s =>
      rw [hslot] at hspec
      have hlow := FirstFit.firstFit_some hneed hslot
      obtain ⟨hnone, hupdate⟩ := hinv.allot_cells hsized hlow hspec
      refine ⟨fun hnone => (by cases hnone), fun address haddress => ?_⟩
      have heq : (d.fsAlloc size).1 = address := by
        rw [Option.map_some, Option.some_inj, ← hspec.address_eq, UInt32.ofNat_toNat] at haddress
        exact haddress
      rw [← heq, hcells]
      refine ⟨rfl, hnone, ?_⟩
      obtain ⟨S', hcells', hholds⟩ := exists_store hspec.geometry (hinv.allot hsized hlow hspec)
      exact ⟨S', _, Mem.read_length .., hcells'.trans hupdate, hholds⟩

/-- Two stores that a device holds have the same allocations. The first of the used blocks starts
an allocation of either, whose size the word in front of it tells. -/
theorem cells_eq_some {S' : Store g} (h : d.Holds S) (h' : d.Holds S') {payload : List UInt8}
    (hcell : S.cells address = some payload) : S'.cells address = some payload := by
  induction hi : Allocation.first g ⟨address, .ofNat payload.length⟩ using Nat.strong_induction_on
    generalizing S S' address payload with
  | _ i ih =>
    have hplaced := S.placed hcell
    have hcount := Allocation.count_pos S.geometry ⟨address, .ofNat payload.length⟩
    have hfits := hplaced.fits
    have hused : S.Used i := ⟨address, payload, hcell, by constructor <;> omega⟩
    have hbit : d.bit i = true := (h.bit_iff (by omega)).mpr (.inr hused)
    have hreserved : ¬i < g.reservedBlocks.toNat := Nat.not_lt.mpr (hi ▸ hplaced.ge)
    obtain ⟨address', payload', hcell', hcovers⟩ :=
      ((h'.bit_iff (by omega)).mp hbit).resolve_left hreserved
    obtain hlt | heq := Nat.lt_or_eq_of_le hcovers.1
    · have hsame := ih _ hlt h' h hcell' rfl
      have hne : address ≠ address' := by
        rintro rfl
        rw [Option.some.inj (hcell.symm.trans hsame)] at hi
        omega
      have hcovered := hcovers.2
      rcases S.disjoint hcell hsame hne with hdisjoint | hdisjoint <;> omega
    · have haddress : address' = address := by
        rw [← UInt32.toNat_inj]
        have hfirst := (S'.placed hcell').address_eq
        have hfirst' := hplaced.address_eq
        rw [heq] at hfirst
        rw [hi] at hfirst'
        exact hfirst.trans hfirst'.symm
      subst haddress
      obtain ⟨hbytes, hword⟩ := h.cell hcell
      obtain ⟨hbytes', hword'⟩ := h'.cell hcell'
      have hsize : (⟨.ofNat payload.length⟩ : FSAllocHeader) = ⟨.ofNat payload'.length⟩ := by
        rw [← FSAllocHeader.layout.decode_encode_self ⟨.ofNat payload.length⟩, ← hword, hword',
          FSAllocHeader.layout.decode_encode_self]
      have hlength : payload.length = payload'.length := by
        have hnat := congrArg (fun header : FSAllocHeader => header.size.toNat) hsize
        have hlt := S.length_lt hcell
        have hlt' := S'.length_lt hcell'
        simp only [UInt32.toNat_ofNat'] at hnat
        omega
      rw [hcell', ← hbytes', ← hlength, hbytes]

/-- A device holds one store. -/
theorem unique {S' : Store g} (h : d.Holds S) (h' : d.Holds S') : S' = S := by
  refine Store.ext (funext fun address => ?_)
  cases hcell : S.cells address with
  | some payload => exact h.cells_eq_some h' hcell
  | none =>
      cases hcell' : S'.cells address with
      | none => rfl
      | some payload =>
          rw [h'.cells_eq_some h hcell'] at hcell
          cases hcell

end Device.Holds

/-- A drive of zeros, formatted and opened, holds the empty store. -/
theorem Store.exists_empty (capacity : UInt32) {sectorSize : UInt32} (hpos : 0 < sectorSize.toNat)
    (hcount : capacity.toNat / sectorSize.toNat + 7 < 2 ^ 32) :
    ∃ (d : Device) (S : Store (.ofPartition .ata (Device.formatPartition capacity sectorSize))),
      freshDevice capacity sectorSize = some d ∧ S.cells = (fun _ => none) ∧ d.Holds S := by
  obtain ⟨-, d, -, -, hd, hfresh⟩ := exists_freshDevice capacity hpos
  have hgeo : d.ctx.geometry.Ok := by
    rw [hfresh.geometry]
    exact FSGeometry.ofPartition_ok _ hpos hcount
  exact ⟨d, (Device.Holds.of_fresh hfresh hgeo hfresh.geometry).imp fun _ h => ⟨hd, h⟩⟩

end AvrKernel.BaseFS

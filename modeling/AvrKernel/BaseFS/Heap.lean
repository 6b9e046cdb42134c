import AvrKernel.BaseFS.Format
import AvrKernel.Lib.Trace
import Mathlib.Data.List.Pairwise

/-!
# Allocation histories

The device together with the list of what was allocated and not yet freed. The
list is only bookkeeping: no operation reads it.
-/

namespace AvrKernel.BaseFS

open Bytes

structure Allocation where
  address : UInt32
  size : UInt32
  deriving DecidableEq

namespace Allocation

variable (g : FSGeometry) (a : Allocation)

/-- The block that holds the header word. -/
def first : Nat := (a.address.toNat - 4) / g.sectorSize.toNat

/-- The blocks that `size` bytes and the header word need. -/
def count : Nat := (a.size.toNat + 4 + g.sectorSize.toNat - 1) / g.sectorSize.toNat

/-- Block `i` belongs to the allocation. -/
def Covers (i : Nat) : Prop := a.first g ≤ i ∧ i < a.first g + a.count g

def Disjoint (a b : Allocation) : Prop :=
  a.first g + a.count g ≤ b.first g ∨ b.first g + b.count g ≤ a.first g

end Allocation

/-- The sizes for which the rounding in `fs_alloc` does not overflow. -/
def Sized (g : FSGeometry) (size : UInt32) : Prop :=
  0 < size.toNat ∧ 4 + size.toNat + g.sectorSize.toNat - 1 < 2 ^ 32

structure Heap where
  device : Device
  live : List Allocation

inductive HeapOp
  | alloc (size : UInt32)
  | free (address : UInt32)

namespace Heap

/-- The address that `fs_alloc` returns, and the heap after the operation. -/
def step (h : Heap) : HeapOp → Option UInt32 × Heap
  | .alloc size =>
      let result := h.device.fsAlloc size
      (some result.1,
        ⟨result.2, if result.1 = fsNull then h.live else ⟨result.1, size⟩ :: h.live⟩)
  | .free address => (none, ⟨h.device.fsFree address, h.live.filter (·.address ≠ address)⟩)

/-- Only live addresses are freed. -/
def Allowed (h : Heap) : HeapOp → Prop
  | .alloc size => Sized h.device.ctx.geometry size
  | .free address => ∃ a ∈ h.live, a.address = address

instance Allowed.decidable (h : Heap) : (op : HeapOp) → Decidable (h.Allowed op)
  | .alloc _ => inferInstanceAs (Decidable (_ ∧ _))
  | .free address => inferInstanceAs (Decidable (∃ a ∈ h.live, a.address = address))

/-- What holds of the allocator between operations. -/
structure Consistent (h : Heap) : Prop where
  inside : ∀ a ∈ h.live, h.device.ctx.geometry.reservedBlocks.toNat ≤
      a.first h.device.ctx.geometry ∧
    a.first h.device.ctx.geometry + a.count h.device.ctx.geometry ≤
      h.device.ctx.geometry.blockCount.toNat
  disjoint : h.live.Pairwise (Allocation.Disjoint h.device.ctx.geometry)
  bits : ∀ i, i < h.device.ctx.geometry.blockCount.toNat ∨
      i < 8 * h.device.ctx.geometry.bitmapSize.toNat →
    (h.device.bit i = true ↔ i < h.device.ctx.geometry.reservedBlocks.toNat ∨
      ∃ a ∈ h.live, a.Covers h.device.ctx.geometry i)
  header : ∀ a ∈ h.live,
    h.device.image.read (a.address - 4) 4 = FSAllocHeader.layout.encode ⟨a.size⟩

/-- What `fs_alloc` answers to a request for `size` bytes. -/
def FirstFitAnswer (h : Heap) (size : UInt32) : Prop :=
  let g := h.device.ctx.geometry
  let answer := (h.device.fsAlloc size).1
  let need := Allocation.count g ⟨answer, size⟩
  (answer = fsNull → ∀ s, g.reservedBlocks.toNat ≤ s → s + need ≤ g.blockCount.toNat →
    ¬ FirstFit.Run h.device.free s need) ∧
  (answer ≠ fsNull → FirstFit.Lowest h.device.free g.reservedBlocks.toNat g.blockCount.toNat need
    (Allocation.first g ⟨answer, size⟩))

/-- The consistent heaps on a device whose sizes fit. -/
structure Inv (h : Heap) : Prop where
  sound : h.device.Sound
  frameOk : h.device.FrameOk
  geometry : h.device.ctx.geometry.Ok
  sized : ∀ a ∈ h.live, Sized h.device.ctx.geometry a.size ∧
    a.address.toNat = a.first h.device.ctx.geometry * h.device.ctx.geometry.sectorSize.toNat + 4
  consistent : h.Consistent

variable {h : Heap}

theorem count_eq_blocks {a : Allocation} {d : Device} (hpos : 0 < d.ctx.geometry.sectorSize.toNat)
    (hsized : Sized d.ctx.geometry a.size) : a.count d.ctx.geometry = d.blocks a.size := by
  rw [Device.blocks, FSGeometry.blocksFor_toNat hpos hsized.2, Allocation.count,
    Nat.add_comm a.size.toNat]

theorem first_of_address {g : FSGeometry} {a : Allocation} {s : Nat} (hpos : 0 < g.sectorSize.toNat)
    (haddress : a.address.toNat = s * g.sectorSize.toNat + 4) : a.first g = s := by
  rw [Allocation.first, haddress, Nat.add_sub_cancel, Nat.mul_div_cancel _ hpos]

/-- An allocation's header word and bytes fit its blocks. -/
theorem Inv.mul_count (hinv : h.Inv) {a : Allocation} (ha : a ∈ h.live) :
    4 < a.count h.device.ctx.geometry * h.device.ctx.geometry.sectorSize.toNat := by
  have hsized := (hinv.sized a ha).1
  have hmul := Device.blocks_mul hinv.geometry.sector_pos hsized.2
  rw [count_eq_blocks hinv.geometry.sector_pos hsized]
  have hpos := hsized.1
  omega

theorem Inv.count_pos (hinv : h.Inv) {a : Allocation} (ha : a ∈ h.live) :
    0 < a.count h.device.ctx.geometry := by
  have hmul := hinv.mul_count ha
  by_contra hzero
  rw [Nat.eq_zero_of_not_pos hzero] at hmul
  omega

instance (g : FSGeometry) : Std.Symm (Allocation.Disjoint g) :=
  ⟨fun _ _ h => h.symm⟩

/-- Live allocations at one address are the same. -/
theorem Inv.eq_of_address (hinv : h.Inv) {a b : Allocation} (ha : a ∈ h.live) (hb : b ∈ h.live)
    (heq : a.address = b.address) : a = b := by
  by_contra hne
  have hdisjoint := hinv.consistent.disjoint.forall ha hb hne
  have hfirst : a.first h.device.ctx.geometry = b.first h.device.ctx.geometry := by
    rw [Allocation.first, Allocation.first, heq]
  have hposA := hinv.count_pos ha
  have hposB := hinv.count_pos hb
  unfold Allocation.Disjoint at hdisjoint
  omega

/-- The header word of one allocation ends before the blocks of another start,
or the other way round. -/
theorem Inv.headers_apart (hinv : h.Inv) {a : Allocation} (ha : a ∈ h.live) {s n : Nat}
    (hn : 4 ≤ n * h.device.ctx.geometry.sectorSize.toNat)
    (hdisjoint : s + n ≤ a.first h.device.ctx.geometry ∨
      a.first h.device.ctx.geometry + a.count h.device.ctx.geometry ≤ s) :
    a.first h.device.ctx.geometry * h.device.ctx.geometry.sectorSize.toNat + 4 ≤
        s * h.device.ctx.geometry.sectorSize.toNat ∨
      s * h.device.ctx.geometry.sectorSize.toNat + 4 ≤
        a.first h.device.ctx.geometry * h.device.ctx.geometry.sectorSize.toNat := by
  have hmul := hinv.mul_count ha
  obtain hbefore | hafter := hdisjoint
  · have hle := Nat.mul_le_mul_right h.device.ctx.geometry.sectorSize.toNat hbefore
    rw [Nat.add_mul] at hle
    omega
  · have hle := Nat.mul_le_mul_right h.device.ctx.geometry.sectorSize.toNat hafter
    rw [Nat.add_mul] at hle
    omega

/-- A run of free blocks does not meet a live allocation. -/
theorem Inv.run_apart (hinv : h.Inv) {a : Allocation} (ha : a ∈ h.live) {s n : Nat} (hn : 0 < n)
    (hrun : FirstFit.Run h.device.free s n) :
    s + n ≤ a.first h.device.ctx.geometry ∨
      a.first h.device.ctx.geometry + a.count h.device.ctx.geometry ≤ s := by
  by_contra hmeet
  have hpos := hinv.count_pos ha
  have hinside := hinv.consistent.inside a ha
  let i := max s (a.first h.device.ctx.geometry)
  have hused : h.device.bit i = true :=
    (hinv.consistent.bits i (.inl (by omega))).mpr (.inr ⟨a, ha, by
      constructor <;> omega⟩)
  have hfree := hrun i (by omega) (by omega)
  rw [Device.free, hused] at hfree
  cases hfree

theorem Inv.word_toNat (hinv : h.Inv) {a : Allocation} (ha : a ∈ h.live) :
    (a.address - 4).toNat =
      a.first h.device.ctx.geometry * h.device.ctx.geometry.sectorSize.toNat := by
  have haddress := (hinv.sized a ha).2
  rw [Mem.toNat_sub_of_le (y := 4) (by simp only [UInt32.reduceToNat]; omega), haddress]
  simp only [UInt32.reduceToNat, Nat.add_sub_cancel]

theorem Inv.word_end (hinv : h.Inv) {a : Allocation} (ha : a ∈ h.live) :
    (a.address - 4).toNat + 4 ≤ 2 ^ 32 := by
  have haddress := (hinv.sized a ha).2
  have hbound := a.address.toNat_lt
  have hword := hinv.word_toNat ha
  omega

theorem Inv.first_lt (hinv : h.Inv) {a : Allocation} (ha : a ∈ h.live) :
    a.first h.device.ctx.geometry < h.device.ctx.geometry.blockCount.toNat := by
  have hinside := hinv.consistent.inside a ha
  have hpos := hinv.count_pos ha
  omega

/-- Reading the bitmap changes nothing that counts. -/
theorem Inv.of_bitmapStep (hinv : h.Inv) {d' : Device} (hstep : Device.BitmapStep h.device d')
    (hbits : ∀ j < 8 * h.device.ctx.geometry.bitmapSize.toNat, d'.bit j = h.device.bit j) :
    Inv ⟨d', h.live⟩ := by
  have hgeo := hinv.geometry
  have hgeometry := hstep.geometry
  refine ⟨hstep.sound hinv.sound, hstep.frameOk, ?_, ?_, ?_, ?_, ?_, ?_⟩
  · simpa only [hgeometry] using hgeo
  · simpa only [hgeometry] using hinv.sized
  · simpa only [hgeometry] using hinv.consistent.inside
  · simpa only [hgeometry] using hinv.consistent.disjoint
  · intro i hi
    simp only [hgeometry] at hi ⊢
    rw [hbits i (by have := hgeo.bits; omega)]
    exact hinv.consistent.bits i hi
  · intro a ha
    rw [← hinv.consistent.header a ha]
    exact Device.read_word_of_outside hgeo hstep.outside (hinv.word_toNat ha)
      (hinv.consistent.inside a ha).1 (hinv.first_lt ha) (hinv.word_end ha)

/-- The allocation that takes the lowest run joins the live ones. -/
theorem Inv.allot (hinv : h.Inv) {size address : UInt32} {s : Nat} {d' : Device}
    (hsized : Sized h.device.ctx.geometry size)
    (hlow : FirstFit.Lowest h.device.free h.device.ctx.geometry.reservedBlocks.toNat
      h.device.ctx.geometry.blockCount.toNat (h.device.blocks size) s)
    (hallot : Device.Reallotted h.device s size true size address d') :
    Inv ⟨d', ⟨address, size⟩ :: h.live⟩ := by
  have hgeo := hinv.geometry
  have hgeometry := hallot.geometry
  have hneed := Device.blocks_pos hgeo.sector_pos hsized.2
  have hmul := Device.blocks_mul hgeo.sector_pos hsized.2
  have hfits := hlow.fits
  have hcount : Allocation.count h.device.ctx.geometry ⟨address, size⟩ = h.device.blocks size :=
    count_eq_blocks (a := ⟨address, size⟩) hgeo.sector_pos hsized
  have hfirst : Allocation.first h.device.ctx.geometry ⟨address, size⟩ = s :=
    first_of_address (a := ⟨address, size⟩) hgeo.sector_pos hallot.address_eq
  refine ⟨hallot.sound, hallot.frameOk, ?_, ?_, ?_, ?_, ?_, ?_⟩
  · simpa only [hgeometry] using hgeo
  · simp only [hgeometry, List.forall_mem_cons]
    exact ⟨⟨hsized, by rw [hfirst]; exact hallot.address_eq⟩, hinv.sized⟩
  · simp only [hgeometry, List.forall_mem_cons, hfirst, hcount]
    exact ⟨⟨hlow.ge, hlow.fits⟩, hinv.consistent.inside⟩
  · simp only [hgeometry, List.pairwise_cons]
    refine ⟨fun a ha => ?_, hinv.consistent.disjoint⟩
    rw [Allocation.Disjoint, hfirst, hcount]
    exact hinv.run_apart ha hneed hlow.run
  · intro i hi
    simp only [hgeometry] at hi ⊢
    have hold := hinv.consistent.bits i hi
    rw [hallot.bits i (by have := hgeo.bits; omega), List.exists_mem_cons_iff, Allocation.Covers,
      hfirst, hcount]
    split
    next hin => exact ⟨fun _ => .inr (.inl hin), fun _ => rfl⟩
    next hout =>
      rw [hold]
      exact or_congr_right ⟨.inr, fun hor => hor.resolve_left hout⟩
  · simp only [List.forall_mem_cons]
    refine ⟨hallot.read_header hgeo hlow.ge (by omega), fun a ha => ?_⟩
    rw [← hinv.consistent.header a ha]
    exact hallot.read_word hgeo (hinv.word_toNat ha) (hinv.consistent.inside a ha).1
      (hinv.first_lt ha) (hinv.word_end ha)
      (hinv.headers_apart ha (by omega) (hinv.run_apart ha hneed hlow.run))

theorem Inv.release (hinv : h.Inv) {a : Allocation} (ha : a ∈ h.live) {d' : Device}
    (hfree : Device.Reallotted h.device (a.first h.device.ctx.geometry) a.size false 0 a.address
      d') :
    Inv ⟨d', h.live.filter (·.address ≠ a.address)⟩ := by
  have hgeo := hinv.geometry
  have hgeometry := hfree.geometry
  have hcount := count_eq_blocks hgeo.sector_pos (hinv.sized a ha).1
  have hother : ∀ b ∈ h.live, b.address ≠ a.address →
      Allocation.Disjoint h.device.ctx.geometry b a := by
    intro b hb hne
    exact hinv.consistent.disjoint.forall hb ha fun heq => hne (by rw [heq])
  refine ⟨hfree.sound, hfree.frameOk, ?_, ?_, ?_, ?_, ?_, ?_⟩
  · simpa only [hgeometry] using hgeo
  · intro b hb
    simp only [hgeometry]
    exact hinv.sized b (List.mem_of_mem_filter hb)
  · intro b hb
    simp only [hgeometry]
    exact hinv.consistent.inside b (List.mem_of_mem_filter hb)
  · simp only [hgeometry]
    exact hinv.consistent.disjoint.filter _
  · intro i hi
    simp only [hgeometry] at hi ⊢
    have hold := hinv.consistent.bits i hi
    rw [hfree.bits i (by have := hgeo.bits; omega), ← hcount]
    split
    next hin =>
      simp only [Bool.false_eq_true, false_iff]
      rintro (hreserved | ⟨b, hb, hcovers⟩)
      · have hinside := hinv.consistent.inside a ha
        omega
      · have hne : b.address ≠ a.address := by simpa using (List.mem_filter.mp hb).2
        have hdisjoint := hother b (List.mem_of_mem_filter hb) hne
        unfold Allocation.Disjoint at hdisjoint
        unfold Allocation.Covers at hcovers
        omega
    next hout =>
      rw [hold]
      refine or_congr_right ⟨?_, ?_⟩
      · rintro ⟨b, hb, hcovers⟩
        refine ⟨b, List.mem_filter.mpr ⟨hb, ?_⟩, hcovers⟩
        simp only [ne_eq, decide_not, Bool.not_eq_true', decide_eq_false_iff_not]
        intro heq
        rw [hinv.eq_of_address hb ha heq] at hcovers
        exact hout hcovers
      · rintro ⟨b, hb, hcovers⟩
        exact ⟨b, List.mem_of_mem_filter hb, hcovers⟩
  · intro b hb
    have hb' := List.mem_of_mem_filter hb
    have hne : b.address ≠ a.address := by simpa using (List.mem_filter.mp hb).2
    rw [← hinv.consistent.header b hb']
    have hmul := hinv.mul_count ha
    exact hfree.read_word hgeo (hinv.word_toNat hb') (hinv.consistent.inside b hb').1
      (hinv.first_lt hb') (hinv.word_end hb')
      (hinv.headers_apart hb' hmul.le (hother b hb' hne).symm)

/-- The address of an allocation is not the null value. -/
theorem ne_fsNull {d : Device} (hgeo : d.ctx.geometry.Ok) {size address : UInt32} {s : Nat}
    (hsized : Sized d.ctx.geometry size)
    (hfits : s + d.blocks size ≤ d.ctx.geometry.blockCount.toNat)
    (haddress : address.toNat = s * d.ctx.geometry.sectorSize.toNat + 4) : address ≠ fsNull := by
  rintro rfl
  have hmul := Device.blocks_mul hgeo.sector_pos hsized.2
  have hpos := hsized.1
  have hblocks := hgeo.blocks_fit
  have hle := Nat.mul_le_mul_right d.ctx.geometry.sectorSize.toNat hfits
  rw [Nat.add_mul] at hle
  simp only [fsNull, UInt32.reduceToNat] at haddress
  omega

/-- What `fs_alloc` does to a consistent heap. -/
theorem Inv.alloc (hinv : h.Inv) {size : UInt32} (hsized : Sized h.device.ctx.geometry size) :
    h.FirstFitAnswer size ∧ (h.step (.alloc size)).2.Inv := by
  have hgeo := hinv.geometry
  have hneed := Device.blocks_pos hgeo.sector_pos hsized.2
  have hspec := hinv.sound.alloc hinv.frameOk hgeo hsized.2
  have hcount : ∀ address, Allocation.count h.device.ctx.geometry ⟨address, size⟩ =
      h.device.blocks size :=
    fun address => count_eq_blocks (a := ⟨address, size⟩) hgeo.sector_pos hsized
  simp only [FirstFitAnswer, step, hcount]
  cases hfit : FirstFit.firstFit h.device.free (h.device.blocks size)
      h.device.ctx.geometry.reservedBlocks.toNat h.device.ctx.geometry.blockCount.toNat with
  | none =>
      rw [hfit] at hspec
      obtain ⟨hnull, hstep, hbits⟩ := hspec
      rw [if_pos hnull]
      exact ⟨⟨fun _ s hge hle => FirstFit.firstFit_none hneed hfit hge hle,
        fun hne => absurd hnull hne⟩, hinv.of_bitmapStep hstep hbits⟩
  | some s =>
      rw [hfit] at hspec
      have hlow := FirstFit.firstFit_some hneed hfit
      have hne := ne_fsNull hgeo hsized hlow.fits hspec.address_eq
      rw [if_neg hne]
      refine ⟨⟨fun hnull => absurd hnull hne, fun _ => ?_⟩, hinv.allot hsized hlow hspec⟩
      rw [first_of_address (a := ⟨_, size⟩) hgeo.sector_pos hspec.address_eq]
      exact hlow

theorem Inv.free (hinv : h.Inv) {a : Allocation} (ha : a ∈ h.live) :
    (h.step (.free a.address)).2.Inv := by
  have hgeo := hinv.geometry
  obtain ⟨hsized, haddress⟩ := hinv.sized a ha
  have hinside := hinv.consistent.inside a ha
  rw [count_eq_blocks hgeo.sector_pos hsized] at hinside
  exact hinv.release ha (hinv.sound.free hinv.frameOk hgeo
    (ne_fsNull hgeo hsized hinside.2 haddress) hsized.2 haddress hinside.1 hinside.2
    (hinv.consistent.header a ha))

theorem Inv.step (hinv : h.Inv) {op : HeapOp} (hallowed : h.Allowed op) : (h.step op).2.Inv := by
  cases op with
  | alloc size => exact (hinv.alloc hallowed).2
  | free address =>
      obtain ⟨a, ha, rfl⟩ := hallowed
      exact hinv.free ha

theorem Inv.of_fresh {d : Device} {deviceType : FSDeviceType} {part : FSPartitionBlock}
    {disk : Mem} (hfresh : d.Fresh deviceType part disk) (hgeo : d.ctx.geometry.Ok) :
    Inv ⟨d, []⟩ := by
  refine ⟨hfresh.sound, hfresh.frameOk, hgeo, by simp, by simp, .nil, ?_, by simp⟩
  intro i hi
  have hbits := hgeo.bits
  have hlt : i < 8 * d.ctx.geometry.bitmapSize.toNat := hi.elim (fun h => h.trans_le hbits) id
  rw [hfresh.bits i hlt]
  simp

end Heap

/-- In every state reachable from a formatted device, unless the count of its
blocks overflows when it is rounded up to bytes, the allocator is consistent and
answers with the first fit. -/
theorem allocator_consistent {old formatted d : Device} {deviceType : FSDeviceType}
    {capacity sectorSize : UInt32} {part : FSPartitionBlock}
    (hio : (old.blank deviceType).SectorIo)
    (hformat : old.fsDeviceFormat capacity sectorSize deviceType = some formatted)
    (hopen : formatted.fsDeviceOpen deviceType = some (part, d))
    (hcount : capacity.toNat / sectorSize.toNat + 7 < 2 ^ 32)
    {ops : List HeapOp} {answers : List (Option UInt32)} {h : Heap}
    (hallowed : Trace.Permitted (Trace.total Heap.step) Heap.Allowed ⟨d, []⟩ ops)
    (hrun : Trace.run (Trace.total Heap.step) ⟨d, []⟩ ops = some (answers, h)) :
    h.Consistent ∧ ∀ size, Sized h.device.ctx.geometry size → h.FirstFitAnswer size := by
  obtain ⟨hpos, rfl, hfresh⟩ := Device.format_open hio hformat hopen
  have hgeo : d.ctx.geometry.Ok := by
    rw [hfresh.geometry]
    exact FSGeometry.ofPartition_ok deviceType hpos hcount
  have hinv : h.Inv := by
    refine Trace.run_preserves ?_ (Heap.Inv.of_fresh hfresh hgeo) hallowed hrun
    intro h op answer h' hinv hop hstep
    have hnext := hinv.step hop
    rw [Trace.total, Option.some_inj, Prod.mk.injEq] at hstep
    rwa [← hstep.2]
  exact ⟨hinv.consistent, fun size hsized => (hinv.alloc hsized).1⟩

/-- An ATA drive of zeros whose transfers succeed, under a context never used. -/
def zeroDevice : Device where
  ctx :=
    { geometry := ⟨false, .ata, 0, 0, 0, 0, 0⟩
      frame := ⟨false, fsInvalidFrame, fun _ => 0⟩
      sectorFrame := fsInvalidFrame
      sectorDirty := false }
  window := fun _ => 0
  drive := ⟨fun _ _ => 0, false, fun _ => true, fun _ => true, fun _ => true, 0, 0, 0⟩

theorem zeroDevice_io : (zeroDevice.blank .ata).SectorIo :=
  ⟨.inl rfl, fun _ => rfl, fun _ => rfl⟩

theorem zeroDevice_openable : Device.Openable zeroDevice.drive.byte := by
  intro hmagic
  have hread : zeroDevice.drive.byte.read 16 32 = List.replicate 32 0 := rfl
  rw [hread] at hmagic
  exact absurd hmagic (by decide)

/-- A drive of zeros, formatted and opened. -/
def freshDevice (capacity sectorSize : UInt32) : Option Device :=
  (zeroDevice.fsDeviceFormat capacity sectorSize .ata).bind fun formatted =>
    (formatted.fsDeviceOpen .ata).map Prod.snd

theorem exists_freshDevice (capacity : UInt32) {sectorSize : UInt32}
    (hpos : 0 < sectorSize.toNat) : ∃ formatted d,
    zeroDevice.fsDeviceFormat capacity sectorSize .ata = some formatted ∧
      formatted.fsDeviceOpen .ata = some (Device.formatPartition capacity sectorSize, d) ∧
      freshDevice capacity sectorSize = some d ∧
      d.Fresh .ata (Device.formatPartition capacity sectorSize) zeroDevice.drive.byte := by
  obtain ⟨formatted, d, hformat, hopen⟩ :=
    Device.format_exists capacity zeroDevice_io zeroDevice_openable hpos
  obtain ⟨-, -, hfresh⟩ := Device.format_open zeroDevice_io hformat hopen
  refine ⟨formatted, d, hformat, hopen, ?_, hfresh⟩
  rw [freshDevice, hformat, Option.bind_some, hopen, Option.map_some]

/-- Three allocations, the one in the middle freed and its place taken again. -/
def holeOps : List HeapOp := [.alloc 100, .alloc 50, .alloc 200, .free 196, .alloc 60]

theorem freshDevice_holeOps : (freshDevice 1024 64).map (fun d =>
    (decide (Trace.Permitted (Trace.total Heap.step) Heap.Allowed ⟨d, []⟩ holeOps),
      (Trace.run (Trace.total Heap.step) ⟨d, []⟩ holeOps).map fun r => (r.1, r.2.live))) =
    some (true, some ([some 68, some 196, some 260, none, some 196],
      [⟨196, 60⟩, ⟨260, 200⟩, ⟨68, 100⟩])) := by
  decide +kernel

/-- On sixteen blocks of 64 bytes. -/
theorem allocator_consistent_small : ∃ (formatted d : Device) (part : FSPartitionBlock)
    (answers : List (Option UInt32)) (h : Heap),
    zeroDevice.fsDeviceFormat 1024 64 .ata = some formatted ∧
      formatted.fsDeviceOpen .ata = some (part, d) ∧
      Trace.run (Trace.total Heap.step) ⟨d, []⟩ holeOps = some (answers, h) ∧
      h.live = [⟨196, 60⟩, ⟨260, 200⟩, ⟨68, 100⟩] ∧
      h.Consistent ∧ ∀ size, Sized h.device.ctx.geometry size → h.FirstFitAnswer size := by
  obtain ⟨formatted, d, hformat, hopen, hd, -⟩ :=
    exists_freshDevice 1024 (show 0 < (64 : UInt32).toNat by decide)
  have hholes := freshDevice_holeOps
  rw [hd, Option.map_some, Option.some_inj, Prod.mk.injEq, Option.map_eq_some_iff] at hholes
  obtain ⟨hallowed, ⟨answers, h⟩, hrun, heq⟩ := hholes
  exact ⟨formatted, d, _, answers, h, hformat, hopen, hrun, congrArg Prod.snd heq,
    allocator_consistent zeroDevice_io hformat hopen (by decide) (of_decide_eq_true hallowed) hrun⟩

/-- With one-byte sectors on all of the address space the bitmap has no bytes at
all, and formatting marks nothing. -/
theorem allocator_overflow : ∃ (old formatted d : Device) (part : FSPartitionBlock),
    (old.blank .ata).SectorIo ∧ old.fsDeviceFormat 0xFFFFFFFF 1 .ata = some formatted ∧
      formatted.fsDeviceOpen .ata = some (part, d) ∧ ¬ (Heap.mk d []).Consistent := by
  obtain ⟨formatted, d, hformat, hopen⟩ := Device.format_exists 0xFFFFFFFF
    zeroDevice_io zeroDevice_openable (show 0 < (1 : UInt32).toNat by decide)
  refine ⟨zeroDevice, formatted, d, _, zeroDevice_io, hformat, hopen, fun hconsistent => ?_⟩
  obtain ⟨-, -, hfresh⟩ := Device.format_open zeroDevice_io hformat hopen
  have hsize : d.ctx.geometry.bitmapSize = 0 := by rw [hfresh.geometry]; rfl
  have hcount : d.ctx.geometry.blockCount = 0xFFFFFFFF := by rw [hfresh.geometry]; rfl
  have hreserved : d.ctx.geometry.reservedBlocks = 48 := by rw [hfresh.geometry]; rfl
  have hbit : d.bit 0 = true :=
    (hconsistent.bits 0 (.inl (by simp [hcount]))).mpr (.inl (by simp [hreserved]))
  have hbyte : d.image 48 = 0 := by
    rw [hfresh.outside 48 (by simp [hsize]), hsize]
    rfl
  have hframe : ¬ d.ctx.frame.offset.toNat ≤ 0 := by
    rw [hfresh.unloaded]
    decide
  rw [Device.bit, Device.bitmapByte_of_not_covered fun h => hframe h.1] at hbit
  have hzero : d.image (fsBitmapAddress + UInt32.ofNat (0 / 8)) = 0 := hbyte
  rw [hzero] at hbit
  exact absurd hbit (by decide)

end AvrKernel.BaseFS

import AvrKernel.BaseFS.Device

/-!
# The block allocator

The allocator works on the bits of the blocks between the reserved ones and the
end of the device. Its search is first fit, and a header word in front of each
allocation tells how many bits to clear when it is freed.
-/

namespace AvrKernel.BaseFS

open Bytes

/-! ## Geometry -/

namespace FSGeometry

theorem le_div_mul_of_roundUp {n : Nat} (hpos : 0 < n) (x : Nat) : x ≤ (x + n - 1) / n * n := by
  have hlt := Nat.lt_div_mul_add (a := x + n - 1) hpos
  omega

/-- The bitmap is small, and the frame finds every reserved block's bit. -/
structure Small (g : FSGeometry) : Prop where
  bitmap : g.bitmapSize.toNat < 2 ^ 30
  reserved : g.reservedBlocks.toNat ≤ 48 + g.bitmapSize.toNat

/-- The sizes fit each other: every block has a bit, and the blocks start behind
the bitmap. A device whose only block is as large as the address space has its
bitmap inside it, behind the few bytes that can be allocated there. -/
structure Ok (g : FSGeometry) : Prop where
  sector_pos : 0 < g.sectorSize.toNat
  blocks_fit : g.blockCount.toNat * g.sectorSize.toNat < 2 ^ 32
  bits : g.blockCount.toNat ≤ 8 * g.bitmapSize.toNat
  small : g.bitmapSize.toNat < 2 ^ 30
  start : 48 + g.bitmapSize.toNat ≤ g.reservedBlocks.toNat * g.sectorSize.toNat ∨
    g.reservedBlocks.toNat = 0 ∧ g.blockCount.toNat ≤ 1 ∧ g.bitmapSize.toNat ≤ 1 ∧
      2 ^ 32 ≤ 47 + g.bitmapSize.toNat + g.sectorSize.toNat

section Partition

variable (deviceType : FSDeviceType) (partition : FSPartitionBlock)

theorem ofPartition_reserved : (ofPartition deviceType partition).reservedBlocks.toNat =
    (48 + (ofPartition deviceType partition).bitmapSize.toNat + partition.sectorSize.toNat - 1) %
      2 ^ 32 / partition.sectorSize.toNat := by
  have hsector := partition.sectorSize.toNat_lt
  have hbitmap := (ofPartition deviceType partition).bitmapSize.toNat_lt
  have hdef : (ofPartition deviceType partition).reservedBlocks =
    (16 + 32 + (ofPartition deviceType partition).bitmapSize + partition.sectorSize - 1) /
      partition.sectorSize := rfl
  rw [hdef, UInt32.toNat_div]
  congr 1
  simp only [UInt32.toNat_sub, UInt32.toNat_add, UInt32.reduceToNat]
  omega

variable {partition}

theorem ofPartition_small (hpos : 0 < partition.sectorSize.toNat) :
    (ofPartition deviceType partition).Small := by
  have hbitmap : (ofPartition deviceType partition).bitmapSize.toNat < 2 ^ 30 := by
    simp only [ofPartition, UInt32.toNat_div, UInt32.toNat_add, UInt32.reduceToNat]
    omega
  refine ⟨hbitmap, ?_⟩
  rw [ofPartition_reserved]
  apply Nat.div_le_of_le_mul
  refine (Nat.mod_le _ _).trans ?_
  have hone := Nat.mul_le_mul hpos
    (Nat.le_refl (47 + (ofPartition deviceType partition).bitmapSize.toNat))
  rw [show 48 + (ofPartition deviceType partition).bitmapSize.toNat =
    47 + (ofPartition deviceType partition).bitmapSize.toNat + 1 by omega, Nat.mul_add]
  omega

/-- Opening a partition yields sizes that fit unless the count of its blocks is
so close to the end of its type that rounding it up to bytes overflows. -/
theorem ofPartition_ok (hpos : 0 < partition.sectorSize.toNat)
    (hcount : partition.totalSize.toNat / partition.sectorSize.toNat + 7 < 2 ^ 32) :
    (ofPartition deviceType partition).Ok := by
  have htotal := partition.totalSize.toNat_lt
  have hsector := partition.sectorSize.toNat_lt
  have hmul : partition.totalSize.toNat / partition.sectorSize.toNat *
      partition.sectorSize.toNat ≤ partition.totalSize.toNat := Nat.div_mul_le_self _ _
  have hbc : (partition.totalSize / partition.sectorSize).toNat =
      partition.totalSize.toNat / partition.sectorSize.toNat := UInt32.toNat_div ..
  generalize partition.totalSize.toNat / partition.sectorSize.toNat = count at hcount hmul hbc
  have hbs : (ofPartition deviceType partition).bitmapSize.toNat = (count + 7) / 8 := by
    simp only [ofPartition, UInt32.toNat_div, UInt32.toNat_add, hbc, UInt32.reduceToNat]
    omega
  have hres := ofPartition_reserved deviceType partition
  rw [hbs] at hres
  have hcountEq : (ofPartition deviceType partition).blockCount.toNat = count := hbc
  have hsectorEq : (ofPartition deviceType partition).sectorSize.toNat =
    partition.sectorSize.toNat := rfl
  by_cases hfits : 48 + (count + 7) / 8 + partition.sectorSize.toNat - 1 < 2 ^ 32
  · rw [Nat.mod_eq_of_lt hfits] at hres
    have hround := le_div_mul_of_roundUp hpos (48 + (count + 7) / 8)
    refine ⟨by omega, by rw [hcountEq, hsectorEq]; omega, by omega, by omega, .inl ?_⟩
    rw [hres, hbs, hsectorEq]
    exact hround
  · have hone : count ≤ 1 := by
      by_contra htwo
      have hdouble := Nat.mul_le_mul_right partition.sectorSize.toNat (show 2 ≤ count by omega)
      omega
    have hzero : (48 + (count + 7) / 8 + partition.sectorSize.toNat - 1) % 2 ^ 32 /
        partition.sectorSize.toNat = 0 := Nat.div_eq_of_lt (by omega)
    rw [hzero] at hres
    exact ⟨by omega, by rw [hcountEq, hsectorEq]; omega, by omega, by omega,
      .inr ⟨hres, by omega, by omega, by omega⟩⟩

end Partition

variable {g : FSGeometry}

theorem blocksFor_toNat {size : UInt32} (hpos : 0 < g.sectorSize.toNat)
    (hsize : 4 + size.toNat + g.sectorSize.toNat - 1 < 2 ^ 32) :
    (g.blocksFor size).toNat = (4 + size.toNat + g.sectorSize.toNat - 1) / g.sectorSize.toNat := by
  have hnum : (4 + size + g.sectorSize - 1).toNat = 4 + size.toNat + g.sectorSize.toNat - 1 := by
    have hlt := size.toNat_lt
    simp only [UInt32.toNat_sub, UInt32.toNat_add, UInt32.reduceToNat]
    omega
  rw [blocksFor, UInt32.toNat_div, hnum]

/-- No byte of the bitmap lies in the `n` bytes from `address` on. -/
def Apart (g : FSGeometry) (address : UInt32) (n : Nat) : Prop :=
  ∀ k < g.bitmapSize.toNat, n ≤ (fsBitmapAddress + UInt32.ofNat k - address).toNat

/-- The first word of a block behind the reserved ones is not part of the bitmap. -/
theorem Ok.apart (h : g.Ok) {s : Nat} {address : UInt32} (hge : g.reservedBlocks.toNat ≤ s)
    (hlt : s < g.blockCount.toNat) (haddress : address.toNat = s * g.sectorSize.toNat)
    (hend : address.toNat + 4 ≤ 2 ^ 32) : g.Apart address 4 := by
  intro k hk
  have hsmall := h.small
  have hk' : (UInt32.ofNat k).toNat = k := by
    rw [UInt32.toNat_ofNat', Nat.mod_eq_of_lt (by omega)]
  simp only [fsBitmapAddress, UInt32.toNat_sub, UInt32.toNat_add, UInt32.reduceToNat, hk']
  obtain hbehind | ⟨hzero, hone, hbyte, -⟩ := h.start
  · have hmul := Nat.mul_le_mul_right g.sectorSize.toNat hge
    omega
  · obtain rfl : s = 0 := by omega
    omega

end FSGeometry

namespace Device

variable {d : Device}

/-! ## Writing outside the bitmap -/

/-- What a write outside the bitmap does. -/
structure Wrote (d : Device) (address : UInt32) (source : List UInt8) (d' : Device) : Prop where
  sound : d'.Sound
  frameOk : d'.FrameOk
  geometry : d'.ctx.geometry = d.ctx.geometry
  frame : d'.ctx.frame = d.ctx.frame
  image : d'.image = d.image.write address source
  bits : ∀ i < 8 * d.ctx.geometry.bitmapSize.toNat, d'.bit i = d.bit i

theorem Sound.memWrite_apart (h : d.Sound) (hframe : d.FrameOk) (address : UInt32)
    {source : List UInt8} (hlen : source.length ≤ 2 ^ 32)
    (hapart : d.ctx.geometry.Apart address source.length) :
    Wrote d address source (d.fsMemWrite address source) := by
  obtain ⟨hsound, hlogical⟩ := h.memWrite address source
  have hgeometry : (d.fsMemWrite address source).ctx.geometry = d.ctx.geometry :=
    congrArg Logical.geometry hlogical
  have hsame : (d.fsMemWrite address source).ctx.frame = d.ctx.frame :=
    congrArg Logical.frame hlogical
  have himage : (d.fsMemWrite address source).image = d.image.write address source :=
    congrArg Logical.image hlogical
  have hkept : ∀ k < d.ctx.geometry.bitmapSize.toNat,
      d.image.write address source (fsBitmapAddress + UInt32.ofNat k) =
        d.image (fsBitmapAddress + UInt32.ofNat k) :=
    fun k hk => Mem.write_apply_of_ge _ _ hlen (hapart k hk)
  have hbyte : ∀ k < d.ctx.geometry.bitmapSize.toNat,
      (d.fsMemWrite address source).bitmapByte k = d.bitmapByte k := by
    intro k hk
    simp only [bitmapByte, hsame, himage, hkept k hk]
  refine ⟨hsound, ⟨?_, ?_, ?_, ?_⟩, hgeometry, hsame, himage, ?_⟩
  · simpa only [hgeometry] using hframe.small
  · simpa only [hgeometry, hsame] using hframe.placed
  · simpa only [hsame] using hframe.absent
  · intro hclean k hk
    rw [hgeometry] at hk
    rw [hsame] at hclean
    rw [hbyte k hk, himage, hkept k hk, hframe.clean hclean k hk]
  · intro i hi
    exact congrArg (fun byte => byte.toBitVec.getLsbD (i % 8)) (hbyte (i / 8) (by omega))

/-! ## Ranges of bits -/

/-- Searching visits the blocks as the first-fit scan does. -/
theorem Sound.allocSearch (h : d.Sound) (hframe : d.FrameOk) {free : Nat → Bool}
    (hfree : ∀ j < 8 * d.ctx.geometry.bitmapSize.toNat, d.bit j = !free j)
    {need i runLength : UInt32} (runStart : UInt32) {remaining : Nat}
    (hbits : i.toNat + remaining ≤ 8 * d.ctx.geometry.bitmapSize.toNat)
    (hend : i.toNat + remaining < 2 ^ 32) (hlength : runLength.toNat ≤ i.toNat) :
    (Device.allocSearch need remaining i runStart runLength d).1.map UInt32.toNat =
        FirstFit.scan free need.toNat remaining i.toNat runStart.toNat runLength.toNat ∧
      BitmapStep d (Device.allocSearch need remaining i runStart runLength d).2 ∧
      ∀ j < 8 * d.ctx.geometry.bitmapSize.toNat,
        (Device.allocSearch need remaining i runStart runLength d).2.bit j = d.bit j := by
  induction remaining generalizing d i runStart runLength with
  | zero => exact ⟨rfl, .refl h.coherent hframe, fun _ _ => rfl⟩
  | succ remaining ih =>
      have hindex : i.toNat < 8 * d.ctx.geometry.bitmapSize.toNat := by omega
      obtain ⟨hgot, hstep, hsame⟩ := h.bitmapGet hframe hindex
      have hgeometry := hstep.geometry
      have hnext : (i + 1).toNat = i.toNat + 1 := Mem.toNat_add_ofNat (k := 1) (by omega)
      have hlong : (runLength + 1).toNat = runLength.toNat + 1 :=
        Mem.toNat_add_ofNat (k := 1) (by omega)
      have hzero : (runLength = 0) = (runLength.toNat = 0) := by
        rw [eq_iff_iff, ← UInt32.toNat_inj]
        rfl
      have hfree' : ∀ j < 8 * (d.fsBitmapGet i).2.ctx.geometry.bitmapSize.toNat,
          (d.fsBitmapGet i).2.bit j = !free j := by
        intro j hj
        rw [hgeometry] at hj
        rw [hsame j hj, hfree j hj]
      have hanswer : (d.fsBitmapGet i).1 = !free i.toNat := hgot.trans (hfree _ (by omega))
      have hbits' : (i + 1).toNat + remaining ≤
          8 * (d.fsBitmapGet i).2.ctx.geometry.bitmapSize.toNat := by
        rw [hgeometry]
        omega
      cases hslot : free i.toNat with
      | false =>
          rw [hslot] at hanswer
          simp only [Device.allocSearch, FirstFit.scan, hanswer, hslot, Bool.not_false,
            Bool.true_eq_false, Bool.false_eq_true, if_false]
          obtain ⟨hfound, hstep', hsame'⟩ := ih (hstep.sound h) hstep.frameOk hfree' runStart
            hbits' (by omega) (show (0 : UInt32).toNat ≤ (i + 1).toNat from Nat.zero_le _)
          rw [hnext] at hfound
          refine ⟨hfound, hstep.trans hstep', fun j hj => ?_⟩
          rw [hsame' j (by rwa [hgeometry]), hsame j hj]
      | true =>
          rw [hslot] at hanswer
          have hstart : (if runLength = 0 then i else runStart).toNat =
              if runLength.toNat = 0 then i.toNat else runStart.toNat := by
            simp only [hzero]
            split <;> rfl
          simp only [Device.allocSearch, FirstFit.scan, hanswer, hslot, Bool.not_true, if_true,
            UInt32.le_iff_toNat_le, hlong]
          split
          · exact ⟨by rw [Option.map_some, hstart], hstep, hsame⟩
          · obtain ⟨hfound, hstep', hsame'⟩ := ih (hstep.sound h) hstep.frameOk hfree'
              (if runLength = 0 then i else runStart) hbits' (by omega)
              (show (runLength + 1).toNat ≤ (i + 1).toNat by omega)
            rw [hnext, hlong, hstart] at hfound
            refine ⟨hfound, hstep.trans hstep', fun j hj => ?_⟩
            rw [hsame' j (by rwa [hgeometry]), hsame j hj]

/-- `change` gives the bit of a block the value `value` and leaves the others. -/
def Marks (change : UInt32 → Device → Device) (value : Bool) : Prop :=
  ∀ (d : Device) (index : UInt32), d.Sound → d.FrameOk →
    (windowStart index).toNat ≤ d.ctx.geometry.bitmapSize.toNat →
      BitmapStep d (change index d) ∧ ∀ i < 8 * d.ctx.geometry.bitmapSize.toNat,
        (change index d).bit i = if i = index.toNat then value else d.bit i

theorem marks_set : Marks (fun i d => d.fsBitmapSet i) true := by
  intro d index h hframe hstart
  obtain ⟨hstep, hbits⟩ := h.bitmapSet hframe hstart
  refine ⟨hstep, fun i hi => ?_⟩
  rw [hbits i hi]
  by_cases heq : i = index.toNat <;> simp [heq]

theorem marks_clear : Marks (fun i d => d.fsBitmapClear i) false := by
  intro d index h hframe hstart
  obtain ⟨hstep, hbits⟩ := h.bitmapClear hframe hstart
  refine ⟨hstep, fun i hi => ?_⟩
  rw [hbits i hi]
  by_cases heq : i = index.toNat <;> simp [heq]

/-- Changing the bits of a range of blocks. -/
theorem Marks.forBlocks {change : UInt32 → Device → Device} {value : Bool}
    (hmarks : Marks change value) (h : d.Sound) (hframe : d.FrameOk) (count : Nat) {i : UInt32}
    (hend : i.toNat + count ≤ 2 ^ 32)
    (hwindow : ∀ j < count, (i.toNat + j) / 8 / 32 * 32 ≤ d.ctx.geometry.bitmapSize.toNat) :
    BitmapStep d (Device.forBlocks change count i d) ∧
      ∀ j < 8 * d.ctx.geometry.bitmapSize.toNat, (Device.forBlocks change count i d).bit j =
        if i.toNat ≤ j ∧ j < i.toNat + count then value else d.bit j := by
  induction count generalizing d i with
  | zero =>
      refine ⟨.refl h.coherent hframe, fun j _ => ?_⟩
      rw [Device.forBlocks, if_neg (by omega)]
  | succ count ih =>
      have hstart : (windowStart i).toNat ≤ d.ctx.geometry.bitmapSize.toNat := by
        rw [windowStart_toNat]
        exact hwindow 0 (by omega)
      obtain ⟨hstep, hbits⟩ := hmarks d i h hframe hstart
      by_cases hlast : i.toNat + 1 = 2 ^ 32
      · obtain rfl : count = 0 := by omega
        refine ⟨hstep, fun j hj => ?_⟩
        rw [Device.forBlocks, Device.forBlocks, hbits j hj]
        exact if_congr (by omega) rfl rfl
      · have hlt := i.toNat_lt
        have hnext : (i + 1).toNat = i.toNat + 1 := Mem.toNat_add_ofNat (k := 1) (by omega)
        have hgeometry := hstep.geometry
        obtain ⟨hstep', hbits'⟩ := ih (hstep.sound h) hstep.frameOk (i := i + 1) (by omega) (by
          intro j hj
          have := hwindow (j + 1) (by omega)
          rw [hgeometry, hnext]
          rwa [show i.toNat + 1 + j = i.toNat + (j + 1) by omega])
        refine ⟨hstep.trans hstep', fun j hj => ?_⟩
        rw [Device.forBlocks, hbits' j (by rwa [hgeometry]), hbits j hj, hnext]
        by_cases hhead : j = i.toNat
        · rw [if_neg (by omega), if_pos hhead, if_pos (by omega)]
        · rw [if_neg hhead]
          exact if_congr (by omega) rfl rfl

theorem Sound.setBits (h : d.Sound) (hframe : d.FrameOk) (count : Nat) {i : UInt32}
    (hend : i.toNat + count ≤ 2 ^ 32)
    (hwindow : ∀ j < count, (i.toNat + j) / 8 / 32 * 32 ≤ d.ctx.geometry.bitmapSize.toNat) :
    BitmapStep d (Device.setBits count i d) ∧ ∀ j < 8 * d.ctx.geometry.bitmapSize.toNat,
      (Device.setBits count i d).bit j =
        if i.toNat ≤ j ∧ j < i.toNat + count then true else d.bit j :=
  marks_set.forBlocks h hframe count hend hwindow

theorem Sound.clearBits (h : d.Sound) (hframe : d.FrameOk) (count : Nat) {i : UInt32}
    (hend : i.toNat + count ≤ 2 ^ 32)
    (hwindow : ∀ j < count, (i.toNat + j) / 8 / 32 * 32 ≤ d.ctx.geometry.bitmapSize.toNat) :
    BitmapStep d (Device.clearBits count i d) ∧ ∀ j < 8 * d.ctx.geometry.bitmapSize.toNat,
      (Device.clearBits count i d).bit j =
        if i.toNat ≤ j ∧ j < i.toNat + count then false else d.bit j :=
  marks_clear.forBlocks h hframe count hend hwindow

theorem Flushed.bit_eq {d' : Device} (h : Flushed d d') {j : Nat}
    (hj : j < 8 * d.ctx.geometry.bitmapSize.toNat) : d'.bit j = d.bit j :=
  congrArg (fun byte => byte.toBitVec.getLsbD (j % 8)) (h.kept (j / 8) (by omega))

/-! ## Allocating and freeing -/

/-- The blocks that the bitmap says are free. -/
def free (d : Device) (i : Nat) : Bool := !d.bit i

/-- The blocks of an allocation of `size` bytes. -/
def blocks (d : Device) (size : UInt32) : Nat := (d.ctx.geometry.blocksFor size).toNat

/-- What changing the bits of the `size` bytes allocated at block `s` to `value`
and the header in front of them to `header` does. -/
structure Reallotted (d : Device) (s : Nat) (size : UInt32) (value : Bool) (header : UInt32)
    (address : UInt32) (d' : Device) : Prop where
  address_eq : address.toNat = s * d.ctx.geometry.sectorSize.toNat + 4
  sound : d'.Sound
  frameOk : d'.FrameOk
  geometry : d'.ctx.geometry = d.ctx.geometry
  clean : d'.ctx.frame.dirty = false
  bits : ∀ j < 8 * d.ctx.geometry.bitmapSize.toNat,
    d'.bit j = if s ≤ j ∧ j < s + d.blocks size then value else d.bit j
  image : ∀ a : UInt32, d.ctx.geometry.bitmapSize.toNat ≤ (a - fsBitmapAddress).toNat →
    d'.image a = d.image.write (address - 4) (FSAllocHeader.layout.encode ⟨header⟩) a

theorem blocks_mul {size : UInt32} (hpos : 0 < d.ctx.geometry.sectorSize.toNat)
    (hsize : 4 + size.toNat + d.ctx.geometry.sectorSize.toNat - 1 < 2 ^ 32) :
    4 + size.toNat ≤ d.blocks size * d.ctx.geometry.sectorSize.toNat := by
  rw [blocks, FSGeometry.blocksFor_toNat hpos hsize]
  exact FSGeometry.le_div_mul_of_roundUp hpos _

theorem blocks_pos {size : UInt32} (hpos : 0 < d.ctx.geometry.sectorSize.toNat)
    (hsize : 4 + size.toNat + d.ctx.geometry.sectorSize.toNat - 1 < 2 ^ 32) :
    0 < d.blocks size := by
  have hmul := blocks_mul hpos hsize
  by_contra hzero
  rw [Nat.eq_zero_of_not_pos hzero] at hmul
  omega

/-- The search of `fs_alloc` is the first-fit search. -/
theorem Sound.findRun (h : d.Sound) (hframe : d.FrameOk) (hgeo : d.ctx.geometry.Ok)
    (need : UInt32) :
    (d.findRun need).1.map UInt32.toNat =
        FirstFit.firstFit d.free need.toNat d.ctx.geometry.reservedBlocks.toNat
          d.ctx.geometry.blockCount.toNat ∧
      BitmapStep d (d.findRun need).2 ∧
      ∀ j < 8 * d.ctx.geometry.bitmapSize.toNat, (d.findRun need).2.bit j = d.bit j := by
  have hbits := hgeo.bits
  have hlt := d.ctx.geometry.blockCount.toNat_lt
  unfold Device.findRun
  by_cases hle : d.ctx.geometry.reservedBlocks.toNat ≤ d.ctx.geometry.blockCount.toNat
  · exact h.allocSearch hframe (fun j _ => by rw [free, Bool.not_not]) 0 (by omega) (by omega)
      (by simp)
  · rw [FirstFit.firstFit, show d.ctx.geometry.blockCount.toNat -
      d.ctx.geometry.reservedBlocks.toNat = 0 by omega]
    exact ⟨rfl, .refl h.coherent hframe, fun _ _ => rfl⟩

/-- The blocks between the reserved ones and the end have their bits in the bitmap. -/
theorem window_of_lt (hgeo : d.ctx.geometry.Ok) {i count : Nat}
    (hend : i + count ≤ d.ctx.geometry.blockCount.toNat) :
    ∀ j < count, (i + j) / 8 / 32 * 32 ≤ d.ctx.geometry.bitmapSize.toNat := by
  intro j hj
  have hbits := hgeo.bits
  omega

/-- Setting the bits of a run, flushing them and writing the header. -/
theorem BitmapStep.allot {found : Device} (h : BitmapStep d found) (hd : d.Sound)
    (hsame : ∀ j < 8 * d.ctx.geometry.bitmapSize.toNat, found.bit j = d.bit j)
    (hgeo : d.ctx.geometry.Ok) {size runStart : UInt32}
    (hsize : 4 + size.toNat + d.ctx.geometry.sectorSize.toNat - 1 < 2 ^ 32)
    (hge : d.ctx.geometry.reservedBlocks.toNat ≤ runStart.toNat)
    (hfits : runStart.toNat + d.blocks size ≤ d.ctx.geometry.blockCount.toNat) :
    Reallotted d runStart.toNat size true size (runStart * d.ctx.geometry.sectorSize + 4)
      ((setBits (d.blocks size) runStart found).fsBitmapFlush.fsMemWrite
        (runStart * d.ctx.geometry.sectorSize) (FSAllocHeader.layout.encode ⟨size⟩)) := by
  have hlt := d.ctx.geometry.blockCount.toNat_lt
  have hpos := blocks_pos hgeo.sector_pos hsize
  have hmul := blocks_mul hgeo.sector_pos hsize
  have hblocks := hgeo.blocks_fit
  have hrun := Nat.mul_le_mul_right d.ctx.geometry.sectorSize.toNat hfits
  rw [Nat.add_mul] at hrun
  have haddr : (runStart * d.ctx.geometry.sectorSize).toNat =
      runStart.toNat * d.ctx.geometry.sectorSize.toNat := by
    rw [UInt32.toNat_mul, Nat.mod_eq_of_lt (by omega)]
  have hgeometry := h.geometry
  obtain ⟨hset, hbits⟩ := (h.sound hd).setBits h.frameOk (d.blocks size)
    (i := runStart) (by omega) (by rw [hgeometry]; exact window_of_lt hgeo hfits)
  have hset' := hset.sound (h.sound hd)
  have hflushed := hset'.bitmapFlush hset.frameOk
  have hgeometry' : (setBits (d.blocks size) runStart found).fsBitmapFlush.ctx.geometry =
      d.ctx.geometry := hflushed.step.geometry.trans (hset.geometry.trans hgeometry)
  have hwrote := (hflushed.step.sound hset').memWrite_apart hflushed.step.frameOk
    (runStart * d.ctx.geometry.sectorSize)
    (show (FSAllocHeader.layout.encode ⟨size⟩).length ≤ 2 ^ 32 by
      simp [FSAllocHeader.layout.encode_length])
    (by
      rw [hgeometry', FSAllocHeader.layout.encode_length]
      exact hgeo.apart hge (by omega) haddr (by rw [haddr]; omega))
  refine ⟨?_, hwrote.sound, hwrote.frameOk, hwrote.geometry.trans hgeometry', ?_, ?_, ?_⟩
  · rw [Mem.toNat_add_of_lt (y := 4) (by rw [haddr]; simp only [UInt32.reduceToNat]; omega), haddr]
    rfl
  · rw [hwrote.frame, hflushed.frame]
  · intro j hj
    rw [hwrote.bits j (by rwa [hgeometry']), hflushed.bit_eq (by rwa [hset.geometry, hgeometry]),
      hbits j (by rwa [hgeometry]), hsame j hj]
  · intro a ha
    rw [hwrote.image, UInt32.add_sub_cancel]
    refine Mem.write_apply_congr _ _ ?_
    rw [hflushed.step.outside a (by rwa [hset.geometry, hgeometry]),
      hset.outside a (by rwa [hgeometry]), h.outside a ha]

/-- Allocation takes the first fit, or fails without one. -/
theorem Sound.alloc (h : d.Sound) (hframe : d.FrameOk) (hgeo : d.ctx.geometry.Ok) {size : UInt32}
    (hsize : 4 + size.toNat + d.ctx.geometry.sectorSize.toNat - 1 < 2 ^ 32) :
    match FirstFit.firstFit d.free (d.blocks size) d.ctx.geometry.reservedBlocks.toNat
      d.ctx.geometry.blockCount.toNat with
    | none => (d.fsAlloc size).1 = fsNull ∧ BitmapStep d (d.fsAlloc size).2 ∧
        ∀ j < 8 * d.ctx.geometry.bitmapSize.toNat, (d.fsAlloc size).2.bit j = d.bit j
    | some s => Reallotted d s size true size (d.fsAlloc size).1 (d.fsAlloc size).2 := by
  obtain ⟨hfound, hstep, hsame⟩ := h.findRun hframe hgeo (d.ctx.geometry.blocksFor size)
  rw [blocks, ← hfound]
  cases hslot : (d.findRun (d.ctx.geometry.blocksFor size)).1 with
  | none =>
      simp only [Option.map_none, fsAlloc, hslot]
      exact ⟨trivial, hstep, hsame⟩
  | some runStart =>
      rw [hslot, Option.map_some] at hfound
      have hlow := FirstFit.firstFit_some (blocks_pos hgeo.sector_pos hsize) hfound.symm
      simp only [Option.map_some, fsAlloc, hslot]
      exact hstep.allot h hsame hgeo hsize hlow.ge hlow.fits

/-- Freeing an allocation whose header is intact clears its bits. -/
theorem Sound.free (h : d.Sound) (hframe : d.FrameOk) (hgeo : d.ctx.geometry.Ok)
    {address size : UInt32} {s : Nat} (hnull : address ≠ fsNull)
    (hsize : 4 + size.toNat + d.ctx.geometry.sectorSize.toNat - 1 < 2 ^ 32)
    (haddress : address.toNat = s * d.ctx.geometry.sectorSize.toNat + 4)
    (hge : d.ctx.geometry.reservedBlocks.toNat ≤ s)
    (hfits : s + d.blocks size ≤ d.ctx.geometry.blockCount.toNat)
    (hheader : d.image.read (address - 4) 4 = FSAllocHeader.layout.encode ⟨size⟩) :
    Reallotted d s size false 0 address (d.fsFree address) := by
  have hlt := d.ctx.geometry.blockCount.toNat_lt
  have hpos := blocks_pos hgeo.sector_pos hsize
  have halloc : (address - 4).toNat = s * d.ctx.geometry.sectorSize.toNat := by
    rw [Mem.toNat_sub_of_le (y := 4) (by simp only [UInt32.reduceToNat]; omega), haddress]
    simp only [UInt32.reduceToNat, Nat.add_sub_cancel]
  have hstart : ((address - 4) / d.ctx.geometry.sectorSize).toNat = s := by
    rw [UInt32.toNat_div, halloc, Nat.mul_div_cancel _ hgeo.sector_pos]
  obtain ⟨hbytes, hsound, hlogical⟩ := h.memRead (address - 4) 4
  have hgeometry : (d.fsMemRead (address - 4) 4).2.ctx.geometry = d.ctx.geometry :=
    congrArg Logical.geometry hlogical
  have hdecode : FSAllocHeader.layout.decode (d.fsMemRead (address - 4) 4).1 = ⟨size⟩ := by
    rw [hbytes, hheader, Layout.decode_encode_self]
  obtain ⟨hclear, hbits⟩ := hsound.clearBits (hframe.of_logical hlogical) (d.blocks size)
    (i := (address - 4) / d.ctx.geometry.sectorSize) (by omega)
    (by rw [hgeometry, hstart]; exact window_of_lt hgeo hfits)
  rw [hgeometry, hstart] at hbits
  set cleared := Device.clearBits (d.blocks size) ((address - 4) / d.ctx.geometry.sectorSize)
    (d.fsMemRead (address - 4) 4).2 with hcleared
  have hgeometry' : cleared.ctx.geometry = d.ctx.geometry := hclear.geometry.trans hgeometry
  have hwrote := (hclear.sound hsound).memWrite_apart hclear.frameOk (address - 4)
    (show (FSAllocHeader.layout.encode ⟨0⟩).length ≤ 2 ^ 32 by
      simp [FSAllocHeader.layout.encode_length])
    (by
      rw [hgeometry', FSAllocHeader.layout.encode_length]
      exact hgeo.apart hge (by omega) halloc (by
        have := address.toNat_lt
        rw [halloc]
        omega))
  have hflushed := hwrote.sound.bitmapFlush hwrote.frameOk
  have hfree : d.fsFree address =
      (cleared.fsMemWrite (address - 4) (FSAllocHeader.layout.encode ⟨0⟩)).fsBitmapFlush := by
    simp only [fsFree, if_neg hnull, FSAllocHeader.layout_size, hdecode, hcleared, blocks]
  rw [hfree]
  have hsame := hwrote.geometry.trans hgeometry'
  refine ⟨haddress, hflushed.step.sound hwrote.sound, hflushed.step.frameOk,
    hflushed.step.geometry.trans hsame,
    by rw [hflushed.frame], ?_, ?_⟩
  · intro j hj
    rw [hflushed.bit_eq (by rwa [hsame]), hwrote.bits j (by rwa [hgeometry']), hbits j hj,
      bit_of_logical hlogical]
  · intro a ha
    have himage : (d.fsMemRead (address - 4) 4).2.image = d.image := image_of_logical hlogical
    rw [hflushed.step.outside a (by rwa [hsame]), hwrote.image]
    refine Mem.write_apply_congr _ _ ?_
    rw [hclear.outside a (by rwa [hgeometry]), himage]

/-! ## Header words -/

theorem apart_outside {g : FSGeometry} {address : UInt32} {n : Nat} (h : g.Apart address n)
    {i : Nat} (hi : i < n) : g.bitmapSize.toNat ≤
      (address + UInt32.ofNat i - fsBitmapAddress).toNat := by
  by_contra hlt
  have hbyte := h _ (not_le.mp hlt)
  have heq : fsBitmapAddress + UInt32.ofNat (address + UInt32.ofNat i - fsBitmapAddress).toNat =
      address + UInt32.ofNat i := by
    rw [UInt32.ofNat_toNat, UInt32.add_comm, UInt32.sub_add_cancel]
  rw [heq, UInt32.add_comm, UInt32.add_sub_cancel, UInt32.toNat_ofNat'] at hbyte
  have hmod := Nat.mod_le i (2 ^ 32)
  omega

/-- The words that start blocks are read as before by anything that leaves what
is outside the bitmap. -/
theorem read_word_of_outside {d' : Device} (hgeo : d.ctx.geometry.Ok)
    (houtside : ∀ a : UInt32, d.ctx.geometry.bitmapSize.toNat ≤ (a - fsBitmapAddress).toNat →
      d'.image a = d.image a) {t : Nat} {word : UInt32}
    (hword : word.toNat = t * d.ctx.geometry.sectorSize.toNat)
    (hge : d.ctx.geometry.reservedBlocks.toNat ≤ t) (hlt : t < d.ctx.geometry.blockCount.toNat)
    (hend : word.toNat + 4 ≤ 2 ^ 32) : d'.image.read word 4 = d.image.read word 4 :=
  Mem.read_congr _ fun _ hi =>
    houtside _ (apart_outside (hgeo.apart hge hlt hword hend) hi)

variable {d' : Device} {s : Nat} {size header address : UInt32} {value : Bool}

/-- The word in front of a reallotted range is its new header. -/
theorem Reallotted.read_header (h : Reallotted d s size value header address d')
    (hgeo : d.ctx.geometry.Ok) (hge : d.ctx.geometry.reservedBlocks.toNat ≤ s)
    (hlt : s < d.ctx.geometry.blockCount.toNat) :
    d'.image.read (address - 4) 4 = FSAllocHeader.layout.encode ⟨header⟩ := by
  have hlen := FSAllocHeader.layout.encode_length ⟨header⟩
  rw [FSAllocHeader.layout_size] at hlen
  have hbound := address.toNat_lt
  have hword : (address - 4).toNat = s * d.ctx.geometry.sectorSize.toNat := by
    rw [Mem.toNat_sub_of_le (y := 4) (by rw [h.address_eq]; simp only [UInt32.reduceToNat]; omega),
      h.address_eq]
    simp only [UInt32.reduceToNat, Nat.add_sub_cancel]
  have hend : (address - 4).toNat + 4 ≤ 2 ^ 32 := by
    rw [hword, ← h.address_eq]
    omega
  have hself := Mem.read_write_self d.image (address - 4)
    (show (FSAllocHeader.layout.encode ⟨header⟩).length ≤ 2 ^ 32 by omega)
  rw [hlen] at hself
  rw [← hself]
  exact Mem.read_congr _ fun i hi =>
    h.image _ (apart_outside (hgeo.apart hge hlt hword hend) hi)

/-- The first word of any other block is left alone. -/
theorem Reallotted.read_word (h : Reallotted d s size value header address d')
    (hgeo : d.ctx.geometry.Ok) {t : Nat} {word : UInt32}
    (hword : word.toNat = t * d.ctx.geometry.sectorSize.toNat)
    (hge : d.ctx.geometry.reservedBlocks.toNat ≤ t) (hlt : t < d.ctx.geometry.blockCount.toNat)
    (hend : word.toNat + 4 ≤ 2 ^ 32)
    (happart : t * d.ctx.geometry.sectorSize.toNat + 4 ≤ s * d.ctx.geometry.sectorSize.toNat ∨
      s * d.ctx.geometry.sectorSize.toNat + 4 ≤ t * d.ctx.geometry.sectorSize.toNat) :
    d'.image.read word 4 = d.image.read word 4 := by
  have hlen := FSAllocHeader.layout.encode_length ⟨header⟩
  rw [FSAllocHeader.layout_size] at hlen
  have hbound := address.toNat_lt
  have hstart : (address - 4).toNat = s * d.ctx.geometry.sectorSize.toNat := by
    rw [Mem.toNat_sub_of_le (y := 4) (by rw [h.address_eq]; simp only [UInt32.reduceToNat]; omega),
      h.address_eq]
    simp only [UInt32.reduceToNat, Nat.add_sub_cancel]
  have hkept := Mem.read_write_disjoint d.image (address - 4) (b := word) (n := 4)
    (show (FSAllocHeader.layout.encode ⟨header⟩).length ≤ 2 ^ 32 by omega) (by
      intro i hi
      rw [hlen]
      exact Mem.toNat_sub_ge_of_disjoint _ hi (by rw [hstart, ← h.address_eq]; omega) hend
        (by rw [hstart, hword]; omega))
  rw [← hkept]
  exact Mem.read_congr _ fun i hi =>
    h.image _ (apart_outside (hgeo.apart hge hlt hword hend) hi)

end Device

end AvrKernel.BaseFS

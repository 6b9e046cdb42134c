import AvrKernel.BaseFS.Heap
import AvrKernel.Lib.Intervals

/-!
# Listing and counting allocations

`fs_find_next` goes from one allocation to the next by the size in its header,
and `fs_get_used_bytes` adds up what it meets.
-/

namespace AvrKernel.BaseFS

open Bytes

namespace Device

/-- The search of `fs_find_next`: `remaining` blocks from `i` on are left to look at. -/
def nextSearch : Nat → UInt32 → Device → UInt32 × Device
  | 0, _, d => (fsNull, d)
  | remaining + 1, i, d =>
      let got := d.fsBitmapGet i
      if got.1 then
        let addr := i * got.2.ctx.geometry.sectorSize
        let bytes := got.2.fsMemRead addr FSAllocHeader.layout.size
        if (FSAllocHeader.layout.decode bytes.1).size ≠ 0 then (addr + 4, bytes.2)
        else nextSearch remaining (i + 1) bytes.2
      else nextSearch remaining (i + 1) got.2

/-- The search through the blocks from `startBlock` to the last one. -/
def findFrom (startBlock : UInt32) (d : Device) : UInt32 × Device :=
  nextSearch (d.ctx.geometry.blockCount.toNat - startBlock.toNat) startBlock d

def fsFindNext (prevAddr : UInt32) (d : Device) : UInt32 × Device :=
  if prevAddr = fsNull then d.findFrom d.ctx.geometry.reservedBlocks
  else
    let hAddr := prevAddr - 4
    let bytes := d.fsMemRead hAddr FSAllocHeader.layout.size
    let header := FSAllocHeader.layout.decode bytes.1
    let used := (header.size + 4 + d.ctx.geometry.sectorSize - 1) / d.ctx.geometry.sectorSize
    bytes.2.findFrom (hAddr / d.ctx.geometry.sectorSize + used)

/-- The loop of `fs_get_used_bytes`; `none` if `fuel` rounds are not enough. -/
def usedLoop : Nat → UInt32 → UInt32 → Device → Option (UInt32 × Device)
  | 0, _, _, _ => none
  | fuel + 1, usedBytes, currentAlloc, d =>
      if currentAlloc = fsNull then some (usedBytes, d)
      else
        let bytes := d.fsMemRead (currentAlloc - 4) FSAllocHeader.layout.size
        let header := FSAllocHeader.layout.decode bytes.1
        if header.size = 0 ∨ header.size > d.ctx.geometry.poolSize then some (usedBytes, bytes.2)
        else
          let blockBytes := d.ctx.geometry.blocksFor header.size * d.ctx.geometry.sectorSize
          if usedBytes + blockBytes > d.ctx.geometry.poolSize then
            some (d.ctx.geometry.poolSize, bytes.2)
          else
            let next := bytes.2.fsFindNext currentAlloc
            usedLoop fuel (usedBytes + blockBytes) next.1 next.2

def fsGetUsedBytes (fuel : Nat) (d : Device) : Option (UInt32 × Device) :=
  if d.ctx.geometry.poolSize = 0 then some (0, d)
  else
    let reservedBytes := d.ctx.geometry.reservedBlocks * d.ctx.geometry.sectorSize
    if reservedBytes > d.ctx.geometry.poolSize then some (d.ctx.geometry.poolSize, d)
    else
      let first := d.fsFindNext fsNull
      usedLoop fuel reservedBytes first.1 first.2

/-- What calling `fs_find_next` with its own answers visits, from `prevAddr` on to the end;
`none` if `fuel` calls are not enough. -/
def visits : Nat → UInt32 → Device → Option (List UInt32 × Device)
  | 0, _, _ => none
  | fuel + 1, prevAddr, d =>
      let next := d.fsFindNext prevAddr
      if next.1 = fsNull then some ([], next.2)
      else (visits fuel next.1 next.2).map fun rest => (next.1 :: rest.1, rest.2)

/-- How many bits of the bitmap are set. -/
def markedBits (d : Device) : Nat := (List.range (8 * d.ctx.geometry.bitmapSize.toNat)).countP d.bit

variable {d d' : Device}

/-! ## Looking at a device -/

/-- `d'` is `d` after something was read: the frame and the window may have moved. -/
structure Looked (d d' : Device) : Prop where
  step : BitmapStep d d'
  bits : ∀ j < 8 * d.ctx.geometry.bitmapSize.toNat, d'.bit j = d.bit j

theorem Looked.geometry (h : Looked d d') : d'.ctx.geometry = d.ctx.geometry := h.step.geometry

theorem Looked.refl (h : d.Sound) (hframe : d.FrameOk) : Looked d d :=
  ⟨.refl h.coherent hframe, fun _ _ => rfl⟩

theorem Looked.trans {d'' : Device} (h : Looked d d') (h' : Looked d' d'') : Looked d d'' where
  step := h.step.trans h'.step
  bits j hj := (h'.bits j (by rwa [h.geometry])).trans (h.bits j hj)

theorem Sound.looked_get (h : d.Sound) (hframe : d.FrameOk) {index : UInt32}
    (hindex : index.toNat < 8 * d.ctx.geometry.bitmapSize.toNat) :
    (d.fsBitmapGet index).1 = d.bit index.toNat ∧ Looked d (d.fsBitmapGet index).2 := by
  obtain ⟨hgot, hstep, hbits⟩ := h.bitmapGet hframe hindex
  exact ⟨hgot, hstep, hbits⟩

theorem Sound.looked_memRead (h : d.Sound) (hframe : d.FrameOk) (address : UInt32) (size : Nat) :
    (d.fsMemRead address size).1 = d.image.read address size ∧
      Looked d (d.fsMemRead address size).2 := by
  obtain ⟨hbytes, hsound, hlogical⟩ := h.memRead address size
  refine ⟨hbytes, ⟨hsound.coherent, hframe.of_logical hlogical,
    wiring_of_logical (m := d.image) hlogical, ?_⟩, fun j _ => bit_of_logical hlogical j⟩
  intro address _
  rw [image_of_logical hlogical]

end Device

namespace Heap

open Intervals Device

variable {g : FSGeometry} {d d' : Device} {live items : List Allocation} {used : Nat → Bool}
  {a : Allocation} {lo : Nat}

theorem Inv.looked (hinv : Inv ⟨d, live⟩) (h : Looked d d') : Inv ⟨d', live⟩ :=
  hinv.of_bitmapStep h.step h.bits

theorem Inv.address_ne_null {h : Heap} (hinv : h.Inv) (ha : a ∈ h.live) : a.address ≠ fsNull := by
  obtain ⟨hsized, haddress⟩ := hinv.sized a ha
  have hinside := hinv.consistent.inside a ha
  rw [count_eq_blocks hinv.geometry.sector_pos hsized] at hinside
  exact ne_fsNull hinv.geometry hsized hinside.2 haddress

/-- The live allocations can be listed in the order of their blocks. -/
theorem Inv.exists_laid {h : Heap} (hinv : h.Inv) : ∃ sorted : List Allocation,
    sorted.Perm h.live ∧ Laid (Allocation.first h.device.ctx.geometry)
      (Allocation.count h.device.ctx.geometry) h.device.bit
        h.device.ctx.geometry.blockCount.toNat h.device.ctx.geometry.reservedBlocks.toNat
          sorted := by
  refine Intervals.exists_laid ?_ hinv.consistent.disjoint ?_
  · exact fun a ha => ⟨hinv.count_pos ha, hinv.consistent.inside a ha⟩
  · intro i hlo hhi
    rw [hinv.consistent.bits i (.inl hhi)]
    exact ⟨fun h => h.resolve_left (by omega), .inr⟩

/-- What `fs_find_next` answers when these allocations are behind. -/
def firstAddress : List Allocation → UInt32
  | [] => fsNull
  | a :: _ => a.address

/-- What is laid out on the device of a heap: its used blocks from `lo` on are those of `items`. -/
structure Behind (g : FSGeometry) (d : Device) (live : List Allocation) (used : Nat → Bool)
    (lo : Nat) (items : List Allocation) : Prop where
  inv : Inv ⟨d, live⟩
  geometry : d.ctx.geometry = g
  used_eq : ∀ i < g.blockCount.toNat, d.bit i = used i
  laid : Laid (Allocation.first g) (Allocation.count g) used g.blockCount.toNat lo items
  mem : ∀ a ∈ items, a ∈ live

theorem Behind.looked (h : Behind g d live used lo items) (hlooked : Looked d d') :
    Behind g d' live used lo items where
  inv := h.inv.looked hlooked
  geometry := hlooked.geometry.trans h.geometry
  used_eq i hi := by
    have hbits := h.inv.geometry.bits
    simp only [h.geometry] at hbits
    rw [hlooked.bits i (by rw [h.geometry]; omega), h.used_eq i hi]
  laid := h.laid
  mem := h.mem

/-- The search stops at the first allocation behind the block where it starts. -/
theorem Behind.nextSearch {remaining : Nat} {i : UInt32} (h : Behind g d live used i.toNat items)
    (hremaining : remaining = g.blockCount.toNat - i.toNat) :
    (Device.nextSearch remaining i d).1 = firstAddress items ∧
      Looked d (Device.nextSearch remaining i d).2 := by
  induction remaining generalizing d i with
  | zero =>
      rw [h.laid.eq_nil (by omega)]
      exact ⟨rfl, .refl h.inv.sound h.inv.frameOk⟩
  | succ remaining ih =>
      have hgeometry := h.geometry
      have hbits := h.inv.geometry.bits
      have hcount := g.blockCount.toNat_lt
      simp only [hgeometry] at hbits
      have hnext : (i + 1).toNat = i.toNat + 1 := Mem.toNat_add_ofNat (k := 1) (by omega)
      obtain ⟨hgot, hlooked⟩ := h.inv.sound.looked_get h.inv.frameOk
        (show i.toNat < 8 * d.ctx.geometry.bitmapSize.toNat by rw [hgeometry]; omega)
      rw [h.used_eq i.toNat (by omega)] at hgot
      have h₁ := h.looked hlooked
      simp only [Device.nextSearch, hgot]
      cases hslot : used i.toNat with
      | false =>
          -- a free block is passed over
          simp only [Bool.false_eq_true, if_false]
          have hlaid := h₁.laid.succ hslot
          rw [← hnext] at hlaid
          obtain ⟨hanswer, hlooked'⟩ :=
            ih ⟨h₁.inv, h₁.geometry, h₁.used_eq, hlaid, h₁.mem⟩ (by omega)
          exact ⟨hanswer, hlooked.trans hlooked'⟩
      | true =>
          -- a used one starts an allocation, whose header is not empty
          obtain ⟨a, rest, rfl, hfirst, -, -⟩ := h.laid.head_of_used (by omega) hslot
          have ha := h.mem a (List.mem_cons_self ..)
          obtain ⟨hbytes, hlooked'⟩ := h₁.inv.sound.looked_memRead h₁.inv.frameOk
            (i * (d.fsBitmapGet i).2.ctx.geometry.sectorSize) FSAllocHeader.layout.size
          have hword : i * (d.fsBitmapGet i).2.ctx.geometry.sectorSize = a.address - 4 := by
            rw [h₁.geometry]
            apply UInt32.toNat_inj.mp
            have hstart := h.inv.word_toNat ha
            simp only [hgeometry, hfirst] at hstart
            have hlt := (a.address - 4).toNat_lt
            rw [hstart] at hlt
            rw [UInt32.toNat_mul, hstart, Nat.mod_eq_of_lt hlt]
          have hheader := h₁.inv.consistent.header a ha
          rw [hword] at hbytes hlooked'
          simp only [if_true, hword]
          rw [hbytes, FSAllocHeader.layout_size, hheader, Layout.decode_encode_self, if_pos]
          · refine ⟨UInt32.sub_add_cancel .., hlooked.trans ?_⟩
            simpa only [FSAllocHeader.layout_size] using hlooked'
          · have hpos := (h.inv.sized a ha).1.1
            intro hzero
            simp only at hzero
            rw [hzero] at hpos
            exact absurd hpos (by simp)

/-- `fs_find_next` goes on behind `prevAddr` at block `lo`. -/
def GoesOn (g : FSGeometry) (live : List Allocation) (prevAddr : UInt32) (lo : Nat) : Prop :=
  prevAddr = fsNull ∧ lo = g.reservedBlocks.toNat ∨
    ∃ a ∈ live, prevAddr = a.address ∧ lo = a.first g + a.count g

/-- The size in a live header is the size of the allocation. -/
theorem Inv.readHeader (hinv : Inv ⟨d, live⟩) (ha : a ∈ live) :
    FSAllocHeader.layout.decode (d.fsMemRead (a.address - 4) FSAllocHeader.layout.size).1 =
        ⟨a.size⟩ ∧
      Looked d (d.fsMemRead (a.address - 4) FSAllocHeader.layout.size).2 := by
  obtain ⟨hbytes, hlooked⟩ := hinv.sound.looked_memRead hinv.frameOk (a.address - 4)
    FSAllocHeader.layout.size
  have hheader := hinv.consistent.header a ha
  rw [hbytes, FSAllocHeader.layout_size, hheader, Layout.decode_encode_self]
  exact ⟨rfl, hlooked⟩

/-- `fs_find_next` answers with the next allocation. -/
theorem Behind.findNext {prevAddr : UInt32} (h : Behind g d live used lo items)
    (hprev : GoesOn g live prevAddr lo) :
    (d.fsFindNext prevAddr).1 = firstAddress items ∧ Looked d (d.fsFindNext prevAddr).2 := by
  have hgeometry := h.geometry
  obtain ⟨rfl, rfl⟩ | ⟨a, ha, rfl, rfl⟩ := hprev
  · rw [fsFindNext, if_pos rfl, findFrom, hgeometry]
    exact h.nextSearch rfl
  · obtain ⟨hdecode, hlooked⟩ := h.inv.readHeader ha
    have hsized := (h.inv.sized a ha).1.2
    have hinside := h.inv.consistent.inside a ha
    have hword := h.inv.word_toNat ha
    have hpos := h.inv.geometry.sector_pos
    simp only [hgeometry] at hsized hinside hword hpos
    have hcount := g.blockCount.toNat_lt
    -- the header tells how many blocks to skip
    have hskip : ((a.size + 4 + g.sectorSize - 1) / g.sectorSize).toNat = a.count g := by
      rw [UInt32.add_comm a.size]
      exact (FSGeometry.blocksFor_toNat hpos hsized).trans
        (by rw [Allocation.count, Nat.add_comm a.size.toNat])
    have hstart : ((a.address - 4) / g.sectorSize +
        (a.size + 4 + g.sectorSize - 1) / g.sectorSize).toNat = a.first g + a.count g := by
      rw [Mem.toNat_add_of_lt, UInt32.toNat_div, hword, Nat.mul_div_cancel _ hpos, hskip]
      rw [UInt32.toNat_div, hword, Nat.mul_div_cancel _ hpos, hskip]
      omega
    have h₁ := h.looked hlooked
    rw [fsFindNext, if_neg (h.inv.address_ne_null ha)]
    simp only [hdecode, hgeometry, findFrom, h₁.geometry]
    rw [← hstart] at h₁
    obtain ⟨hanswer, hlooked'⟩ := h₁.nextSearch rfl
    exact ⟨hanswer, hlooked.trans hlooked'⟩

theorem Behind.tail {rest : List Allocation} (h : Behind g d live used lo (a :: rest)) :
    Behind g d live used (a.first g + a.count g) rest := by
  obtain ⟨-, -, -, -, -, hrest⟩ := h.laid
  exact ⟨h.inv, h.geometry, h.used_eq, hrest, fun b hb => h.mem b (List.mem_cons_of_mem _ hb)⟩

/-- Calling `fs_find_next` with its own answers visits the allocations in their order. -/
theorem Behind.visits {prevAddr : UInt32} (h : Behind g d live used lo items)
    (hprev : GoesOn g live prevAddr lo) :
    ∃ d', Looked d d' ∧ ∀ fuel, items.length < fuel →
      d.visits fuel prevAddr = some (items.map Allocation.address, d') := by
  induction items generalizing d lo prevAddr with
  | nil =>
      obtain ⟨hanswer, hlooked⟩ := h.findNext hprev
      refine ⟨_, hlooked, fun fuel hfuel => ?_⟩
      obtain ⟨fuel, rfl⟩ := Nat.exists_eq_add_of_lt hfuel
      rw [firstAddress] at hanswer
      simp only [Device.visits, hanswer, if_true, List.map_nil]
  | cons a rest ih =>
      obtain ⟨hanswer, hlooked⟩ := h.findNext hprev
      have ha := h.mem a (List.mem_cons_self ..)
      have hrest := (h.looked hlooked).tail
      obtain ⟨d', hlooked', hvisits⟩ := ih hrest (.inr ⟨a, ha, rfl, rfl⟩)
      refine ⟨d', hlooked.trans hlooked', fun fuel hfuel => ?_⟩
      obtain ⟨fuel, rfl⟩ := Nat.exists_eq_add_of_lt hfuel
      rw [firstAddress] at hanswer
      have hnull := h.inv.address_ne_null ha
      simp only [List.length_cons] at hvisits ⊢
      rw [Device.visits]
      simp only [hanswer, if_neg hnull, hvisits (rest.length + 1 + fuel) (by omega),
        Option.map_some, List.map_cons]

/-- The loop of `fs_get_used_bytes` adds the blocks of the allocations in front of it. -/
theorem Behind.usedLoop {usedBytes : UInt32} (h : Behind g d live used lo items)
    (hpool : usedBytes.toNat + (items.map (Allocation.count g)).sum * g.sectorSize.toNat ≤
      g.poolSize.toNat) :
    ∃ bytes d', Looked d d' ∧ bytes.toNat =
        usedBytes.toNat + (items.map (Allocation.count g)).sum * g.sectorSize.toNat ∧
      ∀ fuel, items.length < fuel →
        Device.usedLoop fuel usedBytes (firstAddress items) d = some (bytes, d') := by
  induction items generalizing d lo usedBytes with
  | nil =>
      refine ⟨usedBytes, d, .refl h.inv.sound h.inv.frameOk, by simp, fun fuel hfuel => ?_⟩
      obtain ⟨fuel, rfl⟩ := Nat.exists_eq_add_of_lt hfuel
      rw [Device.usedLoop, firstAddress, if_pos rfl]
  | cons a rest ih =>
      have ha := h.mem a (List.mem_cons_self ..)
      have hgeometry := h.geometry
      have hlt := g.poolSize.toNat_lt
      obtain ⟨hdecode, hlooked⟩ := h.inv.readHeader ha
      have h₁ := h.looked hlooked
      obtain ⟨hanswer, hlooked'⟩ := h₁.tail.findNext (.inr ⟨a, ha, rfl, rfl⟩)
      have hrest := h₁.tail.looked hlooked'
      simp only [List.map_cons, List.sum_cons, Nat.add_mul] at hpool ⊢
      -- neither guard of the loop strikes
      have hsized := (h.inv.sized a ha).1
      have hmul := blocks_mul h.inv.geometry.sector_pos hsized.2
      rw [← count_eq_blocks h.inv.geometry.sector_pos hsized] at hmul
      have hblocks := count_eq_blocks h.inv.geometry.sector_pos hsized
      rw [Device.blocks] at hblocks
      simp only [hgeometry] at hmul hblocks
      have hbytes : (g.blocksFor a.size * g.sectorSize).toNat =
          a.count g * g.sectorSize.toNat := by
        rw [UInt32.toNat_mul, ← hblocks, Nat.mod_eq_of_lt (by omega)]
      have hsum : (usedBytes + g.blocksFor a.size * g.sectorSize).toNat =
          usedBytes.toNat + a.count g * g.sectorSize.toNat := by
        rw [Mem.toNat_add_of_lt (by omega), hbytes]
      have hguard : ¬ (a.size = 0 ∨ a.size > g.poolSize) := by
        rw [gt_iff_lt, UInt32.lt_iff_toNat_lt, ← UInt32.toNat_inj, UInt32.toNat_zero]
        have hpos := hsized.1
        omega
      have hroom : ¬ usedBytes + g.blocksFor a.size * g.sectorSize > g.poolSize := by
        rw [gt_iff_lt, UInt32.lt_iff_toNat_lt, hsum]
        omega
      have hbehind : (usedBytes + g.blocksFor a.size * g.sectorSize).toNat +
          (rest.map (Allocation.count g)).sum * g.sectorSize.toNat ≤ g.poolSize.toNat := by
        omega
      obtain ⟨bytes, d', hlooked'', hbytes', hloop⟩ := ih hrest hbehind
      refine ⟨bytes, d', (hlooked.trans hlooked').trans hlooked'', by omega, fun fuel hfuel => ?_⟩
      obtain ⟨fuel, rfl⟩ := Nat.exists_eq_add_of_lt hfuel
      have hnull := h.inv.address_ne_null ha
      have hfirst : firstAddress (a :: rest) = a.address := rfl
      rw [Device.usedLoop]
      simp only [List.length_cons] at hloop ⊢
      simp only [hfirst, if_neg hnull, hdecode, hgeometry, if_neg hguard, if_neg hroom,
        hanswer, hloop (rest.length + 1 + fuel) (by omega)]

/-! ## Every allocation, and every used byte -/

/-- What listing and counting the allocations answers. -/
structure Accounted (h : Heap) : Prop where
  listed : ∃ addresses d' n,
    (∀ fuel, n < fuel → h.device.visits fuel fsNull = some (addresses, d')) ∧
      addresses.Pairwise (· < ·) ∧ ∀ address, address ∈ addresses ↔ ∃ a ∈ h.live,
        a.address = address
  counted : ∃ bytes d' n,
    (∀ fuel, n < fuel → h.device.fsGetUsedBytes fuel = some (bytes, d')) ∧
      bytes.toNat = h.device.ctx.geometry.sectorSize.toNat * h.device.markedBits

theorem Inv.behind {h : Heap} (hinv : h.Inv) {sorted : List Allocation} (hperm : sorted.Perm h.live)
    (hlaid : Laid (Allocation.first h.device.ctx.geometry) (Allocation.count h.device.ctx.geometry)
      h.device.bit h.device.ctx.geometry.blockCount.toNat
        h.device.ctx.geometry.reservedBlocks.toNat sorted) :
    Behind h.device.ctx.geometry h.device h.live h.device.bit
      h.device.ctx.geometry.reservedBlocks.toNat sorted :=
  ⟨hinv, rfl, fun _ _ => rfl, hlaid, fun _ ha => hperm.mem_iff.mp ha⟩

/-- Addresses are in the order of their blocks. -/
theorem Inv.address_lt {h : Heap} (hinv : h.Inv) {a b : Allocation} (ha : a ∈ h.live)
    (hb : b ∈ h.live)
    (hlt : a.first h.device.ctx.geometry < b.first h.device.ctx.geometry) :
    a.address < b.address := by
  have hpos := hinv.geometry.sector_pos
  rw [UInt32.lt_iff_toNat_lt, (hinv.sized a ha).2, (hinv.sized b hb).2]
  have hmul := Nat.mul_lt_mul_of_pos_right hlt hpos
  omega

theorem Inv.listed {h : Heap} (hinv : h.Inv) : ∃ addresses d' n,
    (∀ fuel, n < fuel → h.device.visits fuel fsNull = some (addresses, d')) ∧
      addresses.Pairwise (· < ·) ∧
        ∀ address, address ∈ addresses ↔ ∃ a ∈ h.live, a.address = address := by
  obtain ⟨sorted, hperm, hlaid⟩ := hinv.exists_laid
  obtain ⟨d', -, hvisits⟩ := (hinv.behind hperm hlaid).visits (.inl ⟨rfl, rfl⟩)
  refine ⟨_, d', sorted.length, hvisits, ?_, fun address => ?_⟩
  · rw [List.pairwise_map]
    refine hlaid.pairwise.imp_of_mem fun ha hb hlt => ?_
    exact hinv.address_lt (hperm.mem_iff.mp ha) (hperm.mem_iff.mp hb) hlt
  · simp only [List.mem_map, hperm.mem_iff]

/-- The set bits are those of the reserved blocks and of the allocations. -/
theorem Inv.markedBits_eq {h : Heap} (hinv : h.Inv)
    (hle : h.device.ctx.geometry.reservedBlocks.toNat ≤ h.device.ctx.geometry.blockCount.toNat)
    {sorted : List Allocation}
    (hlaid : Laid (Allocation.first h.device.ctx.geometry) (Allocation.count h.device.ctx.geometry)
      h.device.bit h.device.ctx.geometry.blockCount.toNat
        h.device.ctx.geometry.reservedBlocks.toNat sorted) :
    h.device.markedBits = h.device.ctx.geometry.reservedBlocks.toNat +
      (sorted.map (Allocation.count h.device.ctx.geometry)).sum := by
  have hbits := hinv.geometry.bits
  have hreserved : (List.range' 0 (h.device.ctx.geometry.reservedBlocks.toNat - 0)).countP
      h.device.bit = h.device.ctx.geometry.reservedBlocks.toNat - 0 :=
    countP_range'_of_used fun i _ hi => (hinv.consistent.bits i (.inl (by omega))).mpr (.inl hi)
  have htail : (List.range' h.device.ctx.geometry.blockCount.toNat
      (8 * h.device.ctx.geometry.bitmapSize.toNat - h.device.ctx.geometry.blockCount.toNat)).countP
        h.device.bit = 0 := by
    apply countP_range'_of_free
    intro i hlo hhi
    rw [Bool.eq_false_iff, ne_eq, hinv.consistent.bits i (.inr hhi)]
    rintro (hreserved | ⟨a, ha, hcovers⟩)
    · omega
    · have hinside := hinv.consistent.inside a ha
      unfold Allocation.Covers at hcovers
      omega
  have hsplit := @countP_range' h.device.bit 0 _ _ (Nat.zero_le _) (hle.trans hbits)
  rw [Nat.sub_zero, Nat.sub_zero] at hsplit
  rw [Nat.sub_zero] at hreserved
  rw [markedBits, List.range_eq_range', hsplit, hreserved,
    countP_range' hle hbits, hlaid.countP hle,
    htail, Nat.add_zero]

/-- The size of a device, or of its whole bitmap if not even the metadata fits. -/
def Measured (g : FSGeometry) : Prop :=
  g.blockCount.toNat * g.sectorSize.toNat ≤ g.poolSize.toNat ∧
    (g.reservedBlocks.toNat ≤ g.blockCount.toNat ∨
      g.poolSize.toNat < g.reservedBlocks.toNat * g.sectorSize.toNat ∧
        g.reservedBlocks.toNat * g.sectorSize.toNat < 2 ^ 32 ∧
        g.poolSize.toNat = g.sectorSize.toNat * (8 * g.bitmapSize.toNat))

/-- Without blocks behind the reserved ones every bit is set. -/
theorem Inv.markedBits_full {h : Heap} (hinv : h.Inv)
    (hfull : 8 * h.device.ctx.geometry.bitmapSize.toNat ≤
      h.device.ctx.geometry.reservedBlocks.toNat) :
    h.device.markedBits = 8 * h.device.ctx.geometry.bitmapSize.toNat := by
  have hall : (List.range' 0 (8 * h.device.ctx.geometry.bitmapSize.toNat - 0)).countP
      h.device.bit = 8 * h.device.ctx.geometry.bitmapSize.toNat - 0 :=
    countP_range'_of_used fun i _ hi => (hinv.consistent.bits i (.inr hi)).mpr (.inl (by omega))
  rwa [Nat.sub_zero, ← List.range_eq_range'] at hall

theorem Inv.counted {h : Heap} (hinv : h.Inv) (hmeasured : Measured h.device.ctx.geometry) :
    ∃ bytes d' n, (∀ fuel, n < fuel → h.device.fsGetUsedBytes fuel = some (bytes, d')) ∧
      bytes.toNat = h.device.ctx.geometry.sectorSize.toNat * h.device.markedBits := by
  obtain ⟨hpool, hle | ⟨htight, hlt, hwhole⟩⟩ := hmeasured
  · obtain ⟨sorted, hperm, hlaid⟩ := hinv.exists_laid
    have hmarked := hinv.markedBits_eq hle hlaid
    have hsum := Nat.mul_le_mul_right h.device.ctx.geometry.sectorSize.toNat (hlaid.sum_le hle)
    rw [Nat.add_mul] at hsum
    have hbound := h.device.ctx.geometry.poolSize.toNat_lt
    have hreserved : (h.device.ctx.geometry.reservedBlocks *
        h.device.ctx.geometry.sectorSize).toNat =
          h.device.ctx.geometry.reservedBlocks.toNat * h.device.ctx.geometry.sectorSize.toNat := by
      rw [UInt32.toNat_mul, Nat.mod_eq_of_lt (by omega)]
    by_cases hzero : h.device.ctx.geometry.poolSize = 0
    · -- an empty device has no block at all
      have hnone : h.device.ctx.geometry.poolSize.toNat = 0 := by rw [hzero]; rfl
      refine ⟨0, h.device, 0, fun fuel _ => by rw [fsGetUsedBytes, if_pos hzero], ?_⟩
      rw [hmarked, Nat.mul_add, Nat.mul_comm, Nat.mul_comm _ (List.sum _), UInt32.toNat_zero]
      omega
    · have hbehind := hinv.behind hperm hlaid
      obtain ⟨hanswer, hlooked⟩ := hbehind.findNext (.inl ⟨rfl, rfl⟩)
      have hroom : (h.device.ctx.geometry.reservedBlocks * h.device.ctx.geometry.sectorSize).toNat +
          (sorted.map (Allocation.count h.device.ctx.geometry)).sum *
            h.device.ctx.geometry.sectorSize.toNat ≤ h.device.ctx.geometry.poolSize.toNat := by
        omega
      obtain ⟨bytes, d', -, hbytes, hloop⟩ := (hbehind.looked hlooked).usedLoop hroom
      refine ⟨bytes, d', sorted.length, fun fuel hfuel => ?_, ?_⟩
      · have hguard : ¬ h.device.ctx.geometry.reservedBlocks * h.device.ctx.geometry.sectorSize >
            h.device.ctx.geometry.poolSize := by
          rw [gt_iff_lt, UInt32.lt_iff_toNat_lt, hreserved]
          omega
        simp only [fsGetUsedBytes, if_neg hzero, if_neg hguard, hanswer, hloop fuel hfuel]
      · rw [hbytes, hreserved, hmarked, Nat.mul_add, Nat.mul_comm, Nat.mul_comm (List.sum _)]
  · have hreserved : (h.device.ctx.geometry.reservedBlocks *
        h.device.ctx.geometry.sectorSize).toNat =
          h.device.ctx.geometry.reservedBlocks.toNat * h.device.ctx.geometry.sectorSize.toNat := by
      rw [UInt32.toNat_mul, Nat.mod_eq_of_lt hlt]
    have hguard : h.device.ctx.geometry.reservedBlocks * h.device.ctx.geometry.sectorSize >
        h.device.ctx.geometry.poolSize := by
      rw [gt_iff_lt, UInt32.lt_iff_toNat_lt, hreserved]
      exact htight
    have hfull : 8 * h.device.ctx.geometry.bitmapSize.toNat ≤
        h.device.ctx.geometry.reservedBlocks.toNat := by
      rw [hwhole, Nat.mul_comm] at htight
      exact (Nat.lt_of_mul_lt_mul_right htight).le
    rw [hinv.markedBits_full hfull]
    by_cases hzero : h.device.ctx.geometry.poolSize = 0
    · refine ⟨0, h.device, 0, fun fuel _ => by rw [fsGetUsedBytes, if_pos hzero], ?_⟩
      rw [← hwhole, hzero]
    · refine ⟨h.device.ctx.geometry.poolSize, h.device, 0, fun fuel _ => ?_, hwhole⟩
      simp only [fsGetUsedBytes, if_neg hzero, if_pos hguard]

theorem Inv.accounted {h : Heap} (hinv : h.Inv) (hmeasured : Measured h.device.ctx.geometry) :
    h.Accounted :=
  ⟨hinv.listed, hinv.counted hmeasured⟩

/-- As many free blocks as `fs_alloc` looks for, and at least one, are nowhere in a row. -/
def Crowded (h : Heap) (size : UInt32) : Prop :=
  ∀ s, h.device.ctx.geometry.reservedBlocks.toNat ≤ s →
    s + max 1 (h.device.blocks size) ≤ h.device.ctx.geometry.blockCount.toNat →
      ¬ FirstFit.Run h.device.free s (max 1 (h.device.blocks size))

/-- What is allocated has a size whose rounding does not overflow. -/
def Serviceable (h : Heap) : HeapOp → Prop
  | .alloc size => Sized h.device.ctx.geometry size ∨ h.Crowded size
  | .free address => ∃ a ∈ h.live, a.address = address

/-- Where nothing fits, nothing is allocated. -/
theorem Inv.alloc_crowded {h : Heap} (hinv : h.Inv) {size : UInt32} (hcrowded : h.Crowded size) :
    Looked h.device (h.device.fsAlloc size).2 ∧
      h.step (.alloc size) = (some fsNull, ⟨(h.device.fsAlloc size).2, h.live⟩) := by
  obtain ⟨hfound, hstep, hbits⟩ := hinv.sound.findRun hinv.frameOk hinv.geometry
    (h.device.ctx.geometry.blocksFor size)
  have hnone : FirstFit.firstFit h.device.free (h.device.blocks size)
      h.device.ctx.geometry.reservedBlocks.toNat h.device.ctx.geometry.blockCount.toNat = none := by
    rw [← FirstFit.firstFit_max_one, Option.eq_none_iff_forall_ne_some]
    intro s hsome
    have hlow := FirstFit.firstFit_some (Nat.lt_of_lt_of_le Nat.one_pos (Nat.le_max_left ..)) hsome
    exact hcrowded s hlow.ge hlow.fits hlow.run
  rw [Device.blocks] at hnone
  rw [hnone, Option.map_eq_none_iff] at hfound
  simp only [Heap.step, fsAlloc, hfound, if_true]
  exact ⟨⟨hstep, hbits⟩, trivial⟩

theorem Inv.alloc_geometry {h : Heap} (hinv : h.Inv) {size : UInt32}
    (hsized : Sized h.device.ctx.geometry size) :
    (h.device.fsAlloc size).2.ctx.geometry = h.device.ctx.geometry := by
  have hspec := hinv.sound.alloc hinv.frameOk hinv.geometry hsized.2
  cases hfit : FirstFit.firstFit h.device.free (h.device.blocks size)
      h.device.ctx.geometry.reservedBlocks.toNat h.device.ctx.geometry.blockCount.toNat with
  | none =>
      rw [hfit] at hspec
      exact hspec.2.1.geometry
  | some s =>
      rw [hfit] at hspec
      exact hspec.geometry

theorem Inv.free_geometry {h : Heap} (hinv : h.Inv) (ha : a ∈ h.live) :
    (h.device.fsFree a.address).ctx.geometry = h.device.ctx.geometry := by
  obtain ⟨hsized, haddress⟩ := hinv.sized a ha
  have hinside := hinv.consistent.inside a ha
  rw [count_eq_blocks hinv.geometry.sector_pos hsized] at hinside
  exact (hinv.sound.free hinv.frameOk hinv.geometry (hinv.address_ne_null ha) hsized.2 haddress
    hinside.1 hinside.2 (hinv.consistent.header a ha)).geometry

/-- An operation keeps the heap consistent and the sizes of its device. -/
theorem Inv.step_serviceable {h : Heap} (hinv : h.Inv) {op : HeapOp} (hop : h.Serviceable op) :
    (h.step op).2.Inv ∧ (h.step op).2.device.ctx.geometry = h.device.ctx.geometry := by
  cases op with
  | alloc size =>
      obtain hsized | hcrowded := hop
      · exact ⟨(hinv.alloc hsized).2, hinv.alloc_geometry hsized⟩
      · obtain ⟨hlooked, hstep⟩ := hinv.alloc_crowded hcrowded
        rw [hstep]
        exact ⟨hinv.looked hlooked, hlooked.geometry⟩
  | free address =>
      obtain ⟨a, ha, rfl⟩ := hop
      exact ⟨hinv.free ha, hinv.free_geometry ha⟩

end Heap

namespace FSGeometry

variable {deviceType : FSDeviceType} {partition : FSPartitionBlock}

/-- The metadata fits the blocks, or the device is just the blocks of its bitmap. -/
def Roomy (g : FSGeometry) : Prop :=
  g.reservedBlocks.toNat ≤ g.blockCount.toNat ∨
    g.poolSize.toNat = g.sectorSize.toNat * (8 * g.bitmapSize.toNat)

theorem ofPartition_measured (hpos : 0 < partition.sectorSize.toNat)
    (hroomy : (ofPartition deviceType partition).Roomy) :
    Heap.Measured (ofPartition deviceType partition) := by
  have hcount : (ofPartition deviceType partition).blockCount.toNat =
      partition.totalSize.toNat / partition.sectorSize.toNat := UInt32.toNat_div ..
  have hreserved : (ofPartition deviceType partition).reservedBlocks.toNat *
      partition.sectorSize.toNat < 2 ^ 32 := by
    rw [ofPartition_reserved]
    exact (Nat.div_mul_le_self ..).trans_lt (Nat.mod_lt _ (Nat.two_pow_pos 32))
  refine ⟨?_, ?_⟩
  · rw [hcount]
    exact Nat.div_mul_le_self ..
  · by_cases hle : (ofPartition deviceType partition).reservedBlocks.toNat ≤
        (ofPartition deviceType partition).blockCount.toNat
    · exact .inl hle
    · refine .inr ⟨?_, hreserved, hroomy.resolve_left hle⟩
      rw [hcount] at hle
      exact (Nat.div_lt_iff_lt_mul hpos).mp (not_le.mp hle)

end FSGeometry

/-- In every state reachable from a formatted device, unless the count of its blocks overflows
when it is rounded up to bytes, listing visits each allocation once in ascending order and the
used bytes are those of the set bits. -/
theorem allocations_accounted {old formatted d : Device} {deviceType : FSDeviceType}
    {capacity sectorSize : UInt32} {part : FSPartitionBlock}
    (hio : (old.blank deviceType).SectorIo)
    (hformat : old.fsDeviceFormat capacity sectorSize deviceType = some formatted)
    (hopen : formatted.fsDeviceOpen deviceType = some (part, d))
    (hcount : capacity.toNat / sectorSize.toNat + 7 < 2 ^ 32) (hroomy : d.ctx.geometry.Roomy)
    {ops : List HeapOp} {answers : List (Option UInt32)} {h : Heap}
    (hserviceable : Trace.Permitted (Trace.total Heap.step) Heap.Serviceable ⟨d, []⟩ ops)
    (hrun : Trace.run (Trace.total Heap.step) ⟨d, []⟩ ops = some (answers, h)) :
    h.Accounted := by
  obtain ⟨hpos, rfl, hfresh⟩ := Device.format_open hio hformat hopen
  have hgeo : d.ctx.geometry.Ok := by
    rw [hfresh.geometry]
    exact FSGeometry.ofPartition_ok deviceType hpos hcount
  have hmeasured : Heap.Measured d.ctx.geometry := by
    rw [hfresh.geometry] at hroomy ⊢
    exact FSGeometry.ofPartition_measured hpos hroomy
  have hstep : ∀ (h : Heap) (op : HeapOp) (answer : Option UInt32) (h' : Heap),
      h.Inv ∧ h.device.ctx.geometry = d.ctx.geometry → h.Serviceable op →
        Trace.total Heap.step h op = some (answer, h') →
          h'.Inv ∧ h'.device.ctx.geometry = d.ctx.geometry := by
    intro h op answer h' hinv hop hstep
    obtain ⟨hnext, hgeometry⟩ := hinv.1.step_serviceable hop
    rw [Trace.total, Option.some_inj, Prod.mk.injEq] at hstep
    rw [← hstep.2]
    exact ⟨hnext, hgeometry.trans hinv.2⟩
  obtain ⟨hinv, hgeometry⟩ :=
    Trace.run_preserves hstep ⟨Heap.Inv.of_fresh hfresh hgeo, rfl⟩ hserviceable hrun
  exact hinv.accounted (by rwa [hgeometry])

theorem Heap.Allowed.serviceable {h : Heap} {op : HeapOp} (hop : h.Allowed op) :
    h.Serviceable op := by
  cases op with
  | alloc size => exact .inl hop
  | free address => exact hop

/-- Three allocations on sixteen blocks of 64 bytes, the one in the middle freed and its place
taken again. -/
theorem allocations_accounted_small : ∃ (formatted d : Device) (part : FSPartitionBlock)
    (answers : List (Option UInt32)) (h : Heap),
    zeroDevice.fsDeviceFormat 1024 64 .ata = some formatted ∧
      formatted.fsDeviceOpen .ata = some (part, d) ∧
      Trace.run (Trace.total Heap.step) ⟨d, []⟩ holeOps = some (answers, h) ∧
      h.live = [⟨196, 60⟩, ⟨260, 200⟩, ⟨68, 100⟩] ∧ h.Accounted := by
  obtain ⟨formatted, d, hformat, hopen, hd, hfresh⟩ :=
    exists_freshDevice 1024 (show 0 < (64 : UInt32).toNat by decide)
  have hholes := freshDevice_holeOps
  rw [hd, Option.map_some, Option.some_inj, Prod.mk.injEq, Option.map_eq_some_iff] at hholes
  obtain ⟨hallowed, ⟨answers, h⟩, hrun, heq⟩ := hholes
  have hroomy : d.ctx.geometry.Roomy := by
    rw [hfresh.geometry]
    exact .inl (by decide)
  exact ⟨formatted, d, _, answers, h, hformat, hopen, hrun, congrArg Prod.snd heq,
    allocations_accounted zeroDevice_io hformat hopen (by decide) hroomy
      ((of_decide_eq_true hallowed).mono fun _ _ => Heap.Allowed.serviceable) hrun⟩

/-- An allocation of no bytes marks a block but has the header of a free one: it is not listed. -/
theorem allocation_not_accounted : ∃ (formatted d : Device) (part : FSPartitionBlock)
    (answers : List (Option UInt32)) (h : Heap),
    zeroDevice.fsDeviceFormat 1024 64 .ata = some formatted ∧
      formatted.fsDeviceOpen .ata = some (part, d) ∧
      Trace.run (Trace.total Heap.step) ⟨d, []⟩ [.alloc 0] = some (answers, h) ∧
      ¬ h.Accounted := by
  obtain ⟨formatted, d, hformat, hopen, hd, -⟩ :=
    exists_freshDevice 1024 (show 0 < (64 : UInt32).toNat by decide)
  have haddress : (freshDevice 1024 64).map
    (fun d => ((d.fsAlloc 0).1, ((d.fsAlloc 0).2.fsFindNext fsNull).1)) =
      some (68, fsNull) := by decide +kernel
  rw [hd, Option.map_some, Option.some_inj, Prod.mk.injEq] at haddress
  refine ⟨formatted, d, _, _, _, hformat, hopen, rfl, fun haccounted => ?_⟩
  obtain ⟨addresses, d', n, hvisits, -, hmem⟩ := haccounted.listed
  -- the first call already finds nothing, although 68 is live
  have hfirst := hvisits (n + 1) (Nat.lt_succ_self n)
  simp only [Heap.step, Device.visits, haddress.2, if_true, Option.some_inj,
    Prod.mk.injEq] at hfirst
  obtain ⟨rfl, -⟩ := hfirst
  have hlive := (hmem 68).mpr ⟨⟨68, 0⟩, ?_, rfl⟩
  · cases hlive
  · simp only [Heap.step, haddress.1]
    exact List.mem_singleton_self _

/-! ## What formatting establishes -/

namespace Device

/-- The sizes of a device formatted with `capacity` and `sectorSize`. -/
def formatGeometry (deviceType : FSDeviceType) (capacity sectorSize : UInt32) : FSGeometry :=
  .ofPartition deviceType (formatPartition capacity sectorSize)

/-- Formatted and opened again, the device is open with these sizes, the bits of its reserved
blocks are the only ones set, and their bytes are the used ones. -/
def FormatEstablishes (old : Device) (deviceType : FSDeviceType) (capacity sectorSize : UInt32) :
    Prop :=
  ∃ (formatted d : Device) (part : FSPartitionBlock),
    old.fsDeviceFormat capacity sectorSize deviceType = some formatted ∧
      formatted.fsDeviceOpen deviceType = some (part, d) ∧
      d.ctx.geometry = formatGeometry deviceType capacity sectorSize ∧
      d.ctx.geometry.isOpen = true ∧ d.ctx.geometry.poolSize = capacity ∧
      d.ctx.geometry.sectorSize = sectorSize ∧
      (∀ i < d.ctx.geometry.blockCount.toNat,
        d.bit i = decide (i < d.ctx.geometry.reservedBlocks.toNat)) ∧
      ∃ used d' n, (∀ fuel, n < fuel → d.fsGetUsedBytes fuel = some (used, d')) ∧
        used.toNat = d.ctx.geometry.reservedBlocks.toNat * sectorSize.toNat

variable {old d : Device} {deviceType : FSDeviceType} {capacity sectorSize : UInt32}
  {part : FSPartitionBlock}

theorem Fresh.markedBits_eq {disk : Mem} (h : d.Fresh deviceType part disk)
    (hgeo : d.ctx.geometry.Ok)
    (hroom : d.ctx.geometry.reservedBlocks.toNat ≤ d.ctx.geometry.blockCount.toNat) :
    d.markedBits = d.ctx.geometry.reservedBlocks.toNat := by
  have hinv := Heap.Inv.of_fresh h hgeo
  obtain ⟨sorted, hperm, hlaid⟩ := hinv.exists_laid
  rw [hinv.markedBits_eq hroom hlaid, List.perm_nil.mp hperm]
  rfl

/-- Formatting establishes a heap without allocations on any disk that can be opened. -/
theorem formatEstablishes_of_count (hio : (old.blank deviceType).SectorIo)
    (hdisk : Openable old.drive.byte) (hpos : 0 < sectorSize.toNat)
    (hroom : (formatGeometry deviceType capacity sectorSize).reservedBlocks.toNat ≤
      (formatGeometry deviceType capacity sectorSize).blockCount.toNat)
    (hcount : capacity.toNat / sectorSize.toNat + 7 < 2 ^ 32) :
    old.FormatEstablishes deviceType capacity sectorSize := by
  obtain ⟨formatted, d, hformat, hopen⟩ := format_exists capacity hio hdisk hpos
  obtain ⟨-, -, hfresh⟩ := format_open hio hformat hopen
  have hgeometry : d.ctx.geometry = formatGeometry deviceType capacity sectorSize := hfresh.geometry
  have hgeo : d.ctx.geometry.Ok := by
    rw [hfresh.geometry]
    exact FSGeometry.ofPartition_ok deviceType hpos hcount
  have hmeasured : Heap.Measured d.ctx.geometry := by
    rw [hgeometry]
    exact FSGeometry.ofPartition_measured hpos (.inl hroom)
  obtain ⟨used, d', n, hused, hbytes⟩ := (Heap.Inv.of_fresh hfresh hgeo).counted hmeasured
  refine ⟨formatted, d, _, hformat, hopen, hgeometry, by rw [hgeometry]; rfl,
    by rw [hgeometry]; rfl, by rw [hgeometry]; rfl, fun i hi => ?_, used, d', n, hused, ?_⟩
  · exact hfresh.bits i (hi.trans_le hgeo.bits)
  · have hsector : d.ctx.geometry.sectorSize = sectorSize := by rw [hgeometry]; rfl
    rw [hbytes, hfresh.markedBits_eq hgeo (by rwa [hgeometry]), Nat.mul_comm, hsector]

/-- A block count that overflows when it is rounded up has a bitmap without bytes. -/
theorem bitmapSize_of_overflow (hcount : 2 ^ 32 ≤ capacity.toNat / sectorSize.toNat + 7) :
    (formatGeometry deviceType capacity sectorSize).bitmapSize = 0 ∧
      0 < (formatGeometry deviceType capacity sectorSize).blockCount.toNat := by
  have hlt := (capacity / sectorSize).toNat_lt
  have hdiv : (capacity / sectorSize).toNat = capacity.toNat / sectorSize.toNat :=
    UInt32.toNat_div ..
  have hsize : (formatGeometry deviceType capacity sectorSize).bitmapSize.toNat = 0 := by
    have hdef : (formatGeometry deviceType capacity sectorSize).bitmapSize =
      (capacity / sectorSize + 7) / 8 := rfl
    rw [hdef]
    simp only [UInt32.toNat_div _ 8, UInt32.toNat_add, UInt32.reduceToNat]
    omega
  refine ⟨UInt32.toNat_inj.mp hsize, ?_⟩
  have hblocks : (formatGeometry deviceType capacity sectorSize).blockCount =
    capacity / sectorSize :=
    rfl
  rw [hblocks]
  omega

/-- Without a bitmap the bits are what the disk held behind the headers. -/
theorem headed_behind (disk : Mem) (part : FSPartitionBlock) :
    headed disk part 0 fsBitmapAddress = disk fsBitmapAddress := by
  have hheader : (FSDeviceHeader.layout.encode formatDeviceHeader).length = 16 :=
    FSDeviceHeader.layout.encode_length _
  have hpart : (FSPartitionBlock.layout.encode part).length = 32 :=
    FSPartitionBlock.layout.encode_length _
  rw [headed, UInt32.toNat_zero, List.replicate_zero, Mem.write,
    Mem.write_apply_of_ge _ _ (by omega) (by rw [hpart]; decide),
    Mem.write_apply_of_ge _ _ (by omega) (by rw [hheader]; decide)]

/-- On a disk with zeros behind the headers a count that overflows leaves nothing marked. -/
theorem not_formatEstablishes (hio : (old.blank deviceType).SectorIo)
    (hzero : old.drive.byte fsBitmapAddress = 0)
    (hcount : 2 ^ 32 ≤ capacity.toNat / sectorSize.toNat + 7)
    (hreserved : 0 < (formatGeometry deviceType capacity sectorSize).reservedBlocks.toNat) :
    ¬ old.FormatEstablishes deviceType capacity sectorSize := by
  rintro ⟨formatted, d, part, hformat, hopen, hgeometry, -, -, -, hbits, -⟩
  obtain ⟨-, rfl, hfresh⟩ := format_open hio hformat hopen
  obtain ⟨hsize, hblocks⟩ := bitmapSize_of_overflow hcount
  rw [← hgeometry] at hsize hblocks hreserved
  have hbit : d.bit 0 = true := by
    rw [hbits 0 hblocks, decide_eq_true hreserved]
  have hbyte : d.image fsBitmapAddress = 0 := by
    rw [hfresh.outside fsBitmapAddress (by simp [hsize]), hsize, headed_behind, hzero]
  have hframe : ¬ d.ctx.frame.offset.toNat ≤ 0 := by
    rw [hfresh.unloaded]
    decide
  have hfirst : fsBitmapAddress + UInt32.ofNat (0 / 8) = fsBitmapAddress := rfl
  rw [bit, bitmapByte_of_not_covered fun h => hframe h.1, hfirst, hbyte] at hbit
  exact absurd hbit (by decide)

/-- Only one-byte sectors have so many blocks, and then the headers take some. -/
theorem reserved_pos_of_overflow (hcount : 2 ^ 32 ≤ capacity.toNat / sectorSize.toNat + 7) :
    0 < (formatGeometry deviceType capacity sectorSize).reservedBlocks.toNat := by
  have hlt := capacity.toNat_lt
  have hpos : 0 < sectorSize.toNat := by
    by_contra hzero
    rw [Nat.eq_zero_of_not_pos hzero, Nat.div_zero] at hcount
    omega
  have hone : sectorSize.toNat = 1 := by
    by_contra hne
    have htwo : capacity.toNat / sectorSize.toNat ≤ capacity.toNat / 2 :=
      Nat.div_le_div_left (by omega) (by decide)
    omega
  have hsize := (@bitmapSize_of_overflow deviceType _ _ hcount).1
  have hreserved := FSGeometry.ofPartition_reserved deviceType (formatPartition capacity sectorSize)
  have hsector : (formatPartition capacity sectorSize).sectorSize.toNat = 1 := hone
  rw [formatGeometry] at hsize
  rw [hsize, hsector] at hreserved
  rw [formatGeometry, hreserved]
  decide

/-- A drive of zeros for either kind of sector device. -/
def zeroDrive : Device := { zeroDevice with drive.port := true }

theorem zeroDrive_io (hdevice : deviceType = .ata ∨ deviceType = .ahci) :
    (zeroDrive.blank deviceType).SectorIo := by
  refine ⟨?_, fun _ => rfl, fun _ => rfl⟩
  obtain rfl | rfl := hdevice
  · exact .inl rfl
  · exact .inr ⟨rfl, rfl⟩

/-- Whatever the disk held before, formatting establishes an empty file system, exactly unless
the count of the blocks overflows when it is rounded up to bytes. -/
theorem format_establishes_iff (hdevice : deviceType = .ata ∨ deviceType = .ahci)
    (hpos : 0 < sectorSize.toNat)
    (hroom : (formatGeometry deviceType capacity sectorSize).reservedBlocks.toNat ≤
      (formatGeometry deviceType capacity sectorSize).blockCount.toNat) :
    (∀ old : Device, (old.blank deviceType).SectorIo → Openable old.drive.byte →
        old.FormatEstablishes deviceType capacity sectorSize) ↔
      capacity.toNat / sectorSize.toNat + 7 < 2 ^ 32 := by
  refine ⟨fun h => ?_, fun hcount old hio hdisk =>
    formatEstablishes_of_count hio hdisk hpos hroom hcount⟩
  by_contra hcount
  have hio := zeroDrive_io hdevice
  have hopenable : Openable zeroDrive.drive.byte := zeroDevice_openable
  exact not_formatEstablishes hio rfl (by omega) (reserved_pos_of_overflow (by omega))
    (h zeroDrive hio hopenable)

/-- Sixteen blocks of 64 bytes. -/
theorem format_establishes_small : zeroDevice.FormatEstablishes .ata 1024 64 :=
  (format_establishes_iff (.inl rfl) (by decide) (by decide)).mpr (by decide) zeroDevice
    zeroDevice_io zeroDevice_openable

/-- With one-byte sectors on all of the address space formatting marks nothing. -/
theorem format_not_establishes :
    (formatGeometry .ata 0xFFFFFFFF 1).reservedBlocks.toNat ≤
        (formatGeometry .ata 0xFFFFFFFF 1).blockCount.toNat ∧
      (zeroDevice.blank .ata).SectorIo ∧ Openable zeroDevice.drive.byte ∧
      ¬ zeroDevice.FormatEstablishes .ata 0xFFFFFFFF 1 :=
  ⟨by decide, zeroDevice_io, zeroDevice_openable,
    not_formatEstablishes zeroDevice_io rfl (by decide) (by decide)⟩

end Device

end AvrKernel.BaseFS

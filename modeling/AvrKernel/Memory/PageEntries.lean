import AvrKernel.Lib.BitArray
import AvrKernel.Lib.FirstFit
import AvrKernel.Memory.Frames
import AvrKernel.Memory.PageTables

/-!
# Page tables

The entries that `vmm_map_page` and `vmm_unmap_page` of `virtual/vmm.c` write, the bitmap of the
pages in use, and what the two of them say about the area that the kernel allocates pages in.
-/

namespace AvrKernel.Memory

def vmReadwrite : UInt32 := 2

/-- `VM_START` and `VM_END`, and the number of pages between them. -/
def vmStart : UInt32 := 0x10000000
def vmEnd : UInt32 := 0x20000000
def virtPages : Nat := 0x10000
def virtBitmapSize : Nat := 0x2000

/-- The state of the virtual memory manager, and that of the frames it takes. -/
structure VmmState where
  virtBitmap : Nat → UInt8
  tables : PageTables
  /-- The address of `static_page_tables`. -/
  tablesAt : UInt32
  pmm : PmmState

/-! ## Entries -/

/-- Two addresses in the same page. -/
def SamePage (v v' : UInt32) : Prop := v.toNat / 4096 = v'.toNat / 4096

instance (v v' : UInt32) : Decidable (SamePage v v') := inferInstanceAs (Decidable (_ = _))

theorem directory_index_toNat (v : UInt32) : (v >>> 22).toNat = v.toNat / 0x400000 := by
  rw [UInt32.toNat_shiftRight]
  exact Nat.shiftRight_eq_div_pow v.toNat 22

theorem table_index_toNat (v : UInt32) :
    ((v >>> 12) &&& 0x3FF : UInt32).toNat = v.toNat / 4096 % 1024 := by
  have hshift : (v >>> 12).toNat = v.toNat / 4096 := by
    rw [UInt32.toNat_shiftRight]
    exact Nat.shiftRight_eq_div_pow v.toNat 12
  rw [UInt32.toNat_and, hshift]
  exact Nat.and_two_pow_sub_one_eq_mod (v.toNat / 4096) 10

/-- The indices of an address are those of its page. -/
theorem indices_eq_iff (v v' : UInt32) :
    (v >>> 22 = v' >>> 22 ∧ (v >>> 12) &&& (0x3FF : UInt32) = (v' >>> 12) &&& 0x3FF) ↔
      SamePage v v' := by
  rw [← UInt32.toNat_inj, ← UInt32.toNat_inj, directory_index_toNat, directory_index_toNat,
    table_index_toNat, table_index_toNat, SamePage]
  omega

/-- The entry of the page directory is present. -/
def Linked (t : PageTables) (v : UInt32) : Prop := t.pageDirectory (v >>> 22) &&& vmPresent ≠ 0

instance (t : PageTables) (v : UInt32) : Decidable (Linked t v) :=
  inferInstanceAs (Decidable (_ ≠ _))

theorem mapped_iff {t : PageTables} {v : UInt32} :
    t.Mapped v ↔ Linked t v ∧ t.pte v &&& vmPresent ≠ 0 := Iff.rfl

/-- Write the entry of the page of `v`. -/
def setEntry (t : PageTables) (v entry : UInt32) : PageTables :=
  { t with
    staticPageTables := Function.update t.staticPageTables (v >>> 22)
      (Function.update (t.staticPageTables (v >>> 22)) ((v >>> 12) &&& 0x3FF) entry) }

/-- Link the static page table of `v` into the page directory, if it is not there. -/
def linkTable (t : PageTables) (tablesAt v : UInt32) : PageTables :=
  if t.pageDirectory (v >>> 22) &&& vmPresent = 0 then
    { t with
      pageDirectory := Function.update t.pageDirectory (v >>> 22)
        ((tablesAt + (v >>> 22) * pageSize) ||| vmPresent ||| vmReadwrite) }
  else t

variable {t : PageTables} {v v' entry tablesAt : UInt32}

theorem pte_setEntry :
    (setEntry t v entry).pte v' = if SamePage v' v then entry else t.pte v' := by
  simp only [PageTables.pte, setEntry]
  by_cases hpd : v' >>> 22 = v >>> 22
  · rw [hpd, Function.update_self]
    by_cases hpt : (v' >>> 12) &&& (0x3FF : UInt32) = (v >>> 12) &&& 0x3FF
    · rw [if_pos ((indices_eq_iff v' v).mp ⟨hpd, hpt⟩), hpt, Function.update_self]
    · rw [if_neg fun hsame => hpt ((indices_eq_iff v' v).mpr hsame).2, Function.update_of_ne hpt]
  · rw [if_neg fun hsame => hpd ((indices_eq_iff v' v).mpr hsame).1, Function.update_of_ne hpd]

@[simp] theorem linked_setEntry : Linked (setEntry t v entry) v' ↔ Linked t v' := Iff.rfl

@[simp] theorem pte_linkTable : (linkTable t tablesAt v).pte v' = t.pte v' := by
  rw [linkTable]
  split
  · rfl
  · rfl

theorem present_or (x y : UInt32) : (x ||| vmPresent ||| y) &&& vmPresent ≠ 0 := by
  intro hzero
  have hbit := congrArg (fun w => w.toBitVec.getLsbD 0) hzero
  simp [vmPresent] at hbit

theorem linked_linkTable :
    Linked (linkTable t tablesAt v) v' ↔ v' >>> 22 = v >>> 22 ∨ Linked t v' := by
  rw [linkTable]
  split
  next habsent =>
    rw [Linked, Linked]
    by_cases hpd : v' >>> 22 = v >>> 22
    · simp only [hpd, Function.update_self, true_or, iff_true]
      exact present_or _ _
    · simp [hpd]
  next hpresent =>
    constructor
    · exact .inr
    · rintro (hpd | hlinked)
      · rw [Linked, hpd]
        exact hpresent
      · exact hlinked

/-! ## The bitmap -/

namespace VmmState

variable (s : VmmState)

/-- The bytes of the bitmap, as words of bits. -/
def words (s : VmmState) : Nat → BitVec 8 := fun i => (s.virtBitmap i).toBitVec

/-- The page is in use. -/
def bit (page : Nat) : Bool := BitArray.bit s.words page

/-- `virt_bitmap[bit / 8] & (1U << (bit % 8))`. -/
def maskOf (bit : Nat) : UInt8 := 1 <<< UInt8.ofNat (bit % 8)

def setBit (bit : Nat) : VmmState :=
  { s with
    virtBitmap := Function.update s.virtBitmap (bit / 8) (s.virtBitmap (bit / 8) ||| maskOf bit) }

def clearBit (bit : Nat) : VmmState :=
  { s with
    virtBitmap := Function.update s.virtBitmap (bit / 8)
      (s.virtBitmap (bit / 8) &&& ~~~maskOf bit) }

variable {s} {i j : Nat}

theorem maskOf_toBitVec (i : Nat) : (maskOf i).toBitVec = BitArray.mask 8 i := by
  have hlt := Nat.mod_lt i (show 0 < 8 by decide)
  apply BitVec.eq_of_toNat_eq
  have hshift : (UInt8.ofNat (i % 8)).toNat % 8 = i % 8 := by
    rw [UInt8.toNat_ofNat']
    omega
  rw [BitArray.mask, BitVec.toNat_twoPow, UInt8.toNat_toBitVec, maskOf, UInt8.toNat_shiftLeft,
    hshift, UInt8.toNat_one, Nat.shiftLeft_eq, Nat.one_mul]

theorem words_setBit : (s.setBit i).words = BitArray.set s.words i := by
  funext k
  simp only [words, setBit, BitArray.set]
  by_cases hk : k = i / 8
  · rw [hk, Function.update_self, Function.update_self, UInt8.toBitVec_or, maskOf_toBitVec]
  · rw [Function.update_of_ne hk, Function.update_of_ne hk, words]

theorem words_clearBit : (s.clearBit i).words = BitArray.clear s.words i := by
  funext k
  simp only [words, clearBit, BitArray.clear]
  by_cases hk : k = i / 8
  · rw [hk, Function.update_self, Function.update_self, UInt8.toBitVec_and, UInt8.toBitVec_not,
      maskOf_toBitVec]
  · rw [Function.update_of_ne hk, Function.update_of_ne hk, words]

@[simp] theorem bit_setBit : (s.setBit i).bit j = (decide (j = i) || s.bit j) := by
  rw [bit, words_setBit, BitArray.bit_set (by decide)]
  rfl

@[simp] theorem bit_clearBit : (s.clearBit i).bit j = (!decide (j = i) && s.bit j) := by
  rw [bit, words_clearBit, BitArray.bit_clear (by decide)]
  rfl

theorem and_maskOf_eq_zero_iff : s.virtBitmap (i / 8) &&& maskOf i = 0 ↔ s.bit i = false := by
  rw [← UInt8.toBitVec_inj, UInt8.toBitVec_and, maskOf_toBitVec]
  exact BitArray.and_mask_eq_zero_iff (by decide) _

/-! ## The search -/

/-- The loop of `find_contiguous_bits` at bit `i`, `left` bits before the end. -/
def scanBits (bitmap : Nat → UInt8) (numBits : UInt32) :
    Nat → Nat → UInt32 → Option Nat → Option Nat
  | 0, _, _, _ => none
  | left + 1, i, count, startBit =>
      if bitmap (i / 8) &&& maskOf i = 0 then
        let startBit := if count = 0 then some i else startBit
        if count + 1 = numBits then startBit
        else scanBits bitmap numBits left (i + 1) (count + 1) startBit
      else scanBits bitmap numBits left (i + 1) 0 none

/-- `none` stands for -1. -/
def findContiguousBits (bitmap : Nat → UInt8) (bitmapSize : Nat) (numBits : UInt32) :
    Option Nat :=
  scanBits bitmap numBits (bitmapSize * 8) 0 0 none

/-- The pages that are not in use. -/
def unused (s : VmmState) (page : Nat) : Bool := !s.bit page

theorem scanBits_eq {numBits : UInt32} {left i length : Nat} {start : Option Nat}
    (hlength : length < numBits.toNat) (hstart : length ≠ 0 → start = some (i - length)) :
    scanBits s.virtBitmap numBits left i (.ofNat length) start =
      FirstFit.scan s.unused numBits.toNat left i (i - length) length := by
  have hlt := numBits.toNat_lt
  induction left generalizing i length start with
  | zero => rfl
  | succ left ih =>
      have hzero : UInt32.ofNat length = 0 ↔ length = 0 := by
        rw [← UInt32.toNat_inj, UInt32.toNat_ofNat', UInt32.toNat_zero]
        omega
      have hnext : UInt32.ofNat length + 1 = UInt32.ofNat (length + 1) := by
        rw [UInt32.ofNat_add]
        rfl
      have hlast : UInt32.ofNat (length + 1) = numBits ↔ length + 1 = numBits.toNat := by
        rw [← UInt32.toNat_inj, UInt32.toNat_ofNat']
        omega
      rw [scanBits, FirstFit.scan, unused, hnext]
      simp only [and_maskOf_eq_zero_iff, hzero, hlast]
      cases hbit : s.bit i with
      | true =>
          have hrest : scanBits s.virtBitmap numBits left (i + 1) 0 none = _ :=
            ih (show 0 < numBits.toNat by omega) (by simp)
          simpa using hrest.trans (FirstFit.scan_start ..)
      | false =>
          have hbegin : (if length = 0 then some i else start) = some (i - length) := by
            split
            next h0 => rw [h0, Nat.sub_zero]
            next hpos => exact hstart hpos
          have hsame : (if length = 0 then i else i - length) = i - length := by
            split
            next h0 => rw [h0, Nat.sub_zero]
            next => rfl
          have hsub : i - length = i + 1 - (length + 1) := (Nat.add_sub_add_right i 1 length).symm
          simp only [Bool.not_false, if_true, hbegin, hsame]
          by_cases hend : length + 1 = numBits.toNat
          · rw [if_pos hend, if_pos hend.ge]
          · rw [if_neg hend, if_neg (by omega), hsub, ih (by omega) fun _ => rfl]

/-- The counter is compared after it has been counted up, so it is never 0 there. -/
theorem scanBits_zero {bitmap : Nat → UInt8} {left i : Nat} {count : UInt32} {start : Option Nat}
    (hcount : count.toNat + left < 2 ^ 32) : scanBits bitmap 0 left i count start = none := by
  induction left generalizing i count start with
  | zero => rfl
  | succ left ih =>
      have hnext : (count + 1).toNat = count.toNat + 1 := by
        rw [UInt32.toNat_add, UInt32.toNat_one]
        omega
      have hne : count + 1 ≠ 0 := by
        intro hzero
        rw [hzero] at hnext
        cases hnext
      rw [scanBits]
      simp only [if_neg hne]
      split
      · exact ih (by omega)
      · exact ih (by simp; omega)

/-- `find_contiguous_bits` is a first fit, but does not find a place for no bits at all. -/
theorem findContiguousBits_eq (numBits : UInt32) :
    findContiguousBits s.virtBitmap virtBitmapSize numBits =
      if numBits = 0 then none else FirstFit.firstFit s.unused numBits.toNat 0 virtPages := by
  split
  next hzero =>
    rw [hzero, findContiguousBits]
    exact scanBits_zero (by decide)
  next hne =>
    have hpos : 0 < numBits.toNat := by
      apply Nat.pos_of_ne_zero
      exact fun hnat => hne (UInt32.toNat_inj.mp hnat)
    exact scanBits_eq hpos (by simp)

/-- `find_contiguous_bits` returns where the lowest run of clear bits starts, if there is one. -/
theorem findContiguousBits_some_iff (s : VmmState) (numBits : UInt32) (page : Nat) :
    findContiguousBits s.virtBitmap virtBitmapSize numBits = some page ↔
      numBits ≠ 0 ∧ FirstFit.Lowest s.unused 0 virtPages numBits.toNat page := by
  rw [findContiguousBits_eq]
  split
  next hzero => simp [hzero]
  next hne =>
    have hpos : 0 < numBits.toNat :=
      Nat.pos_of_ne_zero fun hnat => hne (UInt32.toNat_inj.mp hnat)
    constructor
    · exact fun hfind => ⟨hne, FirstFit.firstFit_some hpos hfind⟩
    · rintro ⟨-, hlowest⟩
      cases hfind : FirstFit.firstFit s.unused numBits.toNat 0 virtPages with
      | none => exact absurd hlowest.run (FirstFit.firstFit_none hpos hfind hlowest.ge hlowest.fits)
      | some other => rw [(FirstFit.firstFit_some hpos hfind).unique hlowest]

end VmmState

end AvrKernel.Memory

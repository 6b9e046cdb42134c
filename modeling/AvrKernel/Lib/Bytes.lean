import Mathlib.Logic.Function.Basic
import Mathlib.Data.List.Basic
import Mathlib.Data.List.GetD
import Mathlib.Data.UInt

/-!
# Byte-addressed memory and record layouts

`Mem` is memory with 32-bit addresses, read and written one byte after the
other, so a transfer wraps around as the addresses do. `Layout` describes a
packed record: its encoding has a fixed length and decoding undoes it, and
layouts compose field by field.
-/

namespace Bytes

/-- Memory with 32-bit addresses. -/
abbrev Mem := UInt32 → UInt8

/-! ## Replacing a segment of a list -/

/-- `l` with the elements from `off` on replaced by `seg`. -/
def patch {α : Type} (l : List α) (off : Nat) (seg : List α) : List α :=
  l.take off ++ seg ++ l.drop (off + seg.length)

section Patch

variable {α : Type} {l seg : List α} {off : Nat}

theorem patch_length (h : off + seg.length ≤ l.length) :
    (patch l off seg).length = l.length := by
  simp only [patch, List.length_append, List.length_take, List.length_drop]
  omega

theorem patch_nil : patch l off [] = l := by
  simp [patch]

theorem patch_whole (h : l.length = seg.length) : patch l 0 seg = seg := by
  rw [patch, List.take_zero, List.nil_append, List.drop_of_length_le (by omega), List.append_nil]

theorem patch_append_middle (pre mid post seg : List α) (hlen : seg.length = mid.length) :
    patch (pre ++ mid ++ post) pre.length seg = pre ++ seg ++ post := by
  simp [patch, hlen]

theorem patch_append_left {post : List α} (h : off + seg.length ≤ l.length) :
    patch (l ++ post) off seg = patch l off seg ++ post := by
  simp only [patch, List.append_assoc]
  rw [List.take_append_of_le_length (by omega), List.drop_append_of_le_length h]

theorem patch_append_right {pre : List α} (h : pre.length ≤ off) :
    patch (pre ++ l) off seg = pre ++ patch l (off - pre.length) seg := by
  simp only [patch, List.take_append, List.drop_append, List.append_assoc]
  rw [List.take_of_length_le h, List.drop_of_length_le (by omega),
    show off + seg.length - pre.length = off - pre.length + seg.length by omega]
  rfl

/-- A segment that runs over the end of `l` into what follows. -/
theorem patch_append_across {post : List α} {count : Nat} (h : off + count = l.length)
    (hcount : count ≤ seg.length) :
    patch (l ++ post) off seg = patch l off (seg.take count) ++ patch post 0 (seg.drop count) := by
  have htake : (seg.take count).length = count := List.length_take_of_le hcount
  simp only [patch, List.take_zero, List.nil_append, htake, List.length_drop, Nat.zero_add]
  rw [List.take_append_of_le_length (by omega), List.drop_append, List.drop_of_length_le (by omega),
    List.drop_of_length_le (l := l) (by omega), List.append_nil, List.nil_append,
    show off + seg.length - l.length = seg.length - count by omega, List.append_assoc,
    List.append_assoc, ← List.append_assoc (seg.take count), List.take_append_drop]

theorem getElem?_patch (h : off + seg.length ≤ l.length) (i : Nat) :
    (patch l off seg)[i]? =
      if off ≤ i ∧ i < off + seg.length then seg[i - off]? else l[i]? := by
  have htake : (l.take off).length = off := by
    rw [List.length_take]
    omega
  simp only [patch]
  split
  next hin =>
    rw [List.getElem?_append_left (by rw [List.length_append, htake]; omega),
      List.getElem?_append_right (by omega), htake]
  next hout =>
    by_cases hlt : i < off
    · rw [List.append_assoc, List.getElem?_append_left (by omega), List.getElem?_take_of_lt hlt]
    · rw [List.getElem?_append_right (by rw [List.length_append, htake]; omega),
        List.length_append, htake, List.getElem?_drop]
      congr 1
      omega

/-- Two adjacent segments. -/
theorem patch_patch {seg' : List α} (h : off + (seg ++ seg').length ≤ l.length) :
    patch (patch l off seg) (off + seg.length) seg' = patch l off (seg ++ seg') := by
  rw [List.length_append] at h
  have hfst : (patch l off seg).length = l.length := patch_length (by omega)
  apply List.ext_getElem?
  intro i
  rw [getElem?_patch (by omega), getElem?_patch (by omega),
    getElem?_patch (by rw [List.length_append]; omega), List.length_append]
  by_cases hsnd : off + seg.length ≤ i ∧ i < off + seg.length + seg'.length
  · rw [if_pos hsnd, if_pos (by omega), List.getElem?_append_right (by omega)]
    congr 1
    omega
  · rw [if_neg hsnd]
    by_cases hin : off ≤ i ∧ i < off + seg.length
    · rw [if_pos hin, if_pos (by omega), List.getElem?_append_left (by omega)]
    · rw [if_neg hin, if_neg (by omega)]

end Patch

/-! ## Reading and writing memory -/

namespace Mem

def read (m : Mem) (a : UInt32) : Nat → List UInt8
  | 0 => []
  | n + 1 => m a :: read m (a + 1) n

def write (m : Mem) (a : UInt32) : List UInt8 → Mem
  | [] => m
  | b :: bs => write (Function.update m a b) (a + 1) bs

variable (m : Mem) (a : UInt32)

@[simp] theorem read_length (n : Nat) : (m.read a n).length = n := by
  induction n generalizing a with
  | zero => rfl
  | succ n ih => simp [read, ih]

theorem toNat_sub_of_le {x y : UInt32} (h : y.toNat ≤ x.toNat) :
    (x - y).toNat = x.toNat - y.toNat :=
  UInt32.toNat_sub_of_le x y (UInt32.le_iff_toNat_le.mpr h)

theorem toNat_add_of_lt {x y : UInt32} (h : x.toNat + y.toNat < 2 ^ 32) :
    (x + y).toNat = x.toNat + y.toNat := by
  rw [UInt32.toNat_add, Nat.mod_eq_of_lt h]

theorem toNat_add_ofNat {x : UInt32} {k : Nat} (h : x.toNat + k < 2 ^ 32) :
    (x + UInt32.ofNat k).toNat = x.toNat + k := by
  have hk : (UInt32.ofNat k).toNat = k := by
    rw [UInt32.toNat_ofNat', Nat.mod_eq_of_lt (by omega)]
  rw [toNat_add_of_lt (by omega), hk]

theorem getElem?_read (n i : Nat) (h : i < n) :
    (m.read a n)[i]? = some (m (a + UInt32.ofNat i)) := by
  induction n generalizing a i with
  | zero => omega
  | succ n ih =>
      cases i with
      | zero => simp [read]
      | succ i =>
          simp only [read, List.getElem?_cons_succ]
          rw [ih (a + 1) i (by omega)]
          congr 2
          rw [UInt32.ofNat_add, UInt32.add_assoc, UInt32.add_comm 1]
          rfl

theorem read_congr {m m' : Mem} {n : Nat}
    (h : ∀ i < n, m (a + UInt32.ofNat i) = m' (a + UInt32.ofNat i)) :
    m.read a n = m'.read a n := by
  refine List.ext_getElem? fun i => ?_
  by_cases hi : i < n
  · rw [getElem?_read _ _ _ _ hi, getElem?_read _ _ _ _ hi, h i hi]
  · rw [List.getElem?_eq_none (by simpa using hi), List.getElem?_eq_none (by simpa using hi)]

theorem toNat_sub_succ {x : UInt32} (h : x ≠ a) :
    (x - (a + 1)).toNat = (x - a).toNat - 1 := by
  have hne : x.toNat ≠ a.toNat := fun heq => h (UInt32.toNat_inj.mp heq)
  have hx := x.toNat_lt
  have ha := a.toNat_lt
  simp only [UInt32.toNat_sub, UInt32.toNat_add, UInt32.reduceToNat] at *
  omega

theorem toNat_sub_pos {x : UInt32} (h : x ≠ a) : 0 < (x - a).toNat := by
  have hne : x.toNat ≠ a.toNat := fun heq => h (UInt32.toNat_inj.mp heq)
  have hx := x.toNat_lt
  have ha := a.toNat_lt
  simp only [UInt32.toNat_sub] at *
  omega

/-- What a byte becomes depends on what it was. -/
theorem write_apply_congr {m m' : Mem} {x : UInt32} (bs : List UInt8) (h : m x = m' x) :
    m.write a bs x = m'.write a bs x := by
  induction bs generalizing m m' a with
  | nil => exact h
  | cons b bs ih =>
      refine ih (a + 1) ?_
      simp only [Function.update_apply, h]

/-- A byte outside the written segment keeps its value. -/
theorem write_apply_of_ge {bs : List UInt8} {x : UInt32} (hlen : bs.length ≤ 2 ^ 32)
    (h : bs.length ≤ (x - a).toNat) : m.write a bs x = m x := by
  induction bs generalizing m a with
  | nil => rfl
  | cons b bs ih =>
      simp only [List.length_cons] at h hlen
      have hne : x ≠ a := by
        rintro rfl
        simp at h
      rw [write, ih _ _ (by omega) (by rw [toNat_sub_succ a hne]; omega),
        Function.update_of_ne hne]

/-- A byte of the written segment has the value written. -/
theorem write_apply_of_lt {bs : List UInt8} {x : UInt32} (hlen : bs.length ≤ 2 ^ 32)
    (h : (x - a).toNat < bs.length) : some (m.write a bs x) = bs[(x - a).toNat]? := by
  induction bs generalizing m a with
  | nil => simp at h
  | cons b bs ih =>
      simp only [List.length_cons] at h hlen
      by_cases hx : x = a
      · subst hx
        have hwrap : (x - (x + 1)).toNat = 2 ^ 32 - 1 := by
          have hx := x.toNat_lt
          simp only [UInt32.toNat_sub, UInt32.toNat_add, UInt32.reduceToNat]
          omega
        rw [write, write_apply_of_ge _ _ (by omega) (by omega)]
        simp
      · have hpos := toNat_sub_pos a hx
        rw [write, ih _ _ (by omega) (by rw [toNat_sub_succ a hx]; omega), toNat_sub_succ a hx]
        conv_rhs => rw [show (x - a).toNat = (x - a).toNat - 1 + 1 by omega]
        rw [List.getElem?_cons_succ]

/-- Memory after a write, looked up in the bytes that were written. -/
def overlay (bs : List UInt8) : Mem := fun x =>
  if (x - a).toNat < bs.length then bs.getD (x - a).toNat 0 else m x

theorem write_eq_overlay {bs : List UInt8} (hlen : bs.length ≤ 2 ^ 32) :
    m.write a bs = m.overlay a bs := by
  funext x
  rw [overlay]
  split
  next hlt => rw [List.getD_eq_getElem?_getD, ← write_apply_of_lt _ _ hlen hlt, Option.getD_some]
  next hge => exact write_apply_of_ge _ _ hlen (Nat.le_of_not_lt hge)

/-- Reading a segment back out of the enclosing segment it was written into. -/
theorem read_write_within {bs : List UInt8} {off n : Nat} (hlen : off + bs.length ≤ n)
    (hn : n ≤ 2 ^ 32) :
    (m.write (a + UInt32.ofNat off) bs).read a n = patch (m.read a n) off bs := by
  refine List.ext_getElem? fun i => ?_
  rw [getElem?_patch (by simpa using hlen)]
  by_cases hi : i < n
  · rw [getElem?_read _ _ _ _ hi, getElem?_read _ _ _ _ hi]
    have hoff : (a + UInt32.ofNat i - (a + UInt32.ofNat off)).toNat =
        if off ≤ i then i - off else 2 ^ 32 + i - off := by
      have ha := a.toNat_lt
      simp only [UInt32.toNat_sub, UInt32.toNat_add, UInt32.toNat_ofNat']
      split <;> omega
    split
    next hin =>
      rw [write_apply_of_lt _ _ (by omega) (by rw [hoff, if_pos hin.1]; omega), hoff,
        if_pos hin.1]
    next hout =>
      rw [write_apply_of_ge _ _ (by omega)]
      rw [hoff]
      split <;> omega
  · rw [if_neg (by omega), List.getElem?_eq_none (by simpa using hi),
      List.getElem?_eq_none (by simpa using hi)]

/-- Reading back what was written. -/
theorem read_write_self {bs : List UInt8} (hlen : bs.length ≤ 2 ^ 32) :
    (m.write a bs).read a bs.length = bs := by
  have h := read_write_within m a (show 0 + bs.length ≤ bs.length by omega) hlen
  have hdrop : (m.read a bs.length).drop bs.length = [] :=
    List.drop_of_length_le (by simp)
  simpa [patch, hdrop] using h

/-- A segment that the written one does not meet reads as before. -/
theorem read_write_disjoint {b : UInt32} {bs : List UInt8} {n : Nat} (hlen : bs.length ≤ 2 ^ 32)
    (h : ∀ i < n, bs.length ≤ (b + UInt32.ofNat i - a).toNat) :
    (m.write a bs).read b n = m.read b n :=
  read_congr _ fun i hi => write_apply_of_ge _ _ hlen (h i hi)

/-- Two segments that do not wrap are disjoint when one ends before the other. -/
theorem toNat_sub_ge_of_disjoint {b : UInt32} {k n i : Nat} (hi : i < n)
    (ha : a.toNat + k ≤ 2 ^ 32) (hb : b.toNat + n ≤ 2 ^ 32)
    (h : a.toNat + k ≤ b.toNat ∨ b.toNat + n ≤ a.toNat) :
    k ≤ (b + UInt32.ofNat i - a).toNat := by
  have hlt := a.toNat_lt
  simp only [UInt32.toNat_sub, UInt32.toNat_add, UInt32.toNat_ofNat']
  omega

theorem read_sub {off k n : Nat} (h : off + k ≤ n) :
    m.read (a + UInt32.ofNat off) k = ((m.read a n).drop off).take k := by
  refine List.ext_getElem? fun i => ?_
  by_cases hi : i < k
  · rw [getElem?_read _ _ _ _ hi, List.getElem?_take_of_lt hi, List.getElem?_drop,
      getElem?_read _ _ _ _ (by omega), UInt32.ofNat_add, UInt32.add_assoc]
  · rw [List.getElem?_eq_none (by simpa using hi),
      List.getElem?_eq_none (by simp only [List.length_take]; omega)]

end Mem

/-! ## Packed records -/

/-- A fixed-length encoding that decoding undoes, whatever follows it. -/
structure Layout (α : Type) where
  size : Nat
  encode : α → List UInt8
  decode : List UInt8 → α
  encode_length : ∀ value, (encode value).length = size
  decode_encode : ∀ value rest, decode (encode value ++ rest) = value

namespace Layout

variable {α β : Type}

/-- A record of two fields in order. -/
def pair (first : Layout α) (second : Layout β) : Layout (α × β) where
  size := first.size + second.size
  encode value := first.encode value.1 ++ second.encode value.2
  decode bs := (first.decode bs, second.decode (bs.drop first.size))
  encode_length value := by
    simp [first.encode_length, second.encode_length]
  decode_encode value rest := by
    rw [List.append_assoc, first.decode_encode, ← first.encode_length value.1, List.drop_left,
      second.decode_encode]

/-- The same bytes under another name for their fields. -/
def iso (layout : Layout α) (build : α → β) (fields : β → α)
    (h : ∀ value, build (fields value) = value) : Layout β where
  size := layout.size
  encode value := layout.encode (fields value)
  decode bs := build (layout.decode bs)
  encode_length value := layout.encode_length _
  decode_encode value rest := by rw [layout.decode_encode, h]

theorem decode_encode_self (layout : Layout α) (value : α) :
    layout.decode (layout.encode value) = value := by
  simpa using layout.decode_encode value []

/-- A single byte. -/
def u8 : Layout UInt8 where
  size := 1
  encode value := [value]
  decode bs := bs.headD 0
  encode_length _ := rfl
  decode_encode _ _ := rfl

/-- A 16-bit word, least significant byte first. -/
def u16 : Layout UInt16 where
  size := 2
  encode value := [UInt8.ofNat value.toNat, UInt8.ofNat (value.toNat / 2 ^ 8)]
  decode bs := UInt16.ofNat ((bs.getD 0 0).toNat + 2 ^ 8 * (bs.getD 1 0).toNat)
  encode_length _ := rfl
  decode_encode value rest := by
    apply UInt16.toNat_inj.mp
    have hlt := value.toNat_lt
    simp only [List.cons_append, List.nil_append, List.getD_cons_zero, List.getD_cons_succ,
      UInt8.toNat_ofNat', UInt16.toNat_ofNat']
    omega

/-- The two bytes that a word is loaded from. -/
theorem u16_encode_decode {bs : List UInt8} (h : 2 ≤ bs.length) :
    u16.encode (u16.decode bs) = bs.take 2 := by
  match bs, h with
  | first :: second :: bs, _ =>
      have hfirst := first.toNat_lt
      have hsecond := second.toNat_lt
      simp only [u16, List.getD_cons_zero, List.getD_cons_succ, UInt16.toNat_ofNat',
        List.take_succ_cons, List.take_zero, List.cons.injEq, and_true]
      constructor
      · apply UInt8.toNat_inj.mp
        rw [UInt8.toNat_ofNat']
        omega
      · apply UInt8.toNat_inj.mp
        rw [UInt8.toNat_ofNat']
        omega

/-- A 32-bit word, least significant byte first. -/
def u32 : Layout UInt32 where
  size := 4
  encode value := [UInt8.ofNat value.toNat, UInt8.ofNat (value.toNat / 2 ^ 8),
    UInt8.ofNat (value.toNat / 2 ^ 16), UInt8.ofNat (value.toNat / 2 ^ 24)]
  decode bs := UInt32.ofNat ((bs.getD 0 0).toNat + 2 ^ 8 * (bs.getD 1 0).toNat +
    2 ^ 16 * (bs.getD 2 0).toNat + 2 ^ 24 * (bs.getD 3 0).toNat)
  encode_length _ := rfl
  decode_encode value rest := by
    apply UInt32.toNat_inj.mp
    have hlt := value.toNat_lt
    simp only [List.cons_append, List.nil_append, List.getD_cons_zero, List.getD_cons_succ,
      UInt8.toNat_ofNat', UInt32.toNat_ofNat']
    omega

/-- Words one after the other. -/
def words (values : List UInt32) : List UInt8 := values.flatMap u32.encode

@[simp] theorem words_nil : words [] = [] := rfl

@[simp] theorem words_cons (value : UInt32) (values : List UInt32) :
    words (value :: values) = u32.encode value ++ words values := rfl

@[simp] theorem words_append (values others : List UInt32) :
    words (values ++ others) = words values ++ words others := List.flatMap_append

@[simp] theorem words_length (values : List UInt32) :
    (words values).length = 4 * values.length := by
  induction values with
  | nil => rfl
  | cons value values ih =>
      rw [words_cons, List.length_append, u32.encode_length, ih, List.length_cons, Nat.mul_add,
        Nat.add_comm]
      rfl

theorem words_injective : Function.Injective words := by
  intro values others h
  induction values generalizing others with
  | nil =>
      cases others with
      | nil => rfl
      | cons other others =>
          have hlength := congrArg List.length h
          simp only [words_length, List.length_cons, List.length_nil] at hlength
          omega
  | cons value values ih =>
      cases others with
      | nil =>
          have hlength := congrArg List.length h
          simp only [words_length, List.length_cons, List.length_nil] at hlength
          omega
      | cons other others =>
          rw [words_cons, words_cons] at h
          obtain ⟨hvalue, hvalues⟩ := List.append_inj h (by simp only [u32.encode_length])
          rw [← u32.decode_encode_self value, hvalue, u32.decode_encode_self, ih hvalues]

/-- A fixed-size array of bytes. -/
def bytes (n : Nat) : Layout (Vector UInt8 n) where
  size := n
  encode value := value.toList
  decode bs := Vector.ofFn fun i => bs.getD i 0
  encode_length value := by simp
  decode_encode value rest := by
    ext i hi
    simp [List.getD_eq_getElem?_getD, List.getElem?_append_left]

theorem flatMap_encode_length (layout : Layout α) (values : List α) :
    (values.flatMap layout.encode).length = values.length * layout.size := by
  induction values with
  | nil => simp
  | cons value values ih =>
      rw [List.flatMap_cons, List.length_append, layout.encode_length, ih, List.length_cons,
        Nat.succ_mul, Nat.add_comm]

theorem drop_flatMap_encode (layout : Layout α) (values : List α) (i : Nat) :
    (values.flatMap layout.encode).drop (i * layout.size) =
      (values.drop i).flatMap layout.encode := by
  induction values generalizing i with
  | nil => simp
  | cons value values ih =>
      cases i with
      | zero => simp
      | succ i =>
          rw [List.flatMap_cons, Nat.succ_mul, Nat.add_comm, ← List.drop_drop,
            ← layout.encode_length value, List.drop_left, layout.encode_length, ih,
            List.drop_succ_cons]

/-- A fixed-size array of records. -/
def array (layout : Layout α) (n : Nat) : Layout (Vector α n) where
  size := n * layout.size
  encode value := value.toList.flatMap layout.encode
  decode bs := Vector.ofFn fun i => layout.decode (bs.drop (i * layout.size))
  encode_length value := by rw [flatMap_encode_length, Vector.length_toList]
  decode_encode value rest := by
    ext i hi
    have hlength : i < value.toList.length := by rwa [Vector.length_toList]
    have hle : i * layout.size ≤ (value.toList.flatMap layout.encode).length := by
      rw [flatMap_encode_length]
      exact Nat.mul_le_mul_right _ hlength.le
    rw [Vector.getElem_ofFn, List.drop_append_of_le_length hle, drop_flatMap_encode,
      List.drop_eq_getElem_cons hlength, List.flatMap_cons, List.append_assoc,
      layout.decode_encode]
    simp

end Layout
end Bytes

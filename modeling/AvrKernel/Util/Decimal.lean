import AvrKernel.Lib.Blocks
import AvrKernel.Util.Strings
import Mathlib.Data.Nat.Digits.Lemmas
import Mathlib.Data.UInt

/-!
# Decimal numbers in strings

`utos`, `itos`, `stoi`, `stou`, `itos_commas` and `stoi_commas` of `util/string.c`. A string
is what lies in memory from its first character on. A read past the end of what may be read
or a write past the end of a buffer is a fault, and nothing comes of it.
-/

namespace AvrKernel.Util

/-! ## Writing -/

/-- `(char)((value % 10) + '0')`. -/
def digit (value : UInt32) : UInt8 := (value % 10).toUInt8 + 48

/-- `do { buffer[i++] = ...; value /= 10; } while (value > 0)`: the digits, the last one first,
in a buffer that has so much room left. -/
def utosDigits : Nat → UInt32 → List UInt8 → Option (List UInt8)
  | 0, _, _ => none
  | room + 1, value, buffer =>
      let buffer := buffer ++ [digit value]
      if value / 10 > 0 then utosDigits room (value / 10) buffer else some buffer

/-- Write characters from a position on, with the position behind them. -/
def writeChars : List UInt8 → Nat → List UInt8 → Option (Nat × List UInt8)
  | [], d, dest => some (d, dest)
  | c :: chars, d, dest => (Blocks.store d c dest).bind (writeChars chars (d + 1))

/-- `utos`, to a position of a buffer. -/
def utos (value : UInt32) (ptr : Nat) (dest : List UInt8) : Option (List UInt8) := do
  let buffer ← utosDigits 10 value []
  let (d, dest) ← writeChars buffer.reverse ptr dest
  Blocks.store d 0 dest

def itos (value : Int32) (dest : List UInt8) : Option (List UInt8) :=
  if value < 0 then do
    let dest ← Blocks.store 0 '-'.toUInt8 dest
    utos (0 - value.toUInt32) 1 dest
  else utos value.toUInt32 0 dest

/-- `dest[dest_i--] = c`, for the position above `dest_i`. -/
def storeBelow (c : UInt8) : Nat → List UInt8 → Option (Nat × List UInt8)
  | 0, _ => none
  | i + 1, dest => (Blocks.store i c dest).map fun dest => (i, dest)

/-- The comma in front of every third digit. -/
def storeComma (digitCount dest_i : Nat) (dest : List UInt8) : Option (Nat × List UInt8) :=
  if digitCount > 0 ∧ digitCount % 3 = 0 then storeBelow ','.toUInt8 dest_i dest
  else some (dest_i, dest)

/-- `while (src_i >= 0)`, where the positions are one above `src_i` and `dest_i`. -/
def commaLoop (raw : List UInt8) : Nat → Nat → Nat → List UInt8 → Option (List UInt8)
  | 0, _, _, dest => some dest
  | src_i + 1, dest_i, digitCount, dest => do
      let (dest_i, dest) ← storeComma digitCount dest_i dest
      let c ← raw[src_i]?
      let (dest_i, dest) ← storeBelow c dest_i dest
      commaLoop raw src_i dest_i (digitCount + 1) dest

def itosCommas (val : UInt32) (dest : List UInt8) : Option (List UInt8) := do
  let raw ← utos val 0 (List.replicate 11 0)
  let len ← strlen raw
  let newLen := len + (len - 1) / 3
  let dest ← Blocks.store newLen 0 dest
  commaLoop raw len newLen 0 dest

/-! ## Reading -/

/-- `*str == ' ' || (*str >= '\t' && *str <= '\r')`. -/
def isSpace (c : UInt8) : Bool := c = 32 ∨ 9 ≤ c ∧ c ≤ 13

/-- `*str >= '0' && *str <= '9'`. -/
def isDigit (c : UInt8) : Bool := 48 ≤ c ∧ c ≤ 57

def skipSpaces : List UInt8 → Option (List UInt8)
  | [] => none
  | c :: str => if isSpace c then skipSpaces str else some (c :: str)

/-- `result * 10u + (uint32_t)(*str - '0')`. -/
def accumulate (result : UInt32) (c : UInt8) : UInt32 := result * 10 + (c.toUInt32 - 48)

def readDigits : UInt32 → List UInt8 → Option UInt32
  | _, [] => none
  | result, c :: str => if isDigit c then readDigits (accumulate result c) str else some result

/-- `if (*str == '-') { negative = 1; str++; } else if (*str == '+') str++;` -/
def readSign : List UInt8 → Option (Bool × List UInt8)
  | [] => none
  | c :: str =>
      if c = '-'.toUInt8 then some (true, str)
      else if c = '+'.toUInt8 then some (false, str)
      else some (false, c :: str)

def stoi (str : List UInt8) : Option Int32 := do
  let str ← skipSpaces str
  let (negative, str) ← readSign str
  let result ← readDigits 0 str
  some (if negative then (0 - result).toInt32 else result.toInt32)

/-- `if (*str == '+') str++;` -/
def skipPlus : List UInt8 → Option (List UInt8)
  | [] => none
  | c :: str => if c = '+'.toUInt8 then some str else some (c :: str)

def stou (str : List UInt8) : Option UInt32 := do
  let str ← skipSpaces str
  let str ← skipPlus str
  readDigits 0 str

def readCommas : UInt32 → List UInt8 → Option UInt32
  | _, [] => none
  | val, c :: str =>
      if c = 0 then some val
      else readCommas (if isDigit c then accumulate val c else val) str

/-- `stoi_commas`, of a pointer that may be `NULL`. -/
def stoiCommas : Option (List UInt8) → Option UInt32
  | none => some 0
  | some str => readCommas 0 str

/-! ## The digits of a number -/

/-- The digits of a number, the last one first. -/
def digits (n : Nat) : List Nat := if n = 0 then [0] else Nat.digits 10 n

/-- The character of a digit. -/
def decimalChar (d : Nat) : UInt8 := .ofNat (48 + d)

/-- The number in decimal. -/
def decimal (n : Nat) : List UInt8 := (digits n).reverse.map decimalChar

theorem digits_of_lt {n : Nat} (h : n < 10) : digits n = [n] := by
  rw [digits]
  split
  next hzero => rw [hzero]
  next hne => exact Nat.digits_of_lt 10 n hne h

theorem digits_of_le {n : Nat} (h : 10 ≤ n) : digits n = n % 10 :: digits (n / 10) := by
  rw [digits, digits, if_neg (by omega), if_neg (by omega)]
  exact Nat.digits_def' (by decide) (by omega)

theorem ofDigits_digits (n : Nat) : Nat.ofDigits 10 (digits n) = n := by
  rw [digits]
  split
  next hzero => rw [hzero, Nat.ofDigits_singleton]
  next => exact Nat.ofDigits_digits 10 n

theorem digits_lt {n d : Nat} (h : d ∈ digits n) : d < 10 := by
  rw [digits] at h
  split at h
  next => simp_all
  next => exact Nat.digits_lt_base (by decide) h

theorem digits_ne_nil (n : Nat) : digits n ≠ [] := by
  rw [digits]
  split
  next => exact List.cons_ne_nil _ _
  next hne => exact Nat.digits_ne_nil_iff_ne_zero.mpr hne

theorem length_digits_le {n k : Nat} (h : n < 10 ^ (k + 1)) : (digits n).length ≤ k + 1 := by
  rw [digits]
  split
  next => exact Nat.le_add_left 1 k
  next => exact Nat.digits_length_le_iff (by decide) n |>.mpr h

theorem digits_lt_ten {n : Nat} : ∀ d ∈ (digits n).reverse, d < 10 :=
  fun _ hd => digits_lt (List.mem_reverse.mp hd)

theorem isDigit_decimalChar : ∀ d < 10, isDigit (decimalChar d) = true := by decide

theorem decimalChar_ne_zero : ∀ d < 10, decimalChar d ≠ 0 := by decide

theorem decimalChar_ne_comma : ∀ d < 10, decimalChar d ≠ ','.toUInt8 := by decide

theorem length_decimal (n : Nat) : (decimal n).length = (digits n).length := by
  rw [decimal, List.length_map, List.length_reverse]

theorem length_decimal_le (value : UInt32) : (decimal value.toNat).length ≤ 10 := by
  rw [length_decimal]
  exact length_digits_le (value.toNat_lt.trans (by decide))

theorem mem_decimal {n : Nat} {c : UInt8} (h : c ∈ decimal n) :
    ∃ d < 10, c = decimalChar d := by
  obtain ⟨d, hd, rfl⟩ := List.mem_map.mp h
  exact ⟨d, digits_lt_ten d hd, rfl⟩

theorem decimal_ne_zero {n : Nat} : ∀ c ∈ decimal n, c ≠ 0 := by
  intro c hc
  obtain ⟨d, hd, rfl⟩ := mem_decimal hc
  exact decimalChar_ne_zero d hd

theorem decimal_eq_cons (n : Nat) : ∃ d cs, d < 10 ∧ decimal n = decimalChar d :: cs := by
  obtain ⟨d, ds, hds⟩ := List.exists_cons_of_ne_nil
    (List.reverse_ne_nil_iff.mpr (digits_ne_nil n))
  refine ⟨d, ds.map decimalChar, ?_, by rw [decimal, hds, List.map_cons]⟩
  apply digits_lt_ten (n := n)
  rw [hds]
  exact List.mem_cons_self

/-! ## What is written -/

theorem digit_eq (value : UInt32) : digit value = decimalChar (value.toNat % 10) := by
  apply UInt8.toNat_inj.mp
  simp only [digit, decimalChar, UInt8.toNat_add, UInt32.toNat_toUInt8, UInt32.toNat_mod,
    UInt8.toNat_ofNat']
  simp
  omega

theorem utosDigits_eq {room : Nat} {value : UInt32} (h : (digits value.toNat).length ≤ room)
    (buffer : List UInt8) :
    utosDigits room value buffer = some (buffer ++ (digits value.toNat).map decimalChar) := by
  induction room generalizing value buffer with
  | zero =>
      have hpos := List.length_pos_iff.mpr (digits_ne_nil value.toNat)
      omega
  | succ room ih =>
      have hdiv : (value / 10).toNat = value.toNat / 10 := UInt32.toNat_div value 10
      rw [utosDigits, digit_eq]
      by_cases hmore : 10 ≤ value.toNat
      · have hgoes : value / 10 > 0 := by
          rw [gt_iff_lt, UInt32.lt_iff_toNat_lt, hdiv, UInt32.toNat_zero]
          omega
        rw [digits_of_le hmore, List.length_cons, ← hdiv] at h
        rw [if_pos hgoes, ih (by omega), digits_of_le hmore, hdiv, List.map_cons,
          List.append_assoc]
        rfl
      · have hends : ¬value / 10 > 0 := by
          rw [gt_iff_lt, UInt32.lt_iff_toNat_lt, hdiv, UInt32.toNat_zero]
          omega
        rw [if_neg hends, digits_of_lt (by omega), Nat.mod_eq_of_lt (by omega)]
        rfl

theorem store_append (pre : List UInt8) (c old : UInt8) (post : List UInt8) :
    Blocks.store pre.length c (pre ++ old :: post) = some (pre ++ c :: post) := by
  rw [Blocks.store, if_pos (by simp)]
  simp

theorem store_of_lt {dest : List UInt8} {k : Nat} (h : k < dest.length) (c : UInt8) :
    Blocks.store k c dest = some (dest.take k ++ c :: dest.drop (k + 1)) := by
  rw [Blocks.store, if_pos h, List.set_eq_take_append_cons_drop, if_pos h]

theorem writeChars_eq {chars : List UInt8} (pre : List UInt8) (rest : List UInt8)
    (h : chars.length ≤ rest.length) : writeChars chars pre.length (pre ++ rest) =
      some ((pre ++ chars).length, pre ++ chars ++ rest.drop chars.length) := by
  induction chars generalizing pre rest with
  | nil => simp [writeChars]
  | cons c chars ih =>
      cases rest with
      | nil => simp at h
      | cons old rest =>
          have hnext := ih (pre ++ [c]) rest (by simpa using h)
          rw [writeChars, store_append, Option.bind_some]
          simpa using hnext

/-- `utos` writes the number and its terminator, where they have room. -/
theorem utos_eq {value : UInt32} (pre rest : List UInt8)
    (h : (decimal value.toNat).length < rest.length) : utos value pre.length (pre ++ rest) =
      some (pre ++ decimal value.toNat ++ 0 :: rest.drop ((decimal value.toNat).length + 1)) := by
  have hroom : (digits value.toNat).length ≤ 10 := by
    rw [← length_decimal]
    exact length_decimal_le value
  have hback : ((digits value.toNat).map decimalChar).reverse = decimal value.toNat := by
    rw [decimal, List.map_reverse]
  obtain ⟨old, hold⟩ : ∃ old, rest.drop (decimal value.toNat).length =
      old :: rest.drop ((decimal value.toNat).length + 1) :=
    ⟨_, List.drop_eq_getElem_cons h⟩
  simp only [utos, utosDigits_eq hroom, List.nil_append, hback, Option.bind_eq_bind,
    Option.bind_some, writeChars_eq pre _ h.le]
  rw [hold, store_append]

/-! ## What is read -/

theorem accumulate_decimalChar (n : Nat) {d : Nat} (hd : d < 10) :
    accumulate (.ofNat n) (decimalChar d) = .ofNat (n * 10 + d) := by
  have hdigit : (decimalChar d).toUInt32 - 48 = .ofNat d := by
    have hall : ∀ d < 10, (decimalChar d).toUInt32 - 48 = .ofNat d := by decide
    exact hall d hd
  rw [accumulate, hdigit, UInt32.ofNat_add, UInt32.ofNat_mul]
  rfl

/-- The number that a sequence of digits stands for, behind those already read. -/
theorem foldl_accumulate {ds : List Nat} (hds : ∀ d ∈ ds, d < 10) (n : Nat) :
    (ds.map decimalChar).foldl accumulate (.ofNat n) =
      .ofNat (ds.foldl (fun n d => n * 10 + d) n) := by
  induction ds generalizing n with
  | nil => rfl
  | cons d ds ih =>
      rw [List.map_cons, List.foldl_cons, accumulate_decimalChar n (hds d List.mem_cons_self),
        ih fun e he => hds e (List.mem_cons_of_mem _ he)]
      rfl

theorem readDigits_eq {cs : List UInt8} (hcs : ∀ c ∈ cs, isDigit c = true) {c : UInt8}
    (hc : isDigit c = false) (result : UInt32) (rest : List UInt8) :
    readDigits result (cs ++ c :: rest) = some (cs.foldl accumulate result) := by
  induction cs generalizing result with
  | nil => simp [readDigits, hc]
  | cons d cs ih =>
      rw [List.cons_append, readDigits, if_pos (hcs d List.mem_cons_self),
        ih fun e he => hcs e (List.mem_cons_of_mem _ he)]
      rfl

theorem foldl_digits (n : Nat) : (digits n).reverse.foldl (fun n d => n * 10 + d) 0 = n := by
  rw [List.foldl_reverse]
  calc
    (digits n).foldr (fun d n => n * 10 + d) 0 = Nat.ofDigits 10 (digits n) := by
      rw [Nat.ofDigits_eq_foldr]
      congr 1
      funext d n
      simp [Nat.mul_comm, Nat.add_comm]
    _ = n := ofDigits_digits n

theorem foldl_decimal (n : Nat) : (decimal n).foldl accumulate 0 = .ofNat n := by
  have hfold := foldl_accumulate (digits_lt_ten (n := n)) 0
  rwa [foldl_digits] at hfold

theorem isDigit_decimal {n : Nat} : ∀ c ∈ decimal n, isDigit c = true := by
  intro c hc
  obtain ⟨d, hd, rfl⟩ := mem_decimal hc
  exact isDigit_decimalChar d hd

theorem readDigits_decimal (n : Nat) (rest : List UInt8) :
    readDigits 0 (decimal n ++ 0 :: rest) = some (.ofNat n) := by
  rw [readDigits_eq isDigit_decimal (by decide), foldl_decimal]

/-- Neither white space nor a sign. -/
theorem decimalChar_plain : ∀ d < 10, isSpace (decimalChar d) = false ∧
    decimalChar d ≠ '-'.toUInt8 ∧ decimalChar d ≠ '+'.toUInt8 := by decide

theorem stou_decimal (n : Nat) (rest : List UInt8) :
    stou (decimal n ++ 0 :: rest) = some (.ofNat n) := by
  obtain ⟨d, cs, hd, hcons⟩ := decimal_eq_cons n
  obtain ⟨hspace, -, hplus⟩ := decimalChar_plain d hd
  have hread := readDigits_decimal n rest
  rw [hcons, List.cons_append] at hread ⊢
  simp [stou, skipSpaces, hspace, skipPlus, hplus, hread]

theorem stoi_decimal (n : Nat) (rest : List UInt8) :
    stoi (decimal n ++ 0 :: rest) = some (UInt32.ofNat n).toInt32 := by
  obtain ⟨d, cs, hd, hcons⟩ := decimal_eq_cons n
  obtain ⟨hspace, hminus, hplus⟩ := decimalChar_plain d hd
  have hread := readDigits_decimal n rest
  rw [hcons, List.cons_append] at hread ⊢
  simp [stoi, skipSpaces, hspace, readSign, hminus, hplus, hread]

theorem stoi_minus (n : Nat) (rest : List UInt8) :
    stoi ('-'.toUInt8 :: (decimal n ++ 0 :: rest)) = some (0 - UInt32.ofNat n).toInt32 := by
  have hread := readDigits_decimal n rest
  have hspace : isSpace '-'.toUInt8 = false := by decide
  simp [stoi, skipSpaces, hspace, readSign, hread]

/-! ## Commas -/

/-- What stands behind a digit with `count` digits on its right. -/
def comma (count : Nat) : List UInt8 :=
  if count > 0 ∧ count % 3 = 0 then [','.toUInt8] else []

theorem comma_reverse (count : Nat) : (comma count).reverse = comma count := by
  rw [comma]
  split <;> rfl

/-- Digits and commas from the right to the left, with `count` digits on the right of them. -/
def grouped : Nat → List UInt8 → List UInt8
  | _, [] => []
  | count, c :: cs => comma count ++ c :: grouped (count + 1) cs

/-- The number of characters that so many digits take. -/
def width (count : Nat) : Nat := count + (count - 1) / 3

theorem width_succ (count : Nat) :
    width (count + 1) = width count + (comma count).length + 1 := by
  simp only [width, comma]
  split
  · rw [List.length_singleton]
    omega
  · rw [List.length_nil]
    omega

theorem length_grouped (count : Nat) (cs : List UInt8) :
    width count + (grouped count cs).length = width (count + cs.length) := by
  induction cs generalizing count with
  | nil => rfl
  | cons c cs ih =>
      have hsum : count + (cs.length + 1) = count + 1 + cs.length := by omega
      rw [grouped, List.length_append, List.length_cons, List.length_cons, hsum, ← ih,
        width_succ]
      omega

theorem mem_grouped {count : Nat} {cs : List UInt8} {c : UInt8} (h : c ∈ grouped count cs) :
    c = ','.toUInt8 ∨ c ∈ cs := by
  induction cs generalizing count with
  | nil => exact absurd h List.not_mem_nil
  | cons d cs ih =>
      rw [grouped, List.mem_append, List.mem_cons] at h
      rcases h with hcomma | rfl | hrest
      · rw [comma] at hcomma
        split at hcomma
        · exact .inl (List.mem_singleton.mp hcomma)
        · exact absurd hcomma List.not_mem_nil
      · exact .inr List.mem_cons_self
      · exact (ih hrest).imp_right (List.mem_cons_of_mem d)

/-- The digits are left when the commas are taken out. -/
theorem filter_grouped {p : UInt8 → Bool} (hp : p ','.toUInt8 = false) {cs : List UInt8}
    (hcs : ∀ c ∈ cs, p c = true) (count : Nat) : (grouped count cs).filter p = cs := by
  induction cs generalizing count with
  | nil => rfl
  | cons c cs ih =>
      have hc : p c = true := hcs c List.mem_cons_self
      have hcomma : (comma count).filter p = [] := by
        rw [comma]
        split <;> simp [hp]
      rw [grouped, List.filter_append, List.filter_cons_of_pos hc, hcomma,
        ih fun d hd => hcs d (List.mem_cons_of_mem _ hd), List.nil_append]

/-- The commas are at the places that are three above a multiple of four. -/
theorem getElem?_grouped {cs : List UInt8} (hcs : ∀ c ∈ cs, c ≠ ','.toUInt8) (count : Nat)
    {j : Nat} (hj : j < (grouped count cs).length) :
    (grouped count cs)[j]? = some ','.toUInt8 ↔ (width count + j) % 4 = 3 := by
  induction cs generalizing count j with
  | nil => simp [grouped] at hj
  | cons c cs ih =>
      have hc : c ≠ ','.toUInt8 := hcs c List.mem_cons_self
      have hnext : ∀ i, i < (grouped (count + 1) cs).length →
          ((grouped (count + 1) cs)[i]? = some ','.toUInt8 ↔ (width (count + 1) + i) % 4 = 3) :=
        fun i hi => ih (fun d hd => hcs d (List.mem_cons_of_mem _ hd)) (count + 1) hi
      rw [width_succ] at hnext
      rw [grouped, List.length_append, List.length_cons] at hj
      rw [grouped]
      by_cases hgroup : count > 0 ∧ count % 3 = 0
      · have hcomma : comma count = [','.toUInt8] := if_pos hgroup
        have hwidth : width count % 4 = 3 := by
          rw [width]
          omega
        rw [hcomma, List.length_singleton] at hj hnext
        rw [hcomma, List.singleton_append]
        match j with
        | 0 => simpa using hwidth
        | 1 =>
            simp only [List.getElem?_cons_succ, List.getElem?_cons_zero, Option.some.injEq, hc,
              false_iff]
            omega
        | j + 2 =>
            rw [List.getElem?_cons_succ, List.getElem?_cons_succ, hnext j (by omega)]
            omega
      · have hcomma : comma count = [] := if_neg hgroup
        have hwidth : width count % 4 ≠ 3 := by
          rw [width]
          omega
        rw [hcomma, List.length_nil] at hj hnext
        rw [hcomma, List.nil_append]
        match j with
        | 0 => simpa [hc] using hwidth
        | j + 1 =>
            rw [List.getElem?_cons_succ, hnext j (by omega)]
            omega

theorem storeBelow_append (pre : List UInt8) (c old : UInt8) (post : List UInt8) :
    storeBelow c (pre ++ [old]).length (pre ++ old :: post) =
      some (pre.length, pre ++ c :: post) := by
  rw [List.length_append, List.length_singleton, storeBelow, store_append]
  rfl

theorem storeComma_append {count : Nat} (pre : List UInt8) {old : List UInt8} (post : List UInt8)
    (hold : old.length = (comma count).length) :
    storeComma count (pre ++ old).length (pre ++ old ++ post) =
      some (pre.length, pre ++ (comma count ++ post)) := by
  rw [storeComma]
  by_cases hgroup : count > 0 ∧ count % 3 = 0
  · have hcomma : comma count = [','.toUInt8] := if_pos hgroup
    rw [hcomma] at hold ⊢
    obtain ⟨c, rfl⟩ := List.length_eq_one_iff.mp hold
    rw [if_pos hgroup, List.append_assoc]
    exact storeBelow_append pre _ c post
  · have hcomma : comma count = [] := if_neg hgroup
    rw [hcomma] at hold ⊢
    obtain rfl := List.length_eq_zero_iff.mp hold
    rw [if_neg hgroup, List.append_nil]
    rfl

/-- The loop writes the digits and the commas from the right to the left. -/
theorem commaLoop_eq (cs tail : List UInt8) (count : Nat) (mid post : List UInt8)
    (hmid : mid.length = (grouped count cs.reverse).length) :
    commaLoop (cs ++ tail) cs.length mid.length count (mid ++ post) =
      some ((grouped count cs.reverse).reverse ++ post) := by
  induction cs using List.reverseRecOn generalizing tail count mid post with
  | nil =>
      have hempty : mid = [] := List.length_eq_zero_iff.mp hmid
      simp [hempty, grouped, commaLoop]
  | append_singleton cs c ih =>
      rw [List.reverse_append, List.reverse_singleton, List.singleton_append] at hmid ⊢
      rw [grouped, List.length_append, List.length_cons] at hmid
      -- the place of the comma, that of the digit, and those of the loop that is left
      obtain ⟨mid, old, rfl, hold⟩ : ∃ mid' old, mid = mid' ++ old ∧
          old.length = (comma count).length :=
        ⟨_, _, (List.take_append_drop (mid.length - (comma count).length) mid).symm, by
          rw [List.length_drop]
          omega⟩
      rw [List.length_append] at hmid
      obtain ⟨mid, slot, rfl⟩ : ∃ mid' slot, mid = mid' ++ [slot] :=
        ⟨_, _, (List.dropLast_concat_getLast (List.ne_nil_of_length_pos (by omega))).symm⟩
      rw [List.length_append, List.length_singleton] at hmid
      have hread : (cs ++ [c] ++ tail)[cs.length]? = some c := by simp
      have hrest := ih ([c] ++ tail) (count + 1) mid (c :: (comma count ++ post)) (by omega)
      rw [List.length_append, List.length_singleton, commaLoop, storeComma_append _ post hold]
      rw [← List.append_assoc] at hrest
      simp only [Option.bind_eq_bind, Option.bind_some, hread, List.append_assoc mid,
        List.singleton_append, storeBelow_append, hrest, grouped]
      simp [comma_reverse]

/-- The number in decimal with its commas. -/
def decimalCommas (n : Nat) : List UInt8 := (grouped 0 (decimal n).reverse).reverse

theorem length_decimalCommas (n : Nat) :
    (decimalCommas n).length = (decimal n).length + ((decimal n).length - 1) / 3 := by
  have hlength := length_grouped 0 (decimal n).reverse
  rw [List.length_reverse] at hlength
  rw [decimalCommas, List.length_reverse]
  simpa [width] using hlength

theorem itosCommas_eq {val : UInt32} {dest : List UInt8}
    (h : (decimalCommas val.toNat).length < dest.length) : itosCommas val dest =
      some (decimalCommas val.toNat ++ 0 :: dest.drop ((decimalCommas val.toNat).length + 1)) := by
  have hraw : utos val 0 (List.replicate 11 0) = some (decimal val.toNat ++
      0 :: (List.replicate 11 0).drop ((decimal val.toNat).length + 1)) := by
    have hle := length_decimal_le val
    exact utos_eq [] (List.replicate 11 0) (by rw [List.length_replicate]; omega)
  have hloop := commaLoop_eq (decimal val.toNat)
    (0 :: (List.replicate 11 0).drop ((decimal val.toNat).length + 1)) 0
    (dest.take (decimalCommas val.toNat).length)
    (0 :: dest.drop ((decimalCommas val.toNat).length + 1)) (by
      rw [List.length_take_of_le h.le, decimalCommas, List.length_reverse])
  rw [List.length_take_of_le h.le] at hloop
  simp only [itosCommas, hraw, strlen_eq decimal_ne_zero, Option.bind_eq_bind, Option.bind_some,
    ← length_decimalCommas, store_of_lt h, hloop]
  rfl

theorem readCommas_eq {cs : List UInt8} (hcs : ∀ c ∈ cs, c ≠ 0) (val : UInt32)
    (rest : List UInt8) :
    readCommas val (cs ++ 0 :: rest) = some ((cs.filter isDigit).foldl accumulate val) := by
  induction cs generalizing val with
  | nil => simp [readCommas]
  | cons c cs ih =>
      rw [List.cons_append, readCommas, if_neg (hcs c List.mem_cons_self),
        ih fun d hd => hcs d (List.mem_cons_of_mem _ hd), List.filter_cons]
      split <;> rfl

theorem filter_decimalCommas {p : UInt8 → Bool} (hp : p ','.toUInt8 = false) {n : Nat}
    (hdecimal : ∀ c ∈ decimal n, p c = true) : (decimalCommas n).filter p = decimal n := by
  rw [decimalCommas, List.filter_reverse,
    filter_grouped hp (fun c hc => hdecimal c (List.mem_reverse.mp hc)), List.reverse_reverse]

theorem decimal_ne_comma {n : Nat} : ∀ c ∈ decimal n, c ≠ ','.toUInt8 := by
  intro c hc
  obtain ⟨d, hd, rfl⟩ := mem_decimal hc
  exact decimalChar_ne_comma d hd

theorem decimalCommas_ne_zero {n : Nat} : ∀ c ∈ decimalCommas n, c ≠ 0 := by
  intro c hc
  rcases mem_grouped (List.mem_reverse.mp hc) with rfl | hdigit
  · decide
  · exact decimal_ne_zero c (List.mem_reverse.mp hdigit)

theorem stoiCommas_decimalCommas (n : Nat) (rest : List UInt8) :
    stoiCommas (some (decimalCommas n ++ 0 :: rest)) = some (.ofNat n) := by
  rw [stoiCommas, readCommas_eq decimalCommas_ne_zero,
    filter_decimalCommas (by decide) isDigit_decimal, foldl_decimal]

/-- A comma stands wherever a multiple of four characters ends the number. -/
theorem getElem?_decimalCommas {n i : Nat} (hi : i < (decimalCommas n).length) :
    (decimalCommas n)[i]? = some ','.toUInt8 ↔ ((decimalCommas n).length - i) % 4 = 0 := by
  have hlength : (decimalCommas n).length = (grouped 0 (decimal n).reverse).length := by
    rw [decimalCommas, List.length_reverse]
  rw [hlength] at hi ⊢
  rw [decimalCommas, List.getElem?_reverse hi, getElem?_grouped
    (fun c hc => decimal_ne_comma c (List.mem_reverse.mp hc)) 0 (by omega)]
  simp only [width]
  omega

/-! ## Signs -/

theorem toInt_eq_bmod (v : Int32) : v.toInt = (v.toUInt32.toNat : Int).bmod (2 ^ 32) := by
  rw [← Int32.toNat_toBitVec, ← Int32.toInt_toBitVec, BitVec.toInt_eq_toNat_bmod]

theorem toNat_toUInt32_of_nonneg {v : Int32} (h : ¬v < 0) :
    v.toUInt32.toNat = v.toInt.natAbs := by
  have hlt := v.toUInt32.toNat_lt
  rw [Int32.lt_iff_toInt_lt, Int32.toInt_zero] at h
  rw [toInt_eq_bmod, Int.bmod] at h ⊢
  omega

/-- The subtraction wraps around, also for the least value. -/
theorem toNat_neg_toUInt32 {v : Int32} (h : v < 0) :
    (0 - v.toUInt32).toNat = v.toInt.natAbs := by
  have hlt := v.toUInt32.toNat_lt
  rw [Int32.lt_iff_toInt_lt, Int32.toInt_zero] at h
  rw [UInt32.toNat_sub, UInt32.toNat_zero]
  rw [toInt_eq_bmod, Int.bmod] at h ⊢
  omega

theorem itos_of_neg {v : Int32} (h : v < 0) {old : UInt8} {rest : List UInt8}
    (hroom : (decimal v.toInt.natAbs).length < rest.length) : itos v (old :: rest) =
      some ('-'.toUInt8 :: (decimal v.toInt.natAbs ++
        0 :: rest.drop ((decimal v.toInt.natAbs).length + 1))) := by
  rw [← toNat_neg_toUInt32 h] at hroom ⊢
  have hwrite := utos_eq ['-'.toUInt8] _ hroom
  have hminus : Blocks.store 0 '-'.toUInt8 (old :: rest) = some ('-'.toUInt8 :: rest) :=
    store_append [] '-'.toUInt8 old rest
  rw [itos, if_pos h, hminus]
  exact hwrite

theorem itos_of_nonneg {v : Int32} (h : ¬v < 0) {dest : List UInt8}
    (hroom : (decimal v.toInt.natAbs).length < dest.length) : itos v dest =
      some (decimal v.toInt.natAbs ++
        0 :: dest.drop ((decimal v.toInt.natAbs).length + 1)) := by
  rw [← toNat_toUInt32_of_nonneg h] at hroom ⊢
  rw [itos, if_neg h]
  exact utos_eq [] _ hroom

/-- What is written is read as the number it was written for. -/
theorem decimal_roundTrip :
    (∀ (v : UInt32) (dest : List UInt8), (decimal v.toNat).length < dest.length →
      ∃ dest', utos v 0 dest = some dest' ∧ stou dest' = some v) ∧
    (∀ (v : Int32) (dest : List UInt8),
      (if v < 0 then 1 else 0) + (decimal v.toInt.natAbs).length < dest.length →
      ∃ dest', itos v dest = some dest' ∧ stoi dest' = some v) ∧
    ∀ (v : UInt32) (dest : List UInt8), (decimalCommas v.toNat).length < dest.length →
      ∃ text rest, itosCommas v dest = some (text ++ 0 :: rest) ∧
        stoiCommas (some (text ++ 0 :: rest)) = some v ∧
        text.filter (· ≠ ','.toUInt8) = decimal v.toNat ∧
        ∀ i < text.length, text[i]? = some ','.toUInt8 ↔ (text.length - i) % 4 = 0 := by
  refine ⟨?_, ?_, ?_⟩
  · intro v dest hroom
    refine ⟨_, utos_eq [] _ hroom, ?_⟩
    rw [List.nil_append, stou_decimal, UInt32.ofNat_toNat]
  · intro v dest hroom
    by_cases hneg : v < 0
    · rw [if_pos hneg] at hroom
      obtain ⟨old, rest, rfl⟩ : ∃ old rest, dest = old :: rest :=
        List.exists_cons_of_length_pos (by omega)
      rw [List.length_cons] at hroom
      have hback : 0 - (0 - v.toUInt32) = v.toUInt32 := by simp
      refine ⟨_, itos_of_neg hneg (by omega), ?_⟩
      rw [stoi_minus, ← toNat_neg_toUInt32 hneg, UInt32.ofNat_toNat, hback,
        Int32.toInt32_toUInt32]
    · rw [if_neg hneg, Nat.zero_add] at hroom
      refine ⟨_, itos_of_nonneg hneg hroom, ?_⟩
      rw [stoi_decimal, ← toNat_toUInt32_of_nonneg hneg, UInt32.ofNat_toNat,
        Int32.toInt32_toUInt32]
  · intro v dest hroom
    refine ⟨_, _, itosCommas_eq hroom, ?_, ?_, fun i hi => getElem?_decimalCommas hi⟩
    · rw [stoiCommas_decimalCommas, UInt32.ofNat_toNat]
    · exact filter_decimalCommas (by decide) fun c hc => by simpa using decimal_ne_comma c hc

theorem decimal_roundTrip_least :
    (∃ dest', utos 4294967295 0 (List.replicate 12 0) = some dest' ∧
      stou dest' = some 4294967295) ∧
    ∃ dest', itos (-2147483648) (List.replicate 12 0) = some dest' ∧
      stoi dest' = some (-2147483648) := by
  constructor
  · apply decimal_roundTrip.1
    exact (length_decimal_le _).trans_lt (by simp)
  · apply decimal_roundTrip.2.1
    rw [← toNat_neg_toUInt32 (by decide)]
    have hlength := length_decimal_le (0 - Int32.toUInt32 (-2147483648))
    rw [List.length_replicate, if_pos (by decide)]
    omega

end AvrKernel.Util

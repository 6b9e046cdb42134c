import AvrKernel.Lib.Blocks
import AvrKernel.Lib.Signed
import AvrKernel.Lib.Sinks
import Mathlib.Data.UInt

/-!
# Bounded formatting

`util/snprint.c`: `vsnprintf` scans a format and appends characters to a buffer. The code
that scans and converts is written over the function that appends, so that it can run on
the buffer and on a list that collects everything. A read past the terminator of the
format or a write past the buffer is a fault, and nothing comes of it.
-/

namespace AvrKernel.Util

open Blocks Signed Sinks

/-! ## Output -/

/-- The buffer and the count of characters. -/
structure Output where
  str : List UInt8
  written : UInt32

def appendChar (size : UInt32) (c : UInt8) (o : Output) : Option Output :=
  if o.written + 1 < size then
    (store o.written.toNat c o.str).map fun str => ⟨str, o.written + 1⟩
  else some { o with written := o.written + 1 }

section Printing

variable {σ : Type} (append : UInt8 → σ → Option σ)

/-- The loop of `append_pad`, so many rounds. -/
def appendRounds (c : UInt8) : Nat → σ → Option σ
  | 0, s => some s
  | n + 1, s => (append c s).bind (appendRounds c n)

def appendPad (c : UInt8) (count : Int) : σ → Option σ := appendRounds append c count.toNat

/-- The characters of a text in order. -/
def appendText : List UInt8 → σ → Option σ
  | [], s => some s
  | c :: text, s => (append c s).bind (appendText text)

structure Flags where
  left : Bool
  zero : Bool

def digitChar (uppercase : Bool) (digit : Nat) : UInt8 :=
  if digit < 10 then .ofNat (48 + digit) else .ofNat ((if uppercase then 55 else 87) + digit)

/-- The loop that stores the digits in `buf`, the last digit first. -/
def storeDigits (base : Nat) (uppercase : Bool) : Nat → Nat → List UInt8 → Option (List UInt8)
  | 0, _, _ => none
  | room + 1, num, buf =>
      let buf := buf ++ [digitChar uppercase (num % base)]
      if num / base > 0 then storeDigits base uppercase room (num / base) buf else some buf

/-- The digits of a number, the last one first. -/
def digitsOf (num base : Nat) (uppercase : Bool) (precision : Int) : Option (List UInt8) :=
  if num = 0 ∧ precision = 0 then some [] else storeDigits base uppercase 24 num []

def formatNumber (num : Nat) (negative : Bool) (pre : List UInt8) (base : Nat)
    (uppercase : Bool) (flags : Flags) (width precision : Int) (s : σ) : Option σ := do
  let buf ← digitsOf num base uppercase precision
  let len : Int := buf.length
  let zeros := if precision > len then precision - len else 0
  let prefixLen : Int := (if negative then 1 else 0) + pre.length
  let total := int32 (prefixLen + zeros + len)
  let pad := if width > total then int32 (width - total) else 0
  let zeroPad : Bool := flags.zero ∧ ¬flags.left ∧ precision < 0
  let s ← onlyIf (!flags.left && !zeroPad) (appendPad append ' '.toUInt8 pad) s
  let s ← onlyIf negative (append '-'.toUInt8) s
  let s ← appendText append pre s
  let s ← onlyIf zeroPad (appendPad append '0'.toUInt8 pad) s
  let s ← appendPad append '0'.toUInt8 zeros s
  let s ← appendText append buf.reverse s
  onlyIf flags.left (appendPad append ' '.toUInt8 pad) s

end Printing

/-! ## Arguments -/

/-- The words of the arguments and the number of those already taken. -/
structure VaList where
  word : Nat → UInt32
  next : Nat

def VaList.take (args : VaList) (n : Nat) : VaList := { args with next := args.next + n }

/-- `va_arg(args, unsigned int)`. -/
def VaList.word0 (args : VaList) : UInt32 := args.word args.next

/-- `va_arg(args, unsigned long long)`. -/
def VaList.word01 (args : VaList) : Nat :=
  (args.word args.next).toNat + 2 ^ 32 * (args.word (args.next + 1)).toNat

/-- `va_arg(args, int)`. -/
def VaList.int0 (args : VaList) : Int := wrap 32 args.word0.toNat

inductive LengthMod
  | none | hh | h | l | ll | z
  deriving DecidableEq

def fetchSigned (args : VaList) : LengthMod → Int × VaList
  | .hh => (wrap 8 args.word0.toNat, args.take 1)
  | .h => (wrap 16 args.word0.toNat, args.take 1)
  | .l => (args.int0, args.take 1)
  | .ll => (wrap 64 args.word01, args.take 2)
  | .z => (args.word0.toNat, args.take 1)
  | .none => (args.int0, args.take 1)

def fetchUnsigned (args : VaList) : LengthMod → Nat × VaList
  | .hh => (args.word0.toNat % 2 ^ 8, args.take 1)
  | .h => (args.word0.toNat % 2 ^ 16, args.take 1)
  | .l => (args.word0.toNat, args.take 1)
  | .ll => (args.word01, args.take 2)
  | .z => (args.word0.toNat, args.take 1)
  | .none => (args.word0.toNat, args.take 1)

/-- The strings that pointers point to, up to their terminators. Their characters can be
counted in an `int`. -/
structure Strings where
  text : UInt32 → List UInt8
  short : ∀ address, (text address).length < 2 ^ 31

/-- `"(null)"`. -/
def nullText : List UInt8 := [40, 110, 117, 108, 108, 41]

/-! ## Scanning -/

section Scanning

variable (format : List UInt8)

/-- `*p`: a character of the format, or its terminator. -/
def readFormat (p : Nat) : Option UInt8 :=
  if p ≤ format.length then some (format.getD p 0) else none

def scanFlags : Nat → Nat → Flags → Option (Nat × Flags)
  | 0, _, _ => none
  | fuel + 1, p, flags => do
      let c ← readFormat format p
      if c = '-'.toUInt8 then scanFlags fuel (p + 1) { flags with left := true }
      else if c = '0'.toUInt8 then scanFlags fuel (p + 1) { flags with zero := true }
      else return (p, flags)

def scanNumber : Nat → Nat → Int → Option (Nat × Int)
  | 0, _, _ => none
  | fuel + 1, p, value => do
      let c ← readFormat format p
      if '0'.toUInt8 ≤ c ∧ c ≤ '9'.toUInt8 then
        scanNumber fuel (p + 1) (int32 (value * 10 + (c.toNat - 48)))
      else return (p, value)

/-- A width from the arguments: a negative one means a field to the left. -/
def starWidth (flags : Flags) (width : Int) : Flags × Int :=
  if width < 0 then ({ flags with left := true }, int32 (-width)) else (flags, width)

/-- Width and flags behind the flags. -/
def scanWidth (p : Nat) (flags : Flags) (args : VaList) :
    Option (Nat × Flags × Int × VaList) := do
  let c ← readFormat format p
  if c = '*'.toUInt8 then
    let field := starWidth flags args.int0
    return (p + 1, field.1, field.2, args.take 1)
  else
    let (p, width) ← scanNumber format (format.length + 1) p 0
    return (p, flags, width, args)

def scanPrecision (p : Nat) (args : VaList) : Option (Nat × Int × VaList) := do
  let c ← readFormat format p
  if c = '.'.toUInt8 then
    let c ← readFormat format (p + 1)
    if c = '*'.toUInt8 then
      let precision := args.int0
      return (p + 2, if precision < 0 then -1 else precision, args.take 1)
    else
      let (p, precision) ← scanNumber format (format.length + 1) (p + 1) 0
      return (p, precision, args)
  else return (p, -1, args)

def scanLength (p : Nat) : Option (Nat × LengthMod) := do
  let c ← readFormat format p
  if c = 'h'.toUInt8 then
    let c ← readFormat format (p + 1)
    if c = 'h'.toUInt8 then return (p + 2, .hh) else return (p + 1, .h)
  else if c = 'l'.toUInt8 then
    let c ← readFormat format (p + 1)
    if c = 'l'.toUInt8 then return (p + 2, .ll) else return (p + 1, .l)
  else if c = 'z'.toUInt8 then return (p + 1, .z)
  else return (p, .none)

/-- A specification up to its last character, which is at `p`. -/
structure Spec where
  flags : Flags
  width : Int
  precision : Int
  len : LengthMod
  p : Nat
  args : VaList

/-- Scan a specification from behind its `%` on. -/
def scanSpec (p : Nat) (args : VaList) : Option Spec := do
  let (p, flags) ← scanFlags format (format.length + 1) p ⟨false, false⟩
  let (p, flags, width, args) ← scanWidth format p flags args
  let (p, precision, args) ← scanPrecision format p args
  let (p, len) ← scanLength format p
  return ⟨flags, width, precision, len, p, args⟩

end Scanning

/-! ## Conversions -/

section Conversions

variable {σ : Type} (append : UInt8 → σ → Option σ)

/-- A text in a field of blanks. -/
def printPadded (flags : Flags) (pad : Int) (text : List UInt8) (s : σ) : Option σ := do
  let s ← onlyIf (!flags.left) (appendPad append ' '.toUInt8 pad) s
  let s ← appendText append text s
  onlyIf flags.left (appendPad append ' '.toUInt8 pad) s

def printChar (spec : Spec) (s : σ) : Option (VaList × σ) := do
  let pad := if spec.width > 1 then spec.width - 1 else 0
  let s ← printPadded append spec.flags pad [spec.args.word0.toUInt8] s
  return (spec.args.take 1, s)

/-- The loop that counts the characters of a string up to the precision. -/
def stringLength (precision : Int) : List UInt8 → Nat → Nat
  | [], slen => slen
  | _ :: rest, slen =>
      if precision < 0 ∨ slen < precision then stringLength precision rest (slen + 1) else slen

def printString (strings : Strings) (spec : Spec) (s : σ) : Option (VaList × σ) := do
  let address := spec.args.word0
  let text := if address = 0 then nullText else strings.text address
  let slen := stringLength spec.precision text 0
  let pad := if spec.width > slen then spec.width - slen else 0
  let s ← printPadded append spec.flags pad (text.take slen) s
  return (spec.args.take 1, s)

def printSigned (spec : Spec) (s : σ) : Option (VaList × σ) := do
  let (val, args) := fetchSigned spec.args spec.len
  let s ← formatNumber append val.natAbs (val < 0) [] 10 false spec.flags spec.width
    spec.precision s
  return (args, s)

def printUnsigned (base : Nat) (uppercase : Bool) (spec : Spec) (s : σ) :
    Option (VaList × σ) := do
  let (val, args) := fetchUnsigned spec.args spec.len
  let s ← formatNumber append val false [] base uppercase spec.flags spec.width spec.precision s
  return (args, s)

def printPointer (spec : Spec) (s : σ) : Option (VaList × σ) := do
  let s ← formatNumber append spec.args.word0.toNat false ['0'.toUInt8, 'x'.toUInt8] 16 false
    spec.flags spec.width spec.precision s
  return (spec.args.take 1, s)

/-- The place of the last character read goes with the arguments that are left. -/
def andPlace (p : Nat) (printed : Option (VaList × σ)) : Option ((Nat × VaList) × σ) :=
  printed.map fun result => ((p, result.1), result.2)

/-- An unknown or incomplete specification is printed as it is. Where the format ends in it
the pointer steps back, so that the loop finds the terminator. -/
def printLiteral (format : List UInt8) (specStart : Nat) (c : UInt8) (spec : Spec) (s : σ) :
    Option ((Nat × VaList) × σ) := do
  let s ← appendText append ((format.take spec.p).drop specStart) s
  let s ← onlyIf (c ≠ 0) (append c) s
  return ((if c ≠ 0 then spec.p else spec.p - 1, spec.args), s)

/-- What the last character of a specification asks for. -/
def convert (format : List UInt8) (strings : Strings) (specStart : Nat) (c : UInt8) (spec : Spec)
    (s : σ) : Option ((Nat × VaList) × σ) :=
  if c = 'c'.toUInt8 then andPlace spec.p (printChar append spec s)
  else if c = 's'.toUInt8 then andPlace spec.p (printString append strings spec s)
  else if c = 'd'.toUInt8 ∨ c = 'i'.toUInt8 then andPlace spec.p (printSigned append spec s)
  else if c = 'u'.toUInt8 ∨ c = 'x'.toUInt8 ∨ c = 'X'.toUInt8 then
    andPlace spec.p (printUnsigned append (if c = 'u'.toUInt8 then 10 else 16)
      (c = 'X'.toUInt8) spec s)
  else if c = 'p'.toUInt8 then andPlace spec.p (printPointer append spec s)
  else if c = '%'.toUInt8 then
    (append '%'.toUInt8 s).map fun s => ((spec.p, spec.args), s)
  else printLiteral append format specStart c spec s

/-- The loop of `vsnprintf` from `p` on. -/
def printFrom (format : List UInt8) (strings : Strings) :
    Nat → Nat → VaList → σ → Option σ
  | 0, _, _, _ => none
  | fuel + 1, p, args, s => do
      let c ← readFormat format p
      if c = 0 then some s
      else if c ≠ '%'.toUInt8 then
        let s ← append c s
        printFrom format strings fuel (p + 1) args s
      else
        let spec ← scanSpec format (p + 1) args
        let c ← readFormat format spec.p
        let ((q, args), s) ← convert append format strings p c spec s
        printFrom format strings fuel (q + 1) args s

/-- The loop with as many rounds as the format can have. -/
def print (format : List UInt8) (strings : Strings) (args : VaList) : σ → Option σ :=
  printFrom append format strings (format.length + 1) 0 args

end Conversions

/-- `vsnprintf`: the number returned and the buffer afterwards. -/
def vsnprintf (str : List UInt8) (size : UInt32) (format : List UInt8) (strings : Strings)
    (args : VaList) : Option (Int × List UInt8) := do
  let o ← print (appendChar size) format strings args ⟨str, 0⟩
  let str ← if size > 0 then
      store (if o.written < size then o.written else size - 1).toNat 0 o.str
    else some o.str
  return (int32 o.written.toNat, str)

/-- Everything a format prints. -/
def output (format : List UInt8) (strings : Strings) (args : VaList) : List UInt8 :=
  (print collect format strings args []).getD []

/-! ## What the conversions print -/

section Texts

theorem appendRounds_puts (c : UInt8) (n : Nat) :
    Puts (fun _ append => appendRounds append c n) (List.replicate n c) := by
  intro σ append s
  dsimp only
  induction n generalizing s with
  | zero => rfl
  | succ n ih =>
      rw [appendRounds, List.replicate_succ, putAll]
      exact Option.bind_congr fun next _ => ih next

theorem appendPad_puts (c : UInt8) (count : Int) :
    Puts (fun _ append => appendPad append c count) (List.replicate count.toNat c) :=
  appendRounds_puts c count.toNat

theorem appendText_puts (text : List UInt8) :
    Puts (fun _ append => appendText append text) text := by
  intro σ append s
  dsimp only
  induction text generalizing s with
  | nil => rfl
  | cons c text ih =>
      rw [appendText, putAll]
      exact Option.bind_congr fun next _ => ih next

/-- There is room for the digits of a number with at most `room` decimal digits. -/
theorem storeDigits_isSome {base : Nat} (hbase : 10 ≤ base) (uppercase : Bool) {room num : Nat}
    (hnum : num < 10 ^ (room + 1)) (buf : List UInt8) :
    (storeDigits base uppercase (room + 1) num buf).isSome := by
  induction room generalizing num buf with
  | zero =>
      rw [storeDigits, if_neg]
      · rfl
      · rw [Nat.div_eq_of_lt (by omega)]
        exact Nat.lt_irrefl 0
  | succ room ih =>
      rw [storeDigits]
      split_ifs
      · apply ih
        rw [Nat.pow_succ] at hnum
        calc num / base ≤ num / 10 := Nat.div_le_div_left hbase (by decide)
          _ < 10 ^ (room + 1) := Nat.div_lt_of_lt_mul (by omega)
      · rfl

theorem digitsOf_isSome {num base : Nat} (hnum : num < 2 ^ 64) (hbase : 10 ≤ base)
    (uppercase : Bool) (precision : Int) : (digitsOf num base uppercase precision).isSome := by
  rw [digitsOf]
  split_ifs
  · rfl
  · exact storeDigits_isSome hbase uppercase (hnum.trans (by decide)) []

/-- A number is printed as a text that fits the buffer for the digits. -/
theorem formatNumber_puts {num base : Nat} (hnum : num < 2 ^ 64) (hbase : 10 ≤ base)
    (negative : Bool) (pre : List UInt8) (uppercase : Bool) (flags : Flags)
    (width precision : Int) :
    ∃ text, Puts (fun _ append s =>
      formatNumber append num negative pre base uppercase flags width precision s) text := by
  obtain ⟨buf, hbuf⟩ := Option.isSome_iff_exists.mp
    (digitsOf_isSome hnum hbase uppercase precision)
  simp only [formatNumber, hbuf, Option.bind_eq_bind, Option.bind_some]
  exact ⟨_, ((appendPad_puts _ _).onlyIf _).bind <| ((puts_one _).onlyIf _).bind <|
    (appendText_puts _).bind <| ((appendPad_puts _ _).onlyIf _).bind <|
    (appendPad_puts _ _).bind <| (appendText_puts _).bind ((appendPad_puts _ _).onlyIf _)⟩

theorem printPadded_puts (flags : Flags) (pad : Int) (text : List UInt8) :
    Puts (fun _ append s => printPadded append flags pad text s)
      ((if !flags.left then List.replicate pad.toNat ' '.toUInt8 else []) ++
        (text ++ if flags.left then List.replicate pad.toNat ' '.toUInt8 else [])) := by
  simp only [printPadded, Option.bind_eq_bind]
  exact ((appendPad_puts _ _).onlyIf _).bind ((appendText_puts _).bind
    ((appendPad_puts _ _).onlyIf _))

theorem printChar_prints (spec : Spec) :
    ∃ text, Prints (fun _ append s => printChar append spec s) text (spec.args.take 1) := by
  simp only [printChar, Option.bind_eq_bind, Option.pure_def]
  exact ⟨_, (printPadded_puts _ _ _).prints _⟩

theorem printString_prints (strings : Strings) (spec : Spec) :
    ∃ text, Prints (fun _ append s => printString append strings spec s) text
      (spec.args.take 1) := by
  simp only [printString, Option.bind_eq_bind, Option.pure_def]
  exact ⟨_, (printPadded_puts _ _ _).prints _⟩

theorem fetchSigned_lt (args : VaList) (len : LengthMod) :
    (fetchSigned args len).1.natAbs < 2 ^ 64 := by
  have hword := args.word0.toNat_lt
  cases len with
  | z =>
      simp only [fetchSigned, Int.natAbs_natCast]
      omega
  | _ =>
      simp only [fetchSigned, VaList.int0]
      exact natAbs_wrap_lt (by decide) _

theorem fetchUnsigned_lt (args : VaList) (len : LengthMod) :
    (fetchUnsigned args len).1 < 2 ^ 64 := by
  have hword := args.word0.toNat_lt
  have hlow := (args.word args.next).toNat_lt
  have hhigh := (args.word (args.next + 1)).toNat_lt
  cases len <;> simp only [fetchUnsigned, VaList.word01] <;> omega

theorem printSigned_prints (spec : Spec) :
    ∃ text, Prints (fun _ append s => printSigned append spec s) text
      (fetchSigned spec.args spec.len).2 := by
  obtain ⟨text, htext⟩ := formatNumber_puts (fetchSigned_lt spec.args spec.len) (Nat.le_refl 10)
    ((fetchSigned spec.args spec.len).1 < 0) [] false spec.flags spec.width spec.precision
  exact ⟨text, htext.prints _⟩

theorem printUnsigned_prints {base : Nat} (hbase : 10 ≤ base) (uppercase : Bool) (spec : Spec) :
    ∃ text, Prints (fun _ append s => printUnsigned append base uppercase spec s) text
      (fetchUnsigned spec.args spec.len).2 := by
  obtain ⟨text, htext⟩ := formatNumber_puts (fetchUnsigned_lt spec.args spec.len) hbase false []
    uppercase spec.flags spec.width spec.precision
  exact ⟨text, htext.prints _⟩

theorem printPointer_prints (spec : Spec) :
    ∃ text, Prints (fun _ append s => printPointer append spec s) text (spec.args.take 1) := by
  have hword := spec.args.word0.toNat_lt
  obtain ⟨text, htext⟩ := formatNumber_puts (show spec.args.word0.toNat < 2 ^ 64 by omega)
    (show 10 ≤ 16 by decide) false ['0'.toUInt8, 'x'.toUInt8] false spec.flags spec.width
    spec.precision
  exact ⟨text, htext.prints _⟩

end Texts

/-! ## The scan stays in the format -/

section Scan

variable {format : List UInt8} {strings : Strings} {p : Nat} {c : UInt8} {args : VaList}

theorem readFormat_eq (hp : p ≤ format.length) : readFormat format p = some (format.getD p 0) :=
  if_pos hp

/-- A character other than 0 is in front of the terminator. -/
theorem lt_length (hp : p ≤ format.length) (hc : format.getD p 0 ≠ 0) : p < format.length := by
  rcases Nat.lt_or_eq_of_le hp with hlt | rfl
  · exact hlt
  · exact absurd (List.getD_eq_default _ _ (Nat.le_refl _)) hc

theorem scanFlags_spec {fuel : Nat} (hp : p ≤ format.length) (hfuel : format.length - p < fuel)
    (flags : Flags) : ∃ q flags', scanFlags format fuel p flags = some (q, flags') ∧
      p ≤ q ∧ q ≤ format.length := by
  induction fuel generalizing p flags with
  | zero => omega
  | succ fuel ih =>
      rw [scanFlags, readFormat_eq hp, Option.bind_eq_bind, Option.bind_some]
      split_ifs with hleft hzero
      · have hlt : p < format.length := lt_length hp (by rw [hleft]; decide)
        obtain ⟨q, flags', hscan, hle, hq⟩ := ih (p := p + 1) hlt (by omega) _
        exact ⟨q, flags', hscan, by omega, hq⟩
      · have hlt : p < format.length := lt_length hp (by rw [hzero]; decide)
        obtain ⟨q, flags', hscan, hle, hq⟩ := ih (p := p + 1) hlt (by omega) _
        exact ⟨q, flags', hscan, by omega, hq⟩
      · exact ⟨p, flags, rfl, Nat.le_refl p, hp⟩

theorem scanNumber_spec {fuel : Nat} (hp : p ≤ format.length) (hfuel : format.length - p < fuel)
    (value : Int) : ∃ q value', scanNumber format fuel p value = some (q, value') ∧
      p ≤ q ∧ q ≤ format.length := by
  induction fuel generalizing p value with
  | zero => omega
  | succ fuel ih =>
      rw [scanNumber, readFormat_eq hp, Option.bind_eq_bind, Option.bind_some]
      split_ifs with hdigit
      · have hlt : p < format.length := lt_length hp (by
          intro hzero
          rw [hzero] at hdigit
          exact absurd hdigit.1 (by decide))
        obtain ⟨q, value', hscan, hle, hq⟩ := ih (p := p + 1) hlt (by omega) _
        exact ⟨q, value', hscan, by omega, hq⟩
      · exact ⟨p, value, rfl, Nat.le_refl p, hp⟩

theorem scanWidth_spec (hp : p ≤ format.length) (flags : Flags) (args : VaList) :
    ∃ q result, scanWidth format p flags args = some (q, result) ∧
      p ≤ q ∧ q ≤ format.length := by
  rw [scanWidth, readFormat_eq hp, Option.bind_eq_bind, Option.bind_some]
  split_ifs with hstar
  · exact ⟨p + 1, _, rfl, by omega, lt_length hp (by rw [hstar]; decide)⟩
  · obtain ⟨q, width, hscan, hle, hq⟩ := scanNumber_spec hp
      (show format.length - p < format.length + 1 by omega) 0
    exact ⟨q, _, by rw [hscan]; rfl, hle, hq⟩

theorem scanPrecision_spec (hp : p ≤ format.length) (args : VaList) :
    ∃ q result, scanPrecision format p args = some (q, result) ∧
      p ≤ q ∧ q ≤ format.length := by
  rw [scanPrecision, readFormat_eq hp, Option.bind_eq_bind, Option.bind_some]
  split_ifs with hdot
  · have hlt : p < format.length := lt_length hp (by rw [hdot]; decide)
    rw [readFormat_eq hlt, Option.bind_eq_bind, Option.bind_some]
    split_ifs with hstar
    · exact ⟨p + 2, _, rfl, by omega, lt_length hlt (by rw [hstar]; decide)⟩
    · obtain ⟨q, precision, hscan, hle, hq⟩ := scanNumber_spec (p := p + 1) hlt
        (show format.length - (p + 1) < format.length + 1 by omega) 0
      exact ⟨q, _, by rw [hscan]; rfl, by omega, hq⟩
  · exact ⟨p, _, rfl, Nat.le_refl p, hp⟩

theorem scanLength_spec (hp : p ≤ format.length) :
    ∃ q len, scanLength format p = some (q, len) ∧ p ≤ q ∧ q ≤ format.length := by
  rw [scanLength, readFormat_eq hp, Option.bind_eq_bind, Option.bind_some]
  split_ifs with hh hl hz
  · have hlt : p < format.length := lt_length hp (by rw [hh]; decide)
    rw [readFormat_eq hlt, Option.bind_some]
    split_ifs with htwice
    · exact ⟨p + 2, _, rfl, by omega, lt_length hlt (by rw [htwice]; decide)⟩
    · exact ⟨p + 1, _, rfl, by omega, hlt⟩
  · have hlt : p < format.length := lt_length hp (by rw [hl]; decide)
    rw [readFormat_eq hlt, Option.bind_some]
    split_ifs with htwice
    · exact ⟨p + 2, _, rfl, by omega, lt_length hlt (by rw [htwice]; decide)⟩
    · exact ⟨p + 1, _, rfl, by omega, hlt⟩
  · exact ⟨p + 1, _, rfl, by omega, lt_length hp (by rw [hz]; decide)⟩
  · exact ⟨p, _, rfl, Nat.le_refl p, hp⟩

/-- A specification ends in front of the terminator or at it. -/
theorem scanSpec_spec (hp : p ≤ format.length) (args : VaList) :
    ∃ spec, scanSpec format p args = some spec ∧ p ≤ spec.p ∧ spec.p ≤ format.length := by
  obtain ⟨q₁, flags, hflags, hle₁, hq₁⟩ := scanFlags_spec hp
    (show format.length - p < format.length + 1 by omega) ⟨false, false⟩
  obtain ⟨q₂, ⟨flags', width, args'⟩, hwidth, hle₂, hq₂⟩ := scanWidth_spec hq₁ flags args
  obtain ⟨q₃, ⟨precision, args''⟩, hprecision, hle₃, hq₃⟩ := scanPrecision_spec hq₂ args'
  obtain ⟨q₄, len, hlen, hle₄, hq₄⟩ := scanLength_spec hq₃
  refine ⟨⟨flags', width, precision, len, q₄, args''⟩, ?_,
    hle₁.trans (hle₂.trans (hle₃.trans hle₄)), hq₄⟩
  simp only [scanSpec, hflags, hwidth, hprecision, hlen, Option.bind_eq_bind, Option.bind_some]
  rfl

end Scan

/-! ## What a format prints -/

section Loop

variable {format : List UInt8} {strings : Strings} {p : Nat} {c : UInt8}

theorem andPlace_prints {routine : ∀ σ : Type, (UInt8 → σ → Option σ) → σ → Option (VaList × σ)}
    {text : List UInt8} {args : VaList} (h : Prints routine text args) (p : Nat) :
    Prints (fun σ append s => andPlace p (routine σ append s)) text (p, args) := by
  intro σ append s
  simp only [andPlace, h σ append s, Option.map_map]
  rfl

theorem printLiteral_prints (format : List UInt8) (specStart : Nat) (c : UInt8) (spec : Spec) :
    ∃ text, Prints (fun _ append s => printLiteral append format specStart c spec s) text
      (if c ≠ 0 then spec.p else spec.p - 1, spec.args) := by
  simp only [printLiteral, Option.bind_eq_bind, Option.pure_def, ← Option.bind_assoc]
  exact ⟨_, ((appendText_puts _).bind ((puts_one c).onlyIf _)).prints _⟩

/-- A conversion prints a text, and the pointer ends in front of the next place to scan. -/
theorem convert_prints (strings : Strings) {specStart : Nat} {spec : Spec}
    (hspec : spec.p ≤ format.length) (hstart : specStart < spec.p) :
    ∃ text q args, Prints (fun _ append s =>
        convert append format strings specStart (format.getD spec.p 0) spec s) text (q, args) ∧
      specStart < q + 1 ∧ q + 1 ≤ format.length := by
  generalize hc : format.getD spec.p 0 = c
  have hplace : c ≠ 0 → specStart < spec.p + 1 ∧ spec.p + 1 ≤ format.length := by
    intro hne
    exact ⟨by omega, lt_length hspec (by rw [hc]; exact hne)⟩
  have hplaced : ∀ {routine : ∀ σ : Type, (UInt8 → σ → Option σ) → σ → Option (VaList × σ)}
      {text : List UInt8} {args : VaList}, Prints routine text args → c ≠ 0 →
      ∃ text q args, Prints (fun σ append s => andPlace spec.p (routine σ append s)) text
        (q, args) ∧ specStart < q + 1 ∧ q + 1 ≤ format.length :=
    fun h hne => ⟨_, _, _, andPlace_prints h spec.p, hplace hne⟩
  by_cases hchar : c = 'c'.toUInt8
  · obtain ⟨text, htext⟩ := printChar_prints spec
    simp only [convert, if_pos hchar]
    exact hplaced htext (by rw [hchar]; decide)
  by_cases hstring : c = 's'.toUInt8
  · obtain ⟨text, htext⟩ := printString_prints strings spec
    simp only [convert, if_neg hchar, if_pos hstring]
    exact hplaced htext (by rw [hstring]; decide)
  by_cases hsigned : c = 'd'.toUInt8 ∨ c = 'i'.toUInt8
  · obtain ⟨text, htext⟩ := printSigned_prints spec
    simp only [convert, if_neg hchar, if_neg hstring, if_pos hsigned]
    exact hplaced htext (by rcases hsigned with h | h <;> rw [h] <;> decide)
  by_cases hunsigned : c = 'u'.toUInt8 ∨ c = 'x'.toUInt8 ∨ c = 'X'.toUInt8
  · have hbase : 10 ≤ if c = 'u'.toUInt8 then 10 else 16 := by split_ifs <;> decide
    obtain ⟨text, htext⟩ := printUnsigned_prints hbase (c = 'X'.toUInt8) spec
    simp only [convert, if_neg hchar, if_neg hstring, if_neg hsigned, if_pos hunsigned]
    exact hplaced htext (by rcases hunsigned with h | h | h <;> rw [h] <;> decide)
  by_cases hpointer : c = 'p'.toUInt8
  · obtain ⟨text, htext⟩ := printPointer_prints spec
    simp only [convert, if_neg hchar, if_neg hstring, if_neg hsigned, if_neg hunsigned,
      if_pos hpointer]
    exact hplaced htext (by rw [hpointer]; decide)
  by_cases hpercent : c = '%'.toUInt8
  · simp only [convert, if_neg hchar, if_neg hstring, if_neg hsigned, if_neg hunsigned,
      if_neg hpointer, if_pos hpercent]
    refine ⟨['%'.toUInt8], spec.p, spec.args, fun σ append s => ?_,
      hplace (by rw [hpercent]; decide)⟩
    rw [putAll_singleton]
  · obtain ⟨text, htext⟩ := printLiteral_prints format specStart c spec
    simp only [convert, if_neg hchar, if_neg hstring, if_neg hsigned, if_neg hunsigned,
      if_neg hpointer, if_neg hpercent]
    refine ⟨text, _, _, htext, ?_⟩
    -- At the terminator the pointer stays in the specification, which has its `%`.
    split_ifs with hne
    · exact hplace hne
    · omega

/-- The loop goes through to the terminator and prints a text. -/
theorem printFrom_puts (strings : Strings) {fuel : Nat} (hp : p ≤ format.length)
    (hfuel : format.length - p < fuel) (args : VaList) :
    ∃ text, Puts (fun _ append s => printFrom append format strings fuel p args s) text := by
  induction fuel generalizing p args with
  | zero => omega
  | succ fuel ih =>
      simp only [printFrom, readFormat_eq hp, Option.bind_eq_bind, Option.bind_some]
      by_cases hend : format.getD p 0 = 0
      · simp only [if_pos hend]
        exact ⟨[], puts_nothing⟩
      · have hlt := lt_length hp hend
        simp only [if_neg hend]
        by_cases hplain : format.getD p 0 ≠ '%'.toUInt8
        · obtain ⟨text, htext⟩ := ih (p := p + 1) hlt (by omega) args
          simp only [if_pos hplain]
          exact ⟨_, (puts_one _).bind htext⟩
        · obtain ⟨spec, hscan, hle, hspec⟩ := scanSpec_spec (p := p + 1) hlt args
          obtain ⟨first, q, args', hfirst, hstart, hq⟩ := convert_prints strings hspec
            (show p < spec.p by omega)
          obtain ⟨text, htext⟩ := ih (p := q + 1) hq (by omega) args'
          simp only [if_neg hplain, hscan, readFormat_eq hspec, Option.bind_some]
          refine ⟨first ++ text, fun σ append s => ?_⟩
          have hconvert : convert append format strings p (format.getD spec.p 0) spec s = _ :=
            hfirst σ append s
          dsimp only
          rw [putAll_append, hconvert, Option.bind_map]
          exact Option.bind_congr fun next _ => htext σ append next

/-- A format prints the same text into every sink. -/
theorem print_puts (format : List UInt8) (strings : Strings) (args : VaList) :
    Puts (fun _ append => print append format strings args) (output format strings args) := by
  obtain ⟨text, htext⟩ := printFrom_puts strings (Nat.zero_le format.length)
    (show format.length - 0 < format.length + 1 by omega) args
  have houtput : output format strings args = text := by
    have hcollect : print collect format strings args [] = putAll collect text [] :=
      htext (List UInt8) collect []
    rw [output, hcollect, putAll_collect, Option.getD_some, List.nil_append]
  rw [houtput]
  exact htext

end Loop

/-! ## The bounded buffer -/

section Buffer

variable {size : UInt32} {text : List UInt8} {o : Output}

theorem toNat_succ {n : UInt32} (h : n.toNat + 1 < 2 ^ 32) : (n + 1).toNat = n.toNat + 1 := by
  rw [UInt32.toNat_add, UInt32.toNat_one, Nat.mod_eq_of_lt h]

theorem appendChar_spec (hstr : o.str.length = size.toNat) (hwritten : o.written.toNat + 1 < 2 ^ 32)
    (c : UInt8) : ∃ str, appendChar size c o = some ⟨str, o.written + 1⟩ ∧
      str.length = size.toNat ∧
      ∀ k, str[k]? = if k = o.written.toNat ∧ k + 1 < size.toNat then some c else o.str[k]? := by
  have hsucc := toNat_succ hwritten
  by_cases hroom : o.written + 1 < size
  · have hroom' := UInt32.lt_iff_toNat_lt.mp hroom
    rw [hsucc] at hroom'
    refine ⟨o.str.set o.written.toNat c, ?_, by rw [List.length_set, hstr], fun k => ?_⟩
    · rw [appendChar, if_pos hroom, store, if_pos (by omega)]
      rfl
    · by_cases hk : k = o.written.toNat
      · rw [hk, List.getElem?_set_self (by omega), if_pos ⟨rfl, hroom'⟩]
      · rw [List.getElem?_set_ne (Ne.symm hk), if_neg (fun h => hk h.1)]
  · have hroom' := hroom
    rw [UInt32.lt_iff_toNat_lt, hsucc] at hroom'
    refine ⟨o.str, by rw [appendChar, if_neg hroom], hstr, fun k => ?_⟩
    rw [if_neg (by omega)]

theorem putAll_appendChar (text : List UInt8) (o : Output) (hstr : o.str.length = size.toNat)
    (hwritten : o.written.toNat + text.length < 2 ^ 32) :
    ∃ o', putAll (appendChar size) text o = some o' ∧ o'.str.length = size.toNat ∧
      o'.written.toNat = o.written.toNat + text.length ∧
      ∀ k, o'.str[k]? =
        if o.written.toNat ≤ k ∧ k < o.written.toNat + text.length ∧ k + 1 < size.toNat then
          text[k - o.written.toNat]?
        else o.str[k]? := by
  induction text generalizing o with
  | nil =>
      refine ⟨o, rfl, hstr, rfl, fun k => ?_⟩
      rw [if_neg (by simp only [List.length_nil]; omega)]
  | cons c text ih =>
      rw [List.length_cons] at hwritten
      obtain ⟨str, happend, hlength, hvalues⟩ := appendChar_spec hstr (by omega) c
      have hsucc := toNat_succ (n := o.written) (by omega)
      obtain ⟨o', hputs, hlength', hcount, hvalues'⟩ :=
        ih (o := ⟨str, o.written + 1⟩) hlength (by rw [hsucc]; omega)
      rw [hsucc] at hcount
      refine ⟨o', by rw [putAll, happend, Option.bind_some, hputs], hlength', ?_, fun k => ?_⟩
      · rw [hcount, List.length_cons]
        omega
      · rw [hvalues' k, hvalues k, hsucc, List.length_cons]
        by_cases hfirst : k = o.written.toNat
        · rw [if_neg (by omega), hfirst, Nat.sub_self, List.getElem?_cons_zero]
          by_cases hroom : o.written.toNat + 1 < size.toNat
          · rw [if_pos ⟨rfl, hroom⟩, if_pos (by omega)]
          · rw [if_neg (by omega), if_neg (by omega)]
        · rw [if_neg (c := k = _ ∧ _) (by omega)]
          by_cases hin : o.written.toNat + 1 ≤ k ∧ k < o.written.toNat + 1 + text.length ∧
              k + 1 < size.toNat
          · rw [if_pos hin, if_pos (by omega), ← List.getElem?_cons_succ (a := c)]
            congr 1
            omega
          · rw [if_neg hin, if_neg (by omega)]

/-- Without a buffer characters are only counted. -/
theorem putAll_appendChar_zero (text : List UInt8) (o : Output) :
    putAll (appendChar 0) text o = some ⟨o.str, o.written + .ofNat text.length⟩ := by
  induction text generalizing o with
  | nil => simp [putAll]
  | cons c text ih =>
      have hroom : ¬o.written + 1 < (0 : UInt32) := by simp
      rw [putAll, appendChar, if_neg hroom, Option.bind_some, ih, List.length_cons,
        UInt32.ofNat_add, UInt32.add_assoc, UInt32.add_comm 1]
      rfl

/-- At the last number the count wraps, and the character is stored behind the buffer. -/
theorem putAll_appendChar_none (hstr : o.str.length = size.toNat) (hsize : size ≠ 0)
    (hwritten : o.written = 0) (htext : 2 ^ 32 ≤ text.length) :
    putAll (appendChar size) text o = none := by
  have hlength : (text.take (2 ^ 32 - 1)).length = 2 ^ 32 - 1 := by
    rw [List.length_take, Nat.min_eq_left (by omega)]
  have hzero : o.written.toNat = 0 := by rw [hwritten]; rfl
  obtain ⟨o', hputs, hstr', hcount, -⟩ :=
    putAll_appendChar (text.take (2 ^ 32 - 1)) o hstr (by rw [hlength, hzero]; omega)
  rw [hlength, hzero] at hcount
  have hlt : 2 ^ 32 - 1 < text.length := by omega
  rw [← List.take_append_drop (2 ^ 32 - 1) text, putAll_append, hputs, Option.bind_some,
    List.drop_eq_getElem_cons hlt, putAll, appendChar]
  have hwrap : o'.written + 1 = 0 := by
    rw [← UInt32.toNat_inj, UInt32.toNat_add, hcount]
    rfl
  have hpos : (0 : UInt32) < size := UInt32.pos_iff_ne_zero.mpr hsize
  have hbound := size.toNat_lt
  rw [if_pos (by rw [hwrap]; exact hpos), store, if_neg (by omega)]
  rfl

end Buffer

/-! ## `vsnprintf` -/

/-- `vsnprintf` goes through and stays in the buffer. It returns the length of everything the
format prints, stores the beginning of that, as far as the buffer has room, and ends it with
the terminator. -/
def PrintsBounded (str : List UInt8) (size : UInt32) (format : List UInt8) (strings : Strings)
    (args : VaList) : Prop :=
  let text := output format strings args
  let stored := min text.length (size.toNat - 1)
  ∃ str', vsnprintf str size format strings args = some (int32 text.length, str') ∧
    str'.length = size.toNat ∧ str'.take stored = text.take stored ∧
    (0 < size → str'[stored]? = some 0)

section Result

variable {str format : List UInt8} {size : UInt32} {strings : Strings} {args : VaList}

theorem vsnprintf_eq (str : List UInt8) (size : UInt32) (format : List UInt8) (strings : Strings)
    (args : VaList) : vsnprintf str size format strings args =
      (putAll (appendChar size) (output format strings args) ⟨str, 0⟩).bind fun o =>
        (if size > 0 then
          store (if o.written < size then o.written else size - 1).toNat 0 o.str
        else some o.str).map fun str => (int32 o.written.toNat, str) := by
  have hprint := print_puts format strings args Output (appendChar size) ⟨str, 0⟩
  dsimp only at hprint
  rw [vsnprintf, hprint]
  apply Option.bind_congr
  intro o _
  by_cases hsize : size > 0
  · simp only [if_pos hsize]
    cases store (if o.written < size then o.written else size - 1).toNat 0 o.str <;> rfl
  · simp only [if_neg hsize]
    rfl

theorem printsBounded_zero (hstr : str.length = 0) : PrintsBounded str 0 format strings args := by
  have hempty := List.length_eq_zero_iff.mp hstr
  refine ⟨str, ?_, hstr, ?_, fun h => absurd h (by decide)⟩
  · rw [vsnprintf_eq, putAll_appendChar_zero, Option.bind_some, if_neg (by decide),
      Option.map_some]
    dsimp only
    rw [UInt32.zero_add, UInt32.toNat_ofNat', int32, wrap_mod]
  · simp

theorem printsBounded_of_lt (hstr : str.length = size.toNat) (hsize : size ≠ 0)
    (hlength : (output format strings args).length < 2 ^ 32) :
    PrintsBounded str size format strings args := by
  have hpos : 0 < size := UInt32.pos_iff_ne_zero.mpr hsize
  have hpos' : 0 < size.toNat := UInt32.lt_iff_toNat_lt.mp hpos
  have hone : 1 ≤ size := UInt32.le_iff_toNat_le.mpr hpos'
  obtain ⟨o, hputs, hlen, hcount, hvalues⟩ :=
    putAll_appendChar (output format strings args) ⟨str, 0⟩ hstr
      (by rw [UInt32.toNat_zero]; omega)
  simp only [UInt32.toNat_zero, Nat.zero_add, Nat.zero_le, true_and, Nat.sub_zero] at hcount hvalues
  have hplace : (if o.written < size then o.written else size - 1).toNat =
      min (output format strings args).length (size.toNat - 1) := by
    split_ifs with hroom
    · rw [UInt32.lt_iff_toNat_lt] at hroom
      omega
    · rw [UInt32.lt_iff_toNat_lt] at hroom
      rw [UInt32.toNat_sub_of_le _ _ hone, UInt32.toNat_one]
      omega
  refine ⟨o.str.set (min (output format strings args).length (size.toNat - 1)) 0, ?_, ?_, ?_, ?_⟩
  · rw [vsnprintf_eq, hputs, Option.bind_some, if_pos hpos, hplace, store, if_pos (by omega),
      Option.map_some, hcount]
  · rw [List.length_set, hlen]
  · apply List.ext_getElem?
    intro k
    rw [List.getElem?_take, List.getElem?_take]
    split_ifs with hk
    · rw [List.getElem?_set_ne (by omega), hvalues k, if_pos (by omega)]
    · rfl
  · intro _
    rw [List.getElem?_set_self (by omega)]

theorem not_printsBounded (hstr : str.length = size.toNat) (hsize : size ≠ 0)
    (hlength : 2 ^ 32 ≤ (output format strings args).length) :
    ¬PrintsBounded str size format strings args := by
  intro ⟨str', hprints, _⟩
  rw [vsnprintf_eq, putAll_appendChar_none hstr hsize rfl hlength] at hprints
  cases hprints

/-- `vsnprintf` keeps to its buffer exactly when it can count what it prints. -/
theorem vsnprintf_printsBounded_iff (format : List UInt8) (strings : Strings) (args : VaList)
    (hstr : str.length = size.toNat) :
    PrintsBounded str size format strings args ↔
      size = 0 ∨ (output format strings args).length < 2 ^ 32 := by
  constructor
  · intro hprints
    by_contra hlong
    rw [not_or] at hlong
    exact not_printsBounded hstr hlong.1 (Nat.le_of_not_lt hlong.2) hprints
  · rintro (rfl | hlength)
    · exact printsBounded_zero hstr
    · by_cases hsize : size = 0
      · subst hsize
        exact printsBounded_zero hstr
      · exact printsBounded_of_lt hstr hsize hlength

end Result

/-- Strings that are all empty. -/
def Strings.empty : Strings := ⟨fun _ => [], fun _ => by decide⟩

/-- Arguments: a width and a letter, again and again. -/
def VaList.wide : VaList := ⟨fun i => if i % 2 = 0 then 2147483647 else 97, 0⟩

theorem printFrom_letter {format : List UInt8} {p fuel : Nat} {args : VaList} {width : Int}
    {σ : Type} (append : UInt8 → σ → Option σ) (strings : Strings) (s : σ)
    (hp : p + 2 < format.length) (hpercent : format.getD p 0 = '%'.toUInt8)
    (hstar : format.getD (p + 1) 0 = '*'.toUInt8) (hletter : format.getD (p + 2) 0 = 'c'.toUInt8)
    (hargs : args.int0 = width) (hwidth : 1 < width) :
    printFrom append format strings (fuel + 1) p args s =
      (putAll append (List.replicate (width - 1).toNat ' '.toUInt8 ++
        [(args.take 1).word0.toUInt8]) s).bind
        (printFrom append format strings fuel (p + 3) (args.take 2)) := by
  have hflags : scanFlags format (format.length + 1) (p + 1) ⟨false, false⟩ =
      some (p + 1, ⟨false, false⟩) := by
    rw [scanFlags, readFormat_eq (by omega), Option.bind_eq_bind, Option.bind_some, hstar,
      if_neg (by decide), if_neg (by decide), Option.pure_def]
  have hfield : starWidth ⟨false, false⟩ width = (⟨false, false⟩, width) := by
    rw [starWidth, if_neg (by omega)]
  have hwidthScan : scanWidth format (p + 1) ⟨false, false⟩ args =
      some (p + 2, ⟨false, false⟩, width, args.take 1) := by
    rw [scanWidth, readFormat_eq (by omega), Option.bind_eq_bind, Option.bind_some, hstar,
      if_pos rfl, hargs]
    simp only [hfield, Option.pure_def]
  have hprecision : scanPrecision format (p + 2) (args.take 1) =
      some (p + 2, -1, args.take 1) := by
    rw [scanPrecision, readFormat_eq (by omega), Option.bind_eq_bind, Option.bind_some, hletter,
      if_neg (by decide), Option.pure_def]
  have hlen : scanLength format (p + 2) = some (p + 2, .none) := by
    rw [scanLength, readFormat_eq (by omega), Option.bind_eq_bind, Option.bind_some, hletter,
      if_neg (by decide), if_neg (by decide), if_neg (by decide), Option.pure_def]
  have hscan : scanSpec format (p + 1) args =
      some ⟨⟨false, false⟩, width, -1, .none, p + 2, args.take 1⟩ := by
    simp only [scanSpec, hflags, hwidthScan, hprecision, hlen, Option.bind_eq_bind,
      Option.bind_some, Option.pure_def]
  have hread : readFormat format (p + 2) = some 'c'.toUInt8 := by
    rw [readFormat_eq (by omega), hletter]
  have hpadded := printPadded_puts ⟨false, false⟩ (width - 1)
    [(args.take 1).word0.toUInt8] σ append s
  simp only [Bool.not_false, if_true, Bool.false_eq_true, if_false, List.append_nil] at hpadded
  rw [printFrom, readFormat_eq (by omega), Option.bind_eq_bind, Option.bind_some, hpercent,
    if_neg (by decide), if_neg (by decide), hscan]
  simp only [Option.bind_eq_bind, Option.bind_some, hread, convert, if_pos, printChar,
    if_pos hwidth, hpadded, andPlace, Option.pure_def, Option.map_bind, Option.bind_assoc]
  apply Option.bind_congr
  intro next _
  simp only [Function.comp_apply, Option.map_some, Option.bind_some, VaList.take, Nat.add_assoc,
    Nat.reduceAdd]

/-- The format `%*c%*c%*c`. -/
def wideFormat : List UInt8 :=
  ['%', '*', 'c', '%', '*', 'c', '%', '*', 'c'].map Char.toUInt8

theorem VaList.wide_int0 (n : Nat) : (VaList.wide.take (2 * n)).int0 = 2147483647 := by
  have hword : (VaList.wide.take (2 * n)).word0 =
      if (0 + 2 * n) % 2 = 0 then 2147483647 else 97 := rfl
  rw [int0, hword, if_pos (by omega)]
  decide

/-- A letter in a field that is as wide as an `int` can say. -/
def wideLetter : List UInt8 :=
  List.replicate ((2147483647 : Int) - 1).toNat ' '.toUInt8 ++ ['a'.toUInt8]

theorem wideLetter_length : wideLetter.length = 2147483647 := by
  rw [wideLetter, List.length_append, List.length_replicate, List.length_singleton]
  decide

theorem printFrom_wide (p n fuel : Nat) (hp : p + 2 < wideFormat.length)
    (hpercent : wideFormat.getD p 0 = '%'.toUInt8) (hstar : wideFormat.getD (p + 1) 0 = '*'.toUInt8)
    (hletter : wideFormat.getD (p + 2) 0 = 'c'.toUInt8) (text : List UInt8) :
    printFrom collect wideFormat .empty (fuel + 1) p (VaList.wide.take (2 * n)) text =
      printFrom collect wideFormat .empty fuel (p + 3) (VaList.wide.take (2 * (n + 1)))
        (text ++ wideLetter) := by
  have hword : ((VaList.wide.take (2 * n)).take 1).word0 =
      if (0 + 2 * n + 1) % 2 = 0 then 2147483647 else 97 := rfl
  rw [printFrom_letter collect .empty text hp hpercent hstar hletter (VaList.wide_int0 n)
    (by decide), putAll_collect, Option.bind_some, hword, if_neg (by omega)]
  rfl

/-- Each of three letters is printed in such a field. -/
theorem output_wide_length : (output wideFormat .empty .wide).length = 3 * 2147483647 := by
  have hprint : print collect wideFormat .empty .wide [] =
      some (wideLetter ++ wideLetter ++ wideLetter) := by
    have hfirst := printFrom_wide 0 0 9 (by decide) (by decide) (by decide)
      (by decide) []
    have hsecond := printFrom_wide 3 1 8 (by decide) (by decide)
      (by decide) (by decide) ([] ++ wideLetter)
    have hthird := printFrom_wide 6 2 7 (by decide) (by decide)
      (by decide) (by decide) ([] ++ wideLetter ++ wideLetter)
    rw [print]
    refine hfirst.trans (hsecond.trans (hthird.trans ?_))
    rw [printFrom, readFormat_eq (by decide), Option.bind_eq_bind, Option.bind_some,
      if_pos (by decide), List.nil_append]
  rw [output, hprint, Option.getD_some, List.length_append, List.length_append, wideLetter_length]

/-- The count wraps, and a character is stored behind the buffer. -/
theorem vsnprintf_wraps : ¬PrintsBounded [0] 1 wideFormat .empty .wide := by
  apply not_printsBounded rfl (by decide)
  rw [output_wide_length]
  decide

theorem vsnprintf_printsBounded_iff_two :
    [1, 2].length = (2 : UInt32).toNat ∧
      (PrintsBounded [1, 2] 2 ['a'.toUInt8, 'b'.toUInt8] .empty .wide ↔
        (2 : UInt32) = 0 ∨ (output ['a'.toUInt8, 'b'.toUInt8] .empty .wide).length < 2 ^ 32) :=
  ⟨rfl, vsnprintf_printsBounded_iff _ _ _ rfl⟩

end AvrKernel.Util

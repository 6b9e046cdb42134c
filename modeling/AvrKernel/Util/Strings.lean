import AvrKernel.Lib.Bytes
import Mathlib.Data.List.Basic
import Mathlib.Data.List.TakeWhile
import Mathlib.Tactic.Common

/-!
# Strings in buffers

`string.c`: copying and appending strings in buffers of a fixed size. An access
outside of the buffer it is made to is a fault, and nothing comes of it.
-/

namespace AvrKernel.Util

/-- A string that a pointer leads to, without its terminator. -/
structure CString where
  chars : List UInt8
  nonzero : ∀ c ∈ chars, c ≠ 0

/-- The memory that the pointer leads to, as far as it may be read. -/
def CString.memory (s : CString) : List UInt8 := s.chars ++ [0]

variable {size : Nat}

/-- Write one character, at a position inside of the buffer. -/
def store (dest : Vector UInt8 size) (ptr : Nat) (c : UInt8) : Option (Vector UInt8 size) :=
  if h : ptr < size then some (dest.set ptr c) else none

/-- The loop of `strncpy` and of `strncat`: copy up to `n` characters from `src` on, until
its end. The result is the position behind the last character that was written. -/
def copyChars : Nat → List UInt8 → Nat → Vector UInt8 size → Option (Nat × Vector UInt8 size)
  | 0, _, ptr, dest => some (ptr, dest)
  | _ + 1, [], _, _ => none
  | n + 1, c :: src, ptr, dest =>
      if c = 0 then some (ptr, dest)
      else do
        let dest ← store dest ptr c
        copyChars n src (ptr + 1) dest

/-- Pad `n` characters of a buffer with null bytes. -/
def padChars : Nat → Nat → Vector UInt8 size → Option (Vector UInt8 size)
  | 0, _, dest => some dest
  | n + 1, i, dest => do
      let dest ← store dest i 0
      padChars n (i + 1) dest

def strncpy (dest : Vector UInt8 size) (src : List UInt8) (n : Nat) :
    Option (Vector UInt8 size) := do
  let (i, dest) ← copyChars n src 0 dest
  padChars (n - i) i dest

def strlen : List UInt8 → Option Nat
  | [] => none
  | c :: str => if c = 0 then some 0 else (strlen str).map (· + 1)

def strncat (dest : Vector UInt8 size) (src : List UInt8) (n : Nat) :
    Option (Vector UInt8 size) := do
  let ptr ← strlen dest.toList
  let (ptr, dest) ← copyChars n src ptr dest
  store dest ptr 0

def strncmp : Nat → List UInt8 → List UInt8 → Option Int
  | 0, _, _ => some 0
  | n + 1, c :: str, d :: other =>
      if c ≠ 0 ∧ c = d then strncmp n str other else some (c.toNat - d.toNat)
  | _ + 1, _, _ => none

/-- The number of characters in front of the terminator, at most `maxlen`. -/
def strnlen : Nat → List UInt8 → Option Nat
  | 0, _ => some 0
  | _ + 1, [] => none
  | maxlen + 1, c :: str => if c = 0 then some 0 else (strnlen maxlen str).map (· + 1)

/-- Write bytes from `off` on. -/
def poke (dest : Vector UInt8 size) (off : Nat) (bytes : List UInt8) :
    Option (Vector UInt8 size) :=
  if h : off + bytes.length ≤ size then
    some ⟨(Bytes.patch dest.toList off bytes).toArray, by
      rw [List.size_toArray, Bytes.patch_length (by rwa [dest.length_toList]), dest.length_toList]⟩
  else none

/-- `memcpy` of `n` bytes to position `off` of a buffer. -/
def memcpy (dest : Vector UInt8 size) (off : Nat) (src : List UInt8) (n : Nat) :
    Option (Vector UInt8 size) :=
  if n ≤ src.length then poke dest off (src.take n) else none

/-- `memmove` of `n` bytes from position `src` of a buffer to position `off`. -/
def memmove (buffer : Vector UInt8 size) (off src n : Nat) : Option (Vector UInt8 size) :=
  memcpy buffer off (buffer.toList.drop src) n

/-- The string at the beginning of a buffer. -/
def cstring (buffer : Vector UInt8 size) : List UInt8 := buffer.toList.takeWhile (· ≠ 0)

variable {dest dest' : Vector UInt8 size} {pre mid post str rest : List UInt8} {c : UInt8} {n : Nat}

theorem store_of_le {ptr : Nat} (h : size ≤ ptr) : store dest ptr c = none :=
  dif_neg (Nat.not_lt.mpr h)

/-- A write inside of the buffer changes the one character. -/
theorem store_eq {old : UInt8} (hdest : dest.toList = pre ++ old :: post) :
    ∃ dest', store dest pre.length c = some dest' ∧ dest'.toList = pre ++ c :: post := by
  have hlength : pre.length < size := by
    rw [← dest.length_toList, hdest]
    simp
  refine ⟨dest.set pre.length c, dif_pos hlength, ?_⟩
  rw [Vector.toList_set, hdest]
  simp

/-! ## Copying -/

/-- The characters that are copied take the place of as many others. -/
theorem copyChars_eq (rest : List UInt8) (hstr : ∀ c ∈ str, c ≠ 0)
    (hdest : dest.toList = pre ++ mid ++ post)
    (hmid : mid.length = (str.take n).length) :
    ∃ dest', copyChars n (str ++ 0 :: rest) pre.length dest =
        some (pre.length + (str.take n).length, dest') ∧
      dest'.toList = pre ++ str.take n ++ post := by
  induction str generalizing n pre mid dest with
  | nil =>
      have hempty : mid = [] := by simpa using hmid
      subst hempty
      cases n with
      | zero => exact ⟨dest, by simp [copyChars], by simpa using hdest⟩
      | succ n => exact ⟨dest, by simp [copyChars], by simpa using hdest⟩
  | cons c str ih =>
      cases n with
      | zero =>
          have hempty : mid = [] := by simpa using hmid
          subst hempty
          exact ⟨dest, by simp [copyChars], by simpa using hdest⟩
      | succ n =>
          cases mid with
          | nil => simp at hmid
          | cons old mid =>
              have hold : dest.toList = pre ++ old :: (mid ++ post) := by simpa using hdest
              obtain ⟨dest₁, hstore, hdest₁⟩ := store_eq (c := c) hold
              have hnew : dest₁.toList = pre ++ [c] ++ mid ++ post := by simpa using hdest₁
              obtain ⟨dest₂, hcopy, hdest₂⟩ := ih (n := n)
                (fun d hd => hstr d (List.mem_cons_of_mem _ hd)) hnew (by simpa using hmid)
              have hc : c ≠ 0 := hstr c List.mem_cons_self
              refine ⟨dest₂, ?_, by simpa using hdest₂⟩
              rw [List.length_append, List.length_singleton] at hcopy
              simp only [List.cons_append, copyChars, if_neg hc, hstore, Option.bind_eq_bind,
                Option.bind_some, hcopy, List.take_succ_cons, List.length_cons]
              congr 2
              omega

/-- Too many characters for what is left of the buffer. -/
theorem copyChars_eq_none {ptr : Nat} (hstr : ∀ c ∈ str, c ≠ 0)
    (hroom : size < ptr + (str.take n).length) (hptr : ptr ≤ size) :
    copyChars n (str ++ 0 :: rest) ptr dest = none := by
  induction str generalizing n ptr dest with
  | nil =>
      rw [List.take_nil, List.length_nil] at hroom
      omega
  | cons c str ih =>
      cases n with
      | zero =>
          rw [List.take_zero, List.length_nil] at hroom
          omega
      | succ n =>
          have hc : c ≠ 0 := hstr c List.mem_cons_self
          rw [List.cons_append, copyChars, if_neg hc]
          cases hstore : store dest ptr c with
          | none => rfl
          | some dest' =>
              have hlt : ptr < size := by
                by_contra hle
                rw [store_of_le (Nat.not_lt.mp hle)] at hstore
                cases hstore
              rw [List.take_succ_cons, List.length_cons] at hroom
              exact ih (fun d hd => hstr d (List.mem_cons_of_mem _ hd)) (by omega) hlt

theorem padChars_eq (hdest : dest.toList = pre ++ mid ++ post) :
    ∃ dest', padChars mid.length pre.length dest = some dest' ∧
      dest'.toList = pre ++ List.replicate mid.length 0 ++ post := by
  induction mid generalizing pre dest with
  | nil => exact ⟨dest, rfl, hdest⟩
  | cons old mid ih =>
      have hold : dest.toList = pre ++ old :: (mid ++ post) := by simpa using hdest
      obtain ⟨dest₁, hstore, hdest₁⟩ := store_eq (c := 0) hold
      have hnew : dest₁.toList = pre ++ [0] ++ mid ++ post := by simpa using hdest₁
      obtain ⟨dest₂, hpad, hdest₂⟩ := ih hnew
      rw [List.length_append, List.length_singleton] at hpad
      refine ⟨dest₂, ?_, ?_⟩
      · simp only [List.length_cons, padChars, hstore, Option.bind_eq_bind, Option.bind_some, hpad]
      · rw [hdest₂, List.length_cons, List.replicate_succ]
        simp

/-- The first `n` bytes of a buffer filled by `strncpy`: the string, cut to them, and null
bytes. -/
theorem strncpy_within (dest : Vector UInt8 size) (rest : List UInt8) (hstr : ∀ c ∈ str, c ≠ 0)
    (hn : n ≤ size) :
    ∃ dest', strncpy dest (str ++ 0 :: rest) n = some dest' ∧
      dest'.toList = str.take n ++ List.replicate (n - (str.take n).length) 0 ++
        dest.toList.drop n := by
  have hsize : dest.toList.length = size := dest.length_toList
  have hle : (str.take n).length ≤ n := List.length_take_le n str
  have hcut : dest.toList = [] ++ dest.toList.take (str.take n).length ++
      dest.toList.drop (str.take n).length := by simp
  obtain ⟨dest₁, hcopy, hdest₁⟩ := copyChars_eq (n := n) rest hstr hcut
    (List.length_take_of_le (by omega))
  have hsplit : dest.toList.drop (str.take n).length =
      (dest.toList.drop (str.take n).length).take (n - (str.take n).length) ++
        dest.toList.drop n := by
    conv_lhs => rw [← List.take_append_drop (n - (str.take n).length)
      (dest.toList.drop (str.take n).length), List.drop_drop, Nat.add_sub_cancel' hle]
  have hback : dest₁.toList = str.take n ++
      (dest.toList.drop (str.take n).length).take (n - (str.take n).length) ++
        dest.toList.drop n := by
    rw [hdest₁, List.nil_append, List.append_assoc, ← hsplit]
  obtain ⟨dest₂, hpad, hdest₂⟩ := padChars_eq hback
  rw [List.length_take, List.length_drop, hsize, Nat.min_eq_left (by omega)] at hpad hdest₂
  rw [List.length_nil, Nat.zero_add] at hcopy
  refine ⟨dest₂, ?_, hdest₂⟩
  simp only [strncpy, hcopy, Option.bind_eq_bind, Option.bind_some, hpad]

/-- A buffer filled by `strncpy`: the string, cut to the size of the buffer, and null bytes. -/
theorem strncpy_eq (dest : Vector UInt8 size) (rest : List UInt8) (hstr : ∀ c ∈ str, c ≠ 0) :
    ∃ dest', strncpy dest (str ++ 0 :: rest) size = some dest' ∧
      dest'.toList = str.take size ++ List.replicate (size - (str.take size).length) 0 := by
  obtain ⟨dest', hcopy, hdest⟩ := strncpy_within dest rest hstr (Nat.le_refl size)
  refine ⟨dest', hcopy, ?_⟩
  rw [hdest, List.drop_of_length_le (Nat.le_of_eq dest.length_toList), List.append_nil]

/-! ## Appending -/

theorem strlen_eq (hstr : ∀ c ∈ str, c ≠ 0) : strlen (str ++ 0 :: rest) = some str.length := by
  induction str with
  | nil => simp [strlen]
  | cons c str ih =>
      have hc : c ≠ 0 := hstr c List.mem_cons_self
      rw [List.cons_append, strlen, if_neg hc, ih fun d hd => hstr d (List.mem_cons_of_mem _ hd)]
      rfl

/-- What is appended, and its terminator, have room behind the string. -/
theorem strncat_eq {src : List UInt8} (srcRest : List UInt8) (hstr : ∀ c ∈ str, c ≠ 0)
    (hsrc : ∀ c ∈ src, c ≠ 0) (hdest : dest.toList = str ++ 0 :: rest)
    (hroom : str.length + (src.take n).length < size) :
    ∃ dest', strncat dest (src ++ 0 :: srcRest) n = some dest' ∧
      dest'.toList = str ++ src.take n ++ 0 :: rest.drop (src.take n).length := by
  have hsize : str.length + (rest.length + 1) = size := by
    rw [← dest.length_toList, hdest]
    simp
  have hlength : (src.take n).length ≤ (0 :: rest).length := by
    rw [List.length_cons]
    omega
  have hcut : dest.toList = str ++ (0 :: rest).take (src.take n).length ++
      (0 :: rest).drop (src.take n).length := by
    rw [hdest, List.append_assoc, List.take_append_drop]
  obtain ⟨dest₁, hcopy, hdest₁⟩ := copyChars_eq (n := n) srcRest hsrc hcut
    (List.length_take_of_le hlength)
  have hdrop : ∃ old, (0 :: rest).drop (src.take n).length =
      old :: rest.drop (src.take n).length := by
    rw [List.length_cons] at hlength
    exact ⟨_, by rw [List.drop_eq_getElem_cons (by rw [List.length_cons]; omega),
      List.drop_succ_cons]⟩
  obtain ⟨old, hold⟩ := hdrop
  rw [hold] at hdest₁
  obtain ⟨dest₂, hstore, hdest₂⟩ := store_eq (c := 0) hdest₁
  rw [List.length_append] at hstore
  refine ⟨dest₂, ?_, hdest₂⟩
  simp only [strncat, hdest, strlen_eq hstr, hcopy, hstore, Option.bind_eq_bind, Option.bind_some]

/-- Without that room the appending leaves the buffer. -/
theorem strncat_eq_none {src : List UInt8} (srcRest : List UInt8) (hstr : ∀ c ∈ str, c ≠ 0)
    (hsrc : ∀ c ∈ src, c ≠ 0) (hdest : dest.toList = str ++ 0 :: rest)
    (hroom : size ≤ str.length + (src.take n).length) :
    strncat dest (src ++ 0 :: srcRest) n = none := by
  have hsize : str.length + (rest.length + 1) = size := by
    rw [← dest.length_toList, hdest]
    simp
  simp only [strncat, hdest, strlen_eq hstr, Option.bind_eq_bind, Option.bind_some]
  rcases Nat.lt_or_eq_of_le hroom with hover | hfull
  · rw [copyChars_eq_none hsrc hover (by omega)]
    rfl
  · -- the string fills the buffer, and the terminator falls behind it
    cases hcopy : copyChars n (src ++ 0 :: srcRest) str.length dest with
    | none => rfl
    | some copied =>
        have hcut : dest.toList = str ++ 0 :: rest ++ [] := by simpa using hdest
        obtain ⟨dest₁, hcopy₁, -⟩ := copyChars_eq (n := n) srcRest hsrc hcut
          (by rw [List.length_cons]; omega)
        rw [hcopy₁] at hcopy
        cases hcopy
        exact store_of_le hroom

theorem strnlen_eq (hstr : ∀ c ∈ str, c ≠ 0) (n : Nat) :
    strnlen n (str ++ 0 :: rest) = some (min n str.length) := by
  induction str generalizing n with
  | nil => cases n <;> simp [strnlen]
  | cons c str ih =>
      have hc : c ≠ 0 := hstr c List.mem_cons_self
      cases n with
      | zero => simp [strnlen]
      | succ n =>
          rw [List.cons_append, strnlen, if_neg hc,
            ih (fun d hd => hstr d (List.mem_cons_of_mem _ hd)) n]
          simp

/-! ## Comparing -/

/-- Strings compare equal when they are, if the first one ends within the limit. -/
theorem strncmp_eq_zero_iff {other : List UInt8} (rest rest' : List UInt8)
    (hstr : ∀ c ∈ str, c ≠ 0) (hother : ∀ c ∈ other, c ≠ 0) (hn : str.length < n) :
    strncmp n (str ++ 0 :: rest) (other ++ 0 :: rest') = some 0 ↔ str = other := by
  have hdiff : ∀ {c d : UInt8}, c ≠ d → (c.toNat - d.toNat : Int) ≠ 0 := by
    intro c d hne hzero
    exact hne (UInt8.toNat_inj.mp (by omega))
  induction str generalizing n other with
  | nil =>
      obtain ⟨n, rfl⟩ := Nat.exists_eq_succ_of_ne_zero (Nat.ne_of_gt hn)
      cases other with
      | nil => simp [strncmp]
      | cons d other =>
          have hd : (0 : UInt8) ≠ d := (hother d List.mem_cons_self).symm
          simp only [List.nil_append, List.cons_append, strncmp, ne_eq, not_true_eq_false,
            false_and, if_false, Option.some.injEq, hdiff hd, reduceCtorEq]
  | cons c str ih =>
      obtain ⟨n, rfl⟩ := Nat.exists_eq_succ_of_ne_zero (Nat.ne_zero_of_lt hn)
      have hc : c ≠ 0 := hstr c List.mem_cons_self
      have hlt : str.length < n := by
        rw [List.length_cons] at hn
        omega
      cases other with
      | nil =>
          simp only [List.nil_append, List.cons_append, strncmp, hc, ne_eq, not_false_eq_true,
            true_and, if_false, Option.some.injEq, hdiff hc, reduceCtorEq]
      | cons d other =>
          rw [List.cons_append, List.cons_append, strncmp]
          by_cases hcd : c = d
          · have htail : strncmp n (str ++ 0 :: rest) (other ++ 0 :: rest') = some 0 ↔
                str = other :=
              ih (fun x hx => hstr x (List.mem_cons_of_mem _ hx))
                (fun x hx => hother x (List.mem_cons_of_mem _ hx)) hlt
            rw [if_pos ⟨hc, hcd⟩, htail, hcd, List.cons.injEq]
            simp
          · rw [if_neg (fun h => hcd h.2), Option.some.injEq, List.cons.injEq]
            simp [hcd, hdiff hcd]

/-! ## Writing segments -/

theorem poke_eq (bytes : List UInt8) (hdest : dest.toList = pre ++ mid ++ post)
    (hlength : bytes.length = mid.length) :
    ∃ dest', poke dest pre.length bytes = some dest' ∧ dest'.toList = pre ++ bytes ++ post := by
  have hsize : pre.length + bytes.length ≤ size := by
    rw [← dest.length_toList, hdest, List.length_append, List.length_append]
    omega
  refine ⟨_, dif_pos hsize, ?_⟩
  rw [Vector.toList_mk, List.toList_toArray, hdest, Bytes.patch_append_middle _ _ _ _ hlength]

theorem cstring_eq (hstr : ∀ c ∈ str, c ≠ 0) (hdest : dest.toList = str ++ 0 :: rest) :
    cstring dest = str := by
  rw [cstring, hdest, List.takeWhile_append_of_pos (by simpa using hstr)]
  simp

end AvrKernel.Util

import AvrKernel.Lib.Blocks
import AvrKernel.Lib.Trace
import AvrKernel.Util.Strings
import AvrKernel.Util.Tok

/-!
# The tokenizers in memory

`cstr_tok_next` of `tok.c` and `strtok` of `string.c` as they work on memory: both cut the
string in place and keep a pointer to what is left of it. Pointers are positions in memory,
`none` is `NULL`, and a read or a write outside of memory is a fault.
-/

namespace AvrKernel.Util.InPlace

/-- `is_delimiter`, the same in both files. -/
def isDelimiter (c : UInt8) : List UInt8 → Option Bool
  | [] => none
  | d :: delim =>
      if d = 0 then some false
      else if c = d then some true
      else isDelimiter c delim

/-- `while (*str && is_delimiter(*str, delim) == found) str++`. -/
def scan (found : Bool) (delim : List UInt8) : List UInt8 → Nat → Option Nat
  | [], _ => none
  | c :: mem, str =>
      if c = 0 then some str
      else (isDelimiter c delim).bind fun isDelim =>
        if isDelim = found then scan found delim mem (str + 1) else some str

/-- `cstr_tok_t`. -/
structure CstrTok where
  nextToken : Option Nat
  delim : List UInt8

def cstrTokInit (str : Nat) (delim : List UInt8) : CstrTok := { nextToken := some str, delim }

/-- What `cstr_tok_next` returns, with memory and the tokenizer after it. -/
def cstrTokNext (mem : List UInt8) (tokenizer : CstrTok) :
    Option (Option Nat × List UInt8 × CstrTok) :=
  match tokenizer.nextToken with
  | none => some (none, mem, tokenizer)
  | some str => do
      let tokenStart ← scan true tokenizer.delim (mem.drop str) str
      if (← mem[tokenStart]?) = 0 then some (none, mem, { tokenizer with nextToken := none })
      else do
        let str ← scan false tokenizer.delim (mem.drop tokenStart) tokenStart
        if (← mem[str]?) ≠ 0 then do
          let mem ← Blocks.store str 0 mem
          some (some tokenStart, mem, { tokenizer with nextToken := some (str + 1) })
        else some (some tokenStart, mem, { tokenizer with nextToken := none })

/-- What `strtok` returns, with memory and `last_token` after it. -/
def strtok (str : Option Nat) (delim : List UInt8) (mem : List UInt8) (lastToken : Option Nat) :
    Option (Option Nat × List UInt8 × Option Nat) :=
  match str.or lastToken with
  | none => some (none, mem, none)
  | some lastToken => do
      let tokenStart ← scan true delim (mem.drop lastToken) lastToken
      if (← mem[tokenStart]?) = 0 then some (none, mem, none)
      else do
        let lastToken ← scan false delim (mem.drop tokenStart) tokenStart
        if (← mem[lastToken]?) ≠ 0 then do
          let mem ← Blocks.store lastToken 0 mem
          some (some tokenStart, mem, some (lastToken + 1))
        else some (some tokenStart, mem, none)

/-- The string that a pointer leads to. -/
def textAt (mem : List UInt8) (str : Nat) : List UInt8 := (mem.drop str).takeWhile (· ≠ 0)

/-- A call of `cstr_tok_next`, with the text of the token when it returns. -/
def nextText (s : List UInt8 × CstrTok) (_ : Unit) :
    Option (Option (List UInt8) × List UInt8 × CstrTok) :=
  (cstrTokNext s.1 s.2).map fun answer => (answer.1.map (textAt answer.2.1), answer.2)

/-- A call of `strtok`, with the text of the token when it returns. -/
def strtokText (delim : List UInt8) (s : List UInt8 × Option Nat) (str : Option Nat) :
    Option (Option (List UInt8) × List UInt8 × Option Nat) :=
  (strtok str delim s.1 s.2).map fun answer => (answer.1.map (textAt answer.2.1), answer.2)

variable {delim : CString} {pre str rest tail mem : List UInt8} {found : Bool} {c : UInt8}

/-! ## Scanning -/

theorem isDelimiter_eq (chars : List UInt8) (hchars : ∀ d ∈ chars, d ≠ 0) (c : UInt8) :
    isDelimiter c (chars ++ 0 :: tail) = some (Util.isDelimiter chars c) := by
  induction chars with
  | nil => simp [isDelimiter, Util.isDelimiter]
  | cons d chars ih =>
      have hd : d ≠ 0 := hchars d List.mem_cons_self
      rw [List.cons_append, isDelimiter, if_neg hd,
        ih fun e he => hchars e (List.mem_cons_of_mem _ he)]
      by_cases heq : c = d
      · simp [heq, Util.isDelimiter]
      · simp [heq, Util.isDelimiter]

/-- A scan stops at the end of the string or at the first character of the other kind. -/
theorem scan_eq (hstr : ∀ x ∈ str, x ≠ 0 ∧ Util.isDelimiter delim.chars x = found)
    (hc : c = 0 ∨ Util.isDelimiter delim.chars c ≠ found) (ptr : Nat) :
    scan found (delim.memory ++ tail) (str ++ c :: rest) ptr = some (ptr + str.length) := by
  have hdelim : ∀ x, isDelimiter x (delim.memory ++ tail) =
      some (Util.isDelimiter delim.chars x) := by
    intro x
    rw [CString.memory, List.append_assoc]
    exact isDelimiter_eq delim.chars delim.nonzero x
  induction str generalizing ptr with
  | nil =>
      rw [List.nil_append, scan, hdelim, Option.bind_some]
      split
      next => rfl
      next hne =>
        rw [if_neg (hc.resolve_left hne)]
        rfl
  | cons x str ih =>
      obtain ⟨hne, hx⟩ := hstr x List.mem_cons_self
      rw [List.cons_append, scan, if_neg hne, hdelim, Option.bind_some, if_pos hx,
        ih fun y hy => hstr y (List.mem_cons_of_mem _ hy)]
      rw [List.length_cons]
      congr 1
      omega

/-- `strtok` does what `cstr_tok_next` does, with its own pointer or the one it has kept. -/
theorem strtok_eq (str : Option Nat) (delim mem : List UInt8) (lastToken : Option Nat) :
    strtok str delim mem lastToken =
      (cstrTokNext mem { nextToken := str.or lastToken, delim }).map fun answer =>
        (answer.1, answer.2.1, answer.2.2.nextToken) := by
  cases hptr : str.or lastToken with
  | none => simp [strtok, cstrTokNext, hptr]
  | some ptr =>
      simp only [strtok, cstrTokNext, hptr]
      cases scan true delim (mem.drop ptr) ptr with
      | none => rfl
      | some tokenStart =>
          simp only [Option.bind_eq_bind, Option.bind_some]
          cases mem[tokenStart]? with
          | none => rfl
          | some first =>
              simp only [Option.bind_some]
              split
              next => rfl
              next =>
                cases scan false delim (mem.drop tokenStart) tokenStart with
                | none => rfl
                | some stop =>
                    simp only [Option.bind_some]
                    cases mem[stop]? with
                    | none => rfl
                    | some last =>
                        simp only [Option.bind_some]
                        split
                        next => cases Blocks.store stop 0 mem <;> rfl
                        next => rfl

/-! ## One call -/

/-- What is left of the string lies where the pointer leads. -/
def Left (mem : List UInt8) : Option Nat → Option (List UInt8) → Prop
  | none, none => True
  | some ptr, some str => (∀ c ∈ str, c ≠ 0) ∧
      ∃ pre rest, mem = pre ++ (str ++ 0 :: rest) ∧ pre.length = ptr
  | _, _ => False

theorem textAt_eq (hstr : ∀ c ∈ str, c ≠ 0) :
    textAt (pre ++ (str ++ 0 :: rest)) pre.length = str := by
  rw [textAt, List.drop_left, List.takeWhile_append_of_pos (by simpa using hstr)]
  simp

theorem scan_at (pre : List UInt8) (c : UInt8) (rest tail : List UInt8)
    (hstr : ∀ x ∈ str, x ≠ 0 ∧ Util.isDelimiter delim.chars x = found)
    (hc : c = 0 ∨ Util.isDelimiter delim.chars c ≠ found) :
    scan found (delim.memory ++ tail) ((pre ++ (str ++ c :: rest)).drop pre.length) pre.length =
      some (pre ++ str).length := by
  rw [List.drop_left, scan_eq hstr hc, List.length_append]

theorem read_at (pre str : List UInt8) (c : UInt8) (rest : List UInt8) :
    (pre ++ (str ++ c :: rest))[(pre ++ str).length]? = some c := by
  rw [← List.append_assoc, List.getElem?_append_right (Nat.le_refl _), Nat.sub_self,
    List.getElem?_cons_zero]

theorem store_at (pre str : List UInt8) (c : UInt8) (rest : List UInt8) :
    Blocks.store (pre ++ str).length 0 (pre ++ (str ++ c :: rest)) =
    some (pre ++ (str ++ 0 :: rest)) := by
  rw [← List.append_assoc, Blocks.store, if_pos (by simp)]
  simp

theorem cstrTokNext_of_delimiters (hstr : ∀ x ∈ str, x ≠ 0)
    (hdelim : ∀ x ∈ str, Util.isDelimiter delim.chars x = true) :
    cstrTokNext (pre ++ (str ++ 0 :: rest))
        { nextToken := some pre.length, delim := delim.memory ++ tail } =
      some (none, pre ++ (str ++ 0 :: rest),
        { nextToken := none, delim := delim.memory ++ tail }) := by
  have hscan := scan_at pre 0 rest tail
    (fun x hx => ⟨hstr x hx, hdelim x hx⟩) (.inl rfl)
  simp only [cstrTokNext, hscan, Option.bind_eq_bind, Option.bind_some, read_at, if_true]

theorem cstrTokNext_of_last {skipped token : List UInt8} (hne : token ≠ [])
    (hstr : ∀ x ∈ skipped ++ token, x ≠ 0)
    (hskipped : ∀ x ∈ skipped, Util.isDelimiter delim.chars x = true)
    (htoken : ∀ x ∈ token, Util.isDelimiter delim.chars x = false) :
    cstrTokNext (pre ++ (skipped ++ (token ++ 0 :: rest)))
        { nextToken := some pre.length, delim := delim.memory ++ tail } =
      some (some (pre ++ skipped).length, pre ++ (skipped ++ (token ++ 0 :: rest)),
        { nextToken := none, delim := delim.memory ++ tail }) := by
  obtain ⟨c, cs, rfl⟩ := List.exists_cons_of_ne_nil hne
  have hc : c ≠ 0 := hstr c (by simp)
  have hskip := scan_at pre c (cs ++ 0 :: rest) tail
    (fun x hx => ⟨hstr x (List.mem_append_left _ hx), hskipped x hx⟩)
    (.inr (by rw [htoken c List.mem_cons_self]; exact Bool.false_ne_true))
  have hfirst := read_at pre skipped c (cs ++ 0 :: rest)
  have hscan := scan_at (pre ++ skipped) 0 rest tail
    (fun x hx => ⟨hstr x (List.mem_append_right _ hx), htoken x hx⟩) (.inl rfl)
  have hlast := read_at (pre ++ skipped) (c :: cs) 0 rest
  rw [← List.cons_append] at hskip hfirst
  rw [List.append_assoc] at hscan hlast
  simp only [cstrTokNext, hskip, hfirst, hscan, hlast, Option.bind_eq_bind, Option.bind_some,
    if_neg hc, ne_eq, not_true_eq_false, if_false]

/-- The token is cut off at the delimiter behind it. -/
theorem cstrTokNext_of_more {skipped token next : List UInt8} (hne : token ≠ [])
    (hstr : ∀ x ∈ skipped ++ (token ++ c :: next), x ≠ 0)
    (hskipped : ∀ x ∈ skipped, Util.isDelimiter delim.chars x = true)
    (htoken : ∀ x ∈ token, Util.isDelimiter delim.chars x = false)
    (hc : Util.isDelimiter delim.chars c = true) :
    cstrTokNext (pre ++ (skipped ++ (token ++ c :: (next ++ 0 :: rest))))
        { nextToken := some pre.length, delim := delim.memory ++ tail } =
      some (some (pre ++ skipped).length,
        pre ++ (skipped ++ (token ++ 0 :: (next ++ 0 :: rest))),
        { nextToken := some ((pre ++ skipped ++ token).length + 1),
          delim := delim.memory ++ tail }) := by
  obtain ⟨d, ds, rfl⟩ := List.exists_cons_of_ne_nil hne
  have hd : d ≠ 0 := hstr d (by simp)
  have hcut : c ≠ 0 := hstr c (by simp)
  have hskip := scan_at pre d (ds ++ c :: (next ++ 0 :: rest)) tail
    (fun x hx => ⟨hstr x (List.mem_append_left _ hx), hskipped x hx⟩)
    (.inr (by rw [htoken d List.mem_cons_self]; exact Bool.false_ne_true))
  have hfirst := read_at pre skipped d (ds ++ c :: (next ++ 0 :: rest))
  have hscan := scan_at (pre ++ skipped) c (next ++ 0 :: rest) tail
    (fun x hx => ⟨hstr x (List.mem_append_right _ (List.mem_append_left _ hx)), htoken x hx⟩)
    (.inr (by rw [hc]; exact Bool.false_ne_true.symm))
  have hlast := read_at (pre ++ skipped) (d :: ds) c (next ++ 0 :: rest)
  have hstore := store_at (pre ++ skipped) (d :: ds) c (next ++ 0 :: rest)
  rw [← List.cons_append] at hskip hfirst
  rw [List.append_assoc pre skipped (_ ++ c :: _)] at hscan hlast hstore
  rw [List.append_assoc pre skipped (_ ++ 0 :: _)] at hstore
  simp only [cstrTokNext, hskip, hfirst, hscan, hlast, Option.bind_eq_bind, Option.bind_some,
    if_neg hd, ne_eq, hcut, not_false_eq_true, if_true, hstore]

/-- A call returns the token of the abstract tokenizer and leaves what that leaves. -/
theorem cstrTokNext_simulates (delim : CString) (tail : List UInt8)
    {left : Option (List UInt8)} {ptr : Option Nat} (h : Left mem ptr left) :
    ∃ token mem' ptr', cstrTokNext mem { nextToken := ptr, delim := delim.memory ++ tail } =
        some (token, mem', { nextToken := ptr', delim := delim.memory ++ tail }) ∧
      token.map (textAt mem') = (Util.cstrTokNext delim.chars left).1 ∧
      Left mem' ptr' (Util.cstrTokNext delim.chars left).2 := by
  match ptr, left, h with
  | none, none, _ => exact ⟨none, mem, none, rfl, rfl, trivial⟩
  | some _, some str, ⟨hstr, pre, rest, hmem, hptr⟩ =>
      subst hmem hptr
      have hsplit := List.takeWhile_append_dropWhile (p := Util.isDelimiter delim.chars) (l := str)
      have hskipped : ∀ x ∈ str.takeWhile (Util.isDelimiter delim.chars),
          Util.isDelimiter delim.chars x = true := fun x hx => List.mem_takeWhile_imp hx
      simp only [Util.cstrTokNext]
      by_cases hempty : str.dropWhile (Util.isDelimiter delim.chars) = []
      · rw [hempty, List.append_nil] at hsplit
        rw [hsplit] at hskipped
        rw [if_pos hempty]
        exact ⟨none, _, none, cstrTokNext_of_delimiters hstr hskipped, rfl, trivial⟩
      · rw [if_neg hempty]
        have hhead := List.head_dropWhile_not (Util.isDelimiter delim.chars) hempty
        generalize str.takeWhile (Util.isDelimiter delim.chars) = skipped at hsplit hskipped
        generalize str.dropWhile (Util.isDelimiter delim.chars) = start at hsplit hempty hhead
        subst hsplit
        have hcut := List.takeWhile_append_dropWhile
          (p := fun c => !Util.isDelimiter delim.chars c) (l := start)
        have htoken : ∀ x ∈ start.takeWhile fun c => !Util.isDelimiter delim.chars c,
            Util.isDelimiter delim.chars x = false := fun x hx => by
          simpa using List.mem_takeWhile_imp hx
        have hne : start.takeWhile (fun c => !Util.isDelimiter delim.chars c) ≠ [] := by
          obtain ⟨c, rest, rfl⟩ := List.exists_cons_of_ne_nil hempty
          rw [List.head_cons] at hhead
          simp [hhead]
        generalize start.takeWhile (fun c => !Util.isDelimiter delim.chars c) = token
          at hcut htoken hne
        cases hrest : start.dropWhile fun c => !Util.isDelimiter delim.chars c with
        | nil =>
            rw [hrest, List.append_nil] at hcut
            subst hcut
            have htext : textAt (pre ++ (skipped ++ (token ++ 0 :: rest)))
                (pre ++ skipped).length = token := by
              rw [← List.append_assoc]
              exact textAt_eq fun x hx => hstr x (List.mem_append_right _ hx)
            rw [List.append_assoc]
            exact ⟨_, _, none, cstrTokNext_of_last hne hstr hskipped htoken, congrArg some htext,
              trivial⟩
        | cons c next =>
            have hc : Util.isDelimiter delim.chars c = true := by
              have hstop := List.head_dropWhile_not (fun c => !Util.isDelimiter delim.chars c)
                (l := start) (by rw [hrest]; exact List.cons_ne_nil _ _)
              simpa [hrest] using hstop
            rw [hrest] at hcut
            subst hcut
            have htext : textAt (pre ++ (skipped ++ (token ++ 0 :: (next ++ 0 :: rest))))
                (pre ++ skipped).length = token := by
              rw [← List.append_assoc]
              exact textAt_eq fun x hx => hstr x (by simp [hx])
            rw [List.append_assoc, List.append_assoc, List.cons_append]
            refine ⟨_, _, _, cstrTokNext_of_more hne hstr hskipped htoken hc, congrArg some htext,
              fun x hx => hstr x (by simp [hx]), pre ++ skipped ++ token ++ [0], rest, ?_, ?_⟩
            · simp
            · simp [Nat.add_assoc]

/-! ## All calls -/

/-- The answers of the abstract tokenizer to so many calls. -/
def calls (delim : List UInt8) : Nat → Option (List UInt8) → List (Option (List UInt8))
  | 0, _ => []
  | n + 1, left =>
      (Util.cstrTokNext delim left).1 :: calls delim n (Util.cstrTokNext delim left).2

theorem calls_none (chars : List UInt8) (n : Nat) : calls chars n none = List.replicate n none := by
  induction n with
  | zero => rfl
  | succ n ih => rw [calls, Util.cstrTokNext, ih, List.replicate_succ]

/-- Nothing is left of the string after a call that has found no token. -/
theorem left_eq_none (chars : List UInt8) (left : Option (List UInt8))
    (h : (Util.cstrTokNext chars left).1 = none) : (Util.cstrTokNext chars left).2 = none := by
  cases left with
  | none => rfl
  | some str =>
      simp only [Util.cstrTokNext] at h ⊢
      split at h
      next hempty => rw [if_pos hempty]
      next => split at h <;> cases h

/-- The segments of the string in order, then nothing. -/
theorem calls_some (chars str : List UInt8) (n : Nat) : calls chars n (some str) =
    ((segments chars str).map some ++ List.replicate n none).take n := by
  induction n generalizing str with
  | zero => rfl
  | succ n ih =>
      have hnext := segments_cstrTokNext chars str
      have hrefill : ∀ l : List (Option (List UInt8)),
          (l ++ List.replicate (n + 1) none).take n = (l ++ List.replicate n none).take n := by
        intro l
        rw [List.take_append, List.take_append, List.take_replicate, List.take_replicate]
        congr 2
        omega
      have hlast := left_eq_none chars (some str)
      rw [calls]
      generalize Util.cstrTokNext chars (some str) = found at hnext hlast ⊢
      rcases found with ⟨_ | token, _ | next⟩
      · dsimp only at hnext ⊢
        rw [hnext, calls_none, List.map_nil, List.nil_append, List.take_replicate, Nat.min_self,
          List.replicate_succ]
      · exact absurd (hlast rfl) nofun
      · dsimp only at hnext ⊢
        rw [hnext, calls_none, List.map_cons, List.map_nil, List.cons_append, List.take_succ_cons,
          hrefill]
        simp
      · dsimp only at hnext ⊢
        rw [ih, hnext.1, List.map_cons, List.cons_append, List.take_succ_cons, hrefill]

theorem run_nextText {left : Option (List UInt8)} {ptr : Option Nat} (h : Left mem ptr left)
    (n : Nat) :
    ∃ s, Trace.run nextText (mem, { nextToken := ptr, delim := delim.memory ++ tail })
      (List.replicate n ()) = some (calls delim.chars n left, s) := by
  induction n generalizing mem ptr left with
  | zero => exact ⟨_, rfl⟩
  | succ n ih =>
      obtain ⟨token, mem', ptr', hcall, htext, hleft⟩ :=
        cstrTokNext_simulates delim tail h
      obtain ⟨s, hrun⟩ := ih hleft
      refine ⟨s, ?_⟩
      rw [List.replicate_succ, Trace.run, nextText, hcall]
      simp only [Option.map_some, Option.bind_some, hrun, htext, calls]

theorem run_strtokText {left : Option (List UInt8)} {str lastToken : Option Nat}
    (h : Left mem (str.or lastToken) left) (n : Nat) :
    ∃ s, Trace.run (strtokText (delim.memory ++ tail)) (mem, lastToken)
      (str :: List.replicate n none) = some (calls delim.chars (n + 1) left, s) := by
  induction n generalizing mem str lastToken left with
  | zero =>
      obtain ⟨token, mem', ptr', hcall, htext, -⟩ :=
        cstrTokNext_simulates delim tail h
      refine ⟨(mem', ptr'), ?_⟩
      rw [List.replicate_zero, Trace.run, strtokText, strtok_eq, hcall]
      simp only [Option.map_some, Option.bind_some, htext, calls, Trace.run_nil]
  | succ n ih =>
      obtain ⟨token, mem', ptr', hcall, htext, hleft⟩ :=
        cstrTokNext_simulates delim tail h
      have hkept : Left mem' ((none : Option Nat).or ptr') _ := hleft
      obtain ⟨s, hrun⟩ := ih hkept
      refine ⟨s, ?_⟩
      rw [List.replicate_succ, Trace.run, strtokText, strtok_eq, hcall]
      simp only [Option.map_some, Option.bind_some, hrun, htext]
      rfl

/-- Both tokenizers find the segments of every string in order, and nothing after them,
whatever `strtok` has kept from an earlier string. -/
theorem tokenizers_agree (str delim : CString) (pre rest tail : List UInt8)
    (lastToken : Option Nat) (n : Nat) :
    (∃ s, Trace.run nextText
        (pre ++ (str.memory ++ rest), cstrTokInit pre.length (delim.memory ++ tail))
        (List.replicate (n + 1) ()) =
      some (((segments delim.chars str.chars).map some ++ List.replicate (n + 1) none).take (n + 1),
        s)) ∧
    ∃ s, Trace.run (strtokText (delim.memory ++ tail)) (pre ++ (str.memory ++ rest), lastToken)
        (some pre.length :: List.replicate n none) =
      some (((segments delim.chars str.chars).map some ++ List.replicate (n + 1) none).take (n + 1),
        s) := by
  have hleft : Left (pre ++ (str.memory ++ rest)) (some pre.length) (some str.chars) := by
    refine ⟨str.nonzero, pre, rest, ?_, rfl⟩
    rw [CString.memory, List.append_assoc, List.singleton_append]
  rw [← calls_some]
  exact ⟨run_nextText hleft (n + 1), run_strtokText hleft n⟩

end AvrKernel.Util.InPlace

import AvrKernel.Emulation.Containment
import Mathlib.Data.List.Basic

/-!
# Time slices

`x4_emulate` is given a number of steps, and the scheduler calls it again for the next ones.
A slice which ends while a line is begun on the console ends that line. Apart from this, slices do
what one call does, unless the program looks at the flag.
-/

namespace AvrKernel.X4

open Machine

/-! ## Output with more lines -/

/-- Output in which so many lines, at most, are broken by a newline more. -/
inductive Broken : Nat → List Output → List Output → Prop
  | nil (n : Nat) : Broken n [] []
  | keep {n : Nat} {printed printed' : List Output} (output : Output) :
      Broken n printed printed' → Broken n (output :: printed) (output :: printed')
  | newline {n : Nat} {printed printed' : List Output} :
      Broken n printed printed' → Broken (n + 1) printed (.char newline :: printed')

namespace Broken

variable {n : Nat} {printed printed' : List Output}

protected theorem refl (n : Nat) (printed : List Output) : Broken n printed printed := by
  induction printed with
  | nil => exact .nil n
  | cons output _ ih => exact .keep output ih

theorem mono (h : Broken n printed printed') : Broken (n + 1) printed printed' := by
  induction h with
  | nil n => exact .nil _
  | keep output _ ih => exact .keep output ih
  | newline _ ih => exact .newline ih

theorem append (h : Broken n printed printed') (output : List Output) :
    Broken n (printed ++ output) (printed' ++ output) := by
  induction h with
  | nil n => exact .refl n _
  | keep output _ ih => exact .keep output ih
  | newline _ ih => exact .newline ih

theorem ended (h : Broken n printed printed') :
    Broken (n + 1) printed (printed' ++ [.char X4.newline]) := by
  induction h with
  | nil n => exact .newline (.nil n)
  | keep output _ ih => exact .keep output ih
  | newline _ ih => exact .newline ih

end Broken

/-! ## The flag of the console -/

/-- The flags apart from the one of the console. -/
def quietFlags (state : UInt8) : UInt8 := state &&& ~~~x4emmFlagConsoleDirty

def isDirty (state : UInt8) : Prop := state &&& x4emmFlagConsoleDirty ≠ 0

theorem or_and_of_and_eq_zero {state flag mask : UInt8} (h : flag &&& mask = 0) :
    (state ||| flag) &&& mask = state &&& mask := by
  have hbits := congrArg UInt8.toBitVec h
  apply UInt8.toBitVec_inj.mp
  simp only [UInt8.toBitVec_and, UInt8.toBitVec_or] at hbits ⊢
  rw [BitVec.and_or_distrib_right, hbits]
  exact BitVec.or_zero

theorem and_not_and_of_and_eq_zero {state flag mask : UInt8} (h : flag &&& mask = 0) :
    (state &&& ~~~flag) &&& mask = state &&& mask := by
  have hbits := congrArg UInt8.toBitVec h
  apply UInt8.toBitVec_inj.mp
  rw [UInt8.toBitVec_and, UInt8.toBitVec_zero] at hbits
  simp only [UInt8.toBitVec_and, UInt8.toBitVec_not]
  ext i hi
  have hbit := congrArg (fun bits : BitVec 8 => bits[i]) hbits
  simp only [BitVec.getElem_and, BitVec.getElem_not, BitVec.getElem_zero] at hbit ⊢
  grind

theorem quietFlags_or {state state' : UInt8} (h : quietFlags state' = quietFlags state)
    (flag : UInt8) : quietFlags (state' ||| flag) = quietFlags (state ||| flag) := by
  have hbits := congrArg UInt8.toBitVec h
  apply UInt8.toBitVec_inj.mp
  simp only [quietFlags, UInt8.toBitVec_and, UInt8.toBitVec_or] at hbits ⊢
  rw [BitVec.and_or_distrib_right, hbits, BitVec.and_or_distrib_right]

theorem quietFlags_and {state state' : UInt8} (h : quietFlags state' = quietFlags state)
    (mask : UInt8) : quietFlags (state' &&& mask) = quietFlags (state &&& mask) := by
  have hswap : ∀ flags : UInt8, quietFlags (flags &&& mask) = quietFlags flags &&& mask := by
    intro flags
    rw [quietFlags, quietFlags, UInt8.and_assoc, UInt8.and_comm mask, ← UInt8.and_assoc]
  rw [hswap, hswap, h]

theorem quietFlags_idem (state : UInt8) : quietFlags (quietFlags state) = quietFlags state := by
  rw [quietFlags, quietFlags, UInt8.and_assoc, UInt8.and_self]

/-- The console of a machine, and that of one which has been cut at most so many times. -/
structure Told (n : Nat) (state : UInt8) (printed : List Output) (state' : UInt8)
    (printed' : List Output) : Prop where
  flags : quietFlags state' = quietFlags state
  broken : Broken n printed printed'
  dirty : isDirty state' → isDirty state
  /-- A line that only one of the machines has begun has been ended by the other one. -/
  ended : isDirty state → ¬isDirty state' →
    ∃ cuts before, n = cuts + 1 ∧ printed' = before ++ [.char newline] ∧
      Broken cuts printed before

namespace Told

variable {n : Nat} {state state' flag : UInt8} {printed printed' : List Output}

/-- The console while both machines have the same flags. -/
theorem same (h : Broken n printed printed') (state : UInt8) :
    Told n state printed state printed' :=
  ⟨rfl, h, id, fun hdirty hclean => absurd hdirty hclean⟩

theorem set (h : Told n state printed state' printed')
    (hflag : flag &&& x4emmFlagConsoleDirty = 0) :
    Told n (state ||| flag) printed (state' ||| flag) printed' := by
  refine ⟨quietFlags_or h.flags flag, h.broken, ?_, ?_⟩
  · rw [isDirty, isDirty, or_and_of_and_eq_zero hflag, or_and_of_and_eq_zero hflag]
    exact h.dirty
  · rw [isDirty, isDirty, or_and_of_and_eq_zero hflag, or_and_of_and_eq_zero hflag]
    exact h.ended

theorem clear (h : Told n state printed state' printed')
    (hflag : flag &&& x4emmFlagConsoleDirty = 0) :
    Told n (state &&& ~~~flag) printed (state' &&& ~~~flag) printed' := by
  refine ⟨quietFlags_and h.flags _, h.broken, ?_, ?_⟩
  · rw [isDirty, isDirty, and_not_and_of_and_eq_zero hflag, and_not_and_of_and_eq_zero hflag]
    exact h.dirty
  · rw [isDirty, isDirty, and_not_and_of_and_eq_zero hflag, and_not_and_of_and_eq_zero hflag]
    exact h.ended

theorem isDirty_or (state : UInt8) : isDirty (state ||| x4emmFlagConsoleDirty) := by
  intro h
  have hbits := congrArg UInt8.toBitVec h
  rw [UInt8.toBitVec_and, UInt8.toBitVec_or, BitVec.and_or_distrib_right] at hbits
  have hbit := congrArg (fun bits : BitVec 8 => bits[5]) hbits
  simp [x4emmFlagConsoleDirty] at hbit

theorem not_isDirty_quietFlags (state : UInt8) : ¬isDirty (quietFlags state) := by
  intro h
  apply h
  rw [quietFlags, UInt8.and_assoc, UInt8.and_comm (~~~_)]
  exact UInt8.and_zero

theorem print (h : Told n state printed state' printed') (output : List Output) :
    Told n (state ||| x4emmFlagConsoleDirty) (printed ++ output)
      (state' ||| x4emmFlagConsoleDirty) (printed' ++ output) :=
  ⟨quietFlags_or h.flags _, h.broken.append output, fun _ => isDirty_or _,
    fun _ hclean => absurd (isDirty_or _) hclean⟩

/-- A service leaves no line behind which is begun. -/
theorem quiet (h : Told n state printed state' printed') (output : List Output) :
    Told n (quietFlags state) (printed ++ output) (quietFlags state') (printed' ++ output) := by
  rw [h.flags]
  exact .same (h.broken.append output) _

theorem cut (h : Told n state printed state' printed') :
    Told (n + 1) state printed (quietFlags state') (printed' ++ [.char newline]) :=
  ⟨(quietFlags_idem state').trans h.flags, h.broken.ended,
    fun hcut => absurd hcut (not_isDirty_quietFlags _),
    fun _ _ => ⟨n, printed', rfl, rfl, h.broken⟩⟩

/-- The end of a line that has been ended before in the other machine. -/
theorem catchUp (h : Told n state printed state' printed') (hdirty : isDirty state)
    (hclean : ¬isDirty state') :
    Told n (quietFlags state) (printed ++ [.char newline]) state' printed' := by
  obtain ⟨cuts, before, rfl, rfl, hbefore⟩ := h.ended hdirty hclean
  exact ⟨h.flags.trans (quietFlags_idem state).symm, hbefore.mono.append _,
    fun hcut => absurd hcut hclean, fun hcut => absurd hcut (not_isDirty_quietFlags _)⟩

theorem mono (h : Told n state printed state' printed') :
    Told (n + 1) state printed state' printed' := by
  refine ⟨h.flags, h.broken.mono, h.dirty, fun hdirty hclean => ?_⟩
  obtain ⟨cuts, before, rfl, rfl, hbefore⟩ := h.ended hdirty hclean
  exact ⟨cuts + 1, before, rfl, rfl, hbefore.mono⟩

end Told

/-! ## Machines with other output -/

section Both

variable {α β γ δ : Type} {R : α → β → Prop} {S : γ → δ → Prop} {p : Except Trap α}
  {q : Except Trap β}

/-- Two results which are related, or the same trap. -/
inductive Both (R : α → β → Prop) : Except Trap α → Except Trap β → Prop
  | error (trap : Trap) : Both R (.error trap) (.error trap)
  | ok {a : α} {b : β} : R a b → Both R (.ok a) (.ok b)

theorem Both.bind {f : α → Except Trap γ} {g : β → Except Trap δ} (h : Both R p q)
    (hrest : ∀ a b, R a b → Both S (f a) (g b)) : Both S (p >>= f) (q >>= g) := by
  cases h with
  | error trap => exact .error trap
  | ok h => exact hrest _ _ h

theorem Both.map {f : α → γ} {g : β → δ} (h : Both R p q) (hrest : ∀ a b, R a b → S (f a) (g b)) :
    Both S (p.map f) (q.map g) := by
  cases h with
  | error trap => exact .error trap
  | ok h => exact .ok (hrest _ _ h)

theorem Both.mono {R' : α → β → Prop} (h : Both R p q) (hrest : ∀ a b, R a b → R' a b) :
    Both R' p q := by
  cases h with
  | error trap => exact .error trap
  | ok h => exact .ok (hrest _ _ h)

theorem Both.trap_or_ok (h : Both R p q) :
    (∃ trap, p = .error trap ∧ q = .error trap) ∨ ∃ a b, p = .ok a ∧ q = .ok b ∧ R a b := by
  cases h with
  | error trap => exact .inl ⟨trap, rfl, rfl⟩
  | ok h => exact .inr ⟨_, _, rfl, rfl, h⟩

theorem Both.read {f : α → Except Trap γ} {g : α → Except Trap δ}
    (hrest : ∀ a, Both S (f a) (g a)) : Both S (p >>= f) (p >>= g) := by
  cases p with
  | error trap => exact .error trap
  | ok a => exact hrest a

end Both

variable {Files : Type} {host : Host Files} {m m' : Machine Files} {n : Nat} {args : Args}

/-- The place of the flags in the registers. -/
def statePlace : UInt8 := 20

theorem setGeneral_state (r : X4CpuRegisters) (byte : UInt8) (place : Nat) :
    (r.setGeneral byte place).state = r.state := by
  unfold X4CpuRegisters.setGeneral
  split <;> rfl

theorem setGeneral_withState (r : X4CpuRegisters) (state byte : UInt8) (place : Nat) :
    { r with state }.setGeneral byte place = { r.setGeneral byte place with state } := by
  unfold X4CpuRegisters.setGeneral
  split <;> rfl

/-- A machine with another console. -/
def Machine.told (m : Machine Files) (state : UInt8) (printed : List Output) : Machine Files :=
  { m with cache := { m.cache with state }, printed }

/-- A machine, and what it is after at most so many cuts. -/
inductive Alike (n : Nat) : Machine Files → Machine Files → Prop
  | told {m : Machine Files} {state : UInt8} {printed : List Output}
      (h : Told n m.cache.state m.printed state printed) : Alike n m (m.told state printed)

namespace Alike

theorem advance (h : Alike n m m') (count : UInt32) :
    Alike n (m.advance count) (m'.advance count) := by
  cases h with | told h => exact told (m := m.advance count) h

theorem jump (h : Alike n m m') {ep ep' : UInt32} (hep : ep' = ep) :
    Alike n (m.jump ep) (m'.jump ep') := by
  subst hep
  cases h with | told h => exact told (m := m.jump _) h

theorem writeb (h : Alike n m m') (address : UInt32) (byte : UInt8) :
    Alike n (m.writeb address byte) (m'.writeb address byte) := by
  cases h with | told h => exact told (m := m.writeb address byte) h

theorem stackPush (h : Alike n m m') (byte : UInt8) :
    Alike n (m.stackPush byte) (m'.stackPush byte) := by
  cases h with | told h => exact told (m := m.stackPush byte) h

theorem getRegister (h : Alike n m m') {place : UInt8} (hplace : place ≠ statePlace) :
    m'.getRegister place = m.getRegister place := by
  have hne : place.toNat ≠ 20 := fun heq => hplace (UInt8.toNat_inj.mp heq)
  cases h with
  | told h =>
      simp only [Machine.getRegister, X4CpuRegisters.get, Machine.told]
      split_ifs with h1 h2 h3 h4 h5 <;> first | rfl | omega

/-- A byte that is written to the flags is the same in both machines from then on. -/
theorem set (h : Alike n m m') (place : Nat) (byte : UInt8) :
    Both (Alike n) ((m.cache.set place byte).map m.withCache)
      ((m'.cache.set place byte).map m'.withCache) := by
  cases h with
  | @told state printed h =>
      have hstay : ∀ r : X4CpuRegisters, r.state = m.cache.state →
          Both (Alike n) ((Except.ok r).map m.withCache)
            ((Except.ok { r with state }).map (m.told state printed).withCache) :=
        fun r hr => .ok (@told _ n (m.withCache r) state printed (hr ▸ h))
      rw [X4CpuRegisters.set, X4CpuRegisters.set]
      split_ifs with hgeneral
      · have hsame := hstay _ (setGeneral_state m.cache byte place)
        rw [← setGeneral_withState] at hsame
        exact hsame
      · exact hstay _ rfl
      · exact hstay _ rfl
      · exact hstay _ rfl
      · exact .ok (told (.same h.broken byte))
      · exact hstay _ rfl
      · exact hstay _ rfl
      · exact hstay _ rfl
      · exact .error _

theorem setRegister (h : Alike n m m') (place byte : UInt8) :
    Both (Alike n) (m.setRegister place byte) (m'.setRegister place byte) :=
  h.set place.toNat byte

theorem updateZeroFlag (h : Alike n m m') (value : UInt8) :
    Alike n (m.withCache (m.cache.updateZeroFlag value))
      (m'.withCache (m'.cache.updateZeroFlag value)) := by
  cases h with
  | told h =>
      rw [X4CpuRegisters.updateZeroFlag, X4CpuRegisters.updateZeroFlag]
      split_ifs
      · exact told (m := m.withCache (m.cache.setFlag x4emmFlagZero)) (h.set rfl)
      · exact told (m := m.withCache (m.cache.clearFlag x4emmFlagZero)) (h.clear rfl)

theorem updateCompareFlags (h : Alike n m m') (left right : UInt8) :
    Alike n (m.withCache (m.cache.updateCompareFlags left right))
      (m'.withCache (m'.cache.updateCompareFlags left right)) := by
  cases h with
  | told h =>
      rw [X4CpuRegisters.updateCompareFlags, X4CpuRegisters.updateCompareFlags]
      split_ifs
      · exact told (m := m.withCache _) ((((h.set rfl).clear rfl).clear rfl).set rfl)
      · exact told (m := m.withCache _) ((((h.clear rfl).set rfl).clear rfl).clear rfl)
      · exact told (m := m.withCache _) ((((h.clear rfl).clear rfl).set rfl).clear rfl)

theorem setResult (h : Alike n m m') (place value : UInt8) :
    Both (Alike n) (m.setResult place value) (m'.setResult place value) :=
  (h.setRegister place value).bind fun _ _ h => .ok (h.updateZeroFlag value)

theorem unary (h : Alike n m m') (f : UInt8 → UInt8) (ha : args.a ≠ statePlace) :
    Both (Alike n) (m.unary f args) (m'.unary f args) := by
  rw [Machine.unary, Machine.unary, h.getRegister ha]
  exact .read fun byte => h.setResult args.a (f byte)

/-- Operations with two registers, which the program may not take the flags for. -/
theorem operands (h : Alike n m m') {place place' : UInt8} (hplace : place ≠ statePlace)
    (hplace' : place' ≠ statePlace) {f g : UInt8 → UInt8 → Except Trap (Machine Files)}
    (hrest : ∀ left right, Both (Alike n) (f left right) (g left right)) :
    Both (Alike n)
      (do
        let left ← m.getRegister place
        let right ← m.getRegister place'
        f left right)
      (do
        let left ← m'.getRegister place
        let right ← m'.getRegister place'
        g left right) := by
  rw [h.getRegister hplace, h.getRegister hplace']
  exact .read fun left => .read fun right => hrest left right

theorem stackPushPtr (h : Alike n m m') (address : UInt32) :
    Alike n (m.stackPushPtr address) (m'.stackPushPtr address) :=
  (((h.stackPush _).stackPush _).stackPush _).stackPush _

theorem stackPop (h : Alike n m m') :
    m'.stackPop.1 = m.stackPop.1 ∧ Alike n m.stackPop.2 m'.stackPop.2 := by
  cases h with | told h => exact ⟨rfl, told (m := m.stackPop.2) h⟩

theorem stackPopPtr (h : Alike n m m') :
    m'.stackPopPtr.1 = m.stackPopPtr.1 ∧ Alike n m.stackPopPtr.2 m'.stackPopPtr.2 := by
  obtain ⟨h3, h⟩ := h.stackPop
  obtain ⟨h2, h⟩ := h.stackPop
  obtain ⟨h1, h⟩ := h.stackPop
  obtain ⟨h0, h⟩ := h.stackPop
  exact ⟨by simp only [Machine.stackPopPtr, h0, h1, h2, h3], h⟩

theorem opcodeCALL (h : Alike n m m') : Alike n (m.opcodeCALL args) (m'.opcodeCALL args) := by
  have hwords : m'.cache.bp = m.cache.bp ∧ m'.cache.ep = m.cache.ep := by
    cases h
    exact ⟨rfl, rfl⟩
  have henter : ∀ m m' : Machine Files, Alike n m m' → ∀ ep,
      Alike n (m.withCache { m.cache with bp := m.cache.sp, ep })
        (m'.withCache { m'.cache with bp := m'.cache.sp, ep }) := by
    rintro m _ ⟨h⟩ ep
    exact told (m := m.withCache _) h
  rw [Machine.opcodeCALL, Machine.opcodeCALL, hwords.1, hwords.2]
  exact henter _ _ ((h.stackPushPtr _).stackPushPtr _) _

theorem opcodeRET (h : Alike n m m') : Alike n m.opcodeRET m'.opcodeRET := by
  have hframe : Alike n (m.withCache { m.cache with sp := m.cache.bp })
      (m'.withCache { m'.cache with sp := m'.cache.bp }) := by
    cases h with | told h => exact told (m := m.withCache _) h
  have hleave : ∀ m m' : Machine Files, Alike n m m' → ∀ bp bp' : UInt32, bp' = bp →
      Alike n (m.withCache { m.cache with bp }) (m'.withCache { m'.cache with bp := bp' }) := by
    rintro m _ ⟨h⟩ bp _ rfl
    exact told (m := m.withCache _) h
  obtain ⟨hep, hpopped⟩ := hframe.stackPopPtr
  obtain ⟨hbp, hpopped⟩ := (hpopped.jump hep).stackPopPtr
  exact hleave _ _ hpopped _ _ hbp

theorem hasFlag (h : Alike n m m') {flag : UInt8}
    (hflag : ~~~x4emmFlagConsoleDirty &&& flag = flag) :
    m'.cache.hasFlag flag = m.cache.hasFlag flag := by
  have hquiet : ∀ state : UInt8, state &&& flag = quietFlags state &&& flag := by
    intro state
    rw [quietFlags, UInt8.and_assoc, hflag]
  cases h with
  | told h =>
      rw [X4CpuRegisters.hasFlag, X4CpuRegisters.hasFlag, hquiet, hquiet m.cache.state, ← h.flags]
      rfl

theorem jumpIf (h : Alike n m m') (condition : Bool) :
    Alike n (m.jumpIf condition args) (m'.jumpIf condition args) := by
  cases condition with
  | false => exact h.advance 4
  | true => exact h.jump rfl

/-! ### Services -/

theorem text (h : Alike n m m') (address : UInt32) (fuel : Nat) (i : UInt32) :
    m'.text host address fuel i = m.text host address fuel i := by
  induction fuel generalizing i with
  | zero => rfl
  | succ fuel ih =>
      rw [Machine.text, Machine.text, ih]
      cases h
      rfl

theorem iscDisplayRoutine (h : Alike n m m') :
    Both (Alike n) (m.iscDisplayRoutine host) (m'.iscDisplayRoutine host) := by
  have htext := @text _ host _ _ _ h m.dataAddress (2 ^ 32) 0
  cases h with
  | @told state printed h =>
      rw [Machine.iscDisplayRoutine, Machine.iscDisplayRoutine,
        show (m.told state printed).dataAddress = m.dataAddress from rfl, htext]
      simp only [show (m.told state printed).cache.ah = m.cache.ah from rfl]
      split_ifs
      · cases m.text host m.dataAddress (2 ^ 32) 0 with
        | none => exact .error _
        | some output => exact .ok (told (m := (m.print output).withCache _) (h.print output))
      · exact .ok (told (m := (m.print [.clear]).withCache _) (h.quiet [.clear]))
      · exact .ok (told h)

theorem iscFilesystemRoutine (h : Alike n m m') :
    Alike n (m.iscFilesystemRoutine host) (m'.iscFilesystemRoutine host) := by
  cases h with
  | @told state printed h =>
      have hask : host.fsFileCreate ((m.told state printed).readStringFromDx host)
            (x4PointerFromLow16 (m.told state printed).cache.cl (m.told state printed).cache.ch)
            ((m.told state printed).memory, (m.told state printed).files) =
          host.fsFileCreate (m.readStringFromDx host)
            (x4PointerFromLow16 m.cache.cl m.cache.ch) (m.memory, m.files) := rfl
      rw [Machine.iscFilesystemRoutine, Machine.iscFilesystemRoutine, hask]
      obtain ⟨created, memory, files⟩ := host.fsFileCreate (m.readStringFromDx host)
        (x4PointerFromLow16 m.cache.cl m.cache.ch) (m.memory, m.files)
      simp only [show (m.told state printed).cache.ah = m.cache.ah from rfl,
        show (m.told state printed).files = m.files from rfl]
      split_ifs
      · exact told h
      · have hquiet := h.quiet []
        rw [List.append_nil, List.append_nil] at hquiet
        exact @told _ n (Machine.withCache { m with memory, files } _) _ _ hquiet
      · exact @told _ n (Machine.withCache { m with memory, files } _) _ _ h
      · exact told (m := m.withCache _) h

theorem iscKeyboardRoutine (h : Alike n m m') :
    (m'.iscKeyboardRoutine host).1 = (m.iscKeyboardRoutine host).1 ∧
      Alike n (m.iscKeyboardRoutine host).2 (m'.iscKeyboardRoutine host).2 := by
  cases h with
  | @told state printed h =>
      unfold Machine.iscKeyboardRoutine
      simp only [Machine.told, withCache]
      by_cases hread : m.cache.ah = 0x00 ∨ m.cache.ah = 0x01 ∨ m.cache.ah = 0x03
      · simp only [hread, if_true]
        by_cases hnew : host.kbGetCurrentChar m.keysRead = m.lastCharacter
        · simp only [hnew, ne_eq, not_true_eq_false, if_false]
          exact ⟨rfl, @told _ n _ state printed (by exact h)⟩
        · by_cases hpeek : m.cache.ah = 0x01
          · simp only [hnew, hpeek, ne_eq, not_false_eq_true, if_true]
            exact ⟨trivial, @told _ n _ state printed (by exact h)⟩
          · simp only [hnew, hpeek, ne_eq, not_false_eq_true, if_true, if_false]
            exact ⟨trivial, @told _ n _ state printed (by exact h)⟩
      · simp only [hread, if_false]
        exact ⟨trivial, told h⟩

theorem hasFlag_iff (r : X4CpuRegisters) :
    r.hasFlag x4emmFlagConsoleDirty = true ↔ isDirty r.state := by
  rw [X4CpuRegisters.hasFlag, decide_eq_true_iff]
  rfl

theorem endLine (h : Alike n m m') : Alike n m.endLine m'.endLine := by
  cases h with
  | @told state printed h =>
      rw [Machine.endLine, Machine.endLine]
      split_ifs with hdirty hdirty' hdirty'
      · exact told (m := (m.print [.char newline]).withCache _) (h.quiet [.char newline])
      · rw [hasFlag_iff] at hdirty hdirty'
        exact told (m := (m.print [.char newline]).withCache _) (h.catchUp hdirty hdirty')
      · rw [hasFlag_iff] at hdirty hdirty'
        exact absurd (h.dirty hdirty') hdirty
      · exact told h

/-- A cut, at which only the machine with the slices ends the line. -/
theorem cut (h : Alike n m m') : Alike (n + 1) m m'.endLine := by
  cases h with
  | @told state printed h =>
      rw [Machine.endLine]
      split_ifs
      · exact told h.cut
      · exact told h.mono

theorem opcodeINT (h : Alike n m m') :
    Both (fun p q => q.1 = p.1 ∧ Alike n p.2 q.2) (m.opcodeINT host args)
      (m'.opcodeINT host args) := by
  rw [Machine.opcodeINT, Machine.opcodeINT]
  obtain ⟨hresult, hkeyboard⟩ := @iscKeyboardRoutine _ host _ _ _ h
  split_ifs
  · exact .ok ⟨rfl, h.endLine⟩
  · exact (@iscDisplayRoutine _ host _ _ _ h).bind fun _ _ h => .ok ⟨rfl, h⟩
  · exact .ok ⟨rfl, h.iscFilesystemRoutine⟩
  · simp only [hresult]
    split_ifs
    · exact .ok ⟨rfl, hkeyboard.advance _⟩
    · exact .ok ⟨rfl, hkeyboard⟩
  · exact .ok ⟨rfl, h⟩

end Alike

/-- The registers whose values an operation takes. -/
def Opcode.reads (args : Args) : Opcode → List UInt8
  | movmw | inc | dec | not | push | cmp => [args.a]
  | movr => [args.b]
  | add | sub | and | or | xor | cmpr => [args.a, args.b]
  | mul | div => [args.b, args.c]
  | movmr | movb | mova | pop | jmp | je | jne | jg | jl | jz | jnz | call | ret | int
  | sti | cli | nop => []

theorem Alike.execute (h : Alike n m m') {opcode : Opcode}
    (hreads : statePlace ∉ opcode.reads args) :
    Both (fun p q => q.1 = p.1 ∧ Alike n p.2 q.2) (m.execute host opcode args)
      (m'.execute host opcode args) := by
  have hgo : ∀ {p q : Except Trap (Machine Files)} (count : UInt32), Both (Alike n) p q →
      Both (fun p q => q.1 = p.1 ∧ Alike n p.2 q.2)
        (p.map fun m => ((none : Option UInt8), m.advance count))
        (q.map fun m => (none, m.advance count)) :=
    fun count hboth => hboth.map fun _ _ h => ⟨rfl, h.advance count⟩
  have hread : ∀ place ∈ opcode.reads args, place ≠ statePlace :=
    fun place hmem heq => hreads (heq ▸ hmem)
  cases opcode with
  | movmr =>
      apply hgo 5
      have hbyte := h.setRegister args.a
        (m.readb (getPointerFromBytes args.b args.c args.d args.e))
      cases h
      exact hbyte
  | movmw =>
      apply hgo 5
      rw [opcodeMOVMW, opcodeMOVMW, h.getRegister (hread _ (by simp [Opcode.reads]))]
      exact .read fun byte => .ok (h.writeb _ byte)
  | movr =>
      apply hgo 2
      rw [opcodeMOVR, opcodeMOVR, h.getRegister (hread _ (by simp [Opcode.reads]))]
      exact .read fun byte => h.setRegister args.a byte
  | movb => exact hgo 2 (h.setRegister _ _)
  | mova => exact hgo 5 ((h.setRegister _ _).bind fun _ _ h => h.set _ _)
  | inc | dec | not => exact hgo 1 (h.unary _ (hread _ (by simp [Opcode.reads])))
  | add | sub | and | or | xor =>
      exact hgo 2 (h.operands (hread _ (by simp [Opcode.reads])) (hread _ (by simp [Opcode.reads]))
        fun _ _ => h.setResult _ _)
  | mul =>
      exact hgo 3 (h.operands (hread _ (by simp [Opcode.reads])) (hread _ (by simp [Opcode.reads]))
        fun _ _ => h.setResult _ _)
  | div =>
      apply hgo 3
      apply h.operands (hread _ (by simp [Opcode.reads])) (hread _ (by simp [Opcode.reads]))
      intro left right
      split_ifs
      · exact .error _
      · exact h.setResult _ _
  | push =>
      apply hgo 1
      rw [opcodePUSH, opcodePUSH, h.getRegister (hread _ (by simp [Opcode.reads]))]
      exact .read fun byte => .ok (h.stackPush byte)
  | pop =>
      apply hgo 1
      obtain ⟨hbyte, hpopped⟩ := h.stackPop
      rw [opcodePOP, opcodePOP]
      simp only [hbyte]
      exact hpopped.setRegister _ _
  | cmp =>
      apply hgo 2
      rw [opcodeCMP, opcodeCMP, h.getRegister (hread _ (by simp [Opcode.reads]))]
      exact .read fun left => .ok (h.updateCompareFlags left args.b)
  | cmpr =>
      exact hgo 2 (h.operands (hread _ (by simp [Opcode.reads])) (hread _ (by simp [Opcode.reads]))
        fun left right => .ok (h.updateCompareFlags left right))
  | jmp => exact .ok ⟨rfl, h.jump rfl⟩
  | je | jne | jg | jl | jz | jnz =>
      refine .ok ⟨rfl, ?_⟩
      simp only [opcodeJE, opcodeJNE, opcodeJG, opcodeJL, opcodeJZ, opcodeJNZ,
        h.hasFlag (show ~~~x4emmFlagConsoleDirty &&& x4emmFlagCmpEqual =
          x4emmFlagCmpEqual from rfl),
        h.hasFlag
          (show ~~~x4emmFlagConsoleDirty &&& x4emmFlagCmpGreater = x4emmFlagCmpGreater from rfl),
        h.hasFlag (show ~~~x4emmFlagConsoleDirty &&& x4emmFlagCmpLess = x4emmFlagCmpLess from rfl),
        h.hasFlag (show ~~~x4emmFlagConsoleDirty &&& x4emmFlagZero = x4emmFlagZero from rfl)]
      exact h.jumpIf _
  | call => exact .ok ⟨rfl, h.opcodeCALL⟩
  | ret => exact .ok ⟨rfl, h.opcodeRET⟩
  | cli =>
      cases h with
      | told h => exact .ok ⟨rfl, told (m := m.withCache _) (h.clear rfl)⟩
  | sti =>
      cases h with
      | told h => exact .ok ⟨rfl, told (m := m.withCache _) (h.set rfl)⟩
  | nop => exact .ok ⟨rfl, h⟩
  | int =>
      apply (@opcodeINT _ host _ _ _ args h).map
      rintro ⟨result, p⟩ ⟨result', q⟩ ⟨rfl, h⟩
      dsimp only
      split_ifs
      · exact ⟨rfl, h.advance 1⟩
      · exact ⟨rfl, h.endLine⟩
      · exact ⟨rfl, h.endLine⟩

/-! ## Cuts -/

namespace Machine

/-- The next instruction waits for the keyboard, or looks at it. -/
def ReadsKeyboard (m : Machine Files) : Prop :=
  m.opcode = some .int ∧ m.args.a = 0x16 ∧
    (m.cache.ah = 0x00 ∨ m.cache.ah = 0x01 ∨ m.cache.ah = 0x03)

/-- The next instruction takes the flags as a value. -/
def ReadsState (m : Machine Files) : Prop :=
  ∃ opcode, m.opcode = some opcode ∧ statePlace ∈ opcode.reads m.args

/-- Calls of `x4_emulate` one after the other, until one returns something else than 0. -/
def emulateSlices (host : Host Files) :
    List Nat → Nat → Machine Files → Except Trap (UInt8 × Machine Files)
  | [], steps, m => m.x4Emulate host steps
  | next :: rest, steps, m => do
      let (result, m) ← m.x4Emulate host steps
      if result = 0 then emulateSlices host rest next m else return (result, m)

/-- The machine after so many rounds, if `x4_emulate` has not returned by then. -/
def after (host : Host Files) : Nat → Machine Files → Option (Machine Files)
  | 0, m => some m
  | steps + 1, m =>
      match m.step host with
      | .ok (none, m) => after host steps m
      | _ => none

/-- No line is begun where the slices are cut. -/
def CutsClean (host : Host Files) : List Nat → Nat → Machine Files → Prop
  | [], _, _ => True
  | next :: rest, steps, m => ∀ m', m.after host steps = some m' →
      m'.cache.hasFlag x4emmFlagConsoleDirty = false ∧ CutsClean host rest next m'

theorem execute_some_ne_zero {opcode : Opcode} {result : UInt8}
    (h : m.execute host opcode args = .ok (some result, m')) : result ≠ 0 := by
  have hgo : ∀ (p : Except Trap (Machine Files)) (count : UInt32),
      (p.map fun m => ((none : Option UInt8), m.advance count)) ≠ .ok (some result, m') := by
    intro p count heq
    cases p with
    | error trap => cases heq
    | ok m => cases heq
  cases opcode with
  | int =>
      rw [execute] at h
      cases hint : m.opcodeINT host args with
      | error trap =>
          rw [hint] at h
          cases h
      | ok answer =>
          rw [hint, Except.map] at h
          simp only [Except.ok.injEq] at h
          by_cases hzero : answer.1 = 0
          · rw [if_pos hzero] at h
            cases h
          · rw [if_neg hzero] at h
            have hresult := Option.some.inj (congrArg Prod.fst h)
            rw [← hresult]
            split_ifs <;> decide
  | jmp | je | jne | jg | jl | jz | jnz | call | ret | cli | sti | nop => cases h
  | movmr | movmw | movr | movb | mova | inc | dec | add | sub | mul | div | pop | push | and | or
  | xor | not | cmp | cmpr => exact absurd h (hgo _ _)

theorem step_some_ne_zero {result : UInt8} (h : m.step host = .ok (some result, m')) :
    result ≠ 0 := by
  rw [step] at h
  cases hopcode : m.opcode with
  | none =>
      rw [hopcode] at h
      cases h
      decide
  | some opcode =>
      rw [hopcode] at h
      exact execute_some_ne_zero h

theorem x4Emulate_of_step_none (hstep : m.step host = .ok (none, m')) (steps : Nat) :
    m.x4Emulate host (steps + 1) = m'.x4Emulate host steps := by
  rw [x4Emulate, hstep]
  rfl

theorem emulateSlices_of_step_none (hstep : m.step host = .ok (none, m')) (rest : List Nat)
    (steps : Nat) : m.emulateSlices host rest (steps + 1) = m'.emulateSlices host rest steps := by
  cases rest with
  | nil => exact x4Emulate_of_step_none hstep steps
  | cons next rest => rw [emulateSlices, x4Emulate_of_step_none hstep, emulateSlices]

theorem x4Emulate_of_step_some {result : UInt8} (hstep : m.step host = .ok (some result, m'))
    (steps : Nat) : m.x4Emulate host (steps + 1) = .ok (result, m') := by
  rw [x4Emulate, hstep]
  rfl

theorem emulateSlices_of_step_some {result : UInt8} (hstep : m.step host = .ok (some result, m'))
    (rest : List Nat) (steps : Nat) :
    m.emulateSlices host rest (steps + 1) = .ok (result, m') := by
  cases rest with
  | nil => exact x4Emulate_of_step_some hstep steps
  | cons next rest =>
      rw [emulateSlices, x4Emulate_of_step_some hstep]
      exact if_neg (step_some_ne_zero hstep)

theorem x4Emulate_of_step_error {trap : Trap} (hstep : m.step host = .error trap) (steps : Nat) :
    m.x4Emulate host (steps + 1) = .error trap := by
  rw [x4Emulate, hstep]
  rfl

theorem emulateSlices_of_step_error {trap : Trap} (hstep : m.step host = .error trap)
    (rest : List Nat) (steps : Nat) : m.emulateSlices host rest (steps + 1) = .error trap := by
  cases rest with
  | nil => exact x4Emulate_of_step_error hstep steps
  | cons next rest =>
      rw [emulateSlices, x4Emulate_of_step_error hstep]
      rfl

/-- A slice without steps only ends the line. -/
theorem emulateSlices_zero (next : Nat) (rest : List Nat) (m : Machine Files) :
    m.emulateSlices host (next :: rest) 0 = m.endLine.emulateSlices host rest next := rfl

theorem executed_of_step_none (hstep : m.step host = .ok (none, m')) (steps : Nat) :
    m.executed host (steps + 1) = m :: m'.executed host steps := by
  rw [executed, hstep]

/-- Slices do what one call does if no line is begun at the cuts. -/
theorem emulateSlices_of_cutsClean (rest : List Nat) (steps : Nat) (m : Machine Files)
    (hclean : m.CutsClean host rest steps) :
    m.emulateSlices host rest steps = m.x4Emulate host (steps + rest.sum) := by
  induction rest generalizing steps m with
  | nil => rfl
  | cons next rest ih =>
      induction steps generalizing m with
      | zero =>
          obtain ⟨hflag, hrest⟩ := hclean m rfl
          have hend : m.endLine = m := by
            rw [endLine, hflag]
            rfl
          rw [emulateSlices_zero, hend, ih _ _ hrest, List.sum_cons, Nat.zero_add]
      | succ steps ihsteps =>
          rw [Nat.add_right_comm]
          cases hstep : m.step host with
          | error trap =>
              rw [emulateSlices_of_step_error hstep, x4Emulate_of_step_error hstep]
          | ok answer =>
              obtain ⟨result, m₁⟩ := answer
              cases result with
              | none =>
                  rw [emulateSlices_of_step_none hstep, x4Emulate_of_step_none hstep]
                  apply ihsteps
                  intro m' hafter
                  apply hclean m'
                  rw [after, hstep]
                  exact hafter
              | some result =>
                  rw [emulateSlices_of_step_some hstep, x4Emulate_of_step_some hstep]

end Machine

theorem Alike.step (h : Alike n m m') (hreads : ¬m.ReadsState) :
    Both (fun p q => q.1 = p.1 ∧ Alike n p.2 q.2) (m.step host) (m'.step host) := by
  have hsame : m'.opcode = m.opcode ∧ m'.args = m.args := by
    cases h
    exact ⟨rfl, rfl⟩
  rw [Machine.step, Machine.step, hsame.1, hsame.2]
  cases hopcode : m.opcode with
  | none => exact .ok ⟨rfl, h.advance 1⟩
  | some opcode => exact (h.advance 1).execute fun hmem => hreads ⟨opcode, hopcode, hmem⟩

theorem Alike.mono (h : Alike n m m') (cuts : Nat) : Alike (n + cuts) m m' := by
  induction cuts with
  | zero => exact h
  | succ cuts ih =>
      cases ih with
      | told hcuts => exact told hcuts.mono

/-- Slices are like one call, up to some cuts. -/
def SlicesAlike (host : Host Files) (n : Nat) (rest : List Nat) (steps : Nat)
    (m m' : Machine Files) : Prop :=
  (∀ p ∈ m.executed host (steps + rest.sum), ¬p.ReadsState) →
    Both (fun p q => q.1 = p.1 ∧ Alike (n + rest.length) p.2 q.2)
      (m.x4Emulate host (steps + rest.sum)) (m'.emulateSlices host rest steps)

/-- One round more in the slice before the next cut. -/
theorem slicesAlike_succ {rest : List Nat} {steps : Nat}
    (ih : ∀ m m' : Machine Files, Alike n m m' → SlicesAlike host n rest steps m m')
    (h : Alike n m m') : SlicesAlike host n rest (steps + 1) m m' := by
  intro hreads
  rw [Nat.add_right_comm] at hreads ⊢
  have hround := @Alike.step _ host _ _ _ h (hreads m (by simp [executed]))
  rcases hround.trap_or_ok with ⟨trap, hstep, hstep'⟩ | ⟨⟨_, m₁⟩, ⟨result, m₁'⟩, hstep, hstep',
    rfl, hnext⟩
  · rw [x4Emulate_of_step_error hstep, emulateSlices_of_step_error hstep']
    exact .error trap
  · cases result with
    | none =>
        rw [executed_of_step_none hstep] at hreads
        rw [x4Emulate_of_step_none hstep, emulateSlices_of_step_none hstep']
        exact ih m₁ m₁' hnext fun p hp => hreads p (List.mem_cons_of_mem m hp)
    | some result =>
        rw [x4Emulate_of_step_some hstep, emulateSlices_of_step_some hstep']
        exact .ok ⟨rfl, hnext.mono rest.length⟩

/-- The slices of a run, by induction on the cuts and on the steps up to the next one. -/
theorem Alike.slices (rest : List Nat) (steps : Nat) (h : Alike n m m') :
    SlicesAlike host n rest steps m m' := by
  induction rest generalizing n steps m m' with
  | nil =>
      induction steps generalizing m m' with
      | zero => exact fun _ => .ok ⟨rfl, h.endLine⟩
      | succ steps ih => exact slicesAlike_succ (fun _ _ => ih) h
  | cons next rest ih =>
      induction steps generalizing m m' with
      | zero =>
          intro hreads
          rw [List.sum_cons, Nat.zero_add] at hreads ⊢
          rw [emulateSlices_zero]
          have hrest := ih next h.cut hreads
          rwa [Nat.add_right_comm] at hrest
      | succ steps ihsteps => exact slicesAlike_succ (fun _ _ => ihsteps) h

/-- Machines that are the same apart from their console, of which the second one has so many
lines more. -/
structure SameRun (n : Nat) (m m' : Machine Files) : Prop where
  cache : m'.cache.clearFlag x4emmFlagConsoleDirty = m.cache.clearFlag x4emmFlagConsoleDirty
  memory : m'.memory = m.memory
  printed : Broken n m.printed m'.printed
  lastCharacter : m'.lastCharacter = m.lastCharacter
  keysRead : m'.keysRead = m.keysRead
  files : m'.files = m.files

theorem Alike.sameRun (h : Alike n m m') : SameRun n m m' := by
  cases h with
  | told h =>
      refine ⟨?_, rfl, h.broken, rfl, rfl, rfl⟩
      exact congrArg (fun state => { m.cache with state }) h.flags

/-- Slices are the same as one call if no line is begun where they are cut. If the program never
looks at the flags, they break lines of the output and there is no other difference. -/
theorem slices_transparent {Files : Type} (host : Host Files) (m : Machine Files) (steps : Nat)
    (rest : List Nat) :
    (m.CutsClean host rest steps →
        m.emulateSlices host rest steps = m.x4Emulate host (steps + rest.sum)) ∧
      ((∀ p ∈ m.executed host (steps + rest.sum), ¬p.ReadsState) →
        Both (fun p q => q.1 = p.1 ∧ SameRun rest.length p.2 q.2)
          (m.x4Emulate host (steps + rest.sum)) (m.emulateSlices host rest steps)) := by
  refine ⟨emulateSlices_of_cutsClean rest steps m, fun hreads => ?_⟩
  have hstart : Alike 0 m m := .told (.same (.refl 0 _) _)
  have hslices := hstart.slices rest steps hreads
  rw [Nat.zero_add] at hslices
  exact hslices.mono fun _ _ h => ⟨h.1, h.2.sameRun⟩

/-- Prints a text twice, and stops. -/
def Machine.printing : Machine Unit :=
  .load [0x89, 1, 0x09, 0x89, 6, 12, 0xCD, 0x10, 0xCD, 0x10, 0xCD, 0x20, 0x41, 0]

/-- A cut before the output changes nothing, and one between the texts breaks the line. -/
theorem slices_transparent_printing :
    Machine.printing.emulateSlices .idle [2] 2 = Machine.printing.x4Emulate .idle 4 ∧
      Both (fun p q => q.1 = p.1 ∧ SameRun 1 p.2 q.2)
        (Machine.printing.x4Emulate .idle 4) (Machine.printing.emulateSlices .idle [1] 3) := by
  have hflag : (Machine.printing.after .idle 2).map
      (·.cache.hasFlag x4emmFlagConsoleDirty) = some false := by decide +kernel
  have hreads : ∀ p ∈ Machine.printing.executed .idle 4, ∀ opcode ∈ p.opcode,
      statePlace ∉ opcode.reads p.args := by decide +kernel
  constructor
  · apply (slices_transparent .idle .printing 2 [2]).1
    intro m' hafter
    rw [hafter] at hflag
    exact ⟨Option.some.inj hflag, trivial⟩
  · apply (slices_transparent .idle .printing 3 [1]).2
    rintro p hp ⟨opcode, hopcode, hmem⟩
    exact hreads p hp opcode hopcode hmem

/-- A cut between two texts on a line ends the line. -/
theorem slices_not_transparent :
    ¬∀ (m : Machine Unit) (steps : Nat) (rest : List Nat),
      (∀ p ∈ m.executed .idle (steps + rest.sum), ¬p.ReadsKeyboard) →
        Both (fun p q => q.1 = p.1 ∧ q.2.printed = p.2.printed)
          (m.x4Emulate .idle (steps + rest.sum)) (m.emulateSlices .idle rest steps) := by
  intro h
  have hkeys : ∀ p ∈ Machine.printing.executed .idle (3 + [1].sum), ¬p.ReadsKeyboard := by
    have hargs : ∀ p ∈ Machine.printing.executed .idle 4, p.args.a ≠ 0x16 := by decide +kernel
    exact fun p hp hread => hargs p hp hread.2.1
  have hone : (Machine.printing.x4Emulate .idle (3 + [1].sum)).toOption.map (·.2.printed) =
      some [.char 0x41, .char 0x41, .char newline] := by decide +kernel
  have htwo : (Machine.printing.emulateSlices .idle [1] 3).toOption.map (·.2.printed) =
      some [.char 0x41, .char newline, .char 0x41, .char newline] := by decide +kernel
  rcases (h .printing 3 [1] hkeys).trap_or_ok with ⟨trap, hp, -⟩ | ⟨p, q, hp, hq, -, hsame⟩
  · rw [hp] at hone
    cases hone
  · rw [hp] at hone
    rw [hq] at htwo
    have hprinted := (Option.some.inj htwo).symm.trans (hsame.trans (Option.some.inj hone))
    exact absurd hprinted (by decide)

end AvrKernel.X4

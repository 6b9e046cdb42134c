import AvrKernel.Emulation.Machine

/-!
# Containment

An instruction names registers with any byte. It stays within the registers if its
operands do, and it divides by zero only if the byte that it divides by is zero.
-/

namespace AvrKernel.X4

open Machine

/-- The places of the registers that an operation uses. -/
def Opcode.places (args : Args) : Opcode → List Nat
  | movmr | movmw | movb | inc | dec | not | pop | push | cmp => [args.a.toNat]
  | movr | add | sub | and | or | xor | cmpr => [args.a.toNat, args.b.toNat]
  | mova => [args.a.toNat, args.a.toNat + 1]
  | mul | div => [args.b.toNat, args.c.toNat, args.a.toNat]
  | jmp | je | jne | jg | jl | jz | jnz | call | ret | int | sti | cli | nop => []

/-- The operands are registers, and a divisor is not zero. -/
def Opcode.InBounds (opcode : Opcode) (args : Args) (r : X4CpuRegisters) : Prop :=
  (∀ place ∈ opcode.places args, place < X4CpuRegisters.size) ∧
    (opcode = .div → r.get args.c.toNat ≠ .ok 0)

/-- What an instruction does stays within the registers and the bus. -/
def Contained {α : Type} (result : Except Trap α) : Prop :=
  (∀ place, result ≠ .error (.outside place)) ∧ result ≠ .error .divideByZero

section Contained

variable {α β : Type} {p : Except Trap α}

theorem contained_ok (value : α) : Contained (.ok value : Except Trap α) :=
  ⟨fun _ => nofun, nofun⟩

theorem contained_endless : Contained (.error .endless : Except Trap α) :=
  ⟨fun _ => nofun, nofun⟩

@[simp] theorem contained_map {f : α → β} : Contained (p.map f) ↔ Contained p := by
  cases p with
  | ok value => exact iff_of_true (contained_ok _) (contained_ok _)
  | error trap => simp [Contained, Except.map]

/-- A program goes on after an access to the registers if that is one. -/
theorem contained_bind {f : α → Except Trap β} {inside : Prop}
    (hin : inside → ∃ value, p = .ok value)
    (hout : ¬inside → ∃ place, p = .error (.outside place)) :
    Contained (p >>= f) ↔ inside ∧ ∀ value, p = .ok value → Contained (f value) := by
  by_cases h : inside
  · obtain ⟨value, rfl⟩ := hin h
    simp [h, bind, Except.bind]
  · obtain ⟨place, rfl⟩ := hout h
    simp [h, bind, Except.bind, Contained]

end Contained

variable {Files : Type} {host : Host Files} {m : Machine Files} {args : Args}

namespace Machine

theorem contained_get {β : Type} {place : UInt8} {f : UInt8 → Except Trap β} :
    Contained (m.getRegister place >>= f) ↔ place.toNat < X4CpuRegisters.size ∧
      ∀ byte, m.cache.get place.toNat = .ok byte → Contained (f byte) :=
  contained_bind X4CpuRegisters.get_inside fun h => ⟨_, X4CpuRegisters.get_outside h⟩

theorem contained_read {place : UInt8} {f : UInt8 → Machine Files} :
    Contained (do
        let byte ← m.getRegister place
        return f byte) ↔ place.toNat < X4CpuRegisters.size :=
  contained_get.trans (and_iff_left fun _ _ => contained_ok _)

theorem contained_set {place value : UInt8} :
    Contained (m.setRegister place value) ↔ place.toNat < X4CpuRegisters.size := by
  rw [setRegister, contained_map]
  by_cases h : place.toNat < X4CpuRegisters.size
  · obtain ⟨r, hr⟩ := @X4CpuRegisters.set_inside m.cache _ value h
    exact iff_of_true (hr ▸ contained_ok r) h
  · rw [X4CpuRegisters.set_outside h]
    exact iff_of_false (fun hc => hc.1 _ rfl) h

theorem contained_setResult {place value : UInt8} :
    Contained (m.setResult place value) ↔ place.toNat < X4CpuRegisters.size := by
  have hmap : m.setResult place value = (m.setRegister place value).map fun m =>
      m.withCache (m.cache.updateZeroFlag value) := by
    rw [setResult]
    cases m.setRegister place value <;> rfl
  rw [hmap, contained_map, contained_set]

theorem contained_mova :
    Contained (m.opcodeMOVA args) ↔ args.a.toNat < X4CpuRegisters.size ∧
      args.a.toNat + 1 < X4CpuRegisters.size := by
  have hset : ∀ (r : X4CpuRegisters) (place : Nat) (byte : UInt8),
      Contained (r.set place byte) ↔ place < X4CpuRegisters.size := by
    intro r place byte
    by_cases h : place < X4CpuRegisters.size
    · obtain ⟨r', hr⟩ := @X4CpuRegisters.set_inside r _ byte h
      exact iff_of_true (hr ▸ contained_ok r') h
    · rw [X4CpuRegisters.set_outside h]
      exact iff_of_false (fun hc => hc.1 _ rfl) h
  rw [opcodeMOVA, setRegister]
  by_cases h : args.a.toNat < X4CpuRegisters.size
  · obtain ⟨r, hr⟩ := @X4CpuRegisters.set_inside m.cache _ args.b h
    simp only [hr, Except.map, bind, Except.bind, h, true_and]
    exact contained_map.trans (hset _ _ _)
  · rw [X4CpuRegisters.set_outside h]
    exact iff_of_false (fun hc => hc.1 _ rfl) fun hb => h hb.1

theorem contained_unary {f : UInt8 → UInt8} :
    Contained (m.unary f args) ↔ args.a.toNat < X4CpuRegisters.size := by
  rw [unary, contained_get]
  exact ⟨And.left, fun h => ⟨h, fun _ _ => contained_setResult.mpr h⟩⟩

theorem contained_two {place place' : UInt8} {f : UInt8 → UInt8 → Except Trap (Machine Files)}
    {inside : Prop} (hf : ∀ left right, Contained (f left right) ↔ inside) :
    Contained (do
        let left ← m.getRegister place
        let right ← m.getRegister place'
        f left right) ↔
      place.toNat < X4CpuRegisters.size ∧ place'.toNat < X4CpuRegisters.size ∧ inside := by
  rw [contained_get]
  refine and_congr_right fun hplace => ?_
  obtain ⟨left, hleft⟩ := X4CpuRegisters.get_inside (r := m.cache) hplace
  simp only [hleft, Except.ok.injEq, forall_eq', contained_get]
  refine and_congr_right fun hplace' => ?_
  obtain ⟨right, hright⟩ := X4CpuRegisters.get_inside (r := m.cache) hplace'
  simp only [hright, Except.ok.injEq, forall_eq', hf]

theorem contained_binary {f : UInt8 → UInt8 → UInt8} :
    Contained (m.binary f args) ↔ args.a.toNat < X4CpuRegisters.size ∧
      args.b.toNat < X4CpuRegisters.size := by
  refine (contained_two fun _ _ => contained_setResult).trans ?_
  exact ⟨fun h => ⟨h.1, h.2.1⟩, fun h => ⟨h.1, h.2, h.1⟩⟩

theorem contained_opcodeINT : Contained (m.opcodeINT host args) := by
  rw [opcodeINT]
  split_ifs
  · exact contained_ok _
  · rw [iscDisplayRoutine]
    split_ifs
    · split
      · exact contained_endless
      · exact contained_ok _
    · exact contained_ok _
    · exact contained_ok _
  · exact contained_ok _
  · dsimp only
    split
    · exact contained_ok _
    · exact contained_ok _
  · exact contained_ok _

theorem contained_div :
    Contained (m.opcodeDIV args) ↔ args.b.toNat < X4CpuRegisters.size ∧
      args.c.toNat < X4CpuRegisters.size ∧ args.a.toNat < X4CpuRegisters.size ∧
      m.cache.get args.c.toNat ≠ .ok 0 := by
  rw [opcodeDIV, contained_get]
  refine and_congr_right fun hb => ?_
  obtain ⟨left, hleft⟩ := X4CpuRegisters.get_inside (r := m.cache) hb
  simp only [hleft, Except.ok.injEq, forall_eq', contained_get]
  refine and_congr_right fun hc => ?_
  obtain ⟨right, hright⟩ := X4CpuRegisters.get_inside (r := m.cache) hc
  simp only [hright, Except.ok.injEq, forall_eq']
  split
  next hzero => exact iff_of_false (fun h => h.2 rfl) fun h => h.2 (by rw [hzero])
  next hzero => exact contained_setResult.trans (and_iff_left fun h => hzero (Except.ok.inj h)).symm

/-- An operation is contained just in case its operands are in bounds. -/
theorem contained_execute (opcode : Opcode) :
    Contained (m.execute host opcode args) ↔ opcode.InBounds args m.cache := by
  have hone : ∀ {opcode : Opcode}, opcode ≠ .div → opcode.places args = [args.a.toNat] →
      (opcode.InBounds args m.cache ↔ args.a.toNat < X4CpuRegisters.size) := by
    intro opcode hdiv hplaces
    simp [Opcode.InBounds, hdiv, hplaces]
  have htwo : ∀ {opcode : Opcode}, opcode ≠ .div →
      opcode.places args = [args.a.toNat, args.b.toNat] →
        (opcode.InBounds args m.cache ↔
          args.a.toNat < X4CpuRegisters.size ∧ args.b.toNat < X4CpuRegisters.size) := by
    intro opcode hdiv hplaces
    simp [Opcode.InBounds, hdiv, hplaces]
  cases opcode with
  | movmr | movb | pop =>
      rw [execute, contained_map]
      exact contained_set.trans (hone (by decide) rfl).symm
  | movmw | push | cmp =>
      rw [execute, contained_map]
      exact contained_read.trans (hone (by decide) rfl).symm
  | movr =>
      rw [execute, contained_map]
      refine Iff.trans ?_ (and_comm.trans (htwo (by decide) rfl).symm)
      refine contained_get.trans (and_congr_right fun hb => ?_)
      obtain ⟨byte, hbyte⟩ := X4CpuRegisters.get_inside (r := m.cache) hb
      simp only [hbyte, Except.ok.injEq, forall_eq', contained_set]
  | mova =>
      rw [execute, contained_map]
      exact contained_mova.trans (by simp [Opcode.InBounds, Opcode.places])
  | inc | dec | not =>
      rw [execute, contained_map]
      exact contained_unary.trans (hone (by decide) rfl).symm
  | add | sub | and | or | xor =>
      rw [execute, contained_map]
      exact contained_binary.trans (htwo (by decide) rfl).symm
  | cmpr =>
      rw [execute, contained_map]
      refine Iff.trans ?_ (htwo (by decide) rfl).symm
      refine (contained_two fun _ _ => iff_true_intro (contained_ok _)).trans ?_
      rw [and_true]
  | mul =>
      rw [execute, contained_map]
      exact (contained_two fun _ _ => contained_setResult).trans
        (by simp [Opcode.InBounds, Opcode.places])
  | div =>
      rw [execute, contained_map]
      exact contained_div.trans (by simp [Opcode.InBounds, Opcode.places, and_assoc])
  | int =>
      rw [execute, contained_map]
      exact iff_of_true contained_opcodeINT ⟨nofun, nofun⟩
  | jmp | je | jne | jg | jl | jz | jnz | call | ret | cli | sti | nop =>
      exact iff_of_true (contained_ok _) ⟨nofun, nofun⟩

/-- The operands of the instruction at which a machine stands are in bounds. -/
def InBounds (m : Machine Files) : Prop :=
  ∀ opcode, m.opcode = some opcode → opcode.InBounds m.args (m.advance 1).cache

theorem contained_step : Contained (m.step host) ↔ m.InBounds := by
  rw [step, InBounds]
  cases m.opcode with
  | none => exact iff_of_true (contained_ok _) nofun
  | some opcode =>
      rw [contained_execute]
      exact ⟨fun h _ heq => Option.some.inj heq ▸ h, fun h => h opcode rfl⟩

/-- The machines whose instructions `x4_emulate` executes. -/
def executed (host : Host Files) : Nat → Machine Files → List (Machine Files)
  | 0, _ => []
  | steps + 1, m => m :: match m.step host with
      | .ok (none, m) => executed host steps m
      | _ => []

/-- An emulation is contained if all of its instructions are. -/
theorem contained_x4Emulate (steps : Nat) (m : Machine Files) :
    Contained (m.x4Emulate host steps) ↔ ∀ m' ∈ m.executed host steps, m'.InBounds := by
  induction steps generalizing m with
  | zero => exact iff_of_true (contained_ok _) nofun
  | succ steps ih =>
      rw [x4Emulate, executed, List.forall_mem_cons, ← @contained_step _ host]
      cases hstep : m.step host with
      | error trap =>
          simp [Contained, bind, Except.bind]
      | ok result =>
          obtain ⟨result, m'⟩ := result
          cases result with
          | none =>
              simp only [contained_ok, true_and, ← ih]
              rfl
          | some value => exact iff_of_true (contained_ok _) ⟨contained_ok _, nofun⟩

end Machine

/-- Instructions read and write outside of the registers and the bus, or divide by zero, if and
only if an operand is no register, or the divisor is zero. -/
theorem instructions_contained (host : Host Files) (m : Machine Files) (steps : Nat) :
    (∀ m' ∈ m.executed host steps, (Contained (m'.step host) ↔ m'.InBounds)) ∧
      (Contained (m.x4Emulate host steps) ↔ ∀ m' ∈ m.executed host steps, m'.InBounds) :=
  ⟨fun _ _ => contained_step, contained_x4Emulate steps m⟩

/-- A kernel without keys and files. -/
def Host.idle : Host Unit where
  heapBegin := 0
  kbGetCurrentChar := fun _ => 0
  mounted := fun _ => false
  fsFileCreate := fun _ _ world => (false, world)

/-- A new thread with its code at 0 and its stack at `0x1000`. -/
def Machine.load (code : List UInt8) : Machine Unit where
  cache := { al := 0, ah := 0, bl := 0, bh := 0, cl := 0, ch := 0, dl := 0, dh := 0
             ep := 0, bp := 0, sp := 0, state := 0, cs := 0, ds := 0, ss := 0x1000 }
  memory := Bytes.Mem.overlay (fun _ => 0) 0 code
  printed := []
  lastCharacter := 0
  keysRead := 0
  files := ()

/-- `MOVB` writes behind the registers, and `DIV` divides by zero. -/
theorem instructions_not_contained :
    ¬Contained ((Machine.load [0x89, 33, 0xFF]).x4Emulate .idle 1) ∧
      ¬Contained ((Machine.load [0xF4, 0, 1, 2]).x4Emulate .idle 1) := by
  have houtside : (Machine.load [0x89, 33, 0xFF]).x4Emulate .idle 1 = .error (.outside 33) := rfl
  have hzero : (Machine.load [0xF4, 0, 1, 2]).x4Emulate .idle 1 = .error .divideByZero := rfl
  exact ⟨fun h => h.1 33 houtside, fun h => h.2 hzero⟩

end AvrKernel.X4

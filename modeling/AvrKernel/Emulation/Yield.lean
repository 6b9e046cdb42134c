import AvrKernel.Emulation.Slices

/-!
# Yields of programs which wait

`INT 16h` with `ah = 0` waits for a key: `opcode_INT` moves `ep` back, and `x4_emulate` returns
`0xD6` to `scheduler_handler`, which keeps the registers in the block of the process and calls
`x4_emulate` with them again.
-/

namespace AvrKernel.X4

open Machine

variable {Files : Type} {host : Host Files} {m : Machine Files}

/-- The place on the bus of the next instruction. -/
def X4CpuRegisters.fetchAddress (r : X4CpuRegisters) : UInt32 := busAddress (r.cs + r.ep)

/-- The next instruction waits for a key, and there is no new one. -/
structure Machine.WaitsForKey (host : Host Files) (m : Machine Files) : Prop where
  interrupt : m.opcode = some .int
  service : m.args.a = 0x16
  wait : m.cache.ah = 0x00
  noKey : host.kbGetCurrentChar m.keysRead = m.lastCharacter

/-- A call yields, the next one begins with the same instruction, and apart from `al` a program
finds everything as it was. -/
def Machine.Resumes (host : Host Files) (steps : Nat) (m : Machine Files) : Prop :=
  ∃ m', m.x4Emulate host steps = .ok (0xD6, m') ∧
    m'.cache.fetchAddress = m.cache.fetchAddress ∧
    { m'.cache with al := m.cache.al } = m.cache ∧ m'.memory = m.memory

/-- The machine that a call leaves behind at an instruction which waits. -/
def Machine.yielded (m : Machine Files) : Machine Files :=
  let waiting := (m.advance 1).withCache { (m.advance 1).cache with al := 0 }
  ({ waiting with keysRead := m.keysRead + 1 }.advance (-2)).endLine

namespace Machine

@[simp] theorem advance_cache (count : UInt32) :
    (m.advance count).cache = { m.cache with ep := m.cache.ep + count } := rfl

@[simp] theorem withCache_cache (cache : X4CpuRegisters) : (m.withCache cache).cache = cache := rfl

/-- The end of a line is no more than the flag of the console and what is printed. -/
theorem endLine_cache :
    ∃ state, quietFlags state = quietFlags m.cache.state ∧
      m.endLine.cache = { m.cache with state } := by
  rw [endLine]
  split
  · exact ⟨quietFlags m.cache.state, quietFlags_idem _, rfl⟩
  · exact ⟨m.cache.state, rfl, rfl⟩

theorem endLine_memory : m.endLine.memory = m.memory := by
  rw [endLine]
  split <;> rfl

end Machine

namespace Machine.WaitsForKey

theorem iscKeyboardRoutine_eq (h : m.WaitsForKey host) :
    (m.advance 1).iscKeyboardRoutine host =
      (0xD6, { (m.advance 1).withCache { (m.advance 1).cache with al := 0 } with
        keysRead := m.keysRead + 1 }) := by
  have hah : (m.advance 1).cache.ah = 0x00 := h.wait
  have hkey : ¬host.kbGetCurrentChar (m.advance 1).keysRead ≠ (m.advance 1).lastCharacter :=
    not_not.mpr h.noKey
  rw [iscKeyboardRoutine, if_pos (.inl hah)]
  simp only [if_neg hkey, hah]
  rfl

theorem opcodeINT_eq (h : m.WaitsForKey host) :
    (m.advance 1).opcodeINT host m.args =
      .ok (0xD6, { (m.advance 1).withCache { (m.advance 1).cache with al := 0 } with
        keysRead := m.keysRead + 1 }.advance (-2)) := by
  rw [opcodeINT, h.service, h.iscKeyboardRoutine_eq]
  rfl

theorem step_eq (h : m.WaitsForKey host) : m.step host = .ok (some 0xD6, m.yielded) := by
  rw [step, h.interrupt]
  simp only [execute, h.opcodeINT_eq]
  rfl

theorem x4Emulate_eq (h : m.WaitsForKey host) (steps : Nat) :
    m.x4Emulate host (steps + 1) = .ok (0xD6, m.yielded) :=
  x4Emulate_of_step_some h.step_eq steps

end Machine.WaitsForKey

/-- `ep` was one further when it moved back by two. -/
theorem Machine.yielded_cache (m : Machine Files) :
    ∃ state, quietFlags state = quietFlags m.cache.state ∧
      m.yielded.cache = { m.cache with al := 0, ep := m.cache.ep - 1, state } := by
  obtain ⟨state, hflags, hstate⟩ := endLine_cache (m := { (m.advance 1).withCache
    { (m.advance 1).cache with al := 0 } with keysRead := m.keysRead + 1 }.advance (-2))
  have hep : m.cache.ep + 1 + -2 = m.cache.ep - 1 := by
    rw [UInt32.add_assoc, UInt32.sub_eq_add_neg]
    rfl
  refine ⟨state, hflags, hstate.trans ?_⟩
  simp [hep]

theorem Machine.yielded_memory (m : Machine Files) : m.yielded.memory = m.memory :=
  endLine_memory

/-- Neighbours on the bus differ. -/
theorem busAddress_sub_one_ne (address : UInt32) :
    busAddress (address - 1) ≠ busAddress address := by
  intro h
  have hnat := congrArg UInt32.toNat h
  have hmask : (0x00FFFFFF : UInt32).toNat = 2 ^ 24 - 1 := rfl
  rw [busAddress, busAddress, UInt32.toNat_and, UInt32.toNat_and, hmask,
    Nat.and_two_pow_sub_one_eq_mod, Nat.and_two_pow_sub_one_eq_mod, UInt32.toNat_sub] at hnat
  have hone : (1 : UInt32).toNat = 1 := rfl
  have hlt := address.toNat_lt
  omega

theorem Machine.yielded_fetchAddress (m : Machine Files) :
    m.yielded.cache.fetchAddress = busAddress (m.cache.cs + m.cache.ep - 1) := by
  obtain ⟨state, -, hcache⟩ := m.yielded_cache
  rw [X4CpuRegisters.fetchAddress, hcache]
  apply congrArg busAddress
  simp [UInt32.sub_eq_add_neg, UInt32.add_assoc]

/-- A program that waits for a key goes on with the byte before its `INT`. Nothing else but `al` and
the flag of the console is lost. -/
theorem yield_not_resumes (host : Host Files) (m : Machine Files) (h : m.WaitsForKey host)
    (steps : Nat) :
    ¬m.Resumes host steps ∧
      ∃ m' state, m.x4Emulate host (steps + 1) = .ok (0xD6, m') ∧
        m'.cache.fetchAddress = busAddress (m.cache.cs + m.cache.ep - 1) ∧
        quietFlags state = quietFlags m.cache.state ∧
        m'.cache = { m.cache with al := 0, ep := m.cache.ep - 1, state } ∧
        m'.memory = m.memory := by
  constructor
  · rintro ⟨m', hrun, hfetch, -⟩
    cases steps with
    | zero => simp [x4Emulate] at hrun
    | succ steps =>
        rw [h.x4Emulate_eq] at hrun
        cases hrun
        rw [m.yielded_fetchAddress] at hfetch
        exact busAddress_sub_one_ne _ hfetch
  · obtain ⟨state, hflags, hcache⟩ := m.yielded_cache
    exact ⟨m.yielded, state, h.x4Emulate_eq steps, m.yielded_fetchAddress, hflags, hcache,
      m.yielded_memory⟩

/-- Waits for a key after `MOVB ah, 0`. -/
def Machine.waiting : Machine Unit :=
  (Machine.load [0x89, 1, 0x00, 0xCD, 0x16, 0xCD, 0x20]).advance 3

theorem waitsForKey_waiting : Machine.waiting.WaitsForKey .idle where
  interrupt := by decide
  service := by decide
  wait := rfl
  noKey := rfl

theorem yield_not_resumes_waiting :
    ¬Machine.waiting.Resumes .idle 4 ∧
      ∃ m' state, Machine.waiting.x4Emulate .idle 5 = .ok (0xD6, m') ∧
        m'.cache.fetchAddress =
          busAddress (Machine.waiting.cache.cs + Machine.waiting.cache.ep - 1) ∧
        quietFlags state = quietFlags Machine.waiting.cache.state ∧
        m'.cache = { Machine.waiting.cache with
          al := 0, ep := Machine.waiting.cache.ep - 1, state } ∧
        m'.memory = Machine.waiting.memory :=
  yield_not_resumes .idle .waiting waitsForKey_waiting 4

/-- The last byte of `MOVB` comes next, which is `ADD`. -/
theorem yield_loses_interrupt :
    ¬∀ (m : Machine Unit) (steps : Nat), m.WaitsForKey .idle → m.Resumes .idle (steps + 1) := by
  intro h
  obtain ⟨m', hrun, hfetch, -⟩ := h .waiting 4 waitsForKey_waiting
  have hplace : (Machine.waiting.x4Emulate .idle 5).toOption.map (·.2.cache.fetchAddress) =
      some 2 := by decide +kernel
  rw [hrun] at hplace
  have hnext : m'.cache.fetchAddress = 2 := Option.some.inj hplace
  rw [hnext] at hfetch
  exact absurd hfetch (by decide)

end AvrKernel.X4

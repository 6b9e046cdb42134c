import AvrKernel.Emulation.Containment
import Mathlib.Data.Set.Basic
import Mathlib.Tactic.IntervalCases

/-!
# Calls return

`CALL` saves `bp` and the address behind it on the stack, and `RET` takes them from where
`bp` points. In between, calls nest.
-/

namespace AvrKernel.X4

open Machine

variable {Files : Type} {host : Host Files} {m m₁ m₂ m₃ : Machine Files}

theorem busAddress_toNat (address : UInt32) :
    (busAddress address).toNat = address.toNat % 2 ^ 24 := by
  rw [busAddress, UInt32.toNat_and]
  exact Nat.and_two_pow_sub_one_eq_mod _ 24

theorem busAddress_add_ne {base i j : UInt32} (hi : i.toNat < 2 ^ 24) (hj : j.toNat < 2 ^ 24)
    (hne : i ≠ j) : busAddress (base + i) ≠ busAddress (base + j) := by
  intro heq
  have hnat := congrArg UInt32.toNat heq
  have hne' : i.toNat ≠ j.toNat := fun h => hne (UInt32.toNat_inj.mp h)
  rw [busAddress_toNat, busAddress_toNat, UInt32.toNat_add, UInt32.toNat_add] at hnat
  omega

/-! ## The stack -/

namespace Machine

/-- Several bytes are pushed. -/
def pushAll (m : Machine Files) (bytes : List UInt8) : Machine Files := bytes.foldl stackPush m

/-- The place of a byte on the stack. -/
def stackAddress (r : X4CpuRegisters) (sp : UInt32) : UInt32 := busAddress (r.ss + sp)

theorem pushAll_cache (m : Machine Files) (bytes : List UInt8) :
    (m.pushAll bytes).cache = { m.cache with sp := m.cache.sp + .ofNat bytes.length } := by
  induction bytes generalizing m with
  | nil => simp [pushAll]
  | cons byte bytes ih =>
      have hrest := ih (m.stackPush byte)
      rw [pushAll, List.foldl_cons]
      rw [pushAll] at hrest
      rw [hrest]
      simp only [stackPush, withCache, writeb, List.length_cons, UInt32.ofNat_add]
      congr 1
      rw [UInt32.add_assoc, UInt32.add_comm 1]
      rfl

theorem pushAll_memory_of_ne {address : UInt32} (m : Machine Files) (bytes : List UInt8)
    (h : ∀ i < bytes.length, address ≠ stackAddress m.cache (m.cache.sp + .ofNat i)) :
    (m.pushAll bytes).memory address = m.memory address := by
  induction bytes generalizing m with
  | nil => rfl
  | cons byte bytes ih =>
      have hfirst := h 0 (Nat.succ_pos _)
      have hrest := ih (m.stackPush byte) fun i hi => by
        have hi' := h (i + 1) (Nat.succ_lt_succ hi)
        rw [UInt32.ofNat_add, UInt32.add_comm (.ofNat i), ← UInt32.add_assoc] at hi'
        exact hi'
      rw [pushAll, List.foldl_cons]
      refine hrest.trans (Function.update_of_ne ?_ _ _)
      simpa [stackAddress] using hfirst

/-- Pushed bytes stand on the stack one after the other. -/
theorem pushAll_memory (m : Machine Files) (bytes : List UInt8) (hlen : bytes.length ≤ 2 ^ 24)
    (i : Nat) (hi : i < bytes.length) :
    (m.pushAll bytes).memory (stackAddress m.cache (m.cache.sp + .ofNat i)) = bytes.getD i 0 := by
  induction bytes generalizing m i with
  | nil => cases hi
  | cons byte bytes ih =>
      rw [List.length_cons] at hlen hi
      rw [pushAll, List.foldl_cons]
      cases i with
      | zero =>
          refine (pushAll_memory_of_ne (m.stackPush byte) bytes fun j hj => ?_).trans ?_
          · have hne := @busAddress_add_ne (m.cache.ss + m.cache.sp) 0 (.ofNat (j + 1))
              (by decide) (by rw [UInt32.toNat_ofNat']; omega) (by
                intro heq
                have := congrArg UInt32.toNat heq
                rw [UInt32.toNat_ofNat'] at this
                simp at this
                omega)
            intro heq
            apply hne
            simp only [stackAddress, stackPush, withCache, writeb] at heq
            rw [UInt32.add_assoc, UInt32.add_assoc, UInt32.ofNat_add, UInt32.add_comm (.ofNat j),
              ← UInt32.add_assoc m.cache.sp]
            exact heq
          · simp [stackPush, withCache, writeb, stackAddress]
      | succ i =>
          have hnext := ih (m.stackPush byte) (by omega) i (by omega)
          rw [UInt32.ofNat_add, UInt32.add_comm (.ofNat i), ← UInt32.add_assoc]
          exact hnext

/-! ## A call and its return -/

def wordBytes (word : UInt32) : List UInt8 :=
  [byteOf word 0, byteOf word 1, byteOf word 2, byteOf word 3]

theorem getPointerFromBytes_byteOf (word : UInt32) :
    getPointerFromBytes (byteOf word 0) (byteOf word 1) (byteOf word 2) (byteOf word 3) = word :=
  Bytes.Layout.u32.decode_encode_self word

/-- The bytes of a word stand on the stack from a place on. -/
def StackWord (memory : Bytes.Mem) (r : X4CpuRegisters) (sp word : UInt32) : Prop :=
  ∀ i < 4, memory (stackAddress r (sp + .ofNat i)) = byteOf word i

/-- What a call saves is below `bp`. -/
def Saved (m : Machine Files) (bp returnAddress : UInt32) : Prop :=
  StackWord m.memory m.cache (m.cache.bp - 8) bp ∧
    StackWord m.memory m.cache (m.cache.bp - 4) returnAddress

theorem stackWord_pushAll (m : Machine Files) (first rest : List UInt8) (word : UInt32)
    (hlen : first.length + 4 + rest.length ≤ 2 ^ 24) :
    StackWord (m.pushAll (first ++ (wordBytes word ++ rest))).memory m.cache
      (m.cache.sp + .ofNat first.length) word := by
  intro i hi
  have hwhole : (first ++ (wordBytes word ++ rest)).length = first.length + 4 + rest.length := by
    simp only [wordBytes, List.length_append, List.length_cons, List.length_nil]
    omega
  have hbyte := pushAll_memory m (first ++ (wordBytes word ++ rest)) (by omega) (first.length + i)
    (by omega)
  rw [UInt32.ofNat_add, ← UInt32.add_assoc] at hbyte
  rw [hbyte, List.getD_append_right _ _ _ _ (by omega), Nat.add_sub_cancel_left]
  interval_cases i <;> rfl

theorem opcodeCALL_eq (args : Args) :
    m.opcodeCALL args =
      let pushed := m.pushAll (wordBytes m.cache.bp ++ (wordBytes (m.cache.ep + 4) ++ []))
      pushed.withCache { pushed.cache with
        bp := pushed.cache.sp
        ep := getPointerFromBytes args.a args.b args.c args.d } := rfl

theorem saved_opcodeCALL (args : Args) :
    (m.opcodeCALL args).cache.ss = m.cache.ss ∧
      (m.opcodeCALL args).cache.bp = m.cache.sp + 8 ∧
      (m.opcodeCALL args).Saved m.cache.bp (m.cache.ep + 4) := by
  have hbp := stackWord_pushAll m []
    (wordBytes (m.cache.ep + 4) ++ []) m.cache.bp (by simp [wordBytes])
  have hep := stackWord_pushAll m (wordBytes m.cache.bp) [] (m.cache.ep + 4) (by simp [wordBytes])
  have hcache : (m.pushAll (wordBytes m.cache.bp ++ (wordBytes (m.cache.ep + 4) ++ []))).cache =
      { m.cache with sp := m.cache.sp + 8 } := pushAll_cache m _
  rw [List.nil_append, show m.cache.sp + .ofNat ([] : List UInt8).length =
    m.cache.sp by simp] at hbp
  rw [show UInt32.ofNat (wordBytes m.cache.bp).length = 4 from rfl] at hep
  have hlow : m.cache.sp + 8 - 8 = m.cache.sp := by grind
  have hhigh : m.cache.sp + 8 - 4 = m.cache.sp + 4 := by grind
  rw [opcodeCALL_eq]
  generalize m.pushAll (wordBytes m.cache.bp ++ (wordBytes (m.cache.ep + 4) ++ [])) = pushed
    at hbp hep hcache ⊢
  simp only [Saved, withCache, hcache, hlow, hhigh]
  exact ⟨trivial, trivial, hbp, hep⟩

theorem stackPopPtr_eq {word : UInt32}
    (h : StackWord m.memory m.cache (m.cache.sp - 4) word) :
    m.stackPopPtr = (word, m.withCache { m.cache with sp := m.cache.sp - 4 }) := by
  have hbyte : ∀ i < 4, ∀ sp : UInt32, sp = m.cache.sp - 4 + .ofNat i →
      m.memory (stackAddress m.cache sp) = byteOf word i := by
    rintro i hi sp rfl
    exact h i hi
  have hsp : m.cache.sp - 1 - 1 - 1 - 1 = m.cache.sp - 4 := by grind
  have h3 := hbyte 3 (by decide) (m.cache.sp - 1) (by grind)
  have h2 := hbyte 2 (by decide) (m.cache.sp - 1 - 1) (by grind)
  have h1 := hbyte 1 (by decide) (m.cache.sp - 1 - 1 - 1) (by grind)
  have h0 := hbyte 0 (by decide) (m.cache.sp - 1 - 1 - 1 - 1) (by grind)
  simp only [stackAddress, hsp] at h3 h2 h1 h0
  simp only [stackPopPtr, stackPop, readb, withCache, h3, h2, h1, h0, hsp,
    getPointerFromBytes_byteOf]

theorem returned_opcodeRET {bp returnAddress : UInt32} (hsaved : m.Saved bp returnAddress) :
    m.opcodeRET = m.withCache { m.cache with
      ep := returnAddress, bp := bp, sp := m.cache.bp - 8 } := by
  have hep := @stackPopPtr_eq _ (m.withCache { m.cache with sp := m.cache.bp }) returnAddress
    hsaved.2
  have hplace : m.cache.bp - 4 - 4 = m.cache.bp - 8 := by grind
  have hbp := @stackPopPtr_eq _ (m.withCache { m.cache with
    ep := returnAddress, sp := m.cache.bp - 4 }) bp (by
      simp only [withCache, hplace]
      exact hsaved.1)
  rw [opcodeRET, hep]
  simp only [withCache, jump] at hbp ⊢
  rw [hbp, hplace]

theorem step_of_opcode {opcode : Opcode} (hopcode : m.opcode = some opcode) :
    m.step host = (m.advance 1).execute host opcode m.args := by
  rw [step, hopcode]

theorem step_call (hopcode : m.opcode = some .call) (hstep : m.step host = .ok (none, m₁)) :
    m₁.cache.ss = m.cache.ss ∧ m₁.cache.bp = m.cache.sp + 8 ∧
      m₁.Saved m.cache.bp (m.cache.ep + 5) := by
  rw [step_of_opcode hopcode] at hstep
  cases hstep
  obtain ⟨hss, hbp, hsaved⟩ := @saved_opcodeCALL _ (m.advance 1) m.args
  refine ⟨hss, hbp, ?_⟩
  have hep : (m.advance 1).cache.ep + 4 = m.cache.ep + 5 := by
    simp only [advance, withCache]
    grind
  rwa [hep] at hsaved

theorem step_ret {bp returnAddress : UInt32} (hopcode : m.opcode = some .ret)
    (hsaved : m.Saved bp returnAddress) (hstep : m.step host = .ok (none, m₁)) :
    m₁ = m.withCache { m.cache with ep := returnAddress, bp := bp, sp := m.cache.bp - 8 } := by
  rw [step_of_opcode hopcode] at hstep
  cases hstep
  exact @returned_opcodeRET _ (m.advance 1) bp returnAddress hsaved

/-! ## Bodies of calls -/

/-- The bytes that the call has saved to which `bp` belongs. -/
def savedBytes (m : Machine Files) : Set UInt32 :=
  {address | ∃ i < 8, address = stackAddress m.cache (m.cache.bp - 8 + .ofNat i)}

theorem Saved.of_same {bp returnAddress : UInt32} (h : m.Saved bp returnAddress)
    (hbp : m₁.cache.bp = m.cache.bp) (hss : m₁.cache.ss = m.cache.ss)
    (hmemory : ∀ address ∈ m.savedBytes, m₁.memory address = m.memory address) :
    m₁.Saved bp returnAddress := by
  have hsame : ∀ (i : Nat) (sp : UInt32), i < 8 → sp = m.cache.bp - 8 + .ofNat i →
      m₁.memory (stackAddress m₁.cache sp) = m.memory (stackAddress m.cache sp) := by
    rintro i sp hi rfl
    rw [stackAddress, hss]
    exact hmemory _ ⟨i, hi, rfl⟩
  refine ⟨fun i hi => ?_, fun i hi => ?_⟩
  · rw [hbp, hsame i _ (by omega) rfl]
    exact h.1 i hi
  · rw [hbp, hsame (4 + i) _ (by omega) (by rw [UInt32.ofNat_add]; grind)]
    exact h.2 i hi

end Machine

/-- The body of a call from one machine to another: calls and returns nest, all other
instructions are as `keep` says, and none changes the bytes at the addresses `saved` or those that
calls in the body have saved while these go on. -/
inductive Body (host : Host Files) (keep : Machine Files → Machine Files → Prop) :
    Set UInt32 → Machine Files → Machine Files → Prop
  | done (saved : Set UInt32) (m : Machine Files) : Body host keep saved m m
  | step {saved : Set UInt32} {m m₁ m' : Machine Files}
      (hcall : m.opcode ≠ some .call) (hret : m.opcode ≠ some .ret)
      (hstep : m.step host = .ok (none, m₁)) (hkeep : keep m m₁)
      (hsaved : ∀ address ∈ saved, m₁.memory address = m.memory address)
      (hrest : Body host keep saved m₁ m') : Body host keep saved m m'
  | call {saved : Set UInt32} {m m₁ m₂ m₃ m' : Machine Files}
      (hcall : m.opcode = some .call) (hstep : m.step host = .ok (none, m₁))
      (hsaved : ∀ address ∈ saved, m₁.memory address = m.memory address)
      (hbody : Body host keep (saved ∪ m₁.savedBytes) m₁ m₂)
      (hret : m₂.opcode = some .ret) (hreturn : m₂.step host = .ok (none, m₃))
      (hrest : Body host keep saved m₃ m') : Body host keep saved m m'

/-- The registers that say where the frame of a call is. -/
def KeepsFrame (m m' : Machine Files) : Prop :=
  m'.cache.bp = m.cache.bp ∧ m'.cache.ss = m.cache.ss

section Returns

variable {keep : Machine Files → Machine Files → Prop}

/-- A return behind the call whose frame is still there. -/
theorem Machine.step_return (hcall : m.opcode = some .call) (hstep : m.step host = .ok (none, m₁))
    (hbp : m₂.cache.bp = m₁.cache.bp) (hss : m₂.cache.ss = m₁.cache.ss)
    (hmemory : ∀ address ∈ m₁.savedBytes, m₂.memory address = m₁.memory address)
    (hret : m₂.opcode = some .ret) (hreturn : m₂.step host = .ok (none, m₃)) :
    m₃ = m₂.withCache { m₂.cache with
      ep := m.cache.ep + 5, bp := m.cache.bp, sp := m.cache.sp } := by
  obtain ⟨-, hpushed, hsaved⟩ := step_call hcall hstep
  have hsp : m₂.cache.bp - 8 = m.cache.sp := by
    rw [hbp, hpushed]
    exact UInt32.add_sub_cancel _ _
  rw [step_ret hret (hsaved.of_same hbp hss hmemory) hreturn, hsp]

/-- Rounds of `x4_emulate` lead from one machine to another. -/
def Machine.Leads (host : Host Files) (m m' : Machine Files) : Prop :=
  ∃ rounds, ∀ steps, m.x4Emulate host (rounds + steps) = m'.x4Emulate host steps

theorem Machine.Leads.step (hstep : m.step host = .ok (none, m₁)) (h : m₁.Leads host m₂) :
    m.Leads host m₂ := by
  obtain ⟨rounds, h⟩ := h
  refine ⟨rounds + 1, fun steps => ?_⟩
  rw [Nat.add_right_comm, x4Emulate, hstep]
  exact h steps

theorem Machine.Leads.trans (h : m.Leads host m₁) (h' : m₁.Leads host m₂) : m.Leads host m₂ := by
  obtain ⟨rounds, h⟩ := h
  obtain ⟨rounds', h'⟩ := h'
  exact ⟨rounds + rounds', fun steps => by rw [Nat.add_assoc, h, h']⟩

/-- The body of a call leaves its frame as it is, by induction on the calls in it. -/
theorem Body.keepsFrame {saved : Set UInt32} (hkeep : ∀ m m', keep m m' → KeepsFrame m m')
    (h : Body host keep saved m m₁) :
    KeepsFrame m m₁ ∧ (∀ address ∈ saved, m₁.memory address = m.memory address) ∧
      m.Leads host m₁ := by
  induction h with
  | done saved m => exact ⟨⟨rfl, rfl⟩, fun _ _ => rfl, 0, fun _ => by rw [Nat.zero_add]⟩
  | step _ _ hstep hkept hsaved _ ih =>
      obtain ⟨⟨hbp, hss⟩, hmemory, hleads⟩ := ih
      obtain ⟨hbp', hss'⟩ := hkeep _ _ hkept
      exact ⟨⟨hbp.trans hbp', hss.trans hss'⟩,
        fun address h => (hmemory address h).trans (hsaved address h), hleads.step hstep⟩
  | call hcall hstep hsaved _ hret hreturn _ ihbody ihrest =>
      obtain ⟨⟨hbp, hss⟩, hmemory, hleads⟩ := ihbody
      obtain ⟨⟨hbp', hss'⟩, hmemory', hleads'⟩ := ihrest
      have hback := step_return hcall hstep hbp hss (fun address h => hmemory address (.inr h))
        hret hreturn
      have hpushed := step_call hcall hstep
      subst hback
      refine ⟨⟨hbp', hss'.trans (hss.trans hpushed.1)⟩, fun address h => ?_,
        (hleads.trans (hleads'.step hreturn)).step hstep⟩
      exact (hmemory' address h).trans ((hmemory address (.inl h)).trans (hsaved address h))

end Returns

/-- After the return of a call the processor stands behind the call, with the stack and the
frame from before it. -/
theorem call_returns {Files : Type} {host : Host Files} {m m₁ m₂ m₃ : Machine Files}
    (hcall : m.opcode = some .call) (hstep : m.step host = .ok (none, m₁))
    (hbody : Body host KeepsFrame m₁.savedBytes m₁ m₂) (hret : m₂.opcode = some .ret)
    (hreturn : m₂.step host = .ok (none, m₃)) :
    m₃.cache.ep = m.cache.ep + 5 ∧ m₃.cache.bp = m.cache.bp ∧ m₃.cache.sp = m.cache.sp ∧
      m.Leads host m₃ := by
  obtain ⟨⟨hbp, hss⟩, hmemory, hleads⟩ := hbody.keepsFrame fun _ _ h => h
  have hback := step_return hcall hstep hbp hss hmemory hret hreturn
  have hthere : m₃.Leads host m₃ := ⟨0, fun steps => by rw [Nat.zero_add]⟩
  refine ⟨?_, ?_, ?_, (hleads.trans (hthere.step hreturn)).step hstep⟩
  · rw [hback]
    rfl
  · rw [hback]
    rfl
  · rw [hback]
    rfl

/-- `CALL 8`, and at 8 a body before `RET`. -/
def Machine.calling (body : List UInt8) : Machine Unit :=
  .load ([0x9A, 8, 0, 0, 0, 0x90, 0x90, 0x90] ++ body ++ [0xCB])

/-- The body of the call pushes a byte, and calls 16, where another byte is pushed. -/
def nestedBody : List UInt8 := [0xF0, 0, 0x9A, 16, 0, 0, 0, 0xCB, 0xF0, 0]

theorem call_returns_push :
    ∃ m₁ m₂ m₃, (Machine.calling nestedBody).step .idle = .ok (none, m₁) ∧
      Body .idle KeepsFrame m₁.savedBytes m₁ m₂ ∧ m₂.step .idle = .ok (none, m₃) ∧
      m₃.cache.ep = 5 ∧ m₃.cache.bp = 0 ∧ m₃.cache.sp = 0 ∧
      (Machine.calling nestedBody).Leads .idle m₃ := by
  let m := Machine.calling nestedBody
  let m₁ := (m.advance 1).opcodeCALL m.args
  let m₂ := ((m₁.advance 1).stackPush 0).advance 1
  let m₃ := (m₂.advance 1).opcodeCALL m₂.args
  let m₄ := ((m₃.advance 1).stackPush 0).advance 1
  let m₅ := (m₄.advance 1).opcodeRET
  have hsaved₂ : ∀ address ∈ m₁.savedBytes, m₂.memory address = m₁.memory address := by
    rintro _ ⟨i, hi, rfl⟩
    interval_cases i <;> decide +kernel
  have hsaved₃ : ∀ address ∈ m₁.savedBytes, m₃.memory address = m₂.memory address := by
    rintro _ ⟨i, hi, rfl⟩
    interval_cases i <;> decide +kernel
  have hsaved₄ : ∀ address ∈ m₁.savedBytes ∪ m₃.savedBytes,
      m₄.memory address = m₃.memory address := by
    rintro _ (⟨i, hi, rfl⟩ | ⟨i, hi, rfl⟩)
    · interval_cases i <;> decide +kernel
    · interval_cases i <;> decide +kernel
  have hcall : m.opcode = some .call := by decide +kernel
  have hopcode₁ : m₁.opcode = some .push := by decide +kernel
  have hcall₂ : m₂.opcode = some .call := by decide +kernel
  have hopcode₃ : m₃.opcode = some .push := by decide +kernel
  have hret₄ : m₄.opcode = some .ret := by decide +kernel
  have hpush₂ : m₁.step .idle = .ok (none, m₂) := by
    rw [step_of_opcode hopcode₁, show m₁.args = ⟨0, 0x9A, 16, 0, 0⟩ by decide +kernel]
    rfl
  have hpush₄ : m₃.step .idle = .ok (none, m₄) := by
    rw [step_of_opcode hopcode₃, show m₃.args = ⟨0, 0xCB, 0, 0, 0⟩ by decide +kernel]
    rfl
  have hret : m₅.opcode = some .ret := by decide +kernel
  have hinner : Body .idle KeepsFrame (m₁.savedBytes ∪ m₃.savedBytes) m₃ m₄ :=
    .step (by simp [hopcode₃]) (by simp [hopcode₃]) hpush₄ ⟨rfl, rfl⟩ hsaved₄ (.done _ _)
  have hbody : Body .idle KeepsFrame m₁.savedBytes m₁ m₅ :=
    .step (by simp [hopcode₁]) (by simp [hopcode₁]) hpush₂ ⟨rfl, rfl⟩ hsaved₂
      (.call hcall₂ (step_of_opcode hcall₂) hsaved₃ hinner hret₄ (step_of_opcode hret₄) (.done _ _))
  have hcalled : m.step .idle = .ok (none, m₁) := step_of_opcode hcall
  have hreturn : m₅.step .idle = .ok (none, (m₅.advance 1).opcodeRET) := step_of_opcode hret
  exact ⟨m₁, m₅, _, hcalled, hbody, hreturn, call_returns hcall hcalled hbody hret hreturn⟩

/-- A body which moves the stack away with `MOVB` to a byte of `ss` is not returned from. -/
theorem call_not_returns :
    ¬∀ m m₁ m₂ m₃ : Machine Unit, m.opcode = some .call → m.step .idle = .ok (none, m₁) →
      Body .idle (fun m m' => m'.cache.bp = m.cache.bp) m₁.savedBytes m₁ m₂ →
      m₂.opcode = some .ret → m₂.step .idle = .ok (none, m₃) →
      m₃.cache.ep = m.cache.ep + 5 ∧ m₃.cache.bp = m.cache.bp ∧ m₃.cache.sp = m.cache.sp := by
  intro h
  let m := Machine.calling [0x89, 29, 0x50]
  let m₁ := (m.advance 1).opcodeCALL m.args
  let m₂ := ((m₁.advance 1).withCache { (m₁.advance 1).cache with ss := 0x1050 }).advance 2
  have hopcode : m₁.opcode = some .movb := by decide +kernel
  have hargs : m₁.args = ⟨29, 0x50, 0xCB, 0, 0⟩ := by decide +kernel
  have hss : (m₁.advance 1).cache.set 29 0x50 =
      .ok { (m₁.advance 1).cache with ss := 0x1050 } := by decide +kernel
  have hstep : m₁.step .idle = .ok (none, m₂) := by
    rw [step_of_opcode hopcode, hargs]
    exact congrArg (fun cache => (Except.map (m₁.advance 1).withCache cache).map
      fun m => ((none : Option UInt8), m.advance 2)) hss
  have hbody : Body .idle (fun m m' => m'.cache.bp = m.cache.bp) m₁.savedBytes m₁ m₂ :=
    .step (by simp [hopcode]) (by simp [hopcode]) hstep rfl (fun _ _ => rfl) (.done _ _)
  have hret : m₂.opcode = some .ret := by decide +kernel
  have hcall : m.opcode = some .call := by decide +kernel
  have hep :=
    (h m m₁ m₂ _ hcall (step_of_opcode hcall) hbody hret (step_of_opcode hret)).1
  exact absurd hep (by decide +kernel)

end AvrKernel.X4

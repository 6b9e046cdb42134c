import AvrKernel.Kernel.ReadOnly
import AvrKernel.Lib.Finds

/-!
# What kernel nodes list

The references of a kernel node as one list, and that the functions of `knode.c`
find a reference, a name and a parent in it.
-/

namespace AvrKernel.Kernel

open Bytes Effect

theorem isEnd_eq_true {address : UInt32} :
    isEnd address = true ↔ ¬(address ≠ kmallocNull ∧ address ≠ 0) := by
  rw [isEnd, decide_eq_true_iff, ← not_or, not_not, or_comm]

theorem isEnd_eq_false {address : UInt32} :
    isEnd address = false ↔ address ≠ kmallocNull ∧ address ≠ 0 := by
  rw [← Bool.not_eq_true, isEnd_eq_true, not_not]

namespace KernelM

theorem straight_heap : heap.Straight := fun _ => trivial

theorem straight_headerRead (address : UInt32) : (kmallocHeaderRead address).Straight :=
  fun _ _ => trivial

theorem straight_isValid (address : UInt32) : (kmallocIsValid address).Straight := by
  rw [kmallocIsValid]
  split
  · trivial
  · refine straight_heap.bind fun heap => ?_
    split
    · trivial
    · split
      · trivial
      · split
        · trivial
        · refine (straight_headerRead _).bind fun header => ?_
          split
          · trivial
          · dsimp only
            split
            · trivial
            · split <;> trivial

theorem straight_kmallocGet {α : Type} [OfNat α 0] (field : KMallocHeader → α)
    (address : UInt32) : (kmallocGet field address).Straight := by
  refine (straight_isValid address).bind fun valid => ?_
  split
  · exact straight_heap.bind fun _ => (straight_headerRead _).bind fun _ => trivial
  · trivial

end KernelM

namespace KernelState

variable (k : KernelState)

/-- The program finds the value in this state of the kernel. -/
abbrev Finds {α : Type} (p : KernelM α) (value : α) : Prop := p.Finds handle (· = k) value

/-- The flags of the block at an address, 0 if there is none. -/
def flags (address : UInt32) : UInt8 :=
  (((KernelM.kmallocGetFlags address).run 0 handle k).map Prod.fst).getD 0

/-- A node that can list others. -/
def IsKnode (address : UInt32) : Prop :=
  isEnd address = false ∧ k.flags address &&& kmallocFlagDirectory ≠ 0 ∧
    k.flags address &&& kmallocFlagExtent = 0

instance (address : UInt32) : Decidable (k.IsKnode address) :=
  inferInstanceAs (Decidable (_ ∧ _ ∧ _))

def directory (address : UInt32) : KernelDirectory :=
  KernelDirectory.layout.decode (k.memory.read address 56)

def extent (address : UInt32) : KernelDirectoryExtent :=
  KernelDirectoryExtent.layout.decode (k.memory.read address 56)

/-- The name that a block starts with. -/
def name (address : UInt32) : List UInt8 := (k.memory.read address 16).takeWhile (· ≠ 0)

/-- The references in a chain of extents. -/
inductive Chain : UInt32 → List UInt32 → Prop
  | nil {address : UInt32} (hend : isEnd address = true) : Chain address []
  | cons {address : UInt32} {rest : List UInt32} (hend : isEnd address = false)
      (hsize : (k.extent address).size.toNat ≤ 11) (hrest : Chain (k.extent address).next rest) :
      Chain address
        ((k.extent address).reference.toList.take (k.extent address).size.toNat ++ rest)

/-- The node at `address` lists the references, in itself and in a chain of extents. -/
structure Lists (address : UInt32) (refs : List UInt32) : Prop where
  knode : k.IsKnode address
  size_le : (k.directory address).size.toNat ≤ 6
  chain : ∃ rest, k.Chain (k.directory address).next rest ∧
    refs = (k.directory address).reference.toList.take (k.directory address).size.toNat ++ rest
  valid : ∀ reference ∈ refs, isEnd reference = false
  length_lt : refs.length < 2 ^ 32

variable {k} {address : UInt32} {refs : List UInt32}

theorem Finds.of_run {α : Type} {p : KernelM α} {value : α}
    (h : ∀ n, p.run n handle k = some (value, k)) : k.Finds p value := by
  refine ⟨0, ?_⟩
  rintro n - _ rfl
  exact ⟨_, h n, rfl⟩

theorem finds_getFlags (address : UInt32) :
    k.Finds (KernelM.kmallocGetFlags address) (k.flags address) := by
  obtain ⟨⟨value, k'⟩, hrun⟩ :=
    (KernelM.straight_kmallocGet KMallocHeader.flags address).run handle k
  obtain rfl := (KernelM.readOnly_getFlags address).run (hrun 0)
  have hvalue : flags k' address = value := by
    rw [flags, KernelM.kmallocGetFlags, hrun 0]
    rfl
  rw [hvalue]
  exact .of_run hrun

@[simp] theorem flags_null : k.flags kmallocNull = 0 := by
  rw [flags, KernelM.kmallocGetFlags, KernelM.kmallocGet, KernelM.kmallocIsValid, if_pos rfl]
  rfl

theorem not_isKnode_null : ¬k.IsKnode kmallocNull := fun h => (isEnd_eq_false.mp h.1).1 rfl

theorem finds_readStruct {α : Type} (layout : Layout α) (address : UInt32) :
    k.Finds (KernelM.readStruct layout address)
      (layout.decode (k.memory.read address (UInt32.ofNat layout.size).toNat)) :=
  .of_run fun _ => rfl

theorem finds_readName (address : UInt32) : k.Finds (KernelM.readName address) (k.name address) :=
  .of_run fun _ => rfl

theorem finds_isValidAddress (address : UInt32) :
    k.Finds (KernelM.knodeIsValidAddress address) (decide (k.IsKnode address)) := by
  rw [KernelM.knodeIsValidAddress]
  by_cases hend : address = kmallocNull ∨ address = 0
  · rw [if_pos hend, decide_eq_false]
    · exact .ret false
    · intro hknode
      have hfalse := hknode.1
      rw [isEnd, decide_eq_false_iff_not] at hfalse
      exact hfalse hend.symm
  · rw [if_neg hend]
    refine (finds_getFlags address).bind ?_
    have hiff : (k.flags address &&& kmallocFlagDirectory != 0 &&
        k.flags address &&& kmallocFlagExtent == 0) = decide (k.IsKnode address) := by
      rw [Bool.eq_iff_iff, decide_eq_true_iff, IsKnode, isEnd, decide_eq_false_iff_not]
      simp only [Bool.and_eq_true, bne_iff_ne, beq_iff_eq]
      exact ⟨fun h => ⟨fun h' => hend h'.symm, h⟩, fun h => h.2⟩
    rw [hiff]
    exact .ret _

theorem finds_getSlot {m : Nat} {slots : Vector UInt32 m} {size index : UInt32}
    (hsize : size.toNat ≤ m) (hindex : index < size) {rest : List UInt32} :
    k.Finds (KernelM.getSlot slots index)
      ((slots.toList.take size.toNat ++ rest).getD index.toNat kmallocNull) := by
  rw [UInt32.lt_iff_toNat_lt] at hindex
  have hlen : (slots.toList.take size.toNat).length = size.toNat := by simpa using hsize
  have hslot : slots[index.toNat]? = some slots[index.toNat] :=
    Vector.getElem?_eq_getElem (by omega)
  rw [KernelM.getSlot, hslot]
  have hvalue : (slots.toList.take size.toNat ++ rest).getD index.toNat kmallocNull =
      slots[index.toNat] := by
    rw [List.getD_append _ _ _ _ (by omega), List.getD_eq_getElem _ _ (by omega), List.getElem_take,
      Vector.getElem_toList]
  rw [hvalue]
  exact .ret _

theorem Chain.finds_getReference (h : k.Chain address refs) (index : UInt32) :
    Prog.FindsIn handle (· = k) KernelM.getRound (address, index)
      (refs.getD index.toNat kmallocNull) := by
  induction h generalizing index with
  | nil hend =>
      refine .last ?_
      rw [KernelM.getRound, if_pos hend]
      exact .ret _
  | @cons address rest hend hsize hrest ih =>
      by_cases hin : index < (k.extent address).size
      · refine .last ?_
        rw [KernelM.getRound, if_neg (by rw [hend]; exact Bool.false_ne_true)]
        refine (finds_readStruct _ _).bind ?_
        change k.Finds (if index < (k.extent address).size then _ else _) _
        rw [if_pos hin]
        exact (finds_getSlot hsize hin).bind (.ret _)
      · refine .next ((k.extent address).next, index - (k.extent address).size) ?_ ?_
        · rw [KernelM.getRound, if_neg (by rw [hend]; exact Bool.false_ne_true)]
          refine (finds_readStruct _ _).bind ?_
          change k.Finds (if index < (k.extent address).size then _ else _) _
          rw [if_neg hin]
          exact .ret _
        · have hle : (k.extent address).size.toNat ≤ index.toNat := by
            rw [UInt32.lt_iff_toNat_lt] at hin
            omega
          have hlen : ((k.extent address).reference.toList.take
              (k.extent address).size.toNat).length = (k.extent address).size.toNat := by
            simpa using hsize
          have hrefs := ih (index - (k.extent address).size)
          rw [Mem.toNat_sub_of_le hle] at hrefs
          rwa [List.getD_append_right _ _ _ _ (by omega), hlen]

namespace Lists

variable (h : k.Lists address refs)

include h

theorem finds_isValidAddress : k.Finds (KernelM.knodeIsValidAddress address) true := by
  have hvalid := KernelState.finds_isValidAddress (k := k) address
  rwa [decide_eq_true h.knode] at hvalid

/-- A node finds the reference at an index. -/
theorem finds_getReference (index : UInt32) :
    k.Finds (KernelM.knodeGetReference address index) (refs.getD index.toNat kmallocNull) := by
  obtain ⟨rest, hchain, rfl⟩ := h.chain
  have hsize := h.size_le
  refine h.finds_isValidAddress.bind ?_
  rw [if_pos rfl]
  refine (finds_readStruct _ _).bind ?_
  change k.Finds (if index < (k.directory address).size then _ else _) _
  by_cases hin : index < (k.directory address).size
  · rw [if_pos hin]
    exact finds_getSlot hsize hin
  · rw [if_neg hin]
    have hle : (k.directory address).size.toNat ≤ index.toNat := by
      rw [UInt32.lt_iff_toNat_lt] at hin
      omega
    have hlen : ((k.directory address).reference.toList.take
        (k.directory address).size.toNat).length = (k.directory address).size.toNat := by
      simpa using hsize
    have hrefs := (hchain.finds_getReference (index - (k.directory address).size)).loop
    rw [Mem.toNat_sub_of_le hle] at hrefs
    rwa [List.getD_append_right _ _ _ _ (by omega), hlen]

/-- The search for a name goes through the references in order. -/
theorem finds_round {name : List UInt8} (done : List UInt32) {rest : List UInt32}
    (hrefs : refs = done ++ rest) :
    Prog.FindsIn handle (· = k) (KernelM.findRound address name) (.ofNat done.length)
      ((rest.find? fun reference => k.name reference = name).getD knodeNull) := by
  induction rest generalizing done with
  | nil =>
      refine .last ((h.finds_getReference _).bind ?_)
      have hlt := h.length_lt
      rw [hrefs, List.append_nil] at hlt ⊢
      rw [UInt32.toNat_ofNat', Nat.mod_eq_of_lt hlt, List.getD_eq_default _ _ le_rfl]
      exact .ret _
  | cons reference rest ih =>
      have hlt := h.length_lt
      have hmem : isEnd reference = false := h.valid reference (by simp [hrefs])
      have hat : refs.getD (UInt32.ofNat done.length).toNat kmallocNull = reference := by
        rw [hrefs, List.length_append, List.length_cons] at hlt
        rw [hrefs, UInt32.toNat_ofNat', Nat.mod_eq_of_lt (by omega)]
        simp
      have hget := h.finds_getReference (.ofNat done.length)
      rw [hat] at hget
      by_cases hname : k.name reference = name
      · refine .last (hget.bind ?_)
        rw [if_neg (by rw [hmem]; exact Bool.false_ne_true)]
        refine (finds_readName reference).bind ?_
        rw [if_pos hname, List.find?_cons_of_pos (by simpa using hname)]
        exact .ret _
      · rw [List.find?_cons_of_neg (by simpa using hname)]
        refine .next (.ofNat (done ++ [reference]).length) (hget.bind ?_)
          (ih (done ++ [reference]) (by rw [hrefs, List.append_assoc]; rfl))
        rw [if_neg (by rw [hmem]; exact Bool.false_ne_true)]
        refine (finds_readName reference).bind ?_
        rw [if_neg hname, List.length_append, UInt32.ofNat_add]
        exact .ret _

theorem finds_findByName {name : List UInt8} (hname : name ≠ []) :
    k.Finds (KernelM.knodeFindByName address name)
      ((refs.find? fun reference => k.name reference = name).getD knodeNull) := by
  refine h.finds_isValidAddress.bind ?_
  rw [if_pos rfl, if_neg hname]
  exact (h.finds_round [] rfl).loop

end Lists

theorem finds_getParent (hknode : k.IsKnode address) {parent : Option UInt32}
    (hparent : match parent with
      | none => isEnd (k.directory address).parent = true
      | some parent => (k.directory address).parent = parent ∧ k.IsKnode parent) :
    k.Finds (KernelM.knodeGetParent address) (parent.getD address) := by
  have hvalid := finds_isValidAddress (k := k) address
  rw [decide_eq_true hknode] at hvalid
  refine hvalid.bind ?_
  rw [if_pos rfl]
  refine (finds_readStruct _ _).bind ?_
  change k.Finds (if isEnd (k.directory address).parent then return address else do
    if ← KernelM.knodeIsValidAddress (k.directory address).parent then
      return (k.directory address).parent
    else return address) _
  cases parent with
  | none =>
      rw [if_pos hparent]
      exact .ret _
  | some parent =>
      obtain ⟨hparent, hup⟩ := hparent
      have hvalid' := finds_isValidAddress (k := k) parent
      rw [decide_eq_true hup] at hvalid'
      rw [hparent, if_neg (by rw [hup.1]; exact Bool.false_ne_true)]
      refine hvalid'.bind ?_
      rw [if_pos rfl]
      exact .ret _

/-- A block that is no node has no parent and lists nothing. -/
theorem finds_of_not_knode (hknode : ¬k.IsKnode address) :
    k.Finds (KernelM.knodeGetParent address) kmallocNull ∧
      (∀ name, k.Finds (KernelM.knodeFindByName address name) knodeNull) ∧
      ∀ index, k.Finds (KernelM.knodeGetReference address index) kmallocNull := by
  have hvalid := finds_isValidAddress (k := k) address
  rw [decide_eq_false hknode] at hvalid
  exact ⟨hvalid.bind (.ret _), fun _ => hvalid.bind (.ret _), fun _ => hvalid.bind (.ret _)⟩

end KernelState

end AvrKernel.Kernel

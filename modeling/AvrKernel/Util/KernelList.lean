import AvrKernel.Lib.Counters
import AvrKernel.Lib.DoublyLinked
import AvrKernel.Lib.Trace
import Mathlib.Data.List.Perm.Subperm
import Mathlib.Data.UInt

/-!
# Kernel lists

`util/list.h`: doubly linked lists of payloads in allocated nodes. Which address `malloc`
returns, or whether it fails, is part of the calls.
-/

namespace AvrKernel.Util

open Linked

/-- `struct list_node`. -/
structure ListNode (α : Type) where
  data : α
  next : UInt32
  prev : UInt32

/-- The nodes in memory, the blocks that are allocated, and the pointers of one list. -/
structure KernelList (α : Type) where
  nodes : UInt32 → ListNode α
  allocated : UInt32 → Bool
  head : UInt32
  tail : UInt32

namespace KernelList

variable {α : Type}

def setNode (s : KernelList α) (node : UInt32) (value : ListNode α) : KernelList α :=
  { s with nodes := Function.update s.nodes node value }

def setNext (s : KernelList α) (node next : UInt32) : KernelList α :=
  s.setNode node { s.nodes node with next }

def setPrev (s : KernelList α) (node prev : UInt32) : KernelList α :=
  s.setNode node { s.nodes node with prev }

def setAllocated (s : KernelList α) (node : UInt32) (allocated : Bool) : KernelList α :=
  { s with allocated := Function.update s.allocated node allocated }

/-- `if (*head == NULL) *head = new_node; else (*tail)->next = new_node;` -/
def linkLast (newNode : UInt32) (s : KernelList α) : KernelList α :=
  if s.head = 0 then { s with head := newNode } else s.setNext s.tail newNode

/-- `list_append`, where `malloc` returns `newNode`. -/
def listAppend (newNode : UInt32) (data : α) (s : KernelList α) : Bool × KernelList α :=
  if newNode = 0 then (false, s)
  else
    let s := s.setAllocated newNode true
    let s := s.setNode newNode { data, next := 0, prev := s.tail }
    let s := s.linkLast newNode
    (true, { s with tail := newNode })

/-- Let what leads to the node lead to the one behind it. -/
def passNext (node : UInt32) (s : KernelList α) : KernelList α :=
  if (s.nodes node).prev ≠ 0 then s.setNext (s.nodes node).prev (s.nodes node).next
  else { s with head := (s.nodes node).next }

def passPrev (node : UInt32) (s : KernelList α) : KernelList α :=
  if (s.nodes node).next ≠ 0 then s.setPrev (s.nodes node).next (s.nodes node).prev
  else { s with tail := (s.nodes node).prev }

def listUnlink (node : UInt32) (s : KernelList α) : KernelList α := (s.passNext node).passPrev node

variable [DecidableEq α]

/-- `list_remove`; the search of a list that does not end within `fuel` nodes does not return. -/
def listRemove (fuel : Nat) (targetData : α) (s : KernelList α) : Option (Bool × KernelList α) :=
  (walk (fun current => current = 0 ∨ (s.nodes current).data = targetData)
      (fun current => (s.nodes current).next) fuel s.head).map fun current =>
    if current = 0 then (false, s)
    else (true, (listUnlink current s).setAllocated current false)

end KernelList

/-- The calls, with what `malloc` returns to the first. -/
inductive ListOp (α : Type) where
  | append (newNode : UInt32) (data : α)
  | remove (targetData : α)

namespace ListOp

variable {α : Type} [DecidableEq α]

def step (fuel : Nat) (s : KernelList α) : ListOp α → Option (Bool × KernelList α)
  | append newNode data => some (s.listAppend newNode data)
  | remove targetData => s.listRemove fuel targetData

/-- `malloc` does not hand out a block that is in use. -/
def Fresh (s : KernelList α) : ListOp α → Prop
  | append newNode _ => newNode = 0 ∨ s.allocated newNode = false
  | remove _ => True

/-- The calls on a sequence of nodes with their payloads: appending at the end, unless there
is no memory, and removing the first node with the payload. -/
def spec (l : List (UInt32 × α)) : ListOp α → Bool × List (UInt32 × α)
  | append newNode data => if newNode = 0 then (false, l) else (true, l ++ [(newNode, data)])
  | remove targetData =>
      if l.any (·.2 = targetData) then (true, l.eraseP (·.2 = targetData)) else (false, l)

end ListOp

namespace KernelList

variable {α : Type} {s : KernelList α} {l : List UInt32} {node : UInt32}

/-- The nodes from `head` on, with their payloads. -/
def forward (fuel : Nat) (s : KernelList α) : Option (List (UInt32 × α)) :=
  collect 0 (fun node => (s.nodes node).next) (fun node => (node, (s.nodes node).data)) fuel s.head

/-- The nodes from `tail` on, with their payloads. -/
def backward (fuel : Nat) (s : KernelList α) : Option (List (UInt32 × α)) :=
  collect 0 (fun node => (s.nodes node).prev) (fun node => (node, (s.nodes node).data)) fuel s.tail

/-- Where a node leads to. -/
def next (s : KernelList α) (node : UInt32) : UInt32 := (s.nodes node).next

def prev (s : KernelList α) (node : UInt32) : UInt32 := (s.nodes node).prev

/-- The list has these nodes, all of them allocated. -/
structure Holds (s : KernelList α) (l : List UInt32) : Prop where
  chain : DoubleChain 0 s.next s.prev s.head s.tail l
  allocated : ∀ node ∈ l, s.allocated node = true

/-- The nodes with their payloads. -/
def entries (s : KernelList α) (l : List UInt32) : List (UInt32 × α) :=
  l.map fun node => (node, (s.nodes node).data)

theorem entries_congr {s' : KernelList α}
    (h : ∀ node ∈ l, (s'.nodes node).data = (s.nodes node).data) : s'.entries l = s.entries l := by
  apply List.map_congr_left
  intro node hnode
  rw [h node hnode]

theorem Holds.length_lt (h : s.Holds l) : l.length < 2 ^ 32 :=
  Counter.length_lt_of_nodup h.chain.forward.nodup h.chain.forward.valid

/-! ## Fields -/

section Fields

variable (s : KernelList α) (a b : UInt32)

@[simp] theorem setNext_next : (s.setNext a b).next = Function.update s.next a b := by
  funext node
  by_cases h : node = a
  · simp [next, setNext, setNode, h]
  · simp [next, setNext, setNode, h]

@[simp] theorem setNext_prev : (s.setNext a b).prev = s.prev := by
  funext node
  by_cases h : node = a
  · simp [prev, setNext, setNode, h]
  · simp [prev, setNext, setNode, h]

@[simp] theorem setNext_data : ((s.setNext a b).nodes node).data = (s.nodes node).data := by
  by_cases h : node = a
  · simp [setNext, setNode, h]
  · simp [setNext, setNode, h]

@[simp] theorem setPrev_next : (s.setPrev a b).next = s.next := by
  funext node
  by_cases h : node = a
  · simp [next, setPrev, setNode, h]
  · simp [next, setPrev, setNode, h]

@[simp] theorem setPrev_prev : (s.setPrev a b).prev = Function.update s.prev a b := by
  funext node
  by_cases h : node = a
  · simp [prev, setPrev, setNode, h]
  · simp [prev, setPrev, setNode, h]

@[simp] theorem setPrev_data : ((s.setPrev a b).nodes node).data = (s.nodes node).data := by
  by_cases h : node = a
  · simp [setPrev, setNode, h]
  · simp [setPrev, setNode, h]

theorem linkLast_next : (s.linkLast a).next =
    if s.head = 0 then s.next
    else Function.update s.next s.tail a := by
  rw [linkLast]
  split
  · rfl
  · exact s.setNext_next s.tail a

@[simp] theorem linkLast_prev : (s.linkLast a).prev = s.prev := by
  rw [linkLast]
  split
  · rfl
  · exact s.setNext_prev s.tail a

@[simp] theorem linkLast_data : ((s.linkLast a).nodes node).data = (s.nodes node).data := by
  rw [linkLast]
  split <;> simp

theorem linkLast_head : (s.linkLast a).head = if s.head = 0 then a else s.head := by
  rw [linkLast]
  split <;> rfl

@[simp] theorem linkLast_allocated : (s.linkLast a).allocated = s.allocated := by
  rw [linkLast]
  split <;> rfl

theorem passNext_eq : s.passNext a = if s.prev a = 0 then { s with head := s.next a }
    else s.setNext (s.prev a) (s.next a) := by
  rw [passNext, ite_not]
  rfl

theorem passNext_next : (s.passNext a).next =
    if s.prev a = 0 then s.next
    else Function.update s.next (s.prev a) (s.next a) := by
  rw [passNext_eq]
  split
  · rfl
  · exact s.setNext_next (s.prev a) (s.next a)

@[simp] theorem passNext_prev : (s.passNext a).prev = s.prev := by
  rw [passNext]
  split
  · exact s.setNext_prev (s.prev a) (s.next a)
  · rfl

@[simp] theorem passNext_data : ((s.passNext a).nodes node).data = (s.nodes node).data := by
  rw [passNext]
  split <;> simp

theorem passNext_head : (s.passNext a).head =
    if s.prev a = 0 then s.next a else s.head := by
  rw [passNext_eq]
  split <;> rfl

@[simp] theorem passNext_tail : (s.passNext a).tail = s.tail := by
  rw [passNext]
  split <;> rfl

@[simp] theorem passNext_allocated : (s.passNext a).allocated = s.allocated := by
  rw [passNext]
  split <;> rfl

theorem passNext_node (h : s.prev a ≠ a) : (s.passNext a).nodes a = s.nodes a := by
  rw [passNext]
  split
  · exact Function.update_of_ne h.symm _ _
  · rfl

theorem passPrev_eq : s.passPrev a = if s.next a = 0 then { s with tail := s.prev a }
    else s.setPrev (s.next a) (s.prev a) := by
  rw [passPrev, ite_not]
  rfl

@[simp] theorem passPrev_next : (s.passPrev a).next = s.next := by
  rw [passPrev]
  split
  · exact s.setPrev_next (s.next a) (s.prev a)
  · rfl

theorem passPrev_prev : (s.passPrev a).prev =
    if s.next a = 0 then s.prev
    else Function.update s.prev (s.next a) (s.prev a) := by
  rw [passPrev_eq]
  split
  · rfl
  · exact s.setPrev_prev (s.next a) (s.prev a)

@[simp] theorem passPrev_data : ((s.passPrev a).nodes node).data = (s.nodes node).data := by
  rw [passPrev]
  split <;> simp

@[simp] theorem passPrev_head : (s.passPrev a).head = s.head := by
  rw [passPrev]
  split <;> rfl

theorem passPrev_tail : (s.passPrev a).tail =
    if s.next a = 0 then s.prev a else s.tail := by
  rw [passPrev_eq]
  split <;> rfl

@[simp] theorem passPrev_allocated : (s.passPrev a).allocated = s.allocated := by
  rw [passPrev]
  split <;> rfl

end Fields

/-! ## Appending -/

/-- The new node is not in the list, and is filled before it is linked. -/
theorem Holds.newNode (h : s.Holds l) (hnew : node ∉ l) (value : ListNode α) :
    ((s.setAllocated node true).setNode node value).Holds l ∧
      ((s.setAllocated node true).setNode node value).entries l = s.entries l := by
  have hold : ∀ x ∈ l, ((s.setAllocated node true).setNode node value).nodes x = s.nodes x := by
    rintro x hx
    apply Function.update_of_ne
    rintro rfl
    exact hnew hx
  refine ⟨⟨⟨?_, ?_⟩, fun x hx => ?_⟩, entries_congr fun x hx => by rw [hold x hx]⟩
  · exact h.chain.forward.congr fun x hx => congrArg ListNode.next (hold x hx)
  · exact h.chain.backward.congr fun x hx =>
      congrArg ListNode.prev (hold x (List.mem_reverse.mp hx))
  · change Function.update s.allocated node true x = true
    by_cases heq : x = node
    · rw [heq, Function.update_self]
    · rw [Function.update_of_ne heq]
      exact h.allocated x hx

/-- A node that was not allocated becomes the last one. -/
theorem Holds.listAppend (h : s.Holds l) (hnull : node ≠ 0) (hfree : s.allocated node = false)
    (data : α) :
    ∃ s', s.listAppend node data = (true, s') ∧ s'.Holds (l ++ [node]) ∧
      s'.entries (l ++ [node]) = s.entries l ++ [(node, data)] := by
  have hnew : node ∉ l := by
    intro hmem
    rw [h.allocated node hmem] at hfree
    cases hfree
  obtain ⟨hfilled, hentries⟩ := h.newNode hnew { data, next := 0, prev := s.tail }
  have hnode : ((s.setAllocated node true).setNode node { data, next := 0, prev := s.tail }).nodes
      node = { data, next := 0, prev := s.tail } := Function.update_self ..
  refine ⟨_, if_neg hnull, ⟨?_, ?_⟩, ?_⟩
  · have hlinked := hfilled.chain.append hnew hnull (congrArg ListNode.next hnode)
      (congrArg ListNode.prev hnode)
    rw [← linkLast_next, ← linkLast_prev _ node, ← linkLast_head] at hlinked
    exact hlinked
  · intro x hx
    change (linkLast node _).allocated x = true
    rw [linkLast_allocated]
    rcases List.mem_append.mp hx with hmem | hlast
    · exact hfilled.allocated x hmem
    · rw [List.mem_singleton.mp hlast]
      exact Function.update_self ..
  · rw [← hentries, entries, entries, List.map_append, List.map_singleton]
    congr 1
    · exact List.map_congr_left fun x _ => congrArg (Prod.mk x) (linkLast_data _ _)
    · have hdata := (linkLast_data _ node).trans (congrArg ListNode.data hnode)
      exact congrArg (fun data => [(node, data)]) hdata

/-! ## Removing -/

/-- Unlinking takes one node out. -/
theorem Holds.listUnlink {l₁ l₂ : List UInt32} (h : s.Holds (l₁ ++ node :: l₂)) :
    ((s.listUnlink node).setAllocated node false).Holds (l₁ ++ l₂) ∧
      ((s.listUnlink node).setAllocated node false).entries (l₁ ++ l₂) = s.entries (l₁ ++ l₂) := by
  have hnodup := h.chain.forward.nodup
  rw [List.nodup_middle, List.nodup_cons] at hnodup
  have hself : s.prev node ≠ node := h.chain.prev_ne
  have hunlinked := h.chain.unlink
  refine ⟨⟨?_, ?_⟩, entries_congr fun x _ => by rw [setAllocated, KernelList.listUnlink]; simp⟩
  · have hnode : (s.passNext node).next node = s.next node :=
      congrArg ListNode.next (passNext_node _ _ hself)
    have hprev := passPrev_prev (s.passNext node) node
    have htail := passPrev_tail (s.passNext node) node
    rw [hnode, passNext_prev] at hprev
    rw [hnode, passNext_prev, passNext_tail] at htail
    rw [← passNext_next, ← passPrev_next (s.passNext node) node, ← passNext_head,
      ← passPrev_head (s.passNext node) node, ← hprev, ← htail] at hunlinked
    exact hunlinked
  · intro x hx
    have hne : x ≠ node := by
      rintro rfl
      exact hnodup.1 hx
    change Function.update (KernelList.listUnlink node s).allocated node false x = true
    rw [Function.update_of_ne hne, KernelList.listUnlink, passPrev_allocated, passNext_allocated]
    apply h.allocated
    rcases List.mem_append.mp hx with hmem | hmem
    · exact List.mem_append_left _ hmem
    · exact List.mem_append_right _ (List.mem_cons_of_mem node hmem)

variable [DecidableEq α] {fuel : Nat}

/-- The search stops at the first node with the payload. -/
theorem Holds.walk_found {l₁ l₂ : List UInt32} {targetData : α}
    (h : s.Holds (l₁ ++ node :: l₂)) (hskip : ∀ x ∈ l₁, (s.nodes x).data ≠ targetData)
    (hfound : (s.nodes node).data = targetData) (hfuel : 2 ^ 32 ≤ fuel) :
    walk (fun current => decide (current = 0 ∨ (s.nodes current).data = targetData))
      (fun current => (s.nodes current).next) fuel s.head = some node := by
  apply walk_eq_some h.chain.forward.path
  · intro x hx
    have hne : x ≠ 0 := by
      rintro rfl
      exact h.chain.forward.valid (List.mem_append_left _ hx)
    simp [hne, hskip x hx]
  · simp [hfound]
  · have hlt := h.length_lt
    rw [List.length_append] at hlt
    omega

theorem Holds.walk_absent {targetData : α} (h : s.Holds l)
    (hskip : ∀ x ∈ l, (s.nodes x).data ≠ targetData) (hfuel : 2 ^ 32 ≤ fuel) :
    walk (fun current => decide (current = 0 ∨ (s.nodes current).data = targetData))
      (fun current => (s.nodes current).next) fuel s.head = some 0 := by
  have hpath : Path (fun current => (s.nodes current).next) s.head (l ++ 0 :: [])
      (s.nodes 0).next := Path.append_iff.mpr ⟨0, h.chain.forward.path, rfl, rfl⟩
  apply walk_eq_some hpath
  · intro x hx
    have hne : x ≠ 0 := by
      rintro rfl
      exact h.chain.forward.valid hx
    simp [hne, hskip x hx]
  · simp
  · have hlt := h.length_lt
    omega

/-- A call does what it does to the sequence of the nodes. -/
theorem Holds.step {op : ListOp α} (h : s.Holds l) (hfresh : op.Fresh s) (hfuel : 2 ^ 32 ≤ fuel) :
    ∃ s' l', op.step fuel s = some ((ListOp.spec (s.entries l) op).1, s') ∧ s'.Holds l' ∧
      s'.entries l' = (ListOp.spec (s.entries l) op).2 ∧
      ((ListOp.spec (s.entries l) op).1 = false → s' = s) := by
  cases op with
  | append newNode data =>
      rw [ListOp.step, ListOp.spec]
      by_cases hnull : newNode = 0
      · rw [if_pos hnull]
        exact ⟨s, l, by rw [KernelList.listAppend, if_pos hnull], h, rfl, fun _ => rfl⟩
      · rw [if_neg hnull]
        obtain ⟨s', happend, hholds, hentries⟩ :=
          h.listAppend hnull (hfresh.resolve_left hnull) data
        exact ⟨s', l ++ [newNode], by rw [happend], hholds, hentries, nofun⟩
  | remove targetData =>
      rw [ListOp.step, ListOp.spec, listRemove]
      have hany : ((s.entries l).any fun entry => decide (entry.2 = targetData)) =
          l.any fun x => decide ((s.nodes x).data = targetData) := by
        rw [entries, List.any_map]
        rfl
      by_cases hfound : ∃ x ∈ l, (s.nodes x).data = targetData
      · obtain ⟨x, hx, hdata⟩ := hfound
        obtain ⟨node, l₁, l₂, hskip, hnode, rfl, herase⟩ := List.exists_of_eraseP
          (p := fun x => decide ((s.nodes x).data = targetData)) hx (decide_eq_true hdata)
        have hnode : (s.nodes node).data = targetData := of_decide_eq_true hnode
        have hne : node ≠ 0 := by
          rintro rfl
          exact h.chain.forward.valid (by simp)
        have hwalk := h.walk_found (fun x hx => by simpa using hskip x hx) hnode hfuel
        obtain ⟨hholds, hentries⟩ := h.listUnlink
        have hsome : ((l₁ ++ node :: l₂).any fun x => decide ((s.nodes x).data = targetData)) =
            true := List.any_eq_true.mpr ⟨node, by simp, decide_eq_true hnode⟩
        rw [hany, hsome, if_pos rfl, hwalk, Option.map_some, if_neg hne]
        refine ⟨_, l₁ ++ l₂, rfl, hholds, ?_, nofun⟩
        rw [hentries, ← herase, entries, entries, List.eraseP_map]
        rfl
      · have hskip : ∀ x ∈ l, (s.nodes x).data ≠ targetData :=
          fun x hx hdata => hfound ⟨x, hx, hdata⟩
        have hnone : (l.any fun x => decide ((s.nodes x).data = targetData)) = false := by
          rw [List.any_eq_false]
          intro x hx
          simp [hskip x hx]
        rw [hany, hnone, if_neg Bool.false_ne_true, h.walk_absent hskip hfuel, Option.map_some,
          if_pos rfl]
        exact ⟨s, l, rfl, h, rfl, fun _ => rfl⟩

/-- In every state that calls lead to, the list has the nodes of the sequence, in both
directions, and a call that returns `false` changes nothing. -/
theorem lists_run (s : KernelList α) (hhead : s.head = 0) (htail : s.tail = 0)
    (ops : List (ListOp α)) (fuel : Nat) (hfuel : 2 ^ 32 ≤ fuel)
    (hfresh : Trace.Permitted (ListOp.step fuel) (fun s op => op.Fresh s) s ops) :
    ∃ answers entries s', Trace.run (ListOp.step fuel) s ops = some (answers, s') ∧
      Trace.run (Trace.total ListOp.spec) [] ops = some (answers, entries) ∧
      s'.forward fuel = some entries ∧ s'.backward fuel = some entries.reverse ∧
      (s'.head = 0 ↔ s'.tail = 0) ∧
      ∀ (op : ListOp α) s'', op.Fresh s' → op.step fuel s' = some (false, s'') → s'' = s' := by
  have hempty : s.Holds [] := by
    refine ⟨?_, fun node hnode => absurd hnode List.not_mem_nil⟩
    rw [hhead, htail]
    exact DoubleChain.nil 0 _ _
  have hstep : ∀ (s : KernelList α) entries (op : ListOp α),
      (∃ l, s.Holds l ∧ s.entries l = entries) → op.Fresh s →
      ∃ s', op.step fuel s = some ((ListOp.spec entries op).1, s') ∧
        ∃ l, s'.Holds l ∧ s'.entries l = (ListOp.spec entries op).2 := by
    rintro s _ op ⟨l, hholds, rfl⟩ hfresh
    obtain ⟨s', l', hstep, hholds', hentries', -⟩ := hholds.step hfresh hfuel
    exact ⟨s', hstep, l', hholds', hentries'⟩
  obtain ⟨answers, s', entries, hrun, hspec, l, hholds, hentries⟩ :=
    Trace.run_simulates (R := fun s entries => ∃ l, s.Holds l ∧ s.entries l = entries) hstep
      ⟨[], hempty, rfl⟩ hfresh
  have hlength := hholds.length_lt
  refine ⟨answers, entries, s', hrun, hspec, ?_, ?_, hholds.chain.ends, ?_⟩
  · rw [forward, ← hentries]
    exact hholds.chain.forward.collect _ (by omega)
  · rw [backward, ← hentries, KernelList.entries, ← List.map_reverse]
    exact hholds.chain.backward.collect _ (by rw [List.length_reverse]; omega)
  · intro op s'' hfresh' hstep
    obtain ⟨s₁, l', hstep', -, -, hsame⟩ := hholds.step hfresh' hfuel
    rw [hstep'] at hstep
    obtain ⟨hanswer, rfl⟩ := Prod.mk.inj (Option.some.inj hstep)
    exact hsame hanswer

/-- No nodes, and all of memory is free. -/
def noNodes : KernelList UInt32 where
  nodes _ := { data := 0, next := 0, prev := 0 }
  allocated _ := false
  head := 0
  tail := 0

theorem lists_run_twice :
    ∃ answers entries s', Trace.run (ListOp.step (2 ^ 32)) noNodes
        [.append 16 7, .append 32 7, .append 0 9, .remove 7] = some (answers, s') ∧
      Trace.run (Trace.total ListOp.spec) []
        [.append 16 7, .append 32 7, .append 0 9, .remove 7] = some (answers, entries) ∧
      s'.forward (2 ^ 32) = some entries ∧ s'.backward (2 ^ 32) = some entries.reverse ∧
      (s'.head = 0 ↔ s'.tail = 0) ∧
      ∀ (op : ListOp UInt32) s'', op.Fresh s' → op.step (2 ^ 32) s' = some (false, s'') →
        s'' = s' := by
  apply lists_run noNodes rfl rfl _ _ (Nat.le_refl _)
  refine ⟨.inr rfl, fun answer s hstep => ?_⟩
  cases hstep
  refine ⟨.inr rfl, fun answer s hstep => ?_⟩
  exact ⟨.inl rfl, fun _ _ _ => ⟨trivial, fun _ _ _ => trivial⟩⟩

end KernelList

end AvrKernel.Util

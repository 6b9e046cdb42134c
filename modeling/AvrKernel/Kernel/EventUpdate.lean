import AvrKernel.Kernel.Events
import Mathlib.Data.Nat.Bitwise

/-!
# Acting on every event once

However threads send and remove events between the steps of those that update the
queue, an event is acted on once, in the order of the queue.
-/

namespace AvrKernel.Kernel.Events

/-! ## Flags -/

namespace KEvent

variable {event : KEvent}

theorem has_eq_testBit {flag : UInt16} {k : Nat} (hflag : flag.toNat = 2 ^ k) :
    event.has flag = event.flags.toNat.testBit k := by
  have hand : (event.flags &&& flag).toNat = (event.flags.toNat.testBit k).toNat * 2 ^ k := by
    rw [UInt16.toNat_and, hflag, Nat.and_two_pow]
  cases hbit : event.flags.toNat.testBit k with
  | false =>
      have hzero : event.flags &&& flag = 0 := by
        apply UInt16.toNat_inj.mp
        rw [hand, hbit]
        simp
      simp [has, hzero]
  | true =>
      have hne : event.flags &&& flag ≠ 0 := by
        intro hzero
        rw [hzero, hbit] at hand
        simp at hand
        exact (Nat.two_pow_pos k).ne hand
      simp [has, hne]

theorem has_dead : event.has keventDead = event.flags.toNat.testBit 0 := has_eq_testBit rfl

theorem has_execute : event.has keventExecute = event.flags.toNat.testBit 1 := has_eq_testBit rfl

theorem has_dwmRefresh : event.has keventDwmRefresh = event.flags.toNat.testBit 2 :=
  has_eq_testBit rfl

theorem testBit_mark (k : Nat) :
    event.mark.flags.toNat.testBit k = (event.flags.toNat.testBit k || decide (k = 0)) := by
  rw [mark, UInt16.toNat_or, Nat.testBit_or]
  cases k with
  | zero => rfl
  | succ k =>
      have hone : Nat.testBit 1 (k + 1) = false := by simp [Nat.testBit_succ]
      simp [keventDead, hone]

@[simp] theorem mark_dead : event.mark.has keventDead = true := by
  rw [has_dead, testBit_mark]
  simp

@[simp] theorem mark_execute : event.mark.has keventExecute = event.has keventExecute := by
  rw [has_execute, has_execute, testBit_mark]
  simp

@[simp] theorem mark_dwmRefresh : event.mark.has keventDwmRefresh = event.has keventDwmRefresh := by
  rw [has_dwmRefresh, has_dwmRefresh, testBit_mark]
  simp

@[simp] theorem clear_execute : (event.clear keventExecute).has keventExecute = false := by
  rw [has_execute, clear, UInt16.toNat_and, Nat.testBit_and,
    show (~~~keventExecute).toNat.testBit 1 = false by decide, Bool.and_false]

@[simp] theorem clear_execute_dwmRefresh :
    (event.clear keventExecute).has keventDwmRefresh = event.has keventDwmRefresh := by
  rw [has_dwmRefresh, has_dwmRefresh, clear, UInt16.toNat_and, Nat.testBit_and,
    show (~~~keventExecute).toNat.testBit 2 = true by decide, Bool.and_true]

@[simp] theorem clear_dwmRefresh : (event.clear keventDwmRefresh).has keventDwmRefresh = false := by
  rw [has_dwmRefresh, clear, UInt16.toNat_and, Nat.testBit_and,
    show (~~~keventDwmRefresh).toNat.testBit 2 = false by decide, Bool.and_false]

@[simp] theorem clear_dwmRefresh_execute :
    (event.clear keventDwmRefresh).has keventExecute = event.has keventExecute := by
  rw [has_execute, has_execute, clear, UInt16.toNat_and, Nat.testBit_and,
    show (~~~keventDwmRefresh).toNat.testBit 1 = true by decide, Bool.and_true]

@[simp] theorem flagged_mark : event.mark.Flagged ↔ event.Flagged := by
  simp [Flagged]

theorem Due.flagged (hdue : event.Due) : event.Flagged :=
  hdue.imp And.left id

theorem due_of_dwmRefresh (h : event.has keventExecute = false)
    (hflag : event.has keventDwmRefresh = true) : event.due = .dwmRefresh := by
  simp [due, h, hflag]

theorem Due.due_ne_none (hdue : event.Due)
    (hone : ¬(event.has keventExecute = true ∧ event.has keventDwmRefresh = true)) :
    event.due ≠ .none := by
  cases hexecute : event.has keventExecute with
  | true =>
      rcases hdue with hprogram | hrefresh
      · simpa [due, hexecute] using hprogram.2
      · exact absurd ⟨hexecute, hrefresh⟩ hone
  | false =>
      rcases hdue with hprogram | hrefresh
      · rw [hexecute] at hprogram
        cases hprogram.1
      · simp [due_of_dwmRefresh hexecute hrefresh]

/-- The event does not ask for two things, and it is not sent dead when it asks for
something. -/
def Plain (event : KEvent) : Prop :=
  event.Due → event.has keventDead = false ∧
    ¬(event.has keventExecute = true ∧ event.has keventDwmRefresh = true)

instance (event : KEvent) : Decidable event.Plain := inferInstanceAs (Decidable (_ → _))

/-- The event as it is left when something is taken from it. -/
def done (event : KEvent) : KEvent :=
  if event.has keventExecute then (event.clear keventExecute).mark
  else (event.clear keventDwmRefresh).mark

theorem done_dead : event.done.has keventDead = true := by
  cases h : event.has keventExecute <;> simp [done, h]

/-- An event that asks for two things still asks for one when it is left. -/
theorem flagged_done :
    event.done.Flagged ↔ event.has keventExecute = true ∧ event.has keventDwmRefresh = true := by
  cases h : event.has keventExecute <;> simp [done, h, Flagged]

end KEvent

/-! ## One scan -/

namespace Node

def mark (node : Node) : Node := { node with event := node.event.mark }

def done (node : Node) : Node := { node with event := node.event.done }

def take (node : Node) : Take :=
  { id := node.id, action := node.event.due
    args := if node.event.has keventExecute then node.event.args else [] }

@[simp] theorem mark_id (node : Node) : node.mark.id = node.id := rfl

@[simp] theorem mark_event (node : Node) : node.mark.event = node.event.mark := rfl

@[simp] theorem done_id (node : Node) : node.done.id = node.id := rfl

@[simp] theorem done_event (node : Node) : node.done.event = node.event.done := rfl

@[simp] theorem take_id (node : Node) : node.take.id = node.id := rfl

end Node

theorem map_mark_id (queue : List Node) :
    (queue.map Node.mark).map Node.id = queue.map Node.id := by
  simp

/-- A scan takes from the first event that carries a flag, and marks those in front of it. -/
theorem markQueue_cases (queue : List Node) :
    ((∀ node ∈ queue, ¬node.event.Flagged) ∧ markQueue queue = (none, queue.map Node.mark)) ∨
    ∃ before node after, queue = before ++ node :: after ∧
      (∀ earlier ∈ before, ¬earlier.event.Flagged) ∧ node.event.Flagged ∧
      markQueue queue = (some node.take, before.map Node.mark ++ node.done :: after) := by
  induction queue with
  | nil => exact .inl ⟨by simp, rfl⟩
  | cons node rest ih =>
      cases hexecute : node.event.has keventExecute with
      | true =>
          right
          exists [], node, rest
          simp [markQueue, hexecute, KEvent.Flagged, Node.take, Node.done, KEvent.done, KEvent.due]
      | false =>
          cases hrefresh : node.event.has keventDwmRefresh with
          | true =>
              right
              exists [], node, rest
              simp [markQueue, hexecute, hrefresh, KEvent.Flagged, Node.take,
                Node.done, KEvent.done,
                KEvent.due]
          | false =>
              have hplain : ¬node.event.Flagged := by simp [KEvent.Flagged, hexecute, hrefresh]
              rcases ih with ⟨hnone, hmark⟩ | ⟨before, first, after, hsplit, hbefore, hfirst, hmark⟩
              · left
                constructor
                · intro other hother
                  rcases List.mem_cons.mp hother with rfl | hrest
                  · exact hplain
                  · exact hnone other hrest
                · simp [markQueue, hexecute, hrefresh, hmark, Node.mark]
              · right
                exists node :: before, first, after
                constructor
                · rw [hsplit, List.cons_append]
                constructor
                · intro other hother
                  rcases List.mem_cons.mp hother with rfl | hrest
                  · exact hplain
                  · exact hbefore other hrest
                · exact ⟨hfirst, by simp [markQueue, hexecute, hrefresh, hmark, Node.mark]⟩

/-! ## Removals -/

theorem listRemove_eq_filter {queue : List Node} (hnodup : (queue.map Node.id).Nodup) (id : Nat) :
    listRemove id queue = queue.filter fun node => node.id ≠ id := by
  induction queue with
  | nil => rfl
  | cons node rest ih =>
      obtain ⟨hnot, hrest⟩ := List.nodup_cons.mp hnodup
      by_cases h : node.id = id
      · have hkeep : rest.filter (fun other => other.id ≠ id) = rest := by
          apply List.filter_eq_self.mpr
          intro other hother
          have hne : other.id ≠ id := by
            intro heq
            exact hnot (List.mem_map.mpr ⟨other, hother, heq.trans h.symm⟩)
          simpa using hne
        rw [listRemove, if_pos h, List.filter_cons_of_neg (by simpa using h), hkeep]
      · simp [listRemove, h, ih hrest]

theorem nodup_filter_id {queue : List Node} (hnodup : (queue.map Node.id).Nodup)
    (keep : Node → Bool) : ((queue.filter keep).map Node.id).Nodup :=
  hnodup.sublist (List.filter_sublist.map Node.id)

/-- The second scan removes the marked events of the queue it goes through. -/
theorem freeQueue_eq_filter {nodes queue : List Node} (hnodup : (queue.map Node.id).Nodup) :
    freeQueue nodes queue = queue.filter fun node =>
      ∀ dead ∈ nodes, dead.event.has keventDead = true → node.id ≠ dead.id := by
  induction nodes generalizing queue with
  | nil => simp [freeQueue]
  | cons dead rest ih =>
      cases hdead : dead.event.has keventDead with
      | false => simp [freeQueue, hdead, ih hnodup]
      | true =>
          have hremoved : ((listRemove dead.id queue).map Node.id).Nodup := by
            rw [listRemove_eq_filter hnodup]
            exact nodup_filter_id hnodup _
          simp only [freeQueue, hdead, if_true]
          rw [ih hremoved, listRemove_eq_filter hnodup, List.filter_filter]
          apply List.filter_congr
          intro node _
          simp [hdead, Bool.and_comm]

theorem eq_of_id_eq {queue : List Node} (hnodup : (queue.map Node.id).Nodup) {node other : Node}
    (hnode : node ∈ queue) (hother : other ∈ queue) (heq : node.id = other.id) : node = other :=
  List.inj_on_of_nodup_map hnodup hnode hother heq

theorem freeQueue_self {queue : List Node} (hnodup : (queue.map Node.id).Nodup) :
    freeQueue queue queue = queue.filter fun node => !node.event.has keventDead := by
  rw [freeQueue_eq_filter hnodup]
  apply List.filter_congr
  intro node hnode
  cases hdead : node.event.has keventDead with
  | true =>
      simp only [Bool.not_true, decide_eq_false_iff_not]
      intro hall
      exact hall node hnode hdead rfl
  | false =>
      simp only [Bool.not_false, decide_eq_true_eq]
      intro other hother hother_dead heq
      rw [eq_of_id_eq hnodup hnode hother heq, hother_dead] at hdead
      cases hdead

end AvrKernel.Kernel.Events

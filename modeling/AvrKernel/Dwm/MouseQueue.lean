import AvrKernel.Lib.CircularQueue
import AvrKernel.Lib.Trace

/-!
# The queue of mouse events

`mouse.c`: the interrupt handler of the mouse enqueues events, the window manager
dequeues them. Interrupts can strike between the two steps of `mouse_dequeue_event`.
-/

namespace AvrKernel.Dwm

open CircularQueue

def mouseQueueSize : Nat := 256

instance : NeZero mouseQueueSize := ⟨by decide⟩

structure MouseEvent where
  x : Int32
  y : Int32
  leftButton : Bool
  rightButton : Bool
  middleButton : Bool
  timestamp : UInt64
  deriving DecidableEq

structure MouseQueue where
  mouseQueue : Fin mouseQueueSize → MouseEvent
  mouseQueueHead : Fin mouseQueueSize
  mouseQueueTail : Fin mouseQueueSize
  /-- The consumer has found the queue not empty and is about to copy an event. -/
  dequeuing : Bool

/-- What happens to the queue: a call of `mouse_enqueue_event` in the interrupt
handler, and the two steps of `mouse_dequeue_event`. -/
inductive QueueOp
  | enqueue (event : MouseEvent)
  | testEmpty
  | takeEvent

inductive QueueReply
  /-- `full` if there was no free cell. -/
  | enqueued (full : Bool)
  | tested (empty : Bool)
  | dequeued (event : MouseEvent)

namespace MouseQueue

def init (cells : Fin mouseQueueSize → MouseEvent) : MouseQueue := ⟨cells, 0, 0, false⟩

/-- `mouse_enqueue_event`; the event carries the arguments and `timer_get_ms()`. -/
def mouseEnqueueEvent (q : MouseQueue) (event : MouseEvent) : Bool × MouseQueue :=
  let nextHead := next q.mouseQueueHead
  if nextHead = q.mouseQueueTail then
    -- full: the producer must not write the tail, so the newest event is replaced
    let newest := prev q.mouseQueueHead
    if newest = q.mouseQueueTail then (true, q)
    else (true, { q with mouseQueue := Function.update q.mouseQueue newest event })
  else
    (false, { q with
      mouseQueue := Function.update q.mouseQueue q.mouseQueueHead event
      mouseQueueHead := nextHead })

def step (q : MouseQueue) : QueueOp → Option (QueueReply × MouseQueue)
  | .enqueue event =>
      some (.enqueued (q.mouseEnqueueEvent event).1, (q.mouseEnqueueEvent event).2)
  | .testEmpty =>
      if q.dequeuing then none
      else
        let empty := q.mouseQueueHead = q.mouseQueueTail
        some (.tested empty, { q with dequeuing := !empty })
  | .takeEvent =>
      if q.dequeuing then
        some (.dequeued (q.mouseQueue q.mouseQueueTail),
          { q with mouseQueueTail := next q.mouseQueueTail, dequeuing := false })
      else none

def pending (q : MouseQueue) : List MouseEvent :=
  items q.mouseQueue q.mouseQueueHead q.mouseQueueTail

end MouseQueue

/-! ## What was enqueued and dequeued -/

/-- The events of the calls of `mouse_enqueue_event`, and whether they found the
queue full. -/
def enqueuedEvents : List QueueOp → List QueueReply → List (MouseEvent × Bool)
  | .enqueue event :: ops, .enqueued full :: replies => (event, full) :: enqueuedEvents ops replies
  | _ :: ops, _ :: replies => enqueuedEvents ops replies
  | _, _ => []

def dequeuedEvents : List QueueReply → List MouseEvent
  | [] => []
  | .dequeued event :: replies => event :: dequeuedEvents replies
  | _ :: replies => dequeuedEvents replies

/-- The events that are not overwritten: an event that finds the queue full takes
the place of the one before it. -/
def notOverwritten : List (MouseEvent × Bool) → List MouseEvent
  | [] => []
  | [(event, _)] => [event]
  | (event, _) :: (later, full) :: rest =>
      if full then notOverwritten ((later, full) :: rest)
      else event :: notOverwritten ((later, full) :: rest)

theorem notOverwritten_ne_nil {sent : List (MouseEvent × Bool)} (h : sent ≠ []) :
    notOverwritten sent ≠ [] := by
  induction sent with
  | nil => exact absurd rfl h
  | cons first rest ih =>
      cases rest with
      | nil => simp [notOverwritten]
      | cons second rest =>
          rw [notOverwritten]
          split
          · exact ih (List.cons_ne_nil _ _)
          · exact List.cons_ne_nil _ _

theorem notOverwritten_append_free (sent : List (MouseEvent × Bool)) (event : MouseEvent) :
    notOverwritten (sent ++ [(event, false)]) = notOverwritten sent ++ [event] := by
  induction sent with
  | nil => rfl
  | cons first rest ih =>
      cases rest with
      | nil => rfl
      | cons second rest =>
          simp only [List.cons_append, notOverwritten] at ih ⊢
          split <;> simp [ih]

theorem notOverwritten_append_full {sent : List (MouseEvent × Bool)} (h : sent ≠ [])
    (event : MouseEvent) :
    notOverwritten (sent ++ [(event, true)]) = (notOverwritten sent).dropLast ++ [event] := by
  induction sent with
  | nil => exact absurd rfl h
  | cons first rest ih =>
      cases rest with
      | nil => rfl
      | cons second rest =>
          have hrest := ih (List.cons_ne_nil _ _)
          have hne : notOverwritten (second :: rest) ≠ [] :=
            notOverwritten_ne_nil (List.cons_ne_nil _ _)
          simp only [List.cons_append, notOverwritten] at hrest ⊢
          split
          · exact hrest
          · rw [hrest, List.dropLast_cons_of_ne_nil hne, List.cons_append]

/-- Nothing is made up, doubled or reordered. -/
theorem notOverwritten_sublist (sent : List (MouseEvent × Bool)) :
    (notOverwritten sent).Sublist (sent.map Prod.fst) := by
  induction sent with
  | nil => exact List.Sublist.slnil
  | cons first rest ih =>
      cases rest with
      | nil => exact List.Sublist.refl _
      | cons second rest =>
          rw [notOverwritten]
          split
          · exact ih.cons _
          · exact ih.cons_cons _

/-- The last event is always there. -/
theorem notOverwritten_getLast (sent : List (MouseEvent × Bool)) :
    (notOverwritten sent).getLast? = (sent.map Prod.fst).getLast? := by
  induction sent with
  | nil => rfl
  | cons first rest ih =>
      cases rest with
      | nil => rfl
      | cons second rest =>
          rw [notOverwritten, List.map_cons, List.map_cons, List.getLast?_cons_cons]
          split
          · exact ih
          · rw [List.getLast?_cons, ih, ← List.map_cons]
            simp [List.getLast?_cons]

theorem enqueuedEvents_cons (op : QueueOp) (reply : QueueReply) (ops : List QueueOp)
    (replies : List QueueReply) :
    enqueuedEvents (op :: ops) (reply :: replies) =
      enqueuedEvents [op] [reply] ++ enqueuedEvents ops replies := by
  cases op <;> cases reply <;> rfl

theorem dequeuedEvents_cons (reply : QueueReply) (replies : List QueueReply) :
    dequeuedEvents (reply :: replies) = dequeuedEvents [reply] ++ dequeuedEvents replies := by
  cases reply <;> rfl

/-! ## Every interleaving -/

namespace MouseQueue

variable {q q' : MouseQueue} {sent : List (MouseEvent × Bool)} {taken : List MouseEvent}

/-- The events dequeued and those in the queue are the ones not overwritten. -/
structure Accounts (q : MouseQueue) (sent : List (MouseEvent × Bool)) (taken : List MouseEvent) :
    Prop where
  holds : Holds q.mouseQueue q.mouseQueueHead q.mouseQueueTail q.pending
  order : taken ++ q.pending = notOverwritten sent
  /-- Nobody else takes the event that the consumer has seen. -/
  seen : q.dequeuing = true → q.pending ≠ []

theorem accounts_init (cells : Fin mouseQueueSize → MouseEvent) :
    (init cells).Accounts [] [] := by
  have hempty := Holds.empty cells (0 : Fin mouseQueueSize)
  have hpending : (init cells).pending = [] := hempty.items_eq
  refine ⟨?_, ?_, nofun⟩
  · rw [hpending]
    exact hempty
  · rw [hpending]
    rfl

/-- An event is appended, or takes the place of the newest one when the queue is full. -/
theorem Accounts.enqueue (h : q.Accounts sent taken) (event : MouseEvent) :
    ((q.mouseEnqueueEvent event).1 = true ↔ q.pending.length + 1 = mouseQueueSize) ∧
    (q.mouseEnqueueEvent event).2.Accounts
      (sent ++ [(event, (q.mouseEnqueueEvent event).1)]) taken ∧
    (q.mouseEnqueueEvent event).2.pending =
      (if (q.mouseEnqueueEvent event).1 then q.pending.dropLast else q.pending) ++ [event] := by
  have hlength := h.holds.length_lt
  by_cases hfull : q.pending.length + 1 = mouseQueueSize
  · have hnext := h.holds.next_eq_tail.mpr hfull
    have htwo : 2 ≤ q.pending.length := by
      have hsize : 3 ≤ mouseQueueSize := by decide
      omega
    have hne : q.pending ≠ [] := List.ne_nil_of_length_pos (by omega)
    have hprev := h.holds.prev_ne_tail htwo
    have hresult : q.mouseEnqueueEvent event = (true, { q with
        mouseQueue := Function.update q.mouseQueue (prev q.mouseQueueHead) event }) := by
      rw [mouseEnqueueEvent, if_pos hnext, if_neg hprev]
    have hsplit : q.pending = q.pending.dropLast ++ [q.pending.getLast hne] :=
      (List.dropLast_concat_getLast hne).symm
    have hreplaced := (hsplit ▸ h.holds : Holds _ _ _
      (q.pending.dropLast ++ [q.pending.getLast hne])).replace event
    have hpending : (q.mouseEnqueueEvent event).2.pending = q.pending.dropLast ++ [event] := by
      rw [hresult]
      exact hreplaced.items_eq
    have hsent : sent ≠ [] := by
      rintro rfl
      exact hne (List.append_eq_nil_iff.mp h.order).2
    refine ⟨by simp [hresult, hfull], ⟨?_, ?_, fun _ => ?_⟩, by rw [hpending, hresult, if_pos rfl]⟩
    · rw [hpending, hresult]
      exact hreplaced
    · rw [hpending, hresult, notOverwritten_append_full hsent, ← h.order,
        List.dropLast_append_of_ne_nil hne, List.append_assoc]
    · simp [hpending]
  · have hroom : q.pending.length + 1 < mouseQueueSize := Nat.lt_of_le_of_ne hlength hfull
    have hnext : ¬ next q.mouseQueueHead = q.mouseQueueTail :=
      fun heq => hfull (h.holds.next_eq_tail.mp heq)
    have hresult : q.mouseEnqueueEvent event = (false, { q with
        mouseQueue := Function.update q.mouseQueue q.mouseQueueHead event
        mouseQueueHead := next q.mouseQueueHead }) := by
      rw [mouseEnqueueEvent, if_neg hnext]
    have happended := h.holds.enqueue hroom event
    have hpending : (q.mouseEnqueueEvent event).2.pending = q.pending ++ [event] := by
      rw [hresult]
      exact happended.items_eq
    refine ⟨by simp [hresult, hfull], ⟨?_, ?_, fun _ => ?_⟩, ?_⟩
    · rw [hpending, hresult]
      exact happended
    · rw [hpending, hresult, notOverwritten_append_free, ← h.order, List.append_assoc]
    · simp [hpending]
    · rw [hpending, hresult, if_neg Bool.false_ne_true]

theorem Accounts.step {op : QueueOp} {reply : QueueReply} (h : q.Accounts sent taken)
    (hstep : q.step op = some (reply, q')) :
    q'.Accounts (sent ++ enqueuedEvents [op] [reply]) (taken ++ dequeuedEvents [reply]) := by
  cases op with
  | enqueue event =>
      obtain ⟨rfl, rfl⟩ := Prod.mk.inj (Option.some.inj hstep)
      have hresult := (h.enqueue event).2.1
      simpa only [dequeuedEvents, enqueuedEvents, List.append_nil] using hresult
  | testEmpty =>
      simp only [MouseQueue.step] at hstep
      split at hstep
      · cases hstep
      · obtain ⟨rfl, rfl⟩ := Prod.mk.inj (Option.some.inj hstep)
        refine ⟨h.holds, ?_, fun hseen => ?_⟩
        · change taken ++ [] ++ q.pending = notOverwritten (sent ++ [])
          rw [List.append_nil, List.append_nil]
          exact h.order
        · have hne : ¬ q.mouseQueueHead = q.mouseQueueTail := by simpa using hseen
          exact fun hnil => hne (h.holds.head_eq_tail.mpr hnil)
  | takeEvent =>
      simp only [MouseQueue.step] at hstep
      split at hstep
      next hseen =>
        obtain ⟨rfl, rfl⟩ := Prod.mk.inj (Option.some.inj hstep)
        obtain ⟨event, rest, hpending⟩ := List.exists_cons_of_ne_nil (h.seen hseen)
        obtain ⟨hcell, hrest⟩ := Holds.dequeue (hpending ▸ h.holds)
        have hleft : items q.mouseQueue q.mouseQueueHead (next q.mouseQueueTail) = rest :=
          hrest.items_eq
        refine ⟨?_, ?_, nofun⟩
        · change Holds _ _ _ (items _ _ _)
          rw [hleft]
          exact hrest
        · change (taken ++ [q.mouseQueue q.mouseQueueTail]) ++ items _ _ _ = _
          rw [hleft, hcell, List.append_assoc, List.singleton_append, ← hpending]
          simpa [enqueuedEvents] using h.order
      · cases hstep

theorem Accounts.run {ops : List QueueOp} {replies : List QueueReply} (h : q.Accounts sent taken)
    (hrun : Trace.run MouseQueue.step q ops = some (replies, q')) :
    q'.Accounts (sent ++ enqueuedEvents ops replies) (taken ++ dequeuedEvents replies) := by
  induction ops generalizing q sent taken replies with
  | nil =>
      obtain ⟨rfl, rfl⟩ := Prod.mk.inj (Option.some.inj hrun)
      simpa [enqueuedEvents, dequeuedEvents] using h
  | cons op ops ih =>
      obtain ⟨reply, q₁, replies', hstep, hrest, rfl⟩ := Trace.run_cons.mp hrun
      have hlater := ih (h.step hstep) hrest
      rw [enqueuedEvents_cons, dequeuedEvents_cons, ← List.append_assoc, ← List.append_assoc]
      exact hlater

/-- Whatever the interleaving: fewer events than cells are pending; the dequeued and
the pending ones are, in order, those enqueued and not overwritten; overwritten is
only the newest event of a full queue; a drained queue has delivered the last one. -/
theorem queue_delivers (cells : Fin mouseQueueSize → MouseEvent) (ops : List QueueOp)
    (replies : List QueueReply) (q : MouseQueue)
    (hrun : Trace.run MouseQueue.step (init cells) ops = some (replies, q)) :
    let sent := (enqueuedEvents ops replies).map Prod.fst
    q.pending.length < mouseQueueSize ∧
    dequeuedEvents replies ++ q.pending = notOverwritten (enqueuedEvents ops replies) ∧
    (dequeuedEvents replies ++ q.pending).Sublist sent ∧
    (dequeuedEvents replies ++ q.pending).getLast? = sent.getLast? ∧
    ∀ event, ((q.mouseEnqueueEvent event).1 = true ↔ q.pending.length + 1 = mouseQueueSize) ∧
      (q.mouseEnqueueEvent event).2.pending =
        (if (q.mouseEnqueueEvent event).1 then q.pending.dropLast else q.pending) ++ [event] := by
  have h := (accounts_init cells).run hrun
  rw [List.nil_append, List.nil_append] at h
  refine ⟨h.holds.length_lt, h.order, ?_, ?_, fun event => ?_⟩
  · rw [h.order]
    exact notOverwritten_sublist _
  · rw [h.order]
    exact notOverwritten_getLast _
  · exact ⟨(h.enqueue event).1, (h.enqueue event).2.2⟩

theorem queue_delivers_interrupted :
    ∃ replies q, Trace.run MouseQueue.step (init fun _ => ⟨0, 0, false, false, false, 0⟩)
      [.enqueue ⟨1, 1, true, false, false, 5⟩, .testEmpty,
        .enqueue ⟨2, 1, false, false, false, 9⟩, .takeEvent] = some (replies, q) ∧
      dequeuedEvents replies = [⟨1, 1, true, false, false, 5⟩] ∧
      q.pending = [⟨2, 1, false, false, false, 9⟩] ∧ q.pending.length < mouseQueueSize := by
  refine ⟨_, _, rfl, rfl, by decide, ?_⟩
  exact (queue_delivers (fun _ => ⟨0, 0, false, false, false, 0⟩)
    [.enqueue ⟨1, 1, true, false, false, 5⟩,
    .testEmpty, .enqueue ⟨2, 1, false, false, false, 9⟩, .takeEvent] _ _ rfl).1

end MouseQueue

end AvrKernel.Dwm

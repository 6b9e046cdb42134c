import AvrKernel.Lib.Trace
import AvrKernel.Scheduler.Handler

/-!
# Sleeping, events, mutexes and the machine of threads

A call that gives up the CPU runs with interrupts off until it is switched away
and again from where it is resumed. It takes three steps: its first half, the
entry of the handler, and `resume` when the thread has the CPU again.
-/

namespace AvrKernel.Scheduler

open Linked

/-- A signalled waiter; one whose timeout has made it ready just goes on. -/
def ThreadBlock.signal (t : ThreadBlock) : ThreadBlock :=
  { t with
    waitNext := 0
    waitEvent := 0
    waitSignaled := true
    state := if t.state = .sleeping ∨ t.state = .blocked then .ready else t.state }

/-- A thread in front of the waiters from `first` on; 0 is no timeout. -/
def ThreadBlock.await (t : ThreadBlock) (event first timeoutMs : UInt32) (now : UInt64) :
    ThreadBlock :=
  { t with
    waitSignaled := false
    waitEvent := event
    waitNext := first
    wakeTick := if timeoutMs = 0 then t.wakeTick else now + timeoutMs.toUInt64
    state := if timeoutMs = 0 then .blocked else .sleeping }

namespace SchedulerState

variable (s : SchedulerState)

def setEvent (e : UInt32) (change : Event → Event) : SchedulerState :=
  { s with events := Function.update s.events e (change (s.events e)) }

def setMutex (m : UInt32) (change : Mutex → Mutex) : SchedulerState :=
  { s with mutexes := Function.update s.mutexes m (change (s.mutexes m)) }

def setWaiter (t : UInt32) (waiter : MutexWaiter) : SchedulerState :=
  { s with waiters := Function.update s.waiters t waiter }

/-- Where the current thread stands. -/
def setCall (call : Call) : SchedulerState :=
  { s with calls := Function.update s.calls s.currentThread call }

/-! ## Sleeping -/

def threadYield (currentEsp : UInt32) (now : UInt64) : Option (UInt32 × SchedulerState) :=
  let s := if s.currentThread ≠ 0 then
      s.setThread s.currentThread fun t => { t with ticksRemaining := 0 }
    else s
  s.threadHandlerC currentEsp now

/-- `thread_sleep` up to its yield; all that it does for no time is to yield. -/
def threadSleep (ms : UInt32) (now : UInt64) : SchedulerState :=
  if ms = 0 then s
  else (s.setThread s.currentThread fun t =>
    { t with wakeTick := now + ms.toUInt64, state := .sleeping }).setCall .sleep

def threadExit : SchedulerState :=
  s.setThread s.currentThread fun t => { t with state := .dead }

/-! ## Events -/

/-- Take a thread out of the list of an event. -/
def unlinkWaiter (event thread : UInt32) : Option SchedulerState := do
  let found ← Link.find 0 s.waitNext thread addressSpace .first (s.events event).waiters
  match found with
  | none => return s
  | some .first => return s.setEvent event fun e => { e with waiters := s.waitNext thread }
  | some (.after p) => return s.setThread p fun t => { t with waitNext := s.waitNext thread }

def eventRemoveWaiter (event thread : UInt32) : Option SchedulerState := do
  let s ← s.unlinkWaiter event thread
  return s.setThread thread fun t => { t with waitNext := 0, waitEvent := 0 }

/-- Deliver a signal to the waiters from `t` on. -/
def deliver : Nat → SchedulerState → UInt32 → Option SchedulerState
  | 0, _, _ => none
  | n + 1, s, t =>
      if t = 0 then some s
      else
        deliver n (s.setThread t ThreadBlock.signal) (s.waitNext t)

def eventSignal (event : UInt32) : Option SchedulerState :=
  if event = 0 then some s
  else if (s.events event).waiters = 0 then
    some (s.setEvent event fun e => { e with signaled := true })
  else
    (s.setEvent event fun e => { e with waiters := 0 }).deliver addressSpace
      (s.events event).waiters

/-- `event_wait` up to its yield, or to its return with a value. -/
def eventWait (event timeoutMs : UInt32) (now : UInt64) : Option Bool × SchedulerState :=
  if event = 0 then (some false, s)
  else if s.currentThread = 0 then
    (some (s.events event).signaled, s.setEvent event fun e => { e with signaled := false })
  else if (s.events event).signaled then
    (some true, s.setEvent event fun e => { e with signaled := false })
  else
    (none, ((s.setThread s.currentThread fun t =>
      t.await event (s.events event).waiters timeoutMs now).setEvent event fun e =>
        { e with waiters := s.currentThread }).setCall (.wait event))

/-- The rest of `event_wait`. -/
def eventWaitRest (event : UInt32) : Option (Bool × SchedulerState) := do
  let self := s.currentThread
  let s ← if (s.threads self).waitEvent = event then s.eventRemoveWaiter event self else some s
  return ((s.threads self).waitSignaled,
    s.setThread self fun t => { t with waitSignaled := false })

/-! ## Mutexes -/

/-- Put the node of the current thread behind the last one of the queue. -/
def enqueueWaiter (mutex : UInt32) : SchedulerState :=
  let self := s.currentThread
  let tail := (s.mutexes mutex).waitTail
  let s := s.setWaiter self { thread := self, next := 0 }
  let s := if tail ≠ 0 then s.setWaiter tail { s.waiters tail with next := self }
    else s.setMutex mutex fun m => { m with waitHead := self }
  s.setMutex mutex fun m => { m with waitTail := self }

/-- `mutex_lock` up to its yield or its return. -/
def mutexLock (mutex : UInt32) : SchedulerState :=
  if mutex = 0 then s
  else if (s.mutexes mutex).locked = false then
    s.setMutex mutex fun m => { m with locked := true, owner := s.currentThread }
  else
    ((s.enqueueWaiter mutex).setThread s.currentThread fun t =>
      { t with state := .blocked }).setCall (.lock mutex)

def mutexTrylock (mutex : UInt32) : Bool × SchedulerState :=
  if mutex = 0 then (false, s)
  else if (s.mutexes mutex).locked = false then
    (true, s.setMutex mutex fun m => { m with locked := true, owner := s.currentThread })
  else (false, s)

def mutexUnlock (mutex : UInt32) : SchedulerState :=
  if mutex = 0 then s
  else if (s.mutexes mutex).owner ≠ s.currentThread then s
  else if (s.mutexes mutex).waitHead ≠ 0 then
    let node := s.waiters (s.mutexes mutex).waitHead
    (s.setMutex mutex fun m =>
      { m with
        waitHead := node.next
        waitTail := if node.next = 0 then 0 else m.waitTail
        owner := node.thread }).setThread node.thread fun t => { t with state := .ready }
  else s.setMutex mutex fun m => { m with locked := false, owner := 0 }

/-! ## Killing -/

def threadDetachFromEvent (t : UInt32) : Option SchedulerState :=
  let event := (s.threads t).waitEvent
  if event = 0 then some s else s.eventRemoveWaiter event t

/-- A killed thread is no longer on the list of its process. -/
def markDead (t : UInt32) : SchedulerState :=
  { s.setThread t fun block => { block with state := .dead } with
    processThreads := s.processThreads.erase t }

/-- The turn of `process_kill_threads` for one thread. -/
def processKillThread (t : UInt32) : Option SchedulerState := do
  let s ← s.threadDetachFromEvent t
  return s.markDead t

end SchedulerState

/-! ## The machine -/

inductive ThreadOp
  | create (thread stackBase esp : UInt32) (priority : ThreadPriority) (now : UInt64)
  | tick (esp : UInt32) (now : UInt64)
  | yield (esp : UInt32) (now : UInt64)
  | sleep (ms : UInt32) (now : UInt64)
  | eventWait (event timeoutMs : UInt32) (now : UInt64)
  | eventSignal (event : UInt32)
  | mutexLock (mutex : UInt32)
  | mutexTrylock (mutex : UInt32)
  | mutexUnlock (mutex : UInt32)
  | resume
  | exit
  | kill (thread : UInt32)
  deriving DecidableEq

/-- The thread that was current at a step, and the value that a call returned. -/
structure Reply where
  thread : UInt32
  value : Option Bool
  deriving DecidableEq

namespace SchedulerState

/-- The current thread has been killed, and not yet been switched away. -/
def IsKilled (s : SchedulerState) : Prop :=
  (s.threads s.currentThread).state = .dead ∧ s.currentThread ∉ s.processThreads

instance (s : SchedulerState) : Decidable s.IsKilled := inferInstanceAs (Decidable (_ ∧ _))

/-- The current thread runs its code: not the idle loop, not the one behind `thread_exit`,
and not the inside of a call. `DestroyProcess` returns to a thread that it has killed, since
no switch of threads loads the directory by which it would know its own process. -/
def Executing (s : SchedulerState) : Prop :=
  s.currentThread ≠ s.idleThread ∧
    ((s.threads s.currentThread).state = .running ∨ s.IsKilled) ∧
    s.calls s.currentThread = .none

instance (s : SchedulerState) : Decidable s.Executing :=
  inferInstanceAs (Decidable (_ ∧ (_ ∨ _) ∧ _))

/-- What can happen next. Interrupts are off inside of calls; a thread that has
been switched away inside of one resumes it, and `malloc` returns blocks that are
free. -/
def Enabled (s : SchedulerState) : ThreadOp → Prop
  | .create thread .. => s.Executing ∧ thread ≠ 0 ∧ s.allocated thread = false
  | .tick .. => s.calls s.currentThread = .none
  | .yield .. => s.currentThread ≠ s.idleThread ∧
      (s.calls s.currentThread = .none ∨ (s.threads s.currentThread).state ≠ .running)
  | .eventSignal _ => s.calls s.currentThread = .none
  | .resume => s.currentThread ≠ s.idleThread ∧ s.calls s.currentThread ≠ .none ∧
      (s.threads s.currentThread).state = .running
  | .kill thread => s.currentThread ≠ s.idleThread ∧ s.calls s.currentThread = .none ∧
      thread ∈ s.processThreads
  | _ => s.Executing

instance (s : SchedulerState) : (op : ThreadOp) → Decidable (s.Enabled op)
  | .create .. => inferInstanceAs (Decidable (_ ∧ _ ∧ _))
  | .tick .. => inferInstanceAs (Decidable (_ = _))
  | .yield .. => inferInstanceAs (Decidable (_ ∧ (_ ∨ _)))
  | .eventSignal _ => inferInstanceAs (Decidable (_ = _))
  | .resume => inferInstanceAs (Decidable (_ ∧ _ ∧ _))
  | .kill _ => inferInstanceAs (Decidable (_ ∧ _ ∧ _))
  | .sleep .. | .eventWait .. | .mutexLock _ | .mutexTrylock _ | .mutexUnlock _ | .exit =>
      inferInstanceAs (Decidable s.Executing)

/-- The thread is queued for a mutex. -/
def WaitsForMutex (s : SchedulerState) (t : UInt32) : Prop :=
  (s.threads t).state = .blocked ∧ ∃ m, s.calls t = .lock m

/-- The rest of the call that the current thread is in. -/
def resume (s : SchedulerState) : Option (Option Bool × SchedulerState) :=
  match s.calls s.currentThread with
  | .wait event => do
      let (signaled, s) ← s.eventWaitRest event
      return (some signaled, s.setCall .none)
  | _ => some (none, s.setCall .none)

def perform (s : SchedulerState) : ThreadOp → Option (Option Bool × SchedulerState)
  | .create thread stackBase esp priority now => do
      let s ← s.threadCreate thread stackBase esp priority now
      return (none, s)
  | .tick esp now => do
      let (_, s) ← s.threadHandlerC esp now
      return (none, s)
  | .yield esp now => do
      let (_, s) ← s.threadYield esp now
      return (none, s)
  | .sleep ms now => some (none, s.threadSleep ms now)
  | .eventWait event timeoutMs now => some (s.eventWait event timeoutMs now)
  | .eventSignal event => do
      let s ← s.eventSignal event
      return (none, s)
  | .mutexLock mutex => some (none, s.mutexLock mutex)
  | .mutexTrylock mutex => some (some (s.mutexTrylock mutex).1, (s.mutexTrylock mutex).2)
  | .mutexUnlock mutex => some (none, s.mutexUnlock mutex)
  | .resume => s.resume
  | .exit => some (none, s.threadExit)
  | .kill thread => do
      let s ← s.processKillThread thread
      return (none, s)

def step (s : SchedulerState) (op : ThreadOp) : Option (Reply × SchedulerState) := do
  let (value, s') ← s.perform op
  return ({ thread := s.currentThread, value }, s')

end SchedulerState

end AvrKernel.Scheduler

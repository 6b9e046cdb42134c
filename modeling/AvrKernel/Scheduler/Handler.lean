import AvrKernel.Scheduler.Thread

/-!
# The scheduler

`thread_create` and `thread_handler_c`. The handler walks the ring of threads
several times; a walk that has made as many steps as there are addresses never
comes to an end.
-/

namespace AvrKernel.Scheduler

open Linked

def addressSpace : Nat := 2 ^ 32

namespace SchedulerState

/-- `scheduler_init` with the blocks that `malloc` returned. -/
def init (mainThread idle idleStack idleEsp : UInt32) (now : UInt64) : SchedulerState where
  threads := Function.update
    (Function.update (fun _ => ThreadBlock.zero) mainThread
      { ThreadBlock.new .running 0 0 .normal now with next := mainThread })
    idle (ThreadBlock.new .ready idleStack idleEsp .idle now)
  currentThread := mainThread
  threadQueue := mainThread
  idleThread := idle
  reapList := 0
  schedLastMs := now
  events := fun _ => { signaled := false, waiters := 0 }
  mutexes := fun _ => { locked := false, owner := 0, waitHead := 0, waitTail := 0 }
  waiters := fun _ => { thread := 0, next := 0 }
  calls := fun _ => .none
  processThreads := []
  allocated := fun t => t = mainThread ∨ t = idle
  history := [.created mainThread]

/-- The block of a new thread, before it is put into the ring. -/
def newThread (s : SchedulerState) (thread stackBase esp : UInt32) (priority : ThreadPriority)
    (now : UInt64) : SchedulerState :=
  { s with
    threads := Function.update s.threads thread
      (ThreadBlock.new .ready stackBase esp priority now)
    calls := Function.update s.calls thread .none
    processThreads := thread :: s.processThreads
    allocated := Function.update s.allocated thread true
    history := s.history ++ [.created thread] }

/-- Put a thread behind the last one of the ring. -/
def enqueueThread (s : SchedulerState) (thread : UInt32) : Option SchedulerState :=
  if s.threadQueue = 0 then
    some ({ s with threadQueue := thread }.setThread thread fun t => { t with next := thread })
  else do
    let last ← walk (fun p => decide (s.next p = s.threadQueue)) s.next addressSpace s.threadQueue
    return (s.setThread last fun t => { t with next := thread }).setThread thread
      fun t => { t with next := s.threadQueue }

/-- `thread_create` with a block that `malloc` returned and a stack. -/
def threadCreate (s : SchedulerState) (thread stackBase esp : UInt32) (priority : ThreadPriority)
    (now : UInt64) : Option SchedulerState :=
  (s.newThread thread stackBase esp priority now).enqueueThread thread

/-! ## The handler -/

/-- The frame of the outgoing thread. -/
def recordFrame (s : SchedulerState) (prev currentEsp : UInt32) : SchedulerState :=
  if (s.threads prev).state ≠ .dead then s.setThread prev fun t => { t with esp := currentEsp }
  else s

/-- Free the threads that an earlier pass has unlinked. -/
def reapThreads : Nat → SchedulerState → Option SchedulerState
  | 0, _ => none
  | n + 1, s =>
      if s.reapList = 0 then some s
      else
        let thread := s.reapList
        reapThreads n { s with
          reapList := s.reapNext thread
          allocated := Function.update s.allocated thread false
          history := s.history ++ [LifeEvent.freed thread (s.threads thread).stackBase] }

/-- Everything since the last entry was spent running `prev`. -/
def chargePrev (s : SchedulerState) (prev : UInt32) (now : UInt64) : SchedulerState :=
  let elapsed := (now - s.schedLastMs).toUInt32
  let s := { s with schedLastMs := now }
  if prev ≠ s.idleThread ∧ (s.threads prev).state ≠ .dead then
    s.setThread prev fun t =>
      let t := t.chargeCpu elapsed
      if t.state = .sleeping ∨ t.state = .blocked then t.recover else t
  else s

def countThreads (s : SchedulerState) : Option Nat :=
  foldRing (fun count _ => count + 1) s.next s.threadQueue addressSpace s.threadQueue 0

def unlinkThread (s : SchedulerState) (dead : UInt32) : Option SchedulerState :=
  if s.threadQueue = 0 ∨ dead = 0 then some s
  else if s.next dead = dead then some { s with threadQueue := 0 }
  else do
    let prev ← walk (fun p => decide (s.next p = dead)) s.next addressSpace dead
    return { s with
      threadQueue := if s.threadQueue = dead then s.next dead else s.threadQueue }.setThread prev
        fun t => { t with next := s.next dead }

/-- Unlink a dead thread and leave it to the next pass to free it. -/
def dropThread (s : SchedulerState) (t : UInt32) : Option SchedulerState := do
  let s ← s.unlinkThread t
  return { s with reapList := t, history := s.history ++ [LifeEvent.unlinked t] }.setThread t
    fun block => { block with reapNext := s.reapList }

/-- Wake the sleepers, drop the dead threads and age the others. -/
def passOne (now : UInt64) : Nat → SchedulerState → UInt32 → Option SchedulerState
  | 0, s, _ => some s
  | n + 1, s, t =>
      if s.threadQueue = 0 then some s
      else do
        let following := s.next t
        let s := s.setThread t fun block => block.wake now
        let s ← if (s.threads t).state = .dead then s.dropThread t
          else some (s.setThread t fun block => block.age now)
        passOne now n s following

/-- The outgoing thread has more of its quantum left. -/
abbrev PrevContinues (s : SchedulerState) (prev : UInt32) : Prop :=
  prev ≠ s.idleThread ∧ (s.threads prev).state = .running ∧ (s.threads prev).ticksRemaining > 1

/-- A boost ends when the thread leaves the CPU. -/
def dropBoost (s : SchedulerState) (prev : UInt32) : SchedulerState :=
  if prev ≠ s.idleThread ∧ ¬ s.PrevContinues prev then
    s.setThread prev fun t => { t with boosted := false }
  else s

def effective (s : SchedulerState) (t : UInt32) : Int := (s.threads t).effective.value.toNat

/-- The highest effective priority of the runnable threads, -1 if there are none. -/
def maxPriority (s : SchedulerState) : Option Int :=
  if s.threadQueue = 0 then some (-1)
  else foldRing
    (fun best t => if (s.threads t).Runnable ∧ s.effective t > best then s.effective t else best)
    s.next s.threadQueue addressSpace s.threadQueue (-1)

/-- The next thread of that priority in turn. -/
def pickNext (s : SchedulerState) (prev : UInt32) (best : Int) : Option UInt32 :=
  let start := if prev = s.idleThread ∨ (s.threads prev).state = .dead then s.threadQueue
    else s.next prev
  walk (fun t => decide ((s.threads t).Runnable ∧ s.effective t = best)) s.next addressSpace start

/-- Retire the outgoing thread and give the CPU to `next`. -/
def switchTo (s : SchedulerState) (prev next : UInt32) : SchedulerState :=
  let s := if prev ≠ s.idleThread then
      s.setThread prev fun t => { t with ticksRemaining := t.priority.value }
    else s
  let s := if (s.threads prev).state = .running then
      s.setThread prev fun t => { t with state := .ready }
    else s
  { s.setThread next fun t => { t with state := .running } with currentThread := next }

/-- The second pass: the thread that runs next, and its frame. -/
def chooseNext (s : SchedulerState) (prev currentEsp : UInt32) (prevContinues : Bool) :
    Option (UInt32 × SchedulerState) := do
  let best ← s.maxPriority
  if best = -1 then
    if s.idleThread = 0 then return (currentEsp, s)
    else
      let s := s.switchTo prev s.idleThread
      return ((s.threads s.currentThread).esp, s)
  else if prevContinues = true ∧ s.effective prev = best then
    return (currentEsp,
      s.setThread prev fun t => { t with ticksRemaining := t.ticksRemaining - 1 })
  else
    let next ← s.pickNext prev best
    let s := s.switchTo prev next
    return ((s.threads s.currentThread).esp, s)

/-- What comes after the first pass. -/
def schedule (s : SchedulerState) (prev currentEsp : UInt32) : Option (UInt32 × SchedulerState) :=
  (s.dropBoost prev).chooseNext prev currentEsp (decide (s.PrevContinues prev))

/-- The timer interrupt and `int $0x80`. -/
def threadHandlerC (s : SchedulerState) (currentEsp : UInt32) (now : UInt64) :
    Option (UInt32 × SchedulerState) :=
  if s.threadQueue = 0 ∨ s.currentThread = 0 then some (currentEsp, s)
  else do
    let prev := s.currentThread
    let s ← (s.recordFrame prev currentEsp).reapThreads addressSpace
    let s := s.chargePrev prev now
    let count ← s.countThreads
    let s ← s.passOne now count s.threadQueue
    s.schedule prev currentEsp

end SchedulerState

end AvrKernel.Scheduler

import AvrKernel.Lib.Linked
import Mathlib.Data.UInt
import Mathlib.Logic.Function.Basic

/-!
# Threads

The thread blocks of the x86 scheduler and the state that `scheduler.c`,
`mutex.c` and `process.c` share. Blocks, events and mutexes lie at 32-bit
addresses, and 0 is `NULL`.
-/

namespace AvrKernel.Scheduler

inductive ThreadState
  | ready
  | running
  | sleeping
  | blocked
  | dead
  deriving DecidableEq

inductive ThreadPriority
  | idle
  | low
  | normal
  | high
  | realtime
  deriving DecidableEq

namespace ThreadPriority

/-- The number behind a priority, which is also its quantum. -/
def value : ThreadPriority → UInt32
  | idle => 1
  | low => 2
  | normal => 3
  | high => 4
  | realtime => 5

/-- One level down; nothing lies below the lowest. -/
def lower : ThreadPriority → ThreadPriority
  | idle => idle
  | low => idle
  | normal => low
  | high => normal
  | realtime => high

/-- One level up; nothing lies above the highest. -/
def higher : ThreadPriority → ThreadPriority
  | idle => low
  | low => normal
  | normal => high
  | high => realtime
  | realtime => realtime

end ThreadPriority

def schedTickMs : UInt32 := 1
def schedDegradeQuanta : UInt32 := 2
def schedRecoverMs : UInt64 := 20
def schedStarvationMs : UInt64 := 100

structure ThreadBlock where
  esp : UInt32
  state : ThreadState
  stackBase : UInt32
  priority : ThreadPriority
  ticksRemaining : UInt32
  wakeTick : UInt64
  dynPriority : ThreadPriority
  boosted : Bool
  cpuUsedMs : UInt32
  recoverMarkMs : UInt64
  waitMarkMs : UInt64
  next : UInt32
  reapNext : UInt32
  waitEvent : UInt32
  waitNext : UInt32
  waitSignaled : Bool
  deriving DecidableEq

namespace ThreadBlock

/-! ## Dynamic priority -/

def effective (t : ThreadBlock) : ThreadPriority :=
  if t.boosted then .realtime else t.dynPriority

def initDynamic (t : ThreadBlock) (priority : ThreadPriority) (now : UInt64) : ThreadBlock :=
  { t with
    dynPriority := priority
    boosted := false
    cpuUsedMs := 0
    recoverMarkMs := now
    waitMarkMs := now }

/-- Drop one level for every full allotment, in at most `n` rounds. -/
def degrade (allotment : UInt32) : Nat → ThreadBlock → ThreadBlock
  | 0, t => t
  | n + 1, t =>
      if t.cpuUsedMs < allotment then t
      else if t.dynPriority = .idle then { t with cpuUsedMs := 0 }
      else degrade allotment n
        { t with dynPriority := t.dynPriority.lower, cpuUsedMs := t.cpuUsedMs - allotment }

/-- Every round but the last goes down one level, of which there are five. -/
def chargeCpu (t : ThreadBlock) (ms : UInt32) : ThreadBlock :=
  if t.priority = .realtime then { t with cpuUsedMs := 0 }
  else degrade (t.priority.value * schedDegradeQuanta * schedTickMs) 5
    { t with cpuUsedMs := t.cpuUsedMs + ms }

def recover (t : ThreadBlock) : ThreadBlock :=
  { t with
    cpuUsedMs := t.cpuUsedMs / 2
    dynPriority := if t.dynPriority.value < t.priority.value then t.dynPriority.higher
      else t.dynPriority }

/-- A thread that has been off the CPU for long enough earns a level back. -/
def recoverOffCpu (t : ThreadBlock) (now : UInt64) : ThreadBlock :=
  if now - t.recoverMarkMs ≥ schedRecoverMs then { t with recoverMarkMs := now }.recover else t

/-- The starvation clock runs only while the thread wants the CPU. -/
def starve (t : ThreadBlock) (now : UInt64) : ThreadBlock :=
  if t.state ≠ .ready then { t with waitMarkMs := now }
  else if ¬ t.boosted ∧ now - t.waitMarkMs ≥ schedStarvationMs then { t with boosted := true }
  else t

def age (t : ThreadBlock) (now : UInt64) : ThreadBlock :=
  if t.state = .running then { t with recoverMarkMs := now, waitMarkMs := now }
  else (t.recoverOffCpu now).starve now

/-- A sleeper whose time has come wants the CPU. -/
def wake (t : ThreadBlock) (now : UInt64) : ThreadBlock :=
  if t.state = .sleeping ∧ now ≥ t.wakeTick then { t with state := .ready } else t

abbrev Runnable (t : ThreadBlock) : Prop := t.state = .ready ∨ t.state = .running

/-- A zeroed block; the fields that are not named here are set by the callers. -/
def zero : ThreadBlock :=
  { esp := 0, state := .ready, stackBase := 0, priority := .idle, ticksRemaining := 0,
    wakeTick := 0, dynPriority := .idle, boosted := false, cpuUsedMs := 0, recoverMarkMs := 0,
    waitMarkMs := 0, next := 0, reapNext := 0, waitEvent := 0, waitNext := 0,
    waitSignaled := false }

/-- A block of a new thread, with its stack and its first frame. -/
def new (state : ThreadState) (stackBase esp : UInt32) (priority : ThreadPriority)
    (now : UInt64) : ThreadBlock :=
  { zero with state, stackBase, esp, priority, ticksRemaining := priority.value }.initDynamic
    priority now

end ThreadBlock

theorem ThreadPriority.value_lower {p : ThreadPriority} (h : p ≠ .idle) :
    p.lower.value.toNat + 1 = p.value.toNat := by
  cases p <;> first | rfl | exact absurd rfl h

theorem ThreadPriority.value_le (p : ThreadPriority) : p.value.toNat ≤ 5 := by
  cases p <;> decide

/-- With a round for every level, less than an allotment is left to charge. -/
theorem ThreadBlock.degrade_lt {allotment : UInt32} (h : 0 < allotment) {n : Nat} {t : ThreadBlock}
    (hn : t.dynPriority.value.toNat ≤ n) : (t.degrade allotment n).cpuUsedMs < allotment := by
  induction n generalizing t with
  | zero =>
      cases hlevel : t.dynPriority <;> rw [hlevel] at hn <;> cases hn
  | succ n ih =>
      unfold degrade
      split
      · assumption
      split
      · exact h
      · rename_i hfloor
        apply ih
        have hlower := ThreadPriority.value_lower hfloor
        exact Nat.le_of_succ_le_succ (Nat.le_trans (Nat.le_of_eq hlower) hn)

structure Event where
  signaled : Bool
  waiters : UInt32
  deriving DecidableEq

structure Mutex where
  locked : Bool
  owner : UInt32
  waitHead : UInt32
  waitTail : UInt32
  deriving DecidableEq

/-- The node in the frame of `mutex_lock` by which a thread queues. A thread is
in one such call at a time, and its node goes by the thread's address. -/
structure MutexWaiter where
  thread : UInt32
  next : UInt32
  deriving DecidableEq

/-- The call that a thread will go on with when it has the CPU again. -/
inductive Call
  | none
  | sleep
  | wait (event : UInt32)
  | lock (mutex : UInt32)
  deriving DecidableEq

/-- What has been done with the block of a thread. -/
inductive LifeEvent
  | created (thread : UInt32)
  | unlinked (thread : UInt32)
  | freed (thread stackBase : UInt32)
  deriving DecidableEq

structure SchedulerState where
  threads : UInt32 → ThreadBlock
  currentThread : UInt32
  threadQueue : UInt32
  idleThread : UInt32
  reapList : UInt32
  schedLastMs : UInt64
  events : UInt32 → Event
  mutexes : UInt32 → Mutex
  waiters : UInt32 → MutexWaiter
  /-- Where the threads stand, as their stacks have it. -/
  calls : UInt32 → Call
  /-- The threads on the lists of the processes. -/
  processThreads : List UInt32
  /-- The thread blocks that are allocated. -/
  allocated : UInt32 → Bool
  history : List LifeEvent

namespace SchedulerState

variable (s : SchedulerState)

def next (t : UInt32) : UInt32 := (s.threads t).next
def reapNext (t : UInt32) : UInt32 := (s.threads t).reapNext
def waitNext (t : UInt32) : UInt32 := (s.threads t).waitNext
def waiterNext (t : UInt32) : UInt32 := (s.waiters t).next

/-- Change one thread block. -/
def setThread (t : UInt32) (change : ThreadBlock → ThreadBlock) : SchedulerState :=
  { s with threads := Function.update s.threads t (change (s.threads t)) }

end SchedulerState

end AvrKernel.Scheduler

import AvrKernel.Scheduler.Machine
import AvrKernel.Scheduler.Life

/-!
# The invariant of the machine

The ring of threads, the lists of the events and the queues of the mutexes as
lists of addresses, and what the blocks and the stacks of the threads on them
hold. Every part of the invariant has a rule for steps that change one thread
that is on none of its lists.
-/

namespace AvrKernel.Scheduler

open Linked

namespace SchedulerState

variable {s s' : SchedulerState} {ring reap : List UInt32} {t c : UInt32}
  {waiting queued : UInt32 → List UInt32}

/-- The lists of the events. -/
structure Waits (s : SchedulerState) (ring : List UInt32) (waiting : UInt32 → List UInt32) :
    Prop where
  chain : ∀ e, Chain 0 s.waitNext (s.events e).waiters (waiting e)
  mem : ∀ e t, t ∈ waiting e ↔ t ∈ ring ∧ e ≠ 0 ∧ (s.threads t).waitEvent = e
  outside : ∀ t, t ∉ ring → (s.threads t).waitEvent = 0
  call : ∀ e, ∀ t ∈ waiting e, s.calls t = .wait e ∧ s.Alive t ∧
    (s.threads t).waitSignaled = false
  /-- A thread that has left the list inside of its call was signalled. -/
  delivered : ∀ t ∈ ring, s.Alive t → ∀ e, s.calls t = .wait e →
    e ≠ 0 ∧ (t ∈ waiting e ∨ (s.threads t).waitSignaled = true)
  kept : ∀ e, (s.events e).signaled = true → waiting e = []

/-- The queues of the mutexes. -/
structure Locks (s : SchedulerState) (ring : List UInt32) (queued : UInt32 → List UInt32) :
    Prop where
  chain : ∀ m, Chain 0 s.waiterNext (s.mutexes m).waitHead (queued m)
  tail : ∀ m, (s.mutexes m).waitTail = (queued m).getLast?.getD 0
  node : ∀ m, ∀ t ∈ queued m, (s.waiters t).thread = t ∧ t ∈ ring ∧
    (s.threads t).state = .blocked ∧ s.calls t = .lock m
  unlocked : ∀ m, (s.mutexes m).locked = false → queued m = [] ∧ (s.mutexes m).owner = 0
  /-- A thread that has left the queue inside of its call has the lock. -/
  granted : ∀ t ∈ ring, s.Alive t → ∀ m, s.calls t = .lock m →
    t ∈ queued m ∨ ((s.mutexes m).locked = true ∧ (s.mutexes m).owner = t ∧ s.Runnable t)

structure Inv (s : SchedulerState) (ring reap : List UInt32)
    (waiting queued : UInt32 → List UInt32) : Prop where
  queues : s.Queues ring reap
  lives : s.Lives ring reap
  waits : s.Waits ring waiting
  locks : s.Locks ring queued
  processes : s.idleThread ∉ s.processThreads

/-! ## Steps that change one thread -/

/-- From `s` to `s'` only the block and the call of `c` change, and not its place
in the ring. -/
structure ChangesThread (s s' : SchedulerState) (c : UInt32) : Prop where
  threads : ∀ t, t ≠ c → s'.threads t = s.threads t
  calls : ∀ t, t ≠ c → s'.calls t = s.calls t
  next : (s'.threads c).next = (s.threads c).next
  reapNext : (s'.threads c).reapNext = (s.threads c).reapNext
  currentThread : s'.currentThread = s.currentThread
  threadQueue : s'.threadQueue = s.threadQueue
  idleThread : s'.idleThread = s.idleThread
  reapList : s'.reapList = s.reapList
  processThreads : s'.processThreads ⊆ s.processThreads
  allocated : s'.allocated = s.allocated
  history : s'.history = s.history

/-- A field that the block of `c` keeps is kept by all. -/
theorem ChangesThread.project {α : Type} (h : ChangesThread s s' c) (field : ThreadBlock → α)
    (hfield : field (s'.threads c) = field (s.threads c)) (t : UInt32) :
    field (s'.threads t) = field (s.threads t) := by
  by_cases heq : t = c
  · rw [heq]
    exact hfield
  · rw [h.threads t heq]

theorem changesThread_setThread {change : ThreadBlock → ThreadBlock} (s : SchedulerState)
    (c : UInt32) (hnext : (change (s.threads c)).next = (s.threads c).next)
    (hreapNext : (change (s.threads c)).reapNext = (s.threads c).reapNext) :
    ChangesThread s (s.setThread c change) c where
  threads t ht := by rw [threads_setThread, Function.update_of_ne ht]
  calls _ _ := rfl
  next := by rw [threads_setThread, Function.update_self, hnext]
  reapNext := by rw [threads_setThread, Function.update_self, hreapNext]
  currentThread := rfl
  threadQueue := rfl
  idleThread := rfl
  reapList := rfl
  processThreads := List.Subset.refl _
  allocated := rfl
  history := rfl

theorem ChangesThread.setCall (h : ChangesThread s s' c) (hc : c = s.currentThread) (call : Call) :
    ChangesThread s (s'.setCall call) c where
  threads := h.threads
  calls t ht := by
    have hne : t ≠ s'.currentThread := by
      rw [h.currentThread, ← hc]
      exact ht
    exact (Function.update_of_ne hne _ _).trans (h.calls t ht)
  next := h.next
  reapNext := h.reapNext
  currentThread := h.currentThread
  threadQueue := h.threadQueue
  idleThread := h.idleThread
  reapList := h.reapList
  processThreads := h.processThreads
  allocated := h.allocated
  history := h.history

theorem Lives.changesThread (h : s.Lives ring reap) (hc : ChangesThread s s' c) :
    s'.Lives ring reap :=
  h.congr hc.history hc.allocated hc.idleThread

theorem Queues.changesThread (h : s.Queues ring reap) (hc : ChangesThread s s' c) (hin : c ∈ ring)
    (hruns : (s'.threads c).state = .running → c = s.currentThread) : s'.Queues ring reap := by
  have hnext : s'.next = s.next := funext (hc.project ThreadBlock.next hc.next)
  have hreapNext : s'.reapNext = s.reapNext := funext (hc.project ThreadBlock.reapNext hc.reapNext)
  have hstate : ∀ t, t ≠ c → (s'.threads t).state = (s.threads t).state :=
    fun t ht => congrArg ThreadBlock.state (hc.threads t ht)
  constructor
  · rw [hnext, hc.threadQueue]
    exact h.queue
  · rw [hreapNext, hc.reapList]
    exact h.reaped
  · intro t ht
    have hne : t ≠ c := by
      rintro rfl
      exact h.apart t hin ht
    rw [Alive, hstate t hne]
    exact h.reapDead t ht
  · exact h.apart
  · rw [hc.idleThread]
    exact h.idle
  · rw [hc.currentThread, hc.idleThread]
    exact h.current
  · constructor
    · intro t ht hrunning
      rw [hc.currentThread]
      by_cases heq : t = c
      · exact heq ▸ hruns (heq ▸ hrunning)
      · exact h.oneRuns.running t ht (hstate t heq ▸ hrunning)
    · have hne : s.idleThread ≠ c := by
        rintro heq
        exact h.idle.2.1 (heq ▸ hin)
      rw [hc.currentThread, hc.idleThread, hstate _ hne]
      exact h.oneRuns.idle

/-- The thread is on no list of an event. -/
theorem Waits.changesThread (h : s.Waits ring waiting) (hc : ChangesThread s s' c)
    (hevents : s'.events = s.events) (hnone : ∀ e, c ∉ waiting e)
    (hevent : (s'.threads c).waitEvent = (s.threads c).waitEvent)
    (hcall : s'.Alive c → ∀ e, s'.calls c = .wait e → e ≠ 0 ∧ (s'.threads c).waitSignaled = true) :
    s'.Waits ring waiting := by
  have hwaitEvent := hc.project ThreadBlock.waitEvent hevent
  have hne : ∀ e, ∀ t ∈ waiting e, t ≠ c := by
    rintro e t ht rfl
    exact hnone e ht
  constructor
  · intro e
    rw [hevents]
    exact (h.chain e).congr fun t ht => congrArg ThreadBlock.waitNext (hc.threads t (hne e t ht))
  · intro e t
    rw [hwaitEvent]
    exact h.mem e t
  · intro t ht
    rw [hwaitEvent]
    exact h.outside t ht
  · intro e t ht
    rw [Alive, hc.threads t (hne e t ht), hc.calls t (hne e t ht)]
    exact h.call e t ht
  · intro t ht halive e hwait
    by_cases heq : t = c
    · subst heq
      exact (hcall halive e hwait).imp_right .inr
    · rw [Alive, hc.threads t heq] at halive
      rw [hc.calls t heq] at hwait
      rw [hc.threads t heq]
      exact h.delivered t ht halive e hwait
  · rw [hevents]
    exact h.kept

/-- The thread is in no queue of a mutex. -/
theorem Locks.changesThread (h : s.Locks ring queued) (hc : ChangesThread s s' c)
    (hmutexes : s'.mutexes = s.mutexes) (hwaiters : s'.waiters = s.waiters)
    (hnone : ∀ m, c ∉ queued m) (hcall : s'.Alive c → ∀ m, s'.calls c = .lock m →
      s.Alive c ∧ s.calls c = .lock m ∧ (s.Runnable c → s'.Runnable c)) :
    s'.Locks ring queued := by
  have hne : ∀ m, ∀ t ∈ queued m, t ≠ c := by
    rintro m t ht rfl
    exact hnone m ht
  constructor
  · intro m
    rw [hmutexes]
    exact (h.chain m).congr fun t _ => by rw [waiterNext, hwaiters, waiterNext]
  · intro m
    rw [hmutexes]
    exact h.tail m
  · intro m t ht
    rw [hwaiters, hc.threads t (hne m t ht), hc.calls t (hne m t ht)]
    exact h.node m t ht
  · rw [hmutexes]
    exact h.unlocked
  · intro t ht halive m hlock
    rw [hmutexes]
    by_cases heq : t = c
    · subst heq
      obtain ⟨hbefore, hcalls, hwants⟩ := hcall halive m hlock
      exact (h.granted t ht hbefore m hcalls).imp_right fun hown =>
        ⟨hown.1, hown.2.1, hwants hown.2.2⟩
    · rw [Alive, hc.threads t heq] at halive
      rw [hc.calls t heq] at hlock
      rw [Runnable, hc.threads t heq]
      exact h.granted t ht halive m hlock

theorem Inv.processes_subset (h : s.Inv ring reap waiting queued)
    (hidle : s'.idleThread = s.idleThread) (hlist : s'.processThreads ⊆ s.processThreads) :
    s'.idleThread ∉ s'.processThreads := by
  rw [hidle]
  exact fun hmem => h.processes (hlist hmem)

/-! ## The handler -/

theorem Inv.core (h : s.Inv ring reap waiting queued) : s.core.Inv ring reap waiting queued where
  queues := ⟨h.queues.queue, h.queues.reaped, h.queues.reapDead, h.queues.apart, h.queues.idle,
    h.queues.current, ⟨h.queues.oneRuns.running, h.queues.oneRuns.idle⟩⟩
  lives := ⟨h.lives.lawful, h.lives.queued, h.lives.dropped, h.lives.allocated⟩
  waits := ⟨h.waits.chain, h.waits.mem, h.waits.outside, h.waits.call, h.waits.delivered,
    h.waits.kept⟩
  locks := ⟨h.locks.chain, h.locks.tail, h.locks.node, h.locks.unlocked, h.locks.granted⟩
  processes := h.processes

theorem Inv.of_core (h : s.core.Inv ring reap waiting queued) : s.Inv ring reap waiting queued where
  queues := ⟨h.queues.queue, h.queues.reaped, h.queues.reapDead, h.queues.apart, h.queues.idle,
    h.queues.current, ⟨h.queues.oneRuns.running, h.queues.oneRuns.idle⟩⟩
  lives := ⟨h.lives.lawful, h.lives.queued, h.lives.dropped, h.lives.allocated⟩
  waits := ⟨h.waits.chain, h.waits.mem, h.waits.outside, h.waits.call, h.waits.delivered,
    h.waits.kept⟩
  locks := ⟨h.locks.chain, h.locks.tail, h.locks.node, h.locks.unlocked, h.locks.granted⟩
  processes := h.processes

/-- The accounting plays no part in the invariant. -/
theorem Inv.congr (h : s.Inv ring reap waiting queued) (hcore : s'.core = s.core) :
    s'.Inv ring reap waiting queued :=
  .of_core (hcore ▸ h.core)

theorem mem_alive (s : SchedulerState) (ring : List UInt32) (t : UInt32) :
    t ∈ ring.filter (fun t => s.Alive t) ↔ t ∈ ring ∧ s.Alive t := by
  rw [List.mem_filter, decide_eq_true_iff]

theorem mem_dead (s : SchedulerState) (ring : List UInt32) (t : UInt32) :
    t ∈ (ring.filter fun t => ¬ s.Alive t).reverse ↔ t ∈ ring ∧ ¬ s.Alive t := by
  rw [List.mem_reverse, List.mem_filter, decide_eq_true_iff]

theorem Queues.handled (h : s.Queues ring reap) (hhandled : Handled s s' ring reap) :
    s'.Queues (ring.filter fun t => s.Alive t) (ring.filter fun t => ¬ s.Alive t).reverse := by
  have hidle : s'.idleThread = s.idleThread := by
    have hsame := congrArg SchedulerState.idleThread hhandled.others
    exact hsame
  constructor
  · exact hhandled.queue
  · exact hhandled.reaped
  · intro t ht
    rw [Alive, not_not, (hhandled.progress t).dead, ← not_not (a := _ = _)]
    exact ((s.mem_dead ring t).mp ht).2
  · intro t ht hdead
    exact ((s.mem_dead ring t).mp hdead).2 ((s.mem_alive ring t).mp ht).2
  · rw [hidle, mem_alive, mem_dead]
    exact ⟨h.idle.1, fun hin => h.idle.2.1 hin.1, fun hin => h.idle.2.1 hin.1⟩
  · rcases hhandled.best with hbest | hbest
    · exact .inl hbest.1
    · exact .inr hbest.1
  · exact hhandled.oneRuns

theorem Waits.handled (h : s.Waits ring waiting) (hhandled : Handled s s' ring reap) :
    s'.Waits (ring.filter fun t => s.Alive t) waiting := by
  have hevents : s'.events = s.events := by
    have hsame := congrArg SchedulerState.events hhandled.others
    exact hsame
  have hcalls : s'.calls = s.calls := by
    have hsame := congrArg SchedulerState.calls hhandled.others
    exact hsame
  have halive : ∀ t, s'.Alive t ↔ s.Alive t := fun t => not_congr (hhandled.progress t).dead
  constructor
  · intro e
    rw [hevents]
    exact (h.chain e).congr fun t _ => (hhandled.progress t).waitNext
  · intro e t
    rw [(hhandled.progress t).waitEvent, mem_alive]
    constructor
    · intro ht
      obtain ⟨hin, hwait⟩ := (h.mem e t).mp ht
      exact ⟨⟨hin, (h.call e t ht).2.1⟩, hwait⟩
    · rintro ⟨⟨hin, -⟩, hwait⟩
      exact (h.mem e t).mpr ⟨hin, hwait⟩
  · intro t ht
    rw [(hhandled.progress t).waitEvent]
    by_contra hwait
    by_cases hin : t ∈ ring
    · have halive := (h.call _ t ((h.mem _ t).mpr ⟨hin, hwait, rfl⟩)).2.1
      exact ht ((s.mem_alive ring t).mpr ⟨hin, halive⟩)
    · exact hwait (h.outside t hin)
  · intro e t ht
    rw [hcalls, halive, (hhandled.progress t).waitSignaled]
    exact h.call e t ht
  · intro t ht hlive e hwait
    rw [hcalls] at hwait
    rw [(hhandled.progress t).waitSignaled]
    exact h.delivered t ((s.mem_alive ring t).mp ht).1 ((halive t).mp hlive) e hwait
  · rw [hevents]
    exact h.kept

theorem Locks.handled (h : s.Locks ring queued) (hhandled : Handled s s' ring reap) :
    s'.Locks (ring.filter fun t => s.Alive t) queued := by
  have hmutexes : s'.mutexes = s.mutexes := by
    have hsame := congrArg SchedulerState.mutexes hhandled.others
    exact hsame
  have hwaiters : s'.waiters = s.waiters := by
    have hsame := congrArg SchedulerState.waiters hhandled.others
    exact hsame
  have hcalls : s'.calls = s.calls := by
    have hsame := congrArg SchedulerState.calls hhandled.others
    exact hsame
  constructor
  · intro m
    rw [hmutexes]
    exact (h.chain m).congr fun t _ => by rw [waiterNext, hwaiters, waiterNext]
  · rw [hmutexes]
    exact h.tail
  · intro m t ht
    obtain ⟨hnode, hin, hblocked, hcall⟩ := h.node m t ht
    rw [hwaiters, hcalls, mem_alive, (hhandled.progress t).blocked]
    refine ⟨hnode, ⟨hin, ?_⟩, hblocked, hcall⟩
    rw [Alive, hblocked]
    rintro ⟨⟩
  · rw [hmutexes]
    exact h.unlocked
  · intro t ht hlive m hlock
    obtain ⟨hin, halive⟩ := (s.mem_alive ring t).mp ht
    rw [hcalls] at hlock
    rw [hmutexes]
    refine (h.granted t hin halive m hlock).imp_right fun hown => ⟨hown.1, hown.2.1, ?_⟩
    exact (hhandled.progress t).runnable hown.2.2

theorem Inv.handled (h : s.Inv ring reap waiting queued) (hhandled : Handled s s' ring reap) :
    s'.Inv (ring.filter fun t => s.Alive t) (ring.filter fun t => ¬ s.Alive t).reverse
      waiting queued where
  queues := h.queues.handled hhandled
  lives := h.lives.handled h.queues hhandled
  waits := h.waits.handled hhandled
  locks := h.locks.handled hhandled
  processes := by
    have hidle := congrArg SchedulerState.idleThread hhandled.others
    have hlist := congrArg SchedulerState.processThreads hhandled.others
    change s'.idleThread = s.idleThread at hidle
    change s'.processThreads = s.processThreads at hlist
    rw [hidle, hlist]
    exact h.processes

end SchedulerState

end AvrKernel.Scheduler

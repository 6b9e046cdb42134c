import AvrKernel.Scheduler.EventSteps

/-!
# Mutexes keep the invariant
-/

namespace AvrKernel.Scheduler

open Linked

namespace SchedulerState

variable {s s' : SchedulerState} {ring reap : List UInt32} {m t c : UInt32}
  {waiting queued : UInt32 → List UInt32}

@[simp] theorem mutexes_setMutex (s : SchedulerState) (m : UInt32) (change : Mutex → Mutex) :
    (s.setMutex m change).mutexes = Function.update s.mutexes m (change (s.mutexes m)) := rfl

@[simp] theorem waiters_setMutex (s : SchedulerState) (m : UInt32) (change : Mutex → Mutex) :
    (s.setMutex m change).waiters = s.waiters := rfl

@[simp] theorem waiters_setWaiter (s : SchedulerState) (t : UInt32) (waiter : MutexWaiter) :
    (s.setWaiter t waiter).waiters = Function.update s.waiters t waiter := rfl

/-- A thread is in one queue. -/
theorem Locks.unique {m' : UInt32} (h : s.Locks ring queued) (ht : t ∈ queued m)
    (ht' : t ∈ queued m') : m = m' :=
  Call.lock.inj ((h.node m t ht).2.2.2.symm.trans (h.node m' t ht').2.2.2)

/-! ## Locking -/

/-- Nobody is inside of `mutex_lock` for a mutex that is not locked. -/
theorem Locks.not_inside (h : s.Locks ring queued) (hlocked : (s.mutexes m).locked = false)
    (ht : t ∈ ring) (halive : s.Alive t) : s.calls t ≠ .lock m := by
  intro hcall
  rcases h.granted t ht halive m hcall with hin | ⟨hown, -, -⟩
  · rw [(h.unlocked m hlocked).1] at hin
    cases hin
  · rw [hlocked] at hown
    cases hown

/-- A mutex for which nobody is inside of `mutex_lock` gets an owner, or loses it. -/
theorem Locks.setOwner (h : s.Locks ring queued) (locked : Bool) (owner : UInt32)
    (hfree : locked = false → queued m = [] ∧ owner = 0)
    (hinside : ∀ t ∈ ring, s.Alive t → s.calls t ≠ .lock m) :
    (s.setMutex m fun mutex => { mutex with locked, owner }).Locks ring queued := by
  have hother : ∀ m', m' ≠ m →
      (s.setMutex m fun mutex => { mutex with locked, owner }).mutexes m' = s.mutexes m' :=
    fun m' hne => Function.update_of_ne hne _ _
  have hself : (s.setMutex m fun mutex => { mutex with locked, owner }).mutexes m =
      { s.mutexes m with locked, owner } := Function.update_self ..
  constructor
  · intro m'
    by_cases heq : m' = m
    · subst heq
      rw [hself]
      exact h.chain m'
    · rw [hother m' heq]
      exact h.chain m'
  · intro m'
    by_cases heq : m' = m
    · subst heq
      rw [hself]
      exact h.tail m'
    · rw [hother m' heq]
      exact h.tail m'
  · exact h.node
  · intro m' hunlocked
    by_cases heq : m' = m
    · subst heq
      rw [hself] at hunlocked ⊢
      exact hfree hunlocked
    · rw [hother m' heq] at hunlocked ⊢
      exact h.unlocked m' hunlocked
  · intro t ht halive m' hcall
    have hne : m' ≠ m := by
      rintro rfl
      exact hinside t ht halive hcall
    rw [hother m' hne]
    exact h.granted t ht halive m' hcall

theorem Inv.setOwner (h : s.Inv ring reap waiting queued) (locked : Bool) (owner : UInt32)
    (hfree : locked = false → queued m = [] ∧ owner = 0)
    (hinside : ∀ t ∈ ring, s.Alive t → s.calls t ≠ .lock m) :
    (s.setMutex m fun mutex => { mutex with locked, owner }).Inv ring reap waiting queued where
  queues := ⟨h.queues.queue, h.queues.reaped, h.queues.reapDead, h.queues.apart, h.queues.idle,
    h.queues.current, ⟨h.queues.oneRuns.running, h.queues.oneRuns.idle⟩⟩
  lives := h.lives.congr rfl rfl rfl
  waits := ⟨h.waits.chain, h.waits.mem, h.waits.outside, h.waits.call, h.waits.delivered,
    h.waits.kept⟩
  locks := h.locks.setOwner locked owner hfree hinside
  processes := h.processes

/-- The current thread takes a mutex that nobody has. -/
theorem Inv.take (h : s.Inv ring reap waiting queued) (hlocked : (s.mutexes m).locked = false)
    (c : UInt32) :
    (s.setMutex m fun mutex => { mutex with locked := true, owner := c }).Inv ring reap waiting
      queued :=
  h.setOwner true c nofun fun _ ht halive => h.locks.not_inside hlocked ht halive

/-- `s'` is `s` with the node of the current thread at the end of the queue `l` of `m`. -/
structure Enqueued (s s' : SchedulerState) (m : UInt32) (l : List UInt32) : Prop where
  chain : Chain 0 s'.waiterNext (s'.mutexes m).waitHead (l ++ [s.currentThread])
  tail : (s'.mutexes m).waitTail = s.currentThread
  locked : (s'.mutexes m).locked = (s.mutexes m).locked
  owner : (s'.mutexes m).owner = (s.mutexes m).owner
  mutexes : ∀ m', m' ≠ m → s'.mutexes m' = s.mutexes m'
  node : (s'.waiters s.currentThread).thread = s.currentThread
  nodes : ∀ t, t ≠ s.currentThread → (s'.waiters t).thread = (s.waiters t).thread
  links : ∀ t, t ≠ s.currentThread → t ∉ l → s'.waiterNext t = s.waiterNext t

theorem waiterNext_setWaiter (s : SchedulerState) (t : UInt32) (waiter : MutexWaiter) :
    (s.setWaiter t waiter).waiterNext = Function.update s.waiterNext t waiter.next :=
  Function.comp_update MutexWaiter.next s.waiters t waiter

theorem enqueueWaiter_eq {l : List UInt32} (h : Chain 0 s.waiterNext (s.mutexes m).waitHead l)
    (htail : (s.mutexes m).waitTail = l.getLast?.getD 0) (hc : s.currentThread ∉ l)
    (hnull : s.currentThread ≠ 0) : Enqueued s (s.enqueueWaiter m) m l := by
  unfold enqueueWaiter
  dsimp only
  rcases List.eq_nil_or_concat' l with rfl | ⟨l, y, rfl⟩
  · -- the queue is empty
    have hempty : ¬ (s.mutexes m).waitTail ≠ 0 := not_not.mpr htail
    rw [if_neg hempty]
    have hmutex :
        (((s.setWaiter s.currentThread { thread := s.currentThread, next := 0 }).setMutex m
          fun mutex => { mutex with waitHead := s.currentThread }).setMutex m
          fun mutex => { mutex with waitTail := s.currentThread }).mutexes m =
            { s.mutexes m with waitHead := s.currentThread, waitTail := s.currentThread } := by
      rw [mutexes_setMutex, Function.update_self, mutexes_setMutex, Function.update_self]
      rfl
    refine ⟨?_, ?_, ?_, ?_, ?_, ?_, ?_, ?_⟩
    · rw [hmutex]
      have hlink : (s.setWaiter s.currentThread
          { thread := s.currentThread, next := 0 }).waiterNext s.currentThread = 0 := by
        rw [waiterNext_setWaiter, Function.update_self]
      exact ⟨List.nodup_singleton _, fun hmem => hnull (List.mem_singleton.mp hmem).symm, rfl,
        hlink⟩
    · rw [hmutex]
    · rw [hmutex]
    · rw [hmutex]
    · intro m' hne
      rw [mutexes_setMutex, Function.update_of_ne hne, mutexes_setMutex,
        Function.update_of_ne hne]
      rfl
    · rw [waiters_setMutex, waiters_setMutex, waiters_setWaiter, Function.update_self]
    · intro t ht
      rw [waiters_setMutex, waiters_setMutex, waiters_setWaiter, Function.update_of_ne ht]
    · intro t ht _
      have hlinks := congrFun (s.waiterNext_setWaiter s.currentThread
        { thread := s.currentThread, next := 0 }) t
      exact hlinks.trans (Function.update_of_ne ht _ _)
  · have hy : (s.mutexes m).waitTail = y := by
      rw [htail, List.getLast?_concat]
      rfl
    have hyNull : y ≠ 0 := fun heq => h.valid (heq ▸ List.mem_append_right l List.mem_cons_self)
    have hne : y ≠ s.currentThread := by
      rintro rfl
      exact hc (List.mem_append_right l List.mem_cons_self)
    rw [hy, if_pos hyNull]
    -- the links are those of the queue, of the new node and of the last one
    have hlinks : ∀ s₁ : SchedulerState, s₁ = s.setWaiter s.currentThread
        { thread := s.currentThread, next := 0 } →
        ((s₁.setWaiter y { s₁.waiters y with next := s.currentThread }).setMutex m
          fun mutex => { mutex with waitTail := s.currentThread }).waiterNext =
            Function.update (Function.update s.waiterNext s.currentThread 0) y s.currentThread := by
      rintro s₁ rfl
      refine (waiterNext_setWaiter _ y _).trans ?_
      rw [waiterNext_setWaiter]
    refine ⟨?_, ?_, ?_, ?_, ?_, ?_, ?_, ?_⟩
    · rw [hlinks _ rfl, mutexes_setMutex, Function.update_self]
      have hbefore : Chain 0 (Function.update s.waiterNext s.currentThread 0)
          (s.mutexes m).waitHead (l ++ [y]) := by
        refine h.congr fun t ht => ?_
        have hother : t ≠ s.currentThread := by
          rintro rfl
          exact hc ht
        exact Function.update_of_ne hother _ _
      exact hbefore.append hc hnull (Function.update_self ..)
    · rw [mutexes_setMutex, Function.update_self]
    · rw [mutexes_setMutex, Function.update_self]
      rfl
    · rw [mutexes_setMutex, Function.update_self]
      rfl
    · intro m' hother
      rw [mutexes_setMutex, Function.update_of_ne hother]
      rfl
    · rw [waiters_setMutex, waiters_setWaiter, Function.update_of_ne hne.symm, waiters_setWaiter,
        Function.update_self]
    · intro t ht
      rw [waiters_setMutex, waiters_setWaiter]
      by_cases heq : t = y
      · subst heq
        rw [Function.update_self, waiters_setWaiter, Function.update_of_ne ht]
      · rw [Function.update_of_ne heq, waiters_setWaiter, Function.update_of_ne ht]
    · intro t ht hout
      have hother : t ≠ y := by
        rintro rfl
        exact hout (List.mem_append_right l List.mem_cons_self)
      rw [hlinks _ rfl, Function.update_of_ne hother, Function.update_of_ne ht]

/-- The variables that have nothing to do with mutexes are the same. -/
structure SameButQueues (s s' : SchedulerState) : Prop where
  currentThread : s'.currentThread = s.currentThread
  threadQueue : s'.threadQueue = s.threadQueue
  idleThread : s'.idleThread = s.idleThread
  reapList : s'.reapList = s.reapList
  calls : s'.calls = s.calls
  events : s'.events = s.events
  processThreads : s'.processThreads = s.processThreads
  allocated : s'.allocated = s.allocated
  history : s'.history = s.history

theorem enqueueWaiter_variables (s : SchedulerState) (m : UInt32) :
    (s.enqueueWaiter m).threads = s.threads ∧ SameButQueues s (s.enqueueWaiter m) := by
  unfold enqueueWaiter
  dsimp only
  split <;> exact ⟨rfl, rfl, rfl, rfl, rfl, rfl, rfl, rfl, rfl, rfl⟩

/-- `s'` is `s` after the current thread has queued for `m`. -/
structure LockQueued (s s' : SchedulerState) (m : UInt32) (l : List UInt32) : Prop where
  changes : ChangesThread s s' s.currentThread
  enqueued : Enqueued s s' m l
  waitEvent : (s'.threads s.currentThread).waitEvent = (s.threads s.currentThread).waitEvent
  state : (s'.threads s.currentThread).state = .blocked
  call : s'.calls s.currentThread = .lock m
  events : s'.events = s.events

theorem Locks.mutexLock_queued (h : s.Locks ring queued) (hm : m ≠ 0)
    (hlocked : (s.mutexes m).locked = true) (hc : s.currentThread ∉ queued m)
    (hnull : s.currentThread ≠ 0) : LockQueued s (s.mutexLock m) m (queued m) := by
  have hnot : ¬ (s.mutexes m).locked = false := by
    rw [hlocked]
    exact nofun
  have he := enqueueWaiter_eq (h.chain m) (h.tail m) hc hnull
  obtain ⟨hthreads, hsame⟩ := s.enqueueWaiter_variables m
  unfold mutexLock
  rw [if_neg hm, if_neg hnot]
  have hself : ((s.enqueueWaiter m).setThread s.currentThread fun t =>
      { t with state := .blocked }).threads s.currentThread =
        { s.threads s.currentThread with state := .blocked } := by
    rw [threads_setThread, Function.update_self, hthreads]
  refine ⟨⟨?_, ?_, ?_, ?_, hsame.currentThread, hsame.threadQueue, hsame.idleThread,
    hsame.reapList, fun _ hmem => hsame.processThreads ▸ hmem, hsame.allocated,
    hsame.history⟩, ?_, ?_, ?_, ?_, hsame.events⟩
  · intro t ht
    rw [threads_setCall, threads_setThread, Function.update_of_ne ht, hthreads]
  · intro t ht
    have hother : t ≠ (s.enqueueWaiter m).currentThread := by
      rw [hsame.currentThread]
      exact ht
    exact (Function.update_of_ne hother _ _).trans (congrFun hsame.calls t)
  · rw [threads_setCall, hself]
  · rw [threads_setCall, hself]
  · exact ⟨he.chain, he.tail, he.locked, he.owner, he.mutexes, he.node, he.nodes, he.links⟩
  · rw [threads_setCall, hself]
  · rw [threads_setCall, hself]
  · have hown : s.currentThread = (s.enqueueWaiter m).currentThread := hsame.currentThread.symm
    rw [calls_setCall]
    exact (congrArg _ hown).trans (Function.update_self ..)

theorem Locks.lockQueued (h : s.Locks ring queued) (hq : LockQueued s s' m (queued m))
    (hc : s.currentThread ∈ ring) (hnone : ∀ m, s.currentThread ∉ queued m)
    (hlocked : (s.mutexes m).locked = true) :
    s'.Locks ring (Function.update queued m (queued m ++ [s.currentThread])) := by
  have hne : ∀ {m' t}, t ∈ queued m' → t ≠ s.currentThread := by
    rintro m' t ht rfl
    exact hnone m' ht
  have hmem : ∀ m' t, t ∈ Function.update queued m (queued m ++ [s.currentThread]) m' ↔
      t ∈ queued m' ∨ (t = s.currentThread ∧ m' = m) := by
    intro m' t
    by_cases heq : m' = m
    · subst heq
      rw [Function.update_self, List.mem_append, List.mem_singleton]
      tauto
    · rw [Function.update_of_ne heq]
      tauto
  constructor
  · intro m'
    by_cases heq : m' = m
    · subst heq
      rw [Function.update_self]
      exact hq.enqueued.chain
    · rw [Function.update_of_ne heq, hq.enqueued.mutexes m' heq]
      refine (h.chain m').congr fun t ht => hq.enqueued.links t (hne ht) fun hin => ?_
      exact heq (h.unique ht hin)
  · intro m'
    by_cases heq : m' = m
    · subst heq
      rw [Function.update_self, hq.enqueued.tail, List.getLast?_concat]
      rfl
    · rw [Function.update_of_ne heq, hq.enqueued.mutexes m' heq]
      exact h.tail m'
  · intro m' t ht
    rcases (hmem m' t).mp ht with hin | ⟨rfl, rfl⟩
    · rw [hq.enqueued.nodes t (hne hin), hq.changes.threads t (hne hin),
        hq.changes.calls t (hne hin)]
      exact h.node m' t hin
    · exact ⟨hq.enqueued.node, hc, hq.state, hq.call⟩
  · intro m' hfree
    by_cases heq : m' = m
    · subst heq
      rw [hq.enqueued.locked, hlocked] at hfree
      cases hfree
    · rw [hq.enqueued.mutexes m' heq] at hfree ⊢
      rw [Function.update_of_ne heq]
      exact h.unlocked m' hfree
  · intro t ht halive m' hcall
    by_cases htc : t = s.currentThread
    · subst htc
      have heq : m' = m := (Call.lock.inj (hq.call.symm.trans hcall)).symm
      exact .inl ((hmem m' _).mpr (.inr ⟨rfl, heq⟩))
    · rw [hq.changes.calls t htc] at hcall
      rw [Alive, hq.changes.threads t htc] at halive
      rw [Runnable, hq.changes.threads t htc]
      rcases h.granted t ht halive m' hcall with hin | hown
      · exact .inl ((hmem m' t).mpr (.inl hin))
      · right
        by_cases heq : m' = m
        · subst heq
          rw [hq.enqueued.locked, hq.enqueued.owner]
          exact hown
        · rw [hq.enqueued.mutexes m' heq]
          exact hown

theorem Inv.lockQueued (h : s.Inv ring reap waiting queued)
    (hex : s.RunsCode ring waiting queued s.currentThread)
    (hq : LockQueued s s' m (queued m)) (hlocked : (s.mutexes m).locked = true) :
    s'.Inv ring reap waiting (Function.update queued m (queued m ++ [s.currentThread])) where
  queues := h.queues.changesThread hq.changes hex.mem fun _ => rfl
  lives := h.lives.changesThread hq.changes
  waits := h.waits.changesThread hq.changes hq.events hex.notWaiting hq.waitEvent
    fun _ _ hwait => absurd (hq.call.symm.trans hwait) nofun
  locks := h.locks.lockQueued hq hex.mem hex.notQueued hlocked
  processes := h.processes_subset hq.changes.idleThread hq.changes.processThreads

/-! ## Unlocking -/

/-- `s'` is `s` after `m` was handed over to the first thread of its queue. -/
structure HandedOver (s s' : SchedulerState) (m x : UInt32) : Prop where
  changes : ChangesThread s s' x
  block : s'.threads x = { s.threads x with state := .ready }
  calls : s'.calls = s.calls
  events : s'.events = s.events
  nodes : s'.waiters = s.waiters
  mutexes : ∀ m', m' ≠ m → s'.mutexes m' = s.mutexes m'
  mutex : s'.mutexes m = { s.mutexes m with
    waitHead := s.waiterNext x
    waitTail := if s.waiterNext x = 0 then 0 else (s.mutexes m).waitTail
    owner := x }

theorem Locks.mutexUnlock_handed (h : s.Locks ring queued) {x : UInt32} {l : List UInt32}
    (hm : m ≠ 0) (hown : (s.mutexes m).owner = s.currentThread) (hq : queued m = x :: l) :
    HandedOver s (s.mutexUnlock m) m x := by
  have hchain : Chain 0 s.waiterNext (s.mutexes m).waitHead (x :: l) := hq ▸ h.chain m
  have hhead : (s.mutexes m).waitHead = x := hchain.head_eq
  have hx : x ≠ 0 := fun heq => hchain.valid (heq ▸ List.mem_cons_self)
  have hnode : (s.waiters x).thread = x := (h.node m x (hq ▸ List.mem_cons_self)).1
  unfold mutexUnlock
  rw [if_neg hm, if_neg (not_not.mpr hown), hhead, if_pos hx]
  dsimp only
  rw [hnode]
  refine ⟨⟨?_, fun _ _ => rfl, ?_, ?_, rfl, rfl, rfl, rfl, List.Subset.refl _, rfl, rfl⟩, ?_, rfl,
    rfl, rfl, ?_, ?_⟩
  · intro t ht
    rw [threads_setThread, Function.update_of_ne ht]
    rfl
  · rw [threads_setThread, Function.update_self]
    rfl
  · rw [threads_setThread, Function.update_self]
    rfl
  · rw [threads_setThread, Function.update_self]
    rfl
  · exact fun m' hne => Function.update_of_ne hne _ _
  · exact Function.update_self ..

theorem Locks.handedOver (h : s.Locks ring queued) {x : UInt32} {l : List UInt32}
    (hq : queued m = x :: l) (hh : HandedOver s s' m x)
    (hown : (s.mutexes m).owner = s.currentThread) (hcall : s.calls s.currentThread = .none) :
    s'.Locks ring (Function.update queued m l) := by
  have hchain : Chain 0 s.waiterNext (s.mutexes m).waitHead (x :: l) := hq ▸ h.chain m
  have hx : x ∈ queued m := hq ▸ List.mem_cons_self
  have hlinks : s'.waiterNext = s.waiterNext := by
    funext t
    rw [waiterNext, hh.nodes, waiterNext]
  have hmem : ∀ m' t, t ∈ Function.update queued m l m' ↔ t ∈ queued m' ∧ t ≠ x := by
    intro m' t
    by_cases heq : m' = m
    · subst heq
      rw [Function.update_self, hq, List.mem_cons]
      have hnodup := (List.nodup_cons.mp hchain.nodup).1
      constructor
      · intro ht
        refine ⟨.inr ht, ?_⟩
        rintro rfl
        exact hnodup ht
      · exact fun ht => ht.1.resolve_left ht.2
    · rw [Function.update_of_ne heq]
      refine ⟨fun ht => ⟨ht, ?_⟩, And.left⟩
      rintro rfl
      exact heq (h.unique ht hx)
  constructor
  · intro m'
    rw [hlinks]
    by_cases heq : m' = m
    · subst heq
      rw [Function.update_self, hh.mutex]
      exact hchain.tail
    · rw [Function.update_of_ne heq, hh.mutexes m' heq]
      exact h.chain m'
  · intro m'
    by_cases heq : m' = m
    · subst heq
      rw [Function.update_self, hh.mutex]
      dsimp only
      have hlast := h.tail m'
      rw [hq] at hlast
      cases l with
      | nil =>
          rw [if_pos (hchain.tail.head_eq_null.mpr rfl)]
          rfl
      | cons y l =>
          rw [if_neg fun hnil => List.cons_ne_nil y l (hchain.tail.head_eq_null.mp hnil), hlast,
            List.getLast?_cons_cons]
    · rw [Function.update_of_ne heq, hh.mutexes m' heq]
      exact h.tail m'
  · intro m' t ht
    obtain ⟨hin, hne⟩ := (hmem m' t).mp ht
    rw [hh.nodes, hh.calls, hh.changes.threads t hne]
    exact h.node m' t hin
  · intro m' hfree
    by_cases heq : m' = m
    · subst heq
      rw [hh.mutex] at hfree
      have hnil := (h.unlocked m' hfree).1
      rw [hq] at hnil
      cases hnil
    · rw [hh.mutexes m' heq] at hfree ⊢
      rw [Function.update_of_ne heq]
      exact h.unlocked m' hfree
  · intro t ht halive m' hlock
    rw [hh.calls] at hlock
    by_cases htx : t = x
    · subst htx
      have heq : m' = m := Call.lock.inj (hlock.symm.trans (h.node m t hx).2.2.2)
      subst heq
      right
      rw [hh.mutex, Runnable, hh.block]
      refine ⟨?_, rfl, .inl rfl⟩
      cases hlocked : (s.mutexes m').locked with
      | true => rfl
      | false =>
          have hnil := (h.unlocked m' hlocked).1
          rw [hq] at hnil
          cases hnil
    · rw [Alive, hh.changes.threads t htx] at halive
      rw [Runnable, hh.changes.threads t htx]
      rcases h.granted t ht halive m' hlock with hin | ⟨hlocked, howner, hwants⟩
      · exact .inl ((hmem m' t).mpr ⟨hin, htx⟩)
      · right
        have hne : m' ≠ m := by
          -- the owner of `m` is not inside of a call
          rintro rfl
          rw [← howner, hown, hcall] at hlock
          cases hlock
        rw [hh.mutexes m' hne]
        exact ⟨hlocked, howner, hwants⟩

theorem Inv.handedOver (h : s.Inv ring reap waiting queued) {x : UInt32} {l : List UInt32}
    (hq : queued m = x :: l) (hh : HandedOver s s' m x)
    (hown : (s.mutexes m).owner = s.currentThread) (hcall : s.calls s.currentThread = .none) :
    s'.Inv ring reap waiting (Function.update queued m l) := by
  obtain ⟨-, hin, -, hlock⟩ := h.locks.node m x (hq ▸ List.mem_cons_self)
  refine ⟨h.queues.changesThread hh.changes hin ?_, h.lives.changesThread hh.changes,
    h.waits.changesThread hh.changes hh.events ?_ ?_ ?_, h.locks.handedOver hq hh hown hcall,
    h.processes_subset hh.changes.idleThread hh.changes.processThreads⟩
  · rw [hh.block]
    exact nofun
  · intro e hmem
    rw [(h.waits.call e x hmem).1] at hlock
    cases hlock
  · rw [hh.block]
  · intro _ e hwait
    rw [hh.calls, hlock] at hwait
    cases hwait

/-- Nobody waits: the mutex is free. -/
theorem Inv.release (h : s.Inv ring reap waiting queued) (hq : queued m = [])
    (hown : (s.mutexes m).owner = s.currentThread) (hcall : s.calls s.currentThread = .none) :
    (s.setMutex m fun mutex => { mutex with locked := false, owner := 0 }).Inv ring reap waiting
      queued := by
  refine h.setOwner false 0 (fun _ => ⟨hq, rfl⟩) fun t ht halive hlock => ?_
  rcases h.locks.granted t ht halive m hlock with hin | ⟨-, howner, -⟩
  · rw [hq] at hin
    cases hin
  · have hsame : t = s.currentThread := howner.symm.trans hown
    rw [hsame, hcall] at hlock
    cases hlock

theorem Locks.mutexUnlock_free (h : s.Locks ring queued) (hm : m ≠ 0)
    (hown : (s.mutexes m).owner = s.currentThread) (hq : queued m = []) :
    s.mutexUnlock m = s.setMutex m fun mutex => { mutex with locked := false, owner := 0 } := by
  have hhead : (s.mutexes m).waitHead = 0 := (h.chain m).head_eq_null.mpr hq
  unfold mutexUnlock
  rw [if_neg hm, if_neg (not_not.mpr hown), if_neg (not_not.mpr hhead)]

end SchedulerState

end AvrKernel.Scheduler

import AvrKernel.Scheduler.Invariant

/-!
# Events keep the invariant
-/

namespace AvrKernel.Scheduler

open Linked

namespace SchedulerState

variable {s s' : SchedulerState} {ring reap : List UInt32} {e t c : UInt32}
  {waiting queued : UInt32 → List UInt32}

/-! ## The executing thread -/

/-- What is known of a thread that runs its own code. -/
structure RunsCode (s : SchedulerState) (ring : List UInt32)
    (waiting queued : UInt32 → List UInt32) (c : UInt32) : Prop where
  mem : c ∈ ring
  awake : (s.threads c).state = .running ∨ (s.threads c).state = .dead
  call : s.calls c = .none
  notWaiting : ∀ e, c ∉ waiting e
  notQueued : ∀ m, c ∉ queued m

theorem Inv.runsCode (h : s.Inv ring reap waiting queued) (hex : s.Executing) :
    s.RunsCode ring waiting queued s.currentThread := by
  obtain ⟨hidle, hruns, hcall⟩ := hex
  refine ⟨h.queues.current.resolve_left hidle, hruns.imp_right And.left, hcall,
    fun e hin => ?_, fun m hin => ?_⟩
  · have hwait := (h.waits.call e _ hin).1
    rw [hcall] at hwait
    cases hwait
  · have hlock := (h.locks.node m _ hin).2.2.2
    rw [hcall] at hlock
    cases hlock

/-! ## Signals -/

@[simp] theorem calls_setCall (s : SchedulerState) (call : Call) :
    (s.setCall call).calls = Function.update s.calls s.currentThread call := rfl

@[simp] theorem threads_setCall (s : SchedulerState) (call : Call) :
    (s.setCall call).threads = s.threads := rfl

@[simp] theorem events_setEvent (s : SchedulerState) (e : UInt32) (change : Event → Event) :
    (s.setEvent e change).events = Function.update s.events e (change (s.events e)) := rfl

/-- The state after a signal was delivered to the threads of `l`. -/
def afterDeliver (s : SchedulerState) (l : List UInt32) : SchedulerState :=
  { s with threads := fun t => if t ∈ l then (s.threads t).signal else s.threads t }

theorem deliver_eq {l : List UInt32} {n : Nat} (h : Chain 0 s.waitNext t l) (hn : l.length < n) :
    s.deliver n t = some (s.afterDeliver l) := by
  induction l generalizing s t n with
  | nil =>
      obtain rfl : t = 0 := h.path
      cases n with
      | zero => exact absurd hn (Nat.not_lt_zero _)
      | succ n =>
          rw [deliver, if_pos rfl]
          simp only [afterDeliver, List.not_mem_nil, if_false]
  | cons u l ih =>
      obtain rfl := h.head_eq
      have hne : t ≠ 0 := fun hnil => h.valid (hnil ▸ List.mem_cons_self)
      obtain ⟨hfirst, -⟩ := List.nodup_cons.mp h.nodup
      cases n with
      | zero => exact absurd hn (Nat.not_lt_zero _)
      | succ n =>
          rw [deliver, if_neg hne]
          have hrest : Chain 0 (s.setThread t ThreadBlock.signal).waitNext (s.waitNext t) l := by
            refine h.tail.congr fun v hv => ?_
            have hother : v ≠ t := by
              rintro rfl
              exact hfirst hv
            rw [waitNext_setThread, Function.update_of_ne hother]
          rw [ih hrest (Nat.lt_of_succ_lt_succ hn)]
          unfold afterDeliver setThread
          congr 2
          funext v
          by_cases hv : v = t
          · subst hv
            simp [hfirst]
          · simp [hv]

theorem signal_alive (b : ThreadBlock) : b.signal.state = .dead ↔ b.state = .dead := by
  unfold ThreadBlock.signal
  dsimp only
  split
  · rename_i h
    refine iff_of_false nofun fun hdead => ?_
    rw [hdead] at h
    exact h.elim nofun nofun
  · exact Iff.rfl

theorem signal_running (b : ThreadBlock) : b.signal.state = .running ↔ b.state = .running := by
  unfold ThreadBlock.signal
  dsimp only
  split
  · rename_i h
    refine iff_of_false nofun fun hruns => ?_
    rw [hruns] at h
    exact h.elim nofun nofun
  · exact Iff.rfl

/-- A delivery is to the state and the waits of the waiters only. -/
theorem Queues.afterDeliver {l : List UInt32} (h : s.Queues ring reap) (hl : ∀ t ∈ l, t ∈ ring) :
    (s.afterDeliver l).Queues ring reap := by
  have hnext : (s.afterDeliver l).next = s.next := by
    funext t
    unfold SchedulerState.afterDeliver next
    dsimp only
    split <;> rfl
  have hreapNext : (s.afterDeliver l).reapNext = s.reapNext := by
    funext t
    unfold SchedulerState.afterDeliver reapNext
    dsimp only
    split <;> rfl
  constructor
  · rw [hnext]
    exact h.queue
  · rw [hreapNext]
    exact h.reaped
  · intro t ht
    have hother : t ∉ l := fun hin => h.apart t (hl t hin) ht
    unfold Alive SchedulerState.afterDeliver
    dsimp only
    rw [if_neg hother]
    exact h.reapDead t ht
  · exact h.apart
  · exact h.idle
  · exact h.current
  · constructor
    · intro t ht hruns
      unfold SchedulerState.afterDeliver at hruns
      dsimp only at hruns
      split at hruns
      · exact h.oneRuns.running t ht ((signal_running _).mp hruns)
      · exact h.oneRuns.running t ht hruns
    · have hother : s.idleThread ∉ l := fun hin => h.idle.2.1 (hl _ hin)
      unfold SchedulerState.afterDeliver
      dsimp only
      rw [if_neg hother]
      exact h.oneRuns.idle

theorem Waits.unique {e' : UInt32} (h : s.Waits ring waiting) (ht : t ∈ waiting e)
    (ht' : t ∈ waiting e') : e = e' :=
  ((h.mem e t).mp ht).2.2.symm.trans ((h.mem e' t).mp ht').2.2

/-- `s'` is `s` after a signal to `e` that had waiters. -/
structure Signalled (s s' : SchedulerState) (e : UInt32) (l : List UInt32) : Prop where
  others : ∀ t, t ∉ l → s'.threads t = s.threads t
  waiters : ∀ t ∈ l, s'.threads t = (s.threads t).signal
  events : ∀ e', e' ≠ e → s'.events e' = s.events e'
  event : s'.events e = { s.events e with waiters := 0 }
  calls : s'.calls = s.calls
  mutexes : s'.mutexes = s.mutexes
  nodes : s'.waiters = s.waiters

theorem signalled_afterDeliver (s : SchedulerState) (e : UInt32) (l : List UInt32) :
    Signalled s ((s.setEvent e fun event => { event with waiters := 0 }).afterDeliver l) e l where
  others _ ht := if_neg ht
  waiters _ ht := if_pos ht
  events _ hne := Function.update_of_ne hne _ _
  event := Function.update_self ..
  calls := rfl
  mutexes := rfl
  nodes := rfl

theorem Signalled.alive {l : List UInt32} (h : Signalled s s' e l) (t : UInt32) :
    s'.Alive t ↔ s.Alive t := by
  by_cases ht : t ∈ l
  · rw [Alive, h.waiters t ht]
    exact not_congr (signal_alive _)
  · rw [Alive, h.others t ht]

theorem Waits.signalled (h : s.Waits ring waiting)
    (hs : Signalled s s' e (waiting e)) : s'.Waits ring (Function.update waiting e []) := by
  have hother : ∀ {e' t}, e' ≠ e → t ∈ waiting e' → t ∉ waiting e :=
    fun hne ht hin => hne (h.unique ht hin)
  constructor
  · intro e'
    by_cases hne : e' = e
    · subst hne
      rw [hs.event, Function.update_self]
      exact Chain.nil 0 _
    · rw [hs.events e' hne, Function.update_of_ne hne]
      exact (h.chain e').congr fun t ht =>
        congrArg ThreadBlock.waitNext (hs.others t (hother hne ht))
  · intro e' t
    by_cases ht : t ∈ waiting e
    · -- a waiter that was signalled is on no list
      have hnone : (s'.threads t).waitEvent = 0 := congrArg ThreadBlock.waitEvent (hs.waiters t ht)
      rw [hnone]
      refine iff_of_false ?_ fun hwait => hwait.2.1 hwait.2.2.symm
      by_cases hne : e' = e
      · subst hne
        rw [Function.update_self]
        exact List.not_mem_nil
      · rw [Function.update_of_ne hne]
        exact fun hin => hother hne hin ht
    · rw [hs.others t ht]
      by_cases hne : e' = e
      · subst hne
        rw [Function.update_self]
        exact iff_of_false List.not_mem_nil fun hwait => ht ((h.mem e' t).mpr hwait)
      · rw [Function.update_of_ne hne]
        exact h.mem e' t
  · intro t ht
    have hnot : t ∉ waiting e := fun hin => ht ((h.mem e t).mp hin).1
    rw [hs.others t hnot]
    exact h.outside t ht
  · intro e' t ht
    by_cases hne : e' = e
    · subst hne
      rw [Function.update_self] at ht
      cases ht
    · rw [Function.update_of_ne hne] at ht
      rw [hs.calls, Alive, hs.others t (hother hne ht)]
      exact h.call e' t ht
  · intro t ht halive e' hwait
    rw [hs.calls] at hwait
    obtain ⟨hevent, hdelivered⟩ := h.delivered t ht ((hs.alive t).mp halive) e' hwait
    refine ⟨hevent, ?_⟩
    by_cases hin : t ∈ waiting e
    · right
      rw [hs.waiters t hin]
      rfl
    · rw [hs.others t hin]
      refine hdelivered.imp_left fun hlist => ?_
      have hne : e' ≠ e := by
        rintro rfl
        exact hin hlist
      rw [Function.update_of_ne hne]
      exact hlist
  · intro e' hsignaled
    by_cases hne : e' = e
    · subst hne
      exact Function.update_self ..
    · rw [hs.events e' hne] at hsignaled
      rw [Function.update_of_ne hne]
      exact h.kept e' hsignaled

theorem Locks.signalled (h : s.Locks ring queued) (hwaits : s.Waits ring waiting)
    (hs : Signalled s s' e (waiting e)) : s'.Locks ring queued := by
  -- who is inside of `mutex_lock` waits for no event
  have hnot : ∀ t m, s.calls t = .lock m → t ∉ waiting e := by
    intro t m hlock hin
    rw [(hwaits.call e t hin).1] at hlock
    cases hlock
  constructor
  · intro m
    rw [hs.mutexes]
    exact (h.chain m).congr fun t _ => by rw [waiterNext, hs.nodes, waiterNext]
  · rw [hs.mutexes]
    exact h.tail
  · intro m t ht
    have hnode := h.node m t ht
    rw [hs.nodes, hs.calls, hs.others t (hnot t m hnode.2.2.2)]
    exact hnode
  · rw [hs.mutexes]
    exact h.unlocked
  · intro t ht halive m hlock
    rw [hs.calls] at hlock
    rw [hs.mutexes, Runnable, hs.others t (hnot t m hlock)]
    exact h.granted t ht ((hs.alive t).mp halive) m hlock

/-- No thread changes, nor any event but its kept signal. -/
theorem Waits.setSignaled (h : s.Waits ring waiting) {signaled : Bool}
    (hempty : signaled = true → waiting e = []) :
    (s.setEvent e fun event => { event with signaled }).Waits ring waiting := by
  have hwaiters : ∀ e', ((s.setEvent e fun event => { event with signaled }).events e').waiters =
      (s.events e').waiters := by
    intro e'
    rw [events_setEvent]
    by_cases hne : e' = e
    · subst hne
      rw [Function.update_self]
    · rw [Function.update_of_ne hne]
  refine ⟨fun e' => ?_, h.mem, h.outside, h.call, h.delivered, fun e' hsignaled => ?_⟩
  · rw [hwaiters]
    exact h.chain e'
  · rw [events_setEvent] at hsignaled
    by_cases hne : e' = e
    · subst hne
      rw [Function.update_self] at hsignaled
      exact hempty hsignaled
    · rw [Function.update_of_ne hne] at hsignaled
      exact h.kept e' hsignaled

/-- The invariant does not depend on kept signals but for the lists of their events. -/
theorem Inv.setSignaled (h : s.Inv ring reap waiting queued) {signaled : Bool}
    (hempty : signaled = true → waiting e = []) :
    (s.setEvent e fun event => { event with signaled }).Inv ring reap waiting queued where
  queues := ⟨h.queues.queue, h.queues.reaped, h.queues.reapDead, h.queues.apart, h.queues.idle,
    h.queues.current, ⟨h.queues.oneRuns.running, h.queues.oneRuns.idle⟩⟩
  lives := h.lives.congr rfl rfl rfl
  waits := h.waits.setSignaled hempty
  locks := ⟨h.locks.chain, h.locks.tail, h.locks.node, h.locks.unlocked, h.locks.granted⟩
  processes := h.processes

theorem Waits.eventSignal_kept (h : s.Waits ring waiting) (he : e ≠ 0)
    (hnone : waiting e = []) :
    s.eventSignal e = some (s.setEvent e fun event => { event with signaled := true }) := by
  unfold SchedulerState.eventSignal
  rw [if_neg he, if_pos ((h.chain e).head_eq_null.mpr hnone)]

theorem Waits.eventSignal_delivered (h : s.Waits ring waiting) (he : e ≠ 0)
    (hsome : waiting e ≠ []) :
    s.eventSignal e = some ((s.setEvent e fun event =>
      { event with waiters := 0 }).afterDeliver (waiting e)) := by
  have hchain := h.chain e
  unfold SchedulerState.eventSignal
  rw [if_neg he, if_neg fun hnil => hsome (hchain.head_eq_null.mp hnil)]
  exact deliver_eq hchain (length_lt_addressSpace hchain.nodup hchain.valid)

/-- A signal is delivered to the threads that wait. -/
theorem Inv.delivered (h : s.Inv ring reap waiting queued) (e : UInt32) :
    ((s.setEvent e fun event => { event with waiters := 0 }).afterDeliver (waiting e)).Inv ring reap
      (Function.update waiting e []) queued := by
  have hs := s.signalled_afterDeliver e (waiting e)
  refine ⟨?_, h.lives.congr rfl rfl rfl, h.waits.signalled hs, h.locks.signalled h.waits hs,
    h.processes⟩
  have hbefore : (s.setEvent e fun event => { event with waiters := 0 }).Queues ring reap :=
    ⟨h.queues.queue, h.queues.reaped, h.queues.reapDead, h.queues.apart, h.queues.idle,
      h.queues.current, ⟨h.queues.oneRuns.running, h.queues.oneRuns.idle⟩⟩
  exact hbefore.afterDeliver fun t ht => ((h.waits.mem e t).mp ht).1

/-! ## Waiting -/

/-- `s'` is `s` after the current thread has queued for `e`. -/
structure Queued (s s' : SchedulerState) (e : UInt32) : Prop where
  changes : ChangesThread s s' s.currentThread
  waitEvent : (s'.threads s.currentThread).waitEvent = e
  waitNext : (s'.threads s.currentThread).waitNext = (s.events e).waiters
  waitSignaled : (s'.threads s.currentThread).waitSignaled = false
  asleep : (s'.threads s.currentThread).state = .blocked ∨
    (s'.threads s.currentThread).state = .sleeping
  call : s'.calls s.currentThread = .wait e
  events : ∀ e', e' ≠ e → s'.events e' = s.events e'
  event : s'.events e = { s.events e with waiters := s.currentThread }
  mutexes : s'.mutexes = s.mutexes
  nodes : s'.waiters = s.waiters

theorem eventWait_queued (s : SchedulerState) (timeoutMs : UInt32) (now : UInt64) (he : e ≠ 0)
    (hc : s.currentThread ≠ 0) (hkept : (s.events e).signaled = false) :
    (s.eventWait e timeoutMs now).1 = none ∧ Queued s (s.eventWait e timeoutMs now).2 e := by
  have hnot : ¬ (s.events e).signaled = true := by
    rw [hkept]
    exact nofun
  have hblock : (s.eventWait e timeoutMs now).2.threads s.currentThread =
      (s.threads s.currentThread).await e (s.events e).waiters timeoutMs now := by
    unfold eventWait
    rw [if_neg he, if_neg hc, if_neg hnot]
    exact Function.update_self ..
  refine ⟨?_, ?_, ?_, ?_, ?_, ?_, ?_, ?_, ?_, ?_, ?_⟩
  · unfold eventWait
    rw [if_neg he, if_neg hc, if_neg hnot]
  · unfold eventWait
    rw [if_neg he, if_neg hc, if_neg hnot]
    have hchanges : ChangesThread s (s.setThread s.currentThread fun t =>
        t.await e (s.events e).waiters timeoutMs now) s.currentThread :=
      changesThread_setThread s s.currentThread rfl rfl
    exact ⟨hchanges.threads, (hchanges.setCall rfl (.wait e)).calls, hchanges.next,
      hchanges.reapNext, rfl, rfl, rfl, rfl, List.Subset.refl _, rfl, rfl⟩
  · rw [hblock]
    rfl
  · rw [hblock]
    rfl
  · rw [hblock]
    rfl
  · rw [hblock]
    by_cases htimeout : timeoutMs = 0
    · exact .inl (if_pos htimeout)
    · exact .inr (if_neg htimeout)
  all_goals
    unfold eventWait
    rw [if_neg he, if_neg hc, if_neg hnot]
  · exact Function.update_self ..
  · exact fun e' hne => Function.update_of_ne hne _ _
  · exact Function.update_self ..
  · rfl
  · rfl

theorem Queued.alive (h : Queued s s' e) : s'.Alive s.currentThread := by
  rcases h.asleep with hstate | hstate
  · exact fun hdead => absurd (hstate.symm.trans hdead) nofun
  · exact fun hdead => absurd (hstate.symm.trans hdead) nofun

theorem Waits.enqueued (h : s.Waits ring waiting) (hq : Queued s s' e) (he : e ≠ 0)
    (hc : s.currentThread ∈ ring) (hnull : s.currentThread ≠ 0)
    (hnone : ∀ e, s.currentThread ∉ waiting e) (hkept : (s.events e).signaled = false) :
    s'.Waits ring (Function.update waiting e (s.currentThread :: waiting e)) := by
  have hne : ∀ {e' t}, t ∈ waiting e' → t ≠ s.currentThread := by
    rintro e' t ht rfl
    exact hnone e' ht
  have hmem : ∀ e' t, t ∈ Function.update waiting e (s.currentThread :: waiting e) e' ↔
      (t = s.currentThread ∧ e' = e) ∨ t ∈ waiting e' := by
    intro e' t
    by_cases heq : e' = e
    · subst heq
      rw [Function.update_self, List.mem_cons]
      tauto
    · rw [Function.update_of_ne heq]
      tauto
  constructor
  · intro e'
    by_cases heq : e' = e
    · subst heq
      rw [Function.update_self, hq.event]
      refine ((h.chain e').push (hnone e') hnull).congr fun t ht => ?_
      by_cases htc : t = s.currentThread
      · subst htc
        rw [Function.update_self]
        exact hq.waitNext
      · rw [Function.update_of_ne htc]
        exact congrArg ThreadBlock.waitNext (hq.changes.threads t htc)
    · rw [Function.update_of_ne heq, hq.events e' heq]
      exact (h.chain e').congr fun t ht =>
        congrArg ThreadBlock.waitNext (hq.changes.threads t (hne ht))
  · intro e' t
    rw [hmem]
    by_cases htc : t = s.currentThread
    · subst htc
      rw [hq.waitEvent]
      constructor
      · rintro (⟨-, rfl⟩ | hin)
        · exact ⟨hc, he, rfl⟩
        · exact absurd hin (hnone e')
      · exact fun hwait => .inl ⟨rfl, hwait.2.2.symm⟩
    · rw [hq.changes.threads t htc, ← h.mem e' t]
      exact ⟨fun hin => hin.resolve_left fun heq => htc heq.1, .inr⟩
  · intro t ht
    have htc : t ≠ s.currentThread := by
      rintro rfl
      exact ht hc
    rw [hq.changes.threads t htc]
    exact h.outside t ht
  · intro e' t ht
    rcases (hmem e' t).mp ht with ⟨rfl, rfl⟩ | hin
    · exact ⟨hq.call, hq.alive, hq.waitSignaled⟩
    · rw [hq.changes.calls t (hne hin), Alive, hq.changes.threads t (hne hin)]
      exact h.call e' t hin
  · intro t ht halive e' hwait
    by_cases htc : t = s.currentThread
    · subst htc
      obtain rfl : e = e' := by
        rw [hq.call] at hwait
        exact Call.wait.inj hwait
      exact ⟨he, .inl ((hmem e _).mpr (.inl ⟨rfl, rfl⟩))⟩
    · rw [hq.changes.calls t htc] at hwait
      rw [Alive, hq.changes.threads t htc] at halive
      rw [hq.changes.threads t htc]
      refine (h.delivered t ht halive e' hwait).imp_right fun hin => ?_
      exact hin.imp_left fun hin => (hmem e' t).mpr (.inr hin)
  · intro e' hsignaled
    by_cases heq : e' = e
    · subst heq
      rw [hq.event] at hsignaled
      exact absurd (hsignaled.symm.trans hkept) (by rintro ⟨⟩)
    · rw [hq.events e' heq] at hsignaled
      rw [Function.update_of_ne heq]
      exact h.kept e' hsignaled

theorem Inv.enqueued (h : s.Inv ring reap waiting queued)
    (hex : s.RunsCode ring waiting queued s.currentThread) (hq : Queued s s' e) (he : e ≠ 0)
    (hkept : (s.events e).signaled = false) :
    s'.Inv ring reap (Function.update waiting e (s.currentThread :: waiting e)) queued where
  queues := h.queues.changesThread hq.changes hex.mem fun _ => rfl
  lives := h.lives.changesThread hq.changes
  waits := h.waits.enqueued hq he hex.mem h.queues.current_ne_zero hex.notWaiting hkept
  locks := h.locks.changesThread hq.changes hq.mutexes hq.nodes hex.notQueued fun _ _ hlock =>
    absurd (hq.call.symm.trans hlock) nofun
  processes := h.processes_subset hq.changes.idleThread hq.changes.processThreads

theorem eventWait_consumed (s : SchedulerState) (timeoutMs : UInt32) (now : UInt64) (he : e ≠ 0)
    (hc : s.currentThread ≠ 0) (hkept : (s.events e).signaled = true) :
    s.eventWait e timeoutMs now =
      (some true, s.setEvent e fun event => { event with signaled := false }) := by
  unfold eventWait
  rw [if_neg he, if_neg hc, if_pos hkept]

/-! ## Leaving a list -/

/-- Blocks and events apart, the variables are the same. -/
structure SameVariables (s s' : SchedulerState) : Prop where
  currentThread : s'.currentThread = s.currentThread
  threadQueue : s'.threadQueue = s.threadQueue
  idleThread : s'.idleThread = s.idleThread
  reapList : s'.reapList = s.reapList
  calls : s'.calls = s.calls
  mutexes : s'.mutexes = s.mutexes
  nodes : s'.waiters = s.waiters
  processThreads : s'.processThreads = s.processThreads
  allocated : s'.allocated = s.allocated
  history : s'.history = s.history

/-- `s'` is `s` after `t` was taken out of the list `l` of `e`. -/
structure Removed (s s' : SchedulerState) (e t : UInt32) (l : List UInt32) : Prop where
  chain : Chain 0 s'.waitNext (s'.events e).waiters (l.erase t)
  links : ∀ u, u ∉ l → s'.waitNext u = s.waitNext u
  blocks : ∀ u, u ≠ t → s'.threads u = { s.threads u with waitNext := s'.waitNext u }
  block : s'.threads t = { s.threads t with waitNext := 0, waitEvent := 0 }
  events : ∀ e', e' ≠ e → s'.events e' = s.events e'
  event : (s'.events e).signaled = (s.events e).signaled
  same : SameVariables s s'

/-- `s'` is `s` after the link to `t` was taken out. -/
structure Unlinked (s s' : SchedulerState) (e t : UInt32) (l : List UInt32) : Prop where
  chain : Chain 0 s'.waitNext (s'.events e).waiters (l.erase t)
  links : ∀ u, u ∉ l → s'.waitNext u = s.waitNext u
  blocks : ∀ u, s'.threads u = { s.threads u with waitNext := s'.waitNext u }
  events : ∀ e', e' ≠ e → s'.events e' = s.events e'
  event : (s'.events e).signaled = (s.events e).signaled
  same : SameVariables s s'

theorem unlinkWaiter_eq {l : List UInt32} (h : Chain 0 s.waitNext (s.events e).waiters l)
    (ht : t ∈ l) : ∃ s', s.unlinkWaiter e t = some s' ∧ Unlinked s s' e t l := by
  obtain ⟨link, hfind, hchain, hplace⟩ := h.unlink ht (length_lt_addressSpace h.nodup h.valid)
  unfold unlinkWaiter
  rw [hfind]
  cases link with
  | first =>
      refine ⟨s.setEvent e fun event => { event with waiters := s.waitNext t }, rfl, ?_,
        fun _ _ => rfl, fun _ => rfl, ?_, ?_, ⟨rfl, rfl, rfl, rfl, rfl, rfl, rfl, rfl, rfl, rfl⟩⟩
      · rw [events_setEvent, Function.update_self]
        exact hchain
      · intro e' hne
        rw [events_setEvent, Function.update_of_ne hne]
      · rw [events_setEvent, Function.update_self]
  | after p =>
      have hp : p ∈ l := List.mem_of_mem_erase (hplace p rfl)
      refine ⟨s.setThread p fun b => { b with waitNext := s.waitNext t }, rfl, ?_, ?_, ?_,
        fun _ _ => rfl, rfl, ⟨rfl, rfl, rfl, rfl, rfl, rfl, rfl, rfl, rfl, rfl⟩⟩
      · rw [waitNext_setThread]
        exact hchain
      · intro u hu
        have hne : u ≠ p := by
          rintro rfl
          exact hu hp
        rw [waitNext_setThread, Function.update_of_ne hne]
      · intro u
        rw [threads_setThread, waitNext_setThread]
        by_cases heq : u = p
        · subst heq
          rw [Function.update_self, Function.update_self]
        · rw [Function.update_of_ne heq, Function.update_of_ne heq]
          rfl

theorem eventRemoveWaiter_eq {l : List UInt32} (h : Chain 0 s.waitNext (s.events e).waiters l)
    (ht : t ∈ l) : ∃ s', s.eventRemoveWaiter e t = some s' ∧ Removed s s' e t l := by
  obtain ⟨s₁, hunlink, hs⟩ := unlinkWaiter_eq h ht
  have hgone : t ∉ l.erase t := h.nodup.not_mem_erase
  have hlinks : (s₁.setThread t fun b => { b with waitNext := 0, waitEvent := 0 }).waitNext =
      Function.update s₁.waitNext t 0 := waitNext_setThread
  unfold eventRemoveWaiter
  rw [hunlink]
  refine ⟨s₁.setThread t fun b => { b with waitNext := 0, waitEvent := 0 }, rfl, ?_, ?_, ?_, ?_,
    hs.events, hs.event, ⟨hs.same.currentThread, hs.same.threadQueue, hs.same.idleThread,
      hs.same.reapList, hs.same.calls, hs.same.mutexes, hs.same.nodes, hs.same.processThreads,
      hs.same.allocated, hs.same.history⟩⟩
  · rw [hlinks]
    refine hs.chain.congr fun u hu => ?_
    have hne : u ≠ t := by
      rintro rfl
      exact hgone hu
    exact Function.update_of_ne hne _ _
  · intro u hu
    have hne : u ≠ t := by
      rintro rfl
      exact hu ht
    rw [hlinks, Function.update_of_ne hne]
    exact hs.links u hu
  · intro u hne
    rw [hlinks, threads_setThread, Function.update_of_ne hne, Function.update_of_ne hne]
    exact hs.blocks u
  · rw [threads_setThread, Function.update_self, hs.blocks t]

/-! ## The rest of a wait, and killing -/

/-- `s'` is `s` after `t` has left the list of `e` for good. -/
structure Left (s s' : SchedulerState) (e t : UInt32) (l : List UInt32) : Prop where
  chain : Chain 0 s'.waitNext (s'.events e).waiters (l.erase t)
  links : ∀ u, u ∉ l → s'.waitNext u = s.waitNext u
  blocks : ∀ u, u ≠ t → s'.threads u = { s.threads u with waitNext := s'.waitNext u }
  waitEvent : (s'.threads t).waitEvent = 0
  events : ∀ e', e' ≠ e → s'.events e' = s.events e'
  event : (s'.events e).signaled = (s.events e).signaled
  calls : ∀ u, u ≠ t → s'.calls u = s.calls u
  done : s'.Alive t → ∀ e, s'.calls t ≠ .wait e

theorem Waits.left (h : s.Waits ring waiting) (ht : t ∈ waiting e)
    (hl : Left s s' e t (waiting e)) :
    s'.Waits ring (Function.update waiting e ((waiting e).erase t)) := by
  have hother : ∀ {e' u}, e' ≠ e → u ∈ waiting e' → u ∉ waiting e :=
    fun hne hu hin => hne (h.unique hu hin)
  have hmem : ∀ e' u, u ∈ Function.update waiting e ((waiting e).erase t) e' ↔
      u ∈ waiting e' ∧ u ≠ t := by
    intro e' u
    by_cases heq : e' = e
    · subst heq
      rw [Function.update_self, (h.chain e').nodup.mem_erase_iff, and_comm]
    · rw [Function.update_of_ne heq]
      refine ⟨fun hu => ⟨hu, ?_⟩, And.left⟩
      rintro rfl
      exact hother heq hu ht
  have hin := (h.mem e t).mp ht
  have hevent : ∀ u, u ≠ t → (s'.threads u).waitEvent = (s.threads u).waitEvent :=
    fun u hu => by rw [hl.blocks u hu]
  have hsignaled : ∀ u, u ≠ t → (s'.threads u).waitSignaled = (s.threads u).waitSignaled :=
    fun u hu => by rw [hl.blocks u hu]
  have halive : ∀ u, u ≠ t → (s'.Alive u ↔ s.Alive u) :=
    fun u hu => by rw [Alive, hl.blocks u hu]
  constructor
  · intro e'
    by_cases heq : e' = e
    · subst heq
      rw [Function.update_self]
      exact hl.chain
    · rw [Function.update_of_ne heq, hl.events e' heq]
      exact (h.chain e').congr fun u hu => hl.links u (hother heq hu)
  · intro e' u
    rw [hmem]
    by_cases heq : u = t
    · subst heq
      rw [hl.waitEvent]
      exact iff_of_false (fun hu => hu.2 rfl) fun hwait => hwait.2.1 hwait.2.2.symm
    · rw [hevent u heq, ← h.mem e' u]
      exact and_iff_left heq
  · intro u hu
    by_cases heq : u = t
    · rw [heq]
      exact hl.waitEvent
    · rw [hevent u heq]
      exact h.outside u hu
  · intro e' u hu
    obtain ⟨hu, hne⟩ := (hmem e' u).mp hu
    rw [hl.calls u hne, halive u hne, hsignaled u hne]
    exact h.call e' u hu
  · intro u hu hlive e' hwait
    by_cases heq : u = t
    · subst heq
      exact absurd hwait (hl.done hlive e')
    · rw [hl.calls u heq] at hwait
      rw [hsignaled u heq]
      refine (h.delivered u hu ((halive u heq).mp hlive) e' hwait).imp_right fun hlist => ?_
      exact hlist.imp_left fun hlist => (hmem e' u).mpr ⟨hlist, heq⟩
  · intro e' hkept
    by_cases heq : e' = e
    · subst heq
      rw [hl.event] at hkept
      rw [Function.update_self, h.kept e' hkept]
      rfl
    · rw [hl.events e' heq] at hkept
      rw [Function.update_of_ne heq]
      exact h.kept e' hkept

/-- Leaving a list concerns the lists of the events only. -/
theorem Removed.core {l : List UInt32} (h : Removed s s' e t l) (u : UInt32) :
    (s'.threads u).state = (s.threads u).state ∧ (s'.threads u).next = (s.threads u).next ∧
      (s'.threads u).reapNext = (s.threads u).reapNext ∧
      (s'.threads u).waitSignaled = (s.threads u).waitSignaled := by
  by_cases heq : u = t
  · rw [heq, h.block]
    exact ⟨rfl, rfl, rfl, rfl⟩
  · rw [h.blocks u heq]
    exact ⟨rfl, rfl, rfl, rfl⟩

theorem Queues.removed {l : List UInt32} (h : s.Queues ring reap) (hr : Removed s s' e t l) :
    s'.Queues ring reap := by
  have hnext : s'.next = s.next := funext fun u => (hr.core u).2.1
  have hreapNext : s'.reapNext = s.reapNext := funext fun u => (hr.core u).2.2.1
  have hidle := hr.same.idleThread
  have hcurrent := hr.same.currentThread
  constructor
  · rw [hnext, hr.same.threadQueue]
    exact h.queue
  · rw [hreapNext, hr.same.reapList]
    exact h.reaped
  · intro u hu
    rw [Alive, (hr.core u).1]
    exact h.reapDead u hu
  · exact h.apart
  · rw [hidle]
    exact h.idle
  · rw [hcurrent, hidle]
    exact h.current
  · constructor
    · intro u hu hruns
      rw [hcurrent]
      exact h.oneRuns.running u hu ((hr.core u).1 ▸ hruns)
    · rw [hcurrent, hidle, (hr.core _).1]
      exact h.oneRuns.idle

theorem Locks.removed {l : List UInt32} (h : s.Locks ring queued) (hr : Removed s s' e t l) :
    s'.Locks ring queued := by
  have hcalls := hr.same.calls
  have hmutexes := hr.same.mutexes
  have hnodes := hr.same.nodes
  constructor
  · intro m
    rw [hmutexes]
    exact (h.chain m).congr fun u _ => by rw [waiterNext, hnodes, waiterNext]
  · rw [hmutexes]
    exact h.tail
  · intro m u hu
    rw [hnodes, hcalls, (hr.core u).1]
    exact h.node m u hu
  · rw [hmutexes]
    exact h.unlocked
  · intro u hu hlive m hlock
    rw [Alive, (hr.core u).1] at hlive
    rw [hcalls] at hlock
    rw [hmutexes, Runnable, ThreadBlock.Runnable, (hr.core u).1]
    exact h.granted u hu hlive m hlock

theorem Lives.removed {l : List UInt32} (h : s.Lives ring reap) (hr : Removed s s' e t l) :
    s'.Lives ring reap :=
  h.congr hr.same.history hr.same.allocated hr.same.idleThread

theorem Removed.left {s₁ : SchedulerState} {l : List UInt32} (hr : Removed s s₁ e t l) (ht : t ∈ l)
    (hgone : t ∉ l.erase t) (hc : ChangesThread s₁ s' t) (hevents : s'.events = s₁.events)
    (hwait : (s'.threads t).waitEvent = 0) (hdone : s'.Alive t → ∀ e, s'.calls t ≠ .wait e) :
    Left s s' e t l := by
  have hlinks : ∀ u, u ≠ t → s'.waitNext u = s₁.waitNext u :=
    fun u hu => congrArg ThreadBlock.waitNext (hc.threads u hu)
  constructor
  · rw [hevents]
    refine hr.chain.congr fun u hu => hlinks u ?_
    rintro rfl
    exact hgone hu
  · intro u hu
    have hne : u ≠ t := by
      rintro rfl
      exact hu ht
    rw [hlinks u hne, hr.links u hu]
  · intro u hu
    rw [hc.threads u hu, hlinks u hu]
    exact hr.blocks u hu
  · exact hwait
  · intro e' hne
    rw [hevents, hr.events e' hne]
  · rw [hevents, hr.event]
  · intro u hu
    rw [hc.calls u hu, hr.same.calls]
  · exact hdone

/-- A thread of the ring leaves its list and changes no more than its own block. -/
theorem Inv.left {s₁ : SchedulerState} (h : s.Inv ring reap waiting queued)
    (ht : t ∈ waiting e) (hr : Removed s s₁ e t (waiting e)) (hc : ChangesThread s₁ s' t)
    (hevents : s'.events = s₁.events) (hmutexes : s'.mutexes = s₁.mutexes)
    (hnodes : s'.waiters = s₁.waiters) (hwait : (s'.threads t).waitEvent = 0)
    (hruns : (s'.threads t).state = .running → t = s₁.currentThread)
    (hdone : s'.Alive t → s'.calls t = .none) :
    s'.Inv ring reap (Function.update waiting e ((waiting e).erase t)) queued := by
  have hin := ((h.waits.mem e t).mp ht).1
  have hgone : t ∉ (waiting e).erase t := (h.waits.chain e).nodup.not_mem_erase
  have hnotQueued : ∀ m, t ∉ queued m := by
    intro m hmem
    have hlock := (h.locks.node m t hmem).2.2.2
    rw [(h.waits.call e t ht).1] at hlock
    cases hlock
  refine ⟨(h.queues.removed hr).changesThread hc hin hruns,
    (h.lives.removed hr).changesThread hc, h.waits.left ht ?_,
    (h.locks.removed hr).changesThread hc hmutexes hnodes hnotQueued ?_,
    h.processes_subset (hc.idleThread.trans hr.same.idleThread)
      (hr.same.processThreads ▸ hc.processThreads)⟩
  · refine hr.left ht hgone hc hevents hwait fun halive e' hcall => ?_
    rw [hdone halive] at hcall
    cases hcall
  · intro halive m hlock
    rw [hdone halive] at hlock
    cases hlock

/-- The block of a thread that is not in the ring changes. -/
theorem Inv.outside (h : s.Inv ring reap waiting queued) (hout : t ∉ ring)
    (hidle : t ≠ s.idleThread) (hc : ChangesThread s s' t) (hnone : ∀ e, t ∉ waiting e)
    (hnotQueued : ∀ m, t ∉ queued m) (hevents : s'.events = s.events)
    (hmutexes : s'.mutexes = s.mutexes) (hnodes : s'.waiters = s.waiters)
    (hevent : (s'.threads t).waitEvent = (s.threads t).waitEvent) (hdead : ¬ s'.Alive t) :
    s'.Inv ring reap waiting queued := by
  have hnext : s'.next = s.next := funext (hc.project ThreadBlock.next hc.next)
  have hreapNext : s'.reapNext = s.reapNext := funext (hc.project ThreadBlock.reapNext hc.reapNext)
  have hstate : ∀ u, u ≠ t → (s'.threads u).state = (s.threads u).state :=
    fun u hu => congrArg ThreadBlock.state (hc.threads u hu)
  refine ⟨⟨?_, ?_, ?_, h.queues.apart, ?_, ?_, ⟨?_, ?_⟩⟩, h.lives.changesThread hc,
    h.waits.changesThread hc hevents hnone hevent fun halive => absurd halive hdead,
    h.locks.changesThread hc hmutexes hnodes hnotQueued fun halive => absurd halive hdead,
    h.processes_subset hc.idleThread hc.processThreads⟩
  · rw [hnext, hc.threadQueue]
    exact h.queues.queue
  · rw [hreapNext, hc.reapList]
    exact h.queues.reaped
  · intro u hu
    by_cases heq : u = t
    · rw [heq]
      exact hdead
    · rw [Alive, hstate u heq]
      exact h.queues.reapDead u hu
  · rw [hc.idleThread]
    exact h.queues.idle
  · rw [hc.currentThread, hc.idleThread]
    exact h.queues.current
  · intro u hu hruns
    have hne : u ≠ t := by
      rintro rfl
      exact hout hu
    rw [hc.currentThread]
    exact h.queues.oneRuns.running u hu (hstate u hne ▸ hruns)
  · rw [hc.currentThread, hc.idleThread, hstate _ hidle.symm]
    exact h.queues.oneRuns.idle

/-- The rest of a call that is not on any list any more. -/
theorem Inv.returned (h : s.Inv ring reap waiting queued) (hin : t ∈ ring)
    (hnone : ∀ e, t ∉ waiting e) (hnotQueued : ∀ m, t ∉ queued m) (hc : ChangesThread s s' t)
    (hevents : s'.events = s.events) (hmutexes : s'.mutexes = s.mutexes)
    (hnodes : s'.waiters = s.waiters)
    (hevent : (s'.threads t).waitEvent = (s.threads t).waitEvent)
    (hruns : (s'.threads t).state = .running → t = s.currentThread)
    (hdone : s'.Alive t → s'.calls t = .none ∨ s'.calls t = .sleep) :
    s'.Inv ring reap waiting queued where
  queues := h.queues.changesThread hc hin hruns
  lives := h.lives.changesThread hc
  waits := h.waits.changesThread hc hevents hnone hevent fun halive e hcall => by
    rcases hdone halive with hcalls | hcalls
    · exact absurd (hcalls.symm.trans hcall) nofun
    · exact absurd (hcalls.symm.trans hcall) nofun
  locks := h.locks.changesThread hc hmutexes hnodes hnotQueued fun halive m hcall => by
    rcases hdone halive with hcalls | hcalls
    · exact absurd (hcalls.symm.trans hcall) nofun
    · exact absurd (hcalls.symm.trans hcall) nofun
  processes := h.processes_subset hc.idleThread hc.processThreads

/-- A thread is on the list of one event at most. -/
theorem erase_waiting (hmem : ∀ e', t ∈ waiting e' → e' = e) :
    (fun e' => (waiting e').erase t) = Function.update waiting e ((waiting e).erase t) := by
  funext e'
  by_cases heq : e' = e
  · rw [heq, Function.update_self]
  · rw [Function.update_of_ne heq, List.erase_of_not_mem fun hin => heq (hmem e' hin)]

/-- `s'` is `s` after the thread `t` has left a list, or was on none, and has
come to the end of its call or of its life. -/
structure Ended (s s' : SchedulerState) (t : UInt32) : Prop where
  signaled : ∀ e, (s'.events e).signaled = (s.events e).signaled
  mutexes : s'.mutexes = s.mutexes
  state : ∀ u, u ≠ t → (s'.threads u).state = (s.threads u).state
  calls : ∀ u, u ≠ t → s'.calls u = s.calls u

/-- The rest of `event_wait` returns whether the thread has left the list. -/
theorem Inv.eventWaitRest (h : s.Inv ring reap waiting queued) (hin : s.currentThread ∈ ring)
    (hruns : (s.threads s.currentThread).state = .running)
    (hcall : s.calls s.currentThread = .wait e) :
    ∃ s', s.eventWaitRest e = some (decide (s.currentThread ∉ waiting e), s') ∧
      (s'.setCall .none).Inv ring reap (fun e => (waiting e).erase s.currentThread) queued ∧
      (s'.setCall .none).calls s.currentThread = .none ∧
      ((s'.setCall .none).threads s.currentThread).state = .running ∧
      Ended s (s'.setCall .none) s.currentThread := by
  have halive : s.Alive s.currentThread := by
    rw [Alive, hruns]
    rintro ⟨⟩
  obtain ⟨hnull, hwhere⟩ := h.waits.delivered _ hin halive e hcall
  have honly : ∀ e', s.currentThread ∈ waiting e' → e' = e := by
    intro e' hmem
    have hother := (h.waits.call e' _ hmem).1
    rw [hcall] at hother
    exact (Call.wait.inj hother).symm
  rw [erase_waiting honly]
  by_cases hlist : s.currentThread ∈ waiting e
  · -- the timeout has come first
    obtain ⟨-, -, hwait⟩ := (h.waits.mem e _).mp hlist
    obtain ⟨s₁, hremove, hr⟩ := eventRemoveWaiter_eq (h.waits.chain e) hlist
    have hsignaled : (s₁.threads s.currentThread).waitSignaled = false := by
      rw [hr.block]
      exact (h.waits.call e _ hlist).2.2
    have hrun : s.eventWaitRest e = some (decide (s.currentThread ∉ waiting e),
        s₁.setThread s.currentThread fun t => { t with waitSignaled := false }) := by
      unfold SchedulerState.eventWaitRest
      dsimp only
      rw [if_pos hwait, hremove, decide_eq_false (not_not.mpr hlist)]
      exact congrArg (fun value => some (value, _)) hsignaled
    have hself : s.currentThread = s₁.currentThread := hr.same.currentThread.symm
    have hc : ChangesThread s₁ ((s₁.setThread s.currentThread fun t =>
        { t with waitSignaled := false }).setCall .none) s.currentThread :=
      (changesThread_setThread s₁ s.currentThread rfl rfl).setCall hself .none
    have hnone : ((s₁.setThread s.currentThread fun t =>
        { t with waitSignaled := false }).setCall .none).calls s.currentThread = .none :=
      (congrArg _ hself).trans (Function.update_self ..)
    refine ⟨_, hrun, ?_, hnone, ?_, fun e' => ?_, hr.same.mutexes, fun u hu => ?_, fun u hu => ?_⟩
    · apply h.left hlist hr hc rfl rfl rfl
      · rw [threads_setCall, threads_setThread, Function.update_self, hr.block]
      · exact fun _ => hself
      · exact fun _ => hnone
    · rw [threads_setCall, threads_setThread, Function.update_self, hr.block]
      exact hruns
    · by_cases heq : e' = e
      · rw [heq]
        exact hr.event
      · exact congrArg Event.signaled (hr.events e' heq)
    · rw [hc.threads u hu]
      exact (hr.core u).1
    · rw [hc.calls u hu, hr.same.calls]
  · have hne : (s.threads s.currentThread).waitEvent ≠ e :=
      fun heq => hlist ((h.waits.mem e _).mpr ⟨hin, hnull, heq⟩)
    have hrun : s.eventWaitRest e = some (decide (s.currentThread ∉ waiting e),
        s.setThread s.currentThread fun t => { t with waitSignaled := false }) := by
      unfold SchedulerState.eventWaitRest
      dsimp only
      rw [if_neg hne, decide_eq_true hlist]
      exact congrArg (fun value => some (value, _)) (hwhere.resolve_left hlist)
    rw [List.erase_of_not_mem hlist, Function.update_eq_self]
    have hc : ChangesThread s ((s.setThread s.currentThread fun t =>
        { t with waitSignaled := false }).setCall .none) s.currentThread :=
      (changesThread_setThread s s.currentThread rfl rfl).setCall rfl .none
    have hstate : (((s.setThread s.currentThread fun t =>
        { t with waitSignaled := false }).setCall .none).threads s.currentThread).state =
          .running := by
      rw [threads_setCall, threads_setThread, Function.update_self]
      exact hruns
    refine ⟨_, hrun, ?_, Function.update_self .., hstate, fun _ => rfl, rfl,
      fun u hu => congrArg ThreadBlock.state (hc.threads u hu), hc.calls⟩
    apply h.returned hin _ _ hc rfl rfl rfl _ (fun _ => rfl) fun _ => .inl (Function.update_self ..)
    · exact fun e' hmem => hlist (honly e' hmem ▸ hmem)
    · intro m hmem
      have hlock := (h.locks.node m _ hmem).2.2.2
      rw [hcall] at hlock
      cases hlock
    · rw [threads_setCall, threads_setThread, Function.update_self]

/-- The rest of a call that only waits for the CPU. -/
theorem Inv.setCall_none (h : s.Inv ring reap waiting queued) (hin : s.currentThread ∈ ring)
    (hruns : (s.threads s.currentThread).state = .running)
    (hnot : ∀ e, s.calls s.currentThread ≠ .wait e) :
    (s.setCall .none).Inv ring reap (fun e => (waiting e).erase s.currentThread) queued := by
  have hnone : ∀ e, s.currentThread ∉ waiting e := fun e hmem => hnot e (h.waits.call e _ hmem).1
  rw [show (fun e => (waiting e).erase s.currentThread) = waiting from
    funext fun e => List.erase_of_not_mem (hnone e)]
  have hc : ChangesThread s (s.setCall .none) s.currentThread :=
    ⟨fun _ _ => rfl, fun t ht => Function.update_of_ne ht _ _, rfl, rfl, rfl, rfl, rfl, rfl,
      List.Subset.refl _, rfl, rfl⟩
  apply h.returned hin hnone _ hc rfl rfl rfl rfl (fun _ => rfl) fun _ =>
    .inl (Function.update_self ..)
  intro m hmem
  have hblocked := (h.locks.node m _ hmem).2.2.1
  rw [hruns] at hblocked
  cases hblocked

theorem markDead_block (s : SchedulerState) (t : UInt32) :
    (s.markDead t).threads t = { s.threads t with state := .dead } :=
  Function.update_self ..

theorem changesThread_markDead (s : SchedulerState) (t : UInt32) :
    ChangesThread s (s.markDead t) t where
  threads _ hne := Function.update_of_ne hne _ _
  calls _ _ := rfl
  next := by rw [markDead_block]
  reapNext := by rw [markDead_block]
  currentThread := rfl
  threadQueue := rfl
  idleThread := rfl
  reapList := rfl
  processThreads := List.erase_subset
  allocated := rfl
  history := rfl

/-- A thread is killed that is queued for no mutex. The block of a thread that is
not in the ring any more is dead or free. -/
theorem Inv.kill (h : s.Inv ring reap waiting queued) (hidle : t ≠ s.idleThread)
    (hfree : ¬ s.WaitsForMutex t) :
    ∃ s', s.processKillThread t = some s' ∧ ¬ s'.Alive t ∧
      s'.Inv ring reap (fun e => (waiting e).erase t) queued ∧ s'.calls = s.calls ∧
      Ended s s' t := by
  have hnotQueued : ∀ m, t ∉ queued m := by
    intro m hmem
    obtain ⟨-, -, hblocked, hlock⟩ := h.locks.node m t hmem
    exact hfree ⟨hblocked, m, hlock⟩
  have hdead : ∀ u : SchedulerState, ¬ (u.markDead t).Alive t := by
    intro u
    rw [Alive, markDead_block]
    exact not_not.mpr rfl
  have honly : ∀ e, t ∈ waiting e → e = (s.threads t).waitEvent :=
    fun e hmem => ((h.waits.mem e t).mp hmem).2.2.symm
  rw [erase_waiting honly]
  unfold processKillThread threadDetachFromEvent
  dsimp only
  by_cases hnull : (s.threads t).waitEvent = 0
  · rw [if_pos hnull]
    have hnone : ∀ e, t ∉ waiting e := by
      intro e hmem
      obtain ⟨-, he, hwait⟩ := (h.waits.mem e t).mp hmem
      exact he (hwait.symm.trans hnull)
    rw [List.erase_of_not_mem (hnone _), Function.update_eq_self]
    have hc := s.changesThread_markDead t
    refine ⟨s.markDead t, rfl, hdead s, ?_, rfl, fun _ => rfl, rfl,
      fun u hu => congrArg ThreadBlock.state (hc.threads u hu), fun _ _ => rfl⟩
    by_cases hin : t ∈ ring
    · apply h.returned hin hnone hnotQueued hc rfl rfl rfl
      · rw [markDead_block]
      · rw [markDead_block]
        rintro ⟨⟩
      · exact fun halive => absurd halive (hdead s)
    · exact h.outside hin hidle hc hnone hnotQueued rfl rfl rfl (by rw [markDead_block])
        (hdead s)
  · rw [if_neg hnull]
    have hin : t ∈ ring := by
      by_contra hout
      exact hnull (h.waits.outside t hout)
    have hlist : t ∈ waiting (s.threads t).waitEvent := (h.waits.mem _ t).mpr ⟨hin, hnull, rfl⟩
    obtain ⟨s₁, hremove, hr⟩ := eventRemoveWaiter_eq (h.waits.chain _) hlist
    have hc := s₁.changesThread_markDead t
    refine ⟨s₁.markDead t, by rw [hremove]; rfl, hdead s₁, ?_, hr.same.calls, fun e => ?_,
      hr.same.mutexes, fun u hu => ?_, fun u _ => congrFun hr.same.calls u⟩
    · apply h.left hlist hr hc rfl rfl rfl
      · rw [markDead_block, hr.block]
      · rw [markDead_block]
        rintro ⟨⟩
      · exact fun halive => absurd halive (hdead s₁)
    · by_cases heq : e = (s.threads t).waitEvent
      · rw [heq]
        exact hr.event
      · exact congrArg Event.signaled (hr.events e heq)
    · rw [hc.threads u hu]
      exact (hr.core u).1

end SchedulerState

end AvrKernel.Scheduler

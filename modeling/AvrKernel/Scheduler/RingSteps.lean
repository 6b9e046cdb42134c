import AvrKernel.Scheduler.MutexSteps

/-!
# The ring keeps the invariant

New threads and entries of the handler.
-/

namespace AvrKernel.Scheduler

open Linked

namespace SchedulerState

variable {s s' : SchedulerState} {ring reap : List UInt32} {t x : UInt32}
  {waiting queued : UInt32 → List UInt32}

/-! ## Creating a thread -/

/-- `s'` is `s` with the new thread `x` at the end of the ring. -/
structure Created (s s' : SchedulerState) (ring : List UInt32) (x : UInt32) : Prop where
  queue : Ring 0 s'.next s'.threadQueue (ring ++ [x])
  blocks : ∀ t, t ≠ x → s'.threads t = { s.threads t with next := s'.next t }
  state : (s'.threads x).state = .ready
  waitEvent : (s'.threads x).waitEvent = 0
  calls : s'.calls = Function.update s.calls x .none
  currentThread : s'.currentThread = s.currentThread
  idleThread : s'.idleThread = s.idleThread
  reapList : s'.reapList = s.reapList
  events : s'.events = s.events
  mutexes : s'.mutexes = s.mutexes
  nodes : s'.waiters = s.waiters
  processThreads : s'.processThreads = x :: s.processThreads
  allocated : s'.allocated = Function.update s.allocated x true
  history : s'.history = s.history ++ [.created x]

/-- The ring apart, the variables are the same. -/
structure SameButRing (s s' : SchedulerState) : Prop where
  calls : s'.calls = s.calls
  currentThread : s'.currentThread = s.currentThread
  idleThread : s'.idleThread = s.idleThread
  reapList : s'.reapList = s.reapList
  events : s'.events = s.events
  mutexes : s'.mutexes = s.mutexes
  nodes : s'.waiters = s.waiters
  processThreads : s'.processThreads = s.processThreads
  allocated : s'.allocated = s.allocated
  history : s'.history = s.history

/-- Only links of the ring change when a thread is put into it. -/
theorem enqueueThread_eq (h : Ring 0 s.next s.threadQueue ring) (hx : x ∉ ring) (hnull : x ≠ 0) :
    ∃ s', s.enqueueThread x = some s' ∧ Ring 0 s'.next s'.threadQueue (ring ++ [x]) ∧
      (∀ t, s'.threads t = { s.threads t with next := s'.next t }) ∧
      SameButRing s s' := by
  unfold enqueueThread
  rcases List.eq_nil_or_concat' ring with rfl | ⟨l, y, rfl⟩
  · rw [if_pos (h.empty rfl)]
    refine ⟨_, rfl, ?_, ?_, ⟨rfl, rfl, rfl, rfl, rfl, rfl, rfl, rfl, rfl, rfl⟩⟩
    · apply Ring.single hnull
      rw [next_setThread, Function.update_self]
    · intro t
      rw [next_setThread, threads_setThread]
      by_cases heq : t = x
      · subst heq
        rw [Function.update_self, Function.update_self]
      · rw [Function.update_of_ne heq, Function.update_of_ne heq]
        rfl
  · have hhead := h.turn.1
    have hlen := length_lt_addressSpace h.nodup h.valid
    have hwalk := h.walk_last (n := addressSpace) (by
      rw [List.length_append, List.length_singleton] at hlen
      exact Nat.lt_of_succ_lt hlen)
    have hxy : x ≠ y := by
      rintro rfl
      exact hx (List.mem_append_right l List.mem_cons_self)
    rw [if_neg hhead, hwalk]
    have hnext : ((s.setThread y fun t => { t with next := x }).setThread x
        fun t => { t with next := s.threadQueue }).next =
          Function.update (Function.update s.next y x) x s.threadQueue := by
      rw [next_setThread, next_setThread]
    refine ⟨_, rfl, ?_, ?_, ⟨rfl, rfl, rfl, rfl, rfl, rfl, rfl, rfl, rfl, rfl⟩⟩
    · rw [hnext]
      exact h.push hx hnull
    · intro t
      rw [hnext]
      by_cases heq : t = x
      · subst heq
        rw [threads_setThread, Function.update_self, threads_setThread,
          Function.update_of_ne hxy, Function.update_self]
      · rw [threads_setThread, Function.update_of_ne heq, Function.update_of_ne heq]
        by_cases hlast : t = y
        · subst hlast
          rw [threads_setThread, Function.update_self, Function.update_self]
        · rw [threads_setThread, Function.update_of_ne hlast, Function.update_of_ne hlast]
          rfl

theorem threadCreate_eq (h : Ring 0 s.next s.threadQueue ring) (hx : x ∉ ring) (hnull : x ≠ 0)
    (stackBase esp : UInt32) (priority : ThreadPriority) (now : UInt64) :
    ∃ s', s.threadCreate x stackBase esp priority now = some s' ∧ Created s s' ring x := by
  have hne : ∀ t ∈ ring, t ≠ x := by
    rintro t ht rfl
    exact hx ht
  have hring : Ring 0 (s.newThread x stackBase esp priority now).next
      (s.newThread x stackBase esp priority now).threadQueue ring :=
    h.congr fun t ht => congrArg ThreadBlock.next (Function.update_of_ne (hne t ht) _ _)
  obtain ⟨s', hrun, hqueue, hblocks, hsame⟩ := enqueueThread_eq hring hx hnull
  have hself : (s.newThread x stackBase esp priority now).threads x =
      ThreadBlock.new .ready stackBase esp priority now := Function.update_self ..
  refine ⟨s', hrun, hqueue, ?_, ?_, ?_, hsame.calls, hsame.currentThread, hsame.idleThread,
    hsame.reapList, hsame.events, hsame.mutexes, hsame.nodes, hsame.processThreads,
    hsame.allocated, hsame.history⟩
  · intro t ht
    have hother : (s.newThread x stackBase esp priority now).threads t = s.threads t :=
      Function.update_of_ne ht _ _
    rw [hblocks t, hother]
  · rw [hblocks x, hself]
    rfl
  · rw [hblocks x, hself]
    rfl

theorem Queues.created (h : s.Queues ring reap) (hc : Created s s' ring x) (hx : x ∉ reap)
    (hidle : x ≠ s.idleThread) (hcurrent : x ≠ s.currentThread) : s'.Queues (ring ++ [x]) reap := by
  have hstate : ∀ t, t ≠ x → (s'.threads t).state = (s.threads t).state :=
    fun t ht => by rw [hc.blocks t ht]
  have hne : ∀ t ∈ reap, t ≠ x := by
    rintro t ht rfl
    exact hx ht
  constructor
  · exact hc.queue
  · rw [hc.reapList]
    exact h.reaped.congr fun t ht => by rw [reapNext, hc.blocks t (hne t ht), reapNext]
  · intro t ht
    rw [Alive, hstate t (hne t ht)]
    exact h.reapDead t ht
  · intro t ht
    rcases List.mem_append.mp ht with hin | heq
    · exact h.apart t hin
    · rw [List.mem_singleton.mp heq]
      exact hx
  · rw [hc.idleThread, List.mem_append, List.mem_singleton]
    refine ⟨h.idle.1, ?_, h.idle.2.2⟩
    rintro (hin | heq)
    · exact h.idle.2.1 hin
    · exact hidle heq.symm
  · rw [hc.currentThread, hc.idleThread]
    exact h.current.imp_right (List.mem_append_left [x])
  · constructor
    · intro t ht hruns
      rw [hc.currentThread]
      by_cases heq : t = x
      · rw [heq, hc.state] at hruns
        cases hruns
      · have hin := (List.mem_append.mp ht).resolve_right fun hx => heq (List.mem_singleton.mp hx)
        exact h.oneRuns.running t hin (hstate t heq ▸ hruns)
    · rw [hc.currentThread, hc.idleThread, hstate _ hidle.symm]
      exact h.oneRuns.idle

theorem Lives.created (h : s.Lives ring reap) (hc : Created s s' ring x) (hring : x ∉ ring)
    (hreap : x ∉ reap) : s'.Lives (ring ++ [x]) reap := by
  have hphase : phases s.history x = .absent := by
    cases hbefore : phases s.history x with
    | absent => rfl
    | queued => exact absurd ((h.queued x).mp hbefore) hring
    | dropped => exact absurd ((h.dropped x).mp hbefore) hreap
  have hafter : ∀ t, phases s'.history t = if t = x then .queued else phases s.history t := by
    intro t
    have happend : phases s'.history = Function.update (phases s.history) x .queued := by
      rw [phases, hc.history, phasesFrom_append]
      rfl
    rw [happend, Function.update_apply]
  constructor
  · rw [Lawful, hc.history, lawfulFrom_append]
    exact ⟨h.lawful, hphase, trivial⟩
  · intro t
    rw [hafter, List.mem_append, List.mem_singleton]
    by_cases heq : t = x
    · rw [if_pos heq]
      exact iff_of_true rfl (.inr heq)
    · rw [if_neg heq, h.queued]
      exact (or_iff_left heq).symm
  · intro t
    rw [hafter]
    by_cases heq : t = x
    · rw [if_pos heq]
      exact iff_of_false (by rintro ⟨⟩) (heq ▸ hreap)
    · rw [if_neg heq]
      exact h.dropped t
  · intro t ht
    rw [hc.allocated]
    by_cases heq : t = x
    · rw [heq, Function.update_self]
    · rw [Function.update_of_ne heq]
      rw [hc.idleThread, List.mem_append, List.mem_singleton] at ht
      refine h.allocated t (ht.imp_left fun hin => hin.resolve_right heq)

theorem Waits.created (h : s.Waits ring waiting) (hc : Created s s' ring x) (hring : x ∉ ring) :
    s'.Waits (ring ++ [x]) waiting := by
  have hne : ∀ e, ∀ t ∈ waiting e, t ≠ x := by
    rintro e t ht rfl
    exact hring ((h.mem e t).mp ht).1
  constructor
  · intro e
    rw [hc.events]
    exact (h.chain e).congr fun t ht => by rw [waitNext, hc.blocks t (hne e t ht), waitNext]
  · intro e t
    rw [List.mem_append, List.mem_singleton]
    by_cases heq : t = x
    · subst heq
      rw [hc.waitEvent]
      refine iff_of_false (fun hin => hne e t hin rfl) fun hwait => hwait.2.1 hwait.2.2.symm
    · rw [hc.blocks t heq, h.mem e t, or_iff_left heq]
  · intro t ht
    rw [List.mem_append, List.mem_singleton, not_or] at ht
    rw [hc.blocks t ht.2]
    exact h.outside t ht.1
  · intro e t ht
    rw [hc.calls, Function.update_of_ne (hne e t ht), Alive, hc.blocks t (hne e t ht)]
    exact h.call e t ht
  · intro t ht halive e hwait
    rw [hc.calls] at hwait
    by_cases heq : t = x
    · rw [heq, Function.update_self] at hwait
      cases hwait
    · have hin := (List.mem_append.mp ht).resolve_right fun hx => heq (List.mem_singleton.mp hx)
      rw [Function.update_of_ne heq] at hwait
      rw [Alive, hc.blocks t heq] at halive
      rw [hc.blocks t heq]
      exact h.delivered t hin halive e hwait
  · rw [hc.events]
    exact h.kept

theorem Locks.created (h : s.Locks ring queued) (hc : Created s s' ring x) (hring : x ∉ ring) :
    s'.Locks (ring ++ [x]) queued := by
  have hne : ∀ m, ∀ t ∈ queued m, t ≠ x := by
    rintro m t ht rfl
    exact hring (h.node m t ht).2.1
  constructor
  · intro m
    rw [hc.mutexes]
    exact (h.chain m).congr fun t _ => by rw [waiterNext, hc.nodes, waiterNext]
  · rw [hc.mutexes]
    exact h.tail
  · intro m t ht
    rw [hc.nodes, hc.calls, Function.update_of_ne (hne m t ht), hc.blocks t (hne m t ht)]
    exact (h.node m t ht).imp_right fun hnode => hnode.imp_left (List.mem_append_left [x])
  · rw [hc.mutexes]
    exact h.unlocked
  · intro t ht halive m hlock
    rw [hc.calls] at hlock
    rw [hc.mutexes]
    by_cases heq : t = x
    · rw [heq, Function.update_self] at hlock
      cases hlock
    · have hin := (List.mem_append.mp ht).resolve_right fun hx => heq (List.mem_singleton.mp hx)
      rw [Function.update_of_ne heq] at hlock
      rw [Alive, hc.blocks t heq] at halive
      rw [Runnable, hc.blocks t heq]
      exact h.granted t hin halive m hlock

theorem Inv.create (h : s.Inv ring reap waiting queued) (hnull : x ≠ 0)
    (hfree : s.allocated x = false) (stackBase esp : UInt32) (priority : ThreadPriority)
    (now : UInt64) :
    ∃ s', s.threadCreate x stackBase esp priority now = some s' ∧ Created s s' ring x ∧
      s'.Inv (ring ++ [x]) reap waiting queued := by
  have hused : ∀ t, t ∈ ring ∨ t ∈ reap ∨ t = s.idleThread → t ≠ x := by
    rintro t ht rfl
    have hallocated := h.lives.allocated t ht
    rw [hfree] at hallocated
    cases hallocated
  have hring : x ∉ ring := fun hin => hused x (.inl hin) rfl
  have hreap : x ∉ reap := fun hin => hused x (.inr (.inl hin)) rfl
  have hidle : x ≠ s.idleThread := (hused _ (.inr (.inr rfl))).symm
  have hcurrent : x ≠ s.currentThread := by
    rcases h.queues.current with heq | hin
    · rw [heq]
      exact hidle
    · exact (hused _ (.inl hin)).symm
  obtain ⟨s', hrun, hc⟩ := threadCreate_eq h.queues.queue hring hnull stackBase esp priority now
  refine ⟨s', hrun, hc, h.queues.created hc hreap hidle hcurrent, h.lives.created hc hring hreap,
    h.waits.created hc hring, h.locks.created hc hring, ?_⟩
  rw [hc.idleThread, hc.processThreads, List.mem_cons, not_or]
  exact ⟨hidle.symm, h.processes⟩

/-! ## The handler -/

/-- Every entry of the handler comes to its end; it does nothing if there are no
threads. -/
theorem Inv.handler (h : s.Inv ring reap waiting queued) (esp : UInt32) (now : UInt64) :
    ∃ esp' s' reap', s.threadHandlerC esp now = some (esp', s') ∧
      s'.Inv (ring.filter fun t => s.Alive t) reap' waiting queued ∧
      (∀ t, Progress (s.threads t) (s'.threads t)) ∧ s'.others = s.others ∧
      ((ring = [] ∧ s' = s) ∨ (ring ≠ [] ∧ reap' = (ring.filter fun t => ¬ s.Alive t).reverse ∧
        Handled s s' ring reap)) := by
  by_cases hnil : ring = []
  · refine ⟨esp, s, reap, ?_, ?_, fun t => .refl _, rfl, .inl ⟨hnil, rfl⟩⟩
    · unfold threadHandlerC
      rw [if_pos (.inl (h.queues.queue.empty hnil))]
    · subst hnil
      exact h
  · obtain ⟨esp', s', hrun, hhandled⟩ := threadHandlerC_eq h.queues hnil esp now
    exact ⟨esp', s', _, hrun, h.handled hhandled, hhandled.progress, hhandled.others,
      .inr ⟨hnil, rfl, hhandled⟩⟩

/-- The state in which a yield enters the handler. -/
def yielding (s : SchedulerState) : SchedulerState :=
  if s.currentThread ≠ 0 then
    s.setThread s.currentThread fun t => { t with ticksRemaining := 0 }
  else s

theorem yielding_core (s : SchedulerState) : s.yielding.core = s.core := by
  unfold yielding
  split
  · apply core_setThread
    exact fun _ => rfl
  · rfl

theorem threadYield_eq (s : SchedulerState) (esp : UInt32) (now : UInt64) :
    s.threadYield esp now = s.yielding.threadHandlerC esp now := rfl

end SchedulerState

end AvrKernel.Scheduler

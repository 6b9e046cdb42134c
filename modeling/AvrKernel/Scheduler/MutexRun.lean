import AvrKernel.Scheduler.Step

/-!
# Runs of mutexes

Whatever threads do and in whatever order, a mutex goes from owner to owner in
the order in which it is asked for.
-/

namespace AvrKernel.Scheduler

open Linked

namespace SchedulerState

variable {s s' : SchedulerState} {ring reap : List UInt32} {t m : UInt32}
  {waiting queued : UInt32 → List UInt32} {op : ThreadOp}

/-- Nobody locks a mutex that it has. -/
def LocksFreshly (s : SchedulerState) : ThreadOp → Prop
  | .mutexLock m => s.holder m ≠ some s.currentThread
  | _ => True

instance (s : SchedulerState) : (op : ThreadOp) → Decidable (s.LocksFreshly op)
  | .mutexLock _ => inferInstanceAs (Decidable (_ ≠ _))
  | .create .. | .tick .. | .yield .. | .sleep .. | .eventWait .. | .eventSignal _ | .kill _
  | .mutexTrylock _ | .mutexUnlock _ | .resume | .exit => .isTrue trivial

/-- A step that can happen, in which no waiting thread is killed and no owner
locks again. -/
def MutexRules (s : SchedulerState) (op : ThreadOp) : Prop :=
  s.Enabled op ∧ s.KillsSafely op ∧ s.LocksFreshly op

instance (s : SchedulerState) (op : ThreadOp) : Decidable (s.MutexRules op) :=
  inferInstanceAs (Decidable (_ ∧ _ ∧ _))

/-- The thread is inside of `mutex_lock` and queued. -/
def WaitsFor (s : SchedulerState) (m t : UInt32) : Prop :=
  phases s.history t = .queued ∧ (s.threads t).state = .blocked ∧ s.calls t = .lock m

/-- What the threads have asked of a mutex in a run. -/
def mutexRequests (m : UInt32) : List ThreadOp → List Reply → List (FifoLock.Request UInt32)
  | op :: ops, reply :: replies =>
      (requestOn m reply.thread op).toList ++ mutexRequests m ops replies
  | _, _ => []

/-- A mutex and the threads that wait for it, in turn. -/
structure MutexSound (s : SchedulerState) (m : UInt32) (queue : List UInt32) : Prop where
  chain : Chain 0 s.waiterNext (s.mutexes m).waitHead queue
  waits : ∀ t, t ∈ queue ↔ s.WaitsFor m t
  unlocked : s.holder m = none → queue = []
  /-- A thread returns from `mutex_lock` as the owner. -/
  returns : s.Enabled .resume → s.calls s.currentThread = .lock m →
    s.holder m = some s.currentThread

/-- What a step from `s` to `s'` does to mutexes and to those that wait for them. -/
structure MutexStep (s : SchedulerState) (op : ThreadOp) (reply : Reply) (s' : SchedulerState) :
    Prop where
  /-- `mutex_lock` that has not queued the thread returns to the owner. -/
  locked : ∀ m, m ≠ 0 → op = .mutexLock m → s'.calls s.currentThread = .none →
    s'.holder m = some s.currentThread
  tried : ∀ m, m ≠ 0 → op = .mutexTrylock m → reply.value = some true →
    s.holder m = none ∧ s'.holder m = some s.currentThread
  kept : ∀ m t, s.holder m = some t → s'.holder m ≠ some t →
    op = .mutexUnlock m ∧ t = s.currentThread
  handed : ∀ m t, s.WaitsFor m t → ((s'.threads t).state = .ready ↔ s'.holder m = some t) ∧
    (s'.holder m ≠ some t → s'.WaitsFor m t)
  ignored : ∀ m, op = .mutexUnlock m → s.holder m ≠ some s.currentThread → s' = s

/-- All that holds of the mutexes in a run from `s`. -/
def MutexesHandOver (s : SchedulerState) (ops : List ThreadOp) : Prop :=
  ∃ replies s', Trace.run SchedulerState.step s ops = some (replies, s') ∧
    (∀ m, let requests := mutexRequests m ops replies
      let lock := FifoLock.free.run requests
      s'.holder m = lock.holder ∧ s'.MutexSound m lock.queue ∧
        FifoLock.free.asks requests = FifoLock.free.grants requests ++ lock.queue) ∧
    ∀ op reply s'', s'.MutexRules op → s'.step op = some (reply, s'') → s'.MutexStep op reply s''

/-! ## The invariant -/

/-- The invariant with queues in which no owner waits. -/
structure MutexInv (s : SchedulerState) (ring reap : List UInt32)
    (waiting queued : UInt32 → List UInt32) : Prop where
  inv : s.Inv ring reap waiting queued
  sound : ∀ m, (s.lockOf queued m).Sound

theorem Inv.waitsFor_iff (h : s.Inv ring reap waiting queued) :
    t ∈ queued m ↔ s.WaitsFor m t := by
  constructor
  · intro ht
    obtain ⟨-, hin, hblocked, hcall⟩ := h.locks.node m t ht
    exact ⟨(h.lives.queued t).mpr hin, hblocked, hcall⟩
  · rintro ⟨hphase, hblocked, hcall⟩
    have halive : s.Alive t := fun hdead => absurd (hblocked.symm.trans hdead) (by rintro ⟨⟩)
    rcases h.locks.granted t ((h.lives.queued t).mp hphase) halive m hcall with hin | ⟨-, -, hwants⟩
    · exact hin
    · rw [Runnable, ThreadBlock.Runnable, hblocked] at hwants
      exact hwants.elim (by rintro ⟨⟩) (by rintro ⟨⟩)

theorem Inv.free_queue (h : s.Inv ring reap waiting queued) (m : UInt32) :
    s.holder m = none → queued m = [] := by
  intro hfree
  cases hlocked : (s.mutexes m).locked with
  | false => exact (h.locks.unlocked m hlocked).1
  | true => exact absurd hfree (holder_ne_none hlocked)

theorem MutexInv.mutexSound (h : s.MutexInv ring reap waiting queued) (m : UInt32) :
    s.MutexSound m (queued m) where
  chain := h.inv.locks.chain m
  waits _ := h.inv.waitsFor_iff
  unlocked := h.inv.free_queue m
  returns := by
    rintro ⟨hidle, -, hruns⟩ hcall
    have halive : s.Alive s.currentThread := fun hdead => absurd (hruns.symm.trans hdead) nofun
    have hin := h.inv.queues.current.resolve_left hidle
    rcases h.inv.locks.granted _ hin halive m hcall with hmem | ⟨hlocked, howner, -⟩
    · have hblocked := (h.inv.locks.node m _ hmem).2.2.1
      exact absurd (hruns.symm.trans hblocked) nofun
    · unfold SchedulerState.holder
      rw [if_pos hlocked, howner]

theorem requestOn_eq_some {c : UInt32} {r : FifoLock.Request UInt32}
    (h : requestOn m c op = some r) :
    (op = .mutexLock m ∧ r = .acquire c) ∨ (op = .mutexTrylock m ∧ r = .attempt c) ∨
      (op = .mutexUnlock m ∧ r = .release c) := by
  obtain ⟨⟨m', r'⟩, hrequest, hr⟩ := Option.bind_eq_some_iff.mp h
  dsimp only at hr
  split at hr
  · rename_i heq
    subst heq
    cases hr
    unfold mutexRequest at hrequest
    split at hrequest
    · split at hrequest <;> cases hrequest
      exact .inl ⟨rfl, rfl⟩
    · split at hrequest <;> cases hrequest
      exact .inr (.inl ⟨rfl, rfl⟩)
    · split at hrequest <;> cases hrequest
      exact .inr (.inr ⟨rfl, rfl⟩)
    · cases hrequest
  · cases hr

/-- A request that is made under the rules is fresh. -/
theorem MutexInv.lockAfter_sound (h : s.MutexInv ring reap waiting queued) (hok : s.MutexRules op)
    (m : UInt32) : (s.lockAfter queued op m).Sound := by
  unfold SchedulerState.lockAfter
  cases hr : requestOn m s.currentThread op with
  | none => exact h.sound m
  | some r =>
      refine (h.sound m).step fun a ha => ?_
      rcases requestOn_eq_some hr with ⟨rfl, rfl⟩ | ⟨-, rfl⟩ | ⟨-, rfl⟩
      · cases ha
        exact ⟨hok.2.2, (h.inv.runsCode hok.1).notQueued _⟩
      · cases ha
      · cases ha

theorem MutexInv.step (h : s.MutexInv ring reap waiting queued) (hok : s.MutexRules op) :
    ∃ value s' ring' reap' waiting',
      s.step op = some ({ thread := s.currentThread, value }, s') ∧
        s'.MutexInv ring' reap' waiting' (fun m => (s.lockAfter queued op m).queue) ∧
        Stepped s ring waiting queued op value s' ring' waiting' := by
  obtain ⟨value, s', ring', waiting', hrun, -, hstep⟩ := h.inv.step hok.1 hok.2.1
  obtain ⟨reap', hinv⟩ := hstep.inv
  refine ⟨value, s', ring', reap', waiting', hrun, ⟨hinv, fun m => ?_⟩, hstep⟩
  have hlock : s'.lockOf (fun m => (s.lockAfter queued op m).queue) m =
    s.lockAfter queued op m := by
    unfold SchedulerState.lockOf
    rw [hstep.holder]
  rw [hlock]
  exact h.lockAfter_sound hok m

/-! ## One step -/

theorem mutexTrylock_taken (hm : m ≠ 0) (h : (s.mutexTrylock m).1 = true) :
    (s.mutexes m).locked = false := by
  unfold mutexTrylock at h
  rw [if_neg hm] at h
  split at h
  · assumption
  · cases h

/-- `mutex_lock` that returns at once returns to the owner. -/
theorem Inv.mutexLock_returned (h : s.Inv ring reap waiting queued) (hex : s.Executing) (hm : m ≠ 0)
    (hreturned : (s.mutexLock m).calls s.currentThread = .none) :
    (s.mutexLock m).holder m = some s.currentThread := by
  cases hlocked : (s.mutexes m).locked with
  | false =>
      unfold SchedulerState.mutexLock SchedulerState.holder
      rw [if_neg hm, if_pos hlocked, mutexes_setMutex, Function.update_self]
      rfl
  | true =>
      have hq := h.locks.mutexLock_queued hm hlocked ((h.runsCode hex).notQueued m)
        h.queues.current_ne_zero
      rw [hq.call] at hreturned
      cases hreturned

theorem mutexUnlock_ignored (hown : s.holder m ≠ some s.currentThread)
    (hfree : (s.mutexes m).locked = false → (s.mutexes m).owner ≠ s.currentThread) :
    s.mutexUnlock m = s := by
  unfold mutexUnlock
  split
  · rfl
  · refine if_pos fun howner => ?_
    cases hlocked : (s.mutexes m).locked with
    | false => exact hfree hlocked howner
    | true =>
        unfold holder at hown
        rw [if_pos hlocked, howner] at hown
        exact hown rfl

theorem MutexInv.mutexStep (h : s.MutexInv ring reap waiting queued) (hok : s.MutexRules op)
    {reply : Reply} (hrun : s.step op = some (reply, s')) : s.MutexStep op reply s' := by
  obtain ⟨value, s₁, ring', reap', waiting', hstep, hinv, hstepped⟩ := h.step hok
  obtain ⟨rfl, rfl⟩ := Prod.mk.inj (Option.some.inj (hrun.symm.trans hstep))
  constructor
  · rintro m hm rfl hreturned
    obtain ⟨-, rfl⟩ := Prod.mk.inj (Option.some.inj hrun)
    exact h.inv.mutexLock_returned hok.1 hm hreturned
  · rintro m hm rfl htaken
    obtain ⟨hreply, rfl⟩ := Prod.mk.inj (Option.some.inj hrun)
    have hlocked : (s.mutexes m).locked = false := by
      apply mutexTrylock_taken hm
      have hvalue := congrArg Reply.value hreply
      exact Option.some.inj (hvalue.trans htaken)
    refine ⟨holder_eq_none hlocked, ?_⟩
    unfold mutexTrylock holder
    rw [if_neg hm, if_pos hlocked, mutexes_setMutex, Function.update_self]
    rfl
  · intro m t hheld hlost
    rw [hstepped.holder] at hlost
    cases hr : requestOn m s.currentThread op with
    | none =>
        rw [lockAfter, hr] at hlost
        exact absurd hheld hlost
    | some r =>
        rw [lockAfter, hr] at hlost
        have hrelease : r = .release t := by
          by_contra hne
          exact hlost (FifoLock.holder_step (l := s.lockOf queued m) hheld hne)
        rcases requestOn_eq_some hr with ⟨-, rfl⟩ | ⟨-, rfl⟩ | ⟨hop, rfl⟩
        · cases hrelease
        · cases hrelease
        · cases hrelease
          exact ⟨hop, rfl⟩
  · intro m t hwait
    have hin := h.inv.waitsFor_iff.mpr hwait
    have hafter := hinv.sound m
    by_cases hout : t ∈ (s.lockAfter queued op m).queue
    · -- still queued
      have hstill := hinv.inv.waitsFor_iff.mp hout
      have hnot : s'.holder m ≠ some t := hafter.others t hout
      refine ⟨iff_of_false (fun hready => ?_) hnot, fun _ => hstill⟩
      exact absurd (hready.symm.trans hstill.2.1) (by rintro ⟨⟩)
    · have hready := hstepped.handed m t hin hout
      have hholder : s'.holder m = some t := by
        rw [hstepped.holder]
        unfold lockAfter at hout ⊢
        cases hr : requestOn m s.currentThread op with
        | none =>
            rw [hr] at hout
            exact absurd hin hout
        | some r =>
            rw [hr] at hout
            exact ((h.sound m).left_iff hin).mp hout
      exact ⟨iff_of_true hready hholder, fun hnot => absurd hholder hnot⟩
  · rintro m rfl hown
    obtain ⟨-, rfl⟩ := Prod.mk.inj (Option.some.inj hrun)
    refine mutexUnlock_ignored hown fun hlocked howner => ?_
    have hnull := (h.inv.locks.unlocked m hlocked).2
    exact h.inv.queues.current_ne_zero (howner.symm.trans hnull)

/-! ## Runs -/

theorem track_requests {l l' : FifoLock UInt32} {ops : List ThreadOp} {replies : List Reply}
    (h : Trace.track (fun l op reply => some (l.after (requestOn m reply.thread op))) l ops
      replies =
      some l') : l.run (mutexRequests m ops replies) = l' := by
  induction ops generalizing l replies with
  | nil =>
      cases replies <;> exact Option.some.inj h
  | cons op ops ih =>
      cases replies with
      | nil => exact Option.some.inj h
      | cons reply replies =>
          rw [mutexRequests, FifoLock.run_toList]
          exact ih h

/-- From the first state on, in every run that follows the rules, every mutex is
handed over as it should be. -/
theorem mutexes_hand_over {mainThread idle idleStack idleEsp : UInt32} {now : UInt64}
    {ops : List ThreadOp} (hmain : mainThread ≠ 0) (hidle : idle ≠ 0) (hne : mainThread ≠ idle)
    (hok : Trace.Permitted SchedulerState.step MutexRules
      (init mainThread idle idleStack idleEsp now) ops) :
    MutexesHandOver (init mainThread idle idleStack idleEsp now) ops := by
  have hstart : (init mainThread idle idleStack idleEsp now).MutexInv [mainThread] []
      (fun _ => []) fun _ => [] :=
    ⟨init_inv hmain hidle hne, fun _ => FifoLock.sound_free⟩
  have htrack : ∀ m, ∃ replies s' l,
      Trace.run SchedulerState.step (init mainThread idle idleStack idleEsp now) ops =
        some (replies, s') ∧
      Trace.track (fun l op reply => some (l.after (requestOn m reply.thread op))) FifoLock.free ops
        replies = some l ∧
      ∃ ring reap waiting queued, s'.MutexInv ring reap waiting queued ∧ l =
        s'.lockOf queued m := by
    intro m
    refine Trace.run_tracks (R := fun s l => ∃ ring reap waiting queued,
      s.MutexInv ring reap waiting queued ∧ l = s.lockOf queued m) ?_ ⟨_, _, _, _, hstart, rfl⟩ hok
    rintro s _ op ⟨ring, reap, waiting, queued, hinv, rfl⟩ hrules
    obtain ⟨value, s', ring', reap', waiting', hrun, hinv', hstep⟩ := hinv.step hrules
    refine ⟨_, s', _, hrun, rfl, ring', reap', waiting', _, hinv', ?_⟩
    unfold lockOf
    rw [hstep.holder]
    rfl
  obtain ⟨replies, s', -, hrun, -, ring, reap, waiting, queued, hinv, -⟩ := htrack 0
  refine ⟨replies, s', hrun, fun m => ?_, fun op reply s'' hrules => hinv.mutexStep hrules⟩
  obtain ⟨replies₁, s₁, l, hrun₁, hl, _, _, _, _, hinv₁, rfl⟩ := htrack m
  obtain ⟨rfl, rfl⟩ := Prod.mk.inj (Option.some.inj (hrun.symm.trans hrun₁))
  have horder := FifoLock.order_run (l := FifoLock.free) (fun _ => rfl)
    (mutexRequests m ops replies)
  dsimp only
  rw [track_requests hl] at horder ⊢
  exact ⟨rfl, hinv₁.mutexSound m, horder⟩

/-- Two threads and a mutex, which the first one hands over to the second. -/
def handOver : List ThreadOp :=
  [.create 3 0 0 .normal 0, .mutexLock 7, .yield 0 1, .mutexLock 7, .yield 0 2, .mutexUnlock 7,
    .yield 0 3, .resume, .mutexUnlock 7]

theorem mutexes_hand_over_two : MutexesHandOver (init 1 2 0 0 0) handOver :=
  mutexes_hand_over (by decide) (by decide) (by decide) (by decide +kernel)

end SchedulerState

end AvrKernel.Scheduler

import AvrKernel.Scheduler.MutexRun
import AvrKernel.Scheduler.Run

/-!
# Dead threads

A thread that has ended stays dead until its block is freed, and gets no mutex, in
every run in which no thread is killed while it is queued for a mutex, and a thread
that is killed by itself neither goes to sleep nor takes a mutex before it is switched
away.
-/

namespace AvrKernel.Scheduler

open Linked

namespace SchedulerState

variable {s s' : SchedulerState} {ring reap : List UInt32} {t m : UInt32}
  {waiting queued : UInt32 → List UInt32} {op : ThreadOp}

/-- The thread is created, not freed, and `THREAD_DEAD`. -/
def IsDead (s : SchedulerState) (t : UInt32) : Prop :=
  phases s.history t ≠ .absent ∧ (s.threads t).state = .dead

instance (s : SchedulerState) (t : UInt32) : Decidable (s.IsDead t) :=
  inferInstanceAs (Decidable (_ ∧ _))

/-- The current thread gets a mutex that is free. -/
def Takes (s : SchedulerState) : ThreadOp → Prop
  | .mutexLock m | .mutexTrylock m => m ≠ 0 ∧ (s.mutexes m).locked = false
  | _ => False

instance (s : SchedulerState) : (op : ThreadOp) → Decidable (s.Takes op)
  | .mutexLock _ | .mutexTrylock _ => inferInstanceAs (Decidable (_ ∧ _))
  | .create .. | .tick .. | .yield .. | .sleep .. | .eventWait .. | .eventSignal _ | .mutexUnlock _
  | .resume | .exit | .kill _ => .isFalse id

/-- A step that can happen, in which no thread is killed that is queued for a mutex, and a killed
thread neither goes to sleep nor takes a mutex. -/
def DeadRules (s : SchedulerState) (op : ThreadOp) : Prop :=
  s.SafeRules op ∧ s.KilledStaysUp op ∧
    ((s.threads s.currentThread).state = .dead → ¬ s.Takes op)

instance (s : SchedulerState) (op : ThreadOp) : Decidable (s.DeadRules op) :=
  inferInstanceAs (Decidable (_ ∧ _ ∧ _))

/-- The block of the thread is freed. -/
def IsFreed (s : SchedulerState) (t : UInt32) : Prop := phases s.history t = .absent

/-- What a step from `s` to `s'` does to the dead. -/
structure DeadStep (s s' : SchedulerState) : Prop where
  stays : ∀ t, s.IsDead t → s'.IsDead t ∨ s'.IsFreed t
  owns : ∀ m t, s'.holder m = some t → s.holder m = some t ∨ s.Alive t

/-! ## One step -/

theorem Inv.isDead_iff (h : s.Inv ring reap waiting queued) :
    s.IsDead t ↔ (t ∈ ring ∧ ¬ s.Alive t) ∨ t ∈ reap := by
  constructor
  · rintro ⟨hphase, hdead⟩
    cases hlife : phases s.history t with
    | absent => exact absurd hlife hphase
    | queued => exact .inl ⟨(h.lives.queued t).mp hlife, not_not.mpr hdead⟩
    | dropped => exact .inr ((h.lives.dropped t).mp hlife)
  · rintro (⟨hin, hdead⟩ | hreap)
    · refine ⟨?_, not_not.mp hdead⟩
      rw [(h.lives.queued t).mpr hin]
      exact nofun
    · refine ⟨?_, not_not.mp (h.queues.reapDead t hreap)⟩
      rw [(h.lives.dropped t).mpr hreap]
      exact nofun

/-- Who asks for a mutex runs, and who waits for one is blocked. -/
theorem Inv.alive_of_granted (h : s.Inv ring reap waiting queued) (hok : s.DeadRules op)
    (hgranted : (s.lockAfter queued op m).holder = some t) :
    s.holder m = some t ∨ s.Alive t := by
  have htakes (hm : m ≠ 0) (hfree : s.holder m = none)
      (hop : op = .mutexLock m ∨ op = .mutexTrylock m) : s.Alive s.currentThread := by
    have hlocked : (s.mutexes m).locked = false := by
      by_contra hlocked
      exact holder_ne_none (Bool.eq_true_of_not_eq_false hlocked) hfree
    intro hdead
    rcases hop with rfl | rfl
    · exact hok.2.2 hdead ⟨hm, hlocked⟩
    · exact hok.2.2 hdead ⟨hm, hlocked⟩
  unfold lockAfter at hgranted
  cases hr : requestOn m s.currentThread op with
  | none =>
      rw [hr] at hgranted
      exact .inl hgranted
  | some r =>
      rw [hr] at hgranted
      have hm : m ≠ 0 := by
        rintro rfl
        rcases requestOn_eq_some hr with ⟨rfl, -⟩ | ⟨rfl, -⟩ | ⟨rfl, -⟩ <;> cases hr
      rcases FifoLock.holder_of_step hgranted with hheld | hwaits | ⟨hfree, hasks⟩
      · exact .inl hheld
      · have hblocked := (h.locks.node m t hwaits).2.2.1
        exact .inr fun hdead => absurd (hblocked.symm.trans hdead) nofun
      · rcases requestOn_eq_some hr with ⟨hop, rfl⟩ | ⟨hop, rfl⟩ | ⟨-, rfl⟩
        · obtain rfl := FifoLock.Request.acquire.inj (hasks.resolve_right nofun)
          exact .inr (htakes hm hfree (.inl hop))
        · obtain rfl := FifoLock.Request.attempt.inj (hasks.resolve_left nofun)
          exact .inr (htakes hm hfree (.inr hop))
        · exact absurd hasks (by simp)

theorem Inv.deadStep (h : s.Inv ring reap waiting queued) (hok : s.DeadRules op) :
    ∃ reply s', s.step op = some (reply, s') ∧ s.DeadStep s' ∧
      ∃ ring reap waiting queued, s'.Inv ring reap waiting queued := by
  obtain ⟨value, s', ring', waiting', hrun, hring, hstep⟩ := h.step hok.1.1 hok.1.2
  obtain ⟨reap', hinv⟩ := hstep.inv
  refine ⟨_, s', hrun, ⟨fun t hdead => ?_, fun m t hholds => ?_⟩, ring', reap', waiting', _, hinv⟩
  · cases hlife : phases s'.history t with
    | absent => exact .inr hlife
    | queued =>
        left
        rw [hinv.isDead_iff]
        have hin := (hinv.lives.queued t).mp hlife
        rcases h.isDead_iff.mp hdead with ⟨hbefore, hstate⟩ | hreap
        · exact .inl ⟨hin, hstep.life.dead hok.2.1 t hbefore hstate⟩
        · -- a thread that is unlinked does not come back into the ring
          rcases hring t hin with hbefore | hfree
          · exact absurd hreap (h.queues.apart t hbefore)
          · rw [h.lives.allocated t (.inr (.inl hreap))] at hfree
            cases hfree
    | dropped => exact .inl (hinv.isDead_iff.mpr (.inr ((hinv.lives.dropped t).mp hlife)))
  · rw [hstep.holder] at hholds
    exact h.alive_of_granted hok hholds

/-! ## Runs -/

/-- A dead thread of `s` is still dead after a run to `s'`, and is no new owner, or it
was freed on the way. -/
def StaysDead (s : SchedulerState) (ops : List ThreadOp) (s' : SchedulerState)
    (t : UInt32) : Prop :=
  (s'.IsDead t ∧ ∀ m, s'.holder m = some t → s.holder m = some t) ∨
    ∃ first rest replies s₁, ops = first ++ rest ∧
      Trace.run SchedulerState.step s first = some (replies, s₁) ∧ s₁.IsFreed t

theorem Inv.run_staysDead {ops : List ThreadOp} (h : s.Inv ring reap waiting queued)
    (hok : Trace.Permitted SchedulerState.step DeadRules s ops) :
    ∃ replies s', Trace.run SchedulerState.step s ops = some (replies, s') ∧
      (∀ t, s.IsDead t → StaysDead s ops s' t) ∧
      ∃ ring reap waiting queued, s'.Inv ring reap waiting queued := by
  induction ops generalizing s ring reap waiting queued with
  | nil => exact ⟨[], s, rfl, fun t hdead => .inl ⟨hdead, fun _ hholds => hholds⟩, _, _, _, _, h⟩
  | cons op rest ih =>
      obtain ⟨reply, s₁, hstep, hdeads, _, _, _, _, hinv⟩ := h.deadStep hok.1
      obtain ⟨replies, s', hrun, hstays, hinv'⟩ := ih hinv (hok.2 reply s₁ hstep)
      refine ⟨reply :: replies, s', Trace.run_cons.mpr ⟨_, _, _, hstep, hrun, rfl⟩,
        fun t hdead => ?_,
        hinv'⟩
      rcases hdeads.stays t hdead with hstill | hfreed
      · rcases hstays t hstill with ⟨hlast, howns⟩ | ⟨first, last, replies₂, s₂,
          rfl, hfirst, hfreed⟩
        · left
          refine ⟨hlast, fun m hholds => ?_⟩
          have hbefore := hdeads.owns m t (howns m hholds)
          exact hbefore.resolve_right (not_not.mpr hdead.2)
        · right
          exact ⟨op :: first, last, reply :: replies₂, s₂, rfl,
            Trace.run_cons.mpr ⟨_, _, _, hstep, hfirst, rfl⟩, hfreed⟩
      · right
        exact ⟨[op], rest, [reply], s₁, rfl, Trace.run_cons.mpr ⟨_, _, _, hstep, rfl, rfl⟩, hfreed⟩

/-- Whatever is dead somewhere in a run stays dead from there on. -/
def DeadForGood (s : SchedulerState) (ops later : List ThreadOp) : Prop :=
  ∃ replies s₁ replies' s₂, Trace.run SchedulerState.step s ops = some (replies, s₁) ∧
    Trace.run SchedulerState.step s₁ later = some (replies', s₂) ∧
    ∀ t, s₁.IsDead t → StaysDead s₁ later s₂ t

/-- From the first state on, in every run in which no thread is killed that is queued for a
mutex, and killed threads neither go to sleep nor take a mutex. -/
theorem run_dead_for_good {mainThread idle idleStack idleEsp : UInt32} {now : UInt64}
    {ops later : List ThreadOp} (hmain : mainThread ≠ 0) (hidle : idle ≠ 0)
    (hne : mainThread ≠ idle)
    (hok : Trace.Permitted SchedulerState.step DeadRules
      (init mainThread idle idleStack idleEsp now) (ops ++ later)) :
    DeadForGood (init mainThread idle idleStack idleEsp now) ops later := by
  obtain ⟨hfirst, hlater⟩ := hok.append
  obtain ⟨replies, s₁, hrun, -, _, _, _, _, hinv⟩ :=
    (init_inv hmain hidle hne).run_staysDead hfirst
  obtain ⟨replies', s₂, hrun', hstays, -⟩ := hinv.run_staysDead (hlater replies s₁ hrun)
  exact ⟨replies, s₁, replies', s₂, hrun, hrun', hstays⟩

/-- A thread that waits for an event is killed, and so is the one that kills it; that one goes on,
signals the event and is switched away. -/
def killedWaiter : List ThreadOp × List ThreadOp :=
  ([.create 3 4096 0 .normal 0, .create 4 8192 0 .normal 0, .yield 0 1,
    .eventWait 9 0 1, .yield 0 2,
      .kill 3, .kill 4],
    [.eventSignal 9, .mutexUnlock 7, .yield 0 3, .tick 0 4, .tick 0 5])

theorem run_dead_for_good_killedWaiter :
    DeadForGood (init 1 2 0 0 0) killedWaiter.1 killedWaiter.2 :=
  run_dead_for_good (by decide) (by decide) (by decide) (by decide +kernel)

/-- A thread that is killed while it is queued gets the mutex all the same. -/
theorem not_dead_for_good : ¬ ∀ ops later,
    Trace.Permitted SchedulerState.step Enabled (init 1 2 0 0 0) (ops ++ later) →
      DeadForGood (init 1 2 0 0 0) ops later := by
  intro hall
  obtain ⟨replies, s₁, replies', s₂, hrun, hrun', hstays⟩ :=
    hall killed [.mutexUnlock 7] (by decide +kernel)
  have hvalues : (Trace.run SchedulerState.step (init 1 2 0 0 0) killed).map (fun x =>
      decide (x.2.IsDead 3 ∧
        ((Trace.run SchedulerState.step x.2 [.mutexUnlock 7]).map fun y =>
          ((y.2.threads 3).state, phases y.2.history 3, y.2.holder 7)) =
            some (.ready, .queued, some 3))) = some true := by decide +kernel
  rw [hrun, Option.map_some, Option.some.injEq, decide_eq_true_iff] at hvalues
  obtain ⟨hdead, hafter⟩ := hvalues
  rw [hrun', Option.map_some, Option.some.injEq, Prod.mk.injEq, Prod.mk.injEq] at hafter
  obtain ⟨hready, hphase, -⟩ := hafter
  rcases hstays 3 hdead with ⟨hstill, -⟩ | ⟨first, rest, replies₁, s, heq, hfirst, hfreed⟩
  · exact absurd (hready.symm.trans hstill.2) nofun
  · rcases List.cons_eq_append_iff.mp heq with ⟨rfl, -⟩ | ⟨first', rfl, hnil⟩
    · cases hfirst
      exact hdead.1 hfreed
    · obtain ⟨rfl, -⟩ := List.append_eq_nil_iff.mp hnil.symm
      rw [hrun'] at hfirst
      cases hfirst
      rw [IsFreed, hphase] at hfreed
      cases hfreed

end SchedulerState

end AvrKernel.Scheduler

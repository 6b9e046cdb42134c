import AvrKernel.Scheduler.Step

/-!
# Runs of the ring

The ring of threads, the running thread and the lives of the threads, in every
run in which no thread is killed while it is queued for a mutex, a killed thread
does not go to sleep before it is switched away, and some thread is left alive.
-/

namespace AvrKernel.Scheduler

open Linked

namespace SchedulerState

variable {s s' : SchedulerState} {ring reap : List UInt32} {t : UInt32}
  {waiting queued : UInt32 → List UInt32} {op : ThreadOp}

/-- A thread that is created and not unlinked. -/
def InRing (s : SchedulerState) (t : UInt32) : Prop := phases s.history t = .queued

/-- A thread that is unlinked and not freed. -/
def IsDropped (s : SchedulerState) (t : UInt32) : Prop := phases s.history t = .dropped

/-- An operation that ends the life of a thread leaves another one alive. -/
def LeavesThread (s : SchedulerState) (op : ThreadOp) : Prop :=
  ∀ t, ThreadOp.ends s.currentThread op = some t → ∃ u, u ≠ t ∧ s.InRing u ∧ s.Alive u

/-- The threads of the ring are among those that the history knows. -/
theorem exists_inRing_iff {p : UInt32 → Prop} :
    (∃ u, p u ∧ s.InRing u ∧ s.Alive u) ↔
      ∃ u ∈ s.history.map LifeEvent.thread, p u ∧ phases s.history u = .queued ∧ s.Alive u := by
  constructor
  · rintro ⟨u, hu, hin, hlive⟩
    refine ⟨u, mem_of_phases ?_, hu, hin, hlive⟩
    rw [hin]
    exact nofun
  · rintro ⟨u, -, hu, hin, hlive⟩
    exact ⟨u, hu, hin, hlive⟩

instance (s : SchedulerState) (op : ThreadOp) : Decidable (s.LeavesThread op) :=
  match h : ThreadOp.ends s.currentThread op with
  | none => .isTrue fun t ht => by rw [h] at ht; cases ht
  | some c =>
      decidable_of_iff
        (∃ u ∈ s.history.map LifeEvent.thread, u ≠ c ∧ phases s.history u = .queued ∧ s.Alive u)
        ⟨fun hleft t ht => by
          rw [h] at ht
          cases ht
          exact exists_inRing_iff.mpr hleft, fun hleft => exists_inRing_iff.mp (hleft c h)⟩

/-- A step that can happen, in which no thread is killed that is queued for a mutex. -/
def SafeRules (s : SchedulerState) (op : ThreadOp) : Prop := s.Enabled op ∧ s.KillsSafely op

instance (s : SchedulerState) (op : ThreadOp) : Decidable (s.SafeRules op) :=
  inferInstanceAs (Decidable (_ ∧ _))

/-- What is more, a killed thread does not go to sleep, and some thread is left alive. -/
def RunRules (s : SchedulerState) (op : ThreadOp) : Prop :=
  s.SafeRules op ∧ s.KilledStaysUp op ∧ s.LeavesThread op

instance (s : SchedulerState) (op : ThreadOp) : Decidable (s.RunRules op) :=
  inferInstanceAs (Decidable (_ ∧ _ ∧ _))

structure RunQueue (s : SchedulerState) : Prop where
  /-- The ring holds every thread that is created and not unlinked, once. -/
  queue : ∃ ring, Ring 0 s.next s.threadQueue ring ∧ ∀ t, t ∈ ring ↔ s.InRing t
  /-- Every thread is created, unlinked and freed in this order. -/
  lawful : Lawful s.history
  running : ∀ t, s.InRing t ∨ t = s.idleThread → (s.threads t).state = .running →
    t = s.currentThread
  current : s.currentThread = s.idleThread ∨ s.InRing s.currentThread
  dropped : ∀ t, s.IsDropped t → (s.threads t).state = .dead

/-- An entry of the handler. -/
structure HandlerEntry (s s' : SchedulerState) : Prop where
  /-- The idle thread runs if no thread wants the CPU, else one of those with the
  highest effective priority. -/
  best : (s'.currentThread = s'.idleThread ∧ ∀ t, s'.InRing t → ¬ s'.Runnable t) ∨
    (s'.InRing s'.currentThread ∧ (s'.threads s'.currentThread).state = .running ∧
      ∀ t, s'.InRing t → s'.Runnable t → s'.effective t ≤ s'.effective s'.currentThread)
  awake : (s.threads s'.currentThread).state ≠ .blocked ∧
    (s.threads s'.currentThread).state ≠ .dead
  kept : ∀ t, s.InRing t → s.Alive t → s'.InRing t
  unlinked : ∀ t, s.InRing t → ¬ s.Alive t → s'.IsDropped t ∧ t ≠ s'.currentThread
  freed : ∀ t, s.IsDropped t →
    phases s'.history t = .absent ∧ t ≠ s.currentThread ∧ t ≠ s'.currentThread

def ThreadOp.EntersHandler : ThreadOp → Prop
  | .tick .. => True
  | .yield .. => True
  | _ => False

/-- A step from `s` to `s'`. -/
structure QueueStep (s : SchedulerState) (op : ThreadOp) (s' : SchedulerState) : Prop where
  dead : ∀ t, s.InRing t → ¬ s.Alive t → ¬ s'.Alive t
  handler : ThreadOp.EntersHandler op → HandlerEntry s s'

/-- All that holds of the ring in a run from `s` and in the step after it. -/
def KeepsRunQueue (rules : SchedulerState → ThreadOp → Prop) (s : SchedulerState)
    (ops : List ThreadOp) : Prop :=
  ∃ replies s', Trace.run SchedulerState.step s ops = some (replies, s') ∧ s'.RunQueue ∧
    ∀ op, rules s' op → ∃ reply s'', s'.step op = some (reply, s'') ∧ s'.QueueStep op s''

theorem Inv.runQueue (h : s.Inv ring reap waiting queued) : s.RunQueue where
  queue := ⟨ring, h.queues.queue, fun t => (h.lives.queued t).symm⟩
  lawful := h.lives.lawful
  running := by
    rintro t (hin | rfl) hruns
    · exact h.queues.oneRuns.running t ((h.lives.queued t).mp hin) hruns
    · have hidle := h.queues.oneRuns.idle
      rw [hruns] at hidle
      split at hidle
      · rename_i heq
        exact heq.symm
      · cases hidle
  current := h.queues.current.imp_right (h.lives.queued _).mpr
  dropped t ht := not_not.mp (h.queues.reapDead t ((h.lives.dropped t).mp ht))

/-- The thread that has the CPU was not blocked, and lives. -/
theorem Inv.current_awake (h : s'.Inv ring reap waiting queued)
    (hbest : s'.RunsBest ring) : (s'.threads s'.currentThread).state = .running := by
  rcases hbest with ⟨hidle, -⟩ | ⟨-, hruns, -⟩
  · have hstate := h.queues.oneRuns.idle
    rw [if_pos hidle] at hstate
    rw [hidle]
    exact hstate
  · exact hruns

theorem Inv.handlerEntry {s₁ : SchedulerState} (h : s.Inv ring reap waiting queued)
    (hring : ring ≠ []) (hcore : s₁.core = s.core) {esp esp' : UInt32} {now : UInt64}
    (hrun : s₁.threadHandlerC esp now = some (esp', s')) : HandlerEntry s s' := by
  obtain ⟨_, s₂, reap', hhandler, hinv, hprogress, hothers, hcases⟩ :=
    (h.congr hcore).handler esp now
  obtain ⟨-, rfl⟩ := Prod.mk.inj (Option.some.inj (hrun.symm.trans hhandler))
  have hstate := core_state hcore
  have halive : ∀ t, s₁.Alive t ↔ s.Alive t := fun t => by rw [Alive, hstate]
  obtain ⟨-, rfl, hhandled⟩ := hcases.resolve_left fun hnone => hring hnone.1
  have hkept : ∀ t, s'.InRing t ↔ t ∈ ring ∧ s.Alive t := by
    intro t
    rw [InRing, hinv.lives.queued, mem_alive, halive]
  have hidle : s'.idleThread = s.idleThread := by
    have hafter := congrArg SchedulerState.idleThread hothers
    have hbefore := congrArg SchedulerState.idleThread hcore
    exact hafter.trans hbefore
  have hbest := hhandled.best
  have hcurrent : s'.currentThread = s.idleThread ∨ s'.currentThread ∈ ring := by
    rcases hinv.queues.current with heq | hin
    · exact .inl (heq.trans hidle)
    · exact .inr ((s₁.mem_alive ring _).mp hin).1
  have hruns := hinv.current_awake hbest
  refine ⟨?_, ⟨?_, ?_⟩, ?_, ?_, ?_⟩
  · rcases hbest with ⟨heq, hnone⟩ | ⟨hin, hruns, hmax⟩
    · exact .inl ⟨heq, fun t ht => hnone t ((hinv.lives.queued t).mp ht)⟩
    · exact .inr ⟨(hinv.lives.queued _).mpr hin, hruns,
        fun t ht => hmax t ((hinv.lives.queued t).mp ht)⟩
  · rw [← hstate, ← (hprogress _).blocked.ne, hruns]
    rintro ⟨⟩
  · rw [← hstate, ← (hprogress _).dead.ne, hruns]
    rintro ⟨⟩
  · intro t hin hlive
    exact (hkept t).mpr ⟨(h.lives.queued t).mp hin, hlive⟩
  · intro t hin hdead
    have hmem := (h.lives.queued t).mp hin
    refine ⟨(hinv.lives.dropped t).mpr ((s₁.mem_dead ring t).mpr ⟨hmem, ?_⟩), ?_⟩
    · rw [halive]
      exact hdead
    · rintro rfl
      exact hdead ((halive _).mp ((hprogress _).dead.not.mp fun hstate' =>
        absurd (hruns.symm.trans hstate') (by rintro ⟨⟩)))
  · intro t hdropped
    have hreap := (h.lives.dropped t).mp hdropped
    have hout : t ∉ ring := fun hin => h.queues.apart t hin hreap
    have hnotIdle : t ≠ s.idleThread := by
      rintro rfl
      exact h.queues.idle.2.2 hreap
    refine ⟨?_, ?_, ?_⟩
    · cases hphase : phases s'.history t with
      | absent => rfl
      | queued => exact absurd ((hkept t).mp hphase).1 hout
      | dropped => exact absurd ((s₁.mem_dead ring t).mp ((hinv.lives.dropped t).mp hphase)).1 hout
    · rintro rfl
      rcases h.queues.current with heq | hin
      · exact hnotIdle heq
      · exact hout hin
    · rintro rfl
      rcases hcurrent with heq | hin
      · exact hnotIdle heq
      · exact hout hin

/-- The invariant, and some thread of the ring lives. -/
structure Populated (s : SchedulerState) : Prop where
  inv : ∃ ring reap waiting queued, s.Inv ring reap waiting queued
  lives : ∃ t, s.InRing t ∧ s.Alive t

/-- A thread lives on that a step does not end. -/
theorem Inv.lives_step (h : s.Inv ring reap waiting queued) {ring' reap' : List UInt32}
    {waiting' queued' : UInt32 → List UInt32} (hinv : s'.Inv ring' reap' waiting' queued')
    (hlife : LivesOn s ring op s' ring') (hlives : ∃ t, s.InRing t ∧ s.Alive t)
    (hleft : s.LeavesThread op) : ∃ t, s'.InRing t ∧ s'.Alive t := by
  have hstays {t : UInt32} (hin : s.InRing t) (hlive : s.Alive t)
      (hends : ThreadOp.ends s.currentThread op ≠ some t) : s'.InRing t ∧ s'.Alive t := by
    obtain ⟨hmem, hlive'⟩ := hlife.alive t ((h.lives.queued t).mp hin) hlive hends
    exact ⟨(hinv.lives.queued t).mpr hmem, hlive'⟩
  cases hends : ThreadOp.ends s.currentThread op with
  | none =>
      obtain ⟨t, hin, hlive⟩ := hlives
      exact ⟨t, hstays hin hlive (by rw [hends]; exact nofun)⟩
  | some c =>
      obtain ⟨t, hne, hin, hlive⟩ := hleft c hends
      exact ⟨t, hstays hin hlive (by rw [hends]; exact fun heq => hne (Option.some.inj heq).symm)⟩

/-- A step under the rules comes to its end and does to the ring what it should. -/
theorem Populated.queueStep (h : s.Populated) (hok : s.RunRules op) :
    ∃ reply s', s.step op = some (reply, s') ∧ s.QueueStep op s' ∧ s'.Populated := by
  obtain ⟨⟨ring, reap, waiting, queued, h⟩, hlives⟩ := h
  obtain ⟨value, s', ring', waiting', hrun, -, hstep⟩ := h.step hok.1.1 hok.1.2
  obtain ⟨reap', hinv⟩ := hstep.inv
  have hring : ring ≠ [] := by
    obtain ⟨t, hin, -⟩ := hlives
    exact List.ne_nil_of_mem ((h.lives.queued t).mp hin)
  refine ⟨_, s', hrun, ⟨fun t hin => hstep.life.dead hok.2.1 t ((h.lives.queued t).mp hin), ?_⟩,
    ⟨ring', reap', waiting', _, hinv⟩, h.lives_step hinv hstep.life hlives hok.2.2⟩
  obtain ⟨⟨value, s₁⟩, hperform, hreturn⟩ := Option.bind_eq_some_iff.mp hrun
  obtain ⟨-, rfl⟩ := Prod.mk.inj (Option.some.inj hreturn)
  intro henters
  cases op with
  | tick esp now =>
      obtain ⟨⟨esp', s₂⟩, hhandler, hlast⟩ := Option.bind_eq_some_iff.mp hperform
      obtain ⟨-, rfl⟩ := Prod.mk.inj (Option.some.inj hlast)
      exact h.handlerEntry hring rfl hhandler
  | yield esp now =>
      obtain ⟨⟨esp', s₂⟩, hhandler, hlast⟩ := Option.bind_eq_some_iff.mp hperform
      obtain ⟨-, rfl⟩ := Prod.mk.inj (Option.some.inj hlast)
      exact h.handlerEntry hring s.yielding_core hhandler
  | _ => exact henters.elim

/-! ## Runs -/

theorem init_populated {mainThread idle idleStack idleEsp : UInt32} {now : UInt64}
    (hmain : mainThread ≠ 0) (hidle : idle ≠ 0) (hne : mainThread ≠ idle) :
    (init mainThread idle idleStack idleEsp now).Populated := by
  have hinv := @init_inv mainThread idle idleStack idleEsp now hmain hidle hne
  refine ⟨⟨_, _, _, _, hinv⟩, mainThread, (hinv.lives.queued _).mpr List.mem_cons_self, ?_⟩
  have hself : (init mainThread idle idleStack idleEsp now).threads mainThread =
      { ThreadBlock.new .running 0 0 .normal now with next := mainThread } :=
    (Function.update_of_ne hne _ _).trans (Function.update_self ..)
  rw [Alive, hself]
  rintro ⟨⟩

/-- From the first state on, in every run in which no thread is killed that is queued for a
mutex, killed threads do not go to sleep, and some thread is left alive. -/
theorem run_queue_kept {mainThread idle idleStack idleEsp : UInt32} {now : UInt64}
    {ops : List ThreadOp} (hmain : mainThread ≠ 0) (hidle : idle ≠ 0) (hne : mainThread ≠ idle)
    (hok : Trace.Permitted SchedulerState.step RunRules
      (init mainThread idle idleStack idleEsp now) ops) :
    KeepsRunQueue RunRules (init mainThread idle idleStack idleEsp now) ops := by
  have hreturns : ∃ replies s',
      Trace.run SchedulerState.step (init mainThread idle idleStack idleEsp now) ops =
        some (replies, s') ∧ s'.Populated := by
    refine Trace.run_returns ?_ (init_populated hmain hidle hne) hok
    intro s op hpopulated hrules
    obtain ⟨reply, s', hstep, -, hafter⟩ := hpopulated.queueStep hrules
    exact ⟨reply, s', hstep, hafter⟩
  obtain ⟨replies, s', hrun, hpopulated⟩ := hreturns
  obtain ⟨ring, reap, waiting, queued, hinv⟩ := hpopulated.inv
  refine ⟨replies, s', hrun, hinv.runQueue, fun op hrules => ?_⟩
  obtain ⟨reply, s'', hstep, hqueue, -⟩ := hpopulated.queueStep hrules
  exact ⟨reply, s'', hstep, hqueue⟩

/-- Three threads, one of which leaves, and one is killed by itself and goes on until it is
switched away; both are dropped and freed. -/
def leaving : List ThreadOp :=
  [.create 3 4096 0 .normal 0, .create 4 8192 0 .normal 0, .yield 0 1, .exit, .yield 0 2,
    .yield 0 3, .kill 4, .eventSignal 9, .yield 0 4, .tick 0 5, .tick 0 6]

theorem run_queue_kept_leaving : KeepsRunQueue RunRules (init 1 2 0 0 0) leaving :=
  run_queue_kept (by decide) (by decide) (by decide) (by decide +kernel)

/-- The second thread is killed while it is queued for the mutex that the first
one has. -/
def killed : List ThreadOp :=
  [.create 3 4096 0 .normal 0, .mutexLock 7, .yield 0 1, .mutexLock 7, .yield 0 2, .kill 3]

/-- It comes back to life when the mutex is handed over to it: threads that are
killed are taken out of the lists of events, but not out of those of mutexes. -/
theorem run_queue_not_kept : ¬ ∀ ops,
    Trace.Permitted SchedulerState.step Enabled (init 1 2 0 0 0) ops →
      KeepsRunQueue Enabled (init 1 2 0 0 0) ops := by
  intro hall
  obtain ⟨replies, s', hrun, -, hnext⟩ := hall killed (by decide +kernel)
  have hvalues : (Trace.run SchedulerState.step (init 1 2 0 0 0) killed).map (fun x => decide
      (x.2.Enabled (.mutexUnlock 7) ∧ phases x.2.history 3 = .queued ∧
        (x.2.threads 3).state = .dead ∧
        ((x.2.step (.mutexUnlock 7)).map fun y => (y.2.threads 3).state) = some .ready)) =
      some true := by decide +kernel
  rw [hrun, Option.map_some, Option.some.injEq, decide_eq_true_iff] at hvalues
  obtain ⟨henabled, hin, hdead, hready⟩ := hvalues
  obtain ⟨reply, s'', hstep, hqueue⟩ := hnext _ henabled
  rw [hstep, Option.map_some, Option.some.injEq] at hready
  have hstill := not_not.mp (hqueue.dead 3 hin (not_not.mpr hdead))
  rw [hready] at hstill
  cases hstill

end SchedulerState

end AvrKernel.Scheduler

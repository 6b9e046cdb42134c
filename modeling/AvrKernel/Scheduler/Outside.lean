import AvrKernel.Scheduler.DynamicRun

/-!
# Between the entries of the handler

What the threads do between two entries of the handler, and the clock by which they
do it: `current_ms` only changes in the timer interrupt, right before the handler.
-/

namespace AvrKernel.Scheduler

open Linked

namespace SchedulerState

variable {s s' : SchedulerState} {ring reap : List UInt32} {e m t : UInt32}
  {waiting queued : UInt32 → List UInt32} {op : ThreadOp} {value : Option Bool}

/-- At most a millisecond passes between two entries of the handler, and the clock
stands still but for its interrupt. Times to wake up are in the range of the clock. -/
def OnTime (s : SchedulerState) : ThreadOp → Prop
  | .create _ _ _ _ now => now = s.schedLastMs
  | .tick _ now => s.schedLastMs ≤ now ∧ now.toNat ≤ s.schedLastMs.toNat + 1
  | .yield _ now => now = s.schedLastMs
  | .sleep ms now => now = s.schedLastMs ∧ now.toNat + ms.toNat < 2 ^ 64
  | .eventWait _ timeoutMs now => now = s.schedLastMs ∧ now.toNat + timeoutMs.toNat < 2 ^ 64
  | _ => True

instance (s : SchedulerState) : (op : ThreadOp) → Decidable (s.OnTime op)
  | .create .. | .yield .. => inferInstanceAs (Decidable (_ = _))
  | .tick .. | .sleep .. | .eventWait .. => inferInstanceAs (Decidable (_ ∧ _))
  | .eventSignal _ | .mutexLock _ | .mutexTrylock _ | .mutexUnlock _ | .resume | .exit | .kill _ =>
      .isTrue trivial

/-- The first pass would not find the current thread ready, and it does not sleep
outside of a call. -/
structure AtWork (s : SchedulerState) : Prop where
  found : (s.threads s.currentThread).found s.schedLastMs ≠ .ready
  awake : s.calls s.currentThread = .none → (s.threads s.currentThread).state ≠ .sleeping

theorem found_of_awake {b : ThreadBlock} (h : b.state ≠ .sleeping) (now : UInt64) :
    b.found now = b.state := by
  unfold ThreadBlock.found ThreadBlock.wake
  rw [if_neg fun hdue => h hdue.1]

theorem AtWork.not_ready (h : s.AtWork) : (s.threads s.currentThread).state ≠ .ready := by
  intro hready
  have hawake : (s.threads s.currentThread).state ≠ .sleeping := by
    rw [hready]
    exact nofun
  exact h.found ((found_of_awake hawake _).trans hready)

/-- A thread that runs is at work. -/
theorem AtWork.of_running (h : (s.threads s.currentThread).state = .running) : s.AtWork := by
  constructor
  · have hawake : (s.threads s.currentThread).state ≠ .sleeping := by
      rw [h]
      exact nofun
    rw [found_of_awake hawake, h]
    exact nofun
  · intro _
    rw [h]
    exact nofun

/-- From `s` to `s'` no thread dies, and the current thread stays at work. -/
structure Outside (s s' : SchedulerState) : Prop where
  alive : ∀ t, s.Alive t → s'.Alive t
  atWork : s.AtWork → s'.AtWork

/-- The threads stay in their states. -/
structure SameStates (s s' : SchedulerState) : Prop where
  states : ∀ t, (s'.threads t).state = (s.threads t).state ∧
    (s'.threads t).wakeTick = (s.threads t).wakeTick
  currentThread : s'.currentThread = s.currentThread
  clock : s'.schedLastMs = s.schedLastMs

namespace SameStates

theorem refl (s : SchedulerState) : SameStates s s := ⟨fun _ => ⟨rfl, rfl⟩, rfl, rfl⟩

theorem setThread (h : SameStates s s') (t : UInt32) {change : ThreadBlock → ThreadBlock}
    (hchange : ∀ b, (change b).state = b.state ∧ (change b).wakeTick = b.wakeTick) :
    SameStates s (s'.setThread t change) := by
  refine ⟨fun u => ?_, h.currentThread, h.clock⟩
  rw [threads_setThread]
  by_cases heq : u = t
  · subst heq
    rw [Function.update_self, (hchange _).1, (hchange _).2]
    exact h.states u
  · rw [Function.update_of_ne heq]
    exact h.states u

theorem outside (h : SameStates s s')
    (hcalls : s'.calls s.currentThread = .none → s.calls s.currentThread = .none) :
    Outside s s' := by
  constructor
  · intro t hlive
    rw [Alive, (h.states t).1]
    exact hlive
  · intro hwork
    obtain ⟨hstate, hwake⟩ := h.states s.currentThread
    constructor
    · rw [h.currentThread, h.clock, ThreadBlock.found_congr hstate hwake]
      exact hwork.found
    · rw [h.currentThread, hstate]
      exact fun hcall => hwork.awake (hcalls hcall)

theorem unlinkWaiter (hrun : s.unlinkWaiter e t = some s') : SameStates s s' := by
  unfold SchedulerState.unlinkWaiter at hrun
  obtain ⟨found, -, hrun⟩ := Option.bind_eq_some_iff.mp hrun
  match found with
  | none =>
      cases hrun
      exact .refl s
  | some .first =>
      cases hrun
      exact ⟨fun _ => ⟨rfl, rfl⟩, rfl, rfl⟩
  | some (.after p) =>
      cases hrun
      exact (SameStates.refl s).setThread p fun _ => ⟨rfl, rfl⟩

theorem eventWaitRest {signaled : Bool} (hrun : s.eventWaitRest e = some (signaled, s')) :
    SameStates s s' := by
  unfold SchedulerState.eventWaitRest at hrun
  dsimp only at hrun
  split at hrun
  · obtain ⟨s₁, hremove, hrun⟩ := Option.bind_eq_some_iff.mp hrun
    obtain ⟨-, rfl⟩ := Prod.mk.inj (Option.some.inj hrun)
    obtain ⟨s₂, hunlink, hremove⟩ := Option.bind_eq_some_iff.mp hremove
    cases hremove
    exact ((unlinkWaiter hunlink).setThread _ (by exact fun _ => ⟨rfl, rfl⟩)).setThread _
        fun _ => ⟨rfl, rfl⟩
  · obtain ⟨-, rfl⟩ := Prod.mk.inj (Option.some.inj hrun)
    exact (SameStates.refl s).setThread _ fun _ => ⟨rfl, rfl⟩

end SameStates

/-! ## Giving up the CPU -/

/-- A time to wake up that is in the range of the clock is not reached yet. -/
theorem not_due {now : UInt64} {ms : UInt32} (hms : ms ≠ 0)
    (hrange : now.toNat + ms.toNat < 2 ^ 64) :
    ¬ now ≥ now + ms.toUInt64 := by
  have hpos : 0 < ms.toNat := by
    refine Nat.pos_of_ne_zero fun hzero => hms ?_
    exact UInt32.toNat_inj.mp hzero
  rw [ge_iff_le, UInt64.le_iff_toNat_le, UInt64.toNat_add, UInt32.toNat_toUInt64,
    Nat.mod_eq_of_lt hrange]
  omega

theorem Outside.of_current (hothers : ∀ t, t ≠ s.currentThread → s'.threads t = s.threads t)
    (hcurrent : s'.currentThread = s.currentThread) (hclock : s'.schedLastMs = s.schedLastMs)
    (hlive : s'.Alive s.currentThread)
    (hfound : (s'.threads s.currentThread).found s.schedLastMs ≠ .ready)
    (hcall : s'.calls s.currentThread ≠ .none) : Outside s s' := by
  constructor
  · intro t halive
    by_cases heq : t = s.currentThread
    · exact heq ▸ hlive
    · rw [Alive, hothers t heq]
      exact halive
  · intro _
    constructor
    · rw [hcurrent, hclock]
      exact hfound
    · rw [hcurrent]
      exact fun hnone => absurd hnone hcall

theorem outside_sleep (s : SchedulerState) {ms : UInt32} {now : UInt64}
    (htime : s.OnTime (.sleep ms now)) : Outside s (s.threadSleep ms now) := by
  unfold threadSleep
  split
  · exact ⟨fun _ => id, id⟩
  next hms =>
    obtain ⟨rfl, hrange⟩ := htime
    apply Outside.of_current
    · intro t hne
      exact Function.update_of_ne hne _ _
    · rfl
    · rfl
    · simp [Alive]
    · simp [ThreadBlock.found, ThreadBlock.wake, not_due hms hrange]
    · simp [setThread]

theorem outside_eventWait (s : SchedulerState) {timeoutMs : UInt32} {now : UInt64}
    (htime : s.OnTime (.eventWait e timeoutMs now)) :
    Outside s (s.eventWait e timeoutMs now).2 := by
  have hsame : Outside s (s.setEvent e fun event => { event with signaled := false }) :=
    SameStates.outside ⟨fun _ => ⟨rfl, rfl⟩, rfl, rfl⟩ id
  unfold eventWait
  split
  · exact ⟨fun _ => id, id⟩
  split
  · exact hsame
  split
  · exact hsame
  · obtain ⟨rfl, hrange⟩ := htime
    apply Outside.of_current
    · intro t hne
      exact Function.update_of_ne hne _ _
    · rfl
    · rfl
    · by_cases hforever : timeoutMs = 0 <;> simp [Alive, setEvent, ThreadBlock.await, hforever]
    · by_cases hforever : timeoutMs = 0
      · simp [setEvent, ThreadBlock.await, ThreadBlock.found, ThreadBlock.wake, hforever]
      · simp [setEvent, ThreadBlock.await, ThreadBlock.found, ThreadBlock.wake, hforever,
          not_due hforever hrange]
    · simp [setThread, setEvent]

theorem Outside.refl (s : SchedulerState) : Outside s s := ⟨fun _ => id, id⟩

theorem Inv.outside_eventSignal (h : s.Inv ring reap waiting queued)
    (hcall : s.calls s.currentThread = .none) (hrun : s.eventSignal e = some s') :
      Outside s s' := by
  by_cases he : e = 0
  · unfold SchedulerState.eventSignal at hrun
    rw [if_pos he] at hrun
    cases hrun
    exact .refl s
  · by_cases hnone : waiting e = []
    · rw [h.waits.eventSignal_kept he hnone] at hrun
      cases hrun
      exact SameStates.outside ⟨fun _ => ⟨rfl, rfl⟩, rfl, rfl⟩ id
    · rw [h.waits.eventSignal_delivered he hnone] at hrun
      cases hrun
      have hs := s.signalled_afterDeliver e (waiting e)
      -- the thread that signals is inside of no wait
      have hother : s.currentThread ∉ waiting e := by
        intro hin
        have hwait := (h.waits.call e _ hin).1
        rw [hcall] at hwait
        cases hwait
      have hself := hs.others _ hother
      refine ⟨fun t => (hs.alive t).mpr, fun hwork => ⟨?_, fun _ => ?_⟩⟩
      · exact hself.symm ▸ hwork.found
      · exact hself.symm ▸ hwork.awake hcall

theorem Inv.outside_mutexLock (h : s.Inv ring reap waiting queued)
    (hex : s.Executing) (m : UInt32) :
    Outside s (s.mutexLock m) := by
  by_cases hm : m = 0
  · unfold SchedulerState.mutexLock
    rw [if_pos hm]
    exact .refl s
  · by_cases hfree : (s.mutexes m).locked = false
    · unfold SchedulerState.mutexLock
      rw [if_neg hm, if_pos hfree]
      exact SameStates.outside ⟨fun _ => ⟨rfl, rfl⟩, rfl, rfl⟩ id
    · have hlocked : (s.mutexes m).locked = true := Bool.not_eq_false _ ▸ hfree
      have hq := h.locks.mutexLock_queued hm hlocked ((h.runsCode hex).notQueued m)
        h.queues.current_ne_zero
      apply Outside.of_current
      · exact hq.changes.threads
      · exact hq.changes.currentThread
      · exact (Frame.mutexLock s m).clock
      · rw [Alive, hq.state]
        rintro ⟨⟩
      · have hawake : ((s.mutexLock m).threads s.currentThread).state ≠ .sleeping := by
          rw [hq.state]
          rintro ⟨⟩
        rw [found_of_awake hawake, hq.state]
        rintro ⟨⟩
      · rw [hq.call]
        rintro ⟨⟩

theorem outside_mutexTrylock (s : SchedulerState) (m : UInt32) :
    Outside s (s.mutexTrylock m).2 := by
  unfold mutexTrylock
  split
  · exact .refl s
  split
  · exact SameStates.outside ⟨fun _ => ⟨rfl, rfl⟩, rfl, rfl⟩ id
  · exact .refl s

theorem Inv.outside_mutexUnlock (h : s.Inv ring reap waiting queued) (hex : s.Executing)
    (m : UInt32) : Outside s (s.mutexUnlock m) := by
  have hframe := Frame.mutexUnlock s m
  by_cases hm : m = 0
  · unfold SchedulerState.mutexUnlock
    rw [if_pos hm]
    exact .refl s
  · by_cases hown : (s.mutexes m).owner = s.currentThread
    · cases hq : queued m with
      | nil =>
          rw [h.locks.mutexUnlock_free hm hown hq]
          exact SameStates.outside ⟨fun _ => ⟨rfl, rfl⟩, rfl, rfl⟩ id
      | cons x rest =>
          have hh := h.locks.mutexUnlock_handed hm hown hq
          have hother : s.currentThread ≠ x := by
            rintro rfl
            exact (h.runsCode hex).notQueued m (hq ▸ List.mem_cons_self)
          have hself := hh.changes.threads _ hother
          refine ⟨fun t hlive => ?_, fun hwork => ⟨?_, fun _ => ?_⟩⟩
          · by_cases heq : t = x
            · rw [heq, Alive, hh.block]
              rintro ⟨⟩
            · rw [Alive, hh.changes.threads t heq]
              exact hlive
          · rw [hframe.currentThread, hframe.clock, hself]
            exact hwork.found
          · rw [hframe.currentThread, hself]
            exact hwork.awake hex.2.2
    · unfold SchedulerState.mutexUnlock
      rw [if_neg hm, if_pos hown]
      exact .refl s

/-- A thread that goes on with a call runs. -/
theorem outside_resume (hen : s.Enabled .resume) (hrun : s.resume = some (value, s')) :
    Outside s s' := by
  have hsame : SameStates s s' := by
    unfold resume at hrun
    split at hrun
    · obtain ⟨⟨signaled, s₁⟩, hrest, hrun⟩ := Option.bind_eq_some_iff.mp hrun
      obtain ⟨-, rfl⟩ := Prod.mk.inj (Option.some.inj hrun)
      obtain ⟨hstates, hcurrent, hclock⟩ := SameStates.eventWaitRest hrest
      exact ⟨hstates, hcurrent, hclock⟩
    · obtain ⟨-, rfl⟩ := Prod.mk.inj (Option.some.inj hrun)
      exact ⟨fun _ => ⟨rfl, rfl⟩, rfl, rfl⟩
  have hruns : (s'.threads s'.currentThread).state = .running := by
    rw [hsame.currentThread, (hsame.states _).1]
    exact hen.2.2
  refine ⟨fun t hlive => ?_, fun _ => AtWork.of_running hruns⟩
  rw [Alive, (hsame.states t).1]
  exact hlive

/-- The operations that neither create nor end a thread. -/
def ThreadOp.KeepsThreads : ThreadOp → Prop
  | .create .. | .exit | .kill _ => False
  | _ => True

instance : (op : ThreadOp) → Decidable (ThreadOp.KeepsThreads op)
  | .create .. | .exit | .kill _ => .isFalse id
  | .tick .. | .yield .. | .sleep .. | .eventWait .. | .eventSignal _ | .mutexLock _
  | .mutexTrylock _ | .mutexUnlock _ | .resume => .isTrue trivial

theorem Inv.outside_handler (h : s.Inv ring reap waiting queued) (hen : s.Enabled op)
    (htime : s.OnTime op) (hop : ThreadOp.KeepsThreads op) (haccounts : ¬ ThreadOp.Accounts op)
    (hrun : s.perform op = some (value, s')) : Outside s s' := by
  cases op with
  | create => exact absurd trivial haccounts
  | tick => exact absurd trivial haccounts
  | yield => exact absurd trivial haccounts
  | exit => exact hop.elim
  | kill => exact hop.elim
  | sleep ms now =>
      cases hrun
      exact s.outside_sleep htime
  | eventWait e timeoutMs now =>
      obtain ⟨-, rfl⟩ := Prod.mk.inj (Option.some.inj hrun)
      exact s.outside_eventWait htime
  | eventSignal e =>
      obtain ⟨s₁, hsignal, hrun⟩ := Option.bind_eq_some_iff.mp hrun
      cases hrun
      exact h.outside_eventSignal hen hsignal
  | mutexLock m =>
      cases hrun
      exact h.outside_mutexLock hen m
  | mutexTrylock m =>
      obtain ⟨-, rfl⟩ := Prod.mk.inj (Option.some.inj hrun)
      exact s.outside_mutexTrylock m
  | mutexUnlock m =>
      cases hrun
      exact h.outside_mutexUnlock hen m
  | resume => exact outside_resume hen hrun

end SchedulerState

end AvrKernel.Scheduler

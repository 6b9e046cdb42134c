import AvrKernel.Scheduler.Step

/-!
# Runs of events

Whatever threads, timers and kills do and in whatever order, no signal is lost:
a wait that does not time out gets one, and one that nobody waits for is kept.
-/

namespace AvrKernel.Scheduler

open Linked

namespace SchedulerState

variable {s s' : SchedulerState} {ring reap : List UInt32} {t e : UInt32}
  {waiting queued : UInt32 → List UInt32} {op : ThreadOp}

/-- Not a call that queues for a mutex. -/
def OfEvents : ThreadOp → Prop
  | .mutexLock _ => False
  | _ => True

instance : (op : ThreadOp) → Decidable (OfEvents op)
  | .mutexLock _ => .isFalse id
  | .create .. | .tick .. | .yield .. | .sleep .. | .eventWait .. | .eventSignal _ | .kill _
  | .mutexTrylock _ | .mutexUnlock _ | .resume | .exit => .isTrue trivial

/-- A step that can happen, where nobody queues for a mutex. -/
def EventRules (s : SchedulerState) (op : ThreadOp) : Prop := s.Enabled op ∧ OfEvents op

instance (s : SchedulerState) (op : ThreadOp) : Decidable (s.EventRules op) :=
  inferInstanceAs (Decidable (_ ∧ _))

/-- What the threads have done to the events in a run, and what it returned. -/
def eventActions : List ThreadOp → List Reply →
    List (Signals.Action UInt32 UInt32 × Option Bool)
  | op :: ops, reply :: replies =>
      ((actionOn reply.thread op).map (·, reply.value)).toList ++ eventActions ops replies
  | _, _ => []

/-- The list of an event holds the threads whose `wait_event` it is. -/
def EventSound (s : SchedulerState) (e : UInt32) : Prop :=
  ∃ list, Chain 0 s.waitNext (s.events e).waiters list ∧
    ∀ t, t ∈ list ↔ (s.threads t).waitEvent = e

/-- What a step from `s` to `s'` does to an event. -/
structure EventStep (s : SchedulerState) (op : ThreadOp) (reply : Reply) (s' : SchedulerState)
    (e : UInt32) : Prop where
  /-- A signal goes to all that wait, awake or not, and is not kept. -/
  delivered : op = .eventSignal e → (∃ t, (s.threads t).waitEvent = e) →
    (s'.events e).signaled = false ∧ ∀ t, (s.threads t).waitEvent = e →
      (s'.threads t).waitSignaled = true ∧ (s'.threads t).waitEvent = 0 ∧
        (s'.threads t).state ≠ .sleeping ∧ (s'.threads t).state ≠ .blocked
  kept : op = .eventSignal e → (∀ t, (s.threads t).waitEvent ≠ e) →
    (s'.events e).signaled = true ∧ s'.threads = s.threads
  /-- A kept signal is for one wait. -/
  consumed : ∀ timeoutMs now, op = .eventWait e timeoutMs now → (s.events e).signaled = true →
    reply.value = some true ∧ (s'.events e).signaled = false
  queued : ∀ timeoutMs now, op = .eventWait e timeoutMs now → (s.events e).signaled = false →
    reply.value = none ∧ (s'.threads s.currentThread).waitEvent = e
  others : op ≠ .eventSignal e → (∀ timeoutMs now, op ≠ .eventWait e timeoutMs now) →
    (s'.events e).signaled = (s.events e).signaled

/-- All that holds of the events in a run from `s`. -/
def EventsKeepSignals (s : SchedulerState) (ops : List ThreadOp) : Prop :=
  ∃ replies s', Trace.run SchedulerState.step s ops = some (replies, s') ∧
    (∃ g, Signals.quiet.checks (eventActions ops replies) = some g) ∧
    (∀ t e before between value after, eventActions ops replies =
        before ++ (.wait t e, none) :: (between ++ (.finish t, value) :: after) →
      (∀ o ∈ between, o.1.actor ≠ some t) →
        value = some (decide (∃ o ∈ between, o.1 = .signal e))) ∧
    ∀ e, e ≠ 0 → s'.EventSound e ∧
      ∀ op reply s'', s'.EventRules op → s'.step op = some (reply, s'') →
        s'.EventStep op reply s'' e

/-! ## The invariant -/

/-- The invariant where nobody is inside of `mutex_lock`. -/
structure EventInv (s : SchedulerState) (ring reap : List UInt32)
    (waiting queued : UInt32 → List UInt32) : Prop where
  inv : s.Inv ring reap waiting queued
  calls : ∀ t m, s.calls t ≠ .lock m

theorem EventInv.step (h : s.EventInv ring reap waiting queued) (hok : s.EventRules op) :
    ∃ value s' ring' reap' waiting' queued',
      s.step op = some ({ thread := s.currentThread, value }, s') ∧
        s'.EventInv ring' reap' waiting' queued' ∧
        Stepped s ring waiting queued op value s' ring' waiting' := by
  have hkill : s.KillsSafely op := by
    unfold SchedulerState.KillsSafely
    split
    · exact fun hwaits => h.calls _ _ hwaits.2.choose_spec
    · trivial
  obtain ⟨value, s', ring', waiting', hrun, -, hstep⟩ := h.inv.step hok.1 hkill
  obtain ⟨reap', hinv⟩ := hstep.inv
  refine ⟨value, s', ring', reap', waiting', _, hrun, ⟨hinv, fun t m hlock => ?_⟩, hstep⟩
  rcases hstep.calls t m hlock with hbefore | rfl
  · exact h.calls t m hbefore
  · exact hok.2

theorem Waits.mem_iff (h : s.Waits ring waiting) (he : e ≠ 0) :
    t ∈ waiting e ↔ (s.threads t).waitEvent = e := by
  rw [h.mem]
  refine ⟨fun hwait => hwait.2.2, fun hwait => ⟨?_, he, hwait⟩⟩
  by_contra hout
  exact he (hwait.symm.trans (h.outside t hout))

theorem Waits.eventSound (h : s.Waits ring waiting) (he : e ≠ 0) : s.EventSound e :=
  ⟨waiting e, h.chain e, fun _ => h.mem_iff he⟩

/-! ## One step -/

theorem signal_awake (b : ThreadBlock) :
    b.signal.state ≠ .sleeping ∧ b.signal.state ≠ .blocked := by
  unfold ThreadBlock.signal
  dsimp only
  split
  · exact ⟨nofun, nofun⟩
  · rename_i hstate
    exact not_or.mp hstate

theorem step_eventSignal (h : s.eventSignal e = some s') :
    s.step (.eventSignal e) = some ({ thread := s.currentThread, value := none }, s') := by
  rw [SchedulerState.step, perform, h]
  rfl

theorem actionOn_eventWait (c : UInt32) (timeoutMs : UInt32) (now : UInt64) :
    actionOn c (.eventWait e timeoutMs now) = if e = 0 then none else some (.wait c e) := rfl

theorem actionOn_eventSignal (c : UInt32) :
    actionOn c (.eventSignal e) = if e = 0 then none else some (.signal e) := rfl

theorem actionOn_signal {c : UInt32} (h : actionOn c op = some (.signal e)) :
    op = .eventSignal e := by
  cases op with
  | eventWait e' timeoutMs now =>
      rw [actionOn_eventWait] at h
      by_cases hnull : e' = 0
      · rw [if_pos hnull] at h
        cases h
      · rw [if_neg hnull] at h
        cases h
  | eventSignal e' =>
      rw [actionOn_eventSignal] at h
      by_cases hnull : e' = 0
      · rw [if_pos hnull] at h
        cases h
      · rw [if_neg hnull] at h
        cases h
        rfl
  | _ => cases h

theorem actionOn_wait {c : UInt32} (h : actionOn c op = some (.wait t e)) :
    ∃ timeoutMs now, op = .eventWait e timeoutMs now := by
  cases op with
  | eventWait e' timeoutMs now =>
      rw [actionOn_eventWait] at h
      by_cases hnull : e' = 0
      · rw [if_pos hnull] at h
        cases h
      · rw [if_neg hnull] at h
        cases h
        exact ⟨timeoutMs, now, rfl⟩
  | eventSignal e' =>
      rw [actionOn_eventSignal] at h
      by_cases hnull : e' = 0
      · rw [if_pos hnull] at h
        cases h
      · rw [if_neg hnull] at h
        cases h
  | _ => cases h

theorem EventInv.eventStep (h : s.EventInv ring reap waiting queued) (hok : s.EventRules op)
    (he : e ≠ 0) {reply : Reply} (hrun : s.step op = some (reply, s')) :
    s.EventStep op reply s' e := by
  obtain ⟨value, s₁, ring', reap', waiting', queued', hstep, -, hstepped⟩ := h.step hok
  obtain ⟨rfl, rfl⟩ := Prod.mk.inj (Option.some.inj (hrun.symm.trans hstep))
  have hwaits := h.inv.waits
  have hmem : ∀ t, t ∈ waiting e ↔ (s.threads t).waitEvent = e := fun t => hwaits.mem_iff he
  constructor
  · rintro rfl ⟨u, hu⟩
    have hsome : waiting e ≠ [] := List.ne_nil_of_mem ((hmem u).mpr hu)
    have hsignal := step_eventSignal (hwaits.eventSignal_delivered he hsome)
    obtain ⟨-, rfl⟩ := Prod.mk.inj (Option.some.inj (hrun.symm.trans hsignal))
    have hs := s.signalled_afterDeliver e (waiting e)
    refine ⟨?_, fun t ht => ?_⟩
    · rw [hs.event]
      exact Bool.eq_false_iff.mpr fun hkept => hsome (hwaits.kept e hkept)
    · rw [hs.waiters t ((hmem t).mpr ht)]
      exact ⟨rfl, rfl, signal_awake _⟩
  · rintro rfl hnobody
    have hnone : waiting e = [] :=
      List.eq_nil_iff_forall_not_mem.mpr fun t ht => hnobody t ((hmem t).mp ht)
    have hsignal := step_eventSignal (hwaits.eventSignal_kept he hnone)
    obtain ⟨-, rfl⟩ := Prod.mk.inj (Option.some.inj (hrun.symm.trans hsignal))
    refine ⟨?_, rfl⟩
    rw [events_setEvent, Function.update_self]
  · rintro timeoutMs now rfl hkept
    have hwait : s.eventWait e timeoutMs now = (some true, _) :=
      s.eventWait_consumed timeoutMs now he h.inv.queues.current_ne_zero hkept
    have hreturn : s.step (.eventWait e timeoutMs now) =
      some (_, (s.eventWait e timeoutMs now).2) :=
      rfl
    obtain ⟨hreply, rfl⟩ := Prod.mk.inj (Option.some.inj (hrun.symm.trans hreturn))
    have hvalue := congrArg Reply.value hreply
    refine ⟨hvalue.trans (congrArg Prod.fst hwait), ?_⟩
    rw [hwait, events_setEvent, Function.update_self]
  · rintro timeoutMs now rfl hkept
    have hreturn : s.step (.eventWait e timeoutMs now) =
      some (_, (s.eventWait e timeoutMs now).2) :=
      rfl
    obtain ⟨hreply, rfl⟩ := Prod.mk.inj (Option.some.inj (hrun.symm.trans hreturn))
    obtain ⟨hnone, hq⟩ := s.eventWait_queued timeoutMs now he h.inv.queues.current_ne_zero hkept
    have hvalue := congrArg Reply.value hreply
    exact ⟨hvalue.trans hnone, hq.waitEvent⟩
  · intro hsignal hwait
    have hcheck := hstepped.signals
    cases haction : actionOn s.currentThread op with
    | none =>
        rw [haction] at hcheck
        have hsame := congrArg (fun g => Signals.kept g e) (Option.some.inj hcheck)
        exact hsame.symm
    | some action =>
        rw [haction] at hcheck
        obtain ⟨-, hnext⟩ := Signals.check_eq_some.mp hcheck
        have hsame := congrArg (fun g => Signals.kept g e) hnext
        refine hsame.symm.trans (Signals.kept_step ?_ fun t => ?_)
        · rintro rfl
          exact hsignal (actionOn_signal haction)
        · rintro rfl
          obtain ⟨timeoutMs, now, hop⟩ := actionOn_wait haction
          exact hwait timeoutMs now hop

/-! ## Runs -/

/-- The signals beside a run. -/
noncomputable def checkReply (g : Signals UInt32 UInt32) (op : ThreadOp) (reply : Reply) :
    Option (Signals UInt32 UInt32) :=
  g.check ((actionOn reply.thread op).map (·, reply.value))

theorem track_actions {g g' : Signals UInt32 UInt32} {ops : List ThreadOp} {replies : List Reply}
    (h : Trace.track checkReply g ops replies = some g') :
    g.checks (eventActions ops replies) = some g' := by
  induction ops generalizing g replies with
  | nil =>
      cases replies <;> exact h
  | cons op ops ih =>
      cases replies with
      | nil => exact h
      | cons reply replies =>
          rw [eventActions, Signals.checks_toList]
          obtain ⟨g₁, hcheck, hrest⟩ := Option.bind_eq_some_iff.mp h
          exact Option.bind_eq_some_iff.mpr ⟨g₁, hcheck, ih hrest⟩

theorem init_signals (mainThread idle idleStack idleEsp : UInt32) (now : UInt64) :
    (init mainThread idle idleStack idleEsp now).signals [mainThread] (fun _ => []) =
      Signals.quiet :=
  signals_eq (fun _ => rfl) fun _ => waitOf_none fun _ => nofun

/-- From the first state on, in every run of events, timers and kills, no signal is
lost. -/
theorem events_keep_signals {mainThread idle idleStack idleEsp : UInt32} {now : UInt64}
    {ops : List ThreadOp} (hmain : mainThread ≠ 0) (hidle : idle ≠ 0) (hne : mainThread ≠ idle)
    (hok : Trace.Permitted SchedulerState.step EventRules
      (init mainThread idle idleStack idleEsp now) ops) :
    EventsKeepSignals (init mainThread idle idleStack idleEsp now) ops := by
  have hstart : (init mainThread idle idleStack idleEsp now).EventInv [mainThread] []
      (fun _ => []) fun _ => [] :=
    ⟨init_inv hmain hidle hne, fun _ _ => nofun⟩
  have htracks : ∃ replies s' g,
      Trace.run SchedulerState.step (init mainThread idle idleStack idleEsp now) ops =
        some (replies, s') ∧
      Trace.track checkReply Signals.quiet ops replies = some g ∧
      ∃ ring reap waiting queued,
        s'.EventInv ring reap waiting queued ∧ g = s'.signals ring waiting := by
    refine Trace.run_tracks (R := fun s g => ∃ ring reap waiting queued,
      s.EventInv ring reap waiting queued ∧ g = s.signals ring waiting) ?_
      ⟨_, _, _, _, hstart, (init_signals ..).symm⟩ hok
    rintro s _ op ⟨ring, reap, waiting, queued, hinv, rfl⟩ hrules
    obtain ⟨value, s', ring', reap', waiting', queued', hrun, hinv', hstep⟩ := hinv.step hrules
    exact ⟨_, s', _, hrun, hstep.signals, ring', reap', waiting', queued', hinv', rfl⟩
  obtain ⟨replies, s', g, hrun, htrack, ring, reap, waiting, queued, hinv, -⟩ := htracks
  have hchecks := track_actions htrack
  refine ⟨replies, s', hrun, ⟨g, hchecks⟩, ?_, fun e he => ⟨hinv.inv.waits.eventSound he, ?_⟩⟩
  · intro t e before between value after hsplit hothers
    rw [hsplit] at hchecks
    exact Signals.checks_wait hchecks hothers
  · exact fun op reply s'' hrules hstep => hinv.eventStep hrules he hstep

/-- A wait that times out before its signal, but is not resumed before it. -/
def lateSignal : List ThreadOp :=
  [.create 3 0 0 .normal 0, .eventWait 9 5 0, .yield 0 0, .tick 0 5, .eventSignal 9, .yield 0 5,
    .resume, .eventSignal 9, .eventWait 9 0 5, .kill 3, .yield 0 6]

theorem events_keep_signals_late : EventsKeepSignals (init 1 2 0 0 0) lateSignal :=
  events_keep_signals (by decide) (by decide) (by decide) (by decide +kernel)

end SchedulerState

end AvrKernel.Scheduler

import AvrKernel.Lib.FifoLock
import AvrKernel.Lib.Signals
import AvrKernel.Scheduler.RingSteps

/-!
# What a step does

Every step that can happen comes to its end and keeps the invariant. To the
mutexes it does what their queues of requests say, and to the events what the
abstract signals say.
-/

namespace AvrKernel.Scheduler

open Linked

namespace SchedulerState

variable {s s' : SchedulerState} {ring reap ring' : List UInt32} {t c : UInt32}
  {waiting waiting' queued : UInt32 → List UInt32}

/-! ## The views of a state -/

/-- Who has a mutex. -/
def holder (s : SchedulerState) (m : UInt32) : Option UInt32 :=
  if (s.mutexes m).locked = true then some (s.mutexes m).owner else none

/-- What the thread `c` asks in an operation, and of which mutex. -/
def mutexRequest (c : UInt32) : ThreadOp → Option (UInt32 × FifoLock.Request UInt32)
  | .mutexLock m => if m = 0 then none else some (m, .acquire c)
  | .mutexTrylock m => if m = 0 then none else some (m, .attempt c)
  | .mutexUnlock m => if m = 0 then none else some (m, .release c)
  | _ => none

/-- What it asks of one mutex. -/
def requestOn (m c : UInt32) (op : ThreadOp) : Option (FifoLock.Request UInt32) :=
  (mutexRequest c op).bind fun request => if request.1 = m then some request.2 else none

/-- A mutex as a lock with a queue, and what an operation makes of it. -/
def lockOf (s : SchedulerState) (queued : UInt32 → List UInt32) (m : UInt32) : FifoLock UInt32 :=
  { holder := s.holder m, queue := queued m }

def lockAfter (s : SchedulerState) (queued : UInt32 → List UInt32) (op : ThreadOp) (m : UInt32) :
    FifoLock UInt32 :=
  (s.lockOf queued m).after (requestOn m s.currentThread op)

/-- The wait that a living thread is in. -/
def waitOf (s : SchedulerState) (ring : List UInt32) (waiting : UInt32 → List UInt32) (t : UInt32) :
    Option (UInt32 × Bool) :=
  if t ∈ ring ∧ s.Alive t then
    match s.calls t with
    | .wait e => some (e, decide (t ∉ waiting e))
    | _ => none
  else none

/-- The events as signals. -/
def signals (s : SchedulerState) (ring : List UInt32) (waiting : UInt32 → List UInt32) :
    Signals UInt32 UInt32 where
  kept e := (s.events e).signaled
  waits := s.waitOf ring waiting

/-- What the thread `c` does to the events in an operation. -/
def actionOn (c : UInt32) : ThreadOp → Option (Signals.Action UInt32 UInt32)
  | .eventWait e .. => if e = 0 then none else some (.wait c e)
  | .eventSignal e => if e = 0 then none else some (.signal e)
  | .resume => some (.finish c)
  | .kill t => some (.forget t)
  | _ => none

/-- The call puts the thread that makes it to sleep. -/
def Blocks (s : SchedulerState) : ThreadOp → Prop
  | .sleep ms _ => ms ≠ 0
  | .eventWait e .. => e ≠ 0 ∧ (s.events e).signaled = false
  | .mutexLock m => m ≠ 0 ∧ (s.mutexes m).locked = true
  | _ => False

instance (s : SchedulerState) : (op : ThreadOp) → Decidable (s.Blocks op)
  | .sleep .. => inferInstanceAs (Decidable (_ ≠ _))
  | .eventWait .. | .mutexLock _ => inferInstanceAs (Decidable (_ ∧ _))
  | .create .. | .tick .. | .yield .. | .eventSignal _ | .mutexTrylock _ | .mutexUnlock _ | .resume
  | .exit | .kill _ => .isFalse id

/-- A thread that has been killed does not go to sleep. -/
def KilledStaysUp (s : SchedulerState) (op : ThreadOp) : Prop :=
  (s.threads s.currentThread).state = .dead → ¬ s.Blocks op

instance (s : SchedulerState) (op : ThreadOp) : Decidable (s.KilledStaysUp op) :=
  inferInstanceAs (Decidable (_ → _))

/-- The thread whose life ends in an operation of the thread `c`. -/
def ThreadOp.ends (c : UInt32) : ThreadOp → Option UInt32
  | .exit => some c
  | .kill t => some t
  | _ => none

/-- Which threads live after the step `op`. -/
structure LivesOn (s : SchedulerState) (ring : List UInt32) (op : ThreadOp) (s' : SchedulerState)
    (ring' : List UInt32) : Prop where
  dead : s.KilledStaysUp op → ∀ t ∈ ring, ¬ s.Alive t → ¬ s'.Alive t
  alive : ∀ t ∈ ring, s.Alive t → ThreadOp.ends s.currentThread op ≠ some t → t ∈ ring' ∧ s'.Alive t

/-- The step `op` with this value leads from `s` to `s'`. -/
structure Stepped (s : SchedulerState) (ring : List UInt32) (waiting queued : UInt32 → List UInt32)
    (op : ThreadOp) (value : Option Bool) (s' : SchedulerState) (ring' : List UInt32)
    (waiting' : UInt32 → List UInt32) : Prop where
  inv : ∃ reap', s'.Inv ring' reap' waiting' fun m => (s.lockAfter queued op m).queue
  holder : ∀ m, s'.holder m = (s.lockAfter queued op m).holder
  signals : (s.signals ring waiting).check ((actionOn s.currentThread op).map (·, value)) =
    some (s'.signals ring' waiting')
  life : LivesOn s ring op s' ring'
  calls : ∀ t m, s'.calls t = .lock m → s.calls t = .lock m ∨ op = .mutexLock m
  handed : ∀ m, ∀ t ∈ queued m, t ∉ (s.lockAfter queued op m).queue → (s'.threads t).state = .ready

/-- No thread is killed while it is queued for a mutex. -/
def KillsSafely (s : SchedulerState) : ThreadOp → Prop
  | .kill t => ¬ s.WaitsForMutex t
  | _ => True

instance (call : Call) : Decidable (∃ m, call = .lock m) :=
  match call with
  | .lock m => .isTrue ⟨m, rfl⟩
  | .none => .isFalse nofun
  | .sleep => .isFalse nofun
  | .wait _ => .isFalse nofun

instance (s : SchedulerState) (t : UInt32) : Decidable (s.WaitsForMutex t) :=
  inferInstanceAs (Decidable (_ ∧ _))

instance (s : SchedulerState) : (op : ThreadOp) → Decidable (s.KillsSafely op)
  | .kill _ => inferInstanceAs (Decidable (¬ _))
  | .create .. | .tick .. | .yield .. | .sleep .. | .eventWait .. | .eventSignal _ | .mutexLock _
  | .mutexTrylock _ | .mutexUnlock _ | .resume | .exit => .isTrue trivial

theorem holder_congr (h : s'.mutexes = s.mutexes) (m : UInt32) : s'.holder m = s.holder m := by
  rw [holder, h, holder]

theorem signals_eq {g : Signals UInt32 UInt32} (hkept : ∀ e, (s.events e).signaled = g.kept e)
    (hwaits : ∀ t, s.waitOf ring waiting t = g.waits t) : s.signals ring waiting = g := by
  cases g with
  | mk kept waits =>
      obtain rfl : (fun e => (s.events e).signaled) = kept := funext hkept
      obtain rfl : s.waitOf ring waiting = waits := funext hwaits
      rfl

theorem waitOf_congr (hlive : (t ∈ ring' ∧ s'.Alive t) ↔ (t ∈ ring ∧ s.Alive t))
    (hcalls : s'.calls t = s.calls t) (hlists : ∀ e, t ∈ waiting' e ↔ t ∈ waiting e) :
    s'.waitOf ring' waiting' t = s.waitOf ring waiting t := by
  unfold waitOf
  rw [hcalls]
  simp only [hlive, hlists]

theorem LivesOn.of_alive {op : ThreadOp} (hsub : ∀ t ∈ ring, s.Alive t → t ∈ ring')
    (halive : ∀ t ∈ ring, s'.Alive t ↔ s.Alive t) : LivesOn s ring op s' ring' where
  dead _ t ht hdead := by
    rw [halive t ht]
    exact hdead
  alive t ht hlive _ := ⟨hsub t ht hlive, (halive t ht).mpr hlive⟩

theorem LivesOn.of_blocks {op : ThreadOp} (hblocks : s.Blocks op) (hself : s'.Alive s.currentThread)
    (hothers : ∀ t, t ≠ s.currentThread → (s'.Alive t ↔ s.Alive t)) :
    LivesOn s ring op s' ring where
  dead hrests t _ hdead := by
    have hne : t ≠ s.currentThread := by
      rintro rfl
      exact hrests (not_not.mp hdead) hblocks
    rw [hothers t hne]
    exact hdead
  alive t ht hlive _ := by
    refine ⟨ht, ?_⟩
    by_cases heq : t = s.currentThread
    · rw [heq]
      exact hself
    · exact (hothers t heq).mpr hlive

theorem LivesOn.of_ends {op : ThreadOp} (hop : ThreadOp.ends s.currentThread op = some c)
    (hself : ¬ s'.Alive c)
    (hothers : ∀ t, t ≠ c → (s'.Alive t ↔ s.Alive t)) : LivesOn s ring op s' ring where
  dead _ t _ hdead := by
    by_cases heq : t = c
    · rw [heq]
      exact hself
    · rw [hothers t heq]
      exact hdead
  alive t ht hlive hnot := by
    refine ⟨ht, (hothers t ?_).mpr hlive⟩
    rintro rfl
    exact hnot hop

theorem waitOf_none (h : ∀ e, s.calls t ≠ .wait e) : s.waitOf ring waiting t = none := by
  unfold waitOf
  split
  · split
    · rename_i e hcall
      exact absurd hcall (h e)
    · rfl
  · rfl

theorem waitOf_eq_none (h : ∀ e, s.calls t ≠ .wait e) (h' : ∀ e, s'.calls t ≠ .wait e) :
    s'.waitOf ring' waiting' t = s.waitOf ring waiting t :=
  (waitOf_none h').trans (waitOf_none h).symm

theorem Waits.waitOf_eq_false_iff (h : s.Waits ring waiting) {e : UInt32} :
    s.waitOf ring waiting t = some (e, false) ↔ t ∈ waiting e := by
  unfold waitOf
  constructor
  · intro hwait
    split at hwait
    · split at hwait
      · rename_i e' _
        simp only [Option.some.injEq, Prod.mk.injEq, decide_eq_false_iff_not, not_not] at hwait
        exact hwait.1 ▸ hwait.2
      · cases hwait
    · cases hwait
  · intro ht
    obtain ⟨hcall, halive, -⟩ := h.call e t ht
    rw [if_pos ⟨((h.mem e t).mp ht).1, halive⟩, hcall]
    simp only [ht, not_true_eq_false, decide_false]

/-- An operation on no mutex, after which every mutex is as before. -/
theorem lockAfter_none {op : ThreadOp} (hop : ∀ c, mutexRequest c op = none) (m : UInt32) :
    s.lockAfter queued op m = s.lockOf queued m := by
  rw [lockAfter, requestOn, hop]
  rfl

/-- The step lemma of operations that concern neither mutexes nor events. -/
theorem Stepped.of_frame {op : ThreadOp} {value : Option Bool} {reap' : List UInt32}
    (hrequest : ∀ c, mutexRequest c op = none) (haction : ∀ c, actionOn c op = none)
    (hinv : s'.Inv ring' reap' waiting queued) (hmutexes : s'.mutexes = s.mutexes)
    (hkept : ∀ e, (s'.events e).signaled = (s.events e).signaled)
    (hwaits : ∀ t, s'.waitOf ring' waiting t = s.waitOf ring waiting t)
    (hlife : LivesOn s ring op s' ring')
    (hcalls : ∀ t m, s'.calls t = .lock m → s.calls t = .lock m) :
    Stepped s ring waiting queued op value s' ring' waiting where
  inv := ⟨reap', by simp only [lockAfter_none hrequest]; exact hinv⟩
  holder m := by
    rw [lockAfter_none hrequest]
    exact holder_congr hmutexes m
  signals := by
    rw [haction]
    exact congrArg some (signals_eq hkept hwaits).symm
  life := hlife
  calls t m hcall := .inl (hcalls t m hcall)
  handed m t ht hout := by
    rw [lockAfter_none hrequest] at hout
    exact absurd ht hout

/-! ## The steps of the ring -/

theorem Inv.create_stepped (h : s.Inv ring reap waiting queued) {x : UInt32} (hnull : x ≠ 0)
    (hfree : s.allocated x = false) (stackBase esp : UInt32) (priority : ThreadPriority)
    (now : UInt64) :
    ∃ s', s.threadCreate x stackBase esp priority now = some s' ∧
      Stepped s ring waiting queued (.create x stackBase esp priority now) none s' (ring ++ [x])
        waiting := by
  obtain ⟨s', hrun, hc, hinv⟩ := h.create hnull hfree stackBase esp priority now
  have hnew : x ∉ ring := by
    intro hin
    have hallocated := h.lives.allocated x (.inl hin)
    rw [hfree] at hallocated
    cases hallocated
  have hcalls : ∀ t, t ≠ x → s'.calls t = s.calls t :=
    fun t ht => by rw [hc.calls, Function.update_of_ne ht]
  have halive : ∀ t, t ≠ x → (s'.Alive t ↔ s.Alive t) :=
    fun t ht => by rw [Alive, hc.blocks t ht]
  have hself : s'.calls x = .none := by rw [hc.calls, Function.update_self]
  refine ⟨s', hrun, .of_frame (fun _ => rfl) (fun _ => rfl) hinv hc.mutexes
    (fun e => by rw [hc.events]) (fun t => ?_) (.of_alive (fun t ht _ => ?_) fun t ht => ?_)
    fun t m hcall => ?_⟩
  · by_cases heq : t = x
    · subst heq
      have hbefore : s.waitOf ring waiting t = none := if_neg fun hin => hnew hin.1
      rw [hbefore]
      exact waitOf_none fun e => by rw [hself]; rintro ⟨⟩
    · refine waitOf_congr ?_ (hcalls t heq) fun _ => Iff.rfl
      rw [halive t heq, List.mem_append, List.mem_singleton, or_iff_left heq]
  · exact List.mem_append_left _ ht
  · apply halive
    rintro rfl
    exact hnew ht
  · by_cases heq : t = x
    · rw [heq, hself] at hcall
      cases hcall
    · exact (hcalls t heq).symm.trans hcall

theorem Inv.handler_stepped {s₁ : SchedulerState} (h : s.Inv ring reap waiting queued)
    (op : ThreadOp) (hcore : s₁.core = s.core)
    (hrequest : ∀ c, mutexRequest c op = none) (haction : ∀ c, actionOn c op = none) (esp : UInt32)
    (now : UInt64) :
    ∃ esp' s' ring', s₁.threadHandlerC esp now = some (esp', s') ∧ ring' ⊆ ring ∧
      Stepped s ring waiting queued op none s' ring' waiting := by
  obtain ⟨esp', s', reap', hrun, hinv, hprogress, hothers, -⟩ := (h.congr hcore).handler esp now
  have hafter := congrArg SchedulerState.mutexes hothers
  have hbefore := congrArg SchedulerState.mutexes hcore
  have hmutexes : s'.mutexes = s.mutexes := hafter.trans hbefore
  have hafter := congrArg SchedulerState.events hothers
  have hbefore := congrArg SchedulerState.events hcore
  have hevents : s'.events = s.events := hafter.trans hbefore
  have hafter := congrArg SchedulerState.calls hothers
  have hbefore := congrArg SchedulerState.calls hcore
  have hcalls : s'.calls = s.calls := hafter.trans hbefore
  have hsame : ∀ t, s₁.Alive t ↔ s.Alive t := fun t => by rw [Alive, core_state hcore]
  have halive : ∀ t, s'.Alive t ↔ s.Alive t :=
    fun t => (not_congr (hprogress t).dead).trans (hsame t)
  refine ⟨esp', s', _, hrun, List.filter_subset_self _, .of_frame hrequest haction hinv hmutexes
    (fun e => by rw [hevents]) (fun t => ?_) (.of_alive (fun t ht hlive => ?_) fun t _ => halive t)
    fun t m hcall => ?_⟩
  · refine waitOf_congr ?_ (congrFun hcalls t) fun _ => Iff.rfl
    rw [mem_alive, hsame, halive, and_assoc, and_self]
  · exact (mem_alive s₁ ring t).mpr ⟨ht, (hsame t).mpr hlive⟩
  · exact (congrFun hcalls t).symm.trans hcall

/-- The executing thread changes its own block and its call, and nothing else that
mutexes or events depend on. -/
theorem Inv.own_stepped {op : ThreadOp} {value : Option Bool} (h : s.Inv ring reap waiting queued)
    (hex : s.Executing) (hrequest : ∀ c, mutexRequest c op = none)
    (haction : ∀ c, actionOn c op = none) (hc : ChangesThread s s' s.currentThread)
    (hevents : s'.events = s.events) (hmutexes : s'.mutexes = s.mutexes)
    (hnodes : s'.waiters = s.waiters)
    (hevent : (s'.threads s.currentThread).waitEvent = (s.threads s.currentThread).waitEvent)
    (hlife : LivesOn s ring op s' ring)
    (hcall : s'.calls s.currentThread = .none ∨ s'.calls s.currentThread = .sleep) :
    Stepped s ring waiting queued op value s' ring waiting := by
  have hruns := h.runsCode hex
  have hinv := h.returned hruns.mem hruns.notWaiting hruns.notQueued hc hevents
    hmutexes hnodes hevent
    (fun _ => rfl) fun _ => hcall
  refine .of_frame hrequest haction hinv hmutexes (fun e => by rw [hevents]) (fun t => ?_)
    hlife fun t m hlock => ?_
  · by_cases heq : t = s.currentThread
    · subst heq
      refine waitOf_eq_none (fun e => ?_) fun e => ?_
      · rw [hruns.call]
        rintro ⟨⟩
      · rcases hcall with hcall | hcall <;> rw [hcall] <;> rintro ⟨⟩
    · refine waitOf_congr ?_ (hc.calls t heq) fun _ => Iff.rfl
      rw [Alive, hc.threads t heq]
  · by_cases heq : t = s.currentThread
    · rw [heq] at hlock
      rcases hcall with hcall | hcall
      · exact absurd (hcall.symm.trans hlock) (by rintro ⟨⟩)
      · exact absurd (hcall.symm.trans hlock) (by rintro ⟨⟩)
    · exact (hc.calls t heq).symm.trans hlock

theorem Inv.same_stepped {op : ThreadOp} {value : Option Bool} (h : s.Inv ring reap waiting queued)
    (hrequest : ∀ m, (s.lockAfter queued op m) = s.lockOf queued m)
    (haction : actionOn s.currentThread op = none) :
    Stepped s ring waiting queued op value s ring waiting where
  inv := ⟨reap, by simp only [hrequest]; exact h⟩
  holder m := by
    rw [hrequest]
    rfl
  signals := by
    rw [haction]
    rfl
  life := .of_alive (fun _ ht _ => ht) fun _ _ => Iff.rfl
  calls _ _ := .inl
  handed m t ht hout := by
    rw [hrequest] at hout
    exact absurd ht hout

theorem Inv.sleep_stepped (h : s.Inv ring reap waiting queued) (hex : s.Executing) (ms : UInt32)
    (now : UInt64) :
    Stepped s ring waiting queued (.sleep ms now) none (s.threadSleep ms now) ring waiting := by
  unfold threadSleep
  split
  · exact h.same_stepped (fun _ => rfl) rfl
  next hms =>
    have hc : ChangesThread s (s.setThread s.currentThread fun t =>
        { t with wakeTick := now + ms.toUInt64, state := .sleeping }) s.currentThread :=
      changesThread_setThread s s.currentThread rfl rfl
    apply h.own_stepped hex (fun _ => rfl) (fun _ => rfl) (hc.setCall rfl .sleep) rfl rfl rfl
    · rw [threads_setCall, threads_setThread, Function.update_self]
    · refine .of_blocks hms ?_ fun t ht => ?_
      · rw [Alive, threads_setCall, threads_setThread, Function.update_self]
        rintro ⟨⟩
      · rw [Alive, threads_setCall, hc.threads t ht]
    · exact .inr (Function.update_self ..)

theorem Inv.exit_stepped (h : s.Inv ring reap waiting queued) (hex : s.Executing) :
    Stepped s ring waiting queued .exit none s.threadExit ring waiting := by
  have hc : ChangesThread s s.threadExit s.currentThread :=
    changesThread_setThread s s.currentThread rfl rfl
  apply h.own_stepped hex (fun _ => rfl) (fun _ => rfl) hc rfl rfl rfl
  · unfold threadExit
    rw [threads_setThread, Function.update_self]
  · refine .of_ends rfl (not_not.mpr ?_) fun t ht => ?_
    · unfold threadExit
      rw [threads_setThread, Function.update_self]
    · rw [Alive, hc.threads t ht]
  · exact .inl hex.2.2

/-! ## The steps of the events -/

/-- Operations on no mutex leave the mutexes alone. -/
theorem Stepped.of_events {op : ThreadOp} {value : Option Bool} {reap' : List UInt32}
    (hrequest : ∀ c, mutexRequest c op = none) (hinv : s'.Inv ring' reap' waiting' queued)
    (hmutexes : s'.mutexes = s.mutexes)
    (hsignals : (s.signals ring waiting).check ((actionOn s.currentThread op).map (·, value)) =
      some (s'.signals ring' waiting'))
    (hlife : LivesOn s ring op s' ring')
    (hcalls : ∀ t m, s'.calls t = .lock m → s.calls t = .lock m) :
    Stepped s ring waiting queued op value s' ring' waiting' where
  inv := ⟨reap', by simp only [lockAfter_none hrequest]; exact hinv⟩
  holder m := by
    rw [lockAfter_none hrequest]
    exact holder_congr hmutexes m
  signals := hsignals
  life := hlife
  calls t m hcall := .inl (hcalls t m hcall)
  handed m t ht hout := by
    rw [lockAfter_none hrequest] at hout
    exact absurd ht hout

theorem Inv.eventWait_stepped (h : s.Inv ring reap waiting queued) (hex : s.Executing)
    (e timeoutMs : UInt32) (now : UInt64) :
    ∃ waiting', Stepped s ring waiting queued (.eventWait e timeoutMs now)
      (s.eventWait e timeoutMs now).1 (s.eventWait e timeoutMs now).2 ring waiting' := by
  by_cases hnull : e = 0
  · have hrun : s.eventWait e timeoutMs now = (some false, s) := if_pos hnull
    rw [hrun]
    exact ⟨waiting, h.same_stepped (fun _ => rfl) (if_pos hnull)⟩
  · have haction : actionOn s.currentThread (.eventWait e timeoutMs now) =
        some (.wait s.currentThread e) := if_neg hnull
    cases hkept : (s.events e).signaled with
    | true =>
        rw [s.eventWait_consumed timeoutMs now hnull h.queues.current_ne_zero hkept]
        refine ⟨waiting, .of_events (fun _ => rfl) (h.setSignaled (by rintro ⟨⟩)) rfl ?_
          (.of_alive (fun _ ht _ => ht) fun _ _ => Iff.rfl) fun _ _ => id⟩
        have hstep := Signals.step_wait_kept (g := s.signals ring waiting)
          (a := s.currentThread) hkept
        rw [haction, Option.map_some, Signals.check_eq (by rw [hstep]), hstep]
        refine congrArg some (signals_eq (fun e' => ?_) fun t => rfl).symm
        rw [events_setEvent]
        dsimp only
        by_cases heq : e' = e
        · rw [heq, Function.update_self, Function.update_self]
        · rw [Function.update_of_ne heq, Function.update_of_ne heq]
          rfl
    | false =>
        obtain ⟨hvalue, hq⟩ := s.eventWait_queued timeoutMs now hnull h.queues.current_ne_zero hkept
        have hruns := h.runsCode hex
        have hinv := h.enqueued hruns hq hnull hkept
        rw [hvalue]
        refine ⟨_, .of_events (fun _ => rfl) hinv hq.mutexes ?_
          (.of_blocks ⟨hnull, hkept⟩ ?_ fun t ht => ?_) fun t m hlock => ?_⟩
        · have hstep := Signals.step_wait (g := s.signals ring waiting) (a := s.currentThread) hkept
          rw [haction, Option.map_some, Signals.check_eq (by rw [hstep]), hstep]
          refine congrArg some (signals_eq (fun e' => ?_) fun t => ?_).symm
          · by_cases heq : e' = e
            · rw [heq, hq.event]
              rfl
            · rw [hq.events e' heq]
              rfl
          · dsimp only
            by_cases heq : t = s.currentThread
            · rw [heq, Function.update_self, hinv.waits.waitOf_eq_false_iff, Function.update_self]
              exact List.mem_cons_self
            · rw [Function.update_of_ne heq]
              refine waitOf_congr ?_ (hq.changes.calls t heq) fun e' => ?_
              · rw [Alive, hq.changes.threads t heq]
              · by_cases hevent : e' = e
                · rw [hevent, Function.update_self, List.mem_cons, or_iff_right heq]
                · rw [Function.update_of_ne hevent]
        · rcases hq.asleep with hstate | hstate <;> rw [Alive, hstate] <;> rintro ⟨⟩
        · rw [Alive, hq.changes.threads t ht]
        · by_cases heq : t = s.currentThread
          · rw [heq, hq.call] at hlock
            cases hlock
          · exact (hq.changes.calls t heq).symm.trans hlock

theorem Inv.eventSignal_stepped (h : s.Inv ring reap waiting queued) (e : UInt32) :
    ∃ s' waiting', s.eventSignal e = some s' ∧
      Stepped s ring waiting queued (.eventSignal e) none s' ring waiting' := by
  by_cases hnull : e = 0
  · exact ⟨s, waiting, if_pos hnull, h.same_stepped (fun _ => rfl) (if_pos hnull)⟩
  · have haction : actionOn s.currentThread (.eventSignal e) = some (.signal e) := if_neg hnull
    cases hlist : waiting e with
    | nil =>
        refine ⟨_, waiting, h.waits.eventSignal_kept hnull hlist, .of_events (fun _ => rfl)
          (h.setSignaled fun _ => hlist) rfl ?_ (.of_alive (fun _ ht _ => ht) fun _ _ => Iff.rfl)
          fun _ _ => id⟩
        have hnone : ∀ t, (s.signals ring waiting).waits t ≠ some (e, false) := by
          intro t hwait
          have hmem := h.waits.waitOf_eq_false_iff.mp hwait
          rw [hlist] at hmem
          cases hmem
        have hstep := Signals.step_signal_kept hnone
        rw [haction, Option.map_some, Signals.check_eq (by rw [hstep]), hstep]
        refine congrArg some (signals_eq (fun e' => ?_) fun t => rfl).symm
        rw [events_setEvent]
        dsimp only
        by_cases heq : e' = e
        · rw [heq, Function.update_self, Function.update_self]
        · rw [Function.update_of_ne heq, Function.update_of_ne heq]
          rfl
    | cons u rest =>
        have hs := s.signalled_afterDeliver e (waiting e)
        have hsome : waiting e ≠ [] := by
          rw [hlist]
          exact List.cons_ne_nil u rest
        refine ⟨_, _, h.waits.eventSignal_delivered hnull hsome, .of_events (fun _ => rfl)
          (h.delivered e) rfl ?_ (.of_alive (fun _ ht _ => ht) fun t _ => hs.alive t)
          fun _ _ => id⟩
        · have hwait : (s.signals ring waiting).waits u = some (e, false) := by
            apply h.waits.waitOf_eq_false_iff.mpr
            rw [hlist]
            exact List.mem_cons_self
          have hstep := Signals.step_signal_delivered hwait
          rw [haction, Option.map_some, Signals.check_eq (by rw [hstep]), hstep]
          refine congrArg some (signals_eq (fun e' => ?_) fun t => ?_).symm
          · by_cases heq : e' = e
            · rw [heq, hs.event]
              rfl
            · rw [hs.events e' heq]
              rfl
          · -- the waits for `e` are over, the others go on
            change _ = Signals.delivered e (s.waitOf ring waiting t)
            unfold waitOf
            simp only [hs.alive, hs.calls]
            split
            · split
              · rename_i e' _
                by_cases heq : e' = e
                · subst heq
                  simp [Signals.delivered]
                · simp [Signals.delivered, heq]
              · rfl
            · rfl

/-- A thread comes to the end of its wait, or of its life. -/
theorem Ended.signals (he : Ended s s' t)
    (hout : s'.waitOf ring (fun e => (waiting e).erase t) t = none) :
    s'.signals ring (fun e => (waiting e).erase t) =
      { kept := (s.signals ring waiting).kept
        waits := Function.update (s.signals ring waiting).waits t none } := by
  refine signals_eq he.signaled fun u => ?_
  dsimp only
  by_cases heq : u = t
  · rw [heq, Function.update_self]
    exact hout
  · rw [Function.update_of_ne heq]
    refine waitOf_congr ?_ (he.calls u heq) fun e => List.mem_erase_of_ne heq
    rw [Alive, he.state u heq]

theorem Inv.resume_stepped (h : s.Inv ring reap waiting queued) (hen : s.Enabled .resume) :
    ∃ value s' waiting', s.resume = some (value, s') ∧
      Stepped s ring waiting queued .resume value s' ring waiting' := by
  obtain ⟨hidle, hcall, hruns⟩ := hen
  have hin := h.queues.current.resolve_left hidle
  have hlive : s.currentThread ∈ ring ∧ s.Alive s.currentThread :=
    ⟨hin, fun hstate => absurd (hruns.symm.trans hstate) (by rintro ⟨⟩)⟩
  have hfinish : ∀ (value : Option Bool) (s' : SchedulerState),
      ((s.waitOf ring waiting s.currentThread).map Prod.snd) = value →
      s'.Inv ring reap (fun e => (waiting e).erase s.currentThread) queued →
      s'.calls s.currentThread = .none → (s'.threads s.currentThread).state = .running →
      Ended s s' s.currentThread → Stepped s ring waiting queued .resume value s' ring
        fun e => (waiting e).erase s.currentThread := by
    intro value s' hvalue hinv hnone hstate he
    refine .of_events (fun _ => rfl) hinv he.mutexes ?_
      (.of_alive (fun _ ht _ => ht) fun t _ => ?_) fun t m hlock => ?_
    · have hcheck : ((s.signals ring waiting).step (.finish s.currentThread)).1 = value := hvalue
      refine (Signals.check_eq hcheck).trans (congrArg some ?_)
      exact (he.signals (waitOf_none fun e => by rw [hnone]; rintro ⟨⟩)).symm
    · by_cases heq : t = s.currentThread
      · rw [heq, Alive, hstate]
        exact iff_of_true (by rintro ⟨⟩) hlive.2
      · rw [Alive, he.state t heq]
    · by_cases heq : t = s.currentThread
      · rw [heq, hnone] at hlock
        cases hlock
      · exact (he.calls t heq).symm.trans hlock
  have hreturn : (∀ e, s.calls s.currentThread ≠ .wait e) →
      Stepped s ring waiting queued .resume none (s.setCall .none) ring
        fun e => (waiting e).erase s.currentThread := by
    intro hnot
    refine hfinish none _ ?_ (h.setCall_none hin hruns hnot) (Function.update_self ..) hruns
      ⟨fun _ => rfl, rfl, fun _ _ => rfl, fun _ hne => Function.update_of_ne hne _ _⟩
    rw [waitOf_none hnot]
    rfl
  unfold SchedulerState.resume
  cases hcalls : s.calls s.currentThread with
  | none => exact absurd hcalls hcall
  | sleep => exact ⟨none, _, _, rfl, hreturn fun e => by rw [hcalls]; rintro ⟨⟩⟩
  | lock m => exact ⟨none, _, _, rfl, hreturn fun e => by rw [hcalls]; rintro ⟨⟩⟩
  | wait e =>
      obtain ⟨s', hrest, hinv, hnone, hstate, he⟩ := h.eventWaitRest hin hruns hcalls
      refine ⟨some (decide (s.currentThread ∉ waiting e)), s'.setCall .none, _, ?_,
        hfinish _ _ ?_ hinv hnone hstate he⟩
      · dsimp only
        rw [hrest]
        rfl
      · unfold waitOf
        rw [if_pos hlive, hcalls]
        rfl

theorem Inv.kill_stepped (h : s.Inv ring reap waiting queued) (hidle : t ≠ s.idleThread)
    (hfree : ¬ s.WaitsForMutex t) :
    ∃ s', s.processKillThread t = some s' ∧ Stepped s ring waiting queued (.kill t) none s' ring
      fun e => (waiting e).erase t := by
  obtain ⟨s', hrun, hdead, hinv, hcalls, he⟩ := h.kill hidle hfree
  refine ⟨s', hrun, .of_events (fun _ => rfl) hinv he.mutexes ?_
    (.of_ends rfl hdead fun u hu => ?_) fun u m hlock => ?_⟩
  · have hcheck : ((s.signals ring waiting).step (.forget t)).1 = none := rfl
    refine (Signals.check_eq hcheck).trans (congrArg some ?_)
    exact (he.signals (if_neg fun hlive => hdead hlive.2)).symm
  · rw [Alive, he.state u hu]
  · exact (congrFun hcalls u).symm.trans hlock

/-! ## The steps of the mutexes -/

/-- An operation on the mutex `m` alone, in terms of what it makes of that one. -/
theorem lockAfter_eq (queued : UInt32 → List UInt32) {op : ThreadOp} {m : UInt32}
    {r : FifoLock.Request UInt32}
    (hop : mutexRequest s.currentThread op = some (m, r)) :
    (∀ m', m' ≠ m → s.lockAfter queued op m' = s.lockOf queued m') ∧
      s.lockAfter queued op m = (s.lockOf queued m).step r := by
  refine ⟨fun m' hne => ?_, ?_⟩
  · rw [lockAfter, requestOn, hop, Option.bind_some, if_neg (Ne.symm hne)]
    rfl
  · rw [lockAfter, requestOn, hop, Option.bind_some, if_pos rfl]
    rfl

/-- The step lemma of operations on one mutex. -/
theorem Stepped.of_mutex {op : ThreadOp} {value : Option Bool} {m : UInt32}
    {r : FifoLock.Request UInt32} {l : FifoLock UInt32}
    (hop : mutexRequest s.currentThread op = some (m, r))
    (haction : actionOn s.currentThread op = none) (hl : (s.lockOf queued m).step r = l)
    (hinv : s'.Inv ring reap waiting (Function.update queued m l.queue))
    (hholder : s'.holder m = l.holder) (hothers : ∀ m', m' ≠ m → s'.mutexes m' = s.mutexes m')
    (hevents : s'.events = s.events)
    (hwaits : ∀ t, s'.waitOf ring waiting t = s.waitOf ring waiting t)
    (hlife : LivesOn s ring op s' ring)
    (hcalls : ∀ t m', s'.calls t = .lock m' → s.calls t = .lock m' ∨ op = .mutexLock m')
    (hhanded : ∀ t ∈ queued m, t ∉ l.queue → (s'.threads t).state = .ready) :
    Stepped s ring waiting queued op value s' ring waiting := by
  obtain ⟨hother, hself⟩ := lockAfter_eq queued hop
  have hqueues : (fun m' => (s.lockAfter queued op m').queue) =
    Function.update queued m l.queue := by
    funext m'
    by_cases heq : m' = m
    · rw [heq, hself, hl, Function.update_self]
    · rw [hother m' heq, Function.update_of_ne heq]
      rfl
  refine ⟨⟨reap, hqueues ▸ hinv⟩, fun m' => ?_, ?_, hlife, hcalls, fun m' t ht hout => ?_⟩
  · by_cases heq : m' = m
    · rw [heq, hself, hl]
      exact hholder
    · rw [hother m' heq, SchedulerState.holder, hothers m' heq]
      rfl
  · rw [haction]
    exact congrArg some (signals_eq (fun e => by rw [hevents]; rfl) hwaits).symm
  · by_cases heq : m' = m
    · subst heq
      rw [hself, hl] at hout
      exact hhanded t ht hout
    · rw [hother m' heq] at hout
      exact absurd ht hout

theorem holder_eq_none {m : UInt32} (h : (s.mutexes m).locked = false) : s.holder m = none := by
  unfold holder
  rw [h]
  rfl

theorem holder_ne_none {m : UInt32} (h : (s.mutexes m).locked = true) : s.holder m ≠ none := by
  unfold holder
  rw [if_pos h]
  exact nofun

theorem Inv.take_stepped {op : ThreadOp} {value : Option Bool} {m : UInt32}
    {r : FifoLock.Request UInt32} (h : s.Inv ring reap waiting queued)
    (hop : mutexRequest s.currentThread op = some (m, r))
    (haction : actionOn s.currentThread op = none) (hlocked : (s.mutexes m).locked = false)
    (hr : (s.lockOf queued m).step r = { holder := some s.currentThread, queue := queued m }) :
    Stepped s ring waiting queued op value
      (s.setMutex m fun mutex => { mutex with locked := true, owner := s.currentThread }) ring
        waiting := by
  have hself : (s.setMutex m fun mutex =>
      { mutex with locked := true, owner := s.currentThread }).mutexes m =
        { s.mutexes m with locked := true, owner := s.currentThread } := Function.update_self ..
  have hinv := h.take hlocked s.currentThread
  rw [← Function.update_eq_self m queued] at hinv
  refine .of_mutex hop haction hr hinv ?_ (fun m' hne => Function.update_of_ne hne _ _) rfl
    (fun _ => rfl) (.of_alive (fun _ ht _ => ht) fun _ _ => Iff.rfl) (fun _ _ => .inl)
    fun t ht hout => absurd ht hout
  unfold SchedulerState.holder
  rw [hself]
  rfl

theorem Inv.mutexLock_stepped (h : s.Inv ring reap waiting queued)
    (hex : s.Executing) (m : UInt32) :
    Stepped s ring waiting queued (.mutexLock m) none (s.mutexLock m) ring waiting := by
  by_cases hm : m = 0
  · have hnone : ∀ c, mutexRequest c (.mutexLock m) = none := fun _ => if_pos hm
    have hrun : s.mutexLock m = s := if_pos hm
    rw [hrun]
    exact h.same_stepped (lockAfter_none hnone) rfl
  · have hop : mutexRequest s.currentThread (.mutexLock m) = some (m, .acquire s.currentThread) :=
      if_neg hm
    cases hlocked : (s.mutexes m).locked with
    | false =>
        have hrun : s.mutexLock m =
            s.setMutex m fun mutex => { mutex with locked := true, owner := s.currentThread } := by
          unfold SchedulerState.mutexLock
          rw [if_neg hm, if_pos hlocked]
        rw [hrun]
        exact h.take_stepped hop rfl hlocked (if_pos (holder_eq_none hlocked))
    | true =>
        have hruns := h.runsCode hex
        have hq := h.locks.mutexLock_queued hm hlocked (hruns.notQueued m)
          h.queues.current_ne_zero
        have hl : (s.lockOf queued m).step (.acquire s.currentThread) =
            { s.lockOf queued m with queue := queued m ++ [s.currentThread] } :=
          if_neg (holder_ne_none hlocked)
        refine .of_mutex hop rfl hl (h.lockQueued hruns hq hlocked) ?_ hq.enqueued.mutexes hq.events
          (fun t => ?_) (.of_blocks ⟨hm, hlocked⟩ ?_ fun t ht => ?_) (fun t m' hlock => ?_)
          fun t ht hout => ?_
        · unfold SchedulerState.holder
          rw [hq.enqueued.locked, hq.enqueued.owner]
          rfl
        · by_cases heq : t = s.currentThread
          · subst heq
            refine waitOf_eq_none (fun e => ?_) fun e => ?_
            · rw [hruns.call]
              rintro ⟨⟩
            · rw [hq.call]
              rintro ⟨⟩
          · refine waitOf_congr ?_ (hq.changes.calls t heq) fun _ => Iff.rfl
            rw [Alive, hq.changes.threads t heq]
        · rw [Alive, hq.state]
          rintro ⟨⟩
        · rw [Alive, hq.changes.threads t ht]
        · by_cases heq : t = s.currentThread
          · rw [heq, hq.call] at hlock
            exact .inr (congrArg ThreadOp.mutexLock (Call.lock.inj hlock))
          · exact .inl ((hq.changes.calls t heq).symm.trans hlock)
        · exact absurd (List.mem_append_left _ ht) hout

theorem Inv.mutexTrylock_stepped (h : s.Inv ring reap waiting queued) (m : UInt32) :
    Stepped s ring waiting queued (.mutexTrylock m) (some (s.mutexTrylock m).1)
      (s.mutexTrylock m).2 ring waiting := by
  by_cases hm : m = 0
  · have hnone : ∀ c, mutexRequest c (.mutexTrylock m) = none := fun _ => if_pos hm
    have hrun : s.mutexTrylock m = (false, s) := if_pos hm
    rw [hrun]
    exact h.same_stepped (lockAfter_none hnone) rfl
  · have hop : mutexRequest s.currentThread (.mutexTrylock m) =
      some (m, .attempt s.currentThread) :=
      if_neg hm
    cases hlocked : (s.mutexes m).locked with
    | false =>
        have hrun : s.mutexTrylock m = (true,
            s.setMutex m fun mutex => { mutex with locked := true, owner := s.currentThread }) := by
          unfold SchedulerState.mutexTrylock
          rw [if_neg hm, if_pos hlocked]
        rw [hrun]
        exact h.take_stepped hop rfl hlocked (if_pos (holder_eq_none hlocked))
    | true =>
        have hnot : ¬ (s.mutexes m).locked = false := by
          rw [hlocked]
          exact nofun
        have hrun : s.mutexTrylock m = (false, s) := by
          unfold SchedulerState.mutexTrylock
          rw [if_neg hm, if_neg hnot]
        rw [hrun]
        refine h.same_stepped (fun m' => ?_) rfl
        obtain ⟨hother, hself⟩ := lockAfter_eq queued hop
        by_cases heq : m' = m
        · rw [heq, hself]
          exact if_neg (holder_ne_none hlocked)
        · exact hother m' heq

theorem Inv.mutexUnlock_stepped (h : s.Inv ring reap waiting queued) (hex : s.Executing)
    (m : UInt32) :
    Stepped s ring waiting queued (.mutexUnlock m) none (s.mutexUnlock m) ring waiting := by
  by_cases hm : m = 0
  · have hnone : ∀ c, mutexRequest c (.mutexUnlock m) = none := fun _ => if_pos hm
    have hrun : s.mutexUnlock m = s := if_pos hm
    rw [hrun]
    exact h.same_stepped (lockAfter_none hnone) rfl
  · have hop : mutexRequest s.currentThread (.mutexUnlock m) = some (m, .release s.currentThread) :=
      if_neg hm
    by_cases hown : (s.mutexes m).owner = s.currentThread
    · have hlocked : (s.mutexes m).locked = true := by
        cases hfree : (s.mutexes m).locked with
        | true => rfl
        | false =>
            have hnull := (h.locks.unlocked m hfree).2
            exact absurd (hown.symm.trans hnull) h.queues.current_ne_zero
      have hholder : s.holder m = some s.currentThread := by
        unfold SchedulerState.holder
        rw [if_pos hlocked, hown]
      have hl : (s.lockOf queued m).step (.release s.currentThread) =
          { holder := (queued m).head?, queue := (queued m).tail } := if_pos hholder
      cases hq : queued m with
      | nil =>
          rw [h.locks.mutexUnlock_free hm hown hq]
          rw [hq] at hl
          have hinv := h.release hq hown hex.2.2
          rw [← Function.update_eq_self m queued, hq] at hinv
          refine .of_mutex hop rfl hl hinv ?_ (fun m' hne => Function.update_of_ne hne _ _) rfl
            (fun _ => rfl) (.of_alive (fun _ ht _ => ht) fun _ _ => Iff.rfl) (fun _ _ => .inl)
            fun t ht _ => ?_
          · apply holder_eq_none
            rw [mutexes_setMutex, Function.update_self]
          · rw [hq] at ht
            cases ht
      | cons x rest =>
          have hh := h.locks.mutexUnlock_handed hm hown hq
          rw [hq] at hl
          have hblocked := (h.locks.node m x (hq ▸ List.mem_cons_self)).2.2.1
          have halive : ∀ t, (s.mutexUnlock m).Alive t ↔ s.Alive t := by
            intro t
            by_cases heq : t = x
            · subst heq
              refine iff_of_true (fun hdead => ?_) fun hdead => ?_
              · rw [hh.block] at hdead
                cases hdead
              · rw [hblocked] at hdead
                cases hdead
            · rw [Alive, hh.changes.threads t heq]
          refine .of_mutex hop rfl hl (h.handedOver hq hh hown hex.2.2) ?_ hh.mutexes hh.events
            (fun t => ?_) (.of_alive (fun _ ht _ => ht) fun t _ => halive t) (fun t m' hlock => ?_)
            fun t ht hout => ?_
          · unfold SchedulerState.holder
            rw [hh.mutex]
            exact if_pos hlocked
          · refine waitOf_congr ?_ (congrFun hh.calls t) fun _ => Iff.rfl
            rw [halive]
          · exact .inl ((congrFun hh.calls t).symm.trans hlock)
          · rw [hq] at ht
            rcases List.mem_cons.mp ht with rfl | hin
            · rw [hh.block]
            · exact absurd hin hout
    · have hrun : s.mutexUnlock m = s := by
        unfold SchedulerState.mutexUnlock
        rw [if_neg hm, if_pos hown]
      rw [hrun]
      refine h.same_stepped (fun m' => ?_) rfl
      obtain ⟨hother, hself⟩ := lockAfter_eq queued hop
      by_cases heq : m' = m
      · rw [heq, hself]
        refine if_neg fun hholder => ?_
        unfold SchedulerState.lockOf SchedulerState.holder at hholder
        dsimp only at hholder
        split at hholder
        · exact hown (Option.some.inj hholder)
        · cases hholder
      · exact hother m' heq

/-! ## Every step -/

/-- A step that can happen comes to its end and keeps the invariant. -/
theorem Inv.step {op : ThreadOp} (h : s.Inv ring reap waiting queued) (hen : s.Enabled op)
    (hkill : s.KillsSafely op) :
    ∃ value s' ring' waiting',
      s.step op = some ({ thread := s.currentThread, value }, s') ∧
        (∀ t ∈ ring', t ∈ ring ∨ s.allocated t = false) ∧
        Stepped s ring waiting queued op value s' ring' waiting' := by
  have hreturns : ∀ {value s'}, s.perform op = some (value, s') →
      s.step op = some ({ thread := s.currentThread, value }, s') := by
    intro value s' hrun
    unfold SchedulerState.step
    rw [hrun]
    rfl
  have hsame : ∀ t ∈ ring, t ∈ ring ∨ s.allocated t = false := fun t ht => .inl ht
  cases op with
  | create t stackBase esp priority now =>
      obtain ⟨-, hnull, hfree⟩ := hen
      obtain ⟨s', hrun, hstep⟩ := h.create_stepped hnull hfree stackBase esp priority now
      refine ⟨none, s', _, _, hreturns (by rw [perform, hrun]; rfl), fun u hu => ?_, hstep⟩
      rcases List.mem_append.mp hu with hin | heq
      · exact .inl hin
      · exact .inr (List.mem_singleton.mp heq ▸ hfree)
  | tick esp now =>
      obtain ⟨esp', s', ring', hrun, hsub, hstep⟩ :=
        h.handler_stepped (.tick esp now) rfl (fun _ => rfl) (fun _ => rfl) esp now
      exact ⟨none, s', _, _, hreturns (by rw [perform, hrun]; rfl),
        fun t ht => .inl (hsub ht), hstep⟩
  | yield esp now =>
      obtain ⟨esp', s', ring', hrun, hsub, hstep⟩ :=
        h.handler_stepped (.yield esp now) s.yielding_core (fun _ => rfl) (fun _ => rfl) esp now
      exact ⟨none, s', _, _, hreturns (by rw [perform, threadYield_eq, hrun]; rfl),
        fun t ht => .inl (hsub ht), hstep⟩
  | sleep ms now => exact ⟨_, _, _, _, hreturns rfl, hsame, h.sleep_stepped hen ms now⟩
  | eventWait e timeoutMs now =>
      obtain ⟨waiting', hstep⟩ := h.eventWait_stepped hen e timeoutMs now
      exact ⟨_, _, _, _, hreturns rfl, hsame, hstep⟩
  | eventSignal e =>
      obtain ⟨s', waiting', hrun, hstep⟩ := h.eventSignal_stepped e
      exact ⟨none, s', _, _, hreturns (by rw [perform, hrun]; rfl), hsame, hstep⟩
  | mutexLock m => exact ⟨_, _, _, _, hreturns rfl, hsame, h.mutexLock_stepped hen m⟩
  | mutexTrylock m => exact ⟨_, _, _, _, hreturns rfl, hsame, h.mutexTrylock_stepped m⟩
  | mutexUnlock m => exact ⟨_, _, _, _, hreturns rfl, hsame, h.mutexUnlock_stepped hen m⟩
  | resume =>
      obtain ⟨value, s', waiting', hrun, hstep⟩ := h.resume_stepped hen
      exact ⟨_, _, _, _, hreturns hrun, hsame, hstep⟩
  | exit => exact ⟨_, _, _, _, hreturns rfl, hsame, h.exit_stepped hen⟩
  | kill t =>
      have hidle : t ≠ s.idleThread := by
        rintro rfl
        exact h.processes hen.2.2
      obtain ⟨s', hrun, hstep⟩ := h.kill_stepped hidle hkill
      exact ⟨none, s', _, _, hreturns (by rw [perform, hrun]; rfl), hsame, hstep⟩

/-! ## The first state -/

theorem init_inv {mainThread idle idleStack idleEsp : UInt32} {now : UInt64}
    (hmain : mainThread ≠ 0)
    (hidle : idle ≠ 0) (hne : mainThread ≠ idle) :
    (init mainThread idle idleStack idleEsp now).Inv [mainThread] [] (fun _ => []) fun _ => [] := by
  have hself : (init mainThread idle idleStack idleEsp now).threads mainThread =
      { ThreadBlock.new .running 0 0 .normal now with next := mainThread } :=
    (Function.update_of_ne hne _ _).trans (Function.update_self ..)
  have hidleBlock : (init mainThread idle idleStack idleEsp now).threads idle =
      ThreadBlock.new .ready idleStack idleEsp .idle now := Function.update_self ..
  have hevents : ∀ t, ((init mainThread idle idleStack idleEsp now).threads t).waitEvent = 0 := by
    intro t
    by_cases htIdle : t = idle
    · rw [htIdle, hidleBlock]
      rfl
    · by_cases htMain : t = mainThread
      · rw [htMain, hself]
        rfl
      · have hzero : (init mainThread idle idleStack idleEsp now).threads t = ThreadBlock.zero :=
          (Function.update_of_ne htIdle _ _).trans (Function.update_of_ne htMain _ _)
        rw [hzero]
        rfl
  have hphases : phases [LifeEvent.created mainThread] =
      Function.update (fun _ => .absent) mainThread .queued := rfl
  refine ⟨⟨?_, Chain.nil 0 _, fun t ht => absurd ht List.not_mem_nil,
    fun _ _ => List.not_mem_nil, ?_, .inr List.mem_cons_self, ⟨?_, ?_⟩⟩, ⟨?_, ?_, ?_, ?_⟩,
    ⟨fun _ => Chain.nil 0 _, ?_, fun t _ => hevents t, fun _ t ht => absurd ht List.not_mem_nil,
      fun _ _ _ _ hcall => (by cases hcall), fun _ _ => rfl⟩,
    ⟨fun _ => Chain.nil 0 _, fun _ => rfl, fun _ t ht => absurd ht List.not_mem_nil,
      fun _ _ => ⟨rfl, rfl⟩, fun _ _ _ _ hcall => (by cases hcall)⟩, List.not_mem_nil⟩
  · apply Ring.single hmain
    exact congrArg ThreadBlock.next hself
  · exact ⟨hidle, fun hmem => hne (List.mem_singleton.mp hmem).symm, List.not_mem_nil⟩
  · exact fun t ht _ => List.mem_singleton.mp ht
  · refine (congrArg ThreadBlock.state hidleBlock).trans ?_
    exact (if_neg hne).symm
  · exact ⟨rfl, trivial⟩
  · intro t
    change phases [LifeEvent.created mainThread] t = _ ↔ _
    rw [hphases, List.mem_singleton]
    by_cases heq : t = mainThread
    · rw [heq, Function.update_self]
      exact iff_of_true rfl rfl
    · rw [Function.update_of_ne heq]
      exact iff_of_false nofun heq
  · intro t
    change phases [LifeEvent.created mainThread] t = _ ↔ _
    rw [hphases]
    by_cases heq : t = mainThread
    · rw [heq, Function.update_self]
      exact iff_of_false nofun List.not_mem_nil
    · rw [Function.update_of_ne heq]
      exact iff_of_false nofun List.not_mem_nil
  · rintro t (ht | ht | rfl)
    · exact decide_eq_true (.inl (List.mem_singleton.mp ht))
    · cases ht
    · exact decide_eq_true (.inr rfl)
  · intro e t
    refine iff_of_false List.not_mem_nil fun hwait => hwait.2.1 ?_
    rw [← hwait.2.2, hevents]

end SchedulerState

end AvrKernel.Scheduler

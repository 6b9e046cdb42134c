import AvrKernel.Scheduler.Rotation

/-!
# Starvation

The boost bounds the wait of every thread from the point on at which the last thread
came or went. The wait that a thread has behind it at this point is bounded by the
threads that there were before.
-/

namespace AvrKernel.Scheduler

open Linked

namespace SchedulerState

variable {s s' : SchedulerState} {ring reap : List UInt32} {t : UInt32} {since now : UInt64}
  {waiting queued : UInt32 → List UInt32} {op : ThreadOp} {esp : UInt32}

/-- `thread_get_count`: the threads of the ring that live. -/
def threadGetCount (s : SchedulerState) : Option Nat :=
  if s.threadQueue = 0 then some 0
  else
    foldRing (fun count t => if (s.threads t).state ≠ .dead then count + 1 else count) s.next
      s.threadQueue addressSpace s.threadQueue 0

theorem foldl_count (s : SchedulerState) (l : List UInt32) (count : Nat) :
    l.foldl (fun count t => if s.Alive t then count + 1 else count) count =
      count + (l.filter fun t => s.Alive t).length := by
  induction l generalizing count with
  | nil => rfl
  | cons t l ih =>
      rw [List.foldl_cons, ih]
      rw [List.filter_cons]
      by_cases hlive : s.Alive t
      · rw [if_pos hlive, if_pos (decide_eq_true hlive), List.length_cons]
        omega
      · rw [if_neg hlive, if_neg fun hin => hlive (of_decide_eq_true hin)]

theorem threadGetCount_eq (h : Ring 0 s.next s.threadQueue ring) :
    s.threadGetCount = some (ring.filter fun t => s.Alive t).length := by
  unfold threadGetCount
  by_cases hnil : ring = []
  · rw [if_pos (h.empty hnil), hnil]
    rfl
  · rw [if_neg fun hhead => hnil (h.head_eq_null.mp hhead),
      h.fold hnil 0 (length_lt_addressSpace h.nodup h.valid).le]
    exact congrArg some ((s.foldl_count ring 0).trans (Nat.zero_add _))

/-! ## The quanta -/

theorem quanta_init (mainThread idle idleStack idleEsp : UInt32) (now : UInt64) (t : UInt32) :
    ((init mainThread idle idleStack idleEsp now).threads t).ticksRemaining ≤ 5 := by
  unfold init
  dsimp only
  by_cases hidle : t = idle
  · subst hidle
    rw [Function.update_self]
    exact ThreadPriority.value_le .idle
  · rw [Function.update_of_ne hidle]
    by_cases hmain : t = mainThread
    · subst hmain
      rw [Function.update_self]
      exact ThreadPriority.value_le .normal
    · rw [Function.update_of_ne hmain]
      decide

theorem Inv.quanta_handler (h : s.Inv ring reap waiting queued)
    (hquanta : ∀ t, (s.threads t).ticksRemaining ≤ 5) {esp' : UInt32}
    (hrun : s.threadHandlerC esp now = some (esp', s')) (t : UInt32) :
    (s'.threads t).ticksRemaining ≤ 5 := by
  by_cases hnil : ring = []
  · unfold threadHandlerC at hrun
    rw [if_pos (.inl (h.queues.queue.empty hnil))] at hrun
    obtain ⟨-, rfl⟩ := Prod.mk.inj (Option.some.inj hrun)
    exact hquanta t
  · obtain ⟨s₂, goesOn, hhandler, hprepared⟩ := h.linkage.prepared hnil esp now
    rw [hhandler] at hrun
    rcases (h.linkage.timed hprepared hrun).quanta t with hle | hle
    · exact UInt32.le_trans hle (hquanta t)
    · exact hle

/-- No quantum is longer than the longest one. -/
theorem Inv.quanta (h : s.Inv ring reap waiting queued) (hen : s.Enabled op)
    (hquanta : ∀ t, (s.threads t).ticksRemaining ≤ 5) {value : Option Bool}
    (hrun : s.perform op = some (value, s')) (t : UInt32) : (s'.threads t).ticksRemaining ≤ 5 := by
  cases op with
  | create x stackBase esp priority now =>
      obtain ⟨s₁, hcreate, hlast⟩ := Option.bind_eq_some_iff.mp hrun
      obtain ⟨-, rfl⟩ := Prod.mk.inj (Option.some.inj hlast)
      obtain ⟨hnew, -, -⟩ := h.linkage.fresh hen.2.2
      obtain ⟨s₂, hcreate', hc⟩ :=
        threadCreate_eq h.queues.queue hnew hen.2.1 stackBase esp priority now
      obtain rfl := Option.some.inj (hcreate.symm.trans hcreate')
      by_cases heq : t = x
      · rw [heq, threadCreate_block hcreate]
        exact ThreadPriority.value_le priority
      · rw [hc.blocks t heq]
        exact hquanta t
  | tick esp now =>
      obtain ⟨⟨esp', s₁⟩, hhandler, hlast⟩ := Option.bind_eq_some_iff.mp hrun
      obtain ⟨-, rfl⟩ := Prod.mk.inj (Option.some.inj hlast)
      exact h.quanta_handler hquanta hhandler t
  | yield esp now =>
      obtain ⟨⟨esp', s₁⟩, hhandler, hlast⟩ := Option.bind_eq_some_iff.mp hrun
      obtain ⟨-, rfl⟩ := Prod.mk.inj (Option.some.inj hlast)
      refine (h.congr s.yielding_core).quanta_handler (fun u => ?_) hhandler t
      exact UInt32.le_trans (s.frame_yielding.blocks u).quantum (hquanta u)
  | _ => exact UInt32.le_trans ((perform_frame hrun fun hop => hop).blocks t).quantum (hquanta t)

/-! ## A step without creations and deaths -/

/-- A step that can happen, in time, and that neither creates nor ends a thread, nor brings a
killed one back. -/
def Steady (s : SchedulerState) (op : ThreadOp) : Prop :=
  s.SafeRules op ∧ s.OnTime op ∧ ThreadOp.KeepsThreads op ∧ s.KilledStaysUp op

instance (s : SchedulerState) (op : ThreadOp) : Decidable (s.Steady op) :=
  inferInstanceAs (Decidable (_ ∧ _ ∧ _ ∧ _))

/-- The threads of `live` are those that live, and none of them has waited for too long. -/
def Settled (s : SchedulerState) (live : List UInt32) (since : UInt64) : Prop :=
  ∃ ring reap waiting queued, s.Inv ring reap waiting queued ∧ s.Served ring since ∧
    ring.filter (fun t => s.Alive t) = live

theorem Inv.steady_handler (h : s.Inv ring reap waiting queued) (hserved : s.Served ring since)
    (hlater : s.schedLastMs ≤ now) (hsoon : now.toNat ≤ s.schedLastMs.toNat + 1)
    (hprev : s.schedLastMs = since ∨ (s.threads s.currentThread).found now ≠ .ready)
    (esp : UInt32) :
    ∃ esp' s', s.threadHandlerC esp now = some (esp', s') ∧
      s'.Settled (ring.filter fun t => s.Alive t) since := by
  obtain ⟨esp', s', reap', hrun, hinv, hprogress, -, hcases⟩ := h.handler esp now
  refine ⟨esp', s', hrun, _, reap', waiting, queued, hinv, ?_, ?_⟩
  · rcases hcases with ⟨rfl, rfl⟩ | ⟨hne, -, hhandled⟩
    · exact hserved
    · exact hserved.entered h.linkage hne hlater hsoon hprev hrun
        (hinv.current_awake hhandled.best)
  · apply List.filter_eq_self.mpr
    intro t ht
    have hlive := ((s.mem_alive ring t).mp ht).2
    exact decide_eq_true ((not_congr (hprogress t).dead).mpr hlive)

theorem outside_yielding (s : SchedulerState) : Outside s s.yielding := by
  unfold yielding
  split
  · exact ((SameStates.refl s).setThread _ (by exact fun _ => ⟨rfl, rfl⟩)).outside id
  · exact .refl s

/-- A steady step comes to its end. -/
theorem Inv.steady (h : s.Inv ring reap waiting queued) (hserved : s.Served ring since)
    (hok : s.Steady op) :
    ∃ reply s', s.step op = some (reply, s') ∧
      s'.Settled (ring.filter fun t => s.Alive t) since := by
  obtain ⟨hrules, htime, hkeeps, hstays⟩ := hok
  by_cases haccounts : ThreadOp.Accounts op
  · cases op with
    | create => exact hkeeps.elim
    | tick esp now =>
        have hprev : s.schedLastMs = since ∨ (s.threads s.currentThread).found now ≠ .ready := by
          refine hserved.atWork.imp_right fun hwork => ?_
          rw [found_of_awake (hwork.awake hrules.1)]
          exact hwork.not_ready
        obtain ⟨esp', s', hrun, hsettled⟩ :=
          h.steady_handler hserved htime.1 htime.2 hprev esp
        exact ⟨_, s', step_tick hrun, hsettled⟩
    | yield esp now =>
        obtain rfl : now = s.schedLastMs := htime
        have hframe := s.frame_yielding
        have hyield := hserved.frame hframe s.outside_yielding
        have hprev := hyield.atWork.imp_right fun hwork => hwork.found
        have hclock := hframe.clock
        obtain ⟨esp', s', hrun, hsettled⟩ := (h.congr s.yielding_core).steady_handler hyield
          (UInt64.le_refl _) (Nat.le_succ _) hprev esp
        rw [hclock] at hrun
        have hlive : ring.filter (fun t => s.yielding.Alive t) =
          ring.filter fun t => s.Alive t := by
          apply List.filter_congr
          intro t _
          have hstate := core_state s.yielding_core t
          simp only [Alive, hstate]
        exact ⟨_, s', step_yield hrun, hlive ▸ hsettled⟩
    | _ => exact haccounts.elim
  · obtain ⟨value, s', ring', waiting', hstep, -, hstepped⟩ := h.step hrules.1 hrules.2
    obtain ⟨reap', hinv⟩ := hstepped.inv
    obtain ⟨⟨value', s₁⟩, hperform, hreturn⟩ := Option.bind_eq_some_iff.mp hstep
    obtain ⟨-, rfl⟩ := Prod.mk.inj (Option.some.inj hreturn)
    have hframe := perform_frame hperform haccounts
    have hout := h.outside_handler hrules.1 htime hkeeps haccounts hperform
    obtain rfl := (h.linkage.frame hframe).queue.unique hinv.queues.queue
    refine ⟨_, s₁, hstep, ring, reap', waiting', _, hinv, hserved.frame hframe hout, ?_⟩
    apply List.filter_congr
    intro t ht
    have hlive : s₁.Alive t ↔ s.Alive t := by
      refine ⟨fun hafter => ?_, hout.alive t⟩
      by_contra hdead
      exact hstepped.life.dead hstays t ht (not_not.mpr hdead) hafter
    simp only [hlive]

theorem Settled.step {live : List UInt32} (h : s.Settled live since) (hok : s.Steady op) :
    ∃ reply s', s.step op = some (reply, s') ∧ s'.Settled live since := by
  obtain ⟨ring, reap, waiting, queued, hinv, hserved, rfl⟩ := h
  exact hinv.steady hserved hok

/-! ## Runs -/

/-- The state of a run, with quanta that are in their bounds. -/
def Sane (s : SchedulerState) : Prop :=
  (∃ ring reap waiting queued, s.Inv ring reap waiting queued) ∧
    ∀ t, (s.threads t).ticksRemaining ≤ 5

theorem Sane.step {reply : Reply} (h : s.Sane) (hok : s.SafeRules op)
    (hstep : s.step op = some (reply, s')) : s'.Sane := by
  obtain ⟨⟨ring, reap, waiting, queued, hinv⟩, hquanta⟩ := h
  obtain ⟨value', s'', ring', waiting', hstep', -, hstepped⟩ := hinv.step hok.1 hok.2
  obtain ⟨reap', hinv'⟩ := hstepped.inv
  obtain ⟨-, rfl⟩ := Prod.mk.inj (Option.some.inj (hstep.symm.trans hstep'))
  obtain ⟨⟨value, s₁⟩, hperform, hreturn⟩ := Option.bind_eq_some_iff.mp hstep
  obtain ⟨-, rfl⟩ := Prod.mk.inj (Option.some.inj hreturn)
  exact ⟨⟨_, _, _, _, hinv'⟩, hinv.quanta hok.1 hquanta hperform⟩

theorem run_sane {mainThread idle idleStack idleEsp : UInt32} {start : UInt64} {ops : List ThreadOp}
    {replies : List Reply} (hmain : mainThread ≠ 0) (hidle : idle ≠ 0) (hne : mainThread ≠ idle)
    (hok : Trace.Permitted SchedulerState.step SafeRules
      (init mainThread idle idleStack idleEsp start) ops)
    (hrun : Trace.run SchedulerState.step (init mainThread idle idleStack idleEsp start) ops =
      some (replies, s)) : s.Sane := by
  have hfirst : (init mainThread idle idleStack idleEsp start).Sane :=
    ⟨⟨_, _, _, _, init_inv hmain hidle hne⟩, quanta_init _ _ _ _ _⟩
  exact Trace.run_preserves (fun _ _ _ _ => Sane.step) hfirst hok hrun

/-- No thread that wants the CPU has waited for longer than `n` live threads may make it
wait, from `since` on. -/
def WaitsInBound (s : SchedulerState) (since : UInt64) (n : Nat) : Prop :=
  ∀ t, s.InRing t → (s.threads t).state = .ready →
    s.waited since t ≤ schedStarvationMs.toNat + 5 * n + 1

/-- From the point on at which the last thread came or went. -/
theorem run_waits {mainThread idle idleStack idleEsp : UInt32} {start : UInt64}
    {before after : List ThreadOp} {replies : List Reply} {s : SchedulerState}
    (hmain : mainThread ≠ 0)
    (hidle : idle ≠ 0) (hne : mainThread ≠ idle)
    (hbefore : Trace.Permitted SchedulerState.step SafeRules
      (init mainThread idle idleStack idleEsp start) before)
    (hrun : Trace.run SchedulerState.step (init mainThread idle idleStack idleEsp start) before =
      some (replies, s))
    (hafter : Trace.Permitted SchedulerState.step Steady s after) :
    ∃ n replies' s', s.threadGetCount = some n ∧
      Trace.run SchedulerState.step s after = some (replies', s') ∧
      s'.threadGetCount = some n ∧ s'.WaitsInBound s.schedLastMs n := by
  obtain ⟨⟨ring, reap, waiting, queued, hinv⟩, hquanta⟩ := run_sane hmain hidle hne hbefore hrun
  have hsettled : s.Settled (ring.filter fun t => s.Alive t) s.schedLastMs :=
    ⟨ring, reap, waiting, queued, hinv, .start hquanta, rfl⟩
  obtain ⟨replies', s', hrun', ring', reap', waiting', queued', hinv', hserved, hlive⟩ :=
    Trace.run_returns (fun _ _ => Settled.step) hsettled hafter
  refine ⟨_, replies', s', threadGetCount_eq hinv.queues.queue, hrun', ?_, fun t ht hready => ?_⟩
  · rw [threadGetCount_eq hinv'.queues.queue, hlive]
  · have hbound := hserved.bound ((hinv'.lives.queued t).mp ht) hready
    have hhundred : schedStarvationMs.toNat = 100 := rfl
    rw [hlive] at hbound
    omega

/-- Two threads of which one creates the other, and only one of them is ready. -/
def pair : List ThreadOp :=
  [.create 3 0 0 .realtime 0, .yield 0 0]

theorem run_waits_pair : ∃ (replies replies' : List Reply) (s s' : SchedulerState),
    Trace.run SchedulerState.step (init 1 2 0 0 0) pair = some (replies, s) ∧
      Trace.run SchedulerState.step s [.tick 0 1, .tick 0 2] = some (replies', s') ∧
      s'.WaitsInBound s.schedLastMs 2 := by
  have hreturns : (Trace.run SchedulerState.step (init 1 2 0 0 0) pair).map (fun x =>
      decide (Trace.Permitted SchedulerState.step Steady x.2 [.tick 0 1, .tick 0 2] ∧
        x.2.threadGetCount = some 2)) = some true := by decide +kernel
  obtain ⟨⟨replies, s⟩, hrun, hsteady⟩ := Option.map_eq_some_iff.mp hreturns
  obtain ⟨hsteady, hcount⟩ := of_decide_eq_true hsteady
  obtain ⟨n, replies', s', hcount', hrun', -, hbound⟩ :=
    run_waits (by decide) (by decide) (by decide) (by decide +kernel) hrun hsteady
  obtain rfl := Option.some.inj (hcount'.symm.trans hcount)
  exact ⟨replies, replies', s, s', hrun, hrun', hbound⟩

/-! ## The wait that lies behind a thread -/

/-- At the end of a rotation the last thread kills the others but one, and goes on. -/
theorem Rotates.outlives {m d : UInt32} {l : List UInt32} {ticks : UInt32}
    (h : s.Rotates (m :: l) d [] ticks now) (hmore : ticks > 1) (hrealtime : (s.account d).Realtime)
    (hlisted : ∀ t ∈ l, t ∈ s.processThreads) (hnow : now.toNat + 1 < 2 ^ 64) :
    ∃ s₁ reply s', Trace.Reaches SchedulerState.step Timely s s₁ ∧
      s₁.Steady (.tick 0 (now + 1)) ∧ s₁.step (.tick 0 (now + 1)) = some (reply, s') ∧
      s'.threadGetCount = some 2 ∧ s'.InRing m ∧ (s'.threads m).state = .ready ∧
      (s'.threads m).waitMarkMs = (s.threads m).waitMarkMs ∧ s'.schedLastMs = now + 1 := by
  obtain ⟨reap, waiting, queued, hinv⟩ := h.inv
  obtain rfl := h.current
  obtain rfl := h.ticks
  have hnodup := h.nodup
  rw [List.cons_append, List.nodup_cons] at hnodup
  obtain ⟨hfirst, hnodup⟩ := hnodup
  rw [List.mem_append, not_or, List.mem_singleton] at hfirst
  obtain ⟨hm, hmd⟩ := hfirst
  rw [List.nodup_middle, List.append_nil, List.nodup_cons] at hnodup
  obtain ⟨hd, hl⟩ := hnodup
  obtain ⟨s₁, hreach, ⟨reap₁, waiting₁, queued₁, hinv₁⟩, hcurrent, hclock, hcalls,
    hothers, hdead⟩ :=
    hinv.killAll (by simp) h.calls hl fun t ht => by
      have hin : t ∈ m :: l := List.mem_cons_of_mem m ht
      exact ⟨List.mem_append_left _ hin, h.ready t (List.mem_append_left _ hin), hlisted t ht⟩
  have hself := hothers _ hd
  have hready : (s₁.threads m).state = .ready := by
    rw [hothers m hm]
    exact h.ready m List.mem_cons_self
  have hruns : (s₁.threads s.currentThread).state = .running := hself ▸ h.running
  have hlive : (m :: l ++ [s.currentThread]).filter (fun t => s₁.Alive t) =
      [m, s.currentThread] := by
    have hnone : l.filter (fun t => s₁.Alive t) = [] := by
      rw [List.filter_eq_nil_iff]
      intro t ht
      simpa using hdead t ht
    rw [List.cons_append, List.filter_cons, List.filter_append, hnone]
    simp [Alive, hready, hruns]
  -- the last thread has more of its quantum
  have hlevel : (s₁.account s.currentThread).Realtime := by
    rw [account, hself]
    exact hrealtime
  rw [← hself] at hmore
  rw [← hcurrent] at hruns hmore hlevel
  obtain ⟨esp', s', hrun, hentry, hsame, -⟩ :=
    hinv₁.continues (by rw [hcurrent]; simp) hruns hmore hlevel 0 (now + 1)
  obtain ⟨reap', hinv'⟩ := hentry.inv
  rw [hlive] at hinv'
  have hin : m ∈ m :: l ++ [s.currentThread] := List.mem_cons_self
  have hother : m ≠ s₁.currentThread := hcurrent.symm ▸ hmd
  have hfound := found_ready hready (now + 1)
  refine ⟨s₁, _, s', hreach, ⟨⟨?_, trivial⟩, ?_, trivial, fun _ => id⟩,
    step_tick hrun, ?_, ?_, ?_, ?_,
    hentry.timed.clock⟩
  · change s₁.calls s₁.currentThread = .none
    rw [hcalls, hcurrent]
    exact h.calls _ (by simp)
  · rw [OnTime, hclock]
    exact (h.timely hnow).2
  · rw [threadGetCount_eq hinv'.queues.queue, List.filter_eq_self.mpr]
    · rfl
    · intro t ht
      rw [← hlive, mem_alive] at ht
      exact decide_eq_true ((hentry.alive t).mpr ht.2)
  · exact (hinv'.lives.queued _).mpr List.mem_cons_self
  · exact ((hentry.timed.others m hin hother).2 (hsame.symm ▸ hother)).trans hfound
  · have hmark := hentry.timed.marks m hin (by rw [Alive, hready]; rintro ⟨⟩)
    rw [if_pos hfound] at hmark
    exact hmark.trans (congrArg ThreadBlock.waitMarkMs (hothers m hm))

/-- The main thread creates real-time threads, of which the last one kills the others
when its turn has come. -/
theorem exists_late (mainThread idle : UInt32) {d x : UInt32} {l : List UInt32}
    (hmain : mainThread ≠ 0)
    (hidle : idle ≠ 0) (hne : mainThread ≠ idle) (hnodup : (x :: (l ++ [d])).Nodup)
    (hfree : ∀ t ∈ x :: (l ++ [d]), t ≠ 0 ∧ t ≠ mainThread ∧ t ≠ idle)
    (htime : 5 * (l.length + 1) + 2 < 2 ^ 64) :
    ∃ s now reply s', Trace.Reaches SchedulerState.step Timely (init mainThread idle 0 0 0) s ∧
      s.Steady (.tick 0 now) ∧ s.step (.tick 0 now) = some (reply, s') ∧
      s'.threadGetCount = some 2 ∧ s'.InRing mainThread ∧
      (s'.threads mainThread).state = .ready ∧ (s'.threads mainThread).waitMarkMs = 0 ∧
      s'.schedLastMs.toNat = 5 * (l.length + 1) + 2 := by
  have hself : (init mainThread idle 0 0 0).threads mainThread =
      { ThreadBlock.new .running 0 0 .normal 0 with next := mainThread } :=
    (Function.update_of_ne hne _ _).trans (Function.update_self ..)
  -- the main thread creates the others
  have hfirst : (init mainThread idle 0 0 0).Rotates [] mainThread [] 3 0 := by
    refine ⟨⟨_, _, _, init_inv hmain hidle hne⟩, rfl, ?_, ?_, rfl, fun _ ht => absurd ht ?_,
      fun _ ht => absurd ht ?_, fun _ _ => rfl⟩
    · rw [hself]
      rfl
    · rw [hself]
      rfl
    · exact List.not_mem_nil
    · exact List.not_mem_nil
  obtain ⟨s₁, hreach₁, hrotates₁, hlist₁⟩ := hfirst.gather hnodup fun t ht => by
    obtain ⟨hnull, hother, hnotIdle⟩ := hfree t ht
    exact ⟨hnull, decide_eq_false (not_or.mpr ⟨hother, hnotIdle⟩)⟩
  -- they take turns
  obtain ⟨s₂, hreach₂, hrotates₂, hlevel₂, hlist₂, hmark₂⟩ := hrotates₁.yield
  obtain ⟨s₃, now₃, hreach₃, hrotates₃, htime₃, hlevel₃, hbehind₃⟩ :=
    hrotates₂.rounds hlevel₂ (by rw [UInt64.toNat_zero]; omega)
  rw [UInt64.toNat_zero] at htime₃
  obtain ⟨s₄, ticks₄, now₄, hreach₄, hrotates₄, hticks₄, htime₄, hlevel₄, hbehind₄⟩ :=
    hrotates₃.runsOn (n := 1) hlevel₃ (by decide) (by omega)
  have hfive : (5 : UInt32).toNat = 5 := rfl
  have hmore₄ : ticks₄ > 1 := by
    rw [gt_iff_lt, UInt32.lt_iff_toNat_lt, UInt32.toNat_one]
    omega
  have hlater : (now₄ + 1).toNat = now₄.toNat + 1 := by
    rw [UInt64.toNat_add, UInt64.toNat_one, Nat.mod_eq_of_lt (by omega)]
  -- and the last of them has the others killed
  obtain ⟨s₅, reply, s', hreach₅, hsteady, hstep, hcount, hin, hready, hmark, hclock⟩ :=
    hrotates₄.outlives (m := mainThread) (l := x :: l) hmore₄ hlevel₄
      (fun t ht => by
        rw [hbehind₄.processThreads, hbehind₃.processThreads, hlist₂]
        apply hlist₁
        left
        simp only [List.mem_cons, List.mem_append] at ht ⊢
        tauto)
      (by omega)
  refine ⟨s₅, now₄ + 1, reply, s',
    ((hreach₁.trans hreach₂).trans hreach₃).trans (hreach₄.trans hreach₅), hsteady,
      hstep, hcount, hin,
    hready, ?_, ?_⟩
  · rw [hmark, hbehind₄.marks mainThread (by simp), hbehind₃.marks mainThread (by simp), hmark₂]
  · rw [hclock, hlater]
    omega

/-- The wait that lies behind a thread when others come to their end may be longer than
the bound for those that are left. -/
theorem wait_exceeds : ¬ ∀ (before after : List ThreadOp) (replies replies' : List Reply)
    (s s' : SchedulerState),
    Trace.Permitted SchedulerState.step Timely (init 1 2 0 0 0) before →
      Trace.run SchedulerState.step (init 1 2 0 0 0) before = some (replies, s) →
      Trace.Permitted SchedulerState.step Steady s after →
      Trace.run SchedulerState.step s after = some (replies', s') →
      ∀ n, s'.threadGetCount = some n → ∀ t, s'.InRing t → (s'.threads t).state = .ready →
        (s'.schedLastMs - (s'.threads t).waitMarkMs).toNat ≤
          schedStarvationMs.toNat + 5 * n + 1 := by
  intro hall
  have hnodup : ((3 : UInt32) :: ((List.range' 4 21).map UInt32.ofNat ++ [25])).Nodup := by decide
  have hfree : ((3 : UInt32) :: ((List.range' 4 21).map UInt32.ofNat ++ [25])).all
      (fun t => decide (t ≠ 0 ∧ t ≠ 1 ∧ t ≠ 2)) = true := by decide
  obtain ⟨s, now, reply, s', ⟨before, replies, hpermitted, hrun⟩, hsteady, hstep, hcount, hin,
      hready, hmark, hclock⟩ :=
    exists_late 1 2 (by decide) (by decide) (by decide) hnodup
      (fun t ht => of_decide_eq_true (List.all_eq_true.mp hfree t ht)) (by decide)
  have hbound := hall before [.tick 0 now] replies [reply] s s' hpermitted hrun
    ⟨hsteady, fun _ _ _ => trivial⟩ (Trace.run_cons.mpr ⟨reply, s', [], hstep, rfl, rfl⟩) 2
    hcount 1 hin hready
  rw [hmark, UInt64.sub_zero, hclock] at hbound
  exact absurd hbound (by decide)

end SchedulerState

end AvrKernel.Scheduler

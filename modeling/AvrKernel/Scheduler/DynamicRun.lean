import AvrKernel.Scheduler.Entry

/-!
# Runs of dynamic priorities

The levels of the threads stay in their bounds in every run, and a thread that has
left the CPU is boosted only after it has been found ready for long enough.
-/

namespace AvrKernel.Scheduler

open Linked

namespace SchedulerState

variable {s s' : SchedulerState} {ring ring' reap : List UInt32} {t : UInt32} {now : UInt64}

/-! ## An entry of the handler -/

/-- What an entry at `now` does to the accounts. -/
structure Entered (s s' : SchedulerState) (ring ring' : List UInt32) (now : UInt64) : Prop where
  idle : s'.idleThread = s.idleThread
  kept : ring' ⊆ ring
  sound : (∀ t, (s.account t).Sound) → ∀ t, (s'.account t).Sound
  marks : ∀ t ∈ ring', (s'.account t).waitMarkMs =
    if (s.threads t).found now = .ready then (s.account t).waitMarkMs else now
  boosts : ∀ t, (s'.account t).boosted = true → (s.account t).boosted = true ∨
    t ∈ ring ∧ (s.threads t).found now = .ready ∧
      now - (s.account t).waitMarkMs ≥ schedStarvationMs
  /-- A thread that leaves the CPU takes no boost along. -/
  leaves : s'.currentThread ≠ s.currentThread →
    s.currentThread ≠ s.idleThread → (s'.account s.currentThread).boosted = false

/-- An entry of the handler keeps the links, and does to the accounts what it should. -/
theorem Linkage.entered (h : s.Linkage ring reap) (hne : ring ≠ []) {esp esp' : UInt32}
    (hrun : s.threadHandlerC esp now = some (esp', s')) :
    ∃ ring' reap', s'.Linkage ring' reap' ∧ Entered s s' ring ring' now := by
  obtain ⟨s₂, goesOn, hhandler, hprepared⟩ := h.prepared hne esp now
  rw [hhandler] at hrun
  obtain ⟨hlinkage, hchosen, hkeeps⟩ := h.chosen hprepared hrun
  refine ⟨_, _, hlinkage, hchosen.idleThread.trans hprepared.idleThread,
    List.filter_subset_self _, fun hsound t => ?_, fun t ht => ?_, fun t hboosted => ?_,
    fun hleaves hnotIdle => ?_⟩
  · rw [hchosen.account]
    exact hprepared.sound t (hsound t)
  · obtain ⟨hin, hlive⟩ := (s.mem_alive ring t).mp ht
    rw [hchosen.account]
    exact hprepared.marks t hin hlive
  · rw [hchosen.account, hprepared.boosted] at hboosted
    exact hboosted.1
  · rw [hchosen.account]
    cases hboosted : (s₂.account s.currentThread).boosted with
    | false => rfl
    | true =>
        -- it goes on if it is boosted
        obtain ⟨-, hkept⟩ := (hprepared.boosted s.currentThread).mp hboosted
        have hgoesOn : goesOn = true := by
          by_contra hstops
          exact hkept ⟨rfl, hnotIdle, Bool.eq_false_iff.mpr hstops⟩
        exact absurd (hkeeps hgoesOn hboosted) hleaves

theorem frame_yielding (s : SchedulerState) : Frame s s.yielding := by
  unfold yielding
  split
  · refine (Frame.refl s).setThread _ ?_
    exact fun _ => ⟨rfl, rfl, rfl, UInt32.zero_le⟩
  · exact .refl s

end SchedulerState

/-! ## Watching a run -/

/-- A state, and what the entries of the handler have seen of the threads. -/
structure Watched where
  state : SchedulerState
  /-- The last entry that did not find the thread ready. -/
  seen : UInt32 → UInt64
  /-- Since it last left the CPU, the thread was found ready long enough after that. -/
  starved : UInt32 → Bool

namespace Watched

open SchedulerState

def start (s : SchedulerState) (now : UInt64) : Watched :=
  { state := s, seen := fun _ => now, starved := fun _ => false }

/-- An entry of the handler that leads to `s'`. -/
def enter (w : Watched) (now : UInt64) (s' : SchedulerState) : Watched where
  state := s'
  seen t := if (w.state.threads t).found now = .ready then w.seen t else now
  starved t :=
    if t = w.state.currentThread ∧ s'.currentThread ≠ t then false
    else w.starved t || decide ((w.state.threads t).found now = .ready ∧
      now - w.seen t ≥ schedStarvationMs)

def observe (w : Watched) (op : ThreadOp) (s' : SchedulerState) : Watched :=
  match op with
  | .create thread _ _ _ now =>
      { state := s', seen := Function.update w.seen thread now
        starved := Function.update w.starved thread false }
  | .tick _ now | .yield _ now =>
      if w.state.threadQueue = 0 then { w with state := s' } else w.enter now s'
  | _ => { w with state := s' }

def step (w : Watched) (op : ThreadOp) : Option (Reply × Watched) :=
  (w.state.step op).map fun answer => (answer.1, w.observe op answer.2)

@[simp] theorem observe_state (w : Watched) (op : ThreadOp) (s' : SchedulerState) :
    (w.observe op s').state = s' := by
  unfold observe
  split
  · rfl
  · split <;> rfl
  · split <;> rfl
  · rfl

/-- Watching changes nothing. -/
theorem run_of_state {w : Watched} {ops : List ThreadOp} {replies : List Reply}
    {s' : SchedulerState}
    (hrun : Trace.run SchedulerState.step w.state ops = some (replies, s')) :
    ∃ w', Trace.run step w ops = some (replies, w') ∧ w'.state = s' := by
  induction ops generalizing w replies with
  | nil =>
      obtain ⟨rfl, rfl⟩ := Prod.mk.inj (Option.some.inj hrun)
      exact ⟨w, rfl, rfl⟩
  | cons op rest ih =>
      obtain ⟨reply, s₁, replies', hstep, hrest, rfl⟩ := Trace.run_cons.mp hrun
      rw [← w.observe_state op s₁] at hrest
      obtain ⟨w', hrun', hstate⟩ := ih hrest
      refine ⟨w', Trace.run_cons.mpr ⟨reply, w.observe op s₁, replies', ?_, hrun', rfl⟩, hstate⟩
      rw [step, hstep]
      rfl

/-- The levels keep their bounds, charging comes to its end, and a thread that is not on
the CPU is boosted only if it was found ready long enough after it was last found not
to be. -/
structure Dynamic (w : Watched) : Prop where
  bounds : ∀ t, ThreadPriority.idle.value ≤ (w.state.threads t).dynPriority.value ∧
    (w.state.threads t).dynPriority.value ≤ (w.state.threads t).priority.value
  used : ∀ t, (w.state.threads t).cpuUsedMs < (w.state.account t).allotment
  /-- Five rounds of the charging loop are enough. -/
  charges : ∀ t ms, ((w.state.threads t).chargeCpu ms).cpuUsedMs < (w.state.account t).allotment ∧
    ∀ n ≥ 5, ThreadBlock.degrade (w.state.account t).allotment n
        { w.state.threads t with cpuUsedMs := (w.state.threads t).cpuUsedMs + ms } =
      ThreadBlock.degrade (w.state.account t).allotment 5
        { w.state.threads t with cpuUsedMs := (w.state.threads t).cpuUsedMs + ms }
  realtime : ∀ t, (w.state.threads t).priority = .realtime →
    (w.state.threads t).dynPriority = (w.state.threads t).priority
  boosted : ∀ t, (w.state.threads t).boosted = true → w.starved t = true

/-- What is kept of the accounts in a run. -/
structure Inv (w : Watched) (ring reap : List UInt32) : Prop where
  linkage : w.state.Linkage ring reap
  sound : ∀ t, (w.state.account t).Sound
  marks : ∀ t ∈ ring, (w.state.account t).waitMarkMs = w.seen t
  boosted : ∀ t, (w.state.account t).boosted = true → w.starved t = true
  idle : (w.state.account w.state.idleThread).boosted = false

variable {w : Watched} {ring reap : List UInt32} {s' : SchedulerState}

theorem Inv.dynamic (h : w.Inv ring reap) : w.Dynamic where
  bounds t := ⟨(h.sound t).lower, (h.sound t).upper⟩
  used t := (h.sound t).used
  charges t ms := by
    refine ⟨ThreadBlock.chargeCpu_lt _ ms, fun n hn => ?_⟩
    have hlevels := ThreadPriority.value_le (w.state.threads t).dynPriority
    exact ThreadBlock.degrade_eq _ (hlevels.trans hn) hlevels
  realtime t := (h.sound t).realtime
  boosted := h.boosted

theorem Inv.frame (h : w.Inv ring reap) (hf : Frame w.state s') :
    Inv { w with state := s' } ring reap := by
  have haccount : ∀ t, s'.account t = w.state.account t := fun t => (hf.blocks t).account
  refine ⟨h.linkage.frame hf, fun t => ?_, fun t ht => ?_, fun t hboosted => ?_, ?_⟩
  · exact (haccount t).symm ▸ h.sound t
  · rw [haccount]
    exact h.marks t ht
  · rw [haccount] at hboosted
    exact h.boosted t hboosted
  · rw [haccount, hf.idleThread]
    exact h.idle

theorem Inv.create (h : w.Inv ring reap) {x : UInt32} (hnull : x ≠ 0)
    (hfree : w.state.allocated x = false) {stackBase esp : UInt32} {priority : ThreadPriority}
    {now : UInt64} (hrun : w.state.threadCreate x stackBase esp priority now = some s') :
    (w.observe (.create x stackBase esp priority now) s').Inv (ring ++ [x]) reap := by
  obtain ⟨hring, -, hidle⟩ := h.linkage.fresh hfree
  obtain ⟨hlinkage, hsameIdle, hself, hothers⟩ := h.linkage.create hnull hfree hrun
  refine ⟨hlinkage, fun t => ?_, fun t ht => ?_, fun t hboosted => ?_, ?_⟩
  · change (s'.account t).Sound
    by_cases heq : t = x
    · rw [heq, hself]
      refine ⟨ThreadPriority.idle_le _, UInt32.le_refl _, Account.allotment_pos _, fun _ => rfl⟩
    · rw [hothers t heq]
      exact h.sound t
  · change (s'.account t).waitMarkMs = Function.update w.seen x now t
    by_cases heq : t = x
    · rw [heq, hself, Function.update_self]
      rfl
    · rw [hothers t heq, Function.update_of_ne heq]
      rcases List.mem_append.mp ht with hin | hlast
      · exact h.marks t hin
      · exact absurd (List.mem_singleton.mp hlast) heq
  · change Function.update w.starved x false t = true
    change (s'.account t).boosted = true at hboosted
    by_cases heq : t = x
    · rw [heq, hself] at hboosted
      cases hboosted
    · rw [Function.update_of_ne heq]
      rw [hothers t heq] at hboosted
      exact h.boosted t hboosted
  · change (s'.account s'.idleThread).boosted = false
    rw [hsameIdle, hothers _ fun heq => hidle heq.symm]
    exact h.idle

theorem Inv.enter (h : w.Inv ring reap) (hne : ring ≠ []) {esp esp' : UInt32} {now : UInt64}
    (hrun : w.state.threadHandlerC esp now = some (esp', s')) :
    ∃ ring' reap', (w.enter now s').Inv ring' reap' := by
  obtain ⟨ring', reap', hlinkage, hentered⟩ := h.linkage.entered hne hrun
  refine ⟨ring', reap', hlinkage, hentered.sound h.sound, fun t ht => ?_, fun t hboosted => ?_, ?_⟩
  · change (s'.account t).waitMarkMs = if _ then w.seen t else now
    rw [hentered.marks t ht, h.marks t (hentered.kept ht)]
  · change (s'.account t).boosted = true at hboosted
    change (if _ then _ else _) = true
    split
    · rename_i hleaves
      obtain ⟨rfl, hother⟩ := hleaves
      by_cases hidle : w.state.currentThread = w.state.idleThread
      · rcases hentered.boosts _ hboosted with hbefore | ⟨hin, -⟩
        · rw [hidle, h.idle] at hbefore
          cases hbefore
        · exact absurd (hidle ▸ hin) h.linkage.idle.2.1
      · rw [hentered.leaves hother hidle] at hboosted
        cases hboosted
    · rw [Bool.or_eq_true, decide_eq_true_iff]
      rcases hentered.boosts t hboosted with hbefore | ⟨hin, hready, hlong⟩
      · exact .inl (h.boosted t hbefore)
      · rw [h.marks t hin] at hlong
        exact .inr ⟨hready, hlong⟩
  · change (s'.account s'.idleThread).boosted = false
    rw [hentered.idle]
    cases hboosted : (s'.account w.state.idleThread).boosted with
    | false => rfl
    | true =>
        rcases hentered.boosts _ hboosted with hbefore | ⟨hin, -⟩
        · rw [h.idle] at hbefore
          cases hbefore
        · exact absurd hin h.linkage.idle.2.1

theorem Inv.handler (h : w.Inv ring reap) {esp esp' : UInt32} {now : UInt64}
    (hrun : w.state.threadHandlerC esp now = some (esp', s')) :
    ∃ ring' reap', Inv (if w.state.threadQueue = 0 then { w with state := s' } else w.enter now s')
      ring' reap' := by
  by_cases hnil : w.state.threadQueue = 0
  · rw [if_pos hnil]
    unfold threadHandlerC at hrun
    rw [if_pos (.inl hnil)] at hrun
    obtain ⟨-, rfl⟩ := Prod.mk.inj (Option.some.inj hrun)
    exact ⟨ring, reap, h⟩
  · rw [if_neg hnil]
    exact h.enter (fun hempty => hnil (h.linkage.queue.empty hempty)) hrun

/-- A yield is seen like the entry that it makes. -/
theorem enter_yielding (w : Watched) (now : UInt64) (s' : SchedulerState) :
    Watched.enter { w with state := w.state.yielding } now s' = w.enter now s' := by
  have hfound : ∀ t, (w.state.yielding.threads t).found now = (w.state.threads t).found now := by
    intro t
    unfold yielding
    split
    · rw [threads_setThread]
      by_cases heq : t = w.state.currentThread
      · subst heq
        rw [Function.update_self]
        apply ThreadBlock.found_congr <;> rfl
      · rw [Function.update_of_ne heq]
    · rfl
  have hcurrent := w.state.frame_yielding.currentThread
  unfold enter
  simp only [hfound, hcurrent]

theorem Inv.step (h : w.Inv ring reap) {op : ThreadOp} (hen : w.state.Enabled op) {reply : Reply}
    {w' : Watched} (hstep : w.step op = some (reply, w')) : ∃ ring' reap', w'.Inv ring' reap' := by
  obtain ⟨⟨reply', s'⟩, hanswer, heq⟩ := Option.map_eq_some_iff.mp hstep
  obtain ⟨-, rfl⟩ := Prod.mk.inj heq
  obtain ⟨⟨value, s₁⟩, hrun, hreturn⟩ := Option.bind_eq_some_iff.mp hanswer
  obtain ⟨-, rfl⟩ := Prod.mk.inj (Option.some.inj hreturn)
  cases op with
  | create x stackBase esp priority now =>
      obtain ⟨s₂, hcreate, hlast⟩ := Option.bind_eq_some_iff.mp hrun
      obtain ⟨-, rfl⟩ := Prod.mk.inj (Option.some.inj hlast)
      exact ⟨_, _, h.create hen.2.1 hen.2.2 hcreate⟩
  | tick esp now =>
      obtain ⟨⟨esp', s₂⟩, hhandler, hlast⟩ := Option.bind_eq_some_iff.mp hrun
      obtain ⟨-, rfl⟩ := Prod.mk.inj (Option.some.inj hlast)
      exact h.handler hhandler
  | yield esp now =>
      obtain ⟨⟨esp', s₂⟩, hhandler, hlast⟩ := Option.bind_eq_some_iff.mp hrun
      obtain ⟨-, rfl⟩ := Prod.mk.inj (Option.some.inj hlast)
      rw [threadYield_eq] at hhandler
      have hyield := (h.frame w.state.frame_yielding).handler hhandler
      have hframe := w.state.frame_yielding
      rw [hframe.threadQueue, w.enter_yielding] at hyield
      exact hyield
  | _ => exact ⟨ring, reap, h.frame (perform_frame hrun fun hop => hop)⟩

theorem start_inv {mainThread idle idleStack idleEsp : UInt32} {now : UInt64}
    (hmain : mainThread ≠ 0)
    (hidle : idle ≠ 0) (hne : mainThread ≠ idle) :
    (start (init mainThread idle idleStack idleEsp now) now).Inv [mainThread] [] := by
  have hmainBlock : (init mainThread idle idleStack idleEsp now).threads mainThread =
      { ThreadBlock.new .running 0 0 .normal now with next := mainThread } :=
    (Function.update_of_ne hne _ _).trans (Function.update_self ..)
  have hself : (init mainThread idle idleStack idleEsp now).account mainThread =
      (ThreadBlock.new .running 0 0 .normal now).account := by
    rw [account, hmainBlock]
    rfl
  have hidleAccount : (init mainThread idle idleStack idleEsp now).account idle =
      (ThreadBlock.new .ready idleStack idleEsp .idle now).account :=
    congrArg ThreadBlock.account (Function.update_self ..)
  have hother : ∀ t, t ≠ mainThread → t ≠ idle →
      (init mainThread idle idleStack idleEsp now).account t = ThreadBlock.zero.account :=
    fun t hm hi => congrArg ThreadBlock.account
      ((Function.update_of_ne hi _ _).trans (Function.update_of_ne hm _ _))
  have hnew : ∀ {state : ThreadState} {stack esp : UInt32} {priority : ThreadPriority},
      (ThreadBlock.new state stack esp priority now).account.Sound :=
    ⟨ThreadPriority.idle_le _, UInt32.le_refl _, Account.allotment_pos _, fun _ => rfl⟩
  have hcases : ∀ t, ((init mainThread idle idleStack idleEsp now).account t).Sound ∧
      ((init mainThread idle idleStack idleEsp now).account t).boosted = false := by
    intro t
    by_cases hm : t = mainThread
    · rw [hm, hself]
      exact ⟨hnew, rfl⟩
    · by_cases hi : t = idle
      · rw [hi, hidleAccount]
        exact ⟨hnew, rfl⟩
      · rw [hother t hm hi]
        exact ⟨⟨UInt32.le_refl _, UInt32.le_refl _, Account.allotment_pos _, by rintro ⟨⟩⟩, rfl⟩
  refine ⟨(init_inv hmain hidle hne).linkage, fun t => (hcases t).1, fun t ht => ?_,
    fun t hboosted => ?_, (hcases _).2⟩
  · change ((init mainThread idle idleStack idleEsp now).account t).waitMarkMs = now
    rw [List.mem_singleton.mp ht, hself]
    rfl
  · exact absurd (hboosted.symm.trans (hcases t).2) (by rintro ⟨⟩)

theorem Inv.run (h : w.Inv ring reap) {ops : List ThreadOp} {replies : List Reply} {w' : Watched}
    (hok : Trace.Permitted SchedulerState.step Enabled w.state ops)
    (hrun : Trace.run Watched.step w ops = some (replies, w')) :
    ∃ ring' reap', w'.Inv ring' reap' := by
  induction ops generalizing w ring reap replies with
  | nil =>
      obtain ⟨-, rfl⟩ := Prod.mk.inj (Option.some.inj hrun)
      exact ⟨ring, reap, h⟩
  | cons op rest ih =>
      obtain ⟨reply, w₁, replies', hstep, hrest, -⟩ := Trace.run_cons.mp hrun
      obtain ⟨ring', reap', hinv⟩ := h.step hok.1 hstep
      obtain ⟨⟨reply', s'⟩, hanswer, heq⟩ := Option.map_eq_some_iff.mp hstep
      obtain ⟨-, rfl⟩ := Prod.mk.inj heq
      have hafter := hok.2 reply' s' hanswer
      rw [← w.observe_state op s'] at hafter
      exact ih hinv hafter hrest

/-- In every run from the first state on, whatever is killed and however much time
passes between the entries of the handler. -/
theorem run_dynamic {mainThread idle idleStack idleEsp : UInt32} {now : UInt64}
    {ops : List ThreadOp}
    {replies : List Reply} {s : SchedulerState} (hmain : mainThread ≠ 0) (hidle : idle ≠ 0)
    (hne : mainThread ≠ idle)
    (hok : Trace.Permitted SchedulerState.step Enabled
      (init mainThread idle idleStack idleEsp now) ops)
    (hrun : Trace.run SchedulerState.step (init mainThread idle idleStack idleEsp now) ops =
      some (replies, s)) :
    ∃ w, Trace.run Watched.step (start (init mainThread idle idleStack idleEsp now) now) ops =
      some (replies, w) ∧ w.state = s ∧ w.Dynamic := by
  obtain ⟨w, hwatched, hstate⟩ :=
    run_of_state (w := start (init mainThread idle idleStack idleEsp now) now) hrun
  obtain ⟨ring, reap, hinv⟩ := (start_inv hmain hidle hne).run hok hwatched
  exact ⟨w, hwatched, hstate, hinv.dynamic⟩

/-- Two threads sleep for 50 ms, and the handler is next entered after 100 ms. -/
def sleepers : List ThreadOp :=
  [.create 3 0 0 .normal 0, .create 4 0 0 .normal 0, .yield 0 1, .sleep 50 1, .yield 0 1,
    .sleep 50 1, .yield 0 1, .tick 0 2]

theorem run_dynamic_sleepers : ∃ (replies : List Reply) (s : SchedulerState) (w : Watched),
    Trace.run SchedulerState.step (init 1 2 0 0 0) (sleepers ++ [.tick 0 102]) = some (replies, s) ∧
      w.state = s ∧ w.Dynamic ∧ (s.threads 4).boosted = true ∧ w.starved 4 = true := by
  have hreturns : (Trace.run SchedulerState.step (init 1 2 0 0 0)
      (sleepers ++ [.tick 0 102])).map (fun x => (x.2.threads 4).boosted) = some true := by
    decide +kernel
  obtain ⟨⟨replies, s⟩, hrun, hboosted⟩ := Option.map_eq_some_iff.mp hreturns
  obtain ⟨w, -, rfl, hdynamic⟩ :=
    run_dynamic (by decide) (by decide) (by decide) (by decide +kernel) hrun
  exact ⟨replies, _, w, hrun, rfl, hdynamic, hboosted, hdynamic.boosted 4 hboosted⟩

/-- A thread that wakes up is boosted at once if the entry before lies far enough back:
its clock started there, although it was asleep. -/
theorem boosted_without_wait : ¬ ∀ ops op replies s reply s' t,
    Trace.Permitted SchedulerState.step Enabled (init 1 2 0 0 0) (ops ++ [op]) →
      Trace.run SchedulerState.step (init 1 2 0 0 0) ops = some (replies, s) →
      s.step op = some (reply, s') → t ≠ s.currentThread → t ≠ s'.currentThread →
      (s.threads t).boosted = false → (s'.threads t).boosted = true →
      (s.threads t).state = .ready := by
  intro hall
  have hvalues : ((Trace.run SchedulerState.step (init 1 2 0 0 0) sleepers).bind fun x =>
      (x.2.step (.tick 0 102)).map fun y => decide (4 ≠ x.2.currentThread ∧ 4 ≠ y.2.currentThread ∧
        (x.2.threads 4).boosted = false ∧ (y.2.threads 4).boosted = true ∧
        (x.2.threads 4).state = .sleeping)) = some true := by decide +kernel
  obtain ⟨⟨replies, s⟩, hrun, hstep⟩ := Option.bind_eq_some_iff.mp hvalues
  obtain ⟨⟨reply, s'⟩, hstep, hboost⟩ := Option.map_eq_some_iff.mp hstep
  obtain ⟨hbefore, hafter, hplain, hboosted, hasleep⟩ := of_decide_eq_true hboost
  have hready := hall sleepers (.tick 0 102) replies s reply s' 4 (by decide +kernel) hrun hstep
    hbefore hafter hplain hboosted
  rw [hasleep] at hready
  cases hready

end Watched

end AvrKernel.Scheduler

import AvrKernel.Scheduler.Run
import AvrKernel.Scheduler.Waiting

/-!
# Real-time threads in rotation

Real-time threads that use up their quanta have the CPU one after another, and
whoever is behind them on the ring waits.
-/

namespace AvrKernel.Scheduler

open Linked

namespace SchedulerState

variable {s s' s₁ : SchedulerState} {ring reap done rest : List UInt32} {c d t : UInt32}
  {ticks esp esp' : UInt32} {now now' : UInt64} {waiting queued : UInt32 → List UInt32}

theorem step_tick (hrun : s.threadHandlerC esp now = some (esp', s')) :
    s.step (.tick esp now) = some ({ thread := s.currentThread, value := none }, s') := by
  unfold SchedulerState.step
  rw [perform, hrun]
  rfl

theorem step_yield (hrun : s.yielding.threadHandlerC esp now = some (esp', s')) :
    s.step (.yield esp now) = some ({ thread := s.currentThread, value := none }, s') := by
  unfold SchedulerState.step
  rw [perform, threadYield_eq, hrun]
  rfl

/-- An entry of the handler, as far as the rotation goes. -/
structure Entry (s s' : SchedulerState) (ring : List UInt32) (waiting queued : UInt32 → List UInt32)
    (now : UInt64) : Prop where
  inv : ∃ reap, s'.Inv (ring.filter fun t => s.Alive t) reap waiting queued
  calls : s'.calls = s.calls
  processThreads : s'.processThreads = s.processThreads
  alive : ∀ t, s'.Alive t ↔ s.Alive t
  timed : Timed s s' ring now
  running : (s'.threads s'.currentThread).state = .running

theorem Inv.enter (h : s.Inv ring reap waiting queued) (hne : ring ≠ []) (esp : UInt32)
    (now : UInt64) :
    ∃ esp' s' s₂ goesOn, s.threadHandlerC esp now = some (esp', s') ∧
      Prepared s s₂ ring reap now goesOn ∧
      s₂.chooseNext s.currentThread esp goesOn = some (esp', s') ∧
      Entry s s' ring waiting queued now := by
  obtain ⟨s₂, goesOn, hhandler, hprepared⟩ := h.linkage.prepared hne esp now
  obtain ⟨esp', s', reap', hrun, hinv, hprogress, hothers, hcases⟩ := h.handler esp now
  have hchoose := hhandler.symm.trans hrun
  obtain ⟨-, -, hhandled⟩ := hcases.resolve_left fun hempty => hne hempty.1
  have hcalls := congrArg SchedulerState.calls hothers
  have hlist := congrArg SchedulerState.processThreads hothers
  exact ⟨esp', s', s₂, goesOn, hrun, hprepared, hchoose, ⟨reap', hinv⟩, hcalls, hlist,
    fun t => not_congr (hprogress t).dead, h.linkage.timed hprepared hchoose,
    hinv.current_awake hhandled.best⟩

/-- A real-time thread keeps the CPU until its quantum is used up. -/
theorem Inv.continues (h : s.Inv ring reap waiting queued) (hin : s.currentThread ∈ ring)
    (hruns : (s.threads s.currentThread).state = .running)
    (hmore : (s.threads s.currentThread).ticksRemaining > 1)
    (hrealtime : (s.account s.currentThread).Realtime) (esp : UInt32) (now : UInt64) :
    ∃ esp' s', s.threadHandlerC esp now = some (esp', s') ∧ Entry s s' ring waiting queued now ∧
      s'.currentThread = s.currentThread ∧ (s'.threads s.currentThread).ticksRemaining =
        (s.threads s.currentThread).ticksRemaining - 1 := by
  obtain ⟨esp', s', s₂, goesOn, hrun, hprepared, hchoose, hentry⟩ :=
    h.enter (List.ne_nil_of_mem hin) esp now
  have hidle : s.currentThread ≠ s.idleThread := by
    intro heq
    exact h.queues.idle.2.1 (heq ▸ hin)
  have hgoesOn := hprepared.continues.mpr ⟨hidle, hruns, hmore⟩
  have hlive : s.Alive s.currentThread := by
    rw [Alive, hruns]
    rintro ⟨⟩
  have hwants : s₂.Runnable s.currentThread := by
    right
    rw [hprepared.state _ hin]
    exact (wake_running _ now).mpr hruns
  have hfive : s₂.effective s.currentThread = 5 := by
    apply effective_of_realtime
    exact ⟨hprepared.sound _ hrealtime.sound, (hprepared.priority _).trans hrealtime.priority⟩
  refine ⟨esp', s', hrun, hentry, ?_⟩
  rcases chooseNext_of_five hprepared.queue ((s.mem_alive ring _).mpr ⟨hin, hlive⟩) hwants hfive
    hchoose with ⟨-, -, rfl⟩ | ⟨hstops, -⟩
  · refine ⟨hprepared.currentThread, ?_⟩
    rw [threads_setThread, Function.update_self, ← hprepared.quanta]
  · exact absurd ⟨hgoesOn, hfive⟩ hstops

/-- Then the next thread on the ring has it, if that is a real-time thread. -/
theorem Inv.switches (h : s.Inv (done ++ s.currentThread :: d :: rest) reap waiting queued)
    (hlive : ∀ t ∈ done ++ s.currentThread :: d :: rest, s.Alive t)
    (hused : ¬ (s.threads s.currentThread).ticksRemaining > 1)
    (hready : (s.threads d).state = .ready) (hrealtime : (s.account d).Realtime) (esp : UInt32)
    (now : UInt64) :
    ∃ esp' s', s.threadHandlerC esp now = some (esp', s') ∧
      Entry s s' (done ++ s.currentThread :: d :: rest) waiting queued now ∧
      s'.currentThread = d := by
  have hin : s.currentThread ∈ done ++ s.currentThread :: d :: rest := by simp
  have hd : d ∈ done ++ s.currentThread :: d :: rest := by simp
  obtain ⟨esp', s', s₂, goesOn, hrun, hprepared, hchoose, hentry⟩ :=
    h.enter (List.ne_nil_of_mem hin) esp now
  have hwants : s₂.Runnable d := by
    left
    rw [hprepared.state d hd]
    refine (found_of_awake ?_ now).trans hready
    rw [hready]
    exact nofun
  have hfive : s₂.effective d = 5 := by
    apply effective_of_realtime
    exact ⟨hprepared.sound _ hrealtime.sound, (hprepared.priority _).trans hrealtime.priority⟩
  have hbetween : Between (done ++ s.currentThread :: d :: rest) s.currentThread [] d :=
    ⟨rest ++ done, by simpa using
      (List.isRotated_append : (done ++ s.currentThread :: d :: rest).IsRotated _)⟩
  refine ⟨esp', s', hrun, hentry, ?_⟩
  rcases h.linkage.turn hprepared hchoose hlive hin hd hwants hfive hbetween with
    ⟨hgoesOn, -⟩ | ⟨-, hnext | ⟨l₁, l₂, hsplit⟩⟩
  · exact absurd (hprepared.continues.mp hgoesOn).2.2 hused
  · exact hnext
  · exact absurd hsplit (by simp)

/-! ## The rotation -/

/-- The thread `c` has the CPU for more `ticks`, and the real-time threads of `rest` come
next. -/
structure Rotates (s : SchedulerState) (done : List UInt32) (c : UInt32) (rest : List UInt32)
    (ticks : UInt32) (now : UInt64) : Prop where
  inv : ∃ reap waiting queued, s.Inv (done ++ c :: rest) reap waiting queued
  current : s.currentThread = c
  running : (s.threads c).state = .running
  ticks : (s.threads c).ticksRemaining = ticks
  clock : s.schedLastMs = now
  ready : ∀ t ∈ done ++ rest, (s.threads t).state = .ready
  fresh : ∀ t ∈ rest, (s.threads t).ticksRemaining = 5 ∧ (s.account t).Realtime
  calls : ∀ t ∈ done ++ c :: rest, s.calls t = .none

/-- From `s` to `s'` the threads of `done` wait. -/
structure Behind (s s' : SchedulerState) (done : List UInt32) : Prop where
  processThreads : s'.processThreads = s.processThreads
  marks : ∀ t ∈ done, (s'.threads t).waitMarkMs = (s.threads t).waitMarkMs

theorem Behind.trans {s'' : SchedulerState} {more : List UInt32} (h : Behind s s' done)
    (h' : Behind s' s'' more) (hmore : done ⊆ more) : Behind s s'' done where
  processThreads := h'.processThreads.trans h.processThreads
  marks t ht := (h'.marks t (hmore ht)).trans (h.marks t ht)

theorem Rotates.alive (h : s.Rotates done c rest ticks now) (ht : t ∈ done ++ c :: rest) :
    s.Alive t := by
  have hcases : t = c ∨ t ∈ done ++ rest := by
    simp only [List.mem_append, List.mem_cons] at ht ⊢
    tauto
  rw [Alive]
  rcases hcases with rfl | hother
  · rw [h.running]
    rintro ⟨⟩
  · rw [h.ready t hother]
    rintro ⟨⟩

theorem Rotates.filter (h : s.Rotates done c rest ticks now) :
    (done ++ c :: rest).filter (fun t => s.Alive t) = done ++ c :: rest :=
  List.filter_eq_self.mpr fun _ ht => decide_eq_true (h.alive ht)

theorem Rotates.nodup (h : s.Rotates done c rest ticks now) : (done ++ c :: rest).Nodup := by
  obtain ⟨_, _, _, hinv⟩ := h.inv
  exact hinv.queues.queue.nodup

theorem found_ready {b : ThreadBlock} (h : b.state = .ready) (now : UInt64) :
    b.found now = .ready := by
  refine (found_of_awake ?_ now).trans h
  rw [h]
  exact nofun

theorem Rotates.behind {ring : List UInt32} (h : s.Rotates done c rest ticks now)
    (hring : done ++ c :: rest = ring) (hentry : Entry s s' ring waiting queued now') :
    Behind s s' done := by
  subst hring
  refine ⟨hentry.processThreads, fun t ht => ?_⟩
  have hmark := hentry.timed.marks t (List.mem_append_left _ ht)
    (h.alive (List.mem_append_left _ ht))
  rw [if_pos (found_ready (h.ready t (List.mem_append_left rest ht)) now')] at hmark
  exact hmark

theorem Rotates.tick (h : s.Rotates done c rest ticks now) (hmore : ticks > 1)
    (hrealtime : (s.account c).Realtime) (esp : UInt32) (now' : UInt64) :
    ∃ esp' s', s.threadHandlerC esp now' = some (esp', s') ∧
      s'.Rotates done c rest (ticks - 1) now' ∧ (s'.account c).Realtime ∧ Behind s s' done := by
  obtain ⟨reap, waiting, queued, hinv⟩ := h.inv
  obtain rfl := h.current
  obtain rfl := h.ticks
  obtain ⟨esp', s', hrun, hentry, hcurrent, hticks⟩ :=
    hinv.continues (by simp) h.running hmore hrealtime esp now'
  have hnodup := h.nodup
  refine ⟨esp', s', hrun, ?_, hentry.timed.realtime _ hrealtime, h.behind rfl hentry⟩
  have hothers : ∀ t ∈ done ++ rest, t ∈ done ++ s.currentThread :: rest ∧ t ≠ s.currentThread := by
    intro t ht
    constructor
    · simp only [List.mem_append, List.mem_cons] at ht ⊢
      tauto
    · rintro rfl
      rw [List.nodup_middle, List.nodup_cons] at hnodup
      exact hnodup.1 ht
  constructor
  · obtain ⟨reap', hinv'⟩ := hentry.inv
    rw [h.filter] at hinv'
    exact ⟨reap', waiting, queued, hinv'⟩
  · exact hcurrent
  · exact hcurrent ▸ hentry.running
  · exact hticks
  · exact hentry.timed.clock
  · intro t ht
    obtain ⟨hin, hne⟩ := hothers t ht
    have hstate := (hentry.timed.others t hin hne).2 (hcurrent.symm ▸ hne)
    exact hstate.trans (found_ready (h.ready t ht) now')
  · intro t ht
    obtain ⟨hin, hne⟩ := hothers t (List.mem_append_right done ht)
    obtain ⟨hfull, hlevel⟩ := h.fresh t ht
    exact ⟨(hentry.timed.others t hin hne).1.trans hfull, hentry.timed.realtime t hlevel⟩
  · rw [hentry.calls]
    exact h.calls

theorem Rotates.next (h : s.Rotates done c (d :: rest) ticks now) (hused : ¬ ticks > 1)
    (esp : UInt32) (now' : UInt64) :
    ∃ esp' s', s.threadHandlerC esp now' = some (esp', s') ∧
      s'.Rotates (done ++ [c]) d rest 5 now' ∧ (s'.account d).Realtime ∧ Behind s s' done ∧
      (s'.threads c).waitMarkMs = now' := by
  obtain ⟨reap, waiting, queued, hinv⟩ := h.inv
  obtain rfl := h.current
  obtain rfl := h.ticks
  have hd : d ∈ done ++ d :: rest := by simp
  obtain ⟨hfull, hlevel⟩ := h.fresh d List.mem_cons_self
  obtain ⟨esp', s', hrun, hentry, rfl⟩ :=
    hinv.switches (fun t => h.alive) hused (h.ready d hd) hlevel esp now'
  have hnodup := h.nodup
  have hin : s.currentThread ∈ done ++ s.currentThread :: s'.currentThread :: rest := by simp
  have hothers : ∀ t ∈ done ++ s'.currentThread :: rest,
      t ∈ done ++ s.currentThread :: s'.currentThread :: rest ∧ t ≠ s.currentThread := by
    intro t ht
    constructor
    · simp only [List.mem_append, List.mem_cons] at ht ⊢
      tauto
    · rintro rfl
      rw [List.nodup_middle, List.nodup_cons] at hnodup
      exact hnodup.1 ht
  have hrest : ∀ t ∈ done ++ rest, t ≠ s'.currentThread := by
    rintro t ht rfl
    rw [List.nodup_middle, List.nodup_cons, List.nodup_middle, List.nodup_cons] at hnodup
    exact hnodup.2.1 ht
  have hring : done ++ s.currentThread :: s'.currentThread :: rest =
      (done ++ [s.currentThread]) ++ s'.currentThread :: rest := by simp
  refine ⟨esp', s', hrun, ⟨?_, rfl, hentry.running, ?_, hentry.timed.clock, ?_, ?_, ?_⟩,
    hentry.timed.realtime _ hlevel, h.behind rfl hentry, ?_⟩
  · obtain ⟨reap', hinv'⟩ := hentry.inv
    rw [h.filter, hring] at hinv'
    exact ⟨reap', waiting, queued, hinv'⟩
  · obtain ⟨hmem, hne⟩ := hothers _ hd
    exact (hentry.timed.others _ hmem hne).1.trans hfull
  · intro t ht
    by_cases heq : t = s.currentThread
    · subst heq
      exact hentry.timed.preempted hin h.running (hothers _ hd).2
    · have hmem : t ∈ done ++ rest := by
        simp only [List.mem_append, List.mem_singleton] at ht ⊢
        tauto
      have hmore : t ∈ done ++ s'.currentThread :: rest := by
        simp only [List.mem_append, List.mem_cons] at hmem ⊢
        tauto
      have hstate := (hentry.timed.others t (hothers t hmore).1 heq).2 (hrest t hmem)
      exact hstate.trans (found_ready (h.ready t hmore) now')
  · intro t ht
    obtain ⟨hmem, hne⟩ := hothers t (List.mem_append_right done (List.mem_cons_of_mem _ ht))
    obtain ⟨hfull, hlevel⟩ := h.fresh t (List.mem_cons_of_mem _ ht)
    exact ⟨(hentry.timed.others t hmem hne).1.trans hfull, hentry.timed.realtime t hlevel⟩
  · rw [hentry.calls, ← hring]
    exact h.calls
  · have hfound : (s.threads s.currentThread).found now' ≠ .ready := by
      rw [show (s.threads s.currentThread).found now' = .running from
        (wake_running _ now').mpr h.running]
      exact nofun
    have hmark := hentry.timed.marks _ hin (h.alive hin)
    rw [if_neg hfound] at hmark
    exact hmark

/-! ## Runs of a rotation -/

/-- A step that can happen, in time. -/
def Timely (s : SchedulerState) (op : ThreadOp) : Prop := s.SafeRules op ∧ s.OnTime op

instance (s : SchedulerState) (op : ThreadOp) : Decidable (s.Timely op) :=
  inferInstanceAs (Decidable (_ ∧ _))

theorem Rotates.timely (h : s.Rotates done c rest ticks now) (hnow : now.toNat + 1 < 2 ^ 64) :
    s.Timely (.tick 0 (now + 1)) := by
  have hlater : (now + 1).toNat = now.toNat + 1 := by
    rw [UInt64.toNat_add, UInt64.toNat_one, Nat.mod_eq_of_lt hnow]
  refine ⟨⟨?_, trivial⟩, ?_, ?_⟩
  · change s.calls s.currentThread = .none
    rw [h.current]
    exact h.calls c (by simp)
  · rw [h.clock, UInt64.le_iff_toNat_le, hlater]
    exact Nat.le_succ _
  · rw [h.clock, hlater]

theorem Rotates.runsOn (h : s.Rotates done c rest ticks now) (hrealtime : (s.account c).Realtime)
    {n : Nat} (hn : n < ticks.toNat) (hnow : now.toNat + n < 2 ^ 64) :
    ∃ s' ticks' now', Trace.Reaches SchedulerState.step Timely s s' ∧
      s'.Rotates done c rest ticks' now' ∧ ticks'.toNat + n = ticks.toNat ∧
      now'.toNat = now.toNat + n ∧ (s'.account c).Realtime ∧ Behind s s' done := by
  induction n generalizing s ticks now with
  | zero => exact ⟨s, ticks, now, .refl s, h, rfl, rfl, hrealtime, rfl, fun _ _ => rfl⟩
  | succ n ih =>
      have hmore : ticks > 1 := by
        rw [gt_iff_lt, UInt32.lt_iff_toNat_lt, UInt32.toNat_one]
        omega
      have hless : (ticks - 1).toNat = ticks.toNat - 1 := by
        rw [UInt32.toNat_sub_of_le _ _ (UInt32.le_of_lt hmore), UInt32.toNat_one]
      have hlater : (now + 1).toNat = now.toNat + 1 := by
        rw [UInt64.toNat_add, UInt64.toNat_one, Nat.mod_eq_of_lt (by omega)]
      obtain ⟨esp', s₁, hrun, hnext, hlevel, hbehind⟩ := h.tick hmore hrealtime 0 (now + 1)
      obtain ⟨s', ticks', now', hreach, hrotates, hticks, htime, hlevel', hbehind'⟩ :=
        ih hnext hlevel (by omega) (by omega)
      exact ⟨s', ticks', now', .head (h.timely (by omega)) (step_tick hrun) hreach, hrotates,
        by omega, by omega, hlevel', hbehind.trans hbehind' (List.Subset.refl _)⟩

/-- A whole quantum, at the end of which the next thread has the CPU. -/
theorem Rotates.quantum (h : s.Rotates done c (d :: rest) 5 now)
    (hrealtime : (s.account c).Realtime)
    (hnow : now.toNat + 5 < 2 ^ 64) :
    ∃ s' now', Trace.Reaches SchedulerState.step Timely s s' ∧
      s'.Rotates (done ++ [c]) d rest 5 now' ∧
      now'.toNat = now.toNat + 5 ∧ (s'.account d).Realtime ∧ Behind s s' done := by
  have hfive : (5 : UInt32).toNat = 5 := rfl
  obtain ⟨s₁, ticks', now₁, hreach, hlast, hticks, htime, -, hbehind⟩ :=
    h.runsOn (n := 4) hrealtime (by omega) (by omega)
  have hused : ¬ ticks' > 1 := by
    rw [gt_iff_lt, UInt32.lt_iff_toNat_lt, UInt32.toNat_one]
    omega
  have hlater : (now₁ + 1).toNat = now₁.toNat + 1 := by
    rw [UInt64.toNat_add, UInt64.toNat_one, Nat.mod_eq_of_lt (by omega)]
  obtain ⟨esp', s', hrun, hnext, hlevel, hbehind', -⟩ := hlast.next hused 0 (now₁ + 1)
  exact ⟨s', now₁ + 1, hreach.trans (.single (hlast.timely (by omega)) (step_tick hrun)), hnext,
    by omega, hlevel, hbehind.trans hbehind' (List.Subset.refl _)⟩

/-- The rotation comes to its last thread. -/
theorem Rotates.rounds {l : List UInt32} (h : s.Rotates done c (l ++ [d]) 5 now)
    (hrealtime : (s.account c).Realtime) (hnow : now.toNat + 5 * (l.length + 1) < 2 ^ 64) :
    ∃ s' now', Trace.Reaches SchedulerState.step Timely s s' ∧
      s'.Rotates (done ++ c :: l) d [] 5 now' ∧ now'.toNat = now.toNat + 5 * (l.length + 1) ∧
      (s'.account d).Realtime ∧ Behind s s' done := by
  induction l generalizing s done c now with
  | nil => exact h.quantum hrealtime (by simpa using hnow)
  | cons x l ih =>
      rw [List.length_cons] at hnow
      obtain ⟨s₁, now₁, hreach, hnext, htime, hlevel, hbehind⟩ := h.quantum hrealtime (by omega)
      obtain ⟨s', now', hreach', hlast, htime', hlevel', hbehind'⟩ :=
        ih hnext hlevel (by omega)
      rw [List.append_assoc, List.singleton_append] at hlast
      refine ⟨s', now', hreach.trans hreach', hlast, ?_, hlevel',
        hbehind.trans hbehind' (List.subset_append_left _ _)⟩
      rw [List.length_cons]
      omega

/-! ## New threads -/

/-- A new real-time thread comes last. -/
theorem Rotates.create (h : s.Rotates done c rest ticks now) (hnull : t ≠ 0)
    (hfree : s.allocated t = false) :
    ∃ s', Trace.Reaches SchedulerState.step Timely s s' ∧
      s'.Rotates done c (rest ++ [t]) ticks now ∧ s'.processThreads = t :: s.processThreads ∧
      s'.allocated = Function.update s.allocated t true := by
  obtain ⟨reap, waiting, queued, hinv⟩ := h.inv
  obtain ⟨hring, -, -⟩ := hinv.linkage.fresh hfree
  obtain ⟨s', hrun, hc, hinv'⟩ := hinv.create hnull hfree 0 0 .realtime now
  have hself := threadCreate_block hrun
  have hne : ∀ u ∈ done ++ c :: rest, u ≠ t := by
    rintro u hu rfl
    exact hring hu
  have hnext : done ++ c :: rest ++ [t] = done ++ c :: (rest ++ [t]) := by simp
  have hc' : c ∈ done ++ c :: rest := by simp
  have hex : s.Executing := by
    refine ⟨?_, ?_, ?_⟩
    · rw [h.current]
      rintro rfl
      exact hinv.queues.idle.2.1 hc'
    · rw [h.current]
      exact .inl h.running
    · rw [h.current]
      exact h.calls c hc'
  have hstep : s.step (.create t 0 0 .realtime now) =
      some ({ thread := s.currentThread, value := none }, s') := by
    unfold SchedulerState.step
    rw [perform, hrun]
    rfl
  have hok : s.Timely (.create t 0 0 .realtime now) :=
    ⟨⟨⟨hex, hnull, hfree⟩, trivial⟩, h.clock.symm⟩
  refine ⟨s', .single hok hstep, ?_, hc.processThreads, hc.allocated⟩
  constructor
  · rw [hnext] at hinv'
    exact ⟨reap, waiting, queued, hinv'⟩
  · exact hc.currentThread.trans h.current
  · rw [hc.blocks c (hne c hc')]
    exact h.running
  · rw [hc.blocks c (hne c hc')]
    exact h.ticks
  · rw [threadCreate_clock hrun]
    exact h.clock
  · intro u hu
    by_cases heq : u = t
    · rw [heq, hself]
      rfl
    · rw [hc.blocks u heq]
      apply h.ready
      simp only [List.mem_append, List.mem_singleton] at hu ⊢
      tauto
  · intro u hu
    by_cases heq : u = t
    · rw [heq, account, hself]
      exact ⟨rfl, ⟨ThreadPriority.idle_le _, UInt32.le_refl _, Account.allotment_pos _,
        fun _ => rfl⟩, rfl⟩
    · rw [account, hc.blocks u heq]
      exact h.fresh u ((List.mem_append.mp hu).resolve_right fun hlast =>
        heq (List.mem_singleton.mp hlast))
  · intro u hu
    rw [hc.calls]
    by_cases heq : u = t
    · rw [heq, Function.update_self]
    · rw [Function.update_of_ne heq]
      rw [← hnext] at hu
      exact h.calls u ((List.mem_append.mp hu).resolve_right fun hlast =>
        heq (List.mem_singleton.mp hlast))

theorem Rotates.gather {names : List UInt32} (h : s.Rotates done c rest ticks now)
    (hnames : names.Nodup) (hfree : ∀ t ∈ names, t ≠ 0 ∧ s.allocated t = false) :
    ∃ s', Trace.Reaches SchedulerState.step Timely s s' ∧
      s'.Rotates done c (rest ++ names) ticks now ∧
      ∀ t, t ∈ names ∨ t ∈ s.processThreads → t ∈ s'.processThreads := by
  induction names generalizing s rest with
  | nil =>
      rw [List.append_nil]
      exact ⟨s, .refl s, h, fun t ht => ht.resolve_left List.not_mem_nil⟩
  | cons x names ih =>
      obtain ⟨hnew, hnames⟩ := List.nodup_cons.mp hnames
      obtain ⟨hnull, hunused⟩ := hfree x List.mem_cons_self
      obtain ⟨s₁, hreach, hrotates, hlist, hallocated⟩ := h.create hnull hunused
      obtain ⟨s', hreach', hrotates', hlist'⟩ := ih hrotates hnames fun t ht => by
        obtain ⟨hvalid, hunused⟩ := hfree t (List.mem_cons_of_mem x ht)
        have hne : t ≠ x := by
          rintro rfl
          exact hnew ht
        rw [hallocated, Function.update_of_ne hne]
        exact ⟨hvalid, hunused⟩
      rw [List.append_assoc, List.singleton_append] at hrotates'
      refine ⟨s', hreach.trans hreach', hrotates', fun t ht => hlist' t ?_⟩
      rw [hlist, List.mem_cons]
      simp only [List.mem_cons] at ht
      tauto

/-- The thread that creates the others leaves the CPU to them. -/
theorem Rotates.yield (h : s.Rotates done c (d :: rest) ticks now) :
    ∃ s', Trace.Reaches SchedulerState.step Timely s s' ∧ s'.Rotates (done ++ [c]) d rest 5 now ∧
      (s'.account d).Realtime ∧ s'.processThreads = s.processThreads ∧
      (s'.threads c).waitMarkMs = now := by
  have hframe := s.frame_yielding
  have hstate := core_state s.yielding_core
  obtain ⟨reap, waiting, queued, hinv⟩ := h.inv
  have hc : c ∈ done ++ c :: d :: rest := by simp
  have hnodup := h.nodup
  have hthreads : ∀ t, t ≠ c → s.yielding.threads t = s.threads t := by
    intro t ht
    unfold yielding
    rw [h.current]
    split
    · exact Function.update_of_ne ht _ _
    · rfl
  have hidle : s.currentThread ≠ s.idleThread := by
    rw [h.current]
    rintro rfl
    exact hinv.queues.idle.2.1 hc
  have hyields : s.yielding.Rotates done c (d :: rest) 0 now := by
    constructor
    · exact ⟨reap, waiting, queued, hinv.congr s.yielding_core⟩
    · exact hframe.currentThread.trans h.current
    · exact (hstate c).trans h.running
    · unfold yielding
      rw [if_pos hinv.queues.current_ne_zero, threads_setThread, h.current, Function.update_self]
    · exact hframe.clock.trans h.clock
    · exact fun t ht => (hstate t).trans (h.ready t ht)
    · intro t ht
      have hne : t ≠ c := by
        rintro rfl
        rw [List.nodup_middle, List.nodup_cons] at hnodup
        exact hnodup.1 (List.mem_append_right done ht)
      rw [account, hthreads t hne]
      exact h.fresh t ht
    · have hcalls := congrArg SchedulerState.calls s.yielding_core
      change s.yielding.calls = s.calls at hcalls
      rw [hcalls]
      exact h.calls
  have hlist := congrArg SchedulerState.processThreads s.yielding_core
  change s.yielding.processThreads = s.processThreads at hlist
  obtain ⟨esp', s', hrun, hnext, hlevel, hbehind, hmark⟩ := hyields.next (by decide) 0 now
  have hok : s.Timely (.yield 0 now) := by
    refine ⟨⟨⟨hidle, .inl ?_⟩, trivial⟩, h.clock.symm⟩
    rw [h.current]
    exact h.calls c hc
  exact ⟨s', .single hok (step_yield hrun), hnext, hlevel,
    hbehind.processThreads.trans hlist, hmark⟩

/-! ## The end of a rotation -/

/-- The current thread kills others that have not called anything. -/
theorem Inv.killAll {left : List UInt32} (h : s.Inv ring reap waiting queued)
    (hin : s.currentThread ∈ ring) (hcalls : ∀ t ∈ ring, s.calls t = .none) (hleft : left.Nodup)
    (hkill : ∀ t ∈ left, t ∈ ring ∧ (s.threads t).state = .ready ∧ t ∈ s.processThreads) :
    ∃ s', Trace.Reaches SchedulerState.step Timely s s' ∧
      (∃ reap waiting queued, s'.Inv ring reap waiting queued) ∧
      s'.currentThread = s.currentThread ∧ s'.schedLastMs = s.schedLastMs ∧ s'.calls = s.calls ∧
      (∀ t, t ∉ left → s'.threads t = s.threads t) ∧ ∀ t ∈ left, ¬ s'.Alive t := by
  induction left generalizing s reap waiting queued with
  | nil =>
      exact ⟨s, .refl s, ⟨reap, waiting, queued, h⟩, rfl, rfl, rfl, fun _ _ => rfl,
        fun t ht => absurd ht List.not_mem_nil⟩
  | cons x left ih =>
      obtain ⟨hnew, hleft⟩ := List.nodup_cons.mp hleft
      obtain ⟨hx, hready, hlisted⟩ := hkill x List.mem_cons_self
      have hidle : x ≠ s.idleThread := by
        rintro rfl
        exact h.queues.idle.2.1 hx
      have hcurrent : s.currentThread ≠ s.idleThread := by
        intro heq
        exact h.queues.idle.2.1 (heq ▸ hin)
      have hfree : ¬ s.WaitsForMutex x := by
        rintro ⟨hblocked, -⟩
        rw [hready] at hblocked
        cases hblocked
      have hevent : (s.threads x).waitEvent = 0 := by
        by_contra hwaits
        have hcall := (h.waits.call _ x ((h.waits.mem _ x).mpr ⟨hx, hwaits, rfl⟩)).1
        rw [hcalls x hx] at hcall
        cases hcall
      have hrun : s.processKillThread x = some (s.markDead x) := by
        unfold processKillThread threadDetachFromEvent
        dsimp only
        rw [if_pos hevent]
        rfl
      obtain ⟨s₁, hrun', -, hinv, -⟩ := h.kill hidle hfree
      obtain rfl := Option.some.inj (hrun.symm.trans hrun')
      have hchange := s.changesThread_markDead x
      have hstep : s.step (.kill x) =
          some ({ thread := s.currentThread, value := none }, s.markDead x) := by
        unfold SchedulerState.step
        rw [perform, hrun]
        rfl
      have hok : s.Timely (.kill x) :=
        ⟨⟨⟨hcurrent, hcalls _ hin, hlisted⟩, hfree⟩, trivial⟩
      obtain ⟨s', hreach, hinv', hsame, hclock, hcalls', hothers, hdead⟩ :=
        ih hinv hin hcalls hleft fun t ht => by
          have hne : t ≠ x := by
            rintro rfl
            exact hnew ht
          obtain ⟨hmem, hwants, hlisted⟩ := hkill t (List.mem_cons_of_mem x ht)
          rw [hchange.threads t hne]
          exact ⟨hmem, hwants, (List.mem_erase_of_ne hne).mpr hlisted⟩
      refine ⟨s', .head hok hstep hreach, hinv', hsame, hclock, hcalls', fun t ht => ?_,
        fun t ht => ?_⟩
      · rw [List.mem_cons, not_or] at ht
        exact (hothers t ht.2).trans (hchange.threads t ht.1)
      · rcases List.mem_cons.mp ht with rfl | hmem
        · rw [Alive, hothers t hnew, markDead_block]
          exact not_not.mpr rfl
        · exact hdead t hmem

end SchedulerState

end AvrKernel.Scheduler

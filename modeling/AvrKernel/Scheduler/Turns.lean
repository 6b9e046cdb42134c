import AvrKernel.Lib.Rounds
import AvrKernel.Scheduler.Entry

/-!
# Turns

Who gets the CPU while a thread of the highest effective priority waits for it: the
threads of that priority take turns around the ring.
-/

namespace AvrKernel.Scheduler

open Linked

/-- The account of a real-time thread. -/
structure Account.Realtime (a : Account) : Prop where
  sound : a.Sound
  priority : a.priority = .realtime

namespace SchedulerState

variable {s s' s₂ : SchedulerState} {ring reap l : List UInt32} {t u prev : UInt32} {now : UInt64}
  {goesOn : Bool} {esp esp' : UInt32}

theorem effective_le (s : SchedulerState) (t : UInt32) : s.effective t ≤ 5 :=
  Int.ofNat_le.mpr (ThreadPriority.value_le _)

theorem effective_of_boosted (h : (s.account t).boosted = true) : s.effective t = 5 := by
  have hboosted : (s.threads t).boosted = true := h
  unfold effective ThreadBlock.effective
  rw [if_pos hboosted]
  rfl

theorem effective_of_realtime (h : (s.account t).Realtime) : s.effective t = 5 := by
  have hdyn : (s.threads t).dynPriority = .realtime :=
    (h.sound.realtime h.priority).trans h.priority
  unfold effective ThreadBlock.effective
  rw [hdyn, ite_self]
  rfl

theorem maxPriority_of_five (hqueue : Ring 0 s.next s.threadQueue ring) (ht : t ∈ ring)
    (hwants : s.Runnable t) (hfive : s.effective t = 5) : s.maxPriority = some 5 := by
  obtain ⟨best, hmax, hall, hsome⟩ := maxPriority_eq hqueue
  have hle := hall t ht hwants
  rw [hfive] at hle
  rcases hsome with hnone | ⟨v, -, -, heq⟩
  · rw [hnone] at hle
    exact absurd hle (by decide)
  · have hupper := s.effective_le v
    rw [hmax, show best = 5 by omega]

theorem chooseNext_of_five (hqueue : Ring 0 s.next s.threadQueue ring) (ht : t ∈ ring)
    (hwants : s.Runnable t) (hfive : s.effective t = 5)
    (hrun : s.chooseNext prev esp goesOn = some (esp', s')) :
    (goesOn = true ∧ s.effective prev = 5 ∧
      s' = s.setThread prev fun b => { b with ticksRemaining := b.ticksRemaining - 1 }) ∨
    (¬ (goesOn = true ∧ s.effective prev = 5) ∧
      ∃ next, s.pickNext prev 5 = some next ∧ s' = s.switchTo prev next) := by
  unfold chooseNext at hrun
  rw [maxPriority_of_five hqueue ht hwants hfive] at hrun
  simp only [Option.bind_eq_bind, Option.bind_some] at hrun
  rw [if_neg (by decide)] at hrun
  split at hrun
  next hcontinues =>
    obtain ⟨-, rfl⟩ := Prod.mk.inj (Option.some.inj hrun)
    exact .inl ⟨hcontinues.1, hcontinues.2, rfl⟩
  next hswitches =>
    obtain ⟨next, hpick, hrun⟩ := Option.bind_eq_some_iff.mp hrun
    obtain ⟨-, rfl⟩ := Prod.mk.inj (Option.some.inj hrun)
    exact .inr ⟨hswitches, next, hpick, rfl⟩

/-- The second pass switches to some thread, or leaves the CPU to one that goes on. -/
theorem chooseNext_cases (hidle : s.idleThread ≠ 0)
    (hrun : s.chooseNext prev esp goesOn = some (esp', s')) :
    (goesOn = true ∧
      s' = s.setThread prev fun b => { b with ticksRemaining := b.ticksRemaining - 1 }) ∨
    ∃ next, s' = s.switchTo prev next := by
  unfold chooseNext at hrun
  obtain ⟨best, -, hrun⟩ := Option.bind_eq_some_iff.mp hrun
  split at hrun
  · obtain ⟨-, rfl⟩ := Prod.mk.inj (Option.some.inj hrun)
    exact .inr ⟨_, rfl⟩
  · split at hrun
    next hcontinues =>
      obtain ⟨-, rfl⟩ := Prod.mk.inj (Option.some.inj hrun)
      exact .inl ⟨hcontinues.1, rfl⟩
    next =>
      obtain ⟨next, -, hrun⟩ := Option.bind_eq_some_iff.mp hrun
      obtain ⟨-, rfl⟩ := Prod.mk.inj (Option.some.inj hrun)
      exact .inr ⟨next, rfl⟩

theorem switchTo_clock (s : SchedulerState) (prev next : UInt32) :
    (s.switchTo prev next).schedLastMs = s.schedLastMs := by
  unfold switchTo
  dsimp only
  split <;> split <;> rfl

/-- What an entry at `now` does to the clock, the quanta and the states. -/
structure Timed (s s' : SchedulerState) (ring : List UInt32) (now : UInt64) : Prop where
  clock : s'.schedLastMs = now
  quanta : ∀ t, (s'.threads t).ticksRemaining ≤ (s.threads t).ticksRemaining ∨
    (s'.threads t).ticksRemaining ≤ 5
  /-- The threads that the CPU neither leaves nor goes to. -/
  others : ∀ t ∈ ring, t ≠ s.currentThread →
    (s'.threads t).ticksRemaining = (s.threads t).ticksRemaining ∧
      (t ≠ s'.currentThread → (s'.threads t).state = (s.threads t).found now)
  /-- A thread that loses the CPU stays ready. -/
  preempted : s.currentThread ∈ ring → (s.threads s.currentThread).state = .running →
    s'.currentThread ≠ s.currentThread → (s'.threads s.currentThread).state = .ready
  realtime : ∀ t, (s.account t).Realtime → (s'.account t).Realtime
  boosted : ∀ t ∈ ring, t ≠ s.currentThread → ((s'.account t).boosted = true ↔
    (s.account t).boosted = true ∨ (s.threads t).found now = .ready ∧
      now - (s.account t).waitMarkMs ≥ schedStarvationMs)
  marks : ∀ t ∈ ring, s.Alive t → (s'.account t).waitMarkMs =
    if (s.threads t).found now = .ready then (s.account t).waitMarkMs else now
  alive : ∀ t ∈ ring, s.Alive t → s'.Alive t

theorem Linkage.timed (h : s.Linkage ring reap) (hprepared : Prepared s s₂ ring reap now goesOn)
    (hrun : s₂.chooseNext s.currentThread esp goesOn = some (esp', s')) : Timed s s' ring now := by
  obtain ⟨-, hchosen, -⟩ := h.chosen hprepared hrun
  have hcases := chooseNext_cases (hprepared.idleThread.symm ▸ h.idle.1) hrun
  constructor
  case clock =>
    rw [← hprepared.clock]
    rcases hcases with ⟨-, rfl⟩ | ⟨next, rfl⟩
    · rfl
    · exact s₂.switchTo_clock s.currentThread next
  case quanta =>
    intro t
    rw [← hprepared.quanta t]
    rcases hcases with ⟨hgoesOn, rfl⟩ | ⟨next, rfl⟩
    · left
      rw [threads_setThread]
      by_cases heq : t = s.currentThread
      · subst heq
        rw [Function.update_self]
        have hmore := (hprepared.continues.mp hgoesOn).2.2
        rw [← hprepared.quanta] at hmore
        rw [UInt32.le_iff_toNat_le]
        dsimp only
        rw [UInt32.toNat_sub_of_le _ _ (UInt32.le_of_lt hmore)]
        exact Nat.sub_le _ _
      · rw [Function.update_of_ne heq]
        exact UInt32.le_refl _
    · rw [switchTo_threads]
      dsimp only
      split
      · right
        rw [UInt32.le_iff_toNat_le]
        exact ThreadPriority.value_le _
      · exact .inl (UInt32.le_refl _)
  case others =>
    intro t ht hne
    rw [← hprepared.state t ht, ← hprepared.quanta]
    rcases hcases with ⟨-, rfl⟩ | ⟨next, rfl⟩
    · rw [threads_setThread, Function.update_of_ne hne]
      exact ⟨rfl, fun _ => rfl⟩
    · rw [switchTo_threads, switchTo_current]
      dsimp only
      rw [if_neg fun hprev => hne hprev.1]
      refine ⟨rfl, fun hother => ?_⟩
      rw [if_neg hother, if_neg fun hprev => hne hprev.1]
  case preempted =>
    intro hin hruns hne
    rcases hcases with ⟨-, rfl⟩ | ⟨next, rfl⟩
    · exact absurd hprepared.currentThread hne
    · rw [switchTo_current] at hne
      have hruns₂ : (s₂.threads s.currentThread).state = .running := by
        rw [hprepared.state _ hin]
        exact (wake_running _ now).mpr hruns
      rw [switchTo_threads]
      dsimp only
      rw [if_neg hne.symm, if_pos ⟨rfl, hruns₂⟩]
  case realtime =>
    intro t hrealtime
    rw [hchosen.account]
    exact ⟨hprepared.sound t hrealtime.sound, (hprepared.priority t).trans hrealtime.priority⟩
  case boosted =>
    intro t ht hne
    rw [hchosen.account, hprepared.boosted, and_iff_left fun hprev => hne hprev.1]
    simp only [ht, true_and]
  case marks =>
    intro t ht hlive
    rw [hchosen.account]
    exact hprepared.marks t ht hlive
  case alive =>
    intro t ht hlive
    have hlive₂ := (hprepared.alive ht).mpr hlive
    rcases hcases with ⟨-, rfl⟩ | ⟨next, rfl⟩
    · rw [Alive, threads_setThread]
      by_cases heq : t = s.currentThread
      · subst heq
        rw [Function.update_self]
        exact hlive₂
      · rw [Function.update_of_ne heq]
        exact hlive₂
    · rw [Alive, switchTo_threads]
      dsimp only
      split
      · rintro ⟨⟩
      · split
        · rintro ⟨⟩
        · exact hlive₂

/-- While a thread of the highest priority waits, one of the ring has the CPU. -/
theorem Linkage.busy (h : s.Linkage ring reap) (hprepared : Prepared s s₂ ring reap now goesOn)
    (hrun : s₂.chooseNext s.currentThread esp goesOn = some (esp', s')) (ht : t ∈ ring)
    (hlive : s.Alive t) (hready : s₂.Runnable t) (hfive : s₂.effective t = 5) :
    s'.currentThread ∈ ring.filter fun t => s.Alive t := by
  have hin := (s.mem_alive ring t).mpr ⟨ht, hlive⟩
  rcases chooseNext_of_five hprepared.queue hin hready hfive hrun with
    ⟨hgoesOn, -, rfl⟩ | ⟨-, next, hpick, rfl⟩
  · obtain ⟨hidle, hruns, -⟩ := hprepared.continues.mp hgoesOn
    have hmem := h.current.resolve_left hidle
    rw [show SchedulerState.currentThread (setThread _ _ _) = s.currentThread from
      hprepared.currentThread]
    refine (s.mem_alive ring _).mpr ⟨hmem, ?_⟩
    rw [Alive, hruns]
    rintro ⟨⟩
  · obtain ⟨u, hu, -, -, hfirst⟩ := pickNext_eq hprepared.queue
      (hprepared.currentThread.symm ▸ h.rotates hprepared) ⟨t, hin, hready, hfive⟩
    rw [hprepared.currentThread, hpick] at hfirst
    obtain rfl := Option.some.inj hfirst
    exact hu

/-- The rotation starts behind a thread of the ring. -/
theorem pickNext_behind (hidle : prev ≠ s.idleThread) (hlive : s.Alive prev) (best : Int) :
    s.pickNext prev best = walk (fun t => decide (s.Runnable t ∧ s.effective t = best)) s.next
      addressSpace (s.next prev) := by
  unfold pickNext
  rw [if_neg (not_or.mpr ⟨hidle, hlive⟩)]

/-- While a thread of the highest priority waits for its turn, the current one has the
rest of its quantum, or the CPU goes to a thread on the way to the one that waits. -/
theorem Linkage.turn (h : s.Linkage ring reap) (hprepared : Prepared s s₂ ring reap now goesOn)
    (hrun : s₂.chooseNext s.currentThread esp goesOn = some (esp', s'))
    (hlive : ∀ u ∈ ring, s.Alive u) (hcurrent : s.currentThread ∈ ring) (ht : t ∈ ring)
    (hready : s₂.Runnable t) (hfive : s₂.effective t = 5)
    (hbetween : Between ring s.currentThread l t) :
    (goesOn = true ∧ s₂.effective s.currentThread = 5 ∧ s'.currentThread = s.currentThread ∧
      (s'.threads s.currentThread).ticksRemaining =
        (s.threads s.currentThread).ticksRemaining - 1) ∨
    (¬ (goesOn = true ∧ s₂.effective s.currentThread = 5) ∧
      (s'.currentThread = t ∨ ∃ l₁ l₂, l = l₁ ++ s'.currentThread :: l₂)) := by
  have hring : ring.filter (fun t => s.Alive t) = ring :=
    List.filter_eq_self.mpr fun u hu => decide_eq_true (hlive u hu)
  have hqueue := hprepared.queue
  rw [hring] at hqueue
  rcases chooseNext_of_five hqueue ht hready hfive hrun with
    ⟨hgoesOn, heffective, rfl⟩ | ⟨hstops, next, hpick, rfl⟩
  · refine .inl ⟨hgoesOn, heffective, hprepared.currentThread, ?_⟩
    rw [threads_setThread, Function.update_self, ← hprepared.quanta]
  · refine .inr ⟨hstops, ?_⟩
    have hidle : s.currentThread ≠ s₂.idleThread := by
      rw [hprepared.idleThread]
      rintro heq
      exact h.idle.2.1 (heq ▸ hcurrent)
    have halive : s₂.Alive s.currentThread := by
      rw [Alive, hprepared.state _ hcurrent]
      exact fun hdead => hlive _ hcurrent ((found_dead _ now).mp hdead)
    rw [pickNext_behind hidle halive] at hpick
    rw [s₂.switchTo_current]
    rcases hbetween.walk hqueue (fun t => decide (s₂.Runnable t ∧ s₂.effective t = 5))
        (decide_eq_true ⟨hready, hfive⟩) (length_lt_addressSpace hqueue.nodup hqueue.valid).le with
      hfirst | ⟨l₁, y, l₂, hsplit, hfirst⟩
    · exact .inl (Option.some.inj (hpick.symm.trans hfirst))
    · obtain rfl := Option.some.inj (hpick.symm.trans hfirst)
      exact .inr ⟨l₁, l₂, hsplit⟩

end SchedulerState

end AvrKernel.Scheduler

import AvrKernel.Scheduler.Dynamic
import AvrKernel.Scheduler.Step

/-!
# An entry of the handler

The state in which the second pass of `thread_handler_c` begins, and what the second
pass leaves alone.
-/

namespace AvrKernel.Scheduler

open Linked

namespace SchedulerState

variable {s s' : SchedulerState} {ring ring' reap : List UInt32} {t : UInt32} {now : UInt64}

theorem switchTo_account (s : SchedulerState) (prev next t : UInt32) :
    (s.switchTo prev next).account t = s.account t := by
  rw [account, switchTo_threads]
  rfl

/-- What the second pass leaves alone. -/
structure Chosen (s s' : SchedulerState) : Prop where
  account : ∀ t, s'.account t = s.account t
  next : s'.next = s.next
  reapNext : s'.reapNext = s.reapNext
  threadQueue : s'.threadQueue = s.threadQueue
  reapList : s'.reapList = s.reapList
  idleThread : s'.idleThread = s.idleThread
  allocated : s'.allocated = s.allocated

theorem chosen_switchTo (s : SchedulerState) (prev next : UInt32) :
    Chosen s (s.switchTo prev next) := by
  obtain ⟨hqueue, hlist, -, hallocated⟩ := s.switchTo_variables prev next
  have hothers := congrArg SchedulerState.idleThread (s.switchTo_others prev next)
  refine ⟨s.switchTo_account prev next, funext fun t => ?_, funext fun t => ?_,
    hqueue, hlist, hothers,
    hallocated⟩
  · have hblock := congrArg ThreadBlock.next (s.switchTo_threads prev next t)
    exact hblock
  · have hblock := congrArg ThreadBlock.reapNext (s.switchTo_threads prev next t)
    exact hblock

theorem switchTo_current (s : SchedulerState) (prev next : UInt32) :
    (s.switchTo prev next).currentThread = next := rfl

/-- The second pass gives the CPU to the idle thread or to one of the ring, and
leaves it to a boosted thread that has more of its quantum. -/
theorem chooseNext_chosen {prev : UInt32} (hprev : s.currentThread = prev)
    (hqueue : Ring 0 s.next s.threadQueue ring)
    (hcurrent : prev = s.idleThread ∨ prev ∈ ring ∨ ¬ s.Alive prev) (hidle : s.idleThread ≠ 0)
    {continues : Bool} (hcontinues : continues = true → prev ∈ ring ∧ s.Runnable prev)
    {esp esp' : UInt32} (hrun : s.chooseNext prev esp continues = some (esp', s')) :
    Chosen s s' ∧ (s'.currentThread = s.idleThread ∨ s'.currentThread ∈ ring) ∧
      (continues = true → (s.account prev).boosted = true → s'.currentThread = prev) := by
  subst hprev
  obtain ⟨best, hmax, hall, hsome⟩ := maxPriority_eq hqueue
  have hboosted : continues = true → (s.account s.currentThread).boosted = true →
      s.effective s.currentThread = best := by
    intro hcontinue hboost
    have hfive : s.effective s.currentThread = 5 := by
      unfold effective ThreadBlock.effective
      change (s.threads s.currentThread).boosted = true at hboost
      rw [if_pos hboost]
      rfl
    obtain ⟨hin, hwants⟩ := hcontinues hcontinue
    have hle := hall _ hin hwants
    rw [hfive] at hle ⊢
    refine le_antisymm hle ?_
    rcases hsome with hnone | ⟨u, -, -, heq⟩
    · rw [hnone]
      decide
    · rw [← heq]
      exact Int.ofNat_le.mpr (ThreadPriority.value_le _)
  unfold chooseNext at hrun
  rw [hmax] at hrun
  simp only [Option.bind_eq_bind, Option.bind_some] at hrun
  by_cases hnone : best = -1
  · rw [if_pos hnone, if_neg hidle] at hrun
    obtain ⟨-, rfl⟩ := Prod.mk.inj (Option.some.inj hrun)
    refine ⟨s.chosen_switchTo _ _, .inl rfl, fun hcontinue hboost => ?_⟩
    have heffective := s.effective_pos s.currentThread
    rw [hboosted hcontinue hboost, hnone] at heffective
    exact absurd heffective (lt_irrefl _)
  · rw [if_neg hnone] at hrun
    split at hrun
    · rename_i hcontinue
      obtain ⟨-, rfl⟩ := Prod.mk.inj (Option.some.inj hrun)
      have hcore : (s.setThread s.currentThread fun t =>
          { t with ticksRemaining := t.ticksRemaining - 1 }).core = s.core := by
        apply core_setThread
        exact fun _ => rfl
      refine ⟨⟨account_setThread _ ?_, core_next hcore, core_reapNext hcore, rfl, rfl, rfl, rfl⟩,
        .inr (hcontinues hcontinue.1).1, fun _ _ => rfl⟩
      exact fun _ => rfl
    · rename_i hother
      obtain ⟨u, hu, -, -, hpick⟩ := pickNext_eq hqueue hcurrent (hsome.resolve_left hnone)
      rw [hpick] at hrun
      obtain ⟨-, rfl⟩ := Prod.mk.inj (Option.some.inj hrun)
      refine ⟨s.chosen_switchTo _ _, .inr hu, fun hcontinue hboost => ?_⟩
      exact absurd ⟨hcontinue, hboosted hcontinue hboost⟩ hother

theorem dropBoost_account (s : SchedulerState) (prev t : UInt32) :
    (s.dropBoost prev).account t = if t = prev ∧ prev ≠ s.idleThread ∧ ¬ s.PrevContinues prev then
      { s.account t with boosted := false } else s.account t := by
  unfold dropBoost
  by_cases hdrop : prev ≠ s.idleThread ∧ ¬ s.PrevContinues prev
  · rw [if_pos hdrop, account, threads_setThread]
    by_cases heq : t = prev
    · subst heq
      rw [Function.update_self, if_pos ⟨rfl, hdrop⟩]
      rfl
    · rw [Function.update_of_ne heq, if_neg fun h => heq h.1]
      rfl
  · rw [if_neg hdrop, if_neg fun h => hdrop h.2]

/-- The first pass ages the threads of the ring that live. -/
theorem Linkage.passed {s₁ : SchedulerState} (h : s.Linkage ring reap) {esp : UInt32}
    (hpass : passOne now ring.length (s.beforePass reap esp now)
      (s.beforePass reap esp now).threadQueue = some s₁) (t : UInt32) :
    (t ∈ ring ∧ s.Alive t → ThreadBlock.Aged now (s.threads t) (s₁.threads t)) ∧
      (¬ (t ∈ ring ∧ s.Alive t) → ThreadBlock.Charged (s.threads t) (s₁.threads t)) := by
  obtain ⟨hring, hlist⟩ := beforePass_links reap h.queue esp now
  have hfirst : ∀ x l, ring = x :: l → (s.beforePass reap esp now).threadQueue = x := by
    rintro x l rfl
    exact (hring.path (List.cons_ne_nil x l)).head_eq
  have hcharged := s.charged_beforePass reap esp now t
  have halive : (s.beforePass reap esp now).Alive t ↔ s.Alive t := by
    rw [Alive, hcharged.state]
  obtain ⟨haged, hother⟩ :=
    passOne_aged now [] hring hlist (fun _ _ => List.not_mem_nil) hfirst hpass t
  constructor
  · intro hin
    exact hcharged.aged (haged ⟨hin.1, halive.mpr hin.2⟩)
  · intro hout
    exact hcharged.trans (hother fun hin => hout ⟨hin.1, halive.mp hin.2⟩).2

theorem found_dead (b : ThreadBlock) (now : UInt64) : b.found now = .dead ↔ b.state = .dead :=
  (wake_progress b now).dead

/-- The state in which the second pass begins, with the boost of the outgoing thread
dropped if it does not go on. -/
structure Prepared (s s₂ : SchedulerState) (ring reap : List UInt32) (now : UInt64)
    (goesOn : Bool) : Prop where
  currentThread : s₂.currentThread = s.currentThread
  idleThread : s₂.idleThread = s.idleThread
  queue : Ring 0 s₂.next s₂.threadQueue (ring.filter fun t => s.Alive t)
  reaped : Chain 0 s₂.reapNext s₂.reapList (ring.filter fun t => ¬ s.Alive t).reverse
  allocated : s₂.allocated = fun t => s.allocated t && !decide (t ∈ reap)
  clock : s₂.schedLastMs = now
  continues : goesOn = true ↔ s.currentThread ≠ s.idleThread ∧
    (s.threads s.currentThread).state = .running ∧
    (s.threads s.currentThread).ticksRemaining > 1
  sound : ∀ t, (s.account t).Sound → (s₂.account t).Sound
  priority : ∀ t, (s₂.account t).priority = (s.account t).priority
  state : ∀ t ∈ ring, (s₂.threads t).state = (s.threads t).found now
  marks : ∀ t ∈ ring, s.Alive t → (s₂.account t).waitMarkMs =
    if (s.threads t).found now = .ready then (s.account t).waitMarkMs else now
  boosted : ∀ t, (s₂.account t).boosted = true ↔
    ((s.account t).boosted = true ∨ t ∈ ring ∧ (s.threads t).found now = .ready ∧
      now - (s.account t).waitMarkMs ≥ schedStarvationMs) ∧
    ¬ (t = s.currentThread ∧ s.currentThread ≠ s.idleThread ∧ goesOn = false)
  quanta : ∀ t, (s₂.threads t).ticksRemaining = (s.threads t).ticksRemaining

theorem dropBoost_threads (s : SchedulerState) (prev t : UInt32) :
    ((s.dropBoost prev).threads t).state = (s.threads t).state ∧
      ((s.dropBoost prev).threads t).ticksRemaining = (s.threads t).ticksRemaining := by
  unfold dropBoost
  split
  · rw [threads_setThread]
    by_cases heq : t = prev
    · subst heq
      rw [Function.update_self]
      exact ⟨rfl, rfl⟩
    · rw [Function.update_of_ne heq]
      exact ⟨rfl, rfl⟩
  · exact ⟨rfl, rfl⟩

/-- An entry of the handler comes to its second pass. -/
theorem Linkage.prepared (h : s.Linkage ring reap) (hne : ring ≠ []) (esp : UInt32) (now : UInt64) :
    ∃ s₂ goesOn, s.threadHandlerC esp now = s₂.chooseNext s.currentThread esp goesOn ∧
      Prepared s s₂ ring reap now goesOn := by
  obtain ⟨s₁, hpass, hpassed, hhandler⟩ :=
    threadHandlerC_passes h.queue h.reaped hne h.current_ne_zero esp now
  have hcore := s.beforePass_core reap esp now
  have hboost : (s₁.dropBoost s.currentThread).core = s₁.core := core_dropBoost
  have hidle : s₁.idleThread = s.idleThread := by
    have hsame := congrArg SchedulerState.idleThread hcore
    have hothers := congrArg SchedulerState.idleThread hpassed.others
    exact hothers.trans hsame
  have hpasses := h.passed hpass
  -- what the first pass makes of the outgoing thread
  have hstate : (s₁.threads s.currentThread).state = .running ↔
      (s.threads s.currentThread).state = .running := by
    rw [hpassed.running, core_state hcore]
    rfl
  have hquanta : ∀ t, (s₁.threads t).ticksRemaining = (s.threads t).ticksRemaining := by
    intro t
    by_cases hin : t ∈ ring ∧ s.Alive t
    · exact ((hpasses t).1 hin).ticksRemaining
    · exact ((hpasses t).2 hin).ticksRemaining
  have hcontinues : s₁.PrevContinues s.currentThread ↔ s.currentThread ≠ s.idleThread ∧
      (s.threads s.currentThread).state = .running ∧
      (s.threads s.currentThread).ticksRemaining > 1 := by
    unfold PrevContinues
    rw [hidle, hstate, hquanta]
  refine ⟨s₁.dropBoost s.currentThread, decide (s₁.PrevContinues s.currentThread), hhandler, ?_⟩
  constructor
  case currentThread =>
    have hunchanged := congrArg SchedulerState.currentThread hboost
    have hsame := congrArg SchedulerState.currentThread hcore
    exact hunchanged.trans (hpassed.current.trans hsame)
  case idleThread =>
    have hunchanged := congrArg SchedulerState.idleThread hboost
    exact hunchanged.trans hidle
  case queue =>
    have hthreadQueue := congrArg SchedulerState.threadQueue hboost
    change (s₁.dropBoost s.currentThread).threadQueue = s₁.threadQueue at hthreadQueue
    rw [core_next hboost, hthreadQueue]
    exact hpassed.queue
  case reaped =>
    have hreapList := congrArg SchedulerState.reapList hboost
    change (s₁.dropBoost s.currentThread).reapList = s₁.reapList at hreapList
    rw [core_reapNext hboost, hreapList, ← List.append_nil (List.reverse _)]
    exact hpassed.reaped
  case allocated =>
    have hsame := congrArg SchedulerState.allocated hcore
    have hunchanged := congrArg SchedulerState.allocated hboost
    exact hunchanged.trans (hpassed.allocated.trans hsame)
  case clock =>
    have hdrop : (s₁.dropBoost s.currentThread).schedLastMs = s₁.schedLastMs := by
      unfold dropBoost
      split <;> rfl
    rw [hdrop, passOne_clock now hpass]
    unfold beforePass chargePrev
    dsimp only
    split <;> rfl
  case continues => rw [decide_eq_true_iff, hcontinues]
  case sound =>
    intro t hsound
    have hafter : (s₁.account t).Sound := by
      by_cases hin : t ∈ ring ∧ s.Alive t
      · exact ((hpasses t).1 hin).sound hsound
      · exact ((hpasses t).2 hin).sound hsound
    rw [dropBoost_account]
    split
    · exact ⟨hafter.lower, hafter.upper, hafter.used, hafter.realtime⟩
    · exact hafter
  case priority =>
    intro t
    have hafter : (s₁.account t).priority = (s.account t).priority := by
      by_cases hin : t ∈ ring ∧ s.Alive t
      · exact ((hpasses t).1 hin).priority
      · exact ((hpasses t).2 hin).priority
    rw [dropBoost_account]
    split
    · exact hafter
    · exact hafter
  case state =>
    intro t ht
    rw [(s₁.dropBoost_threads s.currentThread t).1]
    by_cases hlive : s.Alive t
    · exact ((hpasses t).1 ⟨ht, hlive⟩).state
    · rw [((hpasses t).2 fun hin => hlive hin.2).state, (found_dead _ now).mpr (not_not.mp hlive)]
      exact not_not.mp hlive
  case marks =>
    intro t ht hlive
    have hmark := ((hpasses t).1 ⟨ht, hlive⟩).waitMarkMs
    rw [dropBoost_account]
    split
    · exact hmark
    · exact hmark
  case boosted =>
    intro t
    have hafter : (s₁.account t).boosted = true ↔ (s.account t).boosted = true ∨
        t ∈ ring ∧ (s.threads t).found now = .ready ∧
          now - (s.account t).waitMarkMs ≥ schedStarvationMs := by
      by_cases hin : t ∈ ring ∧ s.Alive t
      · refine ((hpasses t).1 hin).boosted.trans ?_
        simp only [hin.1, true_and]
        exact Iff.rfl
      · have hsame : (s₁.account t).boosted = (s.account t).boosted := ((hpasses t).2 hin).boosted
        rw [hsame]
        constructor
        · exact .inl
        · rintro (hboosted | ⟨hmem, hready, -⟩)
          · exact hboosted
          · refine absurd ⟨hmem, fun hdead => ?_⟩ hin
            rw [(found_dead _ now).mpr hdead] at hready
            cases hready
    rw [dropBoost_account, decide_eq_false_iff_not, ← hidle]
    split
    · rename_i hdrop
      exact iff_of_false nofun fun hkept => hkept.2 hdrop
    · rename_i hdrop
      rw [hafter]
      exact (and_iff_left hdrop).symm
  case quanta =>
    intro t
    rw [(s₁.dropBoost_threads s.currentThread t).2, hquanta]

theorem Prepared.alive {s₂ : SchedulerState} {goesOn : Bool}
    (hprepared : Prepared s s₂ ring reap now goesOn) (ht : t ∈ ring) : s₂.Alive t ↔ s.Alive t := by
  rw [Alive, hprepared.state _ ht]
  exact not_congr (found_dead _ now)

/-- Where the second pass looks for the next thread. -/
theorem Linkage.rotates {s₂ : SchedulerState} {goesOn : Bool} (h : s.Linkage ring reap)
    (hprepared : Prepared s s₂ ring reap now goesOn) : s.currentThread = s₂.idleThread ∨
      s.currentThread ∈ ring.filter (fun t => s.Alive t) ∨ ¬ s₂.Alive s.currentThread := by
  rw [hprepared.idleThread, mem_alive]
  rcases h.current with hidle | hin
  · exact .inl hidle
  · right
    rw [hprepared.alive hin]
    exact (em _).imp_left fun hlive => ⟨hin, hlive⟩

/-- The second pass keeps the links. -/
theorem Linkage.chosen {s₂ : SchedulerState} {goesOn : Bool} (h : s.Linkage ring reap)
    (hprepared : Prepared s s₂ ring reap now goesOn) {esp esp' : UInt32}
    (hrun : s₂.chooseNext s.currentThread esp goesOn = some (esp', s')) :
    s'.Linkage (ring.filter fun t => s.Alive t) (ring.filter fun t => ¬ s.Alive t).reverse ∧
      Chosen s₂ s' ∧ (goesOn = true → (s₂.account s.currentThread).boosted = true →
        s'.currentThread = s.currentThread) := by
  have hgoesOn : goesOn = true → s.currentThread ∈ ring.filter (fun t => s.Alive t) ∧
      s₂.Runnable s.currentThread := by
    intro hgoesOn
    obtain ⟨hnotIdle, hruns, -⟩ := hprepared.continues.mp hgoesOn
    have hin := h.current.resolve_left hnotIdle
    refine ⟨(s.mem_alive ring _).mpr ⟨hin, ?_⟩, .inr ?_⟩
    · rw [Alive, hruns]
      rintro ⟨⟩
    · rw [hprepared.state _ hin]
      exact (wake_running _ now).mpr hruns
  obtain ⟨hchosen, hnext, hkeeps⟩ := chooseNext_chosen hprepared.currentThread hprepared.queue
    (h.rotates hprepared) (hprepared.idleThread.symm ▸ h.idle.1) hgoesOn hrun
  have hidle : s'.idleThread = s.idleThread := hchosen.idleThread.trans hprepared.idleThread
  have hdead : ∀ t, t ∈ (ring.filter fun t => ¬ s.Alive t).reverse ↔ t ∈ ring ∧ ¬ s.Alive t :=
    s.mem_dead ring
  refine ⟨⟨?_, ?_, ?_, ?_, ?_, ?_⟩, hchosen, hkeeps⟩
  · rw [hchosen.next, hchosen.threadQueue]
    exact hprepared.queue
  · rw [hchosen.reapNext, hchosen.reapList]
    exact hprepared.reaped
  · intro t ht hin
    exact ((hdead t).mp hin).2 ((s.mem_alive ring t).mp ht).2
  · rw [hidle]
    exact ⟨h.idle.1, fun hin => h.idle.2.1 ((s.mem_alive ring _).mp hin).1,
      fun hin => h.idle.2.1 ((hdead _).mp hin).1⟩
  · rw [hidle, ← hprepared.idleThread]
    exact hnext
  · intro t ht
    rw [hchosen.allocated, hprepared.allocated]
    rw [hidle] at ht
    have hnot : t ∉ reap ∧ s.allocated t = true := by
      rcases ht with hin | hin | rfl
      · have hmem := ((s.mem_alive ring t).mp hin).1
        exact ⟨h.apart t hmem, h.allocated t (.inl hmem)⟩
      · have hmem := ((hdead t).mp hin).1
        exact ⟨h.apart t hmem, h.allocated t (.inl hmem)⟩
      · exact ⟨h.idle.2.2, h.allocated _ (.inr (.inr rfl))⟩
    simp [hnot.1, hnot.2]

end SchedulerState

end AvrKernel.Scheduler

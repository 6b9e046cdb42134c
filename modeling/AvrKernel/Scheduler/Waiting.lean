import AvrKernel.Scheduler.Outside
import AvrKernel.Scheduler.Turns

/-!
# Waiting for the CPU

How long the threads of the ring wait while no thread comes or goes and the handler
is entered every millisecond. A thread that has waited for too long is boosted, and
then those that are before it on the ring have a quantum each at most.
-/

namespace AvrKernel.Scheduler

open Linked

namespace SchedulerState

variable {s s' s₂ : SchedulerState} {ring reap : List UInt32} {t : UInt32} {since now : UInt64}
  {goesOn : Bool} {esp esp' : UInt32}

/-- How long the thread has waited by the clock, from `since` on. -/
def waited (s : SchedulerState) (since : UInt64) (t : UInt32) : Nat :=
  s.schedLastMs.toNat - max since.toNat (s.threads t).waitMarkMs.toNat

/-- A boosted thread gets the CPU when those on the way to it have had their quanta. -/
structure InTurn (s : SchedulerState) (ring : List UInt32) (since : UInt64) (t : UInt32) :
    Prop where
  alive : ∀ u ∈ ring, s.Alive u
  boosted : (s.threads t).boosted = true
  way : ∃ l, Between ring s.currentThread l t ∧
    s.waited since t + max (s.threads s.currentThread).ticksRemaining.toNat 1 + 5 * l.length ≤
      100 + 5 * (ring.length - 1)

/-- No thread of the ring has waited for too long. -/
structure Served (s : SchedulerState) (ring : List UInt32) (since : UInt64) : Prop where
  quanta : ∀ t, (s.threads t).ticksRemaining ≤ 5
  since_le : since ≤ s.schedLastMs
  atWork : s.schedLastMs = since ∨ s.AtWork
  turns : ∀ t ∈ ring, t ≠ s.currentThread → s.waited since t ≤ 99 ∨ s.InTurn ring since t

/-- In the first state nobody has waited. -/
theorem Served.start (hquanta : ∀ t, (s.threads t).ticksRemaining ≤ 5) :
    s.Served ring s.schedLastMs where
  quanta := hquanta
  since_le := UInt64.le_refl _
  atWork := .inl rfl
  turns t _ _ := by
    left
    unfold waited
    omega

/-- A thread that wants the CPU has not waited for longer than its way takes. -/
theorem Served.bound (h : s.Served ring since) (ht : t ∈ ring)
    (hready : (s.threads t).state = .ready) :
    s.waited since t ≤ 100 + 5 * (ring.filter fun t => s.Alive t).length := by
  by_cases hcurrent : t = s.currentThread
  · rcases h.atWork with hclock | hwork
    · unfold waited
      rw [hclock]
      omega
    · exact absurd (hcurrent ▸ hready) hwork.not_ready
  · rcases h.turns t ht hcurrent with hshort | hturn
    · omega
    · obtain ⟨l, -, hway⟩ := hturn.way
      have hall : ring.filter (fun t => s.Alive t) = ring :=
        List.filter_eq_self.mpr fun u hu => decide_eq_true (hturn.alive u hu)
      rw [hall]
      omega

/-! ## Outside of the handler -/

theorem Frame.waited (hf : Frame s s') (since : UInt64) (t : UInt32) :
    s'.waited since t = s.waited since t := by
  have hmark := congrArg Account.waitMarkMs (hf.blocks t).account
  change (s'.threads t).waitMarkMs = (s.threads t).waitMarkMs at hmark
  unfold SchedulerState.waited
  rw [hf.clock, hmark]

theorem Served.frame (h : s.Served ring since) (hf : Frame s s') (hout : Outside s s') :
    s'.Served ring since where
  quanta t := UInt32.le_trans (hf.blocks t).quantum (h.quanta t)
  since_le := hf.clock.symm ▸ h.since_le
  atWork := by
    rw [hf.clock]
    exact h.atWork.imp_right hout.atWork
  turns t ht hne := by
    rw [hf.currentThread] at hne
    rw [hf.waited]
    refine (h.turns t ht hne).imp_right fun hturn => ?_
    obtain ⟨l, hbetween, hway⟩ := hturn.way
    have hboosted := congrArg Account.boosted (hf.blocks t).account
    change (s'.threads t).boosted = (s.threads t).boosted at hboosted
    refine ⟨fun u hu => hout.alive u (hturn.alive u hu), hboosted.trans hturn.boosted, l, ?_, ?_⟩
    · rw [hf.currentThread]
      exact hbetween
    · have hquantum := UInt32.le_iff_toNat_le.mp (hf.blocks s.currentThread).quantum
      rw [hf.waited, hf.currentThread]
      omega

/-! ## An entry of the handler -/

/-- From one entry to the next a thread waits a millisecond longer, or not at all. -/
theorem Timed.waited (h : Timed s s' ring now) (hsoon : now.toNat ≤ s.schedLastMs.toNat + 1)
    (ht : t ∈ ring) (hlive : s.Alive t) (since : UInt64) :
    s'.waited since t ≤ if (s.threads t).found now = .ready then s.waited since t + 1 else 0 := by
  have hmark := h.marks t ht hlive
  change (s'.threads t).waitMarkMs = if _ then (s.threads t).waitMarkMs else now at hmark
  unfold SchedulerState.waited
  rw [h.clock, hmark]
  split
  · omega
  · omega

/-- A thread that was found ready and is not boosted has not waited for long. -/
theorem Timed.young (h : Timed s s' ring now) (ht : t ∈ ring) (hlive : s.Alive t)
    (hne : t ≠ s.currentThread) (hready : (s.threads t).found now = .ready)
    (hplain : (s'.threads t).boosted ≠ true) : s'.waited since t ≤ 99 := by
  have hmark := h.marks t ht hlive
  change (s'.threads t).waitMarkMs = if _ then (s.threads t).waitMarkMs else now at hmark
  have hshort : ¬ now - (s.threads t).waitMarkMs ≥ schedStarvationMs := by
    intro hlong
    exact hplain ((h.boosted t ht hne).mpr (.inr ⟨hready, hlong⟩))
  unfold SchedulerState.waited
  rw [h.clock, hmark, if_pos hready]
  by_cases hle : (s.threads t).waitMarkMs ≤ now
  · rw [ge_iff_le, UInt64.le_iff_toNat_le, UInt64.toNat_sub_of_le _ _ hle] at hshort
    have hhundred : schedStarvationMs.toNat = 100 := rfl
    omega
  · rw [UInt64.le_iff_toNat_le] at hle
    omega

theorem exists_turn (halive : ∀ u ∈ ring, s.Alive u)
    (hquanta : ∀ t, (s.threads t).ticksRemaining ≤ 5)
    (hcurrent : s.currentThread ∈ ring) (ht : t ∈ ring) (hne : t ≠ s.currentThread)
    (hboosted : (s.threads t).boosted = true) (hwaited : s.waited since t ≤ 100) :
    s.InTurn ring since t := by
  obtain ⟨l, hbetween⟩ := exists_between hcurrent ht hne.symm
  have hlength := hbetween.length_le
  have hquantum := UInt32.le_iff_toNat_le.mp (hquanta s.currentThread)
  have hfive : (5 : UInt32).toNat = 5 := rfl
  refine ⟨halive, hboosted, l, hbetween, ?_⟩
  omega

/-- A boosted thread comes closer to the CPU by a millisecond of the quantum of the current
thread, or by a thread on its way. -/
theorem InTurn.entered (h : s.InTurn ring since t) (hlink : s.Linkage ring reap)
    (hprepared : Prepared s s₂ ring reap now goesOn)
    (hrun : s₂.chooseNext s.currentThread esp goesOn = some (esp', s')) (ht : t ∈ ring)
    (hready : s₂.Runnable t) (hfive : s₂.effective t = 5) (hne : t ≠ s'.currentThread)
    (halive : ∀ u ∈ ring, s'.Alive u) (hquanta : ∀ t, (s'.threads t).ticksRemaining ≤ 5)
    (hboosted : (s'.threads t).boosted = true)
    (hwaited : s'.waited since t ≤ s.waited since t + 1) :
    s'.InTurn ring since t := by
  obtain ⟨l, hbetween, hway⟩ := h.way
  have hcurrent : s.currentThread ∈ ring := by
    obtain ⟨rest, hrotated⟩ := hbetween
    exact hrotated.mem_iff.mpr List.mem_cons_self
  rcases hlink.turn hprepared hrun h.alive hcurrent ht hready hfive hbetween with
    ⟨hgoesOn, -, hsame, hticks⟩ | ⟨-, htaken | ⟨l₁, l₂, rfl⟩⟩
  · -- the current thread has the rest of its quantum
    have hmore := (hprepared.continues.mp hgoesOn).2.2
    have hone := UInt32.lt_iff_toNat_lt.mp hmore
    rw [UInt32.toNat_one] at hone
    refine ⟨halive, hboosted, l, hsame.symm ▸ hbetween, ?_⟩
    rw [hsame, hticks, UInt32.toNat_sub_of_le _ _ (UInt32.le_of_lt hmore), UInt32.toNat_one]
    omega
  · exact absurd htaken.symm hne
  · -- one on the way has a quantum of its own
    have hquantum := UInt32.le_iff_toNat_le.mp (hquanta s'.currentThread)
    have hlimit : (5 : UInt32).toNat = 5 := rfl
    refine ⟨halive, hboosted, l₂, hbetween.after, ?_⟩
    rw [List.length_append, List.length_cons] at hway
    omega

theorem Served.entered (h : s.Served ring since) (hlink : s.Linkage ring reap) (hne : ring ≠ [])
    (hlater : s.schedLastMs ≤ now) (hsoon : now.toNat ≤ s.schedLastMs.toNat + 1)
    (hprev : s.schedLastMs = since ∨ (s.threads s.currentThread).found now ≠ .ready)
    (hrun : s.threadHandlerC esp now = some (esp', s'))
    (hruns : (s'.threads s'.currentThread).state = .running) :
    s'.Served (ring.filter fun t => s.Alive t) since := by
  obtain ⟨s₂, goesOn, hhandler, hprepared⟩ := hlink.prepared hne esp now
  rw [hhandler] at hrun
  have htimed := hlink.timed hprepared hrun
  obtain ⟨-, hchosen, -⟩ := hlink.chosen hprepared hrun
  have hquanta : ∀ t, (s'.threads t).ticksRemaining ≤ 5 := by
    intro t
    rcases htimed.quanta t with hle | hle
    · exact UInt32.le_trans hle (h.quanta t)
    · exact hle
  have halive : ∀ u ∈ ring.filter (fun t => s.Alive t), s'.Alive u := by
    intro u hu
    obtain ⟨hin, hlive⟩ := (s.mem_alive ring u).mp hu
    exact htimed.alive u hin hlive
  refine ⟨hquanta, ?_, .inr (.of_running hruns), fun t ht hnot => ?_⟩
  · rw [htimed.clock]
    exact UInt64.le_trans h.since_le hlater
  · obtain ⟨hin, hlive⟩ := (s.mem_alive ring t).mp ht
    have hwaited := htimed.waited hsoon hin hlive since
    rcases hprev with hclock | hprev
    · -- no time has passed before this entry
      left
      have hzero : s.waited since t = 0 := by
        unfold SchedulerState.waited
        rw [hclock]
        omega
      split at hwaited <;> omega
    · by_cases hready : (s.threads t).found now = .ready
      · have hother : t ≠ s.currentThread := by
          rintro rfl
          exact hprev hready
        rw [if_pos hready] at hwaited
        by_cases hboosted : (s'.threads t).boosted = true
        · right
          have hruns₂ : s₂.Runnable t := .inl ((hprepared.state t hin).trans hready)
          have hfive : s₂.effective t = 5 :=
            effective_of_boosted ((congrArg Account.boosted (hchosen.account t)).symm.trans
              hboosted)
          rcases h.turns t hin hother with hshort | hturn
          · have hcurrent := hlink.busy hprepared hrun hin hlive hruns₂ hfive
            exact exists_turn halive hquanta hcurrent ht hnot hboosted (by omega)
          · have hall : ring.filter (fun t => s.Alive t) = ring :=
              List.filter_eq_self.mpr fun u hu => decide_eq_true (hturn.alive u hu)
            rw [hall] at halive ⊢
            exact hturn.entered hlink hprepared hrun hin hruns₂ hfive hnot halive hquanta hboosted
              hwaited
        · exact .inl (htimed.young hin hlive hother hready hboosted)
      · rw [if_neg hready] at hwaited
        exact .inl (hwaited.trans (Nat.zero_le _))

end SchedulerState

end AvrKernel.Scheduler

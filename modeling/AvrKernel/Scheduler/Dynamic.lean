import AvrKernel.Scheduler.Account

/-!
# Dynamic priority

What charging, recovery, ageing and the boost do to the account of a thread, and
what an entry of the handler does to all accounts.
-/

namespace AvrKernel.Scheduler

open Linked

namespace Account

/-- The CPU time for which a thread goes down one level. -/
def allotment (a : Account) : UInt32 := a.priority.value * schedDegradeQuanta * schedTickMs

/-- The level lies between the lowest and the base priority, less than an allotment
is left to charge, and a real-time thread keeps its level. -/
structure Sound (a : Account) : Prop where
  lower : ThreadPriority.idle.value ≤ a.dynPriority.value
  upper : a.dynPriority.value ≤ a.priority.value
  used : a.cpuUsedMs < a.allotment
  realtime : a.priority = .realtime → a.dynPriority = a.priority

theorem allotment_pos (a : Account) : 0 < a.allotment := by
  unfold allotment
  cases a.priority <;> decide

end Account

namespace ThreadPriority

theorem idle_le (p : ThreadPriority) : ThreadPriority.idle.value ≤ p.value := by
  cases p <;> decide

theorem lower_le (p : ThreadPriority) : p.lower.value ≤ p.value := by
  cases p <;> decide

theorem higher_le {p q : ThreadPriority} (h : p.value < q.value) : p.higher.value ≤ q.value := by
  revert h
  cases p <;> cases q <;> decide

end ThreadPriority

namespace ThreadBlock

variable {b b' : ThreadBlock} {now : UInt64}

/-! ## Charging -/

/-- More rounds than there are levels make no difference. -/
theorem degrade_eq (allotment : UInt32) {n m : Nat} (hn : b.dynPriority.value.toNat ≤ n)
    (hm : b.dynPriority.value.toNat ≤ m) : degrade allotment n b = degrade allotment m b := by
  induction n generalizing b m with
  | zero =>
      cases hlevel : b.dynPriority <;> rw [hlevel] at hn <;> cases hn
  | succ n ih =>
      cases m with
      | zero => cases hlevel : b.dynPriority <;> rw [hlevel] at hm <;> cases hm
      | succ m =>
          unfold degrade
          split
          · rfl
          split
          · rfl
          · rename_i hfloor
            have hlower := ThreadPriority.value_lower hfloor
            exact ih (Nat.le_of_succ_le_succ (hlower.le.trans hn))
              (Nat.le_of_succ_le_succ (hlower.le.trans hm))

theorem degrade_priority (allotment : UInt32) (n : Nat) (b : ThreadBlock) :
    (degrade allotment n b).priority = b.priority := by
  induction n generalizing b with
  | zero => rfl
  | succ n ih =>
      unfold degrade
      split
      · rfl
      split
      · rfl
      · exact ih _

theorem degrade_le (allotment : UInt32) (n : Nat) (b : ThreadBlock) :
    (degrade allotment n b).dynPriority.value ≤ b.dynPriority.value := by
  induction n generalizing b with
  | zero => exact UInt32.le_refl _
  | succ n ih =>
      unfold degrade
      split
      · exact UInt32.le_refl _
      split
      · exact UInt32.le_refl _
      · exact UInt32.le_trans (ih _) b.dynPriority.lower_le

/-- A change to the level and to what is left to charge only. -/
structure Charged (b b' : ThreadBlock) : Prop where
  sound : b.account.Sound → b'.account.Sound
  priority : b'.priority = b.priority
  boosted : b'.boosted = b.boosted
  waitMarkMs : b'.waitMarkMs = b.waitMarkMs
  state : b'.state = b.state
  wakeTick : b'.wakeTick = b.wakeTick
  ticksRemaining : b'.ticksRemaining = b.ticksRemaining

theorem Charged.trans {b'' : ThreadBlock} (h : Charged b b') (h' : Charged b' b'') :
    Charged b b'' where
  sound hb := h'.sound (h.sound hb)
  priority := h'.priority.trans h.priority
  boosted := h'.boosted.trans h.boosted
  waitMarkMs := h'.waitMarkMs.trans h.waitMarkMs
  state := h'.state.trans h.state
  wakeTick := h'.wakeTick.trans h.wakeTick
  ticksRemaining := h'.ticksRemaining.trans h.ticksRemaining

theorem Charged.of_account (haccount : b'.account = b.account) (hstate : b'.state = b.state)
    (hwake : b'.wakeTick = b.wakeTick) (hticks : b'.ticksRemaining = b.ticksRemaining) :
    Charged b b' := by
  refine ⟨fun h => haccount ▸ h, ?_, ?_, ?_, hstate, hwake, hticks⟩
  · have hpriority := congrArg Account.priority haccount
    exact hpriority
  · have hboosted := congrArg Account.boosted haccount
    exact hboosted
  · have hmark := congrArg Account.waitMarkMs haccount
    exact hmark

theorem degrade_variables (allotment : UInt32) (n : Nat) (b : ThreadBlock) :
    (degrade allotment n b).boosted = b.boosted ∧
      (degrade allotment n b).waitMarkMs = b.waitMarkMs ∧
      (degrade allotment n b).state = b.state ∧ (degrade allotment n b).wakeTick = b.wakeTick ∧
      (degrade allotment n b).ticksRemaining = b.ticksRemaining := by
  induction n generalizing b with
  | zero => exact ⟨rfl, rfl, rfl, rfl, rfl⟩
  | succ n ih =>
      unfold degrade
      split
      · exact ⟨rfl, rfl, rfl, rfl, rfl⟩
      split
      · exact ⟨rfl, rfl, rfl, rfl, rfl⟩
      · exact ih _

/-- Charging leaves less than an allotment, whatever there was. -/
theorem chargeCpu_lt (b : ThreadBlock) (ms : UInt32) :
    (b.chargeCpu ms).cpuUsedMs < b.account.allotment := by
  unfold chargeCpu
  split
  · exact b.account.allotment_pos
  · apply degrade_lt b.account.allotment_pos
    exact b.dynPriority.value_le

theorem charged_chargeCpu (b : ThreadBlock) (ms : UInt32) : Charged b (b.chargeCpu ms) := by
  have hused := b.chargeCpu_lt ms
  by_cases hkeeps : b.priority = .realtime
  · have hcharge : b.chargeCpu ms = { b with cpuUsedMs := 0 } := if_pos hkeeps
    rw [hcharge] at hused ⊢
    exact ⟨fun h => ⟨h.lower, h.upper, hused, h.realtime⟩, rfl, rfl, rfl, rfl, rfl, rfl⟩
  · have hcharge : b.chargeCpu ms = degrade (b.priority.value * schedDegradeQuanta * schedTickMs) 5
        { b with cpuUsedMs := b.cpuUsedMs + ms } := if_neg hkeeps
    rw [hcharge] at hused ⊢
    obtain ⟨hboosted, hmark, hstate, hwake, hticks⟩ := degrade_variables
      (b.priority.value * schedDegradeQuanta * schedTickMs) 5
        { b with cpuUsedMs := b.cpuUsedMs + ms }
    have hpriority := degrade_priority (b.priority.value * schedDegradeQuanta * schedTickMs) 5
      { b with cpuUsedMs := b.cpuUsedMs + ms }
    have hle := degrade_le (b.priority.value * schedDegradeQuanta * schedTickMs) 5
      { b with cpuUsedMs := b.cpuUsedMs + ms }
    change _ = b.priority at hpriority
    generalize degrade (b.priority.value * schedDegradeQuanta * schedTickMs) 5
      { b with cpuUsedMs := b.cpuUsedMs + ms } = b' at *
    refine ⟨fun h => ⟨ThreadPriority.idle_le _, ?_, ?_, fun hrealtime => ?_⟩, hpriority, hboosted,
      hmark, hstate, hwake, hticks⟩
    · change b'.dynPriority.value ≤ b'.priority.value
      rw [hpriority]
      exact UInt32.le_trans hle h.upper
    · change b'.cpuUsedMs < b'.priority.value * schedDegradeQuanta * schedTickMs
      rw [hpriority]
      exact hused
    · exact absurd (hpriority.symm.trans hrealtime) hkeeps

theorem charged_recover (b : ThreadBlock) : Charged b b.recover := by
  refine ⟨fun h => ⟨ThreadPriority.idle_le _, ?_, ?_, fun hrealtime => ?_⟩, rfl, rfl, rfl, rfl, rfl,
    rfl⟩
  · change ThreadPriority.value (if _ then _ else _) ≤ _
    split
    · rename_i hbelow
      exact ThreadPriority.higher_le hbelow
    · exact h.upper
  · refine UInt32.lt_of_le_of_lt ?_ h.used
    rw [UInt32.le_iff_toNat_le]
    change (b.cpuUsedMs / 2).toNat ≤ b.cpuUsedMs.toNat
    rw [UInt32.toNat_div]
    exact Nat.div_le_self _ _
  · have hlevel := h.realtime hrealtime
    change (if _ then _ else b.dynPriority) = b.priority
    rw [if_neg]
    · exact hlevel
    · change b.dynPriority = b.priority at hlevel
      rw [hlevel]
      exact UInt32.lt_irrefl _

/-! ## Ageing -/

/-- The state in which the first pass finds a thread. -/
def found (b : ThreadBlock) (now : UInt64) : ThreadState := (b.wake now).state

theorem found_congr (hstate : b'.state = b.state) (hwake : b'.wakeTick = b.wakeTick)
    (now : UInt64) : b'.found now = b.found now := by
  unfold ThreadBlock.found wake
  rw [hstate, hwake]
  split
  · rfl
  · exact hstate

theorem Charged.found (h : Charged b b') (now : UInt64) : b'.found now = b.found now :=
  found_congr h.state h.wakeTick now

/-- A thread is boosted if it is found ready for long enough, and its clock starts
anew if it is not. -/
structure Aged (now : UInt64) (b b' : ThreadBlock) : Prop where
  sound : b.account.Sound → b'.account.Sound
  priority : b'.priority = b.priority
  waitMarkMs : b'.waitMarkMs = if b.found now = .ready then b.waitMarkMs else now
  boosted : b'.boosted = true ↔
    b.boosted = true ∨ b.found now = .ready ∧ now - b.waitMarkMs ≥ schedStarvationMs
  state : b'.state = b.found now
  ticksRemaining : b'.ticksRemaining = b.ticksRemaining

theorem Aged.charged {b'' : ThreadBlock} (h : Aged now b b') (h' : Charged b' b'') :
    Aged now b b'' where
  sound hb := h'.sound (h.sound hb)
  priority := h'.priority.trans h.priority
  waitMarkMs := h'.waitMarkMs.trans h.waitMarkMs
  boosted := by rw [h'.boosted, h.boosted]
  state := h'.state.trans h.state
  ticksRemaining := h'.ticksRemaining.trans h.ticksRemaining

theorem Charged.aged {b'' : ThreadBlock} (h : Charged b b') (h' : Aged now b' b'') :
    Aged now b b'' where
  sound hb := h'.sound (h.sound hb)
  priority := h'.priority.trans h.priority
  waitMarkMs := by rw [h'.waitMarkMs, h.found, h.waitMarkMs]
  boosted := by rw [h'.boosted, h.found, h.waitMarkMs, h.boosted]
  state := h'.state.trans (h.found now)
  ticksRemaining := h'.ticksRemaining.trans h.ticksRemaining

theorem charged_wake (b : ThreadBlock) (now : UInt64) :
    (b.account.Sound → (b.wake now).account.Sound) ∧ (b.wake now).priority = b.priority ∧
      (b.wake now).boosted = b.boosted ∧ (b.wake now).waitMarkMs = b.waitMarkMs ∧
      (b.wake now).ticksRemaining = b.ticksRemaining := by
  unfold wake
  split <;> exact ⟨fun h => h, rfl, rfl, rfl, rfl⟩

theorem charged_recoverOffCpu (b : ThreadBlock) (now : UInt64) :
    Charged b (b.recoverOffCpu now) := by
  unfold recoverOffCpu
  split
  · have hmark : Charged b { b with recoverMarkMs := now } := .of_account rfl rfl rfl rfl
    exact hmark.trans (charged_recover _)
  · exact .of_account rfl rfl rfl rfl

theorem aged_age (b : ThreadBlock) (now : UInt64) : Aged now b ((b.wake now).age now) := by
  obtain ⟨hsound, hpriority, hboosted, hmark, hticks⟩ := charged_wake b now
  unfold age
  split
  · rename_i hruns
    have hfound : b.found now ≠ .ready := by
      rw [ThreadBlock.found, hruns]
      exact nofun
    refine ⟨fun h => ?_, hpriority, ?_, ?_, rfl, hticks⟩
    · have hafter := hsound h
      exact ⟨hafter.lower, hafter.upper, hafter.used, hafter.realtime⟩
    · rw [if_neg hfound]
    · simp [hfound, hboosted]
  · have hcharged := charged_recoverOffCpu (b.wake now) now
    have hstate : ((b.wake now).recoverOffCpu now).state = b.found now := hcharged.state
    have hsame : ((b.wake now).recoverOffCpu now).priority = b.priority :=
      hcharged.priority.trans hpriority
    unfold starve
    rw [hstate, hcharged.boosted, hcharged.waitMarkMs, hboosted, hmark]
    split
    · rename_i hready
      refine ⟨fun h => ?_, hsame, ?_, ?_, rfl, hcharged.ticksRemaining.trans hticks⟩
      · have hafter := hcharged.sound (hsound h)
        exact ⟨hafter.lower, hafter.upper, hafter.used, hafter.realtime⟩
      · rw [if_neg hready]
      · simp [hready]
    · rename_i hready
      have hready := not_not.mp hready
      split
      · rename_i hstarved
        refine ⟨fun h => ?_, hsame, ?_, ?_, rfl, hcharged.ticksRemaining.trans hticks⟩
        · have hafter := hcharged.sound (hsound h)
          exact ⟨hafter.lower, hafter.upper, hafter.used, hafter.realtime⟩
        · rw [if_pos hready]
        · exact iff_of_true rfl (.inr ⟨hready, hstarved.2⟩)
      · rename_i hstarved
        refine ⟨fun h => hcharged.sound (hsound h), hsame, ?_, ?_, hstate,
          hcharged.ticksRemaining.trans hticks⟩
        · rw [if_pos hready]
          exact hcharged.waitMarkMs.trans hmark
        · rw [hcharged.boosted, hboosted]
          constructor
          · exact .inl
          · rintro (hb | hlong)
            · exact hb
            · by_contra hnot
              exact hstarved ⟨hnot, hlong.2⟩

end ThreadBlock

namespace SchedulerState

variable {s s' : SchedulerState} {ring reap : List UInt32} {t : UInt32} {now : UInt64}

/-! ## The passes -/

/-- The thread that is charged is the only one whose account changes before the first
pass. -/
theorem charged_beforePass (s : SchedulerState) (reap : List UInt32) (esp : UInt32) (now : UInt64)
    (t : UInt32) :
    ThreadBlock.Charged (s.threads t) ((s.beforePass reap esp now).threads t) := by
  have hframe : ThreadBlock.Charged (s.threads t)
      (((s.recordFrame s.currentThread esp).afterReap reap).threads t) := by
    change ThreadBlock.Charged _ ((s.recordFrame s.currentThread esp).threads t)
    unfold recordFrame
    split
    · rw [threads_setThread]
      by_cases heq : t = s.currentThread
      · subst heq
        rw [Function.update_self]
        exact .of_account rfl rfl rfl rfl
      · rw [Function.update_of_ne heq]
        exact .of_account rfl rfl rfl rfl
    · exact .of_account rfl rfl rfl rfl
  refine hframe.trans ?_
  unfold beforePass chargePrev
  dsimp only
  split
  · rw [threads_setThread]
    by_cases heq : t = s.currentThread
    · subst heq
      rw [Function.update_self]
      dsimp only
      have hcharge := ThreadBlock.charged_chargeCpu
        (((s.recordFrame s.currentThread esp).afterReap reap).threads s.currentThread)
        (now - ((s.recordFrame s.currentThread esp).afterReap reap).schedLastMs).toUInt32
      split
      · exact hcharge.trans (ThreadBlock.charged_recover _)
      · exact hcharge
    · rw [Function.update_of_ne heq]
      exact .of_account rfl rfl rfl rfl
  · exact .of_account rfl rfl rfl rfl

theorem charged_dropThread {x : UInt32} (hrun : s.dropThread x = some s') (t : UInt32) :
    ThreadBlock.Charged (s.threads t) (s'.threads t) ∧ s'.account t = s.account t := by
  have hset : ∀ (s : SchedulerState) (u : UInt32) (change : ThreadBlock → ThreadBlock),
      (∀ b, (change b).account = b.account ∧ (change b).state = b.state ∧
        (change b).wakeTick = b.wakeTick ∧ (change b).ticksRemaining = b.ticksRemaining) →
      ((s.setThread u change).threads t).account = (s.threads t).account ∧
        ((s.setThread u change).threads t).state = (s.threads t).state ∧
        ((s.setThread u change).threads t).wakeTick = (s.threads t).wakeTick ∧
        ((s.setThread u change).threads t).ticksRemaining = (s.threads t).ticksRemaining := by
    intro s u change hchange
    rw [threads_setThread]
    by_cases heq : t = u
    · subst heq
      rw [Function.update_self]
      exact hchange _
    · rw [Function.update_of_ne heq]
      exact ⟨rfl, rfl, rfl, rfl⟩
  obtain ⟨s₁, hunlink, hrun⟩ := Option.bind_eq_some_iff.mp hrun
  cases hrun
  have hlast := hset { s₁ with
    reapList := x, history := s₁.history ++ [LifeEvent.unlinked x] } x
      (fun block => { block with reapNext := s₁.reapList }) fun _ => ⟨rfl, rfl, rfl, rfl⟩
  have hfirst : (s₁.threads t).account = (s.threads t).account ∧
      (s₁.threads t).state = (s.threads t).state ∧
      (s₁.threads t).wakeTick = (s.threads t).wakeTick ∧
      (s₁.threads t).ticksRemaining = (s.threads t).ticksRemaining := by
    unfold unlinkThread at hunlink
    split at hunlink
    · cases hunlink
      exact ⟨rfl, rfl, rfl, rfl⟩
    split at hunlink
    · cases hunlink
      exact ⟨rfl, rfl, rfl, rfl⟩
    · obtain ⟨p, -, hunlink⟩ := Option.bind_eq_some_iff.mp hunlink
      cases hunlink
      exact hset _ p _ fun _ => ⟨rfl, rfl, rfl, rfl⟩
  have haccount := hlast.1.trans hfirst.1
  exact ⟨.of_account haccount (hlast.2.1.trans hfirst.2.1) (hlast.2.2.1.trans hfirst.2.2.1)
    (hlast.2.2.2.trans hfirst.2.2.2), haccount⟩

/-- The first pass leaves the clock of the scheduler alone. -/
theorem passOne_clock (now : UInt64) {n : Nat} {t : UInt32} (hrun : passOne now n s t = some s') :
    s'.schedLastMs = s.schedLastMs := by
  induction n generalizing s t with
  | zero =>
      cases hrun
      rfl
  | succ n ih =>
      unfold passOne at hrun
      split at hrun
      · cases hrun
        rfl
      · dsimp only at hrun
        split at hrun
        · obtain ⟨s₁, hdrop, hrest⟩ := Option.bind_eq_some_iff.mp hrun
          obtain ⟨s₂, hunlink, hdrop⟩ := Option.bind_eq_some_iff.mp hdrop
          cases hdrop
          refine (ih hrest).trans ?_
          unfold unlinkThread at hunlink
          split at hunlink
          · cases hunlink
            rfl
          split at hunlink
          · cases hunlink
            rfl
          · obtain ⟨p, -, hunlink⟩ := Option.bind_eq_some_iff.mp hunlink
            cases hunlink
            rfl
        · obtain ⟨s₁, hage, hrest⟩ := Option.bind_eq_some_iff.mp hrun
          cases hage
          have hclock := ih hrest
          exact hclock

/-- The first pass ages the threads that live, and no others. -/
theorem passOne_aged (now : UInt64) (kept : List UInt32) {rest : List UInt32} {t : UInt32}
    (h : Ring 0 s.next s.threadQueue (kept ++ rest))
    (hreap : Chain 0 s.reapNext s.reapList reap) (hapart : ∀ u ∈ rest, u ∉ reap)
    (ht : ∀ x l, rest = x :: l → t = x)
    (hrun : passOne now rest.length s t = some s') (u : UInt32) :
    (u ∈ rest ∧ s.Alive u → ThreadBlock.Aged now (s.threads u) (s'.threads u)) ∧
      (¬ (u ∈ rest ∧ s.Alive u) → s'.account u = s.account u ∧
        ThreadBlock.Charged (s.threads u) (s'.threads u)) := by
  induction rest generalizing s kept reap t with
  | nil =>
      cases hrun
      exact ⟨fun hin => absurd hin.1 List.not_mem_nil, fun _ => ⟨rfl, .of_account rfl rfl rfl rfl⟩⟩
  | cons x rest ih =>
      obtain rfl := ht x rest rfl
      obtain ⟨hhead, hfollowing, hnew⟩ := h.turn
      rw [List.length_cons, passOne_succ now hhead] at hrun
      by_cases halive : s.Alive t
      · rw [if_neg (not_not.mpr halive)] at hrun
        have hpass := passed_age now h hreap t
        have hring : kept ++ t :: rest = kept ++ [t] ++ rest := by
          rw [List.append_assoc, List.singleton_append]
        have hrest := ih (kept ++ [t]) (hring ▸ hpass.queue) hpass.reaped
          (fun u hu => hapart u (List.mem_cons_of_mem t hu)) hfollowing hrun
        by_cases heq : u = t
        · subst heq
          obtain ⟨-, hsame⟩ := hrest.2 fun hin => hnew hin.1
          rw [threads_setThread, Function.update_self] at hsame
          exact ⟨fun _ => (ThreadBlock.aged_age (s.threads u) now).charged hsame,
            fun hout => absurd ⟨List.mem_cons_self, halive⟩ hout⟩
        · have hblock : (s.setThread t fun b => (b.wake now).age now).threads u = s.threads u := by
            rw [threads_setThread, Function.update_of_ne heq]
          have haccount := congrArg ThreadBlock.account hblock
          rw [Alive, hblock] at hrest
          constructor
          · intro hin
            exact hrest.1 ⟨(List.mem_cons.mp hin.1).resolve_left heq, hin.2⟩
          · intro hout
            obtain ⟨hsame, hcharged⟩ :=
              hrest.2 fun hin => hout ⟨List.mem_cons_of_mem t hin.1, hin.2⟩
            exact ⟨hsame.trans haccount, hcharged⟩
      · rw [if_pos halive] at hrun
        obtain ⟨s₁, hdrop, hpass⟩ := dropThread_eq h hreap (hapart t List.mem_cons_self)
        rw [hdrop] at hrun
        have hfresh : ∀ u ∈ rest, u ∉ t :: reap := by
          intro u hu hmem
          rcases List.mem_cons.mp hmem with rfl | hmem
          · exact hnew hu
          · exact hapart u (List.mem_cons_of_mem t hu) hmem
        have hrest := ih kept hpass.queue hpass.reaped hfresh hfollowing hrun
        obtain ⟨hcharged, haccount⟩ := charged_dropThread hdrop u
        have hlive : s₁.Alive u ↔ s.Alive u := hpass.alive u
        constructor
        · rintro ⟨hin, hu⟩
          have hne : u ≠ t := by
            rintro rfl
            exact halive hu
          exact hcharged.aged (hrest.1 ⟨(List.mem_cons.mp hin).resolve_left hne, hlive.mpr hu⟩)
        · intro hout
          obtain ⟨hsame, hafter⟩ :=
            hrest.2 fun hin => hout ⟨List.mem_cons_of_mem t hin.1, hlive.mp hin.2⟩
          exact ⟨hsame.trans haccount, hcharged.trans hafter⟩

end SchedulerState

end AvrKernel.Scheduler

import AvrKernel.Scheduler.RingSteps

/-!
# The accounting of the threads

Only new threads and entries of the handler change the accounts of threads and the
links of the ring, whatever is killed in between.
-/

namespace AvrKernel.Scheduler

open Linked

/-- What the scheduler keeps of a thread to tell its priority. -/
structure Account where
  priority : ThreadPriority
  dynPriority : ThreadPriority
  boosted : Bool
  cpuUsedMs : UInt32
  waitMarkMs : UInt64

namespace ThreadBlock

def account (b : ThreadBlock) : Account :=
  { priority := b.priority, dynPriority := b.dynPriority, boosted := b.boosted
    cpuUsedMs := b.cpuUsedMs, waitMarkMs := b.waitMarkMs }

/-- A change that leaves the account and the links alone, and makes no quantum longer. -/
structure Unaccounted (b b' : ThreadBlock) : Prop where
  account : b'.account = b.account
  next : b'.next = b.next
  reapNext : b'.reapNext = b.reapNext
  quantum : b'.ticksRemaining ≤ b.ticksRemaining

theorem unaccounted_signal (b : ThreadBlock) : Unaccounted b b.signal :=
  ⟨rfl, rfl, rfl, UInt32.le_refl _⟩

end ThreadBlock

namespace SchedulerState

variable {s s' s'' : SchedulerState} {ring reap : List UInt32} {t : UInt32}

def account (s : SchedulerState) (t : UInt32) : Account := (s.threads t).account

/-! ## Operations outside of the handler -/

/-- From `s` to `s'` no account changes, and no link of the ring. -/
structure Frame (s s' : SchedulerState) : Prop where
  blocks : ∀ t, ThreadBlock.Unaccounted (s.threads t) (s'.threads t)
  currentThread : s'.currentThread = s.currentThread
  threadQueue : s'.threadQueue = s.threadQueue
  idleThread : s'.idleThread = s.idleThread
  reapList : s'.reapList = s.reapList
  allocated : s'.allocated = s.allocated
  clock : s'.schedLastMs = s.schedLastMs

namespace Frame

theorem refl (s : SchedulerState) : Frame s s :=
  ⟨fun _ => ⟨rfl, rfl, rfl, UInt32.le_refl _⟩, rfl, rfl, rfl, rfl, rfl, rfl⟩

theorem trans (h : Frame s s') (h' : Frame s' s'') : Frame s s'' where
  blocks t := ⟨(h'.blocks t).account.trans (h.blocks t).account,
    (h'.blocks t).next.trans (h.blocks t).next,
    (h'.blocks t).reapNext.trans (h.blocks t).reapNext,
    UInt32.le_trans (h'.blocks t).quantum (h.blocks t).quantum⟩
  currentThread := h'.currentThread.trans h.currentThread
  threadQueue := h'.threadQueue.trans h.threadQueue
  idleThread := h'.idleThread.trans h.idleThread
  reapList := h'.reapList.trans h.reapList
  allocated := h'.allocated.trans h.allocated
  clock := h'.clock.trans h.clock

/-- What is not a thread block plays no part. -/
theorem of_threads (h : Frame s s') (hthreads : s''.threads = s'.threads)
    (hcurrent : s''.currentThread = s'.currentThread) (hqueue : s''.threadQueue = s'.threadQueue)
    (hidle : s''.idleThread = s'.idleThread) (hreap : s''.reapList = s'.reapList)
    (hallocated : s''.allocated = s'.allocated) (hclock : s''.schedLastMs = s'.schedLastMs) :
    Frame s s'' where
  blocks t := by
    rw [hthreads]
    exact h.blocks t
  currentThread := hcurrent.trans h.currentThread
  threadQueue := hqueue.trans h.threadQueue
  idleThread := hidle.trans h.idleThread
  reapList := hreap.trans h.reapList
  allocated := hallocated.trans h.allocated
  clock := hclock.trans h.clock

theorem setThread (h : Frame s s') {change : ThreadBlock → ThreadBlock} (t : UInt32)
    (hchange : ∀ b, ThreadBlock.Unaccounted b (change b)) :
    Frame s (s'.setThread t change) := by
  refine h.trans ⟨fun u => ?_, rfl, rfl, rfl, rfl, rfl, rfl⟩
  rw [threads_setThread]
  by_cases heq : u = t
  · subst heq
    rw [Function.update_self]
    exact hchange _
  · rw [Function.update_of_ne heq]
    exact ⟨rfl, rfl, rfl, UInt32.le_refl _⟩

theorem setEvent (h : Frame s s') (e : UInt32) (change : Event → Event) :
    Frame s (s'.setEvent e change) := h.of_threads rfl rfl rfl rfl rfl rfl rfl

theorem setMutex (h : Frame s s') (m : UInt32) (change : Mutex → Mutex) :
    Frame s (s'.setMutex m change) := h.of_threads rfl rfl rfl rfl rfl rfl rfl

theorem setWaiter (h : Frame s s') (t : UInt32) (waiter : MutexWaiter) :
    Frame s (s'.setWaiter t waiter) := h.of_threads rfl rfl rfl rfl rfl rfl rfl

theorem setCall (h : Frame s s') (call : Call) : Frame s (s'.setCall call) :=
  h.of_threads rfl rfl rfl rfl rfl rfl rfl

theorem next_eq (h : Frame s s') : s'.next = s.next := funext fun t => (h.blocks t).next

theorem reapNext_eq (h : Frame s s') : s'.reapNext = s.reapNext :=
  funext fun t => (h.blocks t).reapNext

theorem threadSleep (s : SchedulerState) (ms : UInt32) (now : UInt64) :
    Frame s (s.threadSleep ms now) := by
  unfold SchedulerState.threadSleep
  split
  · exact .refl s
  · exact ((Frame.refl s).setThread _ (by
      exact fun _ => ⟨rfl, rfl, rfl, UInt32.le_refl _⟩)).setCall _

theorem threadExit (s : SchedulerState) : Frame s s.threadExit :=
  (Frame.refl s).setThread _ fun _ => ⟨rfl, rfl, rfl, UInt32.le_refl _⟩

theorem unlinkWaiter {e : UInt32} (hrun : s.unlinkWaiter e t = some s') : Frame s s' := by
  unfold SchedulerState.unlinkWaiter at hrun
  obtain ⟨found, -, hrun⟩ := Option.bind_eq_some_iff.mp hrun
  match found with
  | none =>
      cases hrun
      exact .refl s
  | some .first =>
      cases hrun
      exact (Frame.refl s).setEvent _ _
  | some (.after p) =>
      cases hrun
      exact (Frame.refl s).setThread _ fun _ => ⟨rfl, rfl, rfl, UInt32.le_refl _⟩

theorem eventRemoveWaiter {e : UInt32} (hrun : s.eventRemoveWaiter e t = some s') : Frame s s' := by
  obtain ⟨s₁, hunlink, hrun⟩ := Option.bind_eq_some_iff.mp hrun
  cases hrun
  exact (unlinkWaiter hunlink).setThread _ fun _ => ⟨rfl, rfl, rfl, UInt32.le_refl _⟩

theorem deliver {n : Nat} (hrun : s.deliver n t = some s') : Frame s s' := by
  induction n generalizing s t with
  | zero => cases hrun
  | succ n ih =>
      rw [SchedulerState.deliver] at hrun
      split at hrun
      · cases hrun
        exact .refl _
      · exact ((Frame.refl s).setThread _ ThreadBlock.unaccounted_signal).trans (ih hrun)

theorem eventSignal {e : UInt32} (hrun : s.eventSignal e = some s') : Frame s s' := by
  unfold SchedulerState.eventSignal at hrun
  split at hrun
  · cases hrun
    exact .refl s
  split at hrun
  · cases hrun
    exact (Frame.refl s).setEvent _ _
  · exact ((Frame.refl s).setEvent _ _).trans (deliver hrun)

theorem eventWait (s : SchedulerState) (e timeoutMs : UInt32) (now : UInt64) :
    Frame s (s.eventWait e timeoutMs now).2 := by
  unfold SchedulerState.eventWait
  split
  · exact .refl s
  split
  · dsimp only
    exact (Frame.refl s).setEvent _ _
  split
  · dsimp only
    exact (Frame.refl s).setEvent _ _
  · exact (((Frame.refl s).setThread _ (by
      exact fun _ => ⟨rfl, rfl, rfl, UInt32.le_refl _⟩)).setEvent _ _).setCall _

theorem eventWaitRest {e : UInt32} {signaled : Bool}
    (hrun : s.eventWaitRest e = some (signaled, s')) : Frame s s' := by
  unfold SchedulerState.eventWaitRest at hrun
  dsimp only at hrun
  split at hrun
  · obtain ⟨s₁, hremove, hrun⟩ := Option.bind_eq_some_iff.mp hrun
    obtain ⟨-, rfl⟩ := Prod.mk.inj (Option.some.inj hrun)
    exact (eventRemoveWaiter hremove).setThread _ fun _ => ⟨rfl, rfl, rfl, UInt32.le_refl _⟩
  · obtain ⟨-, rfl⟩ := Prod.mk.inj (Option.some.inj hrun)
    exact (Frame.refl s).setThread _ fun _ => ⟨rfl, rfl, rfl, UInt32.le_refl _⟩

theorem resume {value : Option Bool} (hrun : s.resume = some (value, s')) : Frame s s' := by
  unfold SchedulerState.resume at hrun
  split at hrun
  · obtain ⟨⟨signaled, s₁⟩, hrest, hrun⟩ := Option.bind_eq_some_iff.mp hrun
    obtain ⟨-, rfl⟩ := Prod.mk.inj (Option.some.inj hrun)
    exact (eventWaitRest hrest).setCall _
  · obtain ⟨-, rfl⟩ := Prod.mk.inj (Option.some.inj hrun)
    exact (Frame.refl s).setCall _

theorem enqueueWaiter (s : SchedulerState) (m : UInt32) : Frame s (s.enqueueWaiter m) := by
  unfold SchedulerState.enqueueWaiter
  dsimp only
  split
  · exact (((Frame.refl s).setWaiter _ _).setWaiter _ _).setMutex _ _
  · exact (((Frame.refl s).setWaiter _ _).setMutex _ _).setMutex _ _

theorem mutexLock (s : SchedulerState) (m : UInt32) : Frame s (s.mutexLock m) := by
  unfold SchedulerState.mutexLock
  split
  · exact .refl s
  split
  · exact (Frame.refl s).setMutex _ _
  · exact ((enqueueWaiter s m).setThread _ (by
      exact fun _ => ⟨rfl, rfl, rfl, UInt32.le_refl _⟩)).setCall _

theorem mutexTrylock (s : SchedulerState) (m : UInt32) : Frame s (s.mutexTrylock m).2 := by
  unfold SchedulerState.mutexTrylock
  split
  · exact .refl s
  split
  · dsimp only
    exact (Frame.refl s).setMutex _ _
  · exact .refl s

theorem mutexUnlock (s : SchedulerState) (m : UInt32) : Frame s (s.mutexUnlock m) := by
  unfold SchedulerState.mutexUnlock
  split
  · exact .refl s
  split
  · exact .refl s
  split
  · exact ((Frame.refl s).setMutex _ _).setThread _ fun _ => ⟨rfl, rfl, rfl, UInt32.le_refl _⟩
  · exact (Frame.refl s).setMutex _ _

theorem processKillThread (hrun : s.processKillThread t = some s') : Frame s s' := by
  obtain ⟨s₁, hdetach, hrun⟩ := Option.bind_eq_some_iff.mp hrun
  cases hrun
  have hframe : Frame s s₁ := by
    unfold threadDetachFromEvent at hdetach
    dsimp only at hdetach
    split at hdetach
    · cases hdetach
      exact .refl s
    · exact eventRemoveWaiter hdetach
  have hdead : Frame s (s₁.setThread t fun block => { block with state := .dead }) :=
    hframe.setThread t fun _ => ⟨rfl, rfl, rfl, UInt32.le_refl _⟩
  exact hdead.of_threads rfl rfl rfl rfl rfl rfl rfl

end Frame

/-- The operations that change accounts or links. -/
def ThreadOp.Accounts : ThreadOp → Prop
  | .create .. | .tick .. | .yield .. => True
  | _ => False

theorem perform_frame {op : ThreadOp} {value : Option Bool}
    (hrun : s.perform op = some (value, s')) (hop : ¬ ThreadOp.Accounts op) : Frame s s' := by
  cases op with
  | create => exact absurd trivial hop
  | tick => exact absurd trivial hop
  | yield => exact absurd trivial hop
  | sleep ms now =>
      cases hrun
      exact .threadSleep s ms now
  | eventWait e timeoutMs now =>
      obtain ⟨-, rfl⟩ := Prod.mk.inj (Option.some.inj hrun)
      exact .eventWait s e timeoutMs now
  | eventSignal e =>
      obtain ⟨s₁, hsignal, hrun⟩ := Option.bind_eq_some_iff.mp hrun
      cases hrun
      exact .eventSignal hsignal
  | mutexLock m =>
      cases hrun
      exact .mutexLock s m
  | mutexTrylock m =>
      obtain ⟨-, rfl⟩ := Prod.mk.inj (Option.some.inj hrun)
      exact .mutexTrylock s m
  | mutexUnlock m =>
      cases hrun
      exact .mutexUnlock s m
  | resume => exact .resume hrun
  | exit =>
      cases hrun
      exact .threadExit s
  | kill t =>
      obtain ⟨s₁, hkill, hrun⟩ := Option.bind_eq_some_iff.mp hrun
      cases hrun
      exact .processKillThread hkill

/-! ## The links -/

/-- The part of the invariant that no kill breaks. -/
structure Linkage (s : SchedulerState) (ring reap : List UInt32) : Prop where
  queue : Ring 0 s.next s.threadQueue ring
  reaped : Chain 0 s.reapNext s.reapList reap
  apart : ∀ t ∈ ring, t ∉ reap
  idle : s.idleThread ≠ 0 ∧ s.idleThread ∉ ring ∧ s.idleThread ∉ reap
  current : s.currentThread = s.idleThread ∨ s.currentThread ∈ ring
  allocated : ∀ t, t ∈ ring ∨ t ∈ reap ∨ t = s.idleThread → s.allocated t = true

theorem Inv.linkage {waiting queued : UInt32 → List UInt32} (h : s.Inv ring reap waiting queued) :
    s.Linkage ring reap :=
  ⟨h.queues.queue, h.queues.reaped, h.queues.apart, h.queues.idle, h.queues.current,
    h.lives.allocated⟩

theorem Linkage.current_ne_zero (h : s.Linkage ring reap) : s.currentThread ≠ 0 := by
  rcases h.current with heq | hmem
  · exact heq ▸ h.idle.1
  · exact fun hnil => h.queue.valid (hnil ▸ hmem)

theorem Linkage.frame (h : s.Linkage ring reap) (hf : Frame s s') : s'.Linkage ring reap where
  queue := by
    rw [hf.next_eq, hf.threadQueue]
    exact h.queue
  reaped := by
    rw [hf.reapNext_eq, hf.reapList]
    exact h.reaped
  apart := h.apart
  idle := hf.idleThread.symm ▸ h.idle
  current := by
    rw [hf.currentThread, hf.idleThread]
    exact h.current
  allocated := by
    rw [hf.idleThread, hf.allocated]
    exact h.allocated

theorem Linkage.fresh (h : s.Linkage ring reap) {x : UInt32} (hfree : s.allocated x = false) :
    x ∉ ring ∧ x ∉ reap ∧ x ≠ s.idleThread := by
  have hnot : ¬ s.allocated x = true := by
    rw [hfree]
    exact nofun
  exact ⟨fun hin => hnot (h.allocated x (.inl hin)),
    fun hin => hnot (h.allocated x (.inr (.inl hin))),
    fun heq => hnot (h.allocated x (.inr (.inr heq)))⟩

theorem account_setThread {change : ThreadBlock → ThreadBlock} (u : UInt32)
    (hchange : ∀ b, (change b).account = b.account) (t : UInt32) :
    (s.setThread u change).account t = s.account t := by
  rw [account, threads_setThread]
  by_cases heq : t = u
  · subst heq
    rw [Function.update_self]
    exact hchange _
  · rw [Function.update_of_ne heq]
    rfl

theorem setThread_next (s : SchedulerState) (u link t : UInt32) :
    (s.setThread u fun b => { b with next := link }).threads t = { s.threads t with
      next := (s.setThread u fun b => { b with next := link }).next t } := by
  unfold next
  rw [threads_setThread]
  by_cases heq : t = u
  · subst heq
    rw [Function.update_self]
  · rw [Function.update_of_ne heq]

/-- Only links change when a thread is put into the ring. -/
theorem enqueueThread_block {x : UInt32} (hrun : s.enqueueThread x = some s') (t : UInt32) :
    s'.threads t = { s.threads t with next := s'.next t } := by
  unfold enqueueThread at hrun
  split at hrun
  · cases hrun
    exact setThread_next { s with threadQueue := x } x x t
  · obtain ⟨last, -, hrun⟩ := Option.bind_eq_some_iff.mp hrun
    cases hrun
    rw [setThread_next, setThread_next]

theorem threadCreate_block {x stackBase esp : UInt32} {priority : ThreadPriority} {now : UInt64}
    (hrun : s.threadCreate x stackBase esp priority now = some s') :
    s'.threads x = { ThreadBlock.new .ready stackBase esp priority
      now with next := s'.next x } := by
  have hself : (s.newThread x stackBase esp priority now).threads x =
      ThreadBlock.new .ready stackBase esp priority now := Function.update_self ..
  rw [enqueueThread_block hrun, hself]

theorem threadCreate_clock {x stackBase esp : UInt32} {priority : ThreadPriority} {now : UInt64}
    (hrun : s.threadCreate x stackBase esp priority now = some s') :
    s'.schedLastMs = s.schedLastMs := by
  unfold threadCreate enqueueThread at hrun
  split at hrun
  · cases hrun
    rfl
  · obtain ⟨last, -, hrun⟩ := Option.bind_eq_some_iff.mp hrun
    cases hrun
    rfl

/-- A new thread has the account that it was made with. -/
theorem Linkage.create (h : s.Linkage ring reap) {x : UInt32} (hnull : x ≠ 0)
    (hfree : s.allocated x = false) {stackBase esp : UInt32} {priority : ThreadPriority}
    {now : UInt64} (hrun : s.threadCreate x stackBase esp priority now = some s') :
    s'.Linkage (ring ++ [x]) reap ∧ s'.idleThread = s.idleThread ∧
      s'.account x = (ThreadBlock.new .ready stackBase esp priority now).account ∧
      ∀ t, t ≠ x → s'.account t = s.account t := by
  obtain ⟨hring, hreap, hidle⟩ := h.fresh hfree
  have hcreate := threadCreate_eq h.queue hring hnull stackBase esp priority now
  obtain ⟨s₁, hrun', hc⟩ := hcreate
  obtain rfl := Option.some.inj (hrun.symm.trans hrun')
  have hne : ∀ t ∈ reap, t ≠ x := by
    rintro t ht rfl
    exact hreap ht
  refine ⟨⟨hc.queue, ?_, ?_, ?_, ?_, ?_⟩, hc.idleThread, ?_, fun t ht => ?_⟩
  · rw [hc.reapList]
    exact h.reaped.congr fun t ht => by rw [reapNext, hc.blocks t (hne t ht), reapNext]
  · intro t ht
    rcases List.mem_append.mp ht with hin | heq
    · exact h.apart t hin
    · exact List.mem_singleton.mp heq ▸ hreap
  · rw [hc.idleThread]
    refine ⟨h.idle.1, fun hin => ?_, h.idle.2.2⟩
    rcases List.mem_append.mp hin with hin | heq
    · exact h.idle.2.1 hin
    · exact hidle (List.mem_singleton.mp heq).symm
  · rw [hc.currentThread, hc.idleThread]
    exact h.current.imp_right (List.mem_append_left _)
  · intro t ht
    rw [hc.allocated]
    by_cases heq : t = x
    · rw [heq, Function.update_self]
    · rw [Function.update_of_ne heq]
      rw [hc.idleThread] at ht
      refine h.allocated t (ht.imp_left fun hin => ?_)
      exact (List.mem_append.mp hin).resolve_right fun hlast => heq (List.mem_singleton.mp hlast)
  · rw [account, threadCreate_block hrun]
    rfl
  · rw [account, hc.blocks t ht]
    rfl

end SchedulerState

end AvrKernel.Scheduler

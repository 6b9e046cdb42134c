import Mathlib.Data.Fintype.Card
import AvrKernel.Scheduler.Handler

/-!
# The passes of the handler

What each walk of `thread_handler_c` does to the ring of threads, to the list of
threads that wait to be freed and to the blocks.
-/

namespace AvrKernel.Scheduler

open Linked

/-- Distinct addresses other than `NULL` are fewer than the address space has. -/
theorem length_lt_addressSpace {l : List UInt32} (hnodup : l.Nodup) (hnull : 0 ∉ l) :
    l.length < addressSpace := by
  have hinj : Function.Injective UInt32.toFin := fun a b h => UInt32.toFin_inj.mp h
  have hall : ((0 :: l).map UInt32.toFin).Nodup := (List.nodup_cons.mpr ⟨hnull, hnodup⟩).map hinj
  have hle := hall.length_le_card
  rw [List.length_map, List.length_cons, Fintype.card_fin] at hle
  exact hle

/-! ## Changes of single blocks -/

namespace SchedulerState

variable {s : SchedulerState} {t u : UInt32} {change : ThreadBlock → ThreadBlock}

@[simp] theorem threads_setThread (s : SchedulerState) (t : UInt32)
    (change : ThreadBlock → ThreadBlock) :
    (s.setThread t change).threads = Function.update s.threads t (change (s.threads t)) := rfl

theorem project_setThread {α : Type} (field : ThreadBlock → α) :
    (fun u => field ((s.setThread t change).threads u)) =
      Function.update (fun u => field (s.threads u)) t (field (change (s.threads t))) :=
  Function.comp_update field s.threads t _

theorem setThread_self (h : change (s.threads t) = s.threads t) : s.setThread t change = s := by
  unfold setThread
  rw [h, Function.update_eq_self]

theorem next_setThread :
    (s.setThread t change).next = Function.update s.next t (change (s.threads t)).next :=
  project_setThread ThreadBlock.next

theorem reapNext_setThread :
    (s.setThread t change).reapNext =
      Function.update s.reapNext t (change (s.threads t)).reapNext :=
  project_setThread ThreadBlock.reapNext

theorem waitNext_setThread :
    (s.setThread t change).waitNext =
      Function.update s.waitNext t (change (s.threads t)).waitNext :=
  project_setThread ThreadBlock.waitNext

end SchedulerState

/-- What the handler may do to a block: its waits stay as they are, it does not
fall asleep, and it neither dies nor comes back to life, nor leaves a wait
without a timeout. -/
structure Progress (b b' : ThreadBlock) : Prop where
  waitEvent : b'.waitEvent = b.waitEvent
  waitNext : b'.waitNext = b.waitNext
  waitSignaled : b'.waitSignaled = b.waitSignaled
  dead : b'.state = .dead ↔ b.state = .dead
  blocked : b'.state = .blocked ↔ b.state = .blocked
  sleeping : b'.state = .sleeping → b.state = .sleeping

namespace Progress

theorem refl (b : ThreadBlock) : Progress b b := ⟨rfl, rfl, rfl, Iff.rfl, Iff.rfl, id⟩

theorem trans {b b' b'' : ThreadBlock} (h : Progress b b') (h' : Progress b' b'') :
    Progress b b'' where
  waitEvent := h'.waitEvent.trans h.waitEvent
  waitNext := h'.waitNext.trans h.waitNext
  waitSignaled := h'.waitSignaled.trans h.waitSignaled
  dead := h'.dead.trans h.dead
  blocked := h'.blocked.trans h.blocked
  sleeping hb := h.sleeping (h'.sleeping hb)

/-- A change that leaves the state and the waits alone. -/
theorem of_eq {b b' : ThreadBlock} (hstate : b'.state = b.state)
    (hevent : b'.waitEvent = b.waitEvent) (hnext : b'.waitNext = b.waitNext)
    (hsignaled : b'.waitSignaled = b.waitSignaled) : Progress b b' :=
  ⟨hevent, hnext, hsignaled, by rw [hstate], by rw [hstate], by rw [hstate]; exact id⟩

/-- A change of the state from one in which the thread wants the CPU to another. -/
theorem of_runnable {b b' : ThreadBlock} (hb : b.Runnable) (hb' : b'.Runnable)
    (hevent : b'.waitEvent = b.waitEvent) (hnext : b'.waitNext = b.waitNext)
    (hsignaled : b'.waitSignaled = b.waitSignaled) : Progress b b' := by
  refine ⟨hevent, hnext, hsignaled, iff_of_false ?_ ?_, iff_of_false ?_ ?_, ?_⟩
  all_goals
    unfold ThreadBlock.Runnable at hb hb'
    rintro heq
  · rw [heq] at hb'
    exact hb'.elim nofun nofun
  · rw [heq] at hb
    exact hb.elim nofun nofun
  · rw [heq] at hb'
    exact hb'.elim nofun nofun
  · rw [heq] at hb
    exact hb.elim nofun nofun
  · rw [heq] at hb'
    exact hb'.elim nofun nofun

/-- A thread that wants the CPU and is not given it still wants it. -/
theorem ready {b b' : ThreadBlock} (h : Progress b b') (hready : b.state = .ready)
    (hruns : b'.state ≠ .running) : b'.state = .ready := by
  cases hstate : b'.state with
  | ready => rfl
  | running => exact absurd hstate hruns
  | sleeping => exact absurd (hready ▸ h.sleeping hstate) nofun
  | blocked => exact absurd (hready ▸ h.blocked.mp hstate) nofun
  | dead => exact absurd (hready ▸ h.dead.mp hstate) nofun

theorem runnable {b b' : ThreadBlock} (h : Progress b b') (hb : b.Runnable) : b'.Runnable := by
  rcases hb with hready | hruns
  · by_cases hruns : b'.state = .running
    · exact .inr hruns
    · exact .inl (h.ready hready hruns)
  · cases hstate : b'.state with
    | ready => exact .inl hstate
    | running => exact .inr hstate
    | sleeping => exact absurd (hruns ▸ h.sleeping hstate) nofun
    | blocked => exact absurd (hruns ▸ h.blocked.mp hstate) nofun
    | dead => exact absurd (hruns ▸ h.dead.mp hstate) nofun

end Progress

/-- The fields of a block that are not part of the accounting. -/
def ThreadBlock.core (b : ThreadBlock) : ThreadBlock :=
  { ThreadBlock.zero with
    state := b.state
    stackBase := b.stackBase
    next := b.next
    reapNext := b.reapNext
    waitEvent := b.waitEvent
    waitNext := b.waitNext
    waitSignaled := b.waitSignaled }

/-- A change that is to the accounting only. -/
def Quiet (change : ThreadBlock → ThreadBlock) : Prop := ∀ b, (change b).core = b.core

namespace Quiet

variable {f g : ThreadBlock → ThreadBlock}

theorem state (h : Quiet f) (b : ThreadBlock) : (f b).state = b.state := by
  have hstate := congrArg ThreadBlock.state (h b)
  exact hstate

theorem next (h : Quiet f) (b : ThreadBlock) : (f b).next = b.next := by
  have hnext := congrArg ThreadBlock.next (h b)
  exact hnext

theorem reapNext (h : Quiet f) (b : ThreadBlock) : (f b).reapNext = b.reapNext := by
  have hnext := congrArg ThreadBlock.reapNext (h b)
  exact hnext

theorem progress (h : Quiet f) (b : ThreadBlock) : Progress b (f b) := by
  have hevent := congrArg ThreadBlock.waitEvent (h b)
  have hnext := congrArg ThreadBlock.waitNext (h b)
  have hsignaled := congrArg ThreadBlock.waitSignaled (h b)
  exact .of_eq (h.state b) hevent hnext hsignaled

theorem comp (hf : Quiet f) (hg : Quiet g) : Quiet fun b => f (g b) :=
  fun b => (hf (g b)).trans (hg b)

theorem ite {p : ThreadBlock → Prop} [DecidablePred p] (hf : Quiet f) (hg : Quiet g) :
    Quiet fun b => if p b then f b else g b := by
  intro b
  dsimp only
  split
  · exact hf b
  · exact hg b

end Quiet

namespace ThreadBlock

theorem quiet_degrade (allotment : UInt32) (n : Nat) : Quiet (degrade allotment n) := by
  induction n with
  | zero => exact fun _ => rfl
  | succ n ih =>
      have hlower : Quiet fun t : ThreadBlock =>
          { t with dynPriority := t.dynPriority.lower, cpuUsedMs := t.cpuUsedMs - allotment } :=
        fun _ => rfl
      exact .ite (fun _ => rfl) (.ite (fun _ => rfl) (ih.comp hlower))

theorem quiet_chargeCpu (ms : UInt32) : Quiet (chargeCpu · ms) :=
  .ite (fun _ => rfl) fun b => quiet_degrade (b.priority.value * schedDegradeQuanta * schedTickMs) 5
    { b with cpuUsedMs := b.cpuUsedMs + ms }

theorem quiet_age (now : UInt64) : Quiet (age · now) := by
  have hrecover : Quiet (recoverOffCpu · now) := .ite (fun _ => rfl) fun _ => rfl
  have hstarve : Quiet (starve · now) := .ite (fun _ => rfl) (.ite (fun _ => rfl) fun _ => rfl)
  exact .ite (fun _ => rfl) (hstarve.comp hrecover)

end ThreadBlock

namespace SchedulerState

variable {s s' : SchedulerState} {ring reap : List UInt32} {prev : UInt32} {now : UInt64}

/-- A state without the accounting. -/
def core (s : SchedulerState) : SchedulerState :=
  { s with threads := fun t => (s.threads t).core, schedLastMs := 0 }

theorem core_threads (h : s'.core = s.core) (t : UInt32) :
    (s'.threads t).core = (s.threads t).core := by
  have hthreads := congrFun (congrArg SchedulerState.threads h) t
  exact hthreads

theorem core_next (h : s'.core = s.core) : s'.next = s.next := by
  funext t
  have hnext := congrArg ThreadBlock.next (core_threads h t)
  exact hnext

theorem core_reapNext (h : s'.core = s.core) : s'.reapNext = s.reapNext := by
  funext t
  have hnext := congrArg ThreadBlock.reapNext (core_threads h t)
  exact hnext

theorem core_stackBase (h : s'.core = s.core) (t : UInt32) :
    (s'.threads t).stackBase = (s.threads t).stackBase := by
  have hstack := congrArg ThreadBlock.stackBase (core_threads h t)
  exact hstack

theorem core_state (h : s'.core = s.core) (t : UInt32) :
    (s'.threads t).state = (s.threads t).state := by
  have hstate := congrArg ThreadBlock.state (core_threads h t)
  exact hstate

theorem core_progress (h : s'.core = s.core) (t : UInt32) :
    Progress (s.threads t) (s'.threads t) := by
  have hcore := core_threads h t
  have hevent := congrArg ThreadBlock.waitEvent hcore
  have hnext := congrArg ThreadBlock.waitNext hcore
  have hsignaled := congrArg ThreadBlock.waitSignaled hcore
  exact .of_eq (core_state h t) hevent hnext hsignaled

theorem core_setThread {change : ThreadBlock → ThreadBlock} (h : Quiet change) (t : UInt32) :
    (s.setThread t change).core = s.core := by
  have hthreads : (fun u => ((s.setThread t change).threads u).core) =
      fun u => (s.threads u).core := by
    rw [project_setThread ThreadBlock.core, h, Function.update_eq_self]
  unfold core
  rw [hthreads]
  rfl

theorem core_recordFrame (currentEsp : UInt32) : (s.recordFrame prev currentEsp).core = s.core := by
  unfold recordFrame
  split
  · apply core_setThread
    exact fun _ => rfl
  · rfl

theorem core_chargePrev : (s.chargePrev prev now).core = s.core := by
  unfold chargePrev
  dsimp only
  split
  · refine (core_setThread ?_ prev).trans rfl
    have hcharge := ThreadBlock.quiet_chargeCpu (now - s.schedLastMs).toUInt32
    have hrecover : Quiet ThreadBlock.recover := fun _ => rfl
    intro b
    dsimp only
    split
    · exact hrecover.comp hcharge b
    · exact hcharge b
  · rfl

theorem core_dropBoost : (s.dropBoost prev).core = s.core := by
  unfold dropBoost
  split
  · apply core_setThread
    exact fun _ => rfl
  · rfl

/-! ## Freeing -/

/-- The state after the threads of `reap` have been freed. -/
def afterReap (s : SchedulerState) (reap : List UInt32) : SchedulerState :=
  { s with
    reapList := 0
    allocated := fun t => s.allocated t && !decide (t ∈ reap)
    history := s.history ++ reap.map fun t => .freed t (s.threads t).stackBase }

theorem reapThreads_eq {n : Nat} (h : Chain 0 s.reapNext s.reapList reap) (hn : reap.length < n) :
    s.reapThreads n = some (s.afterReap reap) := by
  induction reap generalizing s n with
  | nil =>
      have hnil : s.reapList = 0 := h.head_eq_null.mpr rfl
      cases n with
      | zero => exact absurd hn (Nat.not_lt_zero _)
      | succ n =>
          rw [reapThreads, if_pos hnil]
          simp only [afterReap, List.map_nil, List.append_nil, List.not_mem_nil, decide_false,
            Bool.not_false, Bool.and_true, ← hnil]
  | cons t reap ih =>
      obtain rfl := h.head_eq
      have hne : s.reapList ≠ 0 := fun hnil => List.cons_ne_nil _ _ (h.head_eq_null.mp hnil)
      cases n with
      | zero => exact absurd hn (Nat.not_lt_zero _)
      | succ n =>
          rw [reapThreads, if_neg hne]
          dsimp only
          rw [ih (s := { s with
              reapList := s.reapNext s.reapList
              allocated := Function.update s.allocated s.reapList false
              history := s.history ++ [.freed s.reapList (s.threads s.reapList).stackBase] })
            h.tail (Nat.lt_of_succ_lt_succ hn)]
          unfold afterReap
          congr 2
          · funext t
            by_cases heq : t = s.reapList
            · subst heq
              simp
            · simp [heq]
          · simp

theorem countThreads_eq (h : Ring 0 s.next s.threadQueue ring) (hne : ring ≠ []) :
    s.countThreads = some ring.length := by
  unfold countThreads
  rw [h.fold hne 0 (length_lt_addressSpace h.nodup h.valid).le, List.foldl_add_const]
  simp

/-! ## The first pass -/

abbrev Alive (s : SchedulerState) (t : UInt32) : Prop := (s.threads t).state ≠ .dead

/-- The variables that the handler never writes. -/
def others (s : SchedulerState) : SchedulerState :=
  { s with
    threads := fun _ => .zero
    currentThread := 0
    threadQueue := 0
    reapList := 0
    schedLastMs := 0
    allocated := fun _ => false
    history := [] }

/-- A pass from `s` to `s'` leaves the ring `ring` and the list `reap`, and has
unlinked the threads `dropped`. -/
structure Passed (s s' : SchedulerState) (ring reap dropped : List UInt32) : Prop where
  queue : Ring 0 s'.next s'.threadQueue ring
  reaped : Chain 0 s'.reapNext s'.reapList reap
  progress : ∀ t, Progress (s.threads t) (s'.threads t)
  running : ∀ t, (s'.threads t).state = .running ↔ (s.threads t).state = .running
  history : s'.history = s.history ++ dropped.map .unlinked
  current : s'.currentThread = s.currentThread
  allocated : s'.allocated = s.allocated
  others : s'.others = s.others

theorem Passed.trans {s₁ s₂ s₃ : SchedulerState} {ring₁ ring₂ reap₁ reap₂ d₁ d₂ : List UInt32}
    (h : Passed s₁ s₂ ring₁ reap₁ d₁) (h' : Passed s₂ s₃ ring₂ reap₂ d₂) :
    Passed s₁ s₃ ring₂ reap₂ (d₁ ++ d₂) where
  queue := h'.queue
  reaped := h'.reaped
  progress t := (h.progress t).trans (h'.progress t)
  running t := (h'.running t).trans (h.running t)
  history := by rw [h'.history, h.history, List.map_append, List.append_assoc]
  current := h'.current.trans h.current
  allocated := h'.allocated.trans h.allocated
  others := h'.others.trans h.others

theorem Passed.alive {ring reap dropped : List UInt32} (h : Passed s s' ring reap dropped)
    (t : UInt32) : s'.Alive t ↔ s.Alive t := not_congr (h.progress t).dead

/-- Taking a thread out of the ring changes the link of one block. -/
theorem unlinkThread_eq {kept rest : List UInt32} {x : UInt32}
    (h : Ring 0 s.next s.threadQueue (kept ++ x :: rest)) :
    ∃ p n q, s.unlinkThread x =
        some { s.setThread p fun t => { t with next := n } with threadQueue := q } ∧
      Ring 0 (Function.update s.next p n) q (kept ++ rest) := by
  have hhead := h.turn.1
  have hx : x ≠ 0 := fun hnil => h.valid (hnil ▸ List.mem_append_right kept List.mem_cons_self)
  have hothers : x ∉ rest ++ kept := by
    have hnodup := h.nodup
    rw [List.nodup_middle, List.nodup_cons] at hnodup
    intro hmem
    exact hnodup.1 (List.mem_append.mpr (List.mem_append.mp hmem).symm)
  have hround := h.from_mem
  unfold unlinkThread
  rw [if_neg (not_or.mpr ⟨hhead, hx⟩)]
  rcases List.eq_nil_or_concat' (rest ++ kept) with hnil | ⟨l, y, hlast⟩
  · -- the only thread
    obtain ⟨rfl, rfl⟩ := List.append_eq_nil_iff.mp hnil
    have hself : s.next x = x := hround.2
    refine ⟨x, s.next x, 0, ?_, Ring.nil 0 _⟩
    rw [if_pos hself, setThread_self rfl]
  · have hwalk : walk (fun p => decide (s.next p = x)) s.next addressSpace x = some y := by
      have hlen : (x :: (l ++ [y])).length < addressSpace := by
        apply length_lt_addressSpace
        · have hnodup := h.nodup
          rw [List.nodup_middle, List.nodup_cons, ← List.nodup_append_comm] at hnodup
          exact List.nodup_cons.mpr ⟨hlast ▸ hothers, hlast ▸ hnodup.2⟩
        · rw [← hlast]
          intro hmem
          apply h.valid
          rw [List.mem_append, List.mem_cons]
          rw [List.mem_cons, List.mem_append] at hmem
          tauto
      have hpath : Path s.next x (x :: l ++ [y]) x := by
        rw [List.cons_append, ← hlast]
        exact hround
      apply Ring.walk_before hpath (hlast ▸ hothers)
      rw [List.length_cons, List.length_append, List.length_singleton] at hlen
      exact Nat.lt_of_succ_lt hlen
    have hself : s.next x ≠ x := by
      have hpath : Path s.next (s.next x) (l ++ [y]) x := hlast ▸ hround.2
      rw [hlast] at hothers
      intro hself
      cases l with
      | nil => exact hothers (by rw [← hself, hpath.1]; exact List.mem_cons_self)
      | cons z l => exact hothers (by rw [← hself, hpath.1]; exact List.mem_cons_self)
    refine ⟨y, s.next x, if s.threadQueue = x then s.next x else s.threadQueue, ?_, ?_⟩
    · rw [if_neg hself, hwalk]
      rfl
    · exact h.unlink hlast

theorem update_progress {threads : UInt32 → ThreadBlock} {t : UInt32} {b : ThreadBlock}
    (h : Progress (threads t) b) (u : UInt32) : Progress (threads u)
    (Function.update threads t b u) := by
  by_cases heq : u = t
  · subst heq
    rw [Function.update_self]
    exact h
  · rw [Function.update_of_ne heq]
    exact .refl _

theorem update_running {threads : UInt32 → ThreadBlock} {t : UInt32} {b : ThreadBlock}
    (h : b.state = .running ↔ (threads t).state = .running) (u : UInt32) :
    (Function.update threads t b u).state = .running ↔ (threads u).state = .running := by
  by_cases heq : u = t
  · subst heq
    rw [Function.update_self]
    exact h
  · rw [Function.update_of_ne heq]

theorem dropThread_eq {kept rest : List UInt32} {x : UInt32}
    (h : Ring 0 s.next s.threadQueue (kept ++ x :: rest))
    (hreap : Chain 0 s.reapNext s.reapList reap) (hx : x ∉ reap) :
    ∃ s', s.dropThread x = some s' ∧ Passed s s' (kept ++ rest) (x :: reap) [x] := by
  obtain ⟨p, n, q, hunlink, hring⟩ := unlinkThread_eq h
  have hnull : x ≠ 0 := fun hnil => h.valid (hnil ▸ List.mem_append_right kept List.mem_cons_self)
  unfold dropThread
  rw [hunlink]
  refine ⟨_, rfl, ?_, ?_, ?_, ?_, rfl, rfl, rfl, rfl⟩
  · have hnext : (s.setThread p fun t => { t with next := n }).next = Function.update s.next p n :=
      next_setThread
    rw [← hnext] at hring
    refine hring.congr fun t _ => ?_
    refine (congrFun next_setThread t).trans ?_
    exact congrFun (Function.update_eq_self x _) t
  · have hsame : (s.setThread p fun t => { t with next := n }).reapNext = s.reapNext :=
      reapNext_setThread.trans (Function.update_eq_self p s.reapNext)
    refine (hreap.push hx hnull).congr fun t _ => ?_
    refine (congrFun reapNext_setThread t).trans ?_
    exact congrFun (congrArg (fun links => Function.update links x s.reapList) hsame) t
  · intro t
    have hlink := update_progress (t := p) (b := { s.threads p with next := n })
      (.of_eq rfl rfl rfl rfl) t
    apply hlink.trans
    apply update_progress
    exact .of_eq rfl rfl rfl rfl
  · intro t
    have hlink := update_running (t := p) (b := { s.threads p with next := n }) Iff.rfl t
    refine Iff.trans ?_ hlink
    apply update_running
    exact Iff.rfl

theorem setThread_setThread (f g : ThreadBlock → ThreadBlock) (t : UInt32) :
    (s.setThread t f).setThread t g = s.setThread t fun b => g (f b) := by
  unfold setThread
  simp only [Function.update_self, Function.update_idem]

theorem wake_progress (b : ThreadBlock) (now : UInt64) : Progress b (b.wake now) := by
  unfold ThreadBlock.wake
  split
  · rename_i h
    refine ⟨rfl, rfl, rfl, ?_, ?_, ?_⟩
    · rw [h.1]
      exact iff_of_false nofun nofun
    · rw [h.1]
      exact iff_of_false nofun nofun
    · exact nofun
  · exact .refl b

theorem wake_running (b : ThreadBlock) (now : UInt64) :
    (b.wake now).state = .running ↔ b.state = .running := by
  unfold ThreadBlock.wake
  split
  · rename_i h
    rw [h.1]
    exact iff_of_false nofun nofun
  · exact Iff.rfl

theorem wake_next (b : ThreadBlock) (now : UInt64) :
    (b.wake now).next = b.next ∧ (b.wake now).reapNext = b.reapNext := by
  unfold ThreadBlock.wake
  split <;> exact ⟨rfl, rfl⟩

/-- A thread that is not dead is woken, if it is time, and ages. -/
theorem passed_age (now : UInt64) (h : Ring 0 s.next s.threadQueue ring)
    (hreap : Chain 0 s.reapNext s.reapList reap) (t : UInt32) :
    Passed s (s.setThread t fun b => (b.wake now).age now) ring reap [] where
  queue := by
    have hsame : (s.setThread t fun b => (b.wake now).age now).next = s.next := by
      rw [next_setThread, (ThreadBlock.quiet_age now).next, (wake_next _ now).1]
      exact Function.update_eq_self t s.next
    exact hsame ▸ h
  reaped := by
    have hsame : (s.setThread t fun b => (b.wake now).age now).reapNext = s.reapNext := by
      rw [reapNext_setThread, (ThreadBlock.quiet_age now).reapNext, (wake_next _ now).2]
      exact Function.update_eq_self t s.reapNext
    exact hsame ▸ hreap
  progress := by
    apply update_progress
    exact (wake_progress _ now).trans ((ThreadBlock.quiet_age now).progress _)
  running := by
    apply update_running
    rw [(ThreadBlock.quiet_age now).state]
    exact wake_running _ now
  history := (List.append_nil _).symm
  current := rfl
  allocated := rfl
  others := rfl

theorem passOne_succ (now : UInt64) {n : Nat} {t : UInt32} (hhead : s.threadQueue ≠ 0) :
    passOne now (n + 1) s t =
      (if ¬ s.Alive t then s.dropThread t
        else some (s.setThread t fun b => (b.wake now).age now)).bind fun s₁ =>
          passOne now n s₁ (s.next t) := by
  have hstate : ((s.setThread t fun b => b.wake now).threads t).state = .dead ↔ ¬ s.Alive t := by
    rw [threads_setThread, Function.update_self, not_not]
    exact (wake_progress _ now).dead
  rw [passOne, if_neg hhead]
  by_cases halive : s.Alive t
  · simp only [hstate, setThread_setThread]
    rw [if_neg (not_not.mpr halive), if_neg (not_not.mpr halive)]
    rfl
  · -- a dead thread does not wake
    have hasleep : (s.threads t).state ≠ .sleeping := by
      rw [not_not.mp halive]
      decide
    have hsame : (s.setThread t fun b => b.wake now) = s := by
      apply setThread_self
      exact if_neg fun hwake => hasleep hwake.1
    simp only [hsame, not_not.mp halive, halive, if_true, not_false_eq_true]
    rfl

/-- The pass over `rest`, when `kept` is what it has kept of the threads before. -/
theorem passOne_eq (now : UInt64) (kept : List UInt32) {rest : List UInt32} {t : UInt32}
    (h : Ring 0 s.next s.threadQueue (kept ++ rest))
    (hreap : Chain 0 s.reapNext s.reapList reap) (hapart : ∀ u ∈ rest, u ∉ reap)
    (ht : ∀ x l, rest = x :: l → t = x) :
    ∃ s', passOne now rest.length s t = some s' ∧
      Passed s s' (kept ++ rest.filter fun u => s.Alive u)
        ((rest.filter fun u => ¬ s.Alive u).reverse ++ reap)
        (rest.filter fun u => ¬ s.Alive u) := by
  induction rest generalizing s kept reap t with
  | nil =>
      refine ⟨s, rfl, ?_⟩
      exact ⟨h, hreap, fun _ => .refl _, fun _ => Iff.rfl, (List.append_nil _).symm, rfl, rfl, rfl⟩
  | cons x rest ih =>
      obtain rfl := ht x rest rfl
      obtain ⟨hhead, hfollowing, hnew⟩ := h.turn
      rw [List.length_cons, passOne_succ now hhead]
      by_cases halive : s.Alive t
      · rw [if_neg (not_not.mpr halive)]
        have hpass := passed_age now h hreap t
        have hring : kept ++ t :: rest = kept ++ [t] ++ rest := by
          rw [List.append_assoc, List.singleton_append]
        obtain ⟨s', hrun, hrest⟩ := ih (kept ++ [t]) (hring ▸ hpass.queue) hpass.reaped
          (fun u hu => hapart u (List.mem_cons_of_mem t hu)) hfollowing
        refine ⟨s', hrun, ?_⟩
        have hdone := hpass.trans hrest
        simp only [hpass.alive] at hdone
        have hdead : ¬ (decide ¬ s.Alive t) = true := by simpa using halive
        rw [List.append_assoc, List.singleton_append] at hdone
        simp only [List.filter_cons]
        rw [if_pos (decide_eq_true halive), if_neg hdead]
        exact hdone
      · rw [if_pos halive]
        obtain ⟨s₁, hdrop, hpass⟩ := dropThread_eq h hreap (hapart t List.mem_cons_self)
        have hfresh : ∀ u ∈ rest, u ∉ t :: reap := by
          intro u hu hmem
          rcases List.mem_cons.mp hmem with rfl | hmem
          · exact hnew hu
          · exact hapart u (List.mem_cons_of_mem t hu) hmem
        obtain ⟨s', hrun, hrest⟩ := ih kept hpass.queue hpass.reaped hfresh hfollowing
        refine ⟨s', by rw [hdrop]; exact hrun, ?_⟩
        have hdone := hpass.trans hrest
        simp only [hpass.alive] at hdone
        have hkept : ¬ decide (s.Alive t) = true := by simpa using halive
        simp only [List.filter_cons]
        rw [if_neg hkept, if_pos (decide_eq_true halive), List.reverse_cons, List.append_assoc]
        exact hdone

end SchedulerState

end AvrKernel.Scheduler

import AvrKernel.Scheduler.Passes

/-!
# The choice of the next thread

The second pass of `thread_handler_c` comes to an end, and the thread that it
gives the CPU to has the highest effective priority of those that want it.
-/

namespace AvrKernel.Scheduler

open Linked

theorem foldl_best {α : Type} {P : α → Prop} [DecidablePred P] (value : α → Int) (l : List α)
    (first : Int) :
    let best := l.foldl (fun best t => if P t ∧ value t > best then value t else best) first
    first ≤ best ∧ (∀ t ∈ l, P t → value t ≤ best) ∧
      (best = first ∨ ∃ t ∈ l, P t ∧ value t = best) := by
  induction l generalizing first with
  | nil => exact ⟨le_refl first, fun t ht => absurd ht List.not_mem_nil, .inl rfl⟩
  | cons x l ih =>
      rw [List.foldl_cons]
      by_cases hx : P x ∧ value x > first
      · rw [if_pos hx]
        obtain ⟨hfirst, hall, hsome⟩ := ih (value x)
        refine ⟨hx.2.le.trans hfirst, ?_, ?_⟩
        · intro t ht hP
          rcases List.mem_cons.mp ht with rfl | ht
          · exact hfirst
          · exact hall t ht hP
        · rcases hsome with heq | ⟨t, ht, hP, heq⟩
          · exact .inr ⟨x, List.mem_cons_self, hx.1, heq.symm⟩
          · exact .inr ⟨t, List.mem_cons_of_mem x ht, hP, heq⟩
      · rw [if_neg hx]
        obtain ⟨hfirst, hall, hsome⟩ := ih first
        refine ⟨hfirst, ?_, ?_⟩
        · intro t ht hP
          rcases List.mem_cons.mp ht with rfl | ht
          · have hle := not_lt.mp fun hlt => hx ⟨hP, hlt⟩
            exact hle.trans hfirst
          · exact hall t ht hP
        · rcases hsome with heq | ⟨t, ht, hP, heq⟩
          · exact .inl heq
          · exact .inr ⟨t, List.mem_cons_of_mem x ht, hP, heq⟩

namespace SchedulerState

variable {s s' : SchedulerState} {ring : List UInt32} {prev next : UInt32} {now : UInt64}

abbrev Runnable (s : SchedulerState) (t : UInt32) : Prop := (s.threads t).Runnable

theorem effective_pos (s : SchedulerState) (t : UInt32) : -1 < s.effective t :=
  lt_of_lt_of_le (by decide) (Int.natCast_nonneg _)

/-- The pass over all threads finds the highest priority that a runnable one has. -/
theorem maxPriority_eq (h : Ring 0 s.next s.threadQueue ring) :
    ∃ best, s.maxPriority = some best ∧ (∀ t ∈ ring, s.Runnable t → s.effective t ≤ best) ∧
      (best = -1 ∨ ∃ t ∈ ring, s.Runnable t ∧ s.effective t = best) := by
  unfold maxPriority
  by_cases hnil : ring = []
  · rw [if_pos (h.empty hnil)]
    exact ⟨-1, rfl, fun t ht => absurd ht (hnil ▸ List.not_mem_nil), .inl rfl⟩
  · rw [if_neg fun heq => hnil (h.head_eq_null.mp heq),
      h.fold hnil (-1) (length_lt_addressSpace h.nodup h.valid).le]
    obtain ⟨-, hall, hsome⟩ := foldl_best (P := s.Runnable) s.effective ring (-1)
    exact ⟨_, rfl, hall, hsome⟩

/-- A thread that the search accepts is found from wherever it starts. -/
theorem walk_ring (stop : UInt32 → Bool) {start : UInt32}
    (h : Ring 0 s.next s.threadQueue ring) (hstart : start ∈ ring)
    (hstop : ∃ t ∈ ring, stop t = true) :
    ∃ t ∈ ring, stop t = true ∧ walk stop s.next addressSpace start = some t := by
  obtain ⟨l₁, l₂, rfl⟩ := List.append_of_mem hstart
  have hround : Path s.next start ([] ++ (start :: l₂ ++ l₁)) start := h.from_mem
  have hmem : ∀ t, t ∈ start :: l₂ ++ l₁ ↔ t ∈ l₁ ++ start :: l₂ := by
    intro t
    simp only [List.mem_append, List.mem_cons]
    tauto
  obtain ⟨t, ht, hgood⟩ := hstop
  have hfind : ((start :: l₂ ++ l₁).find? stop).isSome = true :=
    List.find?_isSome.mpr ⟨t, (hmem t).mpr ht, hgood⟩
  obtain ⟨found, hfound⟩ := Option.isSome_iff_exists.mp hfind
  obtain ⟨haccept, before, after, hsplit, hskip⟩ := List.find?_eq_some_iff_append.mp hfound
  have hin : found ∈ start :: l₂ ++ l₁ := hsplit ▸ List.mem_append_right before List.mem_cons_self
  refine ⟨found, (hmem found).mp hin, haccept, ?_⟩
  rw [List.nil_append, hsplit] at hround
  apply walk_eq_some hround
  · intro y hy
    simpa using hskip y hy
  · exact haccept
  · have hlt := length_lt_addressSpace h.nodup h.valid
    have hlen := congrArg List.length hsplit
    simp only [List.length_append, List.length_cons] at hlen hlt
    omega

/-! ## Switching -/

theorem switchTo_threads (s : SchedulerState) (prev next t : UInt32) :
    (s.switchTo prev next).threads t =
      { s.threads t with
        ticksRemaining := if t = prev ∧ prev ≠ s.idleThread then (s.threads t).priority.value
          else (s.threads t).ticksRemaining
        state := if t = next then .running
          else if t = prev ∧ (s.threads prev).state = .running then .ready
          else (s.threads t).state } := by
  unfold switchTo
  by_cases hidle : prev ≠ s.idleThread <;> by_cases hrunning : (s.threads prev).state = .running <;>
    by_cases hnext : t = next <;> by_cases hprev : t = prev <;>
    simp [hidle, hrunning, hnext, hprev, Function.update_apply, setThread] <;> aesop

/-- The idle thread runs if no thread of the ring wants the CPU; otherwise one
with the highest effective priority of those that do. -/
def RunsBest (s : SchedulerState) (ring : List UInt32) : Prop :=
  (s.currentThread = s.idleThread ∧ ∀ t ∈ ring, ¬ s.Runnable t) ∨
    (s.currentThread ∈ ring ∧ (s.threads s.currentThread).state = .running ∧
      ∀ t ∈ ring, s.Runnable t → s.effective t ≤ s.effective s.currentThread)

/-- The running threads: at most the current one. -/
structure OneRuns (s : SchedulerState) (ring : List UInt32) : Prop where
  running : ∀ t ∈ ring, (s.threads t).state = .running → t = s.currentThread
  idle : (s.threads s.idleThread).state =
    if s.currentThread = s.idleThread then .running else .ready

/-- From `s` to `s'` the CPU went to another thread, or it did not. -/
structure Switched (s s' : SchedulerState) (ring : List UInt32) : Prop where
  next : s'.next = s.next
  reapNext : s'.reapNext = s.reapNext
  queue : s'.threadQueue = s.threadQueue
  reapList : s'.reapList = s.reapList
  progress : ∀ t, Progress (s.threads t) (s'.threads t)
  oneRuns : s'.OneRuns ring
  best : s'.RunsBest ring
  history : s'.history = s.history
  allocated : s'.allocated = s.allocated
  others : s'.others = s.others

theorem switchTo_others (s : SchedulerState) (prev next : UInt32) :
    (s.switchTo prev next).others = s.others := by
  unfold switchTo
  dsimp only
  split <;> split <;> rfl

theorem switchTo_variables (s : SchedulerState) (prev next : UInt32) :
    (s.switchTo prev next).threadQueue = s.threadQueue ∧
      (s.switchTo prev next).reapList = s.reapList ∧
      (s.switchTo prev next).history = s.history ∧
      (s.switchTo prev next).allocated = s.allocated := by
  unfold switchTo
  dsimp only
  split <;> split <;> exact ⟨rfl, rfl, rfl, rfl⟩

theorem switchTo_effective (s : SchedulerState) (prev next t : UInt32) :
    (s.switchTo prev next).effective t = s.effective t := by
  unfold effective
  rw [switchTo_threads]
  rfl

theorem switchTo_switched (hcurrent : s.currentThread = prev) (hone : s.OneRuns ring)
    (hnext : (next = s.idleThread ∧ ∀ t ∈ ring, ¬ s.Runnable t) ∨
      (next ∈ ring ∧ s.Runnable next ∧ ∀ t ∈ ring, s.Runnable t → s.effective t ≤
        s.effective next)) :
    Switched s (s.switchTo prev next) ring := by
  obtain ⟨hqueue, hlist, hhistory, hallocated⟩ := s.switchTo_variables prev next
  have hothers := s.switchTo_others prev next
  have hsameIdle : (s.switchTo prev next).idleThread = s.idleThread := by
    have hidle := congrArg SchedulerState.idleThread hothers
    exact hidle
  have hwanted : s.Runnable next := by
    rcases hnext with ⟨rfl, -⟩ | ⟨-, hwants, -⟩
    · unfold Runnable ThreadBlock.Runnable
      rw [hone.idle]
      split
      · exact .inr rfl
      · exact .inl rfl
    · exact hwants
  have hstate : ∀ t, ((s.switchTo prev next).threads t).state =
      if t = next then .running
      else if t = prev ∧ (s.threads prev).state = .running then .ready
      else (s.threads t).state := by
    intro t
    rw [switchTo_threads]
  -- the outgoing thread still wants the CPU if it did
  have hrunnable : ∀ t, (s.switchTo prev next).Runnable t ↔ s.Runnable t := by
    intro t
    unfold Runnable ThreadBlock.Runnable
    rw [hstate]
    split
    · rename_i heq
      exact iff_of_true (.inr rfl) (heq ▸ hwanted)
    · split
      · rename_i heq
        exact iff_of_true (.inl rfl) (heq.1 ▸ .inr heq.2)
      · exact Iff.rfl
  refine ⟨?_, ?_, hqueue, hlist, ?_, ⟨?_, ?_⟩, ?_, hhistory, hallocated, hothers⟩
  · funext t
    have hblock := congrArg ThreadBlock.next (s.switchTo_threads prev next t)
    exact hblock
  · funext t
    have hblock := congrArg ThreadBlock.reapNext (s.switchTo_threads prev next t)
    exact hblock
  · intro t
    have hblock := s.switchTo_threads prev next t
    have hevent : ((s.switchTo prev next).threads t).waitEvent = (s.threads t).waitEvent := by
      rw [hblock]
    have hwait : ((s.switchTo prev next).threads t).waitNext = (s.threads t).waitNext := by
      rw [hblock]
    have hsignaled : ((s.switchTo prev next).threads t).waitSignaled =
        (s.threads t).waitSignaled := by
      rw [hblock]
    by_cases hwants : s.Runnable t
    · exact .of_runnable hwants ((hrunnable t).mpr hwants) hevent hwait hsignaled
    · refine .of_eq ?_ hevent hwait hsignaled
      have hother : t ≠ next := by
        rintro rfl
        exact hwants hwanted
      have hidle : ¬ (t = prev ∧ (s.threads prev).state = .running) := by
        rintro ⟨rfl, hruns⟩
        exact hwants (.inr hruns)
      rw [hstate, if_neg hother, if_neg hidle]
  · intro t ht hruns
    rw [hstate] at hruns
    split at hruns
    · assumption
    · split at hruns
      · cases hruns
      · rename_i hother
        obtain rfl := (hone.running t ht hruns).trans hcurrent
        exact absurd ⟨rfl, hruns⟩ hother
  · rw [hsameIdle, hstate, hcurrent.symm]
    have hidleState := hone.idle
    by_cases hto : s.idleThread = next
    · rw [if_pos hto]
      exact (if_pos hto.symm).symm
    · rw [if_neg hto]
      refine Eq.trans ?_ (if_neg fun heq => hto heq.symm).symm
      split
      · rfl
      · rename_i hother
        rw [hidleState, if_neg]
        intro heq
        rw [if_pos heq] at hidleState
        exact hother ⟨heq.symm, heq ▸ hidleState⟩
  · rcases hnext with ⟨rfl, hnone⟩ | ⟨hin, -, hbest⟩
    · exact .inl ⟨hsameIdle.symm, fun t ht hwants => hnone t ht ((hrunnable t).mp hwants)⟩
    · refine .inr ⟨hin, ?_, fun t ht hwants => ?_⟩
      · exact (hstate next).trans (if_pos rfl)
      · have hle := hbest t ht ((hrunnable t).mp hwants)
        rw [switchTo_effective, switchTo_effective]
        exact hle

/-- What the handler finds after the first pass. -/
structure Ready (s : SchedulerState) (ring : List UInt32) : Prop where
  queue : Ring 0 s.next s.threadQueue ring
  alive : ∀ t ∈ ring, s.Alive t
  current : s.currentThread = s.idleThread ∨ s.currentThread ∈ ring ∨ ¬ s.Alive s.currentThread
  idle : s.idleThread ≠ 0 ∧ s.idleThread ∉ ring
  oneRuns : s.OneRuns ring

theorem pickNext_eq (hqueue : Ring 0 s.next s.threadQueue ring)
    (hcurrent : s.currentThread = s.idleThread ∨ s.currentThread ∈ ring ∨ ¬ s.Alive s.currentThread)
    {best : Int} (hbest : ∃ t ∈ ring, s.Runnable t ∧ s.effective t = best) :
    ∃ t ∈ ring, s.Runnable t ∧ s.effective t = best ∧
      s.pickNext s.currentThread best = some t := by
  obtain ⟨u, hu, hwants, heq⟩ := hbest
  have hstart : (if s.currentThread = s.idleThread ∨ (s.threads s.currentThread).state = .dead then
      s.threadQueue else s.next s.currentThread) ∈ ring := by
    split
    · exact hqueue.head_mem (List.ne_nil_of_mem hu)
    · rename_i hin
      rw [not_or] at hin
      rcases hcurrent with hidle | hmem | hdead
      · exact absurd hidle hin.1
      · exact hqueue.next_mem hmem
      · exact absurd hin.2 hdead
  obtain ⟨t, ht, hgood, hwalk⟩ :=
    walk_ring (fun t => decide (s.Runnable t ∧ s.effective t = best)) hqueue hstart
      ⟨u, hu, decide_eq_true ⟨hwants, heq⟩⟩
  obtain ⟨hgood, hpriority⟩ := of_decide_eq_true hgood
  exact ⟨t, ht, hgood, hpriority, hwalk⟩

/-- The current thread goes on, one tick of its quantum less. -/
theorem continued_switched (hone : s.OneRuns ring)
    (hin : s.currentThread ∈ ring) (hruns : (s.threads s.currentThread).state = .running)
    (hbest : ∀ t ∈ ring, s.Runnable t → s.effective t ≤ s.effective s.currentThread) :
    Switched s (s.setThread s.currentThread fun t =>
      { t with ticksRemaining := t.ticksRemaining - 1 }) ring := by
  have hcore : (s.setThread s.currentThread fun t =>
      { t with ticksRemaining := t.ticksRemaining - 1 }).core = s.core := by
    apply core_setThread
    exact fun _ => rfl
  have heffective : ∀ t, (s.setThread s.currentThread fun t =>
      { t with ticksRemaining := t.ticksRemaining - 1 }).effective t = s.effective t := by
    intro t
    unfold effective
    rw [threads_setThread]
    by_cases heq : t = s.currentThread
    · subst heq
      rw [Function.update_self]
      rfl
    · rw [Function.update_of_ne heq]
  have hstate := core_state hcore
  refine ⟨core_next hcore, core_reapNext hcore, rfl, rfl, core_progress hcore, ⟨?_, ?_⟩, ?_,
    rfl, rfl, rfl⟩
  · exact fun t ht hrunning => hone.running t ht (hstate t ▸ hrunning)
  · exact (hstate s.idleThread).trans hone.idle
  · refine .inr ⟨hin, (hstate s.currentThread).trans hruns, fun t ht hwants => ?_⟩
    rw [heffective]
    unfold Runnable ThreadBlock.Runnable at hwants
    rw [hstate] at hwants
    exact (hbest t ht hwants).trans_eq (heffective s.currentThread).symm

theorem chooseNext_eq (h : s.Ready ring) (currentEsp : UInt32) {prevContinues : Bool}
    (hcontinues : prevContinues = true →
      s.currentThread ≠ s.idleThread ∧ (s.threads s.currentThread).state = .running) :
    ∃ esp s', s.chooseNext s.currentThread currentEsp prevContinues = some (esp, s') ∧
      Switched s s' ring := by
  obtain ⟨best, hmax, hall, hsome⟩ := maxPriority_eq h.queue
  unfold chooseNext
  rw [hmax]
  simp only [Option.bind_eq_bind, Option.bind_some]
  by_cases hnone : best = -1
  · -- no thread wants the CPU
    rw [if_pos hnone, if_neg h.idle.1]
    refine ⟨_, _, rfl, switchTo_switched rfl h.oneRuns (.inl ⟨rfl, fun t ht hwants => ?_⟩)⟩
    exact absurd (hnone ▸ hall t ht hwants) (not_le.mpr (s.effective_pos t))
  · obtain ⟨u, hu, hwants, heq⟩ := hsome.resolve_left hnone
    rw [if_neg hnone]
    split
    · -- the current thread has the rest of its quantum
      rename_i hcontinue
      obtain ⟨hidle, hruns⟩ := hcontinues hcontinue.1
      have hin : s.currentThread ∈ ring := by
        rcases h.current with hcurrent | hmem | hdead
        · exact absurd hcurrent hidle
        · exact hmem
        · rw [Alive, hruns] at hdead
          exact absurd nofun hdead
      refine ⟨_, _, rfl, continued_switched h.oneRuns hin hruns ?_⟩
      exact fun t ht hwants => hcontinue.2 ▸ hall t ht hwants
    · obtain ⟨t, ht, hgood, hpriority, hpick⟩ := pickNext_eq h.queue h.current ⟨u, hu, hwants, heq⟩
      rw [hpick]
      refine ⟨_, _, rfl, switchTo_switched rfl h.oneRuns (.inr ⟨ht, hgood, ?_⟩)⟩
      exact fun v hv hwants => hpriority ▸ hall v hv hwants

theorem Ready.of_core (h : s.Ready ring) (hcore : s'.core = s.core) : s'.Ready ring := by
  have hstate := core_state hcore
  have hqueue := congrArg SchedulerState.threadQueue hcore
  have hcurrent := congrArg SchedulerState.currentThread hcore
  have hidle := congrArg SchedulerState.idleThread hcore
  change s'.threadQueue = s.threadQueue at hqueue
  change s'.currentThread = s.currentThread at hcurrent
  change s'.idleThread = s.idleThread at hidle
  constructor
  · rw [core_next hcore, hqueue]
    exact h.queue
  · intro t ht
    rw [Alive, hstate]
    exact h.alive t ht
  · rw [hcurrent, hidle, Alive, hstate]
    exact h.current
  · rw [hidle]
    exact h.idle
  · constructor
    · intro t ht hruns
      rw [hcurrent]
      exact h.oneRuns.running t ht (hstate t ▸ hruns)
    · rw [hcurrent, hidle, hstate]
      exact h.oneRuns.idle

/-! ## The whole handler -/

/-- What an entry of the handler does to a ring of threads and to the threads
that wait to be freed. -/
structure Handled (s s' : SchedulerState) (ring reap : List UInt32) : Prop where
  queue : Ring 0 s'.next s'.threadQueue (ring.filter fun t => s.Alive t)
  reaped : Chain 0 s'.reapNext s'.reapList (ring.filter fun t => ¬ s.Alive t).reverse
  progress : ∀ t, Progress (s.threads t) (s'.threads t)
  oneRuns : s'.OneRuns (ring.filter fun t => s.Alive t)
  best : s'.RunsBest (ring.filter fun t => s.Alive t)
  history : s'.history = s.history ++ (reap.map fun t => .freed t (s.threads t).stackBase) ++
    (ring.filter fun t => ¬ s.Alive t).map .unlinked
  allocated : s'.allocated = fun t => s.allocated t && !decide (t ∈ reap)
  others : s'.others = s.others

/-- The ring and the list of a state, and who has the CPU. -/
structure Queues (s : SchedulerState) (ring reap : List UInt32) : Prop where
  queue : Ring 0 s.next s.threadQueue ring
  reaped : Chain 0 s.reapNext s.reapList reap
  reapDead : ∀ t ∈ reap, ¬ s.Alive t
  apart : ∀ t ∈ ring, t ∉ reap
  idle : s.idleThread ≠ 0 ∧ s.idleThread ∉ ring ∧ s.idleThread ∉ reap
  current : s.currentThread = s.idleThread ∨ s.currentThread ∈ ring
  oneRuns : s.OneRuns ring

theorem Queues.current_ne_zero {reap : List UInt32} (h : s.Queues ring reap) :
    s.currentThread ≠ 0 := by
  rcases h.current with heq | hmem
  · exact heq ▸ h.idle.1
  · exact fun hnil => h.queue.valid (hnil ▸ hmem)

/-- The state in which the handler begins its first pass. -/
def beforePass (s : SchedulerState) (reap : List UInt32) (currentEsp : UInt32) (now : UInt64) :
    SchedulerState :=
  ((s.recordFrame s.currentThread currentEsp).afterReap reap).chargePrev s.currentThread now

theorem beforePass_core (reap : List UInt32) (currentEsp : UInt32) (now : UInt64) :
    (s.beforePass reap currentEsp now).core = (s.afterReap reap).core := by
  have hframe : (s.recordFrame s.currentThread currentEsp).core = s.core := core_recordFrame _
  have hstack : (fun t => LifeEvent.freed t
      ((s.recordFrame s.currentThread currentEsp).threads t).stackBase) =
        fun t => LifeEvent.freed t (s.threads t).stackBase :=
    funext fun t => congrArg (LifeEvent.freed t) (core_stackBase hframe t)
  refine core_chargePrev.trans ?_
  unfold afterReap
  rw [hstack]
  exact congrArg (fun u : SchedulerState =>
    { u with
      reapList := 0
      allocated := fun t => u.allocated t && !decide (t ∈ reap)
      history := u.history ++ reap.map fun t => LifeEvent.freed t (s.threads t).stackBase }) hframe

/-- After the first pass the dead threads are gone from the ring. -/
theorem Ready.of_passed {s₁ s₂ : SchedulerState} {reap dropped list : List UInt32}
    (h : s.Queues ring reap) (hcore : s₁.core = (s.afterReap reap).core)
    (hpassed : Passed s₁ s₂ ([] ++ ring.filter fun t => s.Alive t) list dropped) :
    s₂.Ready (ring.filter fun t => s.Alive t) := by
  have hcurrent : s₂.currentThread = s.currentThread := by
    have hsame := congrArg SchedulerState.currentThread hcore
    exact hpassed.current.trans hsame
  have hidle : s₂.idleThread = s.idleThread := by
    have hsame := congrArg SchedulerState.idleThread hcore
    have hothers := congrArg SchedulerState.idleThread hpassed.others
    exact hothers.trans hsame
  have halive : ∀ t, s₂.Alive t ↔ s.Alive t := by
    intro t
    rw [hpassed.alive, Alive, core_state hcore]
    rfl
  have hrunning : ∀ t, (s₂.threads t).state = .running ↔ (s.threads t).state = .running := by
    intro t
    rw [hpassed.running, core_state hcore]
    rfl
  have hmem : ∀ t, t ∈ ring.filter (fun t => s.Alive t) ↔ t ∈ ring ∧ s.Alive t := by
    intro t
    rw [List.mem_filter, decide_eq_true_iff]
  refine ⟨hpassed.queue, ?_, ?_, ?_, ⟨?_, ?_⟩⟩
  · intro t ht
    exact (halive t).mpr ((hmem t).mp ht).2
  · rw [hcurrent, hidle, halive, hmem]
    by_cases hdead : s.Alive s.currentThread
    · exact h.current.imp_right fun hin => .inl ⟨hin, hdead⟩
    · exact .inr (.inr hdead)
  · rw [hidle]
    exact ⟨h.idle.1, fun hin => h.idle.2.1 ((hmem _).mp hin).1⟩
  · intro t ht hruns
    rw [hcurrent]
    exact h.oneRuns.running t ((hmem t).mp ht).1 ((hrunning t).mp hruns)
  · rw [hidle, hcurrent]
    have hstate := h.oneRuns.idle
    have hruns := hrunning s.idleThread
    have hprogress : Progress (s.threads s.idleThread) (s₂.threads s.idleThread) :=
      (core_progress hcore s.idleThread).trans (hpassed.progress s.idleThread)
    split
    · rename_i heq
      rw [if_pos heq] at hstate
      exact hruns.mpr hstate
    · rename_i hne
      rw [if_neg hne] at hstate
      exact hprogress.ready hstate fun hrun => absurd (hstate ▸ hruns.mp hrun) nofun

theorem beforePass_links (reap : List UInt32) (hqueue : Ring 0 s.next s.threadQueue ring)
    (currentEsp : UInt32) (now : UInt64) :
    Ring 0 (s.beforePass reap currentEsp now).next (s.beforePass reap currentEsp now).threadQueue
        ring ∧
      Chain 0 (s.beforePass reap currentEsp now).reapNext
        (s.beforePass reap currentEsp now).reapList [] := by
  have hcore := s.beforePass_core reap currentEsp now
  have hhead := congrArg SchedulerState.threadQueue hcore
  have hnil := congrArg SchedulerState.reapList hcore
  change (s.beforePass reap currentEsp now).threadQueue = s.threadQueue at hhead
  change (s.beforePass reap currentEsp now).reapList = 0 at hnil
  constructor
  · rw [core_next hcore, hhead]
    exact hqueue
  · rw [hnil]
    exact Chain.nil 0 _

/-- With threads in the ring, an entry of the handler comes to its second pass. -/
theorem threadHandlerC_passes {reap : List UInt32} (hqueue : Ring 0 s.next s.threadQueue ring)
    (hreaped : Chain 0 s.reapNext s.reapList reap) (hne : ring ≠ [])
    (hcurrent : s.currentThread ≠ 0) (currentEsp : UInt32) (now : UInt64) :
    ∃ s₁, passOne now ring.length (s.beforePass reap currentEsp now)
        (s.beforePass reap currentEsp now).threadQueue = some s₁ ∧
      Passed (s.beforePass reap currentEsp now) s₁ ([] ++ ring.filter fun t => s.Alive t)
        ((ring.filter fun t => ¬ s.Alive t).reverse ++ []) (ring.filter fun t => ¬ s.Alive t) ∧
      s.threadHandlerC currentEsp now = s₁.schedule s.currentThread currentEsp := by
  have hhead : s.threadQueue ≠ 0 := fun hnil => hne (hqueue.head_eq_null.mp hnil)
  have hframe : (s.recordFrame s.currentThread currentEsp).core = s.core := core_recordFrame _
  have hreap : (s.recordFrame s.currentThread currentEsp).reapThreads addressSpace =
      some ((s.recordFrame s.currentThread currentEsp).afterReap reap) := by
    have hlist := congrArg SchedulerState.reapList hframe
    change (s.recordFrame s.currentThread currentEsp).reapList = s.reapList at hlist
    apply reapThreads_eq
    · rw [core_reapNext hframe, hlist]
      exact hreaped
    · exact length_lt_addressSpace hreaped.nodup hreaped.valid
  have hcore := s.beforePass_core reap currentEsp now
  obtain ⟨hring, hlist⟩ := beforePass_links reap hqueue currentEsp now
  have hcount := countThreads_eq hring hne
  have hfirst : ∀ x l, ring = x :: l → (s.beforePass reap currentEsp now).threadQueue = x := by
    rintro x l rfl
    exact (hring.path hne).head_eq
  obtain ⟨s₁, hpass, hpassed⟩ := passOne_eq now [] hring hlist
    (fun _ _ => List.not_mem_nil) hfirst
  have halive : ∀ t, (s.beforePass reap currentEsp now).Alive t ↔ s.Alive t := by
    intro t
    rw [Alive, core_state hcore]
    rfl
  simp only [halive] at hpassed
  refine ⟨s₁, hpass, hpassed, ?_⟩
  unfold threadHandlerC
  rw [if_neg (not_or.mpr ⟨hhead, hcurrent⟩)]
  dsimp only
  rw [hreap]
  change (s.beforePass reap currentEsp now).countThreads.bind _ = _
  rw [hcount]
  change (passOne now ring.length (s.beforePass reap currentEsp now)
    (s.beforePass reap currentEsp now).threadQueue).bind _ = _
  rw [hpass]
  rfl

/-- With threads in the ring, an entry of the handler comes to its end. -/
theorem threadHandlerC_eq {reap : List UInt32} (h : s.Queues ring reap) (hne : ring ≠ [])
    (currentEsp : UInt32) (now : UInt64) :
    ∃ esp s', s.threadHandlerC currentEsp now = some (esp, s') ∧ Handled s s' ring reap := by
  have hcore := s.beforePass_core reap currentEsp now
  obtain ⟨s₁, hpass, hpassed, hhandler⟩ :=
    threadHandlerC_passes h.queue h.reaped hne h.current_ne_zero currentEsp now
  have hready := Ready.of_passed h hcore hpassed
  have hcurrent : s₁.currentThread = s.currentThread := by
    have hsame := congrArg SchedulerState.currentThread hcore
    exact hpassed.current.trans hsame
  have hboost : (s₁.dropBoost s.currentThread).core = s₁.core := core_dropBoost
  have hsame : (s₁.dropBoost s.currentThread).currentThread = s.currentThread := by
    have hunchanged := congrArg SchedulerState.currentThread hboost
    exact hunchanged.trans hcurrent
  have hidle : (s₁.dropBoost s.currentThread).idleThread = s₁.idleThread := by
    have hunchanged := congrArg SchedulerState.idleThread hboost
    exact hunchanged
  have hcontinues : decide (s₁.PrevContinues s.currentThread) = true →
      (s₁.dropBoost s.currentThread).currentThread ≠ (s₁.dropBoost s.currentThread).idleThread ∧
        ((s₁.dropBoost s.currentThread).threads
          (s₁.dropBoost s.currentThread).currentThread).state = .running := by
    intro hcontinue
    obtain ⟨hne, hruns, -⟩ := of_decide_eq_true hcontinue
    rw [hsame, hidle, core_state hboost]
    exact ⟨hne, hruns⟩
  obtain ⟨esp, s', hchoose, hswitched⟩ :=
    chooseNext_eq (hready.of_core hboost) currentEsp hcontinues
  refine ⟨esp, s', ?_, ?_⟩
  · rw [hhandler]
    rw [hsame] at hchoose
    exact hchoose
  · have hprogress : ∀ t, Progress (s.threads t) ((s.beforePass reap currentEsp now).threads t) :=
      fun t => core_progress hcore t
    refine ⟨?_, ?_, fun t => ?_, hswitched.oneRuns, hswitched.best, ?_, ?_, ?_⟩
    · have hqueue := congrArg SchedulerState.threadQueue hboost
      change (s₁.dropBoost s.currentThread).threadQueue = s₁.threadQueue at hqueue
      rw [hswitched.next, hswitched.queue, core_next hboost, hqueue]
      exact hpassed.queue
    · have hlist := congrArg SchedulerState.reapList hboost
      change (s₁.dropBoost s.currentThread).reapList = s₁.reapList at hlist
      rw [hswitched.reapNext, hswitched.reapList, core_reapNext hboost, hlist,
        ← List.append_nil (List.reverse _)]
      exact hpassed.reaped
    · exact (((hprogress t).trans (hpassed.progress t)).trans (core_progress hboost t)).trans
        (hswitched.progress t)
    · have hbefore := congrArg SchedulerState.history hcore
      have hafter := congrArg SchedulerState.history hboost
      exact hswitched.history.trans (hafter.trans (hpassed.history.trans
        (congrArg (fun history => history ++ _) hbefore)))
    · have hbefore := congrArg SchedulerState.allocated hcore
      have hafter := congrArg SchedulerState.allocated hboost
      exact hswitched.allocated.trans (hafter.trans (hpassed.allocated.trans hbefore))
    · have hbefore := congrArg others hcore
      have hafter := congrArg others hboost
      exact hswitched.others.trans (hafter.trans (hpassed.others.trans hbefore))

end SchedulerState

end AvrKernel.Scheduler

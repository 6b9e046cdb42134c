import AvrKernel.Scheduler.Choice

/-!
# The life of a thread block

A block is created, unlinked from the ring and freed, in this order, and may
then be handed out again.
-/

namespace AvrKernel.Scheduler

open Linked

inductive Phase
  | absent
  | queued
  | dropped
  deriving DecidableEq

namespace LifeEvent

def thread : LifeEvent → UInt32
  | created t => t
  | unlinked t => t
  | freed t _ => t

/-- The phase that an event ends, and the one that it begins. -/
def before : LifeEvent → Phase
  | created _ => .absent
  | unlinked _ => .queued
  | freed .. => .dropped

def after : LifeEvent → Phase
  | created _ => .queued
  | unlinked _ => .dropped
  | freed .. => .absent

end LifeEvent

/-- The phases of all threads after a history that began with `phases`. -/
def phasesFrom (phases : UInt32 → Phase) (history : List LifeEvent) : UInt32 → Phase :=
  history.foldl (fun phases event => Function.update phases event.thread event.after) phases

/-- Every event comes in the phase that it ends. -/
def LawfulFrom (phases : UInt32 → Phase) : List LifeEvent → Prop
  | [] => True
  | event :: rest =>
      phases event.thread = event.before ∧
        LawfulFrom (Function.update phases event.thread event.after) rest

def phases (history : List LifeEvent) : UInt32 → Phase := phasesFrom (fun _ => .absent) history

def Lawful (history : List LifeEvent) : Prop := LawfulFrom (fun _ => .absent) history

variable {first : UInt32 → Phase} {history rest : List LifeEvent}

theorem phasesFrom_append :
    phasesFrom first (history ++ rest) = phasesFrom (phasesFrom first history) rest :=
  List.foldl_append

theorem lawfulFrom_append : LawfulFrom first (history ++ rest) ↔
    LawfulFrom first history ∧ LawfulFrom (phasesFrom first history) rest := by
  induction history generalizing first with
  | nil => exact ⟨fun h => ⟨trivial, h⟩, And.right⟩
  | cons event history ih =>
      rw [List.cons_append, LawfulFrom, LawfulFrom, ih, and_assoc]
      rfl

/-- Only the threads of its events have a phase other than the first one. -/
theorem phasesFrom_of_not_mem {t : UInt32} (h : t ∉ history.map LifeEvent.thread) :
    phasesFrom first history t = first t := by
  induction history generalizing first with
  | nil => rfl
  | cons event history ih =>
      rw [List.map_cons, List.mem_cons, not_or] at h
      exact (ih h.2).trans (Function.update_of_ne h.1 _ _)

theorem mem_of_phases {t : UInt32} (h : phases history t ≠ .absent) :
    t ∈ history.map LifeEvent.thread := by
  by_contra hnot
  exact h (phasesFrom_of_not_mem hnot)

/-- Events of one kind for distinct threads, all of which are in the phase that
the kind ends. -/
theorem lawfulFrom_map (first : UInt32 → Phase) {event : UInt32 → LifeEvent} {l : List UInt32}
    {begins ends : Phase}
    (hthread : ∀ t, (event t).thread = t) (hbefore : ∀ t, (event t).before = begins)
    (hafter : ∀ t, (event t).after = ends) (hnodup : l.Nodup) (hl : ∀ t ∈ l, first t = begins) :
    LawfulFrom first (l.map event) ∧
      ∀ t, phasesFrom first (l.map event) t = if t ∈ l then ends else first t := by
  induction l generalizing first with
  | nil => exact ⟨trivial, fun t => (if_neg List.not_mem_nil).symm⟩
  | cons u l ih =>
      obtain ⟨hu, hnodup⟩ := List.nodup_cons.mp hnodup
      have hrest : ∀ t ∈ l, Function.update first u ends t = begins := by
        intro t ht
        have hne : t ≠ u := by
          rintro rfl
          exact hu ht
        rw [Function.update_of_ne hne]
        exact hl t (List.mem_cons_of_mem u ht)
      obtain ⟨hlawful, hphases⟩ := ih _ hnodup hrest
      rw [List.map_cons]
      constructor
      · rw [LawfulFrom, hthread, hbefore, hafter]
        exact ⟨hl u List.mem_cons_self, hlawful⟩
      · intro t
        have hstep : phasesFrom first (event u :: l.map event) =
            phasesFrom (Function.update first u ends) (l.map event) := by
          unfold phasesFrom
          rw [List.foldl_cons, hthread, hafter]
        rw [hstep, hphases t]
        by_cases hmem : t ∈ l
        · rw [if_pos hmem, if_pos (List.mem_cons_of_mem u hmem)]
        · rw [if_neg hmem]
          by_cases heq : t = u
          · subst heq
            rw [Function.update_self, if_pos List.mem_cons_self]
          · rw [Function.update_of_ne heq, if_neg]
            rw [List.mem_cons, not_or]
            exact ⟨heq, hmem⟩

namespace SchedulerState

variable {s s' : SchedulerState} {ring reap : List UInt32}

/-- The ring holds the threads that are created and not unlinked, the other
list those that are unlinked and not freed. -/
structure Lives (s : SchedulerState) (ring reap : List UInt32) : Prop where
  lawful : Lawful s.history
  queued : ∀ t, phases s.history t = .queued ↔ t ∈ ring
  dropped : ∀ t, phases s.history t = .dropped ↔ t ∈ reap
  allocated : ∀ t, t ∈ ring ∨ t ∈ reap ∨ t = s.idleThread → s.allocated t = true

theorem Lives.congr (h : s.Lives ring reap) (hhistory : s'.history = s.history)
    (hallocated : s'.allocated = s.allocated) (hidle : s'.idleThread = s.idleThread) :
    s'.Lives ring reap where
  lawful := hhistory ▸ h.lawful
  queued := hhistory ▸ h.queued
  dropped := hhistory ▸ h.dropped
  allocated := by rw [hallocated, hidle]; exact h.allocated

/-- The history goes on lawfully: the threads of `reap` are freed, and the dead
ones of the ring take their place. -/
theorem Lives.handled (h : s.Lives ring reap) (hqueues : s.Queues ring reap)
    (hhandled : Handled s s' ring reap) :
    s'.Lives (ring.filter fun t => s.Alive t) (ring.filter fun t => ¬ s.Alive t).reverse := by
  have hidle : s'.idleThread = s.idleThread := by
    have hsame := congrArg SchedulerState.idleThread hhandled.others
    exact hsame
  have hapart : ∀ t ∈ ring, t ∉ reap := hqueues.apart
  obtain ⟨hfreed, hphases⟩ := lawfulFrom_map (phases s.history)
    (fun t => rfl : ∀ t, (LifeEvent.freed t (s.threads t).stackBase).thread = t) (fun _ => rfl)
    (fun _ => rfl) hqueues.reaped.nodup fun t ht => (h.dropped t).mpr ht
  have hdeadNodup : (ring.filter fun t => ¬ s.Alive t).Nodup := hqueues.queue.nodup.filter _
  obtain ⟨hunlinked, hphases'⟩ := lawfulFrom_map
    (phasesFrom (phases s.history) (reap.map fun t => LifeEvent.freed t (s.threads t).stackBase))
    (fun t => rfl : ∀ t, (LifeEvent.unlinked t).thread = t) (fun _ => rfl) (fun _ => rfl)
    hdeadNodup fun t ht => by
      have hin := List.mem_of_mem_filter ht
      rw [hphases, if_neg (hapart t hin)]
      exact (h.queued t).mpr hin
  have hafter : ∀ t, phases s'.history t = if t ∈ ring.filter (fun t => ¬ s.Alive t) then .dropped
      else if t ∈ reap then .absent else phases s.history t := by
    intro t
    have happend : phases s'.history = phasesFrom (phasesFrom (phases s.history)
        (reap.map fun t => LifeEvent.freed t (s.threads t).stackBase))
          ((ring.filter fun t => ¬ s.Alive t).map .unlinked) := by
      rw [phases, hhandled.history, phasesFrom_append, phasesFrom_append]
      rfl
    rw [happend, hphases', hphases]
  have hmem : ∀ t, t ∈ ring.filter (fun t => ¬ s.Alive t) ↔ t ∈ ring ∧ ¬ s.Alive t := by
    intro t
    rw [List.mem_filter, decide_eq_true_iff]
  have hkept : ∀ t, t ∈ ring.filter (fun t => s.Alive t) ↔ t ∈ ring ∧ s.Alive t := by
    intro t
    rw [List.mem_filter, decide_eq_true_iff]
  refine ⟨?_, ?_, ?_, ?_⟩
  · rw [Lawful, hhandled.history, lawfulFrom_append, lawfulFrom_append]
    exact ⟨⟨h.lawful, hfreed⟩, phasesFrom_append ▸ hunlinked⟩
  · intro t
    rw [hafter, hkept]
    by_cases hdead : t ∈ ring.filter fun t => ¬ s.Alive t
    · rw [if_pos hdead]
      exact iff_of_false nofun fun hin => ((hmem t).mp hdead).2 hin.2
    · rw [if_neg hdead]
      by_cases hreap : t ∈ reap
      · rw [if_pos hreap]
        exact iff_of_false nofun fun hin => hapart t hin.1 hreap
      · rw [if_neg hreap, h.queued]
        refine ⟨fun hin => ⟨hin, ?_⟩, And.left⟩
        exact fun hstate => hdead ((hmem t).mpr ⟨hin, not_not.mpr hstate⟩)
  · intro t
    rw [hafter, List.mem_reverse]
    by_cases hdead : t ∈ ring.filter fun t => ¬ s.Alive t
    · rw [if_pos hdead]
      exact iff_of_true rfl hdead
    · rw [if_neg hdead]
      refine iff_of_false ?_ hdead
      by_cases hreap : t ∈ reap
      · rw [if_pos hreap]
        exact nofun
      · rw [if_neg hreap]
        exact fun hdropped => hreap ((h.dropped t).mp hdropped)
  · intro t ht
    rw [hhandled.allocated]
    have hnot : t ∈ ring ∨ t = s.idleThread := by
      rcases ht with hin | hin | heq
      · exact .inl ((hkept t).mp hin).1
      · exact .inl ((hmem t).mp (List.mem_reverse.mp hin)).1
      · exact .inr (heq.trans hidle)
    have hreap : t ∉ reap := by
      rcases hnot with hin | rfl
      · exact hapart t hin
      · exact hqueues.idle.2.2
    dsimp only
    rw [h.allocated t (hnot.imp_right .inr), decide_eq_false hreap]
    rfl

end SchedulerState

end AvrKernel.Scheduler

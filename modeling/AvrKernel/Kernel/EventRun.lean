import AvrKernel.Kernel.EventUpdate

/-!
# Acting on every event once

However threads send and remove events between the steps of those that update the
queue, an event is acted on once, in the order of the queue, and freed once.
-/

namespace AvrKernel.Kernel.Events

namespace QueueState

variable {Thread : Type} [DecidableEq Thread]

/-! ## The invariant -/

def takenIds (s : QueueState Thread) : List Nat := s.taken.map fun entry => entry.2.id

/-- The part of a record that is a thread's. -/
def logOf (t : Thread) (log : List (Thread × Take)) : List Take :=
  (log.filter fun entry => entry.1 = t).map Prod.snd

/-- What a thread has taken and not acted on yet. -/
def pending (s : QueueState Thread) (t : Thread) : List Take :=
  match s.phase t with
  | .acting take => (take.filter fun take => take.action ≠ .none).toList
  | _ => []

/-- What a thread took is what the event asked for when it was sent. -/
def Right (s : QueueState Thread) (take : Take) : Prop :=
  ∃ event, s.sent[take.id]? = some event ∧ event.Flagged ∧ take.action = event.due ∧
    take.args = if event.has keventExecute then event.args else []

/-- A queued event is as it was sent, or it is dead and nothing is left to do for it. -/
def Queued (s : QueueState Thread) (node : Node) : Prop :=
  s.sent[node.id]? = some node.event ∨
    node.event.has keventDead = true ∧ ¬node.event.Flagged ∧
      ∀ event, s.sent[node.id]? = some event → event.Due → node.id ∈ s.takenIds

structure Inv (s : QueueState Thread) : Prop where
  plain : ∀ event ∈ s.sent, event.Plain
  sorted : (s.queue.map Node.id).Pairwise (· < ·)
  bounded : ∀ node ∈ s.queue, node.id < s.sent.length
  queued : ∀ node ∈ s.queue, s.Queued node
  takenSorted : s.takenIds.Pairwise (· < ·)
  takenRight : ∀ entry ∈ s.taken, s.Right entry.2
  /-- The scans have not reached an event that still asks for something. -/
  takenBefore : ∀ id ∈ s.takenIds, ∀ node ∈ s.queue, node.event.Flagged → id < node.id
  calls : ∀ t, (logOf t s.taken).filter (fun take => take.action ≠ .none) =
    logOf t s.called ++ s.pending t
  freedOnce : s.freed.Nodup
  freedIff : ∀ id, id ∈ s.freed ↔ id < s.sent.length ∧ id ∉ s.queue.map Node.id
  freedDue : ∀ id event, s.sent[id]? = some event → event.Due → id ∈ s.freed →
    id ∈ s.takenIds ∨ id ∈ s.removed

variable {s s' : QueueState Thread}

omit [DecidableEq Thread] in
theorem Right.id_lt {take : Take} (h : s.Right take) : take.id < s.sent.length := by
  obtain ⟨event, hsent, -⟩ := h
  exact (List.getElem?_eq_some_iff.mp hsent).1

namespace Inv

theorem init : Inv (QueueState.init : QueueState Thread) where
  plain := by simp [QueueState.init]
  sorted := by simp [QueueState.init]
  bounded := by simp [QueueState.init]
  queued := by simp [QueueState.init]
  takenSorted := by simp [QueueState.init, takenIds]
  takenRight := by simp [QueueState.init]
  takenBefore := by simp [QueueState.init]
  calls := by simp [QueueState.init, logOf, pending]
  freedOnce := by simp [QueueState.init]
  freedIff := by simp [QueueState.init]
  freedDue := by simp [QueueState.init]

theorem nodup (h : Inv s) : (s.queue.map Node.id).Nodup :=
  h.sorted.imp Nat.ne_of_lt

theorem taken_lt (h : Inv s) {id : Nat} (hid : id ∈ s.takenIds) : id < s.sent.length := by
  obtain ⟨entry, hentry, rfl⟩ := List.mem_map.mp hid
  exact (h.takenRight entry hentry).id_lt

/-- An event that still asks for something is as it was sent. -/
theorem fresh_of_flagged (h : Inv s) {node : Node} (hnode : node ∈ s.queue)
    (hflagged : node.event.Flagged) : s.sent[node.id]? = some node.event := by
  rcases h.queued node hnode with hfresh | ⟨-, hdone, -⟩
  · exact hfresh
  · exact absurd hflagged hdone

/-- No event is left that asks for something else as well. -/
theorem not_flagged_done (h : Inv s) {node : Node} (hnode : node ∈ s.queue)
    (hflagged : node.event.Flagged) : ¬node.event.done.Flagged := by
  rw [KEvent.flagged_done]
  intro hboth
  have hsent := List.mem_of_getElem? (h.fresh_of_flagged hnode hflagged)
  exact (h.plain node.event hsent (.inr hboth.2)).2 hboth

/-! ## Sending -/

theorem send (h : Inv s) {event : KEvent} (hplain : event.Plain) :
    Inv { s with queue := s.queue ++ [{ id := s.sent.length, event }],
                 sent := s.sent ++ [event] } := by
  have hold : ∀ {id : Nat}, id < s.sent.length → (s.sent ++ [event])[id]? = s.sent[id]? :=
    fun hid => List.getElem?_append_left hid
  have hnew : (s.sent ++ [event])[s.sent.length]? = some event := by simp
  constructor
  case plain =>
    intro other hother
    rcases List.mem_append.mp hother with hsent | hsame
    · exact h.plain other hsent
    · exact List.mem_singleton.mp hsame ▸ hplain
  case sorted =>
    rw [List.map_append, List.pairwise_append]
    refine ⟨h.sorted, List.pairwise_singleton _ _, ?_⟩
    intro id hid last hlast
    obtain ⟨node, hnode, rfl⟩ := List.mem_map.mp hid
    rw [List.mem_singleton.mp hlast]
    exact h.bounded node hnode
  case bounded =>
    intro node hnode
    rw [List.length_append, List.length_singleton]
    rcases List.mem_append.mp hnode with hqueue | hlast
    · exact Nat.lt_succ_of_lt (h.bounded node hqueue)
    · rw [List.mem_singleton.mp hlast]
      exact Nat.lt_succ_self _
  case queued =>
    intro node hnode
    rcases List.mem_append.mp hnode with hqueue | hlast
    · rcases h.queued node hqueue with hfresh | ⟨hdead, hdone, htaken⟩
      · exact .inl ((hold (h.bounded node hqueue)).trans hfresh)
      · refine .inr ⟨hdead, hdone, fun other hother => htaken other ?_⟩
        exact (hold (h.bounded node hqueue)).symm.trans hother
    · rw [List.mem_singleton.mp hlast]
      exact .inl hnew
  case takenSorted => exact h.takenSorted
  case takenRight =>
    intro entry hentry
    have hlt := (h.takenRight entry hentry).id_lt
    obtain ⟨other, hsent, hright⟩ := h.takenRight entry hentry
    exact ⟨other, (hold hlt).trans hsent, hright⟩
  case takenBefore =>
    intro id hid node hnode hflagged
    rcases List.mem_append.mp hnode with hqueue | hlast
    · exact h.takenBefore id hid node hqueue hflagged
    · rw [List.mem_singleton.mp hlast]
      exact h.taken_lt hid
  case calls => exact h.calls
  case freedOnce => exact h.freedOnce
  case freedIff =>
    intro id
    simp only [List.map_append, List.map_cons, List.map_nil, List.mem_append, List.mem_singleton,
      List.length_append, List.length_singleton, not_or]
    rw [h.freedIff id]
    constructor
    · rintro ⟨hlt, hnot⟩
      exact ⟨Nat.lt_succ_of_lt hlt, hnot, hlt.ne⟩
    · rintro ⟨hlt, hnot, hne⟩
      exact ⟨Nat.lt_of_le_of_ne (Nat.le_of_lt_succ hlt) hne, hnot⟩
  case freedDue =>
    intro id other hother hdue hfreed
    rw [hold ((h.freedIff id).mp hfreed).1] at hother
    exact h.freedDue id other hother hdue hfreed

/-! ## Freeing -/

/-- Events leave the queue when they are dead, or because they are removed. -/
theorem leave (h : Inv s) (leaves : Node → Bool) (phase : Thread → Phase) (removed : List Nat)
    (hpending : ∀ t, ({ s with phase := phase } : QueueState Thread).pending t = s.pending t)
    (hleaves : ∀ node ∈ s.queue, leaves node = true →
      node.event.has keventDead = true ∨ node.id ∈ removed) :
    Inv { s with
      queue := s.queue.filter fun node => !leaves node, phase := phase
      removed := s.removed ++ removed
      freed := s.freed ++ (s.queue.filter leaves).map Node.id } := by
  have hmem : ∀ {node : Node}, node ∈ s.queue.filter (fun node => !leaves node) → node ∈ s.queue :=
    fun hnode => (List.mem_filter.mp hnode).1
  constructor
  case plain => exact h.plain
  case sorted => exact h.sorted.sublist (List.filter_sublist.map Node.id)
  case bounded => exact fun node hnode => h.bounded node (hmem hnode)
  case queued => exact fun node hnode => h.queued node (hmem hnode)
  case takenSorted => exact h.takenSorted
  case takenRight => exact h.takenRight
  case takenBefore => exact fun id hid node hnode => h.takenBefore id hid node (hmem hnode)
  case calls =>
    intro t
    rw [h.calls t, ← hpending t]
    rfl
  case freedOnce =>
    apply h.freedOnce.append (nodup_filter_id h.nodup leaves)
    intro id hfreed hleft
    obtain ⟨node, hnode, rfl⟩ := List.mem_map.mp hleft
    exact ((h.freedIff node.id).mp hfreed).2
      (List.mem_map.mpr ⟨node, (List.mem_filter.mp hnode).1, rfl⟩)
  case freedIff =>
    intro id
    rw [List.mem_append, h.freedIff id]
    constructor
    · rintro (⟨hlt, hnot⟩ | hleft)
      · refine ⟨hlt, fun hid => hnot ?_⟩
        obtain ⟨node, hnode, rfl⟩ := List.mem_map.mp hid
        exact List.mem_map.mpr ⟨node, hmem hnode, rfl⟩
      · obtain ⟨node, hnode, rfl⟩ := List.mem_map.mp hleft
        obtain ⟨hqueue, hleaves⟩ := List.mem_filter.mp hnode
        refine ⟨h.bounded node hqueue, fun hid => ?_⟩
        obtain ⟨other, hother, heq⟩ := List.mem_map.mp hid
        obtain ⟨hqueue', hstays⟩ := List.mem_filter.mp hother
        rw [eq_of_id_eq h.nodup hqueue' hqueue heq, hleaves] at hstays
        cases hstays
    · rintro ⟨hlt, hnot⟩
      by_cases hid : id ∈ s.queue.map Node.id
      · right
        obtain ⟨node, hnode, rfl⟩ := List.mem_map.mp hid
        refine List.mem_map.mpr ⟨node, List.mem_filter.mpr ⟨hnode, ?_⟩, rfl⟩
        by_contra hstays
        exact hnot (List.mem_map.mpr ⟨node,
          List.mem_filter.mpr ⟨hnode, by simpa using hstays⟩, rfl⟩)
      · exact .inl ⟨hlt, hid⟩
  case freedDue =>
    intro id event hevent hdue hfreed
    rcases List.mem_append.mp hfreed with hbefore | hleft
    · exact (h.freedDue id event hevent hdue hbefore).imp_right (List.mem_append_left _)
    · obtain ⟨node, hnode, rfl⟩ := List.mem_map.mp hleft
      obtain ⟨hqueue, hleave⟩ := List.mem_filter.mp hnode
      rcases hleaves node hqueue hleave with hdead | hremoved
      · left
        rcases h.queued node hqueue with hfresh | ⟨-, -, htaken⟩
        · obtain rfl := Option.some.inj (hfresh.symm.trans hevent)
          rw [(h.plain node.event (List.mem_of_getElem? hevent) hdue).1] at hdead
          cases hdead
        · exact htaken event hevent hdue
      · exact .inr (List.mem_append_right _ hremoved)

/-! ## Marking -/

/-- A scan that comes to the end of the queue marks every event. -/
theorem markAll (h : Inv s) (phase : Thread → Phase)
    (hpending : ∀ t, ({ s with phase := phase } : QueueState Thread).pending t = s.pending t)
    (hnone : ∀ node ∈ s.queue, ¬node.event.Flagged) :
    Inv { s with queue := s.queue.map Node.mark, phase := phase } := by
  have hids := map_mark_id s.queue
  constructor
  case plain => exact h.plain
  case sorted => exact hids.symm ▸ h.sorted
  case bounded =>
    intro node hnode
    obtain ⟨before, hbefore, rfl⟩ := List.mem_map.mp hnode
    exact h.bounded before hbefore
  case queued =>
    intro node hnode
    obtain ⟨before, hbefore, rfl⟩ := List.mem_map.mp hnode
    refine .inr ⟨KEvent.mark_dead, fun hflag => ?_, fun event hevent hdue => ?_⟩
    · exact hnone before hbefore (KEvent.flagged_mark.mp hflag)
    · rcases h.queued before hbefore with hfresh | ⟨-, -, htaken⟩
      · obtain rfl := Option.some.inj (hfresh.symm.trans hevent)
        exact absurd hdue.flagged (hnone before hbefore)
      · exact htaken event hevent hdue
  case takenSorted => exact h.takenSorted
  case takenRight => exact h.takenRight
  case takenBefore =>
    intro id _ node hnode hflag
    obtain ⟨before, hbefore, rfl⟩ := List.mem_map.mp hnode
    exact absurd (KEvent.flagged_mark.mp hflag) (hnone before hbefore)
  case calls =>
    intro t
    rw [h.calls t, ← hpending t]
    rfl
  case freedOnce => exact h.freedOnce
  case freedIff =>
    intro id
    simp only [hids]
    exact h.freedIff id
  case freedDue => exact h.freedDue

/-- A scan that stops takes from the event it stops at. -/
theorem markTake (h : Inv s) (phase : Thread → Phase) {t : Thread} {before after : List Node}
    {node : Node} (hsplit : s.queue = before ++ node :: after)
    (hbefore : ∀ earlier ∈ before, ¬earlier.event.Flagged) (hflagged : node.event.Flagged)
    (hpending : ∀ other, ({ s with phase := phase } : QueueState Thread).pending other =
      if other = t then [node.take].filter fun take => take.action ≠ .none else s.pending other)
    (hidle : s.pending t = []) :
    Inv { s with
      queue := before.map Node.mark ++ node.done :: after, phase := phase
      taken := s.taken ++ [(t, node.take)] } := by
  have hnode : node ∈ s.queue := by simp [hsplit]
  have hfresh := h.fresh_of_flagged hnode hflagged
  have hids : (before.map Node.mark ++ node.done :: after).map Node.id = s.queue.map Node.id := by
    rw [hsplit, List.map_append, List.map_append, map_mark_id]
    rfl
  have hlater : ∀ other ∈ after, node.id < other.id := by
    intro other hother
    have hsorted := h.sorted
    rw [hsplit, List.map_append, List.map_cons, List.pairwise_append] at hsorted
    exact (List.pairwise_cons.mp hsorted.2.1).1 other.id (List.mem_map_of_mem hother)
  have hafter : ∀ other ∈ after, other ∈ s.queue := fun other hother => by simp [hsplit, hother]
  have hearlier : ∀ other ∈ before, other ∈ s.queue := fun other hother => by simp [hsplit, hother]
  have htakenIds : (s.taken ++ [(t, node.take)]).map (fun entry => entry.2.id) =
      s.takenIds ++ [node.id] := by simp [takenIds]
  have htaken : ∀ {id : Nat}, id ∈ s.takenIds →
      id ∈ (s.taken ++ [(t, node.take)]).map fun entry => entry.2.id := by
    intro id hid
    rw [htakenIds]
    exact List.mem_append_left _ hid
  constructor
  case plain => exact h.plain
  case sorted => exact hids.symm ▸ h.sorted
  case bounded =>
    intro other hother
    have hid : other.id ∈ s.queue.map Node.id := hids ▸ List.mem_map_of_mem hother
    obtain ⟨same, hsame, heq⟩ := List.mem_map.mp hid
    exact heq ▸ h.bounded same hsame
  case queued =>
    intro other hother
    rcases List.mem_append.mp hother with hmarked | hrest
    · obtain ⟨earlier, hmem, rfl⟩ := List.mem_map.mp hmarked
      refine .inr ⟨KEvent.mark_dead, fun hflag => ?_, fun event hevent hdue => ?_⟩
      · exact hbefore earlier hmem (KEvent.flagged_mark.mp hflag)
      · rcases h.queued earlier (hearlier earlier hmem) with hsent | ⟨-, -, hdone⟩
        · obtain rfl := Option.some.inj (hsent.symm.trans hevent)
          exact absurd hdue.flagged (hbefore earlier hmem)
        · exact htaken (hdone event hevent hdue)
    · rcases List.mem_cons.mp hrest with rfl | hmem
      · refine .inr ⟨KEvent.done_dead, h.not_flagged_done hnode hflagged, fun event _ _ => ?_⟩
        simp [takenIds]
      · rcases h.queued other (hafter other hmem) with hsent | ⟨hdead, hdone, hdue⟩
        · exact .inl hsent
        · exact .inr ⟨hdead, hdone, fun event hevent hasks => htaken (hdue event hevent hasks)⟩
  case takenSorted =>
    rw [takenIds, htakenIds, List.pairwise_append]
    refine ⟨h.takenSorted, List.pairwise_singleton _ _, fun id hid last hlast => ?_⟩
    rw [List.mem_singleton.mp hlast]
    exact h.takenBefore id hid node hnode hflagged
  case takenRight =>
    intro entry hentry
    rcases List.mem_append.mp hentry with hmem | hlast
    · exact h.takenRight entry hmem
    · rw [List.mem_singleton.mp hlast]
      exact ⟨node.event, hfresh, hflagged, rfl, rfl⟩
  case takenBefore =>
    intro id hid other hother hflag
    rw [takenIds, htakenIds] at hid
    rcases List.mem_append.mp hother with hmarked | hrest
    · obtain ⟨earlier, hmem, rfl⟩ := List.mem_map.mp hmarked
      exact absurd (KEvent.flagged_mark.mp hflag) (hbefore earlier hmem)
    · rcases List.mem_cons.mp hrest with rfl | hmem
      · exact absurd hflag (h.not_flagged_done hnode hflagged)
      · rcases List.mem_append.mp hid with hold | hlast
        · exact h.takenBefore id hold other (hafter other hmem) hflag
        · rw [List.mem_singleton.mp hlast]
          exact hlater other hmem
  case calls =>
    intro other
    have hcalls := h.calls other
    rw [show ({ s with
      queue := before.map Node.mark ++ node.done :: after, phase := phase
      taken := s.taken ++ [(t, node.take)] } : QueueState Thread).pending other = _
        from hpending other]
    by_cases hsame : other = t
    · subst hsame
      rw [hidle, List.append_nil] at hcalls
      simp only [logOf, List.filter_append, List.map_append] at hcalls ⊢
      rw [hcalls]
      simp
    · have hne : ¬t = other := fun heq => hsame heq.symm
      simp only [logOf, List.filter_append, List.map_append] at hcalls ⊢
      rw [hcalls]
      simp [hsame, hne]
  case freedOnce => exact h.freedOnce
  case freedIff =>
    intro id
    simp only [hids]
    exact h.freedIff id
  case freedDue =>
    intro id event hevent hdue hfreed
    exact (h.freedDue id event hevent hdue hfreed).imp_left htaken

end Inv

end QueueState

/-- An event is sent alive, and asks for one thing, if for anything. -/
def QueueOp.Plain {Thread : Type} : QueueOp Thread → Prop
  | .send flags name arguments true => (newEvent flags name arguments).Plain
  | _ => True

instance {Thread : Type} : (op : QueueOp Thread) → Decidable op.Plain
  | .send flags name arguments true =>
      inferInstanceAs (Decidable (newEvent flags name arguments).Plain)
  | .send _ _ _ false | .remove _ | .mark _ | .act _ | .free _ => .isTrue trivial

/-- The scans of an operation. -/
def QueueOp.marks {Thread : Type} : QueueOp Thread → Nat
  | .mark _ => 1
  | _ => 0

namespace QueueState

variable {Thread : Type} [DecidableEq Thread] {s s' : QueueState Thread}

/-! ## One step -/

omit [DecidableEq Thread] in
theorem pending_of_idle {t : Thread} (hidle : s.phase t = .idle) : s.pending t = [] := by
  simp [pending, hidle]

theorem pending_update (phase : Phase) (t other : Thread) :
    ({ s with phase := Function.update s.phase t phase } : QueueState Thread).pending other =
      if other = t then
        match phase with
        | .acting take => (take.filter fun take => take.action ≠ .none).toList
        | _ => []
      else s.pending other := by
  by_cases hsame : other = t
  · subst hsame
    simp [pending]
  · simp [pending, hsame]

namespace Inv

theorem remove (h : Inv s) {node : Node} (hnode : node ∈ s.queue) :
    Inv { s with
      queue := listRemove node.id s.queue, removed := s.removed ++ [node.id]
      freed := s.freed ++ [node.id] } := by
  have hleft : s.queue.filter (fun other => other.id = node.id) = [node] := by
    have hnodup : (s.queue.filter fun other => other.id = node.id).Nodup :=
      (nodup_filter_id h.nodup _).of_map _
    apply List.perm_singleton.mp
    apply (List.perm_ext_iff_of_nodup hnodup (List.nodup_singleton node)).mpr
    intro other
    rw [List.mem_filter, List.mem_singleton]
    constructor
    · rintro ⟨hother, heq⟩
      exact eq_of_id_eq h.nodup hother hnode (by simpa using heq)
    · rintro rfl
      exact ⟨hnode, by simp⟩
  have hleave := h.leave (fun other => other.id = node.id) s.phase [node.id] (fun _ => rfl)
    (fun other _ heq => .inr (by simpa using heq))
  rw [hleft] at hleave
  rw [listRemove_eq_filter h.nodup]
  simpa using hleave

theorem step (h : Inv s) {op : QueueOp Thread} (hplain : op.Plain) {answer : Bool}
    (hstep : s.step op = some (answer, s')) : Inv s' := by
  cases op with
  | send flags name arguments memory =>
      cases memory with
      | true =>
          obtain ⟨-, rfl⟩ : answer = true ∧ s' =
            _ := by simpa [QueueState.step, eq_comm] using hstep
          exact h.send hplain
      | false =>
          obtain ⟨-, rfl⟩ : answer = false ∧
            s' = s := by simpa [QueueState.step, eq_comm] using hstep
          exact h
  | remove name =>
      rw [QueueState.step] at hstep
      split at hstep
      · rename_i node hfind
        cases hstep
        exact h.remove (List.mem_of_find?_eq_some hfind)
      · cases hstep
        exact h
  | mark t =>
      rw [QueueState.step] at hstep
      split at hstep
      · rename_i hphase
        have hidle := pending_of_idle hphase
        cases hstep
        rcases markQueue_cases s.queue with ⟨hnone, hmark⟩ |
          ⟨before, node, after, hsplit, hbefore, hflagged, hmark⟩
        · rw [hmark]
          have hinv := h.markAll (Function.update s.phase t (.acting none)) (fun other => by
            rw [pending_update]
            split
            · rename_i hsame
              rw [hsame, hidle]
              rfl
            · rfl) hnone
          simpa using hinv
        · rw [hmark]
          have hinv := h.markTake (Function.update s.phase t (.acting (some node.take)))
            hsplit hbefore hflagged (fun other => by
              rw [pending_update]
              split
              · by_cases hnone : node.take.action = .none <;> simp [hnone]
              · rfl) hidle
          simpa using hinv
      · cases hstep
  | act t =>
      rw [QueueState.step] at hstep
      split at hstep
      · rename_i take hphase
        cases hstep
        have hpending : s.pending t = (take.filter fun take => take.action ≠ .none).toList := by
          simp [pending, hphase]
        refine { h with calls := fun other => ?_ }
        have hcalls := h.calls other
        rw [show ({ s with
            phase := Function.update s.phase t Phase.acted
            called := s.called ++ ((take.filter fun take => take.action ≠ .none).map
              fun take => (t, take)).toList } : QueueState Thread).pending other = _
          from pending_update .acted t other]
        by_cases hsame : other = t
        · subst hsame
          rw [hpending] at hcalls
          rw [hcalls]
          simp only [logOf, List.filter_append, List.map_append]
          cases take.filter fun take => take.action ≠ .none <;> simp
        · have hne : ¬t = other := fun heq => hsame heq.symm
          rw [hcalls, if_neg hsame]
          simp only [logOf, List.filter_append, List.map_append]
          cases take.filter fun take => take.action ≠ .none <;> simp [hne]
      · cases hstep
  | free t =>
      rw [QueueState.step] at hstep
      split at hstep
      · rename_i hphase
        cases hstep
        rw [freeQueue_self h.nodup]
        have hinv := h.leave (fun node => node.event.has keventDead)
          (Function.update s.phase t .idle) [] (fun other => by
            rw [pending_update]
            split
            · rename_i hsame
              simp [hsame, pending, hphase]
            · rfl) (fun _ _ hdead => .inl hdead)
        simpa using hinv
      · cases hstep

end Inv

/-! ## Progress -/

/-- The events up to one that a scan would stop at. -/
def ahead (s : QueueState Thread) (id : Nat) : Nat :=
  s.queue.countP fun node => node.id ≤ id ∧ node.event.Flagged

/-- The event is dead, or it is not in the queue. -/
def Settled (s : QueueState Thread) (id : Nat) : Prop :=
  ∀ node ∈ s.queue, node.id = id → node.event.has keventDead = true

theorem sent_extends {op : QueueOp Thread} {answer : Bool} (hstep : s.step op = some (answer, s')) :
    s.sent <+: s'.sent := by
  cases op with
  | send flags name arguments memory =>
      cases memory with
      | true =>
          obtain ⟨-, rfl⟩ : answer = true ∧ s' = _ := by simpa [step, eq_comm] using hstep
          exact List.prefix_append _ _
      | false =>
          obtain ⟨-, rfl⟩ : answer = false ∧ s' = s := by simpa [step, eq_comm] using hstep
          exact List.prefix_rfl
  | remove name =>
      rw [step] at hstep
      split at hstep <;> cases hstep <;> exact List.prefix_rfl
  | mark t =>
      rw [step] at hstep
      split at hstep
      · cases hstep
        exact List.prefix_rfl
      · cases hstep
  | act t =>
      rw [step] at hstep
      split at hstep
      · cases hstep
        exact List.prefix_rfl
      · cases hstep
  | free t =>
      rw [step] at hstep
      split at hstep
      · cases hstep
        exact List.prefix_rfl
      · cases hstep

omit [DecidableEq Thread] in
/-- Events that leave the queue are not in front of any other. -/
theorem progress_of_filter {keep : Node → Bool}
    (hqueue : s'.queue = s.queue.filter keep) (id : Nat) :
    (s.Settled id → s'.Settled id) ∧ s'.ahead id ≤ s.ahead id := by
  constructor
  · intro hsettled node hnode
    rw [hqueue] at hnode
    exact hsettled node (List.mem_filter.mp hnode).1
  · rw [ahead, hqueue]
    exact List.filter_sublist.countP_le

theorem countP_map_mark (id : Nat) (queue : List Node) :
    (queue.map Node.mark).countP (fun node => node.id ≤ id ∧ node.event.Flagged) =
      queue.countP fun node => node.id ≤ id ∧ node.event.Flagged := by
  rw [List.countP_map]
  apply List.countP_congr
  intro node _
  simp only [Function.comp_apply, Node.mark_id, Node.mark_event, KEvent.flagged_mark]

namespace Inv

/-- A scan settles an event, or comes closer to it. -/
theorem markQueue_progress (h : Inv s) (hqueue : s'.queue = (markQueue s.queue).2) (id : Nat) :
    (s.Settled id → s'.Settled id) ∧ (s'.Settled id ∨ s'.ahead id + 1 ≤ s.ahead id) := by
  rcases markQueue_cases s.queue with ⟨hnone, hmark⟩ |
    ⟨before, node, after, hsplit, hbefore, hflagged, hmark⟩
  · have hall : s'.Settled id := by
      intro node hnode _
      rw [hqueue, hmark] at hnode
      obtain ⟨earlier, -, rfl⟩ := List.mem_map.mp hnode
      exact KEvent.mark_dead
    exact ⟨fun _ => hall, .inl hall⟩
  · have hqueue' : s'.queue = before.map Node.mark ++ node.done :: after := by rw [hqueue, hmark]
    have hnode : node ∈ s.queue := by simp [hsplit]
    constructor
    · intro hsettled other hother heq
      rw [hqueue'] at hother
      rcases List.mem_append.mp hother with hmarked | hrest
      · obtain ⟨earlier, -, rfl⟩ := List.mem_map.mp hmarked
        exact KEvent.mark_dead
      · rcases List.mem_cons.mp hrest with rfl | hmem
        · exact KEvent.done_dead
        · exact hsettled other (by simp [hsplit, hmem]) heq
    · by_cases hid : node.id ≤ id
      · right
        -- the event the scan stops at no longer asks for anything
        have hdone := h.not_flagged_done hnode hflagged
        rw [ahead, hqueue', List.countP_append, countP_map_mark,
          List.countP_cons_of_neg (by simp [hdone]), ahead, hsplit, List.countP_append,
          List.countP_cons_of_pos (by simp [hid, hflagged])]
        exact (Nat.add_assoc _ _ _).le
      · left
        -- the scan goes past the event
        intro other hother heq
        rw [hqueue'] at hother
        rcases List.mem_append.mp hother with hmarked | hrest
        · obtain ⟨earlier, -, rfl⟩ := List.mem_map.mp hmarked
          exact KEvent.mark_dead
        · rcases List.mem_cons.mp hrest with rfl | hmem
          · exact KEvent.done_dead
          · have hsorted := h.sorted
            rw [hsplit, List.map_append, List.map_cons, List.pairwise_append] at hsorted
            have hlater := (List.pairwise_cons.mp hsorted.2.1).1 other.id (List.mem_map_of_mem hmem)
            exact absurd (heq ▸ hlater.le) hid

theorem progress (h : Inv s) {op : QueueOp Thread} {answer : Bool}
    (hstep : s.step op = some (answer, s')) {id : Nat} (hid : id < s.sent.length) :
    (s.Settled id → s'.Settled id) ∧ (s'.Settled id ∨ s'.ahead id + op.marks ≤ s.ahead id) := by
  cases op with
  | send flags name arguments memory =>
      cases memory with
      | true =>
          obtain ⟨-, rfl⟩ : answer = true ∧ s' = _ := by
            simpa [QueueState.step, eq_comm] using hstep
          constructor
          · intro hsettled node hnode heq
            rcases List.mem_append.mp hnode with hold | hlast
            · exact hsettled node hold heq
            · rw [List.mem_singleton.mp hlast] at heq
              exact absurd heq hid.ne'
          · right
            simp [ahead, QueueOp.marks, List.countP_append, hid]
      | false =>
          obtain ⟨-, rfl⟩ : answer = false ∧ s' = s := by
            simpa [QueueState.step, eq_comm] using hstep
          exact ⟨fun hsettled => hsettled, .inr le_rfl⟩
  | remove name =>
      rw [QueueState.step] at hstep
      split at hstep
      · cases hstep
        exact (progress_of_filter (listRemove_eq_filter h.nodup _) id).imp_right .inr
      · cases hstep
        exact ⟨fun hsettled => hsettled, .inr le_rfl⟩
  | mark t =>
      rw [QueueState.step] at hstep
      split at hstep
      · cases hstep
        exact h.markQueue_progress rfl id
      · cases hstep
  | act t =>
      rw [QueueState.step] at hstep
      split at hstep
      · cases hstep
        exact ⟨fun hsettled => hsettled, .inr le_rfl⟩
      · cases hstep
  | free t =>
      rw [QueueState.step] at hstep
      split at hstep
      · cases hstep
        exact (progress_of_filter (freeQueue_self h.nodup) id).imp_right .inr
      · cases hstep

end Inv

/-! ## Runs -/

theorem run_inv {ops : List (QueueOp Thread)} {answers : List Bool} (h : Inv s)
    (hplain : ∀ op ∈ ops, op.Plain)
    (hrun : Trace.run step s ops = some (answers, s')) : Inv s' := by
  induction ops generalizing s answers with
  | nil =>
      cases hrun
      exact h
  | cons op rest ih =>
      obtain ⟨answer, s₁, answers', hstep, hrest, -⟩ := Trace.run_cons.mp hrun
      have hinv := h.step (hplain op List.mem_cons_self) hstep
      exact ih hinv (fun op hop => hplain op (List.mem_cons_of_mem _ hop)) hrest

theorem run_sent {ops : List (QueueOp Thread)} {answers : List Bool}
    (hrun : Trace.run step s ops = some (answers, s')) : s.sent <+: s'.sent := by
  induction ops generalizing s answers with
  | nil =>
      cases hrun
      exact List.prefix_rfl
  | cons op rest ih =>
      obtain ⟨answer, s₁, answers', hstep, hrest, -⟩ := Trace.run_cons.mp hrun
      exact (sent_extends hstep).trans (ih hrest)

/-- Every scan that does not settle an event leaves one event less in front of it. -/
theorem run_progress {ops : List (QueueOp Thread)} {answers : List Bool} (h : Inv s)
    (hplain : ∀ op ∈ ops, op.Plain) (hrun : Trace.run step s ops = some (answers, s')) {id : Nat}
    (hid : id < s.sent.length) :
    (s.Settled id → s'.Settled id) ∧
      (s'.Settled id ∨ s'.ahead id + (ops.map QueueOp.marks).sum ≤ s.ahead id) := by
  induction ops generalizing s answers with
  | nil =>
      cases hrun
      exact ⟨fun hsettled => hsettled, .inr le_rfl⟩
  | cons op rest ih =>
      obtain ⟨answer, s₁, answers', hstep, hrest, -⟩ := Trace.run_cons.mp hrun
      have hinv := h.step (hplain op List.mem_cons_self) hstep
      obtain ⟨hkeeps, hcloser⟩ := h.progress hstep hid
      obtain ⟨hkeeps', hcloser'⟩ := ih hinv (fun op hop => hplain op (List.mem_cons_of_mem _ hop))
        hrest (hid.trans_le (sent_extends hstep).length_le)
      refine ⟨fun hsettled => hkeeps' (hkeeps hsettled), ?_⟩
      rcases hcloser' with hsettled | hle'
      · exact .inl hsettled
      · rcases hcloser with hsettled | hle
        · exact .inl (hkeeps' hsettled)
        · right
          calc s'.ahead id + ((op :: rest).map QueueOp.marks).sum
              = s'.ahead id + (rest.map QueueOp.marks).sum + op.marks := by
                rw [List.map_cons, List.sum_cons, Nat.add_comm op.marks, Nat.add_assoc]
            _ ≤ s₁.ahead id + op.marks := Nat.add_le_add_right hle' _
            _ ≤ s.ahead id := hle

/-- A thread has taken what the event asks for. -/
def ActsOn (s : QueueState Thread) (id : Nat) : Prop :=
  ∃ entry ∈ s.taken, entry.2.id = id ∧ entry.2.action ≠ .none

/-- Events are acted on once, as they ask for it, by every thread in the order of the
queue; they are freed once, when they leave the queue, and not before they are acted on. -/
structure Delivered (s : QueueState Thread) : Prop where
  once : s.takenIds.Pairwise (· < ·)
  right : ∀ entry ∈ s.taken, s.Right entry.2
  calls : ∀ t, (logOf t s.taken).filter (fun take => take.action ≠ .none) =
    logOf t s.called ++ s.pending t
  freedOnce : s.freed.Nodup
  freedIff : ∀ id, id ∈ s.freed ↔ id < s.sent.length ∧ id ∉ s.queue.map Node.id
  notLost : ∀ id event, s.sent[id]? = some event → event.Due → id ∈ s.freed → id ∉ s.removed →
    s.ActsOn id

namespace Inv

theorem actsOn (h : Inv s) {id : Nat} {event : KEvent} (hsent : s.sent[id]? = some event)
    (hdue : event.Due) (htaken : id ∈ s.takenIds) : s.ActsOn id := by
  obtain ⟨entry, hentry, rfl⟩ := List.mem_map.mp htaken
  obtain ⟨same, hsame, -, haction, -⟩ := h.takenRight entry hentry
  obtain rfl := Option.some.inj (hsame.symm.trans hsent)
  refine ⟨entry, hentry, rfl, ?_⟩
  rw [haction]
  exact hdue.due_ne_none (h.plain same (List.mem_of_getElem? hsent) hdue).2

theorem delivered (h : Inv s) : s.Delivered where
  once := h.takenSorted
  right := h.takenRight
  calls := h.calls
  freedOnce := h.freedOnce
  freedIff := h.freedIff
  notLost := by
    intro id event hsent hdue hfreed hremoved
    have htaken := (h.freedDue id event hsent hdue hfreed).resolve_right hremoved
    exact h.actsOn hsent hdue htaken

/-- Nothing is left to do for an event that is settled. -/
theorem actsOn_of_settled (h : Inv s) {id : Nat} {event : KEvent} (hsettled : s.Settled id)
    (hsent : s.sent[id]? = some event) (hdue : event.Due) : s.ActsOn id ∨ id ∈ s.removed := by
  by_cases hid : id ∈ s.queue.map Node.id
  · obtain ⟨node, hnode, rfl⟩ := List.mem_map.mp hid
    rcases h.queued node hnode with hfresh | ⟨-, -, htaken⟩
    · obtain rfl := Option.some.inj (hfresh.symm.trans hsent)
      have halive := (h.plain node.event (List.mem_of_getElem? hsent) hdue).1
      rw [hsettled node hnode rfl] at halive
      cases halive
    · exact .inl (h.actsOn hsent hdue (htaken event hsent hdue))
  · have hfreed := (h.freedIff id).mpr ⟨(List.getElem?_eq_some_iff.mp hsent).1, hid⟩
    exact (h.freedDue id event hsent hdue hfreed).imp_left (h.actsOn hsent hdue)

/-- A thread that comes to the end of an update frees what is settled. -/
theorem freed_of_settled (h : Inv s) {id : Nat} (hsettled : s.Settled id)
    (hid : id < s.sent.length) {t : Thread} {answer : Bool}
    (hstep : s.step (.free t) = some (answer, s')) : id ∈ s'.freed := by
  rw [QueueState.step] at hstep
  split at hstep
  · cases hstep
    by_cases hqueue : id ∈ s.queue.map Node.id
    · obtain ⟨node, hnode, rfl⟩ := List.mem_map.mp hqueue
      apply List.mem_append_right
      exact List.mem_map.mpr ⟨node, List.mem_filter.mpr ⟨hnode, hsettled node hnode rfl⟩, rfl⟩
    · exact List.mem_append_left _ ((h.freedIff id).mpr ⟨hid, hqueue⟩)
  · cases hstep

end Inv

/-- In every run in which events are sent alive and ask for one thing at most, each is
acted on once. It has been acted on, or removed, when there have been more scans than
events in front of it, and then the thread that next ends an update frees it. -/
theorem run_delivers {ops later : List (QueueOp Thread)} {answers answers' : List Bool}
    (hplain : ∀ op ∈ ops ++ later, op.Plain)
    (hrun : Trace.run step init ops = some (answers, s))
    (hlater : Trace.run step s later = some (answers', s')) :
    s'.Delivered ∧ ∀ id event, s.sent[id]? = some event →
      s.ahead id < (later.map QueueOp.marks).sum →
        (event.Due → s'.ActsOn id ∨ id ∈ s'.removed) ∧
        ∀ t answer s'', s'.step (.free t) = some (answer, s'') → id ∈ s''.freed := by
  have hinv := run_inv Inv.init (fun op hop => hplain op (List.mem_append_left _ hop)) hrun
  have hplain' : ∀ op ∈ later, op.Plain := fun op hop => hplain op (List.mem_append_right _ hop)
  have hinv' := run_inv hinv hplain' hlater
  refine ⟨hinv'.delivered, fun id event hsent hscans => ?_⟩
  have hid := (List.getElem?_eq_some_iff.mp hsent).1
  have hprefix := run_sent hlater
  have hsettled : s'.Settled id := by
    rcases (run_progress hinv hplain' hlater hid).2 with hsettled | hle
    · exact hsettled
    · exact absurd ((Nat.le_add_left _ _).trans hle) hscans.not_ge
  have hsent' : s'.sent[id]? = some event := by
    obtain ⟨sent, heq⟩ := hprefix
    rw [← heq, List.getElem?_append_left hid, hsent]
  exact ⟨hinv'.actsOn_of_settled hsettled hsent', fun t answer s'' hstep =>
    hinv'.freed_of_settled hsettled (hid.trans_le hprefix.length_le) hstep⟩

/-- Two threads update the queue at once: one acts on the program, and the other on the
refresh that was sent behind it. -/
def twoUpdates : List (QueueOp Bool) × List (QueueOp Bool) :=
  ([.send 2 KEvent.explorerName [] true, .send 4 [] [] true],
    [.mark true, .mark false, .act false, .act true, .free false, .mark false])

theorem run_delivers_twoUpdates :
    ∃ (s s' : QueueState Bool) (answers answers' : List Bool),
      Trace.run step init twoUpdates.1 = some (answers, s) ∧
      Trace.run step s twoUpdates.2 = some (answers', s') ∧ s'.called.length = 2 ∧
      s'.Delivered ∧ s'.ActsOn 0 ∧ s'.ActsOn 1 := by
  let s : QueueState Bool := ((Trace.run step init twoUpdates.1).getD ([], init)).2
  let s' : QueueState Bool := ((Trace.run step s twoUpdates.2).getD ([], init)).2
  have hrun : Trace.run step init twoUpdates.1 = some ([true, true], s) := rfl
  have hlater : Trace.run step s twoUpdates.2 = some ([true, true, true, true, true, true], s') :=
    rfl
  obtain ⟨hdelivered, hsettled⟩ := run_delivers (by decide +kernel) hrun hlater
  have hremoved : s'.removed = [] := rfl
  have hacts : ∀ id event, s.sent[id]? = some event → s.ahead id < 3 → event.Due →
    s'.ActsOn id := by
    intro id event hsent hahead hdue
    refine ((hsettled id event hsent hahead).1 hdue).resolve_right ?_
    simp [hremoved]
  exact ⟨s, s', _, _, hrun, hlater, rfl, hdelivered,
    hacts 0 (newEvent 2 KEvent.explorerName []) rfl (by decide +kernel) (by decide +kernel),
    hacts 1 (newEvent 4 [] []) rfl (by decide +kernel) (by decide +kernel)⟩

/-- `"calc"` -/
def calcName : List UInt8 := [0x63, 0x61, 0x6C, 0x63]

/-- An event that asks for a refresh, and for a program that is not known, is freed
without the refresh. -/
theorem execute_loses_refresh :
    ∃ (s : QueueState Bool) (answers : List Bool) (event : KEvent),
      Trace.run step init [.send 6 calcName [] true, .mark true, .act true, .free true] =
        some (answers, s) ∧
      s.sent[0]? = some event ∧ event.Due ∧ 0 ∈ s.freed ∧ s.removed = [] ∧ s.called = [] ∧
      ¬s.Delivered := by
  let s : QueueState Bool := ((Trace.run step init
    [.send 6 calcName [] true, .mark true, .act true, .free true]).getD ([], init)).2
  have hsent : s.sent[0]? = some (newEvent 6 calcName []) := rfl
  have hdue : (newEvent 6 calcName []).Due := by decide +kernel
  have hfreed : 0 ∈ s.freed := by decide +kernel
  refine ⟨s, [true, true, true, true], _, rfl, hsent, hdue, hfreed, rfl, rfl, fun hdelivered => ?_⟩
  obtain ⟨entry, hentry, -, haction⟩ := hdelivered.notLost 0 _ hsent hdue hfreed (by decide +kernel)
  have htaken : s.taken = [(true, { id := 0, action := .none, args := [] })] := by decide +kernel
  rw [htaken, List.mem_singleton] at hentry
  exact haction (hentry ▸ rfl)

end QueueState

end AvrKernel.Kernel.Events

import Mathlib.Data.List.Nodup

/-!
# Locks with a queue

Who has a lock, and who waits for it in which order. Releasing the lock hands it
over to the one that has waited longest.
-/

structure FifoLock (α : Type) where
  holder : Option α
  queue : List α

namespace FifoLock

variable {α : Type}

inductive Request (α : Type)
  | acquire (a : α)
  | attempt (a : α)
  | release (a : α)

def free : FifoLock α := { holder := none, queue := [] }

/-- Nobody waits for a lock that is free, or for one that it has, or twice. -/
structure Sound (l : FifoLock α) : Prop where
  free : l.holder = none → l.queue = []
  others : ∀ a ∈ l.queue, l.holder ≠ some a
  nodup : l.queue.Nodup

theorem sound_free : (free : FifoLock α).Sound :=
  ⟨fun _ => rfl, fun _ h => absurd h List.not_mem_nil, List.nodup_nil⟩

variable [DecidableEq α] {l : FifoLock α} {r : Request α} {a : α}

def step (l : FifoLock α) : Request α → FifoLock α
  | .acquire a =>
      if l.holder = none then { l with holder := some a } else { l with queue := l.queue ++ [a] }
  | .attempt a => if l.holder = none then { l with holder := some a } else l
  | .release a =>
      if l.holder = some a then { holder := l.queue.head?, queue := l.queue.tail } else l

/-- Who asks for the lock in a request, and will get it. -/
def asked (l : FifoLock α) : Request α → List α
  | .acquire a => [a]
  | .attempt a => if l.holder = none then [a] else []
  | .release _ => []

/-- Who gets the lock in a request. -/
def granted (l : FifoLock α) : Request α → List α
  | .acquire a => if l.holder = none then [a] else []
  | .attempt a => if l.holder = none then [a] else []
  | .release a => if l.holder = some a then l.queue.head?.toList else []

/-- Nobody asks for the lock that has it, or waits for it. -/
def Fresh (l : FifoLock α) (r : Request α) : Prop :=
  ∀ a, r = .acquire a → l.holder ≠ some a ∧ a ∉ l.queue

theorem Sound.step (h : l.Sound) (hr : l.Fresh r) : (l.step r).Sound := by
  cases r with
  | acquire a =>
      obtain ⟨hholder, hqueue⟩ := hr a rfl
      unfold FifoLock.step
      dsimp only
      split
      · rename_i hfree
        refine ⟨nofun, fun b hb => ?_, h.nodup⟩
        rw [h.free hfree] at hb
        cases hb
      · rename_i hheld
        refine ⟨fun hfree => absurd hfree hheld, fun b hb => ?_, ?_⟩
        · rcases List.mem_append.mp hb with hin | heq
          · exact h.others b hin
          · exact List.mem_singleton.mp heq ▸ hholder
        · exact h.nodup.append (List.nodup_singleton a) (List.disjoint_singleton.mpr hqueue)
  | attempt a =>
      unfold FifoLock.step
      dsimp only
      split
      · rename_i hfree
        refine ⟨nofun, fun b hb => ?_, h.nodup⟩
        rw [h.free hfree] at hb
        cases hb
      · exact h
  | release a =>
      unfold FifoLock.step
      dsimp only
      split
      · -- the first that waits has the lock, and waits no more
        cases hqueue : l.queue with
        | nil => exact sound_free
        | cons b rest =>
            have hnodup := List.nodup_cons.mp (hqueue ▸ h.nodup)
            refine ⟨nofun, fun c hc heq => ?_, hnodup.2⟩
            obtain rfl : b = c := Option.some.inj heq
            exact hnodup.1 hc
      · exact h

/-- The holder keeps the lock until it releases it. -/
theorem holder_step (ha : l.holder = some a) (hr : r ≠ .release a) :
    (l.step r).holder = some a := by
  have hheld : l.holder ≠ none := by
    rw [ha]
    exact nofun
  cases r with
  | acquire b =>
      unfold step
      dsimp only
      rw [if_neg hheld]
      exact ha
  | attempt b =>
      unfold step
      dsimp only
      rw [if_neg hheld]
      exact ha
  | release b =>
      have hne : l.holder ≠ some b := by
        intro hb
        exact hr (congrArg Request.release (Option.some.inj (ha.symm.trans hb)).symm)
      unfold step
      dsimp only
      rw [if_neg hne]
      exact ha

/-- Nobody gets the lock that neither waits nor asks for it. -/
theorem holder_of_step (ha : (l.step r).holder = some a) :
    l.holder = some a ∨ a ∈ l.queue ∨ l.holder = none ∧ (r = .acquire a ∨ r = .attempt a) := by
  cases r with
  | acquire b =>
      unfold step at ha
      dsimp only at ha
      split at ha
      next hfree => exact .inr (.inr ⟨hfree, .inl (congrArg Request.acquire (Option.some.inj ha))⟩)
      next => exact .inl ha
  | attempt b =>
      unfold step at ha
      dsimp only at ha
      split at ha
      next hfree => exact .inr (.inr ⟨hfree, .inr (congrArg Request.attempt (Option.some.inj ha))⟩)
      next => exact .inl ha
  | release b =>
      unfold step at ha
      dsimp only at ha
      split at ha
      · exact .inr (.inl (List.mem_of_head? ha))
      · exact .inl ha

/-- Who waits stops to do so when it gets the lock, and only then. -/
theorem Sound.left_iff (h : l.Sound) (ha : a ∈ l.queue) :
    a ∉ (l.step r).queue ↔ (l.step r).holder = some a := by
  have hheld : l.holder ≠ none := by
    intro hfree
    rw [h.free hfree] at ha
    cases ha
  cases r with
  | acquire b =>
      unfold FifoLock.step
      dsimp only
      rw [if_neg hheld]
      exact iff_of_false (not_not.mpr (List.mem_append_left [b] ha)) (h.others a ha)
  | attempt b =>
      unfold FifoLock.step
      dsimp only
      rw [if_neg hheld]
      exact iff_of_false (not_not.mpr ha) (h.others a ha)
  | release b =>
      unfold FifoLock.step
      dsimp only
      split
      · cases hqueue : l.queue with
        | nil => exact absurd (hqueue ▸ ha) List.not_mem_nil
        | cons c rest =>
            have hnodup := List.nodup_cons.mp (hqueue ▸ h.nodup)
            rw [List.tail_cons, List.head?_cons, Option.some.injEq]
            rcases List.mem_cons.mp (hqueue ▸ ha) with rfl | hin
            · exact iff_of_true hnodup.1 rfl
            · refine iff_of_false (not_not.mpr hin) ?_
              rintro rfl
              exact hnodup.1 hin
      · exact iff_of_false (not_not.mpr ha) (h.others a ha)

/-- Nobody ever waits for a lock that is free. -/
theorem free_step (h : l.holder = none → l.queue = []) (r : Request α) :
    (l.step r).holder = none → (l.step r).queue = [] := by
  cases r with
  | acquire a =>
      unfold step
      dsimp only
      split
      · exact nofun
      · rename_i hheld
        exact fun hfree => absurd hfree hheld
  | attempt a =>
      unfold step
      dsimp only
      split
      · exact nofun
      · exact h
  | release a =>
      unfold step
      dsimp only
      split
      · intro hnone
        rw [List.head?_eq_none_iff.mp hnone]
        rfl
      · exact h

/-- A request keeps the order: who gets the lock and who waits afterwards are
those that waited before and those that ask. -/
theorem order_step (h : l.holder = none → l.queue = []) (r : Request α) :
    l.queue ++ l.asked r = l.granted r ++ (l.step r).queue := by
  cases r with
  | acquire a =>
      unfold asked granted step
      dsimp only
      split
      · rename_i hfree
        rw [h hfree]
        rfl
      · rfl
  | attempt a =>
      unfold asked granted step
      dsimp only
      split
      · rename_i hfree
        rw [h hfree]
        rfl
      · rw [List.append_nil]
        rfl
  | release a =>
      unfold asked granted step
      dsimp only
      rw [List.append_nil]
      split
      · cases l.queue <;> rfl
      · rfl

/-- The lock after a request, or after none. -/
def after (l : FifoLock α) : Option (Request α) → FifoLock α
  | none => l
  | some r => l.step r

/-! ## Sequences of requests -/

def run : FifoLock α → List (Request α) → FifoLock α
  | l, [] => l
  | l, r :: rest => run (l.step r) rest

def asks : FifoLock α → List (Request α) → List α
  | _, [] => []
  | l, r :: rest => l.asked r ++ asks (l.step r) rest

def grants : FifoLock α → List (Request α) → List α
  | _, [] => []
  | l, r :: rest => l.granted r ++ grants (l.step r) rest

theorem run_toList (l : FifoLock α) (request : Option (Request α)) (rest : List (Request α)) :
    l.run (request.toList ++ rest) = (l.after request).run rest := by
  cases request <;> rfl

/-- The lock is granted in the order in which it is asked for, to nobody twice and
with nobody left out. -/
theorem order_run (h : l.holder = none → l.queue = []) (rest : List (Request α)) :
    l.queue ++ l.asks rest = l.grants rest ++ (l.run rest).queue := by
  induction rest generalizing l with
  | nil => exact List.append_nil _
  | cons r rest ih =>
      have hstep := order_step h r
      have hrun := ih (free_step h r)
      calc l.queue ++ (l.asked r ++ (l.step r).asks rest)
          = (l.queue ++ l.asked r) ++ (l.step r).asks rest := (List.append_assoc ..).symm
        _ = (l.granted r ++ (l.step r).queue) ++ (l.step r).asks rest := by rw [hstep]
        _ = l.granted r ++ ((l.step r).queue ++ (l.step r).asks rest) := List.append_assoc ..
        _ = l.granted r ++ ((l.step r).grants rest ++ ((l.step r).run rest).queue) := by rw [hrun]
        _ = (l.granted r ++ (l.step r).grants rest) ++ ((l.step r).run rest).queue :=
            (List.append_assoc ..).symm

end FifoLock

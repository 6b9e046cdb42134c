import Mathlib.Data.List.Nodup
import Mathlib.Data.List.Perm.Basic

/-!
# Collections in blocks

A collection kept in a sequence of blocks of bounded room. Elements are put into
the first block that has them or has room, and taken out of the first block that
has them. The blocks hold a set only as long as no element is put in front of
itself.
-/

namespace BlockList

variable {α : Type} [DecidableEq α]

structure Block (α : Type) where
  elems : List α
  room : Nat
  deriving DecidableEq

/-- All elements, block by block. -/
def elems (bs : List (Block α)) : List α := bs.flatMap Block.elems

omit [DecidableEq α] in
@[simp] theorem elems_nil : elems ([] : List (Block α)) = [] := rfl

omit [DecidableEq α] in
@[simp] theorem elems_cons (b : Block α) (bs : List (Block α)) :
    elems (b :: bs) = b.elems ++ elems bs := rfl

omit [DecidableEq α] in
@[simp] theorem elems_append (bs cs : List (Block α)) :
    elems (bs ++ cs) = elems bs ++ elems cs := List.flatMap_append

/-- Put `x` into the first block that has it or has room. -/
def settle (x : α) : List (Block α) → Option (List (Block α))
  | [] => none
  | b :: bs =>
      if x ∈ b.elems then some (b :: bs)
      else if 0 < b.room then some (⟨b.elems ++ [x], b.room - 1⟩ :: bs)
      else (settle x bs).map (b :: ·)

/-- Add `x`, to a new block with room for `capacity` elements if the others are full. -/
def add (capacity : Nat) (x : α) (bs : List (Block α)) : List (Block α) :=
  (settle x bs).getD (bs ++ [⟨[x], capacity - 1⟩])

/-- Take `x` out of the first block that has it; a block that has nothing else is dropped. -/
def withdraw (x : α) : List (Block α) → List (Block α)
  | [] => []
  | b :: bs =>
      if x ∈ b.elems then
        if b.elems.erase x = [] then bs else ⟨b.elems.erase x, b.room + 1⟩ :: bs
      else b :: withdraw x bs

/-- The same, except that the first block is never dropped. -/
def remove (x : α) : List (Block α) → List (Block α)
  | [] => []
  | b :: bs =>
      if x ∈ b.elems then ⟨b.elems.erase x, b.room + 1⟩ :: bs else b :: withdraw x bs

/-- `x` is behind a block that has room and none of it. -/
def Hidden (x : α) (bs : List (Block α)) : Prop :=
  ∃ front back, bs = front ++ back ∧ x ∉ elems front ∧ x ∈ elems back ∧ ∃ b ∈ front, 0 < b.room

variable {x : α} {b : Block α} {bs : List (Block α)} {capacity : Nat}

omit [DecidableEq α] in
theorem hidden_cons :
    Hidden x (b :: bs) ↔ x ∉ b.elems ∧ (0 < b.room ∧ x ∈ elems bs ∨ Hidden x bs) := by
  constructor
  · rintro ⟨front, back, hsplit, hout, hin, c, hc, hroom⟩
    cases front with
    | nil => cases hc
    | cons d front =>
        rw [List.cons_append, List.cons.injEq] at hsplit
        obtain ⟨rfl, rfl⟩ := hsplit
        rw [elems_cons, List.mem_append, not_or] at hout
        refine ⟨hout.1, ?_⟩
        rw [List.mem_cons] at hc
        rcases hc with rfl | hmem
        · exact .inl ⟨hroom, by rw [elems_append]; exact List.mem_append_right _ hin⟩
        · exact .inr ⟨front, back, rfl, hout.2, hin, c, hmem, hroom⟩
  · rintro ⟨hout, ⟨hroom, hin⟩ | ⟨front, back, rfl, hfront, hin, c, hc, hroom⟩⟩
    · exact ⟨[b], bs, rfl, by simpa using hout, hin, b, by simp, hroom⟩
    · exact ⟨b :: front, back, rfl, by simp [hout, hfront], hin, c, by simp [hc], hroom⟩

omit [DecidableEq α] in
theorem Hidden.mem (h : Hidden x bs) : x ∈ elems bs := by
  obtain ⟨front, back, rfl, -, hin, -⟩ := h
  rw [elems_append]
  exact List.mem_append_right _ hin

/-- Putting in an element that is there, and not hidden, changes nothing. -/
theorem settle_of_mem (hmem : x ∈ elems bs) (hvisible : ¬Hidden x bs) : settle x bs = some bs := by
  induction bs with
  | nil => cases hmem
  | cons b bs ih =>
      rw [settle]
      by_cases hhere : x ∈ b.elems
      · rw [if_pos hhere]
      · rw [elems_cons, List.mem_append] at hmem
        have hthere := hmem.resolve_left hhere
        rw [hidden_cons, not_and, not_or] at hvisible
        obtain ⟨hfull, hrest⟩ := hvisible hhere
        rw [if_neg hhere, if_neg fun hroom => hfull ⟨hroom, hthere⟩, ih hthere hrest,
          Option.map_some]

/-- An element that is not there, or hidden, is put in. -/
theorem settle_perm (h : x ∉ elems bs ∨ Hidden x bs) {bs' : List (Block α)}
    (hsettle : settle x bs = some bs') : (elems bs').Perm (x :: elems bs) := by
  induction bs generalizing bs' with
  | nil => cases hsettle
  | cons b bs ih =>
      rw [elems_cons, List.mem_append, not_or, hidden_cons, ← and_or_left] at h
      obtain ⟨hhere, hrest⟩ := h
      rw [settle, if_neg hhere] at hsettle
      split at hsettle
      next =>
        obtain rfl := Option.some_inj.mp hsettle
        simp
      next hfull =>
        obtain ⟨cs, hcs, rfl⟩ := Option.map_eq_some_iff.mp hsettle
        have hrest' : x ∉ elems bs ∨ Hidden x bs :=
          hrest.imp_right fun h => h.resolve_left fun h => hfull h.1
        rw [elems_cons, elems_cons]
        exact ((ih hrest' hcs).append_left b.elems).trans List.perm_middle

theorem add_of_mem (hmem : x ∈ elems bs) (hvisible : ¬Hidden x bs) : add capacity x bs = bs := by
  rw [add, settle_of_mem hmem hvisible, Option.getD_some]

theorem add_perm (h : x ∉ elems bs ∨ Hidden x bs) :
    (elems (add capacity x bs)).Perm (x :: elems bs) := by
  rw [add]
  cases hsettle : settle x bs with
  | none =>
      rw [Option.getD_none, elems_append]
      exact List.perm_append_singleton x _
  | some bs' => exact settle_perm h hsettle

/-- Adding keeps a set one exactly if the element is not hidden. -/
theorem nodup_add_iff (hset : (elems bs).Nodup) :
    (elems (add capacity x bs)).Nodup ↔ ¬Hidden x bs := by
  constructor
  · intro hnodup hhidden
    rw [(add_perm (.inr hhidden)).nodup_iff] at hnodup
    exact (List.nodup_cons.mp hnodup).1 hhidden.mem
  · intro hvisible
    by_cases hmem : x ∈ elems bs
    · rwa [add_of_mem hmem hvisible]
    · rw [(add_perm (.inl hmem)).nodup_iff]
      exact List.nodup_cons.mpr ⟨hmem, hset⟩

theorem elems_withdraw : elems (withdraw x bs) = (elems bs).erase x := by
  induction bs with
  | nil => rfl
  | cons b bs ih =>
      rw [withdraw, elems_cons]
      by_cases hhere : x ∈ b.elems
      · rw [if_pos hhere, List.erase_append_left _ hhere]
        split
        next hlast => rw [hlast, List.nil_append]
        next => rfl
      · rw [if_neg hhere, List.erase_append_right _ hhere, elems_cons, ih]

theorem elems_remove : elems (remove x bs) = (elems bs).erase x := by
  cases bs with
  | nil => rfl
  | cons b bs =>
      rw [remove, elems_cons]
      split
      next hhere => rw [elems_cons, List.erase_append_left _ hhere]
      next hhere => rw [elems_cons, elems_withdraw, List.erase_append_right _ hhere]

end BlockList

import AvrKernel.Lib.Bytes
import Mathlib.Tactic.Common

/-!
# Blocks written within their bounds

Stores to a list and copies between lists, which fail outside of the bounds. A routine
`Fills` places of a block: it goes through, the places get their values and all others stay
as they are. Loops fill what their rounds fill.
-/

namespace Blocks

open Bytes

variable {α : Type}

/-- Store one element. -/
def store (i : Nat) (value : α) (block : List α) : Option (List α) :=
  if i < block.length then some (block.set i value) else none

/-- Copy `count` elements from another block. -/
def copy (src : List α) (srcOff dstOff count : Nat) (block : List α) : Option (List α) :=
  if count = 0 then some block
  else if srcOff + count ≤ src.length ∧ dstOff + count ≤ block.length then
    some (patch block dstOff ((src.drop srcOff).take count))
  else none

theorem copy_eq_patch {src block : List α} {srcOff dstOff count : Nat}
    (hsrc : srcOff + count ≤ src.length) (hdst : dstOff + count ≤ block.length) :
    copy src srcOff dstOff count block =
      some (patch block dstOff ((src.drop srcOff).take count)) := by
  by_cases hcount : count = 0
  · rw [copy, if_pos hcount, hcount, List.take_zero, patch_nil]
  · rw [copy, if_neg hcount, if_pos ⟨hsrc, hdst⟩]

/-- So many rounds from `i` on. -/
def rounds {σ : Type} (body : Nat → σ → Option σ) : Nat → Nat → σ → Option σ
  | 0, _, s => some s
  | n + 1, i, s => (body i s).bind (rounds body n (i + 1))

/-- `for (i = lo; i < hi; i++)`. -/
def forRange {σ : Type} (lo hi : Nat) (body : Nat → σ → Option σ) : σ → Option σ :=
  rounds body (hi - lo) lo

/-! ## Lengths -/

/-- A routine that does not change the length of the block. -/
def KeepsLength (routine : List α → Option (List α)) : Prop :=
  ∀ block block', routine block = some block' → block'.length = block.length

theorem store_keepsLength (i : Nat) (value : α) : KeepsLength (store i value) := by
  intro block block' h
  rw [store] at h
  split_ifs at h
  rw [Option.some.injEq] at h
  rw [← h, List.length_set]

theorem copy_keepsLength (src : List α) (srcOff dstOff count : Nat) :
    KeepsLength (copy src srcOff dstOff count) := by
  intro block block' h
  rw [copy] at h
  split_ifs at h with hcount hbounds
  · rw [Option.some.injEq] at h
    rw [h]
  · rw [Option.some.injEq] at h
    rw [← h]
    apply patch_length
    rw [List.length_take, List.length_drop]
    omega

theorem rounds_keepsLength {body : Nat → List α → Option (List α)}
    (hbody : ∀ i, KeepsLength (body i)) (n i : Nat) : KeepsLength (rounds body n i) := by
  intro block block' h
  induction n generalizing i block with
  | zero =>
      rw [rounds, Option.some.injEq] at h
      rw [h]
  | succ n ih =>
      rw [rounds, Option.bind_eq_some_iff] at h
      obtain ⟨next, hfirst, hrest⟩ := h
      rw [ih (i + 1) next hrest, hbody i block next hfirst]

theorem forRange_keepsLength {body : Nat → List α → Option (List α)}
    (hbody : ∀ i, KeepsLength (body i)) (lo hi : Nat) : KeepsLength (forRange lo hi body) :=
  rounds_keepsLength hbody (hi - lo) lo

/-! ## Filling -/

/-- On blocks of length `n` a routine goes through and gives the places `p` the values `f`. -/
def Fills (n : Nat) (routine : List α → Option (List α)) (p : Nat → Prop) (f : Nat → Option α) :
    Prop :=
  ∀ block, block.length = n → ∃ block', routine block = some block' ∧ block'.length = n ∧
    ∀ k, (p k → block'[k]? = f k) ∧ (¬p k → block'[k]? = block[k]?)

variable {n i lo hi : Nat} {routine : List α → Option (List α)} {p p' : Nat → Prop}
  {f f' : Nat → Option α}

theorem Fills.congr (h : Fills n routine p f) (hp : ∀ k, p k ↔ p' k)
    (hf : ∀ k, p k → f k = f' k) : Fills n routine p' f' := by
  intro block hblock
  obtain ⟨block', hroutine, hlength, hvalues⟩ := h block hblock
  refine ⟨block', hroutine, hlength, fun k => ?_⟩
  rw [← hp k]
  exact ⟨fun hk => ((hvalues k).1 hk).trans (hf k hk), (hvalues k).2⟩

theorem store_fills (hi : i < n) (value : α) :
    Fills n (store i value) (fun k => k = i) fun _ => some value := by
  intro block hblock
  refine ⟨block.set i value, if_pos (by omega), by rw [List.length_set, hblock], fun k => ?_⟩
  constructor
  · intro hk
    rw [hk, List.getElem?_set_self (by omega)]
  · intro hk
    exact List.getElem?_set_ne (Ne.symm hk)

theorem copy_fills {src : List α} {srcOff dstOff count : Nat}
    (hsrc : srcOff + count ≤ src.length) (hdst : dstOff + count ≤ n) :
    Fills n (copy src srcOff dstOff count) (fun k => dstOff ≤ k ∧ k < dstOff + count)
      fun k => src[srcOff + (k - dstOff)]? := by
  intro block hblock
  rw [copy]
  by_cases hcount : count = 0
  · exact ⟨block, if_pos hcount, hblock, fun k => ⟨by omega, fun _ => rfl⟩⟩
  · have hseg : ((src.drop srcOff).take count).length = count := by
      rw [List.length_take, List.length_drop]
      omega
    refine ⟨patch block dstOff ((src.drop srcOff).take count), ?_, ?_, fun k => ?_⟩
    · rw [if_neg hcount, if_pos (by omega)]
    · rw [patch_length (by omega), hblock]
    · rw [getElem?_patch (by omega), hseg]
      constructor
      · intro hk
        rw [if_pos hk, List.getElem?_take_of_lt (by omega), List.getElem?_drop]
      · intro hk
        rw [if_neg hk]

theorem rounds_fills {body : Nat → List α → Option (List α)} {q : Nat → Nat → Prop}
    (count : Nat) (hbody : ∀ i, lo ≤ i → i < lo + count → Fills n (body i) (q i) f) :
    Fills n (rounds body count lo) (fun k => ∃ i, lo ≤ i ∧ i < lo + count ∧ q i k) f := by
  induction count generalizing lo with
  | zero =>
      intro block hblock
      exact ⟨block, rfl, hblock, fun k => ⟨fun ⟨i, _, _, _⟩ => by omega, fun _ => rfl⟩⟩
  | succ count ih =>
      intro block hblock
      obtain ⟨next, hfirst, hnext, hvalues⟩ := hbody lo (Nat.le_refl lo) (by omega) block hblock
      have hbody' : ∀ i, lo + 1 ≤ i → i < lo + 1 + count → Fills n (body i) (q i) f :=
        fun i hlo hhi => hbody i (by omega) (by omega)
      obtain ⟨block', hrest, hlength, hvalues'⟩ := ih hbody' next hnext
      refine ⟨block', by rw [rounds, hfirst, Option.bind_some, hrest], hlength, fun k => ?_⟩
      by_cases hlater : ∃ i, lo + 1 ≤ i ∧ i < lo + 1 + count ∧ q i k
      · have hk := (hvalues' k).1 hlater
        obtain ⟨i, hlo, hhi, hq⟩ := hlater
        exact ⟨fun _ => hk, fun hnone => absurd ⟨i, by omega, by omega, hq⟩ hnone⟩
      · rw [(hvalues' k).2 hlater]
        constructor
        · intro ⟨i, hlo, hhi, hq⟩
          have hi : i = lo := by
            by_contra hne
            exact hlater ⟨i, by omega, by omega, hq⟩
          rw [hi] at hq
          exact (hvalues k).1 hq
        · intro hnone
          exact (hvalues k).2 fun hq => hnone ⟨lo, Nat.le_refl lo, by omega, hq⟩

/-- A loop fills what its rounds fill, where they agree on the values. -/
theorem forRange_fills {body : Nat → List α → Option (List α)} {q : Nat → Nat → Prop}
    (hbody : ∀ i, lo ≤ i → i < hi → Fills n (body i) (q i) f) :
    Fills n (forRange lo hi body) (fun k => ∃ i, lo ≤ i ∧ i < hi ∧ q i k) f := by
  apply (rounds_fills (hi - lo) fun i hlo hhi => hbody i hlo (by omega)).congr
  · intro k
    apply exists_congr
    intro i
    constructor
    · intro ⟨hlo, hhi, hq⟩
      exact ⟨hlo, by omega, hq⟩
    · intro ⟨hlo, hhi, hq⟩
      exact ⟨hlo, by omega, hq⟩
  · exact fun _ _ => rfl

end Blocks

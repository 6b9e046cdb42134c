import AvrKernel.Lib.Program
import Mathlib.Data.List.Perm.Basic

/-!
# Programs and what they own

A ledger says which resources a state has handed out and not got back. A program is specified by
what it owns before and after it; what else is owned is nothing to it.
-/

namespace Effect

/-- Which resources are owned in a state, in any order. -/
structure Ledger (σ A : Type) where
  owns : σ → List A → Prop
  perm : ∀ {s owned owned'}, owns s owned → owned.Perm owned' → owns s owned'

namespace Ledger

open Prog

variable {E : Type} {R : E → Type} {σ A α β : Type} {L : Ledger σ A} {handler : Handler E R σ}
  {n : Nat} {before extra : List A}

/-- From every state in which `before` is owned the program returns, and what it returns owns
`after`. -/
def Turns (L : Ledger σ A) (n : Nat) (handler : Handler E R σ) (p : Prog E R α) (before : List A)
    (after : α → List A) : Prop :=
  ∀ s rest, L.owns s (before ++ rest) →
    ∃ value s', run n handler p s = some (value, s') ∧ L.owns s' (after value ++ rest)

theorem turns_ret {value : α} {after : α → List A} (h : after value = before) :
    L.Turns n handler (ret value) before after := by
  intro s rest hs
  exact ⟨value, s, rfl, by rwa [h]⟩

theorem turns_ret_perm {value : α} {after : α → List A} (h : before.Perm (after value)) :
    L.Turns n handler (ret value) before after := by
  intro s rest hs
  exact ⟨value, s, rfl, L.perm hs (h.append_right rest)⟩

theorem Turns.bind {p : Prog E R α} {f : α → Prog E R β} {mid : α → List A} {after : β → List A}
    (hp : L.Turns n handler p before mid)
    (hf : ∀ value, L.Turns n handler (f value) (mid value) after) :
    L.Turns n handler (p >>= f) before after := by
  intro s rest hs
  obtain ⟨value, s₁, hrun, hs₁⟩ := hp s rest hs
  obtain ⟨result, s₂, hrun', hs₂⟩ := hf value s₁ rest hs₁
  refine ⟨result, s₂, ?_, hs₂⟩
  rw [run_bind, hrun]
  exact hrun'

/-- What is owned besides stays owned. -/
theorem Turns.frame {p : Prog E R α} {after : α → List A} (h : L.Turns n handler p before after)
    (extra : List A) :
    L.Turns n handler p (before ++ extra) fun value => after value ++ extra := by
  intro s rest hs
  rw [List.append_assoc] at hs
  obtain ⟨value, s', hrun, hs'⟩ := h s (extra ++ rest) hs
  exact ⟨value, s', hrun, by rwa [List.append_assoc]⟩

/-- The order of what is owned does not matter. -/
theorem Turns.perm {p : Prog E R α} {before' : List A} {after after' : α → List A}
    (h : L.Turns n handler p before after) (hbefore : before'.Perm before)
    (hafter : ∀ value, (after value).Perm (after' value)) :
    L.Turns n handler p before' after' := by
  intro s rest hs
  obtain ⟨value, s', hrun, hs'⟩ := h s rest (L.perm hs (hbefore.append_right rest))
  exact ⟨value, s', hrun, L.perm hs' ((hafter value).append_right rest)⟩

/-- What a program owns afterwards, seen from what it can return. -/
theorem Turns.perm_of_yields {p : Prog E R α} {after after' : α → List A} {P : α → Prop}
    (h : L.Turns n handler p before after) (hp : Yields P p)
    (hafter : ∀ value, P value → (after value).Perm (after' value)) :
    L.Turns n handler p before after' := by
  intro s rest hs
  obtain ⟨value, s', hrun, hs'⟩ := h s rest hs
  exact ⟨value, s', hrun, L.perm hs' ((hafter value (hp.run n handler hrun)).append_right rest)⟩

theorem Turns.bind_frame {p : Prog E R α} {f : α → Prog E R β} {mid : α → List A}
    {after : β → List A} (hp : L.Turns n handler p [] mid)
    (hf : ∀ value, L.Turns n handler (f value) (mid value ++ extra) after) :
    L.Turns n handler (p >>= f) extra after := (hp.frame extra).bind hf

theorem Turns.drop_frame {p : Prog E R α} {f : α → Prog E R β} {after : β → List A}
    (hp : L.Turns n handler p before fun _ => [])
    (hf : ∀ value, L.Turns n handler (f value) extra after) :
    L.Turns n handler (p >>= f) (before ++ extra) after := (hp.frame extra).bind hf

end Ledger

end Effect

import Mathlib.Data.Option.Basic

/-!
# Loops that end

`while` loops whose rounds may fault. An invariant that carries a bound on the rounds still
to come shows that a loop ends; the same invariant describes every state it passes.
-/

namespace Loops

variable {σ : Type} {cond : σ → Bool} {body : σ → Option σ} {inv : Nat → σ → Prop} {n k : Nat}
  {s t : σ}

/-- `while (cond) body`; `none` has faulted, or not ended after `n` tests of the condition. -/
def whileDo (cond : σ → Bool) (body : σ → Option σ) : Nat → σ → Option σ
  | 0, _ => none
  | n + 1, s => if cond s then (body s).bind (whileDo cond body n) else some s

/-- The states in which the loop tests its condition. -/
inductive Head (cond : σ → Bool) (body : σ → Option σ) (s : σ) : σ → Prop
  | enter : Head cond body s s
  | round {t u : σ} (earlier : Head cond body s t) (again : cond t = true)
      (hround : body t = some u) : Head cond body s u

/-- Every round goes through and lowers the bound. -/
def Rounds (cond : σ → Bool) (body : σ → Option σ) (inv : Nat → σ → Prop) : Prop :=
  ∀ k s, inv k s → cond s = true → ∃ t j, body s = some t ∧ j < k ∧ inv j t

theorem Rounds.ends (h : Rounds cond body inv) (hinv : inv k s) (hn : k < n) :
    ∃ t, ∃ j ≤ k, whileDo cond body n s = some t ∧ inv j t ∧ cond t = false := by
  induction n generalizing k s with
  | zero => omega
  | succ n ih =>
      cases hcond : cond s with
      | false => exact ⟨s, k, Nat.le_refl k, by simp [whileDo, hcond], hinv, hcond⟩
      | true =>
          obtain ⟨t, j, hbody, hj, ht⟩ := h k s hinv hcond
          obtain ⟨u, i, hi, hrest, hu, hstop⟩ := ih ht (by omega)
          exact ⟨u, i, by omega, by simp [whileDo, hcond, hbody, hrest], hu, hstop⟩

/-- The invariant holds at every head of the loop. -/
theorem Rounds.head (h : Rounds cond body inv) (hinv : inv k s) (hhead : Head cond body s t) :
    ∃ j, inv j t := by
  induction hhead with
  | enter => exact ⟨k, hinv⟩
  | round _ hagain hround ih =>
      obtain ⟨i, hi⟩ := ih
      obtain ⟨u, j, hbody, -, hu⟩ := h i _ hi hagain
      rw [hround] at hbody
      cases hbody
      exact ⟨j, hu⟩

end Loops

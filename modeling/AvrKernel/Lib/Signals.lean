import Mathlib.Logic.Function.Basic

/-!
# Signals

Events that are signalled and waited for. A signal goes to everyone who waits
for its event, and is kept for one later wait if there is nobody. Timeouts end a
wait, but nothing else depends on them.
-/

structure Signals (ε α : Type) where
  kept : ε → Bool
  /-- The wait that one is in, and whether a signal has been delivered to it. -/
  waits : α → Option (ε × Bool)

namespace Signals

variable {ε α : Type} [DecidableEq ε] [DecidableEq α]

inductive Action (ε α : Type)
  | wait (a : α) (e : ε)
  | signal (e : ε)
  | finish (a : α)
  | forget (a : α)
  deriving DecidableEq

def quiet : Signals ε α := { kept := fun _ => false, waits := fun _ => none }

/-- Deliver a signal to a wait. -/
def delivered (e : ε) : Option (ε × Bool) → Option (ε × Bool)
  | some (e', got) => some (e', got || decide (e' = e))
  | none => none

open Classical in
/-- What a wait returns at once, or when it ends, and what is left. -/
noncomputable def step (g : Signals ε α) : Action ε α → Option Bool × Signals ε α
  | .wait a e =>
      if g.kept e = true then (some true, { g with kept := Function.update g.kept e false })
      else (none, { g with waits := Function.update g.waits a (some (e, false)) })
  | .signal e =>
      if ∃ a, g.waits a = some (e, false) then
        (none, { g with waits := fun a => delivered e (g.waits a) })
      else (none, { g with kept := Function.update g.kept e true })
  | .finish a => ((g.waits a).map Prod.snd, { g with waits := Function.update g.waits a none })
  | .forget a => (none, { g with waits := Function.update g.waits a none })

/-- The state after an action with this value, if it is the right one. -/
noncomputable def check (g : Signals ε α) : Option (Action ε α × Option Bool) → Option (Signals ε α)
  | none => some g
  | some (action, value) => if (g.step action).1 = value then some (g.step action).2 else none

variable {g : Signals ε α} {a : α} {e : ε}

theorem check_eq {action : Action ε α} {value : Option Bool} (h : (g.step action).1 = value) :
    g.check (some (action, value)) = some (g.step action).2 :=
  if_pos h

theorem step_wait_kept (h : g.kept e = true) :
    g.step (.wait a e) = (some true, { g with kept := Function.update g.kept e false }) :=
  if_pos h

theorem step_wait (h : g.kept e = false) :
    g.step (.wait a e) = (none, { g with waits := Function.update g.waits a (some (e, false)) }) :=
  if_neg (by rw [h]; exact nofun)

theorem step_signal_delivered (h : g.waits a = some (e, false)) :
    g.step (.signal e) = (none, { g with waits := fun a => delivered e (g.waits a) }) :=
  if_pos ⟨a, h⟩

theorem step_signal_kept (h : ∀ a, g.waits a ≠ some (e, false)) :
    g.step (.signal e) = (none, { g with kept := Function.update g.kept e true }) :=
  if_neg fun ⟨a, ha⟩ => h a ha

/-! ## Sequences of actions -/

/-- Who does an action. -/
def Action.actor : Action ε α → Option α
  | .wait a _ => some a
  | .signal _ => none
  | .finish a => some a
  | .forget a => some a

/-- The state after actions with these values, if they are the right ones. -/
noncomputable def checks : Signals ε α → List (Action ε α × Option Bool) → Option (Signals ε α)
  | g, [] => some g
  | g, o :: rest => (g.check (some o)).bind fun g => checks g rest

theorem checks_toList (g : Signals ε α) (o : Option (Action ε α × Option Bool))
    (rest : List (Action ε α × Option Bool)) :
    g.checks (o.toList ++ rest) = (g.check o).bind fun g => checks g rest := by
  cases o <;> rfl

theorem checks_append {g' : Signals ε α} {first rest : List (Action ε α × Option Bool)} :
    g.checks (first ++ rest) = some g' ↔
      ∃ g₁, g.checks first = some g₁ ∧ g₁.checks rest = some g' := by
  induction first generalizing g with
  | nil => exact ⟨fun h => ⟨g, rfl, h⟩, fun ⟨_, hfirst, h⟩ => Option.some.inj hfirst ▸ h⟩
  | cons o first ih =>
      rw [List.cons_append, checks, checks]
      cases hcheck : g.check (some o) with
      | none => exact ⟨nofun, fun ⟨_, hnone, _⟩ => absurd hnone nofun⟩
      | some g₁ => exact ih

theorem check_eq_some {g' : Signals ε α} {action : Action ε α} {value : Option Bool} :
    g.check (some (action, value)) = some g' ↔
      (g.step action).1 = value ∧ (g.step action).2 = g' := by
  unfold check
  dsimp only
  split
  · rename_i hvalue
    exact ⟨fun h => ⟨hvalue, Option.some.inj h⟩, fun h => congrArg some h.2⟩
  · rename_i hvalue
    exact ⟨nofun, fun h => absurd h.1 hvalue⟩

theorem checks_cons {g' : Signals ε α} {action : Action ε α} {value : Option Bool}
    {rest : List (Action ε α × Option Bool)} (h : g.checks ((action, value) :: rest) = some g') :
    (g.step action).1 = value ∧ (g.step action).2.checks rest = some g' := by
  obtain ⟨g₁, hcheck, hrest⟩ := Option.bind_eq_some_iff.mp h
  obtain ⟨hvalue, rfl⟩ := check_eq_some.mp hcheck
  exact ⟨hvalue, hrest⟩

/-- The wait that one is in goes on while others act, and takes the signals for
its event. -/
theorem waits_step {action : Action ε α} (hother : action.actor ≠ some a) {got : Bool}
    (h : g.waits a = some (e, got)) :
    (g.step action).2.waits a = some (e, got || decide (action = .signal e)) := by
  cases action with
  | wait b e' =>
      have hne : a ≠ b := fun heq => hother (congrArg some heq.symm)
      rw [decide_eq_false nofun, Bool.or_false]
      unfold step
      dsimp only
      split
      · exact h
      · exact (Function.update_of_ne hne _ _).trans h
  | signal e' =>
      unfold step
      dsimp only
      split
      · dsimp only
        rw [h, delivered]
        simp only [Action.signal.injEq, eq_comm]
      · -- the signal is not for this wait, or has come before
        rename_i hnobody
        refine h.trans ?_
        by_cases heq : e' = e
        · subst heq
          cases got with
          | true => rfl
          | false => exact absurd ⟨a, h⟩ hnobody
        · rw [decide_eq_false fun hsame => heq (Action.signal.inj hsame), Bool.or_false]
  | finish b =>
      have hne : a ≠ b := fun heq => hother (congrArg some heq.symm)
      rw [decide_eq_false nofun, Bool.or_false]
      exact (Function.update_of_ne hne _ _).trans h
  | forget b =>
      have hne : a ≠ b := fun heq => hother (congrArg some heq.symm)
      rw [decide_eq_false nofun, Bool.or_false]
      exact (Function.update_of_ne hne _ _).trans h

theorem waits_checks {g' : Signals ε α} {between : List (Action ε α × Option Bool)}
    (hothers : ∀ o ∈ between, o.1.actor ≠ some a) {got : Bool} (h : g.waits a = some (e, got))
    (hchecks : g.checks between = some g') :
    g'.waits a = some (e, got || decide (∃ o ∈ between, o.1 = .signal e)) := by
  induction between generalizing g got with
  | nil =>
      obtain rfl := Option.some.inj hchecks
      rw [decide_eq_false fun ⟨_, hmem, _⟩ => absurd hmem List.not_mem_nil, Bool.or_false]
      exact h
  | cons o between ih =>
      obtain ⟨-, hrest⟩ := checks_cons hchecks
      have hstep := waits_step (hothers o List.mem_cons_self) h
      rw [ih (fun o ho => hothers o (List.mem_cons_of_mem _ ho)) hstep hrest, Bool.or_assoc]
      simp only [List.mem_cons, exists_eq_or_imp, Bool.decide_or]

/-- A wait that has not returned at once returns whether its event was signalled
before it ended. -/
theorem checks_wait {g' : Signals ε α} {value : Option Bool}
    {before between after : List (Action ε α × Option Bool)}
    (h : g.checks (before ++ (.wait a e, none) :: (between ++ (.finish a, value) :: after)) =
      some g')
    (hothers : ∀ o ∈ between, o.1.actor ≠ some a) :
    value = some (decide (∃ o ∈ between, o.1 = .signal e)) := by
  obtain ⟨g₁, -, hwait⟩ := checks_append.mp h
  obtain ⟨hnone, hrest⟩ := checks_cons hwait
  obtain ⟨g₂, hbetween, hfinish⟩ := checks_append.mp hrest
  obtain ⟨hvalue, -⟩ := checks_cons hfinish
  have hkept : g₁.kept e = false := by
    by_contra hkept
    rw [step_wait_kept (Bool.not_eq_false _ ▸ hkept)] at hnone
    cases hnone
  have hstart : (g₁.step (.wait a e)).2.waits a = some (e, false) := by
    rw [step_wait hkept]
    exact Function.update_self ..
  have hend := waits_checks hothers hstart hbetween
  rw [Bool.false_or] at hend
  rw [← hvalue]
  exact congrArg (Option.map Prod.snd) hend

/-- Only signals for an event and waits for it touch what is kept. -/
theorem kept_step {action : Action ε α} (hsignal : action ≠ .signal e)
    (hwait : ∀ a, action ≠ .wait a e) : (g.step action).2.kept e = g.kept e := by
  cases action with
  | wait b e' =>
      have hne : e ≠ e' := by
        rintro rfl
        exact hwait b rfl
      unfold step
      dsimp only
      split
      · exact Function.update_of_ne hne _ _
      · rfl
  | signal e' =>
      have hne : e ≠ e' := by
        rintro rfl
        exact hsignal rfl
      unfold step
      dsimp only
      split
      · rfl
      · exact Function.update_of_ne hne _ _
  | finish b => rfl
  | forget b => rfl

end Signals

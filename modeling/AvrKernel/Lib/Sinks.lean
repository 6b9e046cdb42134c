import Mathlib.Data.List.Basic
import Mathlib.Tactic.Common

/-!
# Routines that print into a sink

A sink takes one element after the other and may fail. A routine that only uses its sink
to print does the same on every sink: it puts a text that does not depend on the sink.
-/

namespace Sinks

variable {α β : Type} {σ : Type}

/-- Put a text, one element after the other. -/
def putAll (put : α → σ → Option σ) : List α → σ → Option σ
  | [], s => some s
  | a :: text, s => (put a s).bind (putAll put text)

/-- The sink that collects everything. -/
def collect (a : α) (text : List α) : Option (List α) := some (text ++ [a])

/-- A part of a routine that runs only under a condition. -/
def onlyIf (c : Bool) (part : σ → Option σ) (s : σ) : Option σ := if c then part s else some s

theorem putAll_append (put : α → σ → Option σ) (first second : List α) (s : σ) :
    putAll put (first ++ second) s = (putAll put first s).bind (putAll put second) := by
  induction first generalizing s with
  | nil => rfl
  | cons a first ih =>
      simp only [List.cons_append, putAll, Option.bind_assoc]
      exact Option.bind_congr fun next _ => ih next

theorem putAll_singleton (put : α → σ → Option σ) (a : α) (s : σ) :
    putAll put [a] s = put a s := by
  rw [putAll]
  cases put a s <;> rfl

theorem putAll_collect (text before : List α) :
    putAll collect text before = some (before ++ text) := by
  induction text generalizing before with
  | nil => rw [putAll, List.append_nil]
  | cons a text ih =>
      rw [putAll, collect, Option.bind_some, ih, List.append_assoc]
      rfl

/-- A routine puts the text, whatever the sink. -/
def Puts (routine : ∀ σ : Type, (α → σ → Option σ) → σ → Option σ) (text : List α) : Prop :=
  ∀ (σ : Type) (put : α → σ → Option σ) (s : σ), routine σ put s = putAll put text s

/-- A routine puts the text and returns the value, whatever the sink. -/
def Prints (routine : ∀ σ : Type, (α → σ → Option σ) → σ → Option (β × σ)) (text : List α)
    (value : β) : Prop :=
  ∀ (σ : Type) (put : α → σ → Option σ) (s : σ),
    routine σ put s = (putAll put text s).map fun s => (value, s)

section Rules

variable {routine routine' : ∀ σ : Type, (α → σ → Option σ) → σ → Option σ}
  {text text' : List α} {value : β}

theorem puts_nothing : Puts (α := α) (fun _ _ s => some s) [] := fun _ _ _ => rfl

theorem puts_one (a : α) : Puts (fun _ put s => put a s) [a] :=
  fun _ put s => (putAll_singleton put a s).symm

theorem Puts.bind (h : Puts routine text) (h' : Puts routine' text') :
    Puts (fun σ put s => (routine σ put s).bind (routine' σ put)) (text ++ text') := by
  intro σ put s
  dsimp only
  rw [putAll_append, h σ put s]
  exact Option.bind_congr fun next _ => h' σ put next

/-- A routine that is left out if the condition fails. -/
theorem Puts.onlyIf (c : Bool) (h : Puts routine text) :
    Puts (fun σ put => onlyIf c (routine σ put)) (if c then text else []) := by
  intro σ put s
  cases c with
  | false => rfl
  | true => exact h σ put s

/-- A routine that puts a text and then returns a value. -/
theorem Puts.prints (h : Puts routine text) (value : β) :
    Prints (fun σ put s => (routine σ put s).bind fun s => some (value, s)) text value := by
  intro σ put s
  simp only [h σ put s]
  cases putAll put text s <;> rfl

end Rules

end Sinks

import Mathlib.Logic.Basic

/-!
# Runs of operation sequences

A machine answers operations one after another; `none` is an operation that does
not return. The rules lift what holds of one operation to whole sequences.
-/

namespace Trace

variable {σ τ ι ω : Type} {step : σ → ι → Option (ω × σ)} {spec : τ → ι → ω × τ}

/-- The answers to a sequence of operations and the state it ends in. -/
def run (step : σ → ι → Option (ω × σ)) (s : σ) : List ι → Option (List ω × σ)
  | [] => some ([], s)
  | i :: rest => (step s i).bind fun answer =>
      (run step answer.2 rest).map fun answers => (answer.1 :: answers.1, answers.2)

/-- The same for operations that always return. -/
def total (spec : τ → ι → ω × τ) : τ → ι → Option (ω × τ) := fun t i => some (spec t i)

/-- Every operation of the sequence satisfies `ok` in the state it meets. -/
def Permitted (step : σ → ι → Option (ω × σ)) (ok : σ → ι → Prop) : σ → List ι → Prop
  | _, [] => True
  | s, i :: rest => ok s i ∧ ∀ answer s', step s i = some (answer, s') → Permitted step ok s' rest

instance Permitted.decidable {ok : σ → ι → Prop} [∀ s i, Decidable (ok s i)] :
    (s : σ) → (ops : List ι) → Decidable (Permitted step ok s ops)
  | _, [] => .isTrue trivial
  | s, i :: rest =>
      match h : step s i with
      | none => decidable_of_iff (ok s i)
          ⟨fun hok => ⟨hok, fun _ _ hstep => by rw [h] at hstep; cases hstep⟩, And.left⟩
      | some (answer, s') =>
          have : Decidable (Permitted step ok s' rest) := Permitted.decidable s' rest
          decidable_of_iff (ok s i ∧ Permitted step ok s' rest)
            ⟨fun hok => ⟨hok.1, fun _ _ hstep => by rw [h] at hstep; cases hstep; exact hok.2⟩,
              fun hok => ⟨hok.1, hok.2 answer s' h⟩⟩

theorem run_nil (s : σ) : run step s [] = some ([], s) := rfl

theorem run_cons {s s' : σ} {i : ι} {rest : List ι} {answers : List ω} :
    run step s (i :: rest) = some (answers, s') ↔
      ∃ answer s₁ answers', step s i = some (answer, s₁) ∧
        run step s₁ rest = some (answers', s') ∧ answers = answer :: answers' := by
  simp only [run, Option.bind_eq_some_iff, Option.map_eq_some_iff, Prod.mk.injEq, Prod.exists]
  constructor
  · rintro ⟨answer, s₁, hstep, answers', s'', hrun, rfl, rfl⟩
    exact ⟨answer, s₁, answers', hstep, hrun, rfl⟩
  · rintro ⟨answer, s₁, answers', hstep, hrun, rfl⟩
    exact ⟨answer, s₁, hstep, answers', s', hrun, rfl, rfl⟩

theorem run_append {s s' : σ} {first rest : List ι} {answers : List ω} :
    run step s (first ++ rest) = some (answers, s') ↔
      ∃ answers₁ s₁ answers₂, run step s first = some (answers₁, s₁) ∧
        run step s₁ rest = some (answers₂, s') ∧ answers = answers₁ ++ answers₂ := by
  induction first generalizing s answers with
  | nil =>
      constructor
      · exact fun hrun => ⟨[], s, answers, rfl, hrun, rfl⟩
      · rintro ⟨answers₁, s₁, answers₂, hfirst, hrest, rfl⟩
        cases hfirst
        exact hrest
  | cons i first ih =>
      rw [List.cons_append, run_cons]
      constructor
      · rintro ⟨answer, s₁, answers', hstep, hrun, rfl⟩
        obtain ⟨answers₁, s₂, answers₂, hfirst, hrest, rfl⟩ := ih.mp hrun
        exact ⟨answer :: answers₁, s₂, answers₂,
          run_cons.mpr ⟨_, _, _, hstep, hfirst, rfl⟩, hrest, rfl⟩
      · rintro ⟨answers₁, s₂, answers₂, hfirst, hrest, rfl⟩
        obtain ⟨answer, s₁, answers', hstep, hrun, rfl⟩ := run_cons.mp hfirst
        exact ⟨answer, s₁, answers' ++ answers₂, hstep, ih.mpr ⟨_, _, _, hrun, hrest, rfl⟩, rfl⟩

theorem Permitted.append {ok : σ → ι → Prop} {s : σ} {first rest : List ι}
    (h : Permitted step ok s (first ++ rest)) :
    Permitted step ok s first ∧ ∀ answers s', run step s first = some (answers, s') →
      Permitted step ok s' rest := by
  induction first generalizing s with
  | nil =>
      refine ⟨trivial, fun answers s' hrun => ?_⟩
      cases hrun
      exact h
  | cons i first ih =>
      refine ⟨⟨h.1, fun answer s₁ hstep => (ih (h.2 answer s₁ hstep)).1⟩, fun answers s' hrun => ?_⟩
      obtain ⟨answer, s₁, answers', hstep, hfirst, -⟩ := run_cons.mp hrun
      exact (ih (h.2 answer s₁ hstep)).2 answers' s' hfirst

/-- What every permitted operation preserves, every permitted sequence preserves. -/
theorem run_preserves {ok : σ → ι → Prop} {Inv : σ → Prop}
    (hstep : ∀ s i answer s', Inv s → ok s i → step s i = some (answer, s') → Inv s')
    {s s' : σ} {ops : List ι} {answers : List ω} (hinv : Inv s) (hok : Permitted step ok s ops)
    (hrun : run step s ops = some (answers, s')) : Inv s' := by
  induction ops generalizing s answers with
  | nil =>
      simp only [run_nil, Option.some.injEq, Prod.mk.injEq] at hrun
      exact hrun.2 ▸ hinv
  | cons i rest ih =>
      obtain ⟨answer, s₁, answers', hanswer, hrest, -⟩ := run_cons.mp hrun
      exact ih (hstep s i answer s₁ hinv hok.1 hanswer) (hok.2 answer s₁ hanswer) hrest

/-- A simulation of single operations is one of sequences: they return, with the
answers of the specification. -/
theorem run_simulates {ok : σ → ι → Prop} {R : σ → τ → Prop}
    (hstep : ∀ s t i, R s t → ok s i →
      ∃ s', step s i = some ((spec t i).1, s') ∧ R s' (spec t i).2)
    {s : σ} {t : τ} {ops : List ι} (hrel : R s t) (hok : Permitted step ok s ops) :
    ∃ answers s' t', run step s ops = some (answers, s') ∧
      run (total spec) t ops = some (answers, t') ∧ R s' t' := by
  induction ops generalizing s t with
  | nil => exact ⟨[], s, t, rfl, rfl, hrel⟩
  | cons i rest ih =>
      obtain ⟨s₁, hanswer, hrel₁⟩ := hstep s t i hrel hok.1
      obtain ⟨answers, s', t', hrun, hspec, hrel'⟩ := ih hrel₁ (hok.2 _ s₁ hanswer)
      refine ⟨(spec t i).1 :: answers, s', t', ?_, ?_, hrel'⟩
      · exact run_cons.mpr ⟨_, s₁, answers, hanswer, hrun, rfl⟩
      · exact run_cons.mpr ⟨_, _, answers, rfl, hspec, rfl⟩

theorem Permitted.of_forall {ok : σ → ι → Prop} (h : ∀ s i, ok s i) (s : σ) (ops : List ι) :
    Permitted step ok s ops := by
  induction ops generalizing s with
  | nil => trivial
  | cons i rest ih => exact ⟨h s i, fun _ s' _ => ih s'⟩

theorem Permitted.mono {ok ok' : σ → ι → Prop} (hok : ∀ s i, ok s i → ok' s i) {s : σ}
    {ops : List ι} (h : Permitted step ok s ops) : Permitted step ok' s ops := by
  induction ops generalizing s with
  | nil => trivial
  | cons i rest ih => exact ⟨hok s i h.1, fun answer s' hstep => ih (h.2 answer s' hstep)⟩

/-! ## Runs beside an abstract one -/

/-- An abstract state that goes along with a run and sees its answers; `none` is
an answer that it does not accept. -/
def track (next : τ → ι → ω → Option τ) : τ → List ι → List ω → Option τ
  | t, i :: ops, answer :: answers => (next t i answer).bind fun t => track next t ops answers
  | t, _, _ => some t

/-- What holds of the two states at every permitted operation holds after every
permitted sequence, and the operations return. -/
theorem run_tracks {next : τ → ι → ω → Option τ} {ok : σ → ι → Prop} {R : σ → τ → Prop}
    (hstep : ∀ s t i, R s t → ok s i →
      ∃ answer s' t', step s i = some (answer, s') ∧ next t i answer = some t' ∧ R s' t')
    {s : σ} {t : τ} {ops : List ι} (hrel : R s t) (hok : Permitted step ok s ops) :
    ∃ answers s' t', run step s ops = some (answers, s') ∧
      track next t ops answers = some t' ∧ R s' t' := by
  induction ops generalizing s t with
  | nil => exact ⟨[], s, t, rfl, rfl, hrel⟩
  | cons i rest ih =>
      obtain ⟨answer, s₁, t₁, hanswer, hnext, hrel₁⟩ := hstep s t i hrel hok.1
      obtain ⟨answers, s', t', hrun, htrack, hrel'⟩ := ih hrel₁ (hok.2 answer s₁ hanswer)
      refine ⟨answer :: answers, s', t', ?_, ?_, hrel'⟩
      · exact run_cons.mpr ⟨answer, s₁, answers, hanswer, hrun, rfl⟩
      · rw [track, hnext]
        exact htrack

/-- An invariant under which every permitted operation returns. -/
theorem run_returns {ok : σ → ι → Prop} {Inv : σ → Prop}
    (hstep : ∀ s i, Inv s → ok s i → ∃ answer s', step s i = some (answer, s') ∧ Inv s')
    {s : σ} {ops : List ι} (hinv : Inv s) (hok : Permitted step ok s ops) :
    ∃ answers s', run step s ops = some (answers, s') ∧ Inv s' := by
  induction ops generalizing s with
  | nil => exact ⟨[], s, rfl, hinv⟩
  | cons i rest ih =>
      obtain ⟨answer, s₁, hanswer, hinv₁⟩ := hstep s i hinv hok.1
      obtain ⟨answers, s', hrun, hinv'⟩ := ih hinv₁ (hok.2 answer s₁ hanswer)
      exact ⟨answer :: answers, s', run_cons.mpr ⟨answer, s₁, answers, hanswer, hrun, rfl⟩, hinv'⟩

/-! ## Reachable states -/

/-- A permitted sequence leads from `s` to `s'`. -/
def Reaches (step : σ → ι → Option (ω × σ)) (ok : σ → ι → Prop) (s s' : σ) : Prop :=
  ∃ ops answers, Permitted step ok s ops ∧ run step s ops = some (answers, s')

namespace Reaches

variable {ok : σ → ι → Prop} {s s₁ s' : σ} {i : ι}

theorem refl (s : σ) : Reaches step ok s s := ⟨[], [], trivial, rfl⟩

theorem head {answer : ω} (hok : ok s i) (hstep : step s i = some (answer, s₁))
    (h : Reaches step ok s₁ s') : Reaches step ok s s' := by
  obtain ⟨ops, answers, hpermitted, hrun⟩ := h
  refine ⟨i :: ops, answer :: answers, ⟨hok, fun answer' s₂ hstep' => ?_⟩,
    run_cons.mpr ⟨answer, s₁, answers, hstep, hrun, rfl⟩⟩
  obtain ⟨-, rfl⟩ := Prod.mk.inj (Option.some.inj (hstep.symm.trans hstep'))
  exact hpermitted

theorem trans (h : Reaches step ok s s₁) (h' : Reaches step ok s₁ s') :
    Reaches step ok s s' := by
  obtain ⟨ops, answers, hpermitted, hrun⟩ := h
  induction ops generalizing s answers with
  | nil =>
      obtain ⟨-, rfl⟩ := Prod.mk.inj (Option.some.inj hrun)
      exact h'
  | cons i ops ih =>
      obtain ⟨answer, s₂, answers', hstep, hrest, -⟩ := run_cons.mp hrun
      have hreach := ih answers' (hpermitted.2 answer s₂ hstep) hrest
      exact .head hpermitted.1 hstep hreach

theorem single {answer : ω} (hok : ok s i) (hstep : step s i = some (answer, s')) :
    Reaches step ok s s' := .head hok hstep (.refl s')

end Reaches

end Trace

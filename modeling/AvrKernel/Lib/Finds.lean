import AvrKernel.Lib.Program

/-!
# Programs that find a value

A program that only looks something up returns the same value from all states
that look the same, as soon as it has enough fuel. The rules follow the
structure of programs; those for loops go round by round.
-/

namespace Effect.Prog

variable {E : Type} {R : E → Type} {α β σ : Type}

/-- A program without loops. -/
def Straight : Prog E R α → Prop
  | ret _ => True
  | call _ next => ∀ answer, Straight (next answer)
  | fuel _ => False
  | halt => False

theorem Straight.bind {p : Prog E R α} {f : α → Prog E R β} (hp : Straight p)
    (hf : ∀ value, Straight (f value)) : Straight (p >>= f) := by
  induction p with
  | ret value => exact hf value
  | call e next ih => exact fun answer => ih answer (hp answer)
  | fuel next ih => exact hp.elim
  | halt => exact hp.elim

/-- A program without loops returns, whatever the fuel. -/
theorem Straight.run {p : Prog E R α} (hp : Straight p) (handler : Handler E R σ) (s : σ) :
    ∃ result, ∀ n, Prog.run n handler p s = some result := by
  induction p generalizing s with
  | ret value => exact ⟨(value, s), fun _ => rfl⟩
  | call e next ih => exact ih _ (hp _) _
  | fuel next ih => exact hp.elim
  | halt => exact hp.elim

/-- With enough fuel the program returns `value` from every state in `I`, and stays in `I`. -/
def Finds (handler : Handler E R σ) (I : σ → Prop) (p : Prog E R α) (value : α) : Prop :=
  ∃ enough, ∀ n ≥ enough, ∀ s, I s → ∃ s', run n handler p s = some (value, s') ∧ I s'

/-- With enough fuel and rounds a loop returns `value` from every state in `I`, and stays in `I`. -/
def FindsIn (handler : Handler E R σ) (I : σ → Prop) (body : β → Prog E R (β ⊕ α)) (state : β)
    (value : α) : Prop :=
  ∃ enough, ∀ n ≥ enough, ∀ rounds ≥ enough, ∀ s, I s →
    ∃ s', run n handler (iterate body rounds state) s = some (value, s') ∧ I s'

variable {handler : Handler E R σ} {I : σ → Prop} {p : Prog E R α} {value value' : α}

theorem Finds.ret (value : α) : Finds handler I (ret value) value :=
  ⟨0, fun _ _ s hs => ⟨s, rfl, hs⟩⟩

theorem Finds.bind {f : α → Prog E R β} {result : β} (hp : Finds handler I p value)
    (hf : Finds handler I (f value) result) : Finds handler I (p >>= f) result := by
  obtain ⟨enough, hp⟩ := hp
  obtain ⟨enough', hf⟩ := hf
  refine ⟨max enough enough', fun n hn s hs => ?_⟩
  obtain ⟨hfirst, hsecond⟩ := Nat.max_le.mp hn
  obtain ⟨s₁, hrun, hs₁⟩ := hp n hfirst s hs
  obtain ⟨s₂, hrun', hs₂⟩ := hf n hsecond s₁ hs₁
  exact ⟨s₂, run_bind_eq_some _ _ |>.mpr ⟨value, s₁, hrun, hrun'⟩, hs₂⟩

theorem Finds.map (hp : Finds handler I p value) (f : α → β) :
    Finds handler I (p >>= fun found => Prog.ret (f found)) (f value) :=
  hp.bind (.ret _)

variable {body : β → Prog E R (β ⊕ α)} {state : β}

theorem FindsIn.last (h : Finds handler I (body state) (.inr value)) :
    FindsIn handler I body state value := by
  obtain ⟨enough, h⟩ := h
  refine ⟨enough + 1, fun n hn rounds hrounds s hs => ?_⟩
  obtain ⟨rounds, rfl⟩ := Nat.exists_eq_add_of_le' (Nat.one_le_of_lt hrounds)
  obtain ⟨s₁, hrun, hs₁⟩ := h n (Nat.le_of_succ_le hn) s hs
  exact ⟨s₁, run_bind_eq_some _ _ |>.mpr ⟨.inr value, s₁, hrun, rfl⟩, hs₁⟩

theorem FindsIn.next (state' : β) (h : Finds handler I (body state) (.inl state'))
    (hrest : FindsIn handler I body state' value) : FindsIn handler I body state value := by
  obtain ⟨enough, h⟩ := h
  obtain ⟨enough', hrest⟩ := hrest
  refine ⟨max enough enough' + 1, fun n hn rounds hrounds s hs => ?_⟩
  obtain ⟨rounds, rfl⟩ := Nat.exists_eq_add_of_le' (Nat.one_le_of_lt hrounds)
  obtain ⟨hfirst, hsecond⟩ := Nat.max_le.mp (Nat.le_of_succ_le hn)
  have hrounds' := (Nat.max_le.mp (Nat.le_of_succ_le_succ hrounds)).2
  obtain ⟨s₁, hrun, hs₁⟩ := h n hfirst s hs
  obtain ⟨s₂, hrun', hs₂⟩ := hrest n hsecond rounds hrounds' s₁ hs₁
  exact ⟨s₂, run_bind_eq_some _ _ |>.mpr ⟨.inl state', s₁, hrun, hrun'⟩, hs₂⟩

theorem FindsIn.loop (h : FindsIn handler I body state value) :
    Finds handler I (loop body state) value := by
  obtain ⟨enough, h⟩ := h
  exact ⟨enough, fun n hn s hs => h n hn n hn s hs⟩

end Effect.Prog

import Mathlib.Logic.Function.Basic
import Mathlib.Data.Set.Basic

/-!
# Programs over an interface of calls

A program is a tree of calls to an interface, each followed by a continuation
that receives the answer. Running one needs a handler that answers every call
on a concrete state. Unbounded loops ask for `fuel`: a run with too little of
it does not return.

The second half is a program logic. `Refine.Ensures` relates the concrete state
to an abstract one; its rules follow the structure of programs, so a
specification of a call is all that a proof about programs needs.
-/

namespace Effect

variable {E : Type} {R : E → Type} {α β γ σ τ : Type}

/-- Programs over calls `E`, where the answer to `e` has type `R e`. -/
inductive Prog (E : Type) (R : E → Type) (α : Type) : Type
  | ret (value : α)
  | call (e : E) (next : R e → Prog E R α)
  | fuel (next : Nat → Prog E R α)
  | halt

namespace Prog

def bind : Prog E R α → (α → Prog E R β) → Prog E R β
  | ret value, f => f value
  | call e next, f => call e fun answer => (next answer).bind f
  | fuel next, f => fuel fun n => (next n).bind f
  | halt, _ => halt

instance : Monad (Prog E R) where
  pure := ret
  bind := bind

@[simp] theorem pure_eq (value : α) : (pure value : Prog E R α) = ret value := rfl

@[simp] theorem ret_bind (value : α) (f : α → Prog E R β) : (ret value >>= f) = f value := rfl

@[simp] theorem call_bind (e : E) (next : R e → Prog E R α) (f : α → Prog E R β) :
    (call e next >>= f) = call e fun answer => next answer >>= f := rfl

theorem bind_assoc (p : Prog E R α) (f : α → Prog E R β) (g : β → Prog E R γ) :
    (p >>= f) >>= g = p >>= fun value => f value >>= g := by
  induction p with
  | ret value => rfl
  | call e next ih => exact congrArg (call e) (funext fun answer => ih answer)
  | fuel next ih => exact congrArg fuel (funext fun n => ih n)
  | halt => rfl

/-- A single call. -/
def perform (e : E) : Prog E R (R e) := call e ret

/-- `n` rounds of a loop; `.inl` asks for another round, `.inr` leaves it. -/
def iterate (body : β → Prog E R (β ⊕ α)) : Nat → β → Prog E R α
  | 0, _ => halt
  | n + 1, state => body state >>= fun
      | .inl state' => iterate body n state'
      | .inr value => ret value

/-- An unbounded loop: as many rounds as the run has fuel for. -/
def loop (body : β → Prog E R (β ⊕ α)) (state : β) : Prog E R α :=
  fuel fun n => iterate body n state

/-- Answers of calls, and the state after them. -/
abbrev Handler (E : Type) (R : E → Type) (σ : Type) := (e : E) → σ → R e × σ

/-- Run a program; `none` means that it has not returned. -/
def run (n : Nat) (handler : Handler E R σ) : Prog E R α → σ → Option (α × σ)
  | ret value, s => some (value, s)
  | call e next, s => run n handler (next (handler e s).1) (handler e s).2
  | fuel next, s => run n handler (next n) s
  | halt, _ => none

variable (n : Nat) (handler : Handler E R σ)

@[simp] theorem run_ret (value : α) (s : σ) :
    run n handler (ret value) s = some (value, s) := rfl

@[simp] theorem run_call (e : E) (next : R e → Prog E R α) (s : σ) :
    run n handler (call e next) s = run n handler (next (handler e s).1) (handler e s).2 := rfl

@[simp] theorem run_fuel (next : Nat → Prog E R α) (s : σ) :
    run n handler (fuel next) s = run n handler (next n) s := rfl

@[simp] theorem run_halt (s : σ) : run n handler (halt : Prog E R α) s = none := rfl

theorem run_bind (p : Prog E R α) (f : α → Prog E R β) (s : σ) :
    run n handler (p >>= f) s =
      (run n handler p s).bind fun result => run n handler (f result.1) result.2 := by
  induction p generalizing s with
  | ret value => rfl
  | call e next ih => exact ih _ _
  | fuel next ih => exact ih _ _
  | halt => rfl

/-- A sequence returns if both of its parts do. -/
theorem run_bind_eq_some {p : Prog E R α} {f : α → Prog E R β} {s : σ} {result : β × σ} :
    run n handler (p >>= f) s = some result ↔
      ∃ value s₁, run n handler p s = some (value, s₁) ∧
        run n handler (f value) s₁ = some result := by
  rw [run_bind, Option.bind_eq_some_iff]
  exact ⟨fun ⟨first, hfirst, hrest⟩ => ⟨first.1, first.2, hfirst, hrest⟩,
    fun ⟨value, s₁, hfirst, hrest⟩ => ⟨(value, s₁), hfirst, hrest⟩⟩

/-- Every call made by the run of a program satisfies `P` in the state it is
made in. -/
def Calls (P : E → σ → Prop) : Prog E R α → σ → Prop
  | ret _, _ => True
  | call e next, s => P e s ∧ Calls P (next (handler e s).1) (handler e s).2
  | fuel next, s => Calls P (next n) s
  | halt, _ => True

theorem Calls.left {P : E → σ → Prop} {p : Prog E R α} {f : α → Prog E R β} {s : σ}
    (h : Calls n handler P (p >>= f) s) : Calls n handler P p s := by
  induction p generalizing s with
  | ret value => trivial
  | call e next ih => exact ⟨h.1, ih _ h.2⟩
  | fuel next ih => exact ih _ h
  | halt => trivial

theorem Calls.right {P : E → σ → Prop} {p : Prog E R α} {f : α → Prog E R β} {s s' : σ}
    {value : α} (h : Calls n handler P (p >>= f) s)
    (hrun : run n handler p s = some (value, s')) : Calls n handler P (f value) s' := by
  induction p generalizing s with
  | ret value' =>
      simp only [run_ret, Option.some.injEq, Prod.mk.injEq] at hrun
      obtain ⟨rfl, rfl⟩ := hrun
      exact h
  | call e next ih => exact ih _ h.2 hrun
  | fuel next ih => exact ih _ h hrun
  | halt => cases hrun

theorem Calls.bind {P : E → σ → Prop} {p : Prog E R α} {f : α → Prog E R β} {s : σ}
    (hp : Calls n handler P p s)
    (hf : ∀ value s', run n handler p s = some (value, s') → Calls n handler P (f value) s') :
    Calls n handler P (p >>= f) s := by
  induction p generalizing s with
  | ret value => exact hf value s rfl
  | call e next ih => exact ⟨hp.1, ih _ hp.2 hf⟩
  | fuel next ih => exact ih _ hp hf
  | halt => trivial

theorem Calls.of_forall {P : E → σ → Prop} (hP : ∀ e s, P e s) (p : Prog E R α) (s : σ) :
    Calls n handler P p s := by
  induction p generalizing s with
  | ret _ => trivial
  | call e next ih => exact ⟨hP e s, ih _ _⟩
  | fuel next ih => exact ih _ _
  | halt => trivial

theorem Calls.mono {P Q : E → σ → Prop} (hPQ : ∀ e s, P e s → Q e s) {p : Prog E R α} {s : σ}
    (h : Calls n handler P p s) : Calls n handler Q p s := by
  induction p generalizing s with
  | ret _ => trivial
  | call e next ih => exact ⟨hPQ e s h.1, ih _ h.2⟩
  | fuel next ih => exact ih _ h
  | halt => trivial

instance Calls.decidable {P : E → σ → Prop} [∀ e s, Decidable (P e s)] :
    (p : Prog E R α) → (s : σ) → Decidable (Calls n handler P p s)
  | ret _, _ => .isTrue trivial
  | call e next, s => @instDecidableAnd _ _ _ (Calls.decidable (next (handler e s).1) _)
  | fuel next, s => Calls.decidable (next n) s
  | halt, _ => .isTrue trivial

/-- Every call that a program can make satisfies `P`. -/
def All (P : E → Prop) : Prog E R α → Prop
  | ret _ => True
  | call e next => P e ∧ ∀ answer, All P (next answer)
  | fuel next => ∀ n, All P (next n)
  | halt => True

theorem All.bind {P : E → Prop} {p : Prog E R α} {f : α → Prog E R β} (hp : All P p)
    (hf : ∀ value, All P (f value)) : All P (p >>= f) := by
  induction p with
  | ret value => exact hf value
  | call e next ih => exact ⟨hp.1, fun answer => ih answer (hp.2 answer)⟩
  | fuel next ih => exact fun n => ih n (hp n)
  | halt => trivial

theorem All.loop {P : E → Prop} {body : β → Prog E R (β ⊕ α)} (hbody : ∀ state, All P (body state))
    (state : β) : All P (loop body state) := by
  intro n
  induction n generalizing state with
  | zero => trivial
  | succ n ih =>
      refine (hbody state).bind ?_
      rintro (state' | value)
      · exact ih state'
      · trivial

theorem All.calls {P : E → Prop} {Q : E → σ → Prop} (hPQ : ∀ e s, P e → Q e s) {p : Prog E R α}
    (hp : All P p) (s : σ) : Calls n handler Q p s := by
  induction p generalizing s with
  | ret _ => trivial
  | call e next ih => exact ⟨hPQ e s hp.1, ih _ (hp.2 _) _⟩
  | fuel next ih => exact ih n (hp n) s
  | halt => trivial

theorem All.of_forall {P : E → Prop} (hP : ∀ e, P e) (p : Prog E R α) : All P p := by
  induction p with
  | ret _ => trivial
  | call e next ih => exact ⟨hP e, ih⟩
  | fuel next ih => exact ih
  | halt => trivial

theorem All.mono {P Q : E → Prop} (hPQ : ∀ e, P e → Q e) {p : Prog E R α} (hp : All P p) :
    All Q p := by
  induction p with
  | ret _ => trivial
  | call e next ih => exact ⟨hPQ e hp.1, fun answer => ih answer (hp.2 answer)⟩
  | fuel next ih => exact fun n => ih n (hp n)
  | halt => trivial

/-- Whatever its calls answer, a program returns only values that satisfy `P`. -/
def Yields (P : α → Prop) : Prog E R α → Prop
  | ret value => P value
  | call _ next => ∀ answer, Yields P (next answer)
  | fuel next => ∀ n, Yields P (next n)
  | halt => True

theorem Yields.bind {P : α → Prop} {Q : β → Prop} {p : Prog E R α} {f : α → Prog E R β}
    (hp : Yields P p) (hf : ∀ value, P value → Yields Q (f value)) : Yields Q (p >>= f) := by
  induction p with
  | ret value => exact hf value hp
  | call e next ih => exact fun answer => ih answer (hp answer)
  | fuel next ih => exact fun n => ih n (hp n)
  | halt => trivial

/-- The values of the first part of a sequence may be anything. -/
theorem Yields.bind_any {Q : β → Prop} {p : Prog E R α} {f : α → Prog E R β}
    (hf : ∀ value, Yields Q (f value)) : Yields Q (p >>= f) := by
  induction p with
  | ret value => exact hf value
  | call e next ih => exact fun answer => ih answer
  | fuel next ih => exact fun n => ih n
  | halt => trivial

theorem Yields.run {P : α → Prop} {p : Prog E R α} {s s' : σ} {value : α} (hp : Yields P p)
    (hrun : run n handler p s = some (value, s')) : P value := by
  induction p generalizing s with
  | ret value' =>
      simp only [run_ret, Option.some.injEq, Prod.mk.injEq] at hrun
      exact hrun.1 ▸ hp
  | call e next ih => exact ih _ (hp _) hrun
  | fuel next ih => exact ih _ (hp _) hrun
  | halt => cases hrun

/-- What every permitted call preserves, every permitted run preserves. -/
theorem run_preserves {P : E → σ → Prop} {Inv : σ → Prop}
    (hstep : ∀ e s, Inv s → P e s → Inv (handler e s).2)
    {p : Prog E R α} {s s' : σ} {value : α} (hinv : Inv s) (hcalls : Calls n handler P p s)
    (hrun : run n handler p s = some (value, s')) : Inv s' := by
  induction p generalizing s with
  | ret value' =>
      simp only [run_ret, Option.some.injEq, Prod.mk.injEq] at hrun
      exact hrun.2 ▸ hinv
  | call e next ih => exact ih _ (hstep e s hinv hcalls.1) hcalls.2 hrun
  | fuel next ih => exact ih _ hinv hcalls hrun
  | halt => cases hrun

end Prog

/-! ## Embedding one interface in another -/

section Embedding

variable {E' : Type} {R' : E' → Type} {σ' : Type}

/-- Make every call of `p` through a larger interface. -/
def Prog.embed (inj : E → E') (back : (e : E) → R' (inj e) → R e) :
    Prog E R α → Prog E' R' α
  | .ret value => .ret value
  | .call e next => .call (inj e) fun answer => (next (back e answer)).embed inj back
  | .fuel next => .fuel fun n => (next n).embed inj back
  | .halt => .halt

theorem Prog.All.embed {P : E' → Prop} {inj : E → E'} {back : (e : E) → R' (inj e) → R e}
    {p : Prog E R α} (hp : p.All fun e => P (inj e)) : (p.embed inj back).All P := by
  induction p with
  | ret _ => trivial
  | call e next ih => exact ⟨hp.1, fun answer => ih _ (hp.2 _)⟩
  | fuel next ih => exact fun n => ih n (hp n)
  | halt => trivial

/-- A run through the larger interface is the run of the program itself on the
component of the state that its calls work on. -/
theorem Prog.run_embed {inj : E → E'} {back : (e : E) → R' (inj e) → R e}
    {handler : Prog.Handler E R σ} {handler' : Prog.Handler E' R' σ'}
    {get : σ' → σ} {set : σ → σ' → σ'}
    (hanswer : ∀ e s, back e (handler' (inj e) s).1 = (handler e (get s)).1)
    (hstate : ∀ e s, (handler' (inj e) s).2 = set (handler e (get s)).2 s)
    (hget : ∀ c s, get (set c s) = c) (hset : ∀ c c' s, set c (set c' s) = set c s)
    (hself : ∀ s, set (get s) s = s)
    (n : Nat) (p : Prog E R α) (s : σ') :
    (p.embed inj back).run n handler' s =
      (p.run n handler (get s)).map fun result => (result.1, set result.2 s) := by
  induction p generalizing s with
  | ret value => simp [embed, hself]
  | call e next ih =>
      simp only [embed, run_call, ih, hanswer, hstate, hget]
      congr 1
      funext result
      rw [hset]
  | fuel next ih => exact ih n s
  | halt => rfl

end Embedding

/-! ## Refinement triples -/

/-- How a concrete state is related to an abstract one, which calls are trusted to be
answered as assumed, and what the program guarantees of every call it makes. -/
structure Refine (E : Type) (R : E → Type) (σ τ : Type) where
  fuel : Nat
  handler : Prog.Handler E R σ
  rel : σ → τ → Prop
  assume : E → σ → Prop
  grant : E → σ → Prop

namespace Refine

open Prog

/-- From every concrete state related to `t`, the program returns in a state
related to some `t'`, its result and `t'` satisfy `post`, and its calls are as
guaranteed. -/
def Ensures (W : Refine E R σ τ) (p : Prog E R α) (t : τ) (post : α → τ → Prop) : Prop :=
  ∀ s, W.rel s t → Calls W.fuel W.handler W.assume p s →
    Calls W.fuel W.handler W.grant p s ∧
      ∃ value s' t', run W.fuel W.handler p s = some (value, s') ∧ W.rel s' t' ∧ post value t'

variable {W : Refine E R σ τ} {t : τ}

theorem ensures_ret {value : α} {post : α → τ → Prop} (h : post value t) :
    W.Ensures (ret value) t post :=
  fun s hs _ => ⟨trivial, value, s, t, rfl, hs, h⟩

theorem ensures_bind {p : Prog E R α} {f : α → Prog E R β} {post : β → τ → Prop}
    (h : W.Ensures p t fun value t' => W.Ensures (f value) t' post) :
    W.Ensures (p >>= f) t post := by
  intro s hs hcalls
  obtain ⟨hgrant, value, s', t', hrun, hs', hnext⟩ := h s hs hcalls.left
  obtain ⟨hgrant', value', s'', t'', hrun', hs'', hpost⟩ :=
    hnext s' hs' (hcalls.right _ _ hrun)
  refine ⟨hgrant.bind _ _ fun v s₁ hv => ?_, value', s'', t'', by rw [run_bind, hrun]; exact hrun',
    hs'', hpost⟩
  rw [hrun, Option.some_inj, Prod.mk.injEq] at hv
  obtain ⟨rfl, rfl⟩ := hv
  exact hgrant'

theorem Ensures.mono {p : Prog E R α} {post post' : α → τ → Prop} (h : W.Ensures p t post)
    (himp : ∀ value t', post value t' → post' value t') : W.Ensures p t post' := by
  intro s hs hcalls
  obtain ⟨hgrant, value, s', t', hrun, hs', hpost⟩ := h s hs hcalls
  exact ⟨hgrant, value, s', t', hrun, hs', himp value t' hpost⟩

/-- A call is specified by what it does from every related state. -/
theorem ensures_call {e : E} {next : R e → Prog E R α} {post : α → τ → Prop}
    (h : ∀ s, W.rel s t → W.assume e s → W.grant e s ∧ ∃ t', W.rel (W.handler e s).2 t' ∧
      W.Ensures (next (W.handler e s).1) t' post) :
    W.Ensures (call e next) t post := by
  intro s hs hcalls
  obtain ⟨hgrant, t', hs', hnext⟩ := h s hs hcalls.1
  obtain ⟨hgrant', hresult⟩ := hnext _ hs' hcalls.2
  exact ⟨⟨hgrant, hgrant'⟩, hresult⟩

theorem ensures_perform {e : E} {post : R e → τ → Prop}
    (h : ∀ s, W.rel s t → W.assume e s →
      W.grant e s ∧ ∃ t', W.rel (W.handler e s).2 t' ∧ post (W.handler e s).1 t') :
    W.Ensures (perform e) t post :=
  ensures_call fun s hs hassume => by
    obtain ⟨hgrant, t', hs', hpost⟩ := h s hs hassume
    exact ⟨hgrant, t', hs', ensures_ret hpost⟩

/-- A loop whose `n` remaining rounds establish `post` needs `n < fuel`. -/
theorem ensures_loop {body : β → Prog E R (β ⊕ α)} {state : β} {post : α → τ → Prop}
    (h : W.Ensures (iterate body W.fuel state) t post) :
    W.Ensures (loop body state) t post :=
  fun s hs hcalls => h s hs hcalls

theorem ensures_iterate {body : β → Prog E R (β ⊕ α)} {n : Nat} {state : β}
    {post : α → τ → Prop}
    (h : W.Ensures (body state) t fun
      | .inl state', t' => W.Ensures (iterate body n state') t' post
      | .inr value, t' => post value t') :
    W.Ensures (iterate body (n + 1) state) t post := by
  refine ensures_bind (h.mono ?_)
  rintro (state' | value) t' hpost
  · exact hpost
  · exact ensures_ret hpost

end Refine

end Effect

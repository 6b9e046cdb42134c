import Mathlib.Logic.Basic

/-!
# Computations that may stop

A computation works on a state. It returns a value, or stops for good in the state that it
has reached, or faults. A loop without a bound of its own takes its rounds out of a supply of
fuel, and a computation that has used it up has not returned.

`Ensures` is the weakest precondition of a computation. Its rules follow the structure of the
code, so a specification of every part is all that a proof about the whole needs.
-/

/-- What becomes of a computation. -/
inductive Outcome (σ α : Type)
  | done (value : α) (s : σ)
  | stopped (s : σ)
  | fault
  | running

/-- What a view shows of the state in which a computation has returned. -/
def Outcome.shown {σ α β : Type} (view : σ → β) : Outcome σ α → Option β
  | done _ s => some (view s)
  | stopped _ | fault | running => none

theorem Outcome.exists_of_shown {σ α β : Type} {o : Outcome σ α} {view : σ → β} {b : β}
    (h : o.shown view = some b) : ∃ value s, o = .done value s ∧ view s = b := by
  cases o with
  | done value s => exact ⟨value, s, rfl, Option.some.inj h⟩
  | stopped | fault | running => cases h

def Outcome.isFault {σ α : Type} : Outcome σ α → Bool
  | fault => true
  | done .. | stopped _ | running => false

theorem Outcome.eq_fault {σ α : Type} {o : Outcome σ α} (h : o.isFault = true) : o = .fault := by
  cases o with
  | fault => rfl
  | done | stopped | running => cases h

/-- A computation on states `σ`, given the fuel of its loops. -/
def Comp (σ α : Type) : Type := Nat → σ → Outcome σ α

namespace Comp

variable {σ τ α β ω ι : Type}

def ret (value : α) : Comp σ α := fun _ s => .done value s

def bind (c : Comp σ α) (f : α → Comp σ β) : Comp σ β := fun n s =>
  match c n s with
  | .done value s' => f value n s'
  | .stopped s' => .stopped s'
  | .fault => .fault
  | .running => .running

instance : Monad (Comp σ) where
  pure := ret
  bind := bind

def get : Comp σ σ := fun _ s => .done s s

def set (s : σ) : Comp σ Unit := fun _ _ => .done () s

def modify (f : σ → σ) : Comp σ Unit := fun _ s => .done () (f s)

/-- Stop for good. -/
def stop : Comp σ α := fun _ s => .stopped s

def fault : Comp σ α := fun _ _ => .fault

/-- Go on if `p` holds, and fault if it does not. -/
def require (p : Prop) [Decidable p] : Comp σ Unit := if p then ret () else fault

/-- A computation on a component of the state. -/
def zoom (view : τ → σ) (put : σ → τ → τ) (c : Comp σ α) : Comp τ α := fun n t =>
  match c n (view t) with
  | .done value s => .done value (put s t)
  | .stopped s => .stopped (put s t)
  | .fault => .fault
  | .running => .running

/-- `body i` for `count` values of `i`, from `start` on. -/
def forFrom (body : Nat → Comp σ Unit) : Nat → Nat → Comp σ Unit
  | 0, _ => ret ()
  | count + 1, start => do
      body start
      forFrom body count (start + 1)

/-- `rounds` rounds of a loop; `.inl` asks for another one, `.inr` leaves it. -/
def iterate (body : β → Comp σ (β ⊕ α)) : Nat → β → Comp σ α
  | 0, _ => fun _ _ => .running
  | rounds + 1, b => body b >>= fun
      | .inl b' => iterate body rounds b'
      | .inr value => ret value

/-- An unbounded loop: as many rounds as there is fuel. -/
def loop (body : β → Comp σ (β ⊕ α)) (b : β) : Comp σ α := fun n => iterate body n b n

/-! ## What a computation ensures -/

/-- From `s` the computation returns in a state that satisfies `post`, or stops in one that
satisfies `halt`. -/
def Ensures (n : Nat) (c : Comp σ α) (s : σ) (post : α → σ → Prop) (halt : σ → Prop) : Prop :=
  match c n s with
  | .done value s' => post value s'
  | .stopped s' => halt s'
  | .fault => False
  | .running => False

variable {n : Nat} {c : Comp σ α} {f : α → Comp σ β} {s : σ} {post : α → σ → Prop}
  {halt : σ → Prop}

@[simp] theorem ensures_pure {value : α} :
    Ensures n (pure value : Comp σ α) s post halt ↔ post value s := Iff.rfl

@[simp] theorem ensures_ret {value : α} :
    Ensures n (ret value : Comp σ α) s post halt ↔ post value s := Iff.rfl

@[simp] theorem ensures_get {post : σ → σ → Prop} :
    Ensures n get s post halt ↔ post s s := Iff.rfl

@[simp] theorem ensures_set {s' : σ} {post : Unit → σ → Prop} :
    Ensures n (set s') s post halt ↔ post () s' := Iff.rfl

@[simp] theorem ensures_modify {g : σ → σ} {post : Unit → σ → Prop} :
    Ensures n (modify g) s post halt ↔ post () (g s) := Iff.rfl

@[simp] theorem ensures_stop : Ensures n (stop : Comp σ α) s post halt ↔ halt s := Iff.rfl

@[simp] theorem ensures_fault : Ensures n (fault : Comp σ α) s post halt ↔ False := Iff.rfl

theorem ensures_bind {post : β → σ → Prop} : Ensures n (c >>= f) s post halt ↔
    Ensures n c s (fun value s' => Ensures n (f value) s' post halt) halt := by
  change Ensures n (bind c f) s post halt ↔ _
  unfold Ensures bind
  cases c n s <;> exact Iff.rfl

theorem Ensures.of_done {value : α} {s' : σ} (h : Ensures n c s post halt)
    (hdone : c n s = .done value s') : post value s' := by
  rwa [Ensures, hdone] at h

theorem Ensures.of_stopped {s' : σ} (h : Ensures n c s post halt) (hstop : c n s = .stopped s') :
    halt s' := by
  rwa [Ensures, hstop] at h

theorem not_ensures_of_fault (h : c n s = .fault) : ¬ Ensures n c s post halt := by
  rw [Ensures, h]
  exact id

theorem bind_of_done {value : α} {s' : σ} (h : c n s = .done value s') :
    (c >>= f) n s = f value n s' := by
  change bind c f n s = _
  rw [bind, h]

theorem bind_of_fault (h : c n s = .fault) : (c >>= f) n s = .fault := by
  change bind c f n s = _
  rw [bind, h]

theorem bind_assoc {g : β → Comp σ ω} : c >>= f >>= g = c >>= fun value => f value >>= g := by
  funext n s
  change bind (bind c f) g n s = bind c (fun value => bind (f value) g) n s
  unfold bind
  cases c n s <;> rfl

@[simp] theorem ensures_require {p : Prop} [Decidable p] {post : Unit → σ → Prop} :
    Ensures n (require p) s post halt ↔ p ∧ post () s := by
  by_cases hp : p <;> simp [require, hp]

theorem ensures_zoom {view : τ → σ} {put : σ → τ → τ} {t : τ} {post : α → τ → Prop}
    {halt : τ → Prop} : Ensures n (zoom view put c) t post halt ↔
      Ensures n c (view t) (fun value s => post value (put s t)) fun s => halt (put s t) := by
  unfold Ensures zoom
  cases c n (view t) <;> exact Iff.rfl

theorem Ensures.mono {post' : α → σ → Prop} {halt' : σ → Prop} (h : Ensures n c s post halt)
    (hpost : ∀ value s', post value s' → post' value s') (hhalt : ∀ s', halt s' → halt' s') :
    Ensures n c s post' halt' := by
  unfold Ensures at h ⊢
  cases hc : c n s with
  | done value s' => exact hpost value s' (by simpa [hc] using h)
  | stopped s' => exact hhalt s' (by simpa [hc] using h)
  | fault => simp [hc] at h
  | running => simp [hc] at h

/-- The rule of consequence for what is returned. -/
theorem Ensures.imp {post' : α → σ → Prop} (h : Ensures n c s post halt)
    (hpost : ∀ value s', post value s' → post' value s') : Ensures n c s post' halt :=
  h.mono hpost fun _ => id

/-- The rule of a sequence. -/
theorem Ensures.bind {mid : α → σ → Prop} {post : β → σ → Prop} (h : Ensures n c s mid halt)
    (hrest : ∀ value s', mid value s' → Ensures n (f value) s' post halt) :
    Ensures n (c >>= f) s post halt :=
  ensures_bind.mpr (h.imp hrest)

/-- The rule of a sequence whose first part may stop in fewer states. -/
theorem Ensures.bind_of {mid : α → σ → Prop} {halt' : σ → Prop} {post : β → σ → Prop}
    (h : Ensures n c s mid halt') (hhalt : ∀ s', halt' s' → halt s')
    (hrest : ∀ value s', mid value s' → Ensures n (f value) s' post halt) :
    Ensures n (c >>= f) s post halt :=
  (h.mono (fun _ _ => id) hhalt).bind hrest

/-- An invariant that mentions the round is carried through a counted loop. -/
theorem ensures_forFrom {body : Nat → Comp σ Unit} {inv : Nat → σ → Prop} {count start : Nat}
    (hbody : ∀ i s, start ≤ i → i < start + count → inv i s →
      Ensures n (body i) s (fun _ s' => inv (i + 1) s') halt)
    (h : inv start s) :
    Ensures n (forFrom body count start) s (fun _ s' => inv (start + count) s') halt := by
  induction count generalizing start s with
  | zero => exact h
  | succ count ih =>
      refine (hbody start s (Nat.le_refl start) (by omega) h).bind fun _ s' hs' => ?_
      have hrest := ih (fun i s hi hlt => hbody i s (by omega) (by omega)) hs'
      rwa [Nat.add_right_comm] at hrest

/-- The rule of a loop that counts from 0. -/
theorem ensures_for {body : Nat → Comp σ Unit} (inv : Nat → σ → Prop) {count : Nat}
    (hbody : ∀ i s, i < count → inv i s → Ensures n (body i) s (fun _ s' => inv (i + 1) s') halt)
    (h : inv 0 s) : Ensures n (forFrom body count 0) s (fun _ s' => inv count s') halt := by
  have hbody' : ∀ i s, 0 ≤ i → i < 0 + count → inv i s →
      Ensures n (body i) s (fun _ s' => inv (i + 1) s') halt := by
    intro i s _ hlt
    exact hbody i s (by omega)
  have hloop := ensures_forFrom hbody' h
  rwa [Nat.zero_add] at hloop

/-- A loop ends if its invariant carries a bound on the rounds to come. -/
theorem ensures_iterate {body : β → Comp σ (β ⊕ α)} {inv : Nat → β → σ → Prop}
    (hbody : ∀ k b s, inv k b s → Ensures n (body b) s
      (fun
        | .inl b', s' => ∃ j < k, inv j b' s'
        | .inr value, s' => post value s') halt)
    {k rounds : Nat} {b : β} (h : inv k b s) (hk : k < rounds) :
    Ensures n (iterate body rounds b) s post halt := by
  induction rounds generalizing k b s with
  | zero => exact absurd hk (Nat.not_lt_zero k)
  | succ rounds ih =>
      refine (hbody k b s h).bind ?_
      rintro (b' | value) s' hs'
      · obtain ⟨j, hj, hinv⟩ := hs'
        exact ih hinv (by omega)
      · exact hs'

theorem ensures_loop {body : β → Comp σ (β ⊕ α)} (inv : Nat → β → σ → Prop)
    (hbody : ∀ k b s, inv k b s → Ensures n (body b) s
      (fun
        | .inl b', s' => ∃ j < k, inv j b' s'
        | .inr value, s' => post value s') halt)
    {k : Nat} {b : β} (h : inv k b s) (hk : k < n) : Ensures n (loop body b) s post halt :=
  ensures_iterate hbody h hk

/-! ## Runs -/

/-- The answers to a sequence of operations. -/
def run (step : ι → Comp σ ω) : List ι → Comp σ (List ω)
  | [] => ret []
  | i :: rest => do
      let answer ← step i
      let answers ← run step rest
      return answer :: answers

/-- Every operation of the sequence satisfies `ok` in the state that it meets. -/
def Permitted (n : Nat) (step : ι → Comp σ ω) (ok : σ → ι → Prop) : σ → List ι → Prop
  | _, [] => True
  | s, i :: rest =>
      ok s i ∧ ∀ answer s', step i n s = .done answer s' → Permitted n step ok s' rest

instance Permitted.decidable (n : Nat) (step : ι → Comp σ ω) (ok : σ → ι → Prop)
    [∀ s i, Decidable (ok s i)] : (s : σ) → (ops : List ι) → Decidable (Permitted n step ok s ops)
  | _, [] => isTrue trivial
  | s, i :: rest =>
      match h : step i n s with
      | .done answer s' =>
          have := Permitted.decidable n step ok s' rest
          decidable_of_iff (ok s i ∧ Permitted n step ok s' rest)
            ⟨fun hp => ⟨hp.1, fun _ _ hdone => by rw [h] at hdone; cases hdone; exact hp.2⟩,
              fun hp => ⟨hp.1, hp.2 answer s' h⟩⟩
      | .stopped _ | .fault | .running =>
          decidable_of_iff (ok s i)
            ⟨fun hp => ⟨hp, fun _ _ hdone => by rw [h] at hdone; cases hdone⟩, And.left⟩

/-- Steps that fault unless the operation satisfies `ok`. -/
def guarded (step : ι → Comp σ ω) (ok : σ → ι → Prop) [∀ s i, Decidable (ok s i)] (i : ι) :
    Comp σ ω :=
  fun n s => if ok s i then step i n s else .fault

theorem guarded_eq_done {step : ι → Comp σ ω} {ok : σ → ι → Prop} [∀ s i, Decidable (ok s i)]
    {i : ι} {answer : ω} {s' : σ} (h : guarded step ok i n s = .done answer s') :
    ok s i ∧ step i n s = .done answer s' := by
  rw [guarded] at h
  split at h
  next hok => exact ⟨hok, h⟩
  next => cases h

/-- A run that returns with its steps guarded is a permitted one. -/
theorem permitted_of_guarded {step : ι → Comp σ ω} {ok : σ → ι → Prop}
    [∀ s i, Decidable (ok s i)] {ops : List ι} {answers : List ω} {s' : σ}
    (h : run (guarded step ok) ops n s = .done answers s') :
    Permitted n step ok s ops ∧ run step ops n s = .done answers s' := by
  induction ops generalizing s answers with
  | nil => exact ⟨trivial, h⟩
  | cons i rest ih =>
      cases hfirst : guarded step ok i n s with
      | done answer s₁ =>
          obtain ⟨hok, hstep⟩ := guarded_eq_done hfirst
          rw [run, bind_of_done hfirst] at h
          cases hrest : run (guarded step ok) rest n s₁ with
          | done answers₁ s₂ =>
              rw [bind_of_done hrest] at h
              cases h
              obtain ⟨hpermitted, hrun⟩ := ih hrest
              refine ⟨⟨hok, fun answer' s₁' hdone => ?_⟩, ?_⟩
              · rw [hstep] at hdone
                cases hdone
                exact hpermitted
              · rw [run, bind_of_done hstep, bind_of_done hrun]
                rfl
          | stopped | fault | running => exact absurd h (by simp [Bind.bind, bind, hrest])
      | stopped | fault | running => exact absurd h (by simp [run, Bind.bind, bind, hfirst])

/-- What every permitted operation preserves, every permitted sequence preserves. -/
theorem ensures_run {step : ι → Comp σ ω} {ok : σ → ι → Prop} {inv : σ → Prop}
    (hstep : ∀ i s, inv s → ok s i → Ensures n (step i) s (fun _ s' => inv s') halt)
    {ops : List ι} (hinv : inv s) (hops : Permitted n step ok s ops) :
    Ensures n (run step ops) s (fun _ s' => inv s') halt := by
  induction ops generalizing s with
  | nil => exact hinv
  | cons i rest ih =>
      obtain ⟨hok, hrest⟩ := hops
      have hfirst : Ensures n (step i) s
          (fun answer s' => inv s' ∧ step i n s = .done answer s') halt := by
        have hi := hstep i s hinv hok
        unfold Ensures at hi ⊢
        cases hc : step i n s <;> simp_all
      refine hfirst.bind fun answer s' hs' => ?_
      refine (ih hs'.1 (hrest answer s' hs'.2)).bind fun _ s'' hs'' => ?_
      exact hs''

end Comp

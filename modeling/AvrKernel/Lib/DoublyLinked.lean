import AvrKernel.Lib.Linked

/-!
# Chains in both directions

A chain whose elements also hold the link to the one before, with a pointer to either end.
-/

namespace Linked

variable {α β : Type} {null head tail x y : α} {next prev : α → α} {l l₁ l₂ : List α}

/-- The links lead along `l` from `head` and back from `tail`. -/
structure DoubleChain (null : α) (next prev : α → α) (head tail : α) (l : List α) : Prop where
  forward : Chain null next head l
  backward : Chain null prev tail l.reverse

/-- What the elements from `a` on hold, in order. -/
def collect [DecidableEq α] (null : α) (link : α → α) (value : α → β) : Nat → α → Option (List β)
  | 0, _ => none
  | n + 1, a =>
      if a = null then some []
      else (collect null link value n (link a)).map (value a :: ·)

theorem Chain.collect [DecidableEq α] (h : Chain null next head l) (value : α → β) {n : Nat}
    (hn : l.length < n) : collect null next value n head = some (l.map value) := by
  induction l generalizing head n with
  | nil =>
      cases n with
      | zero => exact absurd hn (Nat.not_lt_zero _)
      | succ n => rw [Linked.collect, if_pos (h.head_eq_null.mpr rfl), List.map_nil]
  | cons x l ih =>
      obtain rfl := h.head_eq
      have hne : head ≠ null := fun heq => h.valid (heq ▸ List.mem_cons_self)
      cases n with
      | zero => exact absurd hn (Nat.not_lt_zero _)
      | succ n =>
          rw [Linked.collect, if_neg hne, ih h.tail (Nat.lt_of_succ_lt_succ hn), Option.map_some,
            List.map_cons]

namespace Chain

/-- The element behind the first ones is the only one that leads to the rest. -/
theorem next_eq_null (h : Chain null next head (l₁ ++ x :: l₂)) : next x = null ↔ l₂ = [] := by
  have hrest : Chain null next (next x) l₂ :=
    ⟨(List.nodup_cons.mp (List.nodup_append.mp h.nodup).2.1).2,
      fun hmem => h.valid (List.mem_append_right _ (List.mem_cons_of_mem x hmem)),
      h.path.middle.2⟩
  exact hrest.head_eq_null

theorem next_eq (h : Chain null next head (l₁ ++ x :: y :: l₂)) : next x = y :=
  h.path.middle.2.head_eq

/-- Take the first element out. -/
theorem remove_first (h : Chain null next head (x :: l)) : Chain null next (next x) l := h.tail

variable [DecidableEq α]

/-- Let the element before another lead behind that. -/
theorem remove_after (h : Chain null next head (l₁ ++ y :: x :: l₂)) :
    Chain null (Function.update next y (next x)) head (l₁ ++ y :: l₂) := by
  have hlist : l₁ ++ y :: x :: l₂ = (l₁ ++ [y]) ++ x :: l₂ := by simp
  have hlist' : l₁ ++ y :: l₂ = (l₁ ++ [y]) ++ l₂ := by simp
  rw [hlist] at h
  rw [hlist']
  have hnodup := h.nodup
  rw [List.nodup_middle, List.nodup_cons] at hnodup
  obtain ⟨hx, hothers⟩ := hnodup
  obtain ⟨hbefore, hafter⟩ := h.path.middle
  have hy : y ∉ l₁ ∧ y ∉ l₂ := by
    constructor
    · exact fun hmem => (List.nodup_append.mp (List.nodup_append.mp hothers).1).2.2 y hmem y
        List.mem_cons_self rfl
    · exact fun hmem => (List.nodup_append.mp hothers).2.2 y
        (List.mem_append_right _ List.mem_cons_self) y hmem rfl
  refine ⟨hothers, ?_, ?_⟩
  · intro hmem
    apply h.valid
    rcases List.mem_append.mp hmem with hmem | hmem
    · exact List.mem_append_left _ hmem
    · exact List.mem_append_right _ (List.mem_cons_of_mem x hmem)
  · exact Path.append_iff.mpr ⟨next x, hbefore.redirect hy.1 (next x), hafter.update hy.2⟩

end Chain

namespace DoubleChain

theorem nil (null : α) (next prev : α → α) : DoubleChain null next prev null null [] :=
  ⟨Chain.nil null next, Chain.nil null prev⟩

theorem ends (h : DoubleChain null next prev head tail l) : head = null ↔ tail = null := by
  rw [h.forward.head_eq_null, h.backward.head_eq_null, List.reverse_eq_nil_iff]

/-- No element leads back to itself. -/
theorem prev_ne (h : DoubleChain null next prev head tail (l₁ ++ x :: l₂)) : prev x ≠ x := by
  have hback : Chain null prev tail (l₂.reverse ++ x :: l₁.reverse) := by
    simpa using h.backward
  intro heq
  rcases List.eq_nil_or_concat' l₁ with rfl | ⟨l, y, rfl⟩
  · have hnull : prev x = null := hback.next_eq_null.mpr rfl
    exact h.forward.valid (by simp [← hnull, heq])
  · have hy : prev x = y := by
      have hpath : Chain null prev tail (l₂.reverse ++ x :: y :: l.reverse) := by
        simpa using hback
      exact hpath.next_eq
    have hnodup := h.forward.nodup
    rw [← hy, heq] at hnodup
    exact (List.nodup_append.mp hnodup).2.2 x (by simp) x (by simp) rfl

variable [DecidableEq α]

/-- Put a new element behind the last one. -/
theorem append (h : DoubleChain null next prev head tail l) (hx : x ∉ l) (hnull : x ≠ null)
    (hend : next x = null) (hback : prev x = tail) :
    DoubleChain null (if head = null then next else Function.update next tail x) prev
      (if head = null then x else head) x (l ++ [x]) := by
  have hbackward : Chain null prev x (l ++ [x]).reverse := by
    rw [List.reverse_append, List.reverse_singleton, List.singleton_append]
    refine ⟨List.nodup_cons.mpr ⟨by simpa using hx, h.backward.nodup⟩, ?_, rfl, ?_⟩
    · intro hmem
      rcases List.mem_cons.mp hmem with heq | hold
      · exact hnull heq.symm
      · exact h.backward.valid hold
    · rw [hback]
      exact h.backward.path
  rcases List.eq_nil_or_concat' l with rfl | ⟨l, y, rfl⟩
  · rw [if_pos (h.forward.head_eq_null.mpr rfl), if_pos (h.forward.head_eq_null.mpr rfl)]
    exact ⟨⟨List.nodup_singleton x, fun hmem => hnull (List.mem_singleton.mp hmem).symm,
      rfl, hend⟩, hbackward⟩
  · have hne : head ≠ null := fun heq => by simpa using h.forward.head_eq_null.mp heq
    have htail : tail = y := by
      apply Chain.head_eq (l := l.reverse)
      simpa using h.backward
    rw [if_neg hne, if_neg hne, htail]
    exact ⟨h.forward.append hx hnull hend, hbackward⟩

/-- Take an element out: those around it are linked with each other, or become the ends. -/
theorem unlink (h : DoubleChain null next prev head tail (l₁ ++ x :: l₂)) :
    DoubleChain null
      (if prev x = null then next else Function.update next (prev x) (next x))
      (if next x = null then prev else Function.update prev (next x) (prev x))
      (if prev x = null then next x else head) (if next x = null then prev x else tail)
      (l₁ ++ l₂) := by
  have hback : Chain null prev tail (l₂.reverse ++ x :: l₁.reverse) := by
    simpa using h.backward
  have hprev : prev x = null ↔ l₁ = [] := by
    rw [hback.next_eq_null, List.reverse_eq_nil_iff]
  have hnext : next x = null ↔ l₂ = [] := h.forward.next_eq_null
  constructor
  · rcases List.eq_nil_or_concat' l₁ with rfl | ⟨l, y, rfl⟩
    · rw [if_pos (hprev.mpr rfl), if_pos (hprev.mpr rfl)]
      exact h.forward.remove_first
    · have hne : prev x ≠ null := fun heq => by simpa using hprev.mp heq
      have hy : prev x = y := by
        have hpath : Chain null prev tail (l₂.reverse ++ x :: y :: l.reverse) := by
          simpa using hback
        exact hpath.next_eq
      rw [if_neg hne, if_neg hne, hy, List.append_assoc]
      apply Chain.remove_after
      simpa using h.forward
  · rw [List.reverse_append]
    cases l₂ with
    | nil =>
        rw [if_pos (hnext.mpr rfl), if_pos (hnext.mpr rfl)]
        exact hback.remove_first
    | cons y l =>
        have hne : next x ≠ null := fun heq => by simpa using hnext.mp heq
        have hy : next x = y := h.forward.next_eq
        rw [if_neg hne, if_neg hne, hy, List.reverse_cons, List.append_assoc]
        apply Chain.remove_after
        simpa using hback

end DoubleChain

end Linked

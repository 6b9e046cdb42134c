import Mathlib.Data.List.Nodup
import Mathlib.Logic.Function.Basic

/-!
# Linked lists in memory

Lists whose elements lie in memory and hold the link to the next one. A link is
a function on addresses; `Path` relates it to the list of addresses that it
leads along. A chain ends at `null`, a ring at its own head.
-/

namespace Linked

variable {α β : Type} {next next' : α → α} {a b x y z null head : α} {l l' l₁ l₂ : List α}

/-- From `a` the links lead along `l` and then to `z`. -/
def Path (next : α → α) : α → List α → α → Prop
  | a, [], z => a = z
  | a, x :: l, z => a = x ∧ Path next (next x) l z

namespace Path

@[simp] theorem nil_iff : Path next a [] z ↔ a = z := Iff.rfl

@[simp] theorem cons_iff : Path next a (x :: l) z ↔ a = x ∧ Path next (next x) l z := Iff.rfl

theorem append_iff : Path next a (l₁ ++ l₂) z ↔ ∃ b, Path next a l₁ b ∧ Path next b l₂ z := by
  induction l₁ generalizing a with
  | nil =>
      constructor
      · exact fun h => ⟨a, rfl, h⟩
      · rintro ⟨b, rfl, h⟩
        exact h
  | cons x l₁ ih =>
      rw [List.cons_append, cons_iff, ih]
      constructor
      · rintro ⟨rfl, b, h₁, h₂⟩
        exact ⟨b, ⟨rfl, h₁⟩, h₂⟩
      · rintro ⟨b, ⟨rfl, h₁⟩, h₂⟩
        exact ⟨rfl, b, h₁, h₂⟩

/-- Only the links of the elements matter. -/
theorem congr (h : ∀ x ∈ l, next' x = next x) (hpath : Path next a l z) : Path next' a l z := by
  induction l generalizing a with
  | nil => exact hpath
  | cons x l ih =>
      obtain ⟨rfl, hrest⟩ := hpath
      refine ⟨rfl, ?_⟩
      rw [h a List.mem_cons_self]
      exact ih (fun y hy => h y (List.mem_cons_of_mem a hy)) hrest

theorem middle (h : Path next a (l₁ ++ x :: l₂) z) :
    Path next a l₁ x ∧ Path next (next x) l₂ z := by
  obtain ⟨b, h₁, rfl, h₂⟩ := append_iff.mp h
  exact ⟨h₁, h₂⟩

/-- A path to an element that it does not pass is the only one. -/
theorem unique (h : Path next a l z) (h' : Path next a l' z) (hz : z ∉ l) (hz' : z ∉ l') :
    l = l' := by
  induction l generalizing a l' with
  | nil =>
      cases l' with
      | nil => rfl
      | cons x l' =>
          obtain rfl : a = z := h
          obtain ⟨rfl, -⟩ := h'
          exact absurd List.mem_cons_self hz'
  | cons x l ih =>
      obtain ⟨rfl, hrest⟩ := h
      cases l' with
      | nil =>
          obtain rfl : a = z := h'
          exact absurd List.mem_cons_self hz
      | cons y l' =>
          obtain ⟨rfl, hrest'⟩ := h'
          rw [List.mem_cons, not_or] at hz hz'
          rw [ih hrest hrest' hz.2 hz'.2]

variable [DecidableEq α]

theorem update (hx : x ∉ l) (h : Path next a l z) : Path (Function.update next x y) a l z := by
  apply h.congr
  rintro w hw
  apply Function.update_of_ne
  rintro rfl
  exact hx hw

/-- Let the last element lead elsewhere. -/
theorem redirect (hx : x ∉ l) (h : Path next a (l ++ [x]) z) (b : α) :
    Path (Function.update next x b) a (l ++ [x]) b := by
  obtain ⟨hpath, -⟩ := h.middle
  rw [append_iff]
  exact ⟨x, hpath.update hx, rfl, Function.update_self ..⟩

end Path

/-! ## Walks -/

/-- The first element from `a` on that `stop` accepts. -/
def walk (stop : α → Bool) (next : α → α) : Nat → α → Option α
  | 0, _ => none
  | n + 1, a => if stop a = true then some a else walk stop next n (next a)

theorem walk_eq_some {stop : α → Bool} {n : Nat} (h : Path next a (l₁ ++ x :: l₂) z)
    (hskip : ∀ y ∈ l₁, stop y = false) (hstop : stop x = true) (hn : l₁.length < n) :
    walk stop next n a = some x := by
  induction l₁ generalizing a n with
  | nil =>
      obtain ⟨rfl, -⟩ := h
      cases n with
      | zero => exact absurd hn (Nat.not_lt_zero _)
      | succ n => rw [walk, if_pos hstop]
  | cons y l₁ ih =>
      obtain ⟨rfl, hrest⟩ := h
      cases n with
      | zero => exact absurd hn (Nat.not_lt_zero _)
      | succ n =>
          rw [walk, if_neg (by simp [hskip a List.mem_cons_self])]
          exact ih hrest (fun y hy => hskip y (List.mem_cons_of_mem a hy))
            (Nat.lt_of_succ_lt_succ hn)

/-- Fold over the elements from `t` on, until the links lead to `head`. -/
def foldRing [DecidableEq α] (f : β → α → β) (next : α → α) (head : α) : Nat → α → β → Option β
  | 0, _, _ => none
  | n + 1, t, acc =>
      if next t = head then some (f acc t) else foldRing f next head n (next t) (f acc t)

theorem foldRing_eq_some [DecidableEq α] {f : β → α → β} {acc : β} {t : α} {n : Nat}
    (h : Path next t (x :: l) head) (hhead : head ∉ l) (hn : l.length < n) :
    foldRing f next head n t acc = some ((x :: l).foldl f acc) := by
  induction l generalizing t x n acc with
  | nil =>
      obtain ⟨rfl, hend⟩ := h
      have hback : next t = head := hend
      cases n with
      | zero => exact absurd hn (Nat.not_lt_zero _)
      | succ n =>
          rw [foldRing, if_pos hback]
          rfl
  | cons y l ih =>
      obtain ⟨rfl, hrest⟩ := h
      have hne : next t ≠ head := by
        rintro rfl
        exact hhead (hrest.1 ▸ List.mem_cons_self)
      cases n with
      | zero => exact absurd hn (Nat.not_lt_zero _)
      | succ n =>
          rw [foldRing, if_neg hne]
          exact ih hrest (fun hmem => hhead (List.mem_cons_of_mem y hmem))
            (Nat.lt_of_succ_lt_succ hn)

/-! ## Rings -/

/-- The links lead from `head` along `l` back to `head`; an empty ring has the head `null`. -/
structure Ring (null : α) (next : α → α) (head : α) (l : List α) : Prop where
  nodup : l.Nodup
  valid : null ∉ l
  empty : l = [] → head = null
  path : l ≠ [] → Path next head l head

/-- Links along a list lead to the next elements, the last one apart. -/
theorem Path.next_mem (h : Path next a (l ++ [x]) z) (hy : y ∈ l) : next y ∈ (l ++ [x]).tail := by
  induction l generalizing a with
  | nil => cases hy
  | cons w l ih =>
      obtain ⟨rfl, hrest⟩ := h
      rw [List.cons_append, List.tail_cons]
      rcases List.mem_cons.mp hy with rfl | hmem
      · cases l with
        | nil => exact hrest.1 ▸ List.mem_cons_self
        | cons v l => exact hrest.1 ▸ List.mem_cons_self
      · exact List.mem_of_mem_tail (ih hrest hmem)

/-- A closed path may be begun at any of its elements. -/
theorem Path.rotate (h : Path next a (l₁ ++ l₂) a) :
    ∃ b, Path next a l₁ b ∧ Path next b (l₂ ++ l₁) b := by
  obtain ⟨b, h₁, h₂⟩ := append_iff.mp h
  exact ⟨b, h₁, append_iff.mpr ⟨a, h₂, h₁⟩⟩

theorem Path.head_eq (h : Path next a (x :: l) z) : a = x := h.1

namespace Ring

theorem nil (null : α) (next : α → α) : Ring null next null [] :=
  ⟨List.nodup_nil, List.not_mem_nil, fun _ => rfl, fun h => absurd rfl h⟩

theorem head_mem (h : Ring null next head l) (hl : l ≠ []) : head ∈ l := by
  cases l with
  | nil => exact absurd rfl hl
  | cons x l => exact (h.path hl).1 ▸ List.mem_cons_self

theorem head_eq_null (h : Ring null next head l) : head = null ↔ l = [] := by
  refine ⟨?_, h.empty⟩
  rintro rfl
  by_contra hl
  exact h.valid (h.head_mem hl)

theorem cons_path (h : Ring null next head (x :: l)) : Path next head (x :: l) head ∧ head ∉ l := by
  have hpath := h.path (List.cons_ne_nil x l)
  exact ⟨hpath, hpath.head_eq ▸ (List.nodup_cons.mp h.nodup).1⟩

theorem congr (h : Ring null next head l) (hnext : ∀ x ∈ l, next' x = next x) :
    Ring null next' head l :=
  ⟨h.nodup, h.valid, h.empty, fun hl => (h.path hl).congr hnext⟩

/-- A fold over all elements comes to an end at the head. -/
theorem fold [DecidableEq α] (h : Ring null next head l) (hl : l ≠ []) {f : β → α → β} (acc : β)
    {n : Nat} (hn : l.length ≤ n) : foldRing f next head n head acc = some (l.foldl f acc) := by
  cases l with
  | nil => exact absurd rfl hl
  | cons x l => exact foldRing_eq_some h.cons_path.1 h.cons_path.2 (Nat.lt_of_succ_le hn)

theorem next_mem (h : Ring null next head l) (hx : x ∈ l) : next x ∈ l := by
  have hl : l ≠ [] := List.ne_nil_of_mem hx
  obtain ⟨l', y, rfl⟩ := List.eq_nil_or_concat'  l |>.resolve_left hl
  have hpath := h.path hl
  rcases List.mem_append.mp hx with hmem | hlast
  · exact List.mem_of_mem_tail (hpath.next_mem hmem)
  · obtain rfl := List.mem_singleton.mp hlast
    rw [hpath.middle.2]
    exact h.head_mem hl

/-- The walk from an element along the ring meets the others in turn and comes back. -/
theorem from_mem (h : Ring null next head (l₁ ++ x :: l₂)) :
    Path next x (x :: l₂ ++ l₁) x := by
  obtain ⟨b, h₁, h₂⟩ := (h.path (by simp)).rotate
  obtain rfl := h₂.head_eq
  exact h₂

/-- What a walk meets at an element of the ring and behind it. -/
theorem turn (h : Ring null next head (l₁ ++ x :: l₂)) :
    head ≠ null ∧ (∀ y l, l₂ = y :: l → next x = y) ∧ x ∉ l₂ := by
  have hne : l₁ ++ x :: l₂ ≠ [] := List.append_ne_nil_of_right_ne_nil l₁ (List.cons_ne_nil x l₂)
  have hnodup := h.nodup
  rw [List.nodup_append, List.nodup_cons] at hnodup
  refine ⟨fun hnull => hne (h.head_eq_null.mp hnull), ?_, hnodup.2.1.1⟩
  rintro y l rfl
  exact (h.path hne).middle.2.head_eq

theorem single (hx : x ≠ null) (hlink : next x = x) : Ring null next x [x] where
  nodup := List.nodup_singleton x
  valid hmem := hx (List.mem_singleton.mp hmem).symm
  empty h := absurd h (List.cons_ne_nil x [])
  path _ := ⟨rfl, hlink⟩

/-- The links hold one ring. -/
theorem unique (h : Ring null next head l) (h' : Ring null next head l') : l = l' := by
  cases l with
  | nil => exact (h'.head_eq_null.mp (h.empty rfl)).symm
  | cons x l =>
      cases l' with
      | nil => exact h.head_eq_null.mp (h'.empty rfl)
      | cons x' l' =>
          obtain ⟨⟨rfl, hpath⟩, hout⟩ := h.cons_path
          obtain ⟨⟨rfl, hpath'⟩, hout'⟩ := h'.cons_path
          rw [hpath.unique hpath' hout hout']

variable [DecidableEq α]

theorem walk_before (h : Path next x (x :: l ++ [y]) x) (hx : x ∉ l ++ [y]) {n : Nat}
    (hn : l.length + 1 < n) : walk (fun p => decide (next p = x)) next n x = some y := by
  have hpath : Path next x ((x :: l) ++ y :: []) x := h
  apply walk_eq_some hpath
  · intro w hw
    have hmem := h.next_mem hw
    apply decide_eq_false
    rintro heq
    rw [heq] at hmem
    exact hx hmem
  · exact decide_eq_true hpath.middle.2
  · exact hn

/-- The last element is the one whose link leads back to the head. -/
theorem walk_last (h : Ring null next head (l ++ [y])) {n : Nat} (hn : l.length < n) :
    walk (fun p => decide (next p = head)) next n head = some y := by
  have hpath := h.path (List.append_ne_nil_of_right_ne_nil l (List.cons_ne_nil y []))
  apply walk_eq_some hpath
  · intro w hw
    have hmem := hpath.next_mem hw
    apply decide_eq_false
    rintro heq
    rw [heq] at hmem
    -- the head comes first and is not met again
    cases l with
    | nil => cases hw
    | cons x l =>
        obtain rfl := hpath.head_eq
        exact (List.nodup_cons.mp h.nodup).1 hmem
  · exact decide_eq_true hpath.middle.2
  · exact hn

/-- Put a new element behind the last one. -/
theorem push (h : Ring null next head (l ++ [y])) (hx : x ∉ l ++ [y]) (hnull : x ≠ null) :
    Ring null (Function.update (Function.update next y x) x head) head (l ++ [y] ++ [x]) where
  nodup := List.nodup_append.mpr ⟨h.nodup, List.nodup_singleton x, by
    rintro a ha b hb rfl
    exact hx (List.mem_singleton.mp hb ▸ ha)⟩
  valid hmem := by
    rcases List.mem_append.mp hmem with hold | hnew
    · exact h.valid hold
    · exact hnull (List.mem_singleton.mp hnew).symm
  empty hnil := absurd hnil (List.append_ne_nil_of_right_ne_nil _ (List.cons_ne_nil x []))
  path _ := by
    have hpath := h.path (List.append_ne_nil_of_right_ne_nil l (List.cons_ne_nil y []))
    have hlast : y ∉ l := fun hy => (List.nodup_append.mp h.nodup).2.2 y hy y List.mem_cons_self rfl
    rw [Path.append_iff]
    exact ⟨x, (hpath.redirect hlast x).update hx, rfl, Function.update_self ..⟩

/-- Take an element that is not alone out of the ring: its predecessor `y`
leads to its successor, and so does the head if it was the element. -/
theorem unlink (h : Ring null next head (l₁ ++ x :: l₂)) {l : List α}
    (hlast : l₂ ++ l₁ = l ++ [y]) :
    Ring null (Function.update next y (next x)) (if head = x then next x else head) (l₁ ++ l₂) := by
  have hnodup := h.nodup
  rw [List.nodup_middle, List.nodup_cons, ← List.nodup_append_comm] at hnodup
  obtain ⟨hx, hothers⟩ := hnodup
  have hround : Path next (next x) (l ++ [y]) x := hlast ▸ h.from_mem.2
  have hy : y ∉ l := by
    rw [hlast] at hothers
    exact fun hmem => (List.nodup_append.mp hothers).2.2 y hmem y List.mem_cons_self rfl
  obtain ⟨b, hsecond, hpath⟩ := (hlast ▸ hround.redirect hy (next x)).rotate
  have hhead : b = if head = x then next x else head := by
    cases l₁ with
    | nil =>
        obtain rfl := (h.path (List.cons_ne_nil x l₂)).head_eq
        rw [if_pos rfl]
        cases l₂ with
        | nil => exact hsecond.symm
        | cons z l₂ => exact hpath.head_eq.trans hsecond.head_eq.symm
    | cons a l₁ =>
        have hfirst := (h.path (List.cons_ne_nil a (l₁ ++ x :: l₂))).head_eq
        rw [if_neg (fun heq => hx (by rw [← heq, hfirst]; exact List.mem_cons_self))]
        exact hpath.head_eq.trans hfirst.symm
  refine ⟨(List.nodup_append_comm).mp hothers, ?_, ?_, fun _ => hhead ▸ hpath⟩
  · intro hmem
    apply h.valid
    rcases List.mem_append.mp hmem with hmem | hmem
    · exact List.mem_append_left _ hmem
    · exact List.mem_append_right _ (List.mem_cons_of_mem x hmem)
  · intro hnil
    rw [List.append_eq_nil_iff] at hnil
    rw [hnil.1, hnil.2] at hlast
    cases l <;> cases hlast

end Ring

/-! ## Chains -/

/-- The links lead from `head` along `l` to `null`. -/
structure Chain (null : α) (next : α → α) (head : α) (l : List α) : Prop where
  nodup : l.Nodup
  valid : null ∉ l
  path : Path next head l null

namespace Chain

theorem nil (null : α) (next : α → α) : Chain null next null [] :=
  ⟨List.nodup_nil, List.not_mem_nil, rfl⟩

theorem head_eq_null (h : Chain null next head l) : head = null ↔ l = [] := by
  cases l with
  | nil => exact iff_of_true h.path rfl
  | cons x l =>
      refine iff_of_false ?_ (List.cons_ne_nil x l)
      rintro rfl
      exact h.valid (h.path.head_eq ▸ List.mem_cons_self)

theorem congr (h : Chain null next head l) (hnext : ∀ x ∈ l, next' x = next x) :
    Chain null next' head l :=
  ⟨h.nodup, h.valid, h.path.congr hnext⟩

theorem tail (h : Chain null next head (x :: l)) : Chain null next (next x) l :=
  ⟨(List.nodup_cons.mp h.nodup).2, fun hmem => h.valid (List.mem_cons_of_mem x hmem), h.path.2⟩

theorem head_eq (h : Chain null next head (x :: l)) : head = x := h.path.head_eq

variable [DecidableEq α]

theorem push (h : Chain null next head l) (hx : x ∉ l) (hnull : x ≠ null) :
    Chain null (Function.update next x head) x (x :: l) where
  nodup := List.nodup_cons.mpr ⟨hx, h.nodup⟩
  valid hmem := by
    rcases List.mem_cons.mp hmem with heq | hold
    · exact hnull heq.symm
    · exact h.valid hold
  path := ⟨rfl, by rw [Function.update_self]; exact h.path.update hx⟩

/-- Put a new element behind the last one. -/
theorem append (h : Chain null next head (l ++ [y])) (hx : x ∉ l ++ [y]) (hnull : x ≠ null)
    (hend : next x = null) : Chain null (Function.update next y x) head (l ++ [y] ++ [x]) where
  nodup := List.nodup_append.mpr ⟨h.nodup, List.nodup_singleton x, by
    rintro a ha b hb rfl
    exact hx (List.mem_singleton.mp hb ▸ ha)⟩
  valid hmem := by
    rcases List.mem_append.mp hmem with hold | hnew
    · exact h.valid hold
    · exact hnull (List.mem_singleton.mp hnew).symm
  path := by
    have hlast : y ∉ l := fun hy => (List.nodup_append.mp h.nodup).2.2 y hy y List.mem_cons_self rfl
    have hne : x ≠ y := fun heq => hx (heq ▸ List.mem_append_right l List.mem_cons_self)
    rw [Path.append_iff]
    refine ⟨x, h.path.redirect hlast x, rfl, ?_⟩
    rw [Function.update_of_ne hne]
    exact hend

end Chain

/-- The place that holds a link: the head, or an element that has a next one. -/
inductive Link (α : Type) where
  | first
  | after (p : α)
  deriving DecidableEq

namespace Link

variable [DecidableEq α]

/-- Let the link in a place lead to `y`: the head and the links after that. -/
def set (link : Link α) (y : α) (head : α) (next : α → α) : α × (α → α) :=
  match link with
  | first => (y, next)
  | after p => (head, Function.update next p y)

/-- The place whose link leads to `x`, if any does: `link = &head`, and as long
as `*link` is another element, `link = &(*link)->next`. -/
def find (null : α) (next : α → α) (x : α) : Nat → Link α → α → Option (Option (Link α))
  | 0, _, _ => none
  | n + 1, link, a =>
      if a = null then some none
      else if a = x then some (some link)
      else find null next x n (after a) (next a)

end Link

variable [DecidableEq α]

theorem Link.find_eq_some {n : Nat} {link : Link α} (h : Path next a (l₁ ++ x :: l₂) null)
    (hnull : null ∉ l₁ ++ x :: l₂) (hx : x ∉ l₁) (hn : l₁.length < n) :
    Link.find null next x n link a = some (some (l₁.getLast?.elim link after)) := by
  induction l₁ generalizing a n link with
  | nil =>
      obtain rfl := h.head_eq
      cases n with
      | zero => exact absurd hn (Nat.not_lt_zero _)
      | succ n =>
          have hne : a ≠ null := by
            rintro rfl
            exact hnull List.mem_cons_self
          rw [Link.find, if_neg hne, if_pos rfl]
          rfl
  | cons y l₁ ih =>
      obtain ⟨rfl, hrest⟩ := h
      rw [List.cons_append, List.mem_cons, not_or] at hnull
      rw [List.mem_cons, not_or] at hx
      cases n with
      | zero => exact absurd hn (Nat.not_lt_zero _)
      | succ n =>
          rw [Link.find, if_neg (Ne.symm hnull.1), if_neg (Ne.symm hx.1),
            ih hrest hnull.2 hx.2 (Nat.lt_of_succ_lt_succ hn)]
          cases l₁ with
          | nil => rfl
          | cons z l₁ => rw [List.getLast?_cons_cons]; rfl

theorem Chain.unlink (h : Chain null next head l) (hx : x ∈ l) {n : Nat} (hn : l.length < n) :
    ∃ link, Link.find null next x n .first head = some (some link) ∧
      Chain null (link.set (next x) head next).2 (link.set (next x) head next).1 (l.erase x) ∧
      ∀ p, link = .after p → p ∈ l.erase x := by
  obtain ⟨l₁, l₂, rfl⟩ := List.append_of_mem hx
  have hfirst : x ∉ l₁ := fun hmem =>
    (List.nodup_append.mp h.nodup).2.2 x hmem x List.mem_cons_self rfl
  have hlen : l₁.length < n := by
    rw [List.length_append] at hn
    exact Nat.lt_of_le_of_lt (Nat.le_add_right _ _) hn
  have herase : (l₁ ++ x :: l₂).erase x = l₁ ++ l₂ := by
    rw [List.erase_append_right _ hfirst, List.erase_cons_head]
  have hnodup : (l₁ ++ l₂).Nodup := by
    have := h.nodup
    rw [List.nodup_middle] at this
    exact (List.nodup_cons.mp this).2
  have hvalid : null ∉ l₁ ++ l₂ := by
    intro hmem
    apply h.valid
    rcases List.mem_append.mp hmem with hmem | hmem
    · exact List.mem_append_left _ hmem
    · exact List.mem_append_right _ (List.mem_cons_of_mem x hmem)
  rw [herase]
  refine ⟨_, Link.find_eq_some h.path h.valid hfirst hlen, ?_⟩
  rcases List.eq_nil_or_concat' l₁ with rfl | ⟨l, p, rfl⟩
  · exact ⟨⟨hnodup, hvalid, h.path.middle.2⟩, nofun⟩
  · rw [List.getLast?_concat]
    have hp : p ∉ l₂ ∧ p ∉ l := by
      constructor
      · exact fun hmem => (List.nodup_append.mp hnodup).2.2 p
          (List.mem_append_right l List.mem_cons_self) p hmem rfl
      · exact fun hmem => (List.nodup_append.mp (List.nodup_append.mp hnodup).1).2.2 p hmem p
          List.mem_cons_self rfl
    obtain ⟨hbefore, hafter⟩ := h.path.middle
    refine ⟨⟨hnodup, hvalid, ?_⟩, ?_⟩
    · exact Path.append_iff.mpr ⟨next x, hbefore.redirect hp.2 (next x), hafter.update hp.1⟩
    · rintro q heq
      obtain rfl := Link.after.inj heq
      exact List.mem_append_left _ (List.mem_append_right l List.mem_cons_self)

end Linked

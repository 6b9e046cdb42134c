import Mathlib.Algebra.Ring.Nat
import Mathlib.Data.List.Basic

/-!
# Slots in intervals

Items that occupy disjoint intervals of slots, from the left to the right: what
a walk along the slots meets, and how many slots are used.
-/

namespace Intervals

variable {α : Type} {start length : α → Nat} {used : Nat → Bool} {lo hi i : Nat} {a : α}
  {items : List α}

/-- Slot `i` belongs to `a`. -/
def Covers (start length : α → Nat) (a : α) (i : Nat) : Prop :=
  start a ≤ i ∧ i < start a + length a

/-- From slot `lo` to slot `hi` the used slots are those of `items`, in this order. -/
def Laid (start length : α → Nat) (used : Nat → Bool) (hi : Nat) : Nat → List α → Prop
  | lo, [] => ∀ i, lo ≤ i → i < hi → used i = false
  | lo, a :: rest =>
      lo ≤ start a ∧ 0 < length a ∧ start a + length a ≤ hi ∧
        (∀ i, lo ≤ i → i < start a → used i = false) ∧
        (∀ i, Covers start length a i → used i = true) ∧
        Laid start length used hi (start a + length a) rest

namespace Laid

/-- Nothing is laid behind the end. -/
theorem eq_nil (h : Laid start length used hi lo items) (hlo : hi ≤ lo) : items = [] := by
  cases items with
  | nil => rfl
  | cons a rest =>
      obtain ⟨hstart, hlength, hend, -⟩ := h
      omega

/-- A slot that is not used is not where the first item starts. -/
theorem succ (h : Laid start length used hi lo items) (hfree : used lo = false) :
    Laid start length used hi (lo + 1) items := by
  cases items with
  | nil => exact fun i hlo => h i (by omega)
  | cons a rest =>
      obtain ⟨hstart, hlength, hend, hbefore, hcovered, hrest⟩ := h
      have hne : start a ≠ lo := by
        intro heq
        rw [hcovered lo ⟨by omega, by omega⟩] at hfree
        cases hfree
      exact ⟨by omega, hlength, hend, fun i hlo => hbefore i (by omega), hcovered, hrest⟩

/-- A used slot at which no item has begun is the start of the first one. -/
theorem head_of_used (h : Laid start length used hi lo items) (hlo : lo < hi)
    (hused : used lo = true) : ∃ a rest, items = a :: rest ∧ start a = lo ∧ 0 < length a ∧
      Laid start length used hi (lo + length a) rest := by
  cases items with
  | nil =>
      rw [h lo (Nat.le_refl lo) hlo] at hused
      cases hused
  | cons a rest =>
      obtain ⟨hstart, hlength, -, hbefore, -, hrest⟩ := h
      have heq : start a = lo := by
        by_contra hne
        rw [hbefore lo (Nat.le_refl lo) (by omega)] at hused
        cases hused
      exact ⟨a, rest, rfl, heq, hlength, by rwa [heq] at hrest⟩

/-- Every item starts behind `lo`. -/
theorem le_start (h : Laid start length used hi lo items) (ha : a ∈ items) : lo ≤ start a := by
  induction items generalizing lo with
  | nil => cases ha
  | cons b rest ih =>
      obtain ⟨hstart, -, -, -, -, hrest⟩ := h
      cases ha with
      | head => exact hstart
      | tail _ ha =>
          have := ih hrest ha
          omega

/-- The items are listed from the left to the right. -/
theorem pairwise (h : Laid start length used hi lo items) :
    items.Pairwise fun a b => start a < start b := by
  induction items generalizing lo with
  | nil => exact .nil
  | cons a rest ih =>
      obtain ⟨-, hlength, -, -, -, hrest⟩ := h
      refine List.pairwise_cons.mpr ⟨fun b hb => ?_, ih hrest⟩
      have := hrest.le_start hb
      omega

/-- The slots taken by the items are at most those there are. -/
theorem sum_le (h : Laid start length used hi lo items) (hlo : lo ≤ hi) :
    lo + (items.map length).sum ≤ hi := by
  induction items generalizing lo with
  | nil => simpa using hlo
  | cons a rest ih =>
      obtain ⟨hstart, -, hend, -, -, hrest⟩ := h
      have := ih hrest hend
      simp only [List.map_cons, List.sum_cons]
      omega

end Laid

/-! ## Counting -/

theorem countP_range' (hlo : lo ≤ i) (hhi : i ≤ hi) :
    (List.range' lo (hi - lo)).countP used =
      (List.range' lo (i - lo)).countP used + (List.range' i (hi - i)).countP used := by
  rw [← List.countP_append]
  congr 1
  obtain ⟨n, rfl⟩ := Nat.exists_eq_add_of_le hlo
  rw [Nat.add_sub_cancel_left, List.range'_append_1]
  congr 1
  omega

theorem countP_range'_of_free (h : ∀ i, lo ≤ i → i < hi → used i = false) :
    (List.range' lo (hi - lo)).countP used = 0 := by
  refine List.countP_eq_zero.mpr fun i hi' => ?_
  rw [List.mem_range'_1] at hi'
  rw [h i hi'.1 (by omega)]
  exact Bool.false_ne_true

theorem countP_range'_of_used (h : ∀ i, lo ≤ i → i < hi → used i = true) :
    (List.range' lo (hi - lo)).countP used = hi - lo := by
  rw [List.countP_eq_length.mpr, List.length_range']
  intro i hi'
  rw [List.mem_range'_1] at hi'
  exact h i hi'.1 (by omega)

/-- The used slots are as many as the items take. -/
theorem Laid.countP (h : Laid start length used hi lo items) (hlo : lo ≤ hi) :
    (List.range' lo (hi - lo)).countP used = (items.map length).sum := by
  induction items generalizing lo with
  | nil => exact countP_range'_of_free h
  | cons a rest ih =>
      obtain ⟨hstart, -, hend, hbefore, hcovered, hrest⟩ := h
      -- the free slots in front of `a`, those of `a`, and what is behind
      have hfree := countP_range'_of_free hbefore
      have htaken : (List.range' (start a) (start a + length a - start a)).countP used =
          start a + length a - start a :=
        countP_range'_of_used fun i hlo hhi => hcovered i ⟨hlo, hhi⟩
      have hafter := ih hrest hend
      rw [countP_range' hstart (by omega), hfree,
        countP_range' (Nat.le_add_right _ (length a)) hend,
        htaken, hafter, List.map_cons, List.sum_cons]
      omega

/-! ## Laying out -/

/-- Items listed from the left to the right that cover the used slots are laid out. -/
theorem laid_of_pairwise
    (hlength : ∀ a ∈ items, 0 < length a ∧ lo ≤ start a ∧ start a + length a ≤ hi)
    (hsorted : items.Pairwise fun a b => start a + length a ≤ start b)
    (hused : ∀ i, lo ≤ i → i < hi → (used i = true ↔ ∃ a ∈ items, Covers start length a i)) :
    Laid start length used hi lo items := by
  induction items generalizing lo with
  | nil =>
      intro i hlo hhi
      rw [Bool.eq_false_iff, ne_eq, hused i hlo hhi]
      rintro ⟨a, ha, -⟩
      cases ha
  | cons a rest ih =>
      obtain ⟨hbehind, hsorted'⟩ := List.pairwise_cons.mp hsorted
      obtain ⟨hpos, hstart, hend⟩ := hlength a (List.mem_cons_self ..)
      refine ⟨hstart, hpos, hend, fun i hlo hlt => ?_, fun i hcovers => ?_, ih ?_ hsorted' ?_⟩
      · rw [Bool.eq_false_iff, ne_eq, hused i hlo (by omega)]
        rintro ⟨b, hb, hcovers⟩
        unfold Covers at hcovers
        cases hb with
        | head => omega
        | tail _ hb =>
            have := hbehind b hb
            omega
      · unfold Covers at hcovers
        exact (hused i (by omega) (by omega)).mpr ⟨a, List.mem_cons_self .., hcovers⟩
      · intro b hb
        obtain ⟨hposB, -, hendB⟩ := hlength b (List.mem_cons_of_mem _ hb)
        exact ⟨hposB, hbehind b hb, hendB⟩
      · intro i hlo hhi
        rw [hused i (by omega) hhi]
        constructor
        · rintro ⟨b, hb, hcovers⟩
          cases hb with
          | head =>
              unfold Covers at hcovers
              omega
          | tail _ hb => exact ⟨b, hb, hcovers⟩
        · rintro ⟨b, hb, hcovers⟩
          exact ⟨b, List.mem_cons_of_mem _ hb, hcovers⟩

/-- Disjoint items that cover the used slots can be listed from the left to the right. -/
theorem exists_laid
    (hlength : ∀ a ∈ items, 0 < length a ∧ lo ≤ start a ∧ start a + length a ≤ hi)
    (hdisjoint : items.Pairwise fun a b =>
      start a + length a ≤ start b ∨ start b + length b ≤ start a)
    (hused : ∀ i, lo ≤ i → i < hi → (used i = true ↔ ∃ a ∈ items, Covers start length a i)) :
    ∃ sorted : List α, sorted.Perm items ∧ Laid start length used hi lo sorted := by
  let le (a b : α) : Bool := start a ≤ start b
  have hperm : (items.mergeSort le).Perm items := List.mergeSort_perm items le
  have hordered : (items.mergeSort le).Pairwise fun a b => le a b = true := by
    refine List.pairwise_mergeSort ?_ ?_ items
    · intro a b c hab hbc
      simp only [le, decide_eq_true_eq] at hab hbc ⊢
      omega
    · intro a b
      simp only [le, Bool.or_eq_true, decide_eq_true_eq]
      omega
  have hapart := (hperm.pairwise_iff (R := fun a b =>
    start a + length a ≤ start b ∨ start b + length b ≤ start a) fun h => h.symm).mpr hdisjoint
  refine ⟨items.mergeSort le, hperm, laid_of_pairwise ?_ ?_ ?_⟩
  · exact fun a ha => hlength a (hperm.mem_iff.mp ha)
  · refine (hordered.and hapart).imp_of_mem fun {a b} _ hb hab => ?_
    obtain ⟨hle, hdisjoint⟩ := hab
    have hpos := hlength b (hperm.mem_iff.mp hb)
    simp only [le, decide_eq_true_eq] at hle
    omega
  · intro i hlo hhi
    rw [hused i hlo hhi]
    exact exists_congr fun a => and_congr_left fun _ => hperm.mem_iff.symm

end Intervals

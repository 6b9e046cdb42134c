import Mathlib.Data.Finset.Basic

/-!
# Pools of resources

Every resource of a pool is free, or held in one place. Taking a free resource to an empty
place and giving one back keep it so, and no resource is lost or gained.
-/

/-- The resource that is held in a place, and the resources that are free. -/
@[ext] structure Pool (ι R : Type*) where
  held : ι → Option R
  free : Finset R

namespace Pool

variable {ι R : Type*} {P Q : Pool ι R} {i j : ι} {r : R}

structure Valid (P : Pool ι R) : Prop where
  once : ∀ {i j r}, P.held i = some r → P.held j = some r → i = j
  taken : ∀ {i r}, P.held i = some r → r ∉ P.free

/-- The resources of a pool, free or not. -/
def supply (P : Pool ι R) : Set R := {r | r ∈ P.free ∨ ∃ i, P.held i = some r}

theorem mem_supply : r ∈ P.supply ↔ r ∈ P.free ∨ ∃ i, P.held i = some r := Iff.rfl

/-- What is free follows from what there is and what is held. -/
theorem Valid.mem_free_iff (h : P.Valid) :
    r ∈ P.free ↔ r ∈ P.supply ∧ ∀ i, P.held i ≠ some r := by
  constructor
  · intro hfree
    exact ⟨.inl hfree, fun i hheld => h.taken hheld hfree⟩
  · rintro ⟨hfree | ⟨i, hheld⟩, hnone⟩
    · exact hfree
    · exact absurd hheld (hnone i)

theorem Valid.ext (hP : P.Valid) (hQ : Q.Valid) (hheld : P.held = Q.held)
    (hsupply : P.supply = Q.supply) : P = Q := by
  apply Pool.ext hheld
  ext r
  rw [hP.mem_free_iff, hQ.mem_free_iff, hheld, hsupply]

variable [DecidableEq ι] [DecidableEq R]

/-- Take the resource `r` to the place `i`. -/
def take (P : Pool ι R) (i : ι) (r : R) : Pool ι R where
  held := Function.update P.held i (some r)
  free := P.free.erase r

/-- Give back the resource `r` of the place `i`. -/
def give (P : Pool ι R) (i : ι) (r : R) : Pool ι R where
  held := Function.update P.held i none
  free := insert r P.free

theorem held_take : (P.take i r).held j = if j = i then some r else P.held j :=
  Function.update_apply ..

theorem held_give : (P.give i r).held j = if j = i then none else P.held j :=
  Function.update_apply ..

theorem Valid.take (h : P.Valid) (hr : r ∈ P.free) : (P.take i r).Valid where
  once {j k q} hj hk := by
    rw [held_take] at hj hk
    split at hj
    next hji =>
      split at hk
      next hki => rw [hji, hki]
      next => exact absurd hr (h.taken (Option.some.inj hj ▸ hk))
    next =>
      split at hk
      next => exact absurd hr (h.taken (Option.some.inj hk ▸ hj))
      next => exact h.once hj hk
  taken {j q} hj := by
    rw [held_take] at hj
    split at hj
    next =>
      rw [← Option.some.inj hj]
      exact Finset.notMem_erase r P.free
    next => exact fun hin => h.taken hj (Finset.mem_of_mem_erase hin)

theorem supply_take (hr : r ∈ P.free) (hi : P.held i = none) : (P.take i r).supply = P.supply := by
  ext q
  rw [mem_supply, mem_supply]
  constructor
  · rintro (hfree | ⟨j, hj⟩)
    · exact .inl (Finset.mem_of_mem_erase hfree)
    · rw [held_take] at hj
      split at hj
      next => exact .inl (Option.some.inj hj ▸ hr)
      next => exact .inr ⟨j, hj⟩
  · rintro (hfree | ⟨j, hj⟩)
    · by_cases hq : q = r
      · exact .inr ⟨i, by rw [held_take, if_pos rfl, hq]⟩
      · exact .inl (Finset.mem_erase.mpr ⟨hq, hfree⟩)
    · refine .inr ⟨j, ?_⟩
      rw [held_take, if_neg, hj]
      rintro rfl
      rw [hi] at hj
      cases hj

theorem Valid.give (h : P.Valid) (hi : P.held i = some r) : (P.give i r).Valid where
  once {j k q} hj hk := by
    rw [held_give] at hj hk
    split at hj
    next => cases hj
    next =>
      split at hk
      next => cases hk
      next => exact h.once hj hk
  taken {j q} hj := by
    rw [held_give] at hj
    split at hj
    next => cases hj
    next hne =>
      intro hin
      rcases Finset.mem_insert.mp hin with rfl | hfree
      · exact hne (h.once hj hi)
      · exact h.taken hj hfree

theorem supply_give (hi : P.held i = some r) : (P.give i r).supply = P.supply := by
  ext q
  rw [mem_supply, mem_supply]
  constructor
  · rintro (hfree | ⟨j, hj⟩)
    · rcases Finset.mem_insert.mp hfree with rfl | hfree
      · exact .inr ⟨i, hi⟩
      · exact .inl hfree
    · rw [held_give] at hj
      split at hj
      next => cases hj
      next => exact .inr ⟨j, hj⟩
  · rintro (hfree | ⟨j, hj⟩)
    · exact .inl (Finset.mem_insert_of_mem hfree)
    · by_cases hji : j = i
      · rw [hji, hi] at hj
        exact .inl (Finset.mem_insert.mpr (.inl (Option.some.inj hj).symm))
      · exact .inr ⟨j, by rw [held_give, if_neg hji, hj]⟩

end Pool

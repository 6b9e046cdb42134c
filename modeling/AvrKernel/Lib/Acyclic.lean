import Mathlib.Data.Finset.Card
import Mathlib.Logic.Relation

/-!
# Relations without cycles

Steps along a relation that never lead back. Within a finite set there is a rank
that every step lowers, which bounds every walk.
-/

open Relation

/-- No way along the relation leads back to where it began. -/
def Acyclic {α : Type*} (r : α → α → Prop) : Prop := ∀ a, ¬TransGen r a a

namespace Acyclic

variable {α : Type*} {r r' : α → α → Prop} {a b c p : α} {as : Finset α}

theorem of_empty (hempty : ∀ a b, ¬r a b) : Acyclic r := by
  intro a hback
  obtain ⟨b, hstep, -⟩ := TransGen.head'_iff.mp hback
  exact hempty a b hstep

theorem mono (h : Acyclic r) (hsub : ∀ a b, r' a b → r a b) : Acyclic r' :=
  fun a hback => h a (TransGen.mono hsub a a hback)

theorem swap (h : Acyclic r) : Acyclic (Function.swap r) :=
  fun a hback => h a (transGen_swap.mp hback)

/-- There are no cycles among the elements that are on none. -/
theorem restrict (r : α → α → Prop) : Acyclic fun a b => r a b ∧ ¬TransGen r a a := by
  intro a hback
  obtain ⟨b, ⟨-, hnone⟩, -⟩ := TransGen.head'_iff.mp hback
  exact hnone (TransGen.mono (fun _ _ => And.left) a a hback)

/-- A way along one step more than `r` has, from `c` to `p`, uses it or not. -/
theorem transGen_insert (hsub : ∀ a b, r' a b → r a b ∨ a = c ∧ b = p) (h : TransGen r' a b) :
    TransGen r a b ∨ ReflTransGen r a c ∧ ReflTransGen r p b := by
  induction h with
  | single hstep =>
      rcases hsub _ _ hstep with hold | ⟨rfl, rfl⟩
      · exact .inl (.single hold)
      · exact .inr ⟨.refl, .refl⟩
  | tail _ hstep ih =>
      rcases hsub _ _ hstep with hold | ⟨rfl, rfl⟩
      · rcases ih with hway | ⟨hto, hfrom⟩
        · exact .inl (hway.tail hold)
        · exact .inr ⟨hto, hfrom.tail hold⟩
      · rcases ih with hway | ⟨hto, -⟩
        · exact .inr ⟨hway.to_reflTransGen, .refl⟩
        · exact .inr ⟨hto, .refl⟩

/-- One step more closes no cycle if there is no way back. -/
theorem insert (h : Acyclic r) (hback : ¬ReflTransGen r p c)
    (hsub : ∀ a b, r' a b → r a b ∨ a = c ∧ b = p) : Acyclic r' := by
  intro a hcycle
  rcases transGen_insert hsub hcycle with hway | ⟨hto, hfrom⟩
  · exact h a hway
  · exact hback (hfrom.trans hto)

/-! ## The rank -/

open Classical in
/-- How many elements of `as` can be reached from `a`. -/
noncomputable def rank (r : α → α → Prop) (as : Finset α) (a : α) : Nat :=
  (as.filter fun b => TransGen r a b).card

theorem rank_lt (h : Acyclic r) (hstep : r a b) (hb : b ∈ as) : rank r as b < rank r as a := by
  classical
  refine Finset.card_lt_card (Finset.ssubset_iff_subset_ne.mpr ⟨fun x hx => ?_, fun heq => ?_⟩)
  · obtain ⟨hx, hway⟩ := Finset.mem_filter.mp hx
    exact Finset.mem_filter.mpr ⟨hx, TransGen.head hstep hway⟩
  · have hmem : b ∈ as.filter fun x => TransGen r a x :=
      Finset.mem_filter.mpr ⟨hb, .single hstep⟩
    rw [← heq] at hmem
    exact h b (Finset.mem_filter.mp hmem).2

theorem rank_lt_card (h : Acyclic r) (ha : a ∈ as) : rank r as a < as.card := by
  classical
  refine Finset.card_lt_card (Finset.filter_ssubset.mpr ⟨a, ha, h a⟩)

end Acyclic

import AvrKernel.Lib.Linked
import Mathlib.Data.List.Rotate

/-!
# Going around a ring

The elements that one meets on the way around a ring from one element to another,
and what a search finds that begins behind an element.
-/

namespace Linked

variable {α : Type} {next : α → α} {null head w x y z : α} {ring l l₁ l₂ : List α}

/-- Going around from `x`, one meets the elements of `l`, and then `z`. -/
def Between (ring : List α) (x : α) (l : List α) (z : α) : Prop :=
  ∃ rest, ring.IsRotated (x :: l ++ z :: rest)

theorem exists_between (hx : x ∈ ring) (hz : z ∈ ring) (hne : x ≠ z) : ∃ l, Between ring x l z := by
  obtain ⟨l₁, l₂, rfl⟩ := List.append_of_mem hx
  have hmem : z ∈ l₂ ++ l₁ := by
    simp only [List.mem_append, List.mem_cons] at hz ⊢
    rcases hz with hz | rfl | hz
    · exact .inr hz
    · exact absurd rfl hne
    · exact .inl hz
  obtain ⟨l, rest, hsplit⟩ := List.append_of_mem hmem
  refine ⟨l, rest, ?_⟩
  rw [List.cons_append, ← hsplit]
  exact List.isRotated_append

namespace Between

theorem length_le (h : Between ring x l z) : l.length + 2 ≤ ring.length := by
  obtain ⟨rest, h⟩ := h
  rw [h.perm.length_eq]
  simp only [List.length_append, List.length_cons]
  omega

theorem after (h : Between ring x (l₁ ++ y :: l₂) z) : Between ring y l₂ z := by
  obtain ⟨rest, h⟩ := h
  refine ⟨rest ++ x :: l₁, h.trans ?_⟩
  have hsplit : x :: (l₁ ++ y :: l₂) ++ z :: rest = (x :: l₁) ++ (y :: l₂ ++ z :: rest) := by simp
  rw [hsplit]
  refine List.isRotated_append.trans ?_
  simp [List.IsRotated.refl]

/-- The links lead along the way. -/
theorem path (h : Between ring x l z) (hring : Ring null next head ring) :
    ∃ rest, Path next (next x) (l ++ z :: rest) x := by
  obtain ⟨rest, n, hn⟩ := h
  rw [List.rotate_eq_drop_append_take_mod] at hn
  have hx : ring ≠ [] := by
    rintro rfl
    simp at hn
  have hpath := hring.path hx
  rw [← List.take_append_drop (n % ring.length) ring] at hpath
  obtain ⟨b, -, hround⟩ := hpath.rotate
  rw [hn] at hround
  obtain rfl := hround.head_eq
  exact ⟨rest, hround.2⟩

/-- A search from behind `x` that accepts `z` finds `z`, or an element on the way to it. -/
theorem walk (h : Between ring x l z) (hring : Ring null next head ring) (stop : α → Bool)
    (hstop : stop z = true) {n : Nat} (hn : ring.length ≤ n) :
    walk stop next n (next x) = some z ∨
      ∃ l₁ y l₂, l = l₁ ++ y :: l₂ ∧ walk stop next n (next x) = some y := by
  obtain ⟨rest, hpath⟩ := h.path hring
  have hlength := h.length_le
  cases hfind : l.find? stop with
  | none =>
      left
      apply walk_eq_some hpath
      · intro y hy
        simpa using List.find?_eq_none.mp hfind y hy
      · exact hstop
      · omega
  | some y =>
      obtain ⟨haccept, l₁, l₂, rfl, hskip⟩ := List.find?_eq_some_iff_append.mp hfind
      refine .inr ⟨l₁, y, l₂, rfl, ?_⟩
      rw [List.append_assoc] at hpath
      apply walk_eq_some hpath
      · intro w hw
        simpa using hskip w hw
      · exact haccept
      · simp only [List.length_append, List.length_cons] at hlength
        omega

end Between

end Linked

import Mathlib.Data.List.Basic

/-!
# The tokenizer

`tok.c`: cutting a string at the characters of a set. The state of a tokenizer
is the string behind its last token, if there is one. Strings are the lists of
the characters in front of their terminators.
-/

namespace AvrKernel.Util

def isDelimiter (delim : List UInt8) (c : UInt8) : Bool := delim.contains c

/-- The next token and the state behind it. -/
def cstrTokNext (delim : List UInt8) :
    Option (List UInt8) → Option (List UInt8) × Option (List UInt8)
  | none => (none, none)
  | some str =>
      let start := str.dropWhile (isDelimiter delim)
      if start = [] then (none, none)
      else
        let token := start.takeWhile fun c => !isDelimiter delim c
        match start.dropWhile fun c => !isDelimiter delim c with
        | [] => (some token, none)
        | _ :: next => (some token, some next)

/-- The tokens that `n` calls find at most. -/
def tokensOf (delim : List UInt8) : Nat → Option (List UInt8) → List (List UInt8)
  | 0, _ => []
  | n + 1, state =>
      match cstrTokNext delim state with
      | (none, _) => []
      | (some token, next) => token :: tokensOf delim n next

/-- All tokens of a string. -/
def tokens (delim str : List UInt8) : List (List UInt8) :=
  tokensOf delim (str.length + 1) (some str)

/-- The maximal pieces of a string without a delimiter. -/
def segments (delim str : List UInt8) : List (List UInt8) :=
  (str.splitOnP (isDelimiter delim)).filter fun segment => segment ≠ []

variable {delim : List UInt8}

theorem segments_dropWhile (delim str : List UInt8) :
    segments delim (str.dropWhile (isDelimiter delim)) = segments delim str := by
  induction str with
  | nil => rfl
  | cons c str ih =>
      rw [List.dropWhile_cons]
      split
      next hdelim =>
        rw [ih, segments, segments, List.splitOnP_cons_eq_if_modifyHead, if_pos hdelim]
        rfl
      next => rfl

theorem segments_append {token next : List UInt8} {c : UInt8}
    (htoken : ∀ x ∈ token, isDelimiter delim x = false) (hne : token ≠ [])
    (hc : isDelimiter delim c = true) :
    segments delim (token ++ c :: next) = token :: segments delim next := by
  rw [segments, List.splitOnP_append_cons_of_forall_mem htoken c hc]
  simp [segments, hne]

theorem segments_single {token : List UInt8}
    (htoken : ∀ x ∈ token, isDelimiter delim x = false) (hne : token ≠ []) :
    segments delim token = [token] := by
  rw [segments, List.splitOnP_eq_singleton htoken]
  simp [hne]

/-- A call finds the first segment and leaves the string behind it. -/
theorem segments_cstrTokNext (delim str : List UInt8) :
    match cstrTokNext delim (some str) with
    | (none, _) => segments delim str = []
    | (some token, none) => segments delim str = [token]
    | (some token, some next) =>
        segments delim str = token :: segments delim next ∧ next.length < str.length := by
  have hstart := segments_dropWhile delim str
  have hlength : (str.dropWhile (isDelimiter delim)).length ≤ str.length :=
    (List.dropWhile_sublist _).length_le
  simp only [cstrTokNext]
  by_cases hempty : str.dropWhile (isDelimiter delim) = []
  · rw [if_pos hempty]
    rw [hempty] at hstart
    exact hstart.symm
  · rw [if_neg hempty]
    have hhead := List.head_dropWhile_not (isDelimiter delim) hempty
    generalize str.dropWhile (isDelimiter delim) = start at hstart hlength hempty hhead
    rw [← hstart]
    have hsplit := List.takeWhile_append_dropWhile (p := fun c => !isDelimiter delim c) (l := start)
    have htoken : ∀ x ∈ start.takeWhile fun c => !isDelimiter delim c,
        isDelimiter delim x = false := fun x hx => by
      simpa using List.all_eq_true.mp List.all_takeWhile x hx
    have hne : start.takeWhile (fun c => !isDelimiter delim c) ≠ [] := by
      obtain ⟨c, rest, rfl⟩ := List.exists_cons_of_ne_nil hempty
      rw [List.head_cons] at hhead
      simp [hhead]
    cases hrest : start.dropWhile fun c => !isDelimiter delim c with
    | nil =>
        rw [hrest, List.append_nil] at hsplit
        rw [hsplit] at htoken hne ⊢
        exact segments_single htoken hne
    | cons c next =>
        have hc : isDelimiter delim c = true := by
          have hstop := List.head_dropWhile_not (fun c => !isDelimiter delim c)
            (l := start) (by rw [hrest]; exact List.cons_ne_nil _ _)
          simpa [hrest] using hstop
        rw [hrest] at hsplit
        refine ⟨?_, ?_⟩
        · conv_lhs => rw [← hsplit]
          exact segments_append htoken hne hc
        · have hsum := congrArg List.length hsplit
          simp only [List.length_append, List.length_cons] at hsum
          omega

theorem tokensOf_eq {n : Nat} {str : List UInt8} (hn : str.length < n) :
    tokensOf delim n (some str) = segments delim str := by
  induction n generalizing str with
  | zero => omega
  | succ n ih =>
      have hnext := segments_cstrTokNext delim str
      rw [tokensOf]
      generalize cstrTokNext delim (some str) = found at hnext ⊢
      rcases found with ⟨_ | token, _ | next⟩
      · exact hnext.symm
      · exact hnext.symm
      · dsimp only at hnext ⊢
        rw [hnext]
        cases n <;> rfl
      · dsimp only at hnext ⊢
        rw [hnext.1, ih (by omega)]

/-- Tokenizing a string yields its segments in order. -/
theorem tokens_eq (delim str : List UInt8) : tokens delim str = segments delim str :=
  tokensOf_eq (Nat.lt_succ_self _)

end AvrKernel.Util

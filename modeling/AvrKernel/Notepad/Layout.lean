import Mathlib.Data.List.Basic
import Mathlib.Data.UInt
import Mathlib.Tactic.Common

/-!
# The layout of the notepad

`layout_pos_of` and `layout_index_at` of `notepad/procedure.c` walk over the text with
16-bit counters of rows and columns. They are compared with rows and columns that are
natural numbers.
-/

namespace AvrKernel.Notepad

def newline : UInt8 := 10

/-! ## The code -/

/-- The place behind a byte. -/
def advance (maxChars : UInt16) (place : UInt16 × UInt16) (byte : UInt8) : UInt16 × UInt16 :=
  if byte = newline then (place.1 + 1, 0)
  else if place.2 + 1 ≥ maxChars then (place.1 + 1, 0)
  else (place.1, place.2 + 1)

/-- Row and column of a byte. -/
def layoutPosOf (text : List UInt8) (maxChars : UInt16) (targetIdx : Nat) : UInt16 × UInt16 :=
  (text.take targetIdx).foldl (advance maxChars) (0, 0)

/-- The loop of `layout_index_at` from byte `i` on. -/
def indexFrom (maxChars targetRow targetCol : UInt16) :
    List UInt8 → UInt16 × UInt16 → Nat → Nat
  | [], _, i => i
  | byte :: rest, place, i =>
      if place.1 = targetRow ∧ place.2 ≥ targetCol then i
      else if byte = newline ∧ place.1 = targetRow then i
      else indexFrom maxChars targetRow targetCol rest (advance maxChars place byte) (i + 1)

/-- The index next to a place. -/
def layoutIndexAt (text : List UInt8) (maxChars targetRow targetCol : UInt16) : Nat :=
  indexFrom maxChars targetRow targetCol text (0, 0) 0

/-! ## Cells -/

/-- The cell behind a byte. -/
def nextCell (width : Nat) (cell : Nat × Nat) (byte : UInt8) : Nat × Nat :=
  if byte = newline then (cell.1 + 1, 0)
  else if cell.2 + 1 ≥ width then (cell.1 + 1, 0)
  else (cell.1, cell.2 + 1)

/-- The cell of a byte of a text in rows of `width` cells. -/
def cellOf (width : Nat) (text : List UInt8) (i : Nat) : Nat × Nat :=
  (text.take i).foldl (nextCell width) (0, 0)

def rowOf (width : Nat) (text : List UInt8) (i : Nat) : Nat := (cellOf width text i).1
def colOf (width : Nat) (text : List UInt8) (i : Nat) : Nat := (cellOf width text i).2

section Cells

variable {width i j k : Nat} {text : List UInt8}

theorem cellOf_succ (hi : i < text.length) :
    cellOf width text (i + 1) = nextCell width (cellOf width text i) text[i] := by
  rw [cellOf, cellOf, List.take_succ_eq_append_getElem hi, List.foldl_append]
  rfl

@[simp] theorem rowOf_zero : rowOf width text 0 = 0 := rfl
@[simp] theorem colOf_zero : colOf width text 0 = 0 := rfl

/-- A byte after which a row ends. -/
def EndsRow (width : Nat) (text : List UInt8) (i : Nat) : Prop :=
  text[i]? = some newline ∨ colOf width text i + 1 ≥ width

theorem rowOf_succ_of_ends (hi : i < text.length) (h : EndsRow width text i) :
    rowOf width text (i + 1) = rowOf width text i + 1 ∧ colOf width text (i + 1) = 0 := by
  rw [EndsRow, List.getElem?_eq_getElem hi, Option.some.injEq] at h
  rw [rowOf, colOf, rowOf, cellOf_succ hi, nextCell]
  rw [colOf] at h
  split_ifs with hbyte hfull
  · exact ⟨rfl, rfl⟩
  · exact ⟨rfl, rfl⟩
  · tauto

theorem rowOf_succ_of_not_ends (hi : i < text.length) (h : ¬EndsRow width text i) :
    rowOf width text (i + 1) = rowOf width text i ∧
      colOf width text (i + 1) = colOf width text i + 1 := by
  rw [EndsRow, List.getElem?_eq_getElem hi, Option.some.injEq, not_or, colOf] at h
  rw [rowOf, colOf, rowOf, colOf, cellOf_succ hi, nextCell, if_neg h.1, if_neg h.2]
  exact ⟨rfl, rfl⟩

theorem colOf_lt (text : List UInt8) (hwidth : 1 ≤ width) (i : Nat) :
    colOf width text i < width := by
  induction i with
  | zero => exact hwidth
  | succ i ih =>
      by_cases hi : i < text.length
      · by_cases hends : EndsRow width text i
        · rw [(rowOf_succ_of_ends hi hends).2]
          exact hwidth
        · rw [(rowOf_succ_of_not_ends hi hends).2]
          rw [EndsRow] at hends
          omega
      · rw [colOf, cellOf, List.take_of_length_le (by omega)]
        rwa [colOf, cellOf, List.take_of_length_le (by omega)] at ih

/-- Further on in the text the row is the same or a later one. -/
theorem rowOf_mono (width : Nat) (text : List UInt8) (hij : i ≤ j) (hj : j ≤ text.length) :
    rowOf width text i ≤ rowOf width text j := by
  induction j with
  | zero => rw [Nat.le_zero.mp hij]
  | succ j ih =>
      rcases Nat.lt_or_eq_of_le hij with hlt | rfl
      · have hle := ih (by omega) (by omega)
        by_cases hends : EndsRow width text j
        · rw [(rowOf_succ_of_ends (by omega) hends).1]
          omega
        · rwa [(rowOf_succ_of_not_ends (by omega) hends).1]
      · exact Nat.le_refl _

/-- In one row no byte but the last ends it, and the columns count the bytes. -/
theorem same_row (hij : i ≤ j) (hj : j ≤ text.length)
    (hrow : rowOf width text i = rowOf width text j) :
    colOf width text j = colOf width text i + (j - i) ∧
      ∀ k, i ≤ k → k < j → ¬EndsRow width text k := by
  induction j with
  | zero => exact ⟨by rw [Nat.le_zero.mp hij]; rfl, by omega⟩
  | succ j ih =>
      rcases Nat.lt_or_eq_of_le hij with hlt | rfl
      · have hbefore := rowOf_mono width text (by omega : i ≤ j) (by omega)
        have hends : ¬EndsRow width text j := by
          intro hends
          rw [(rowOf_succ_of_ends (by omega) hends).1] at hrow
          omega
        obtain ⟨hsame, hnext⟩ := rowOf_succ_of_not_ends (by omega) hends
        obtain ⟨hcol, hnot⟩ := ih (by omega) (by omega) (by rw [hrow, hsame])
        refine ⟨by omega, fun k hik hk => ?_⟩
        rcases Nat.lt_or_eq_of_le (Nat.le_of_lt_succ hk) with hk | rfl
        · exact hnot k hik hk
        · exact hends
      · exact ⟨by simp, by omega⟩

/-- Every row up to that of a byte has a first byte. -/
theorem exists_first (hj : j ≤ text.length) {row : Nat} (hrow : row ≤ rowOf width text j) :
    ∃ i ≤ j, rowOf width text i = row ∧ colOf width text i = 0 := by
  induction j with
  | zero => exact ⟨0, Nat.le_refl 0, (Nat.le_zero.mp hrow).symm, rfl⟩
  | succ j ih =>
      by_cases hle : row ≤ rowOf width text j
      · obtain ⟨i, hi, hfirst⟩ := ih (by omega) hle
        exact ⟨i, by omega, hfirst⟩
      · by_cases hends : EndsRow width text j
        · obtain ⟨hnext, hcol⟩ := rowOf_succ_of_ends (by omega) hends
          exact ⟨j + 1, Nat.le_refl _, by omega, hcol⟩
        · rw [(rowOf_succ_of_not_ends (by omega) hends).1] at hrow
          exact absurd hrow hle

/-- Every row before that of a byte has a byte that ends it. -/
theorem exists_last (hj : j ≤ text.length) {row : Nat} (hrow : row < rowOf width text j) :
    ∃ k < j, rowOf width text k = row ∧ EndsRow width text k := by
  induction j with
  | zero => exact absurd hrow (Nat.not_lt_zero row)
  | succ j ih =>
      by_cases hlt : row < rowOf width text j
      · obtain ⟨k, hk, hlast⟩ := ih (by omega) hlt
        exact ⟨k, by omega, hlast⟩
      · by_cases hends : EndsRow width text j
        · rw [(rowOf_succ_of_ends (by omega) hends).1] at hrow
          exact ⟨j, by omega, by omega, hends⟩
        · rw [(rowOf_succ_of_not_ends (by omega) hends).1] at hrow
          exact absurd hrow hlt

/-- Two bytes of one row of which one ends it: that one is behind the other. -/
theorem le_of_endsRow (hi : i ≤ text.length)
    (hrow : rowOf width text i = rowOf width text j) (hends : EndsRow width text j) : i ≤ j := by
  by_contra hlt
  exact (same_row (by omega) hi hrow.symm).2 j (Nat.le_refl j) (by omega) hends

/-- A row that is wrapped: its last byte is no line break and fills the width. -/
def WrappedRow (width : Nat) (text : List UInt8) (row : Nat) : Prop :=
  ∃ k < text.length, rowOf width text k = row ∧ text[k]? ≠ some newline ∧
    colOf width text k + 1 ≥ width

end Cells

/-! ## The counters of the code -/

section Counters

variable {text : List UInt8} {maxChars targetRow targetCol : UInt16} {i k : Nat}

theorem advance_eq {r c : Nat} (hc : c < maxChars.toNat) (byte : UInt8) :
    advance maxChars (.ofNat r, .ofNat c) byte =
      (.ofNat (nextCell maxChars.toNat (r, c) byte).1,
        .ofNat (nextCell maxChars.toNat (r, c) byte).2) := by
  have hbound := maxChars.toNat_lt
  have hfull : UInt16.ofNat c + 1 ≥ maxChars ↔ c + 1 ≥ maxChars.toNat := by
    rw [ge_iff_le, UInt16.le_iff_toNat_le, UInt16.toNat_add, UInt16.toNat_ofNat', UInt16.toNat_one,
      Nat.mod_eq_of_lt (by omega), Nat.mod_eq_of_lt (by omega)]
  rw [advance, nextCell]
  simp only [hfull]
  split_ifs <;> simp [UInt16.ofNat_add]

theorem layoutPosOf_succ (hi : i < text.length) :
    layoutPosOf text maxChars (i + 1) = advance maxChars (layoutPosOf text maxChars i) text[i] := by
  rw [layoutPosOf, layoutPosOf, List.take_succ_eq_append_getElem hi, List.foldl_append]
  rfl

/-- The columns of the code are those of the layout, its rows are those modulo 2 ^ 16. -/
theorem layoutPosOf_eq (hmax : 1 ≤ maxChars) (hi : i ≤ text.length) :
    layoutPosOf text maxChars i = (.ofNat (rowOf maxChars.toNat text i),
      .ofNat (colOf maxChars.toNat text i)) := by
  have hwidth : 1 ≤ maxChars.toNat := UInt16.le_iff_toNat_le.mp hmax
  induction i with
  | zero => rfl
  | succ i ih =>
      rw [layoutPosOf_succ hi, ih (by omega), advance_eq (colOf_lt text hwidth i)]
      simp only [rowOf, colOf, cellOf_succ hi]

theorem toNat_row (hmax : 1 ≤ maxChars) (hi : i ≤ text.length) :
    (layoutPosOf text maxChars i).1.toNat = rowOf maxChars.toNat text i % 65536 := by
  rw [layoutPosOf_eq hmax hi]
  exact UInt16.toNat_ofNat'

theorem toNat_col (hmax : 1 ≤ maxChars) (hi : i ≤ text.length) :
    (layoutPosOf text maxChars i).2.toNat = colOf maxChars.toNat text i := by
  have hbound := maxChars.toNat_lt
  have hcol := colOf_lt text (UInt16.le_iff_toNat_le.mp hmax) i
  rw [layoutPosOf_eq hmax hi, UInt16.toNat_ofNat']
  exact Nat.mod_eq_of_lt (by omega)

/-- `layout_index_at` stops at a byte. -/
def Stops (text : List UInt8) (maxChars targetRow targetCol : UInt16) (k : Nat) : Prop :=
  (layoutPosOf text maxChars k).1 = targetRow ∧
    ((layoutPosOf text maxChars k).2 ≥ targetCol ∨ text[k]? = some newline)

/-- The loop returns the first byte at which it stops, or the end of the text. -/
theorem indexFrom_first (hi : i ≤ text.length)
    (hbefore : ∀ k < i, ¬Stops text maxChars targetRow targetCol k) :
    let j := indexFrom maxChars targetRow targetCol (text.drop i) (layoutPosOf text maxChars i) i
    j ≤ text.length ∧ (∀ k < j, ¬Stops text maxChars targetRow targetCol k) ∧
      (j < text.length → Stops text maxChars targetRow targetCol j) := by
  induction hrest : text.drop i generalizing i with
  | nil =>
      have hend : i = text.length := by
        have := List.drop_eq_nil_iff.mp hrest
        omega
      exact ⟨hi, hbefore, fun hlt => absurd hlt (by simp [indexFrom, hend])⟩
  | cons byte rest ih =>
      have hlt : i < text.length := by
        by_contra hge
        rw [List.drop_of_length_le (by omega)] at hrest
        cases hrest
      rw [List.drop_eq_getElem_cons hlt, List.cons.injEq] at hrest
      obtain ⟨hbyte, hdrop⟩ := hrest
      rw [indexFrom]
      by_cases hstops : Stops text maxChars targetRow targetCol i
      · have hi' : (if (layoutPosOf text maxChars i).1 = targetRow ∧
            (layoutPosOf text maxChars i).2 ≥ targetCol then i
            else if byte = newline ∧ (layoutPosOf text maxChars i).1 = targetRow then i
            else indexFrom maxChars targetRow targetCol rest
              (advance maxChars (layoutPosOf text maxChars i) byte) (i + 1)) = i := by
          rw [Stops, List.getElem?_eq_getElem hlt, hbyte, Option.some.injEq] at hstops
          split_ifs <;> tauto
        rw [hi']
        exact ⟨hi, hbefore, fun _ => hstops⟩
      · have hnext := ih (i := i + 1) hlt (by
          intro k hk
          rcases Nat.lt_or_eq_of_le (Nat.le_of_lt_succ hk) with hk | rfl
          · exact hbefore k hk
          · exact hstops) hdrop
        rw [layoutPosOf_succ hlt, hbyte] at hnext
        rw [Stops, List.getElem?_eq_getElem hlt, hbyte, Option.some.injEq] at hstops
        rwa [if_neg (by tauto), if_neg (by tauto)]

/-- The result of `layout_index_at` is the first byte at which it stops. -/
theorem layoutIndexAt_first (text : List UInt8) (maxChars targetRow targetCol : UInt16) :
    let j := layoutIndexAt text maxChars targetRow targetCol
    j ≤ text.length ∧ (∀ k < j, ¬Stops text maxChars targetRow targetCol k) ∧
      (j < text.length → Stops text maxChars targetRow targetCol j) :=
  indexFrom_first (Nat.zero_le _) (by omega)

theorem stops_iff (hmax : 1 ≤ maxChars) (hk : k ≤ text.length) :
    Stops text maxChars targetRow targetCol k ↔
      rowOf maxChars.toNat text k % 65536 = targetRow.toNat ∧
        (targetCol.toNat ≤ colOf maxChars.toNat text k ∨ text[k]? = some newline) := by
  rw [Stops, ge_iff_le, UInt16.le_iff_toNat_le, toNat_col hmax hk, ← UInt16.toNat_inj,
    toNat_row hmax hk]

end Counters

/-! ## From a place to the index and back -/

/-- The index of a place: on its row the index of the greatest column up to the one asked
for, past the last row the end of the text. -/
def Lands (width : Nat) (text : List UInt8) (row col index : Nat) : Prop :=
  (row ≤ rowOf width text text.length → rowOf width text index = row ∧
    colOf width text index ≤ col ∧
    ∀ k ≤ text.length, rowOf width text k = row → colOf width text k ≤ col →
      colOf width text k ≤ colOf width text index) ∧
  (rowOf width text text.length < row → index = text.length)

section Inverse

variable {text : List UInt8} {maxChars targetRow targetCol : UInt16} {i : Nat}

/-- Below row 65536 the index of the place of a byte is the byte. -/
theorem layoutIndexAt_layoutPosOf (hmax : 1 ≤ maxChars) (hi : i ≤ text.length)
    (hrows : rowOf maxChars.toNat text i < 65536) :
    layoutIndexAt text maxChars (layoutPosOf text maxChars i).1
      (layoutPosOf text maxChars i).2 = i := by
  obtain ⟨hle, hbefore, hstops⟩ := layoutIndexAt_first text maxChars
    (layoutPosOf text maxChars i).1 (layoutPosOf text maxChars i).2
  rcases Nat.lt_trichotomy (layoutIndexAt text maxChars (layoutPosOf text maxChars i).1
    (layoutPosOf text maxChars i).2) i with hlt | heq | hgt
  · -- A byte further up in the row is in an earlier column and does not end the row.
    have hstop := (stops_iff hmax hle).mp (hstops (by omega))
    rw [toNat_row hmax hi, toNat_col hmax hi] at hstop
    have hrow := rowOf_mono maxChars.toNat text (Nat.le_of_lt hlt) hi
    have hsame : rowOf maxChars.toNat text (layoutIndexAt text maxChars
        (layoutPosOf text maxChars i).1 (layoutPosOf text maxChars i).2) =
          rowOf maxChars.toNat text i := by omega
    obtain ⟨hcol, hends⟩ := same_row (Nat.le_of_lt hlt) hi hsame
    rcases hstop.2 with hcols | hbyte
    · omega
    · exact absurd (Or.inl hbyte) (hends _ (Nat.le_refl _) hlt)
  · exact heq
  · -- The byte itself stops the loop.
    exact absurd ⟨rfl, Or.inl (Nat.le_refl _)⟩ (hbefore i hgt)

/-- From row 65536 on the loop stops in an earlier row that has the same 16-bit counter. -/
theorem layoutIndexAt_layoutPosOf_lt (hmax : 1 ≤ maxChars) (hi : i ≤ text.length)
    (hrows : 65536 ≤ rowOf maxChars.toNat text i) :
    layoutIndexAt text maxChars (layoutPosOf text maxChars i).1
      (layoutPosOf text maxChars i).2 < i := by
  obtain ⟨-, hbefore, -⟩ := layoutIndexAt_first text maxChars
    (layoutPosOf text maxChars i).1 (layoutPosOf text maxChars i).2
  have hwidth := UInt16.le_iff_toNat_le.mp hmax
  obtain ⟨k, hk, hrow, hends⟩ := exists_last hi
    (show rowOf maxChars.toNat text i % 65536 < rowOf maxChars.toNat text i by omega)
  have hcol := colOf_lt text hwidth i
  have hstop : Stops text maxChars (layoutPosOf text maxChars i).1
      (layoutPosOf text maxChars i).2 k := by
    rw [stops_iff hmax (by omega), toNat_row hmax hi, toNat_col hmax hi]
    rcases hends with hbyte | hfull
    · exact ⟨by omega, Or.inr hbyte⟩
    · exact ⟨by omega, Or.inl (by omega)⟩
  by_contra hge
  exact hbefore k (by omega) hstop

end Inverse

section Landing

variable {text : List UInt8} {maxChars targetRow targetCol : UInt16}

/-- Asked for a row the text has, the loop ends in that row, unless it is wrapped and the
column is behind its last. -/
theorem rowOf_layoutIndexAt (hmax : 1 ≤ maxChars)
    (hcol : ¬(WrappedRow maxChars.toNat text targetRow.toNat ∧ maxChars ≤ targetCol))
    (hrow : targetRow.toNat ≤ rowOf maxChars.toNat text text.length) :
    rowOf maxChars.toNat text (layoutIndexAt text maxChars targetRow targetCol) =
      targetRow.toNat := by
  obtain ⟨hle, hbefore, hstops⟩ := layoutIndexAt_first text maxChars targetRow targetCol
  have hrows := rowOf_mono maxChars.toNat text hle (Nat.le_refl _)
  have htarget := targetRow.toNat_lt
  rcases Nat.lt_or_eq_of_le hrow with hlt | hlast
  · -- A later row follows: the byte that ends the row stops the loop.
    obtain ⟨k, hk, hrowk, hends⟩ := exists_last (Nat.le_refl _) hlt
    have hstop : Stops text maxChars targetRow targetCol k := by
      rw [stops_iff hmax (by omega)]
      rw [UInt16.le_iff_toNat_le] at hcol
      by_cases hbyte : text[k]? = some newline
      · exact ⟨by omega, Or.inr hbyte⟩
      · have hfull := hends.resolve_left hbyte
        have := (not_and.mp hcol) ⟨k, hk, hrowk, hbyte, hfull⟩
        exact ⟨by omega, Or.inl (by omega)⟩
    have hjk : layoutIndexAt text maxChars targetRow targetCol ≤ k := by
      by_contra hgt
      exact hbefore k (by omega) hstop
    have := rowOf_mono maxChars.toNat text hjk (Nat.le_of_lt hk)
    have := ((stops_iff hmax hle).mp (hstops (by omega))).1
    omega
  · rcases Nat.lt_or_eq_of_le hle with hlt | heq
    · have := ((stops_iff hmax hle).mp (hstops hlt)).1
      omega
    · rw [heq, hlast]

/-- The column of the result is not beyond the one asked for. -/
theorem colOf_layoutIndexAt (hmax : 1 ≤ maxChars)
    (hrow : rowOf maxChars.toNat text (layoutIndexAt text maxChars targetRow targetCol) =
      targetRow.toNat) :
    colOf maxChars.toNat text (layoutIndexAt text maxChars targetRow targetCol) ≤
      targetCol.toNat := by
  obtain ⟨hle, hbefore, -⟩ := layoutIndexAt_first text maxChars targetRow targetCol
  have htarget := targetRow.toNat_lt
  cases hj : layoutIndexAt text maxChars targetRow targetCol with
  | zero => exact Nat.zero_le _
  | succ i =>
      rw [hj] at hle hbefore hrow
      by_cases hends : EndsRow maxChars.toNat text i
      · rw [(rowOf_succ_of_ends (by omega) hends).2]
        exact Nat.zero_le _
      · obtain ⟨hsame, hnext⟩ := rowOf_succ_of_not_ends (by omega) hends
        have hnot := hbefore i (by omega)
        rw [stops_iff hmax (by omega), not_and_or] at hnot
        rcases hnot with hother | hcol
        · omega
        · omega

/-- No byte of the row up to the column asked for is behind the result. -/
theorem colOf_le_layoutIndexAt (hmax : 1 ≤ maxChars)
    (hrow : rowOf maxChars.toNat text (layoutIndexAt text maxChars targetRow targetCol) =
      targetRow.toNat) {k : Nat} (hk : k ≤ text.length)
    (hrowk : rowOf maxChars.toNat text k = targetRow.toNat)
    (hcolk : colOf maxChars.toNat text k ≤ targetCol.toNat) :
    colOf maxChars.toNat text k ≤
      colOf maxChars.toNat text (layoutIndexAt text maxChars targetRow targetCol) := by
  obtain ⟨hle, -, hstops⟩ := layoutIndexAt_first text maxChars targetRow targetCol
  rcases Nat.le_total k (layoutIndexAt text maxChars targetRow targetCol) with hkj | hjk
  · have := (same_row hkj hle (hrowk.trans hrow.symm)).1
    omega
  · rcases Nat.lt_or_eq_of_le hjk with hlt | heq
    · -- The loop stopped before the end of the row, so at the column asked for.
      obtain ⟨hcol, hends⟩ := same_row hjk hk (hrow.trans hrowk.symm)
      have hstop := (stops_iff hmax hle).mp (hstops (by omega))
      rcases hstop.2 with hbeyond | hbyte
      · omega
      · exact absurd (Or.inl hbyte) (hends _ (Nat.le_refl _) hlt)
    · rw [heq]

theorem lands_layoutIndexAt (hmax : 1 ≤ maxChars)
    (hcol : ¬(WrappedRow maxChars.toNat text targetRow.toNat ∧ maxChars ≤ targetCol)) :
    Lands maxChars.toNat text targetRow.toNat targetCol.toNat
      (layoutIndexAt text maxChars targetRow targetCol) := by
  constructor
  · intro hrow
    have hsame := rowOf_layoutIndexAt hmax hcol hrow
    exact ⟨hsame, colOf_layoutIndexAt hmax hsame,
      fun k hk hrowk hcolk => colOf_le_layoutIndexAt hmax hsame hk hrowk hcolk⟩
  · intro hpast
    obtain ⟨hle, -, hstops⟩ := layoutIndexAt_first text maxChars targetRow targetCol
    by_contra hne
    have := ((stops_iff hmax hle).mp (hstops (by omega))).1
    have := rowOf_mono maxChars.toNat text hle (Nat.le_refl _)
    have := targetRow.toNat_lt
    omega

/-- Asked for a column behind a wrapped row, the loop passes the row. -/
theorem not_lands_of_wrapped (hmax : 1 ≤ maxChars)
    (hwrapped : WrappedRow maxChars.toNat text targetRow.toNat) (hcol : maxChars ≤ targetCol) :
    ¬Lands maxChars.toNat text targetRow.toNat targetCol.toNat
      (layoutIndexAt text maxChars targetRow targetCol) := by
  intro hlands
  obtain ⟨k, hk, hrowk, hbyte, hfull⟩ := hwrapped
  obtain ⟨hle, -, hstops⟩ := layoutIndexAt_first text maxChars targetRow targetCol
  have hmono := rowOf_mono maxChars.toNat text (Nat.le_of_lt hk) (Nat.le_refl _)
  have hrow := (hlands.1 (by omega)).1
  have hjk : layoutIndexAt text maxChars targetRow targetCol ≤ k :=
    le_of_endsRow hle (hrow.trans hrowk.symm) (Or.inr hfull)
  have hstop := ((stops_iff hmax hle).mp (hstops (by omega))).2
  have hlt := colOf_lt text (UInt16.le_iff_toNat_le.mp hmax)
    (layoutIndexAt text maxChars targetRow targetCol)
  rw [UInt16.le_iff_toNat_le] at hcol
  rcases hstop with hcols | hnewline
  · omega
  · have hkj := le_of_endsRow (by omega) (hrowk.trans hrow.symm) (Or.inl hnewline)
    rw [Nat.le_antisymm hjk hkj] at hnewline
    exact hbyte hnewline

end Landing

/-- `layout_index_at` undoes `layout_pos_of` and lands on the row it is asked for. -/
def LayoutInverse (text : List UInt8) (maxChars : UInt16) (i : Nat) (row col : UInt16) : Prop :=
  layoutIndexAt text maxChars (layoutPosOf text maxChars i).1
      (layoutPosOf text maxChars i).2 = i ∧
    Lands maxChars.toNat text row.toNat col.toNat (layoutIndexAt text maxChars row col)

theorem layoutInverse_iff (text : List UInt8) {maxChars : UInt16} (hmax : 1 ≤ maxChars)
    {i : Nat} (hi : i ≤ text.length) (row col : UInt16) :
    LayoutInverse text maxChars i row col ↔
      rowOf maxChars.toNat text i < 65536 ∧
        ¬(WrappedRow maxChars.toNat text row.toNat ∧ maxChars ≤ col) := by
  constructor
  · intro h
    constructor
    · by_contra hrows
      have hlt := layoutIndexAt_layoutPosOf_lt hmax hi (by omega)
      have heq := h.1
      omega
    · intro hwrapped
      exact not_lands_of_wrapped hmax hwrapped.1 hwrapped.2 h.2
  · intro h
    exact ⟨layoutIndexAt_layoutPosOf hmax hi h.1, lands_layoutIndexAt hmax h.2⟩

theorem layoutInverse_iff_line :
    1 ≤ (3 : UInt16) ∧ 2 ≤ [97, 97, 97, 97].length ∧
      (LayoutInverse [97, 97, 97, 97] 3 2 0 2 ↔
        rowOf 3 [97, 97, 97, 97] 2 < 65536 ∧
          ¬(WrappedRow 3 [97, 97, 97, 97] 0 ∧ (3 : UInt16) ≤ 2)) :=
  ⟨by decide, by decide, layoutInverse_iff [97, 97, 97, 97] (by decide) (by decide) 0 2⟩

/-- The end key in a wrapped row: the caret goes to the end of the text. -/
theorem layoutIndexAt_passes_row :
    layoutIndexAt [97, 97, 97, 97] 3 0 3 = 4 ∧ rowOf 3 [97, 97, 97, 97] 4 = 1 ∧
      ¬LayoutInverse [97, 97, 97, 97] 3 0 0 3 := by
  have hindex : layoutIndexAt [97, 97, 97, 97] 3 0 3 = 4 := by decide
  have hrow : rowOf 3 [97, 97, 97, 97] 4 = 1 := by decide
  refine ⟨hindex, hrow, ?_⟩
  intro h
  have hlands := (h.2.1 (Nat.zero_le _)).1
  rw [hindex] at hlands
  exact absurd (hrow.symm.trans hlands) (by decide)

/-! ## Clicks -/

/-- The row under a point of the window. -/
def pointRow (y : Int) : Int :=
  min ((max y 24 - 24) / 12) 65535

/-- The gap between characters next to a point of the window. -/
def pointCol (maxChars : UInt16) (x : Int) : Int :=
  min ((max x 8 - 8 + 3) / 6) (maxChars.toNat - 1)

/-- The index next to a point of the window. -/
def layoutIndexFromPoint (text : List UInt8) (maxChars : UInt16) (x y : Int) : Nat :=
  layoutIndexAt text maxChars (.ofInt (pointRow y)) (.ofInt (pointCol maxChars x))

/-- A click lands on the row under the point. -/
theorem layoutIndexFromPoint_lands (text : List UInt8) {maxChars : UInt16} (hmax : 1 ≤ maxChars)
    (x y : Int) :
    Lands maxChars.toNat text (pointRow y).toNat (pointCol maxChars x).toNat
      (layoutIndexFromPoint text maxChars x y) := by
  have hwidth := UInt16.le_iff_toNat_le.mp hmax
  rw [UInt16.toNat_one] at hwidth
  have hbound := maxChars.toNat_lt
  have hrow : (UInt16.ofInt (pointRow y)).toNat = (pointRow y).toNat := by
    rw [UInt16.ofInt, UInt16.toNat_ofNat', pointRow]
    omega
  have hcol : (UInt16.ofInt (pointCol maxChars x)).toNat = (pointCol maxChars x).toNat := by
    rw [UInt16.ofInt, UInt16.toNat_ofNat', pointCol]
    omega
  have hlt : ¬maxChars ≤ UInt16.ofInt (pointCol maxChars x) := by
    rw [UInt16.le_iff_toNat_le, hcol, pointCol]
    omega
  rw [← hrow, ← hcol]
  exact lands_layoutIndexAt hmax (fun h => hlt h.2)

theorem layoutIndexFromPoint_lands_second :
    Lands 3 [97, 97, 97, 97] (pointRow 40).toNat (pointCol 3 20).toNat
      (layoutIndexFromPoint [97, 97, 97, 97] 3 20 40) :=
  layoutIndexFromPoint_lands [97, 97, 97, 97] (show (1 : UInt16) ≤ 3 by decide) 20 40

end AvrKernel.Notepad

import AvrKernel.Lib.Signed
import AvrKernel.Notepad.Document
import AvrKernel.Notepad.Layout
import Mathlib.Data.List.TakeWhile

/-!
# Drawing the notepad

`handle_notepad_redraw` of `notepad/procedure.c` goes over the text once more with the
rules of the layout. The bytes of a row wait in a scratch buffer and the selected cells in
a run until the row ends. A write past the scratch buffer is a fault, and nothing comes
of it.
-/

namespace AvrKernel.Notepad

open Signed

theorem int16_eq {x : Int} (hlow : -32768 ≤ x) (hhigh : x < 32768) : int16 x = x :=
  wrap_eq (by omega) (by omega)

/-- The colours of `struct DWMTheme` used here. -/
structure Theme where
  clientBackground : UInt32
  clientText : UInt32
  clientTextSoft : UInt32
  clientTextValue : UInt32
  buttonFill : UInt32
  buttonBorder : UInt32
  editSelection : UInt32

/-- The calls of `dwm_draw_rect_filled`, `dwm_draw_line` and `dwm_draw_text`. -/
inductive DrawCall
  | rectFilled (x y w h : Int) (color : UInt32)
  | line (x y w h : Int) (color : UInt32)
  | text (x y : Int) (string : List UInt8) (color : UInt32)

/-! ## The code -/

def notepadMaxChars (windowWidth : UInt16) : UInt16 :=
  let chars := ((windowWidth.toNat : Int) - 16).tdiv 6
  let chars := if chars < 1 then 1 else chars
  let chars := if chars > 127 then 127 else chars
  .ofInt chars

/-- The background and the menu bar. -/
def drawFrame (theme : Theme) (windowWidth windowHeight : UInt16) : List DrawCall :=
  [.rectFilled 0 0 (int16 windowWidth.toNat) (int16 windowHeight.toNat) theme.clientBackground,
    .rectFilled 0 0 (int16 windowWidth.toNat) 16 theme.buttonFill,
    .line 0 15 (int16 windowWidth.toNat) 0 theme.buttonBorder,
    .text 10 4 [70, 105, 108, 101] theme.clientText]

/-- What the loop carries along. -/
structure Redraw where
  row : UInt16
  col : UInt16
  /-- The bytes of `line_scratchpad` up to `scratch_idx`. -/
  lineScratchpad : List UInt8
  /-- Column and length of the pending run of selected cells. -/
  highlight : Option (UInt16 × UInt16)
  /-- The place of the caret, once it is visible. -/
  cursor : Option (Int × Int)
  calls : List DrawCall

def rowY (row : UInt16) : Int := int16 (24 + row.toNat * 12)

/-- The character drawn for a byte. -/
def glyphByte (target : UInt8) : UInt8 :=
  if target = 0 then 32 else if target < 32 ∨ target > 126 then 46 else target

/-- The caret stands at a byte. -/
def seeCursor (here : Bool) (d : Redraw) : Redraw :=
  if here then { d with cursor := some (int16 (8 + d.col.toNat * 6), rowY d.row) } else d

/-- A selected byte extends the run or starts a new one. -/
def selectByte (selected : Bool) (d : Redraw) : Redraw :=
  if selected then
    { d with highlight := match d.highlight with
        | none => some (d.col, 1)
        | some (hlCol, hlLen) => some (hlCol, hlLen + 1) }
  else d

/-- A byte other than a line break goes to the scratch buffer. -/
def storeByte (target : UInt8) (d : Redraw) : Option Redraw :=
  if target = newline then some d
  else if d.lineScratchpad.length < 128 then
    some { d with
      lineScratchpad := d.lineScratchpad ++ [glyphByte target], col := d.col + 1 }
  else none

def drawHighlight (theme : Theme) (flush : Bool) (d : Redraw) : Redraw :=
  match d.highlight with
  | none => d
  | some (hlCol, hlLen) =>
      if flush then
        { d with
          highlight := none
          calls := d.calls ++ [.rectFilled (int16 (8 + hlCol.toNat * 6)) (int16 (rowY d.row - 2))
            (int16 (hlLen.toNat * 6)) 12 theme.editSelection] }
      else d

def drawLine (theme : Theme) (flush : Bool) (d : Redraw) : Option Redraw :=
  if flush then
    if d.lineScratchpad.length > 0 then
      if d.lineScratchpad.length < 128 then
        some { d with
          lineScratchpad := []
          calls := d.calls ++ [.text 8 (rowY d.row) (d.lineScratchpad.takeWhile (· ≠ 0))
            theme.clientTextSoft] }
      else none
    else some d
  else some d

def nextRow (endOfRow : Bool) (d : Redraw) : Redraw :=
  if endOfRow then { d with row := d.row + 1, col := 0 } else d

/-- The body of the loop for byte `i` of the text. -/
def drawByte (theme : Theme) (maxChars : UInt16) (selStart selEnd i : Nat) (last : Bool)
    (target : UInt8) (d : Redraw) : Option Redraw := do
  let d ← storeByte target (selectByte (selStart ≤ i ∧ i < selEnd) d)
  let endOfRow : Bool := target = newline ∨ d.col ≥ maxChars
  let d ← drawLine theme (endOfRow || last)
    (drawHighlight theme (endOfRow || decide (i + 1 ≥ selEnd)) d)
  return nextRow endOfRow d

/-- The loop from byte `i` on. -/
def drawFrom (theme : Theme) (maxChars windowHeight : UInt16) (selStart selEnd cursorIndex : Nat) :
    List UInt8 → Nat → Redraw → Option Redraw
  | [], i, d =>
      if rowY d.row > windowHeight.toNat then some d
      else some (seeCursor (i = cursorIndex) d)
  | target :: rest, i, d =>
      if rowY d.row > windowHeight.toNat then some d
      else do
        let d ← drawByte theme maxChars selStart selEnd i rest.isEmpty target
          (seeCursor (i = cursorIndex) d)
        drawFrom theme maxChars windowHeight selStart selEnd cursorIndex rest (i + 1) d

def drawCursor (theme : Theme) (d : Redraw) : List DrawCall :=
  match d.cursor with
  | none => d.calls
  | some (cursorX, cursorY) =>
      d.calls ++ [.line cursorX (int16 (cursorY - 1)) 0 10 theme.clientTextValue]

/-- `handle_notepad_redraw`: the calls it draws with. -/
def handleNotepadRedraw (theme : Theme) (windowWidth windowHeight : UInt16)
    (state : NotepadWindowState) : Option (List DrawCall) :=
  let frame := drawFrame theme windowWidth windowHeight
  if state.textBuffer.isNone then some frame
  else do
    let d ← drawFrom theme (notepadMaxChars windowWidth) windowHeight
      state.selectionStart.toNat state.selectionEnd.toNat state.cursorIndex.toNat
      state.text 0 ⟨0, 0, [], none, none, []⟩
    return frame ++ drawCursor theme d

/-! ## What the calls put on the window -/

/-- Characters side by side. -/
def lineGlyphs (x y : Int) (string : List UInt8) : List (Int × Int × UInt8) :=
  string.zipIdx.map fun glyph => (x + 6 * (glyph.2 : Int), y, glyph.1)

/-- Cells side by side. -/
def runCells (x y : Int) (n : Nat) : List (Int × Int) :=
  (List.range n).map fun k => (x + 6 * (k : Int), y)

/-- The characters of a call, each with its place. -/
def DrawCall.glyphs : DrawCall → List (Int × Int × UInt8)
  | .text x y string _ => lineGlyphs x y string
  | _ => []

/-- The cells a rectangle of the selection covers. It starts two lines above its cells. -/
def DrawCall.cells : DrawCall → List (Int × Int)
  | .rectFilled x y w _ _ => runCells x (y + 2) (w / 6).toNat
  | _ => []

/-- The place of a caret. Its line starts one line above. -/
def DrawCall.carets : DrawCall → List (Int × Int)
  | .line x y _ _ _ => [(x, y + 1)]
  | _ => []

@[simp] theorem lineGlyphs_nil (x y : Int) : lineGlyphs x y [] = [] := rfl
@[simp] theorem runCells_zero (x y : Int) : runCells x y 0 = [] := rfl

theorem lineGlyphs_concat (x y : Int) (string : List UInt8) (byte : UInt8) :
    lineGlyphs x y (string ++ [byte]) =
      lineGlyphs x y string ++ [(x + 6 * (string.length : Int), y, byte)] := by
  simp [lineGlyphs, List.zipIdx_append]

theorem runCells_succ (x y : Int) (n : Nat) :
    runCells x y (n + 1) = runCells x y n ++ [(x + 6 * (n : Int), y)] := by
  simp [runCells, List.range_succ]

namespace Redraw

/-- The cells of the pending run. -/
def runOf (d : Redraw) : List (Int × Int) :=
  match d.highlight with
  | none => []
  | some (hlCol, hlLen) => runCells (8 + 6 * (hlCol.toNat : Int)) (int16 (rowY d.row - 2) + 2)
      hlLen.toNat

/-- The characters drawn and those that wait. -/
def glyphs (d : Redraw) : List (Int × Int × UInt8) :=
  d.calls.flatMap DrawCall.glyphs ++ lineGlyphs 8 (rowY d.row) d.lineScratchpad

/-- The selected cells drawn and those that wait. -/
def cells (d : Redraw) : List (Int × Int) :=
  d.calls.flatMap DrawCall.cells ++ d.runOf

/-- Nothing is gained or lost for the window. -/
structure Same (d d' : Redraw) : Prop where
  glyphs : d'.glyphs = d.glyphs
  cells : d'.cells = d.cells
  cursor : d'.cursor = d.cursor
  carets : d'.calls.flatMap DrawCall.carets = d.calls.flatMap DrawCall.carets

theorem Same.trans {d d' d'' : Redraw} (h : d.Same d') (h' : d'.Same d'') : d.Same d'' :=
  ⟨h'.glyphs.trans h.glyphs, h'.cells.trans h.cells, h'.cursor.trans h.cursor,
    h'.carets.trans h.carets⟩

end Redraw

/-! ## The steps of the loop -/

section Steps

variable {theme : Theme} {flush endOfRow selected : Bool} {target : UInt8} {d : Redraw}

theorem selectByte_cells
    (hrun : ∀ hlCol hlLen, d.highlight = some (hlCol, hlLen) →
      hlCol.toNat + hlLen.toNat = d.col.toNat) (hcol : d.col.toNat < 127) :
    (selectByte selected d).cells = d.cells ++
      if selected then [(8 + 6 * (d.col.toNat : Int), int16 (rowY d.row - 2) + 2)] else [] := by
  cases selected with
  | false => simp [selectByte]
  | true =>
      cases hhl : d.highlight with
      | none => simp [selectByte, hhl, Redraw.cells, Redraw.runOf, runCells]
      | some run =>
          have hlen := hrun run.1 run.2 hhl
          have hsucc : (run.2 + 1).toNat = run.2.toNat + 1 := by
            rw [UInt16.toNat_add, UInt16.toNat_one, Nat.mod_eq_of_lt (by omega)]
          have hplace : (8 : Int) + 6 * run.1.toNat + 6 * run.2.toNat = 8 + 6 * d.col.toNat := by
            omega
          simp [selectByte, hhl, Redraw.cells, Redraw.runOf, hsucc, runCells_succ, hplace]

theorem drawHighlight_same
    (hrun : ∀ hlCol hlLen, d.highlight = some (hlCol, hlLen) →
      hlCol.toNat + hlLen.toNat ≤ 128) :
    d.Same (drawHighlight theme flush d) := by
  rw [drawHighlight]
  split
  · exact ⟨rfl, rfl, rfl, rfl⟩
  · next hlCol hlLen hhl =>
      have hbound := hrun hlCol hlLen hhl
      cases flush with
      | false => exact ⟨rfl, rfl, rfl, rfl⟩
      | true =>
          have hx : int16 (8 + (hlCol.toNat : Int) * 6) = 8 + 6 * hlCol.toNat := by
            rw [int16_eq (by omega) (by omega)]
            omega
          have hw : int16 ((hlLen.toNat : Int) * 6) / 6 = hlLen.toNat := by
            rw [int16_eq (by omega) (by omega)]
            omega
          constructor <;>
            simp [Redraw.glyphs, Redraw.cells, Redraw.runOf, DrawCall.glyphs, DrawCall.cells,
              DrawCall.carets, hhl, hx, hw]

theorem drawLine_same (theme : Theme) (flush : Bool) (hbytes : ∀ byte ∈ d.lineScratchpad, byte ≠ 0)
    (hfits : d.lineScratchpad.length < 128) :
    ∃ d', drawLine theme flush d = some d' ∧ d.Same d' ∧ d'.row = d.row ∧ d'.col = d.col ∧
      d'.highlight = d.highlight ∧
      d'.lineScratchpad = if flush then [] else d.lineScratchpad := by
  cases flush with
  | false => exact ⟨d, rfl, ⟨rfl, rfl, rfl, rfl⟩, rfl, rfl, rfl, rfl⟩
  | true =>
      by_cases hempty : d.lineScratchpad.length > 0
      · have hstring : d.lineScratchpad.takeWhile (· ≠ 0) = d.lineScratchpad :=
          List.takeWhile_eq_self_iff.mpr (by simpa using hbytes)
        refine ⟨{ d with
          lineScratchpad := []
          calls := d.calls ++ [.text 8 (rowY d.row) d.lineScratchpad theme.clientTextSoft] },
          ?_, ?_, rfl, rfl, rfl, rfl⟩
        · rw [drawLine, if_pos rfl, if_pos hempty, if_pos hfits, hstring]
        · constructor <;>
            simp [Redraw.glyphs, Redraw.cells, Redraw.runOf, DrawCall.glyphs, DrawCall.cells,
              DrawCall.carets]
      · refine ⟨d, by rw [drawLine, if_pos rfl, if_neg hempty], ⟨rfl, rfl, rfl, rfl⟩, rfl, rfl,
          rfl, ?_⟩
        exact List.length_eq_zero_iff.mp (by omega)

theorem nextRow_same (hscratch : endOfRow → d.lineScratchpad = [])
    (hrun : endOfRow → d.highlight = none) : d.Same (nextRow endOfRow d) := by
  cases endOfRow with
  | false => exact ⟨rfl, rfl, rfl, rfl⟩
  | true =>
      constructor <;>
        simp [nextRow, Redraw.glyphs, Redraw.cells, Redraw.runOf, hscratch rfl, hrun rfl]

@[simp] theorem glyphByte_ne_zero (target : UInt8) : glyphByte target ≠ 0 := by
  rw [glyphByte]
  split_ifs with hzero
  · decide
  · decide
  · exact hzero

/-- What waits in the middle of a row, before byte `i`. -/
structure Pending (selStart selEnd i : Nat) (d : Redraw) : Prop where
  bytes : ∀ byte ∈ d.lineScratchpad, byte ≠ 0
  fits : d.lineScratchpad.length = d.col.toNat
  run : ∀ hlCol hlLen, d.highlight = some (hlCol, hlLen) →
    hlCol.toNat + hlLen.toNat = d.col.toNat ∧ selStart ≤ i ∧ i < selEnd

end Steps

/-- The character of a byte at a place. -/
def glyphAt (place : Int × Int) (target : UInt8) : List (Int × Int × UInt8) :=
  if target = newline then [] else [(place.1, place.2, glyphByte target)]

/-- The place of row and column. -/
def placeOf (row col : UInt16) : Int × Int := (8 + 6 * (col.toNat : Int), rowY row)

/-- The cell of the selection at a place. -/
def selectedAt (selected : Bool) (row col : UInt16) : List (Int × Int) :=
  if selected then [(8 + 6 * (col.toNat : Int), int16 (rowY row - 2) + 2)] else []

/-- A byte adds its character and its cell, and what waits afterwards belongs to the row. -/
structure Adds (maxChars : UInt16) (selStart selEnd i : Nat) (last : Bool) (target : UInt8)
    (d d' : Redraw) : Prop where
  glyphs : d'.glyphs = d.glyphs ++ glyphAt (placeOf d.row d.col) target
  cells : d'.cells = d.cells ++ selectedAt (selStart ≤ i ∧ i < selEnd) d.row d.col
  cursor : d'.cursor = d.cursor
  carets : d'.calls.flatMap DrawCall.carets = d.calls.flatMap DrawCall.carets
  place : (d'.row, d'.col) = advance maxChars (d.row, d.col) target
  pending : last = false → Pending selStart selEnd (i + 1) d'
  lastBytes : last = true → d'.lineScratchpad = []
  lastRun : selEnd ≤ i + 1 → d'.highlight = none

theorem storeByte_spec (target : UInt8) {d : Redraw}
    (hbytes : ∀ byte ∈ d.lineScratchpad, byte ≠ 0)
    (hfits : d.lineScratchpad.length = d.col.toNat) (hcol : d.col.toNat < 127) :
    ∃ d', storeByte target d = some d' ∧
      d'.glyphs = d.glyphs ++ glyphAt (placeOf d.row d.col) target ∧ d'.cells = d.cells ∧
      d'.cursor = d.cursor ∧ d'.calls = d.calls ∧ d'.row = d.row ∧
      d'.col = (if target = newline then d.col else d.col + 1) ∧ d'.highlight = d.highlight ∧
      d'.lineScratchpad.length = d'.col.toNat ∧ ∀ byte ∈ d'.lineScratchpad, byte ≠ 0 := by
  by_cases hbyte : target = newline
  · refine ⟨d, by rw [storeByte, if_pos hbyte], ?_, rfl, rfl, rfl, rfl, ?_, rfl, hfits, hbytes⟩
    · rw [glyphAt, if_pos hbyte, List.append_nil]
    · rw [if_pos hbyte]
  · have hsucc : (d.col + 1).toNat = d.col.toNat + 1 := by
      rw [UInt16.toNat_add, UInt16.toNat_one, Nat.mod_eq_of_lt (by omega)]
    refine ⟨{ d with
      lineScratchpad := d.lineScratchpad ++ [glyphByte target], col := d.col + 1 }, ?_, ?_, rfl,
      rfl, rfl, rfl, ?_, rfl, ?_, ?_⟩
    · rw [storeByte, if_neg hbyte, if_pos (by omega)]
    · simp only [Redraw.glyphs, lineGlyphs_concat, glyphAt, placeOf, if_neg hbyte, hfits,
        List.append_assoc]
    · rw [if_neg hbyte]
    · rw [List.length_append, hfits, List.length_singleton, hsucc]
    · intro byte hmem
      rcases List.mem_append.mp hmem with hmem | hmem
      · exact hbytes byte hmem
      · rw [List.mem_singleton.mp hmem]
        exact glyphByte_ne_zero target

@[simp] theorem selectByte_glyphs (selected : Bool) (d : Redraw) :
    (selectByte selected d).glyphs = d.glyphs := by
  cases selected <;> rfl

@[simp] theorem selectByte_row (selected : Bool) (d : Redraw) :
    (selectByte selected d).row = d.row := by
  cases selected <;> rfl

@[simp] theorem selectByte_col (selected : Bool) (d : Redraw) :
    (selectByte selected d).col = d.col := by
  cases selected <;> rfl

@[simp] theorem selectByte_lineScratchpad (selected : Bool) (d : Redraw) :
    (selectByte selected d).lineScratchpad = d.lineScratchpad := by
  cases selected <;> rfl

@[simp] theorem selectByte_cursor (selected : Bool) (d : Redraw) :
    (selectByte selected d).cursor = d.cursor := by
  cases selected <;> rfl

@[simp] theorem selectByte_calls (selected : Bool) (d : Redraw) :
    (selectByte selected d).calls = d.calls := by
  cases selected <;> rfl

/-- Behind a selected byte the run reaches one cell further. -/
theorem selectByte_highlight {d : Redraw} {selStart selEnd i : Nat}
    (h : Pending selStart selEnd i d) (hcol : d.col.toNat < 127) {hlCol hlLen : UInt16}
    (hhl : (selectByte (selStart ≤ i ∧ i < selEnd) d).highlight = some (hlCol, hlLen)) :
    hlCol.toNat + hlLen.toNat = d.col.toNat + 1 ∧ selStart ≤ i := by
  by_cases hselected : selStart ≤ i ∧ i < selEnd
  · rw [selectByte, if_pos (decide_eq_true hselected)] at hhl
    cases hrun : d.highlight with
    | none =>
        simp only [hrun, Option.some.injEq, Prod.mk.injEq] at hhl
        rw [← hhl.1, ← hhl.2]
        exact ⟨rfl, hselected.1⟩
    | some run =>
        have hbefore := (h.run run.1 run.2 hrun).1
        simp only [hrun, Option.some.injEq, Prod.mk.injEq] at hhl
        rw [← hhl.1, ← hhl.2, UInt16.toNat_add, UInt16.toNat_one, Nat.mod_eq_of_lt (by omega)]
        exact ⟨by omega, hselected.1⟩
  · rw [selectByte, if_neg (by simpa using hselected)] at hhl
    exact absurd (h.run hlCol hlLen hhl).2 hselected

theorem drawHighlight_fields (theme : Theme) (flush : Bool) (d : Redraw) :
    (drawHighlight theme flush d).row = d.row ∧ (drawHighlight theme flush d).col = d.col ∧
      (drawHighlight theme flush d).lineScratchpad = d.lineScratchpad ∧
      (drawHighlight theme flush d).highlight = if flush then none else d.highlight := by
  rw [drawHighlight]
  split
  · next hhl => cases flush <;> simp [hhl]
  · cases flush <;> simp_all

@[simp] theorem nextRow_lineScratchpad (endOfRow : Bool) (d : Redraw) :
    (nextRow endOfRow d).lineScratchpad = d.lineScratchpad := by
  cases endOfRow <;> rfl

@[simp] theorem nextRow_highlight (endOfRow : Bool) (d : Redraw) :
    (nextRow endOfRow d).highlight = d.highlight := by
  cases endOfRow <;> rfl

/-- What waits before the next byte: nothing in a new row, else what waited before `d` was
drawn from. -/
theorem pending_nextRow {d d₂ : Redraw} {endOfRow : Bool} {selStart selEnd i col : Nat}
    (hscratch : d.lineScratchpad = if endOfRow then [] else d₂.lineScratchpad)
    (hhl : d.highlight =
      if endOfRow || decide (i + 1 ≥ selEnd) then none else d₂.highlight)
    (hbytes : ∀ byte ∈ d₂.lineScratchpad, byte ≠ 0) (hcol : d.col = d₂.col)
    (hfits : d₂.lineScratchpad.length = d₂.col.toNat)
    (hnext : endOfRow = false → d₂.col.toNat = col + 1)
    (hrun : ∀ hlCol hlLen, d₂.highlight = some (hlCol, hlLen) →
      hlCol.toNat + hlLen.toNat = col + 1 ∧ selStart ≤ i) :
    Pending selStart selEnd (i + 1) (nextRow endOfRow d) := by
  cases endOfRow with
  | true =>
      have hnone : d.highlight = none := hhl
      have hempty : d.lineScratchpad = [] := hscratch
      exact ⟨by simp [hempty], by simp [nextRow, hempty], by simp [hnone]⟩
  | false =>
      have hsame : d.lineScratchpad = d₂.lineScratchpad := hscratch
      refine ⟨by rwa [nextRow_lineScratchpad, hsame], ?_, ?_⟩
      · rw [nextRow_lineScratchpad, hsame, hfits, ← hcol]
        rfl
      · intro hlCol hlLen hsome
        rw [nextRow_highlight, hhl] at hsome
        by_cases hend : i + 1 ≥ selEnd
        · rw [if_pos (by simp [hend])] at hsome
          cases hsome
        · rw [if_neg (by simp [hend])] at hsome
          obtain ⟨hlen, hstart⟩ := hrun hlCol hlLen hsome
          refine ⟨?_, by omega, by omega⟩
          rw [hlen, ← hnext rfl, ← hcol]
          rfl

/-- The body of the loop stays in the scratch buffer and adds what belongs to the byte. -/
theorem drawByte_adds {maxChars : UInt16} (hmax : maxChars ≤ 127) {selStart selEnd i : Nat}
    {d : Redraw} (h : Pending selStart selEnd i d) (hcol : d.col < maxChars) (theme : Theme)
    (last : Bool) (target : UInt8) :
    ∃ d', drawByte theme maxChars selStart selEnd i last target d = some d' ∧
      Adds maxChars selStart selEnd i last target d d' := by
  have hmax' := UInt16.le_iff_toNat_le.mp hmax
  have hcol' := UInt16.lt_iff_toNat_lt.mp hcol
  have hbound : (127 : UInt16).toNat = 127 := rfl
  have hlt : d.col.toNat < 127 := by omega
  obtain ⟨d₂, hstore, hglyphs, hcells, hcursor, hcalls, hrow, hcol₂, hhl, hfits, hbytes⟩ :=
    storeByte_spec target (d := selectByte (selStart ≤ i ∧ i < selEnd) d)
      (by simpa using h.bytes) (by simpa using h.fits) (by simpa using hlt)
  rw [selectByte_row] at hrow
  rw [selectByte_col] at hcol₂
  have hcolLe : d₂.col.toNat ≤ d.col.toNat + 1 := by
    rw [hcol₂]
    split_ifs
    · omega
    · rw [UInt16.toNat_add, UInt16.toNat_one]
      exact Nat.mod_le _ _
  have hrun : ∀ hlCol hlLen, d₂.highlight = some (hlCol, hlLen) →
      hlCol.toNat + hlLen.toNat = d.col.toNat + 1 ∧ selStart ≤ i := by
    intro hlCol hlLen hsome
    rw [hhl] at hsome
    exact selectByte_highlight h hlt hsome
  let endOfRow : Bool := target = newline ∨ d₂.col ≥ maxChars
  let flush : Bool := endOfRow || decide (i + 1 ≥ selEnd)
  have hdrawn : d₂.Same (drawHighlight theme flush d₂) := by
    apply drawHighlight_same
    intro hlCol hlLen hsome
    have := (hrun hlCol hlLen hsome).1
    omega
  obtain ⟨hrow₃, hcol₃, hscratch₃, hhl₃⟩ := drawHighlight_fields theme flush d₂
  obtain ⟨d₄, hline, hsame, hrow₄, hcol₄, hhl₄, hscratch₄⟩ :=
    drawLine_same theme (endOfRow || last)
      (d := drawHighlight theme flush d₂) (by rwa [hscratch₃])
      (by rw [hscratch₃, hfits]; omega)
  rw [hhl₃] at hhl₄
  rw [hscratch₃] at hscratch₄
  have hnext : d₄.Same (nextRow endOfRow d₄) := by
    apply nextRow_same
    · intro hend
      rw [hscratch₄, hend]
      rfl
    · intro hend
      rw [hhl₄, show flush = true by simp [flush, hend]]
      rfl
  have hall := (hdrawn.trans hsame).trans hnext
  have hstored : endOfRow = false → d₂.col.toNat = d.col.toNat + 1 := by
    intro hend
    have hbyte : target ≠ newline := fun hbyte => by simp [endOfRow, hbyte] at hend
    rw [hcol₂, if_neg hbyte, UInt16.toNat_add, UInt16.toNat_one, Nat.mod_eq_of_lt (by omega)]
  have hadvance : ((nextRow endOfRow d₄).row, (nextRow endOfRow d₄).col) =
      advance maxChars (d.row, d.col) target := by
    rw [advance, nextRow]
    by_cases hbyte : target = newline
    · simp [endOfRow, hbyte, hrow₄, hrow₃, hrow]
    · rw [if_neg hbyte] at hcol₂
      by_cases hfull : d.col + 1 ≥ maxChars
      · simp [endOfRow, hbyte, hrow₄, hrow₃, hrow, hcol₂, hfull]
      · simp [endOfRow, hbyte, hrow₄, hrow₃, hrow, hcol₄, hcol₃, hcol₂, hfull]
  refine ⟨nextRow endOfRow d₄, ?_, ?_, ?_, ?_, ?_, hadvance, ?_, ?_, ?_⟩
  · simp only [drawByte, hstore, Option.bind_eq_bind, Option.bind_some]
    rw [show drawLine theme (decide (target = newline ∨ d₂.col ≥ maxChars) || last)
      (drawHighlight theme (decide (target = newline ∨ d₂.col ≥ maxChars) ||
        decide (i + 1 ≥ selEnd)) d₂) = some d₄ from hline]
    rfl
  · rw [hall.glyphs, hglyphs, selectByte_glyphs, selectByte_row, selectByte_col]
  · rw [hall.cells, hcells, selectByte_cells (fun hlCol hlLen hsome =>
      (h.run hlCol hlLen hsome).1) hlt]
    simp [selectedAt]
  · rw [hall.cursor, hcursor, selectByte_cursor]
  · rw [hall.carets, hcalls, selectByte_calls]
  · intro hlast
    exact pending_nextRow (by simpa [hlast] using hscratch₄) hhl₄ hbytes
      (hcol₄.trans hcol₃) hfits hstored hrun
  · intro hlast
    rw [nextRow_lineScratchpad, hscratch₄, hlast, Bool.or_true]
    rfl
  · intro hlast
    rw [nextRow_highlight, hhl₄, show flush = true by simp [flush, hlast]]
    rfl

/-! ## The loop -/

theorem flatMap_range_cut {α : Type} {f g : Nat → List α} {i n : Nat} (hi : i ≤ n)
    (hbefore : ∀ k < i, f k = g k) (hafter : ∀ k, i ≤ k → f k = []) :
    (List.range n).flatMap f = (List.range i).flatMap g := by
  induction n, hi using Nat.le_induction with
  | base =>
      apply List.flatMap_congr
      intro k hk
      exact hbefore k (List.mem_range.mp hk)
  | succ n hi ih => simp [List.range_succ, ih, hafter n hi]

section Loop

variable (text : List UInt8) (maxChars height : UInt16) (selStart selEnd cursorIndex : Nat)

/-- The loop gets to a byte: no row up to its row starts below the window. -/
def Drawn (k : Nat) : Prop :=
  ∀ j ≤ k, rowY (layoutPosOf text maxChars j).1 ≤ height.toNat

instance (k : Nat) : Decidable (Drawn text maxChars height k) :=
  inferInstanceAs (Decidable (∀ j ≤ k, _))

/-- Where the loop puts a byte. -/
def drawnPlace (k : Nat) : Int × Int :=
  placeOf (layoutPosOf text maxChars k).1 (layoutPosOf text maxChars k).2

/-- What the loop draws of a byte. -/
def drawnGlyphs (k : Nat) : List (Int × Int × UInt8) :=
  glyphAt (drawnPlace text maxChars k) (text.getD k 0)

/-- The selected cell the loop draws for a byte. -/
def drawnCells (k : Nat) : List (Int × Int) :=
  selectedAt (selStart ≤ k ∧ k < selEnd) (layoutPosOf text maxChars k).1
    (layoutPosOf text maxChars k).2

/-- The loop before byte `i`. -/
structure Before (i : Nat) (d : Redraw) : Prop where
  drawn : ∀ k < i, rowY (layoutPosOf text maxChars k).1 ≤ height.toNat
  place : (d.row, d.col) = layoutPosOf text maxChars i
  glyphs : d.glyphs = (List.range i).flatMap (drawnGlyphs text maxChars)
  cells : d.cells = (List.range i).flatMap (drawnCells text maxChars selStart selEnd)
  cursor : d.cursor = if cursorIndex < i then some (drawnPlace text maxChars cursorIndex) else none
  carets : d.calls.flatMap DrawCall.carets = []
  pending : i < text.length → Pending selStart selEnd i d
  endBytes : i = text.length → d.lineScratchpad = []
  endRun : i = text.length → d.highlight = none

/-- The loop at its end. -/
structure After (d : Redraw) : Prop where
  glyphs : d.calls.flatMap DrawCall.glyphs = (List.range text.length).flatMap fun k =>
    if Drawn text maxChars height k then drawnGlyphs text maxChars k else []
  cells : d.calls.flatMap DrawCall.cells = (List.range text.length).flatMap fun k =>
    if Drawn text maxChars height k then drawnCells text maxChars selStart selEnd k else []
  cursor : d.cursor = if Drawn text maxChars height cursorIndex then
    some (drawnPlace text maxChars cursorIndex) else none
  carets : d.calls.flatMap DrawCall.carets = []

variable {text maxChars height selStart selEnd cursorIndex} {i : Nat} {d : Redraw}

theorem Before.drawn_of_lt (h : Before text maxChars height selStart selEnd cursorIndex i d)
    {k : Nat} (hk : k < i) : Drawn text maxChars height k := by
  intro j hj
  exact h.drawn j (by omega)

theorem Before.row (h : Before text maxChars height selStart selEnd cursorIndex i d) :
    d.row = (layoutPosOf text maxChars i).1 :=
  congrArg Prod.fst h.place

theorem Before.col (h : Before text maxChars height selStart selEnd cursorIndex i d) :
    d.col = (layoutPosOf text maxChars i).2 :=
  congrArg Prod.snd h.place

/-- Where the loop stops a row has just begun, and nothing waits. -/
theorem Before.nothing_waits (h : Before text maxChars height selStart selEnd cursorIndex i d)
    (hi : i ≤ text.length)
    (hstop : i = text.length ∨ height.toNat < rowY (layoutPosOf text maxChars i).1) :
    d.lineScratchpad = [] ∧ d.runOf = [] := by
  by_cases hend : i = text.length
  · exact ⟨h.endBytes hend, by rw [Redraw.runOf, h.endRun hend]⟩
  · have hpending := h.pending (by omega)
    have hcol : d.col = 0 := by
      rw [h.col]
      cases i with
      | zero => rfl
      | succ m =>
          -- In the row of the byte before it the loop would not stop.
          have hbelow := hstop.resolve_left hend
          have hbefore := h.drawn m (by omega)
          rw [layoutPosOf_succ hi, advance] at hbelow ⊢
          split_ifs at hbelow ⊢
          · rfl
          · rfl
          · exact absurd hbefore (Int.not_le.mpr hbelow)
    constructor
    · apply List.length_eq_zero_iff.mp
      rw [hpending.fits, hcol]
      rfl
    · rw [Redraw.runOf]
      split
      · rfl
      · next hlCol hlLen hhl =>
          have hlen := (hpending.run hlCol hlLen hhl).1
          rw [hcol, UInt16.toNat_zero] at hlen
          rw [show hlLen.toNat = 0 by omega, runCells_zero]

theorem Before.after (h : Before text maxChars height selStart selEnd cursorIndex i d)
    (hi : i ≤ text.length)
    (hstop : height.toNat < rowY (layoutPosOf text maxChars i).1) :
    After text maxChars height selStart selEnd cursorIndex d := by
  obtain ⟨hscratch, hrun⟩ := h.nothing_waits hi (Or.inr hstop)
  have hglyphs := h.glyphs
  have hcells := h.cells
  rw [Redraw.glyphs, hscratch, lineGlyphs_nil, List.append_nil] at hglyphs
  rw [Redraw.cells, hrun, List.append_nil] at hcells
  have hnot : ∀ k, i ≤ k → ¬Drawn text maxChars height k := by
    intro k hk hdrawn
    have := hdrawn i hk
    omega
  constructor
  · rw [hglyphs]
    refine (flatMap_range_cut hi ?_ ?_).symm
    · intro k hk
      rw [if_pos (h.drawn_of_lt hk)]
    · intro k hk
      rw [if_neg (hnot k hk)]
  · rw [hcells]
    refine (flatMap_range_cut hi ?_ ?_).symm
    · intro k hk
      rw [if_pos (h.drawn_of_lt hk)]
    · intro k hk
      rw [if_neg (hnot k hk)]
  · rw [h.cursor]
    by_cases hlt : cursorIndex < i
    · rw [if_pos hlt, if_pos (h.drawn_of_lt hlt)]
    · rw [if_neg hlt, if_neg (hnot cursorIndex (by omega))]
  · exact h.carets

@[simp] theorem seeCursor_glyphs (here : Bool) (d : Redraw) :
    (seeCursor here d).glyphs = d.glyphs := by
  cases here <;> rfl

@[simp] theorem seeCursor_cells (here : Bool) (d : Redraw) :
    (seeCursor here d).cells = d.cells := by
  cases here <;> rfl

@[simp] theorem seeCursor_row (here : Bool) (d : Redraw) : (seeCursor here d).row = d.row := by
  cases here <;> rfl

@[simp] theorem seeCursor_col (here : Bool) (d : Redraw) : (seeCursor here d).col = d.col := by
  cases here <;> rfl

@[simp] theorem seeCursor_lineScratchpad (here : Bool) (d : Redraw) :
    (seeCursor here d).lineScratchpad = d.lineScratchpad := by
  cases here <;> rfl

@[simp] theorem seeCursor_highlight (here : Bool) (d : Redraw) :
    (seeCursor here d).highlight = d.highlight := by
  cases here <;> rfl

@[simp] theorem seeCursor_calls (here : Bool) (d : Redraw) :
    (seeCursor here d).calls = d.calls := by
  cases here <;> rfl

theorem col_lt (hmax : 1 ≤ maxChars) (hi : i ≤ text.length) :
    (layoutPosOf text maxChars i).2 < maxChars := by
  rw [UInt16.lt_iff_toNat_lt, toNat_col hmax hi]
  exact colOf_lt text (UInt16.le_iff_toNat_le.mp hmax) i

/-- Once the loop has passed the byte of the caret, the caret is noted. -/
theorem Before.seeCursor_cursor
    (h : Before text maxChars height selStart selEnd cursorIndex i d) (hmax : 1 ≤ maxChars)
    (hmax' : maxChars ≤ 127) (hi : i ≤ text.length) :
    (seeCursor (i = cursorIndex) d).cursor =
      if cursorIndex < i + 1 then some (drawnPlace text maxChars cursorIndex) else none := by
  by_cases hhere : i = cursorIndex
  · have hcol := UInt16.lt_iff_toNat_lt.mp (col_lt hmax hi)
    have hbound := UInt16.le_iff_toNat_le.mp hmax'
    rw [show (127 : UInt16).toNat = 127 from rfl] at hbound
    rw [seeCursor, if_pos (decide_eq_true hhere), if_pos (by omega), ← hhere, drawnPlace, placeOf,
      h.row, h.col, int16_eq (by omega) (by omega), Int.mul_comm]
  · rw [seeCursor, if_neg (by simpa using hhere), h.cursor]
    by_cases hlt : cursorIndex < i
    · rw [if_pos hlt, if_pos (by omega)]
    · rw [if_neg hlt, if_neg (by omega)]

theorem Before.after_end
    (h : Before text maxChars height selStart selEnd cursorIndex text.length d)
    (hmax : 1 ≤ maxChars) (hmax' : maxChars ≤ 127) (hcursor : cursorIndex ≤ text.length)
    (hpass : rowY (layoutPosOf text maxChars text.length).1 ≤ height.toNat) :
    After text maxChars height selStart selEnd cursorIndex
      (seeCursor (text.length = cursorIndex) d) := by
  obtain ⟨hscratch, hrun⟩ := h.nothing_waits (Nat.le_refl _) (Or.inl rfl)
  have hglyphs := h.glyphs
  have hcells := h.cells
  rw [Redraw.glyphs, hscratch, lineGlyphs_nil, List.append_nil] at hglyphs
  rw [Redraw.cells, hrun, List.append_nil] at hcells
  have hdrawn : ∀ k ≤ text.length, Drawn text maxChars height k := by
    intro k hk j hj
    rcases Nat.lt_or_eq_of_le (hj.trans hk) with hlt | rfl
    · exact h.drawn j hlt
    · exact hpass
  constructor
  · rw [seeCursor_calls, hglyphs]
    apply List.flatMap_congr
    intro k hk
    rw [if_pos (hdrawn k (Nat.le_of_lt (List.mem_range.mp hk)))]
  · rw [seeCursor_calls, hcells]
    apply List.flatMap_congr
    intro k hk
    rw [if_pos (hdrawn k (Nat.le_of_lt (List.mem_range.mp hk)))]
  · rw [h.seeCursor_cursor hmax hmax' (Nat.le_refl _), if_pos (by omega),
      if_pos (hdrawn cursorIndex hcursor)]
  · rw [seeCursor_calls, h.carets]

/-- The body of the loop draws byte `i`. -/
theorem Before.step (h : Before text maxChars height selStart selEnd cursorIndex i d)
    (hmax : 1 ≤ maxChars) (hmax' : maxChars ≤ 127) (hend : selEnd ≤ text.length)
    (hi : i < text.length) (hpass : rowY (layoutPosOf text maxChars i).1 ≤ height.toNat)
    (theme : Theme) :
    ∃ d', drawByte theme maxChars selStart selEnd i (i + 1 = text.length) text[i]
        (seeCursor (i = cursorIndex) d) = some d' ∧
      Before text maxChars height selStart selEnd cursorIndex (i + 1) d' := by
  have hpending := h.pending hi
  have hcursor := h.seeCursor_cursor hmax hmax' (Nat.le_of_lt hi)
  have hseen : Pending selStart selEnd i (seeCursor (i = cursorIndex) d) :=
    ⟨by simpa using hpending.bytes, by simpa using hpending.fits, by simpa using hpending.run⟩
  obtain ⟨d', hbody, hadds⟩ := drawByte_adds hmax' hseen
    (by rw [seeCursor_col, h.col]; exact col_lt hmax (Nat.le_of_lt hi))
    theme (i + 1 = text.length) text[i]
  have hglyphs := hadds.glyphs
  have hcells := hadds.cells
  have hplace := hadds.place
  have hcarets := hadds.carets
  rw [seeCursor_glyphs, seeCursor_row, seeCursor_col, h.row, h.col, h.glyphs] at hglyphs
  rw [seeCursor_cells, seeCursor_row, seeCursor_col, h.row, h.col, h.cells] at hcells
  rw [seeCursor_row, seeCursor_col, h.place, ← layoutPosOf_succ hi] at hplace
  rw [seeCursor_calls, h.carets] at hcarets
  refine ⟨d', hbody, ?_, hplace, ?_, ?_, hadds.cursor.trans hcursor, hcarets, ?_, ?_, ?_⟩
  · intro k hk
    rcases Nat.lt_or_eq_of_le (Nat.le_of_lt_succ hk) with hk | rfl
    · exact h.drawn k hk
    · exact hpass
  · rw [hglyphs, List.range_succ, List.flatMap_append, List.flatMap_singleton, drawnGlyphs,
      drawnPlace, List.getD_eq_getElem _ _ hi]
  · rw [hcells, List.range_succ, List.flatMap_append, List.flatMap_singleton, drawnCells]
  · intro hnext
    exact hadds.pending (by simpa using (by omega : i + 1 ≠ text.length))
  · intro hlast
    exact hadds.lastBytes (by simpa using hlast)
  · intro hlast
    exact hadds.lastRun (by omega)

/-- The loop goes through and draws what belongs to the bytes it gets to. -/
theorem drawFrom_after (hmax : 1 ≤ maxChars) (hmax' : maxChars ≤ 127)
    (hend : selEnd ≤ text.length) (hcursor : cursorIndex ≤ text.length) (theme : Theme)
    (hi : i ≤ text.length)
    (h : Before text maxChars height selStart selEnd cursorIndex i d) :
    ∃ d', drawFrom theme maxChars height selStart selEnd cursorIndex (text.drop i) i d = some d' ∧
      After text maxChars height selStart selEnd cursorIndex d' := by
  induction hrest : text.drop i generalizing i d with
  | nil =>
      have hlast : i = text.length := by
        have := List.drop_eq_nil_iff.mp hrest
        omega
      rw [drawFrom]
      by_cases hstop : rowY d.row > height.toNat
      · exact ⟨d, if_pos hstop, h.after hi (by rwa [← h.row])⟩
      · have hpass : rowY (layoutPosOf text maxChars i).1 ≤ height.toNat := by
          rw [← h.row]
          exact Int.not_lt.mp hstop
        subst hlast
        exact ⟨seeCursor (text.length = cursorIndex) d, if_neg hstop,
          h.after_end hmax hmax' hcursor hpass⟩
  | cons target rest ih =>
      have hlt : i < text.length := by
        by_contra hge
        rw [List.drop_of_length_le (by omega)] at hrest
        cases hrest
      rw [List.drop_eq_getElem_cons hlt, List.cons.injEq] at hrest
      obtain ⟨hbyte, hdrop⟩ := hrest
      rw [drawFrom]
      by_cases hstop : rowY d.row > height.toNat
      · exact ⟨d, if_pos hstop, h.after hi (by rwa [← h.row])⟩
      · have hpass : rowY (layoutPosOf text maxChars i).1 ≤ height.toNat := by
          rw [← h.row]
          exact Int.not_lt.mp hstop
        obtain ⟨d', hbody, hbefore⟩ := h.step hmax hmax' hend hlt hpass theme
        have hempty : rest.isEmpty = decide (i + 1 = text.length) := by
          rw [Bool.eq_iff_iff, ← hdrop, List.isEmpty_iff, List.drop_eq_nil_iff, decide_eq_true_iff]
          omega
        obtain ⟨d'', hloop, hafter⟩ := ih hlt hbefore hdrop
        refine ⟨d'', ?_, hafter⟩
        rw [if_neg hstop, hempty, ← hbyte, hbody]
        exact hloop

end Loop

/-! ## The drawing and the layout -/

/-- The place `layout_pos_of` gives a byte. -/
def layoutPlace (text : List UInt8) (maxChars : UInt16) (i : Nat) : Int × Int :=
  (8 + 6 * ((layoutPosOf text maxChars i).2.toNat : Int),
    24 + 12 * ((layoutPosOf text maxChars i).1.toNat : Int))

/-- A byte is in a row that starts in the window. -/
def Visible (text : List UInt8) (maxChars height : UInt16) (i : Nat) : Prop :=
  (layoutPlace text maxChars i).2 ≤ height.toNat

instance (text : List UInt8) (maxChars height : UInt16) (i : Nat) :
    Decidable (Visible text maxChars height i) :=
  inferInstanceAs (Decidable (_ ≤ _))

def Selected (state : NotepadWindowState) (i : Nat) : Prop :=
  state.selectionStart.toNat ≤ i ∧ i < state.selectionEnd.toNat

instance (state : NotepadWindowState) (i : Nat) : Decidable (Selected state i) :=
  inferInstanceAs (Decidable (_ ∧ _))

/-- `handle_notepad_redraw` stays in its scratch buffer. Below the frame it draws the
characters of the visible bytes, the cells of the selected ones and the caret, each in the
place of the layout and nothing besides. -/
def DrawsLayout (theme : Theme) (width height : UInt16) (state : NotepadWindowState) : Prop :=
  ∃ calls, handleNotepadRedraw theme width height state =
      some (drawFrame theme width height ++ calls) ∧
    calls.flatMap DrawCall.glyphs = (List.range state.text.length).flatMap (fun i =>
      if Visible state.text (notepadMaxChars width) height i then
        glyphAt (layoutPlace state.text (notepadMaxChars width) i) (state.text.getD i 0)
      else []) ∧
    calls.flatMap DrawCall.cells = (List.range state.text.length).flatMap (fun i =>
      if Visible state.text (notepadMaxChars width) height i ∧ Selected state i then
        [layoutPlace state.text (notepadMaxChars width) i]
      else []) ∧
    calls.flatMap DrawCall.carets =
      if Visible state.text (notepadMaxChars width) height state.cursorIndex.toNat then
        [layoutPlace state.text (notepadMaxChars width) state.cursorIndex.toNat]
      else []

theorem notepadMaxChars_bounds (width : UInt16) :
    1 ≤ notepadMaxChars width ∧ notepadMaxChars width ≤ 127 := by
  rw [UInt16.le_iff_toNat_le, UInt16.le_iff_toNat_le, notepadMaxChars, UInt16.ofInt,
    UInt16.toNat_ofNat', show (1 : UInt16).toNat = 1 from rfl,
    show (127 : UInt16).toNat = 127 from rfl]
  generalize ((width.toNat : Int) - 16).tdiv 6 = chars
  split_ifs <;> omega

section Places

variable {text : List UInt8} {maxChars height : UInt16} {k : Nat}

theorem rowY_eq (row : UInt16) :
    rowY row = if (24 + row.toNat * 12) % 65536 < 32768 then
      (((24 + row.toNat * 12) % 65536 : Nat) : Int)
      else ((24 + row.toNat * 12) % 65536 : Nat) - 65536 := by
  rw [rowY, int16, wrap, Int.bmod_def]
  split_ifs <;> omega

/-- With fewer than 65536 rows the 16-bit counter is the row. -/
theorem row_eq (hmax : 1 ≤ maxChars) (hrows : rowOf maxChars.toNat text text.length < 65536)
    (hk : k ≤ text.length) :
    (layoutPosOf text maxChars k).1.toNat = rowOf maxChars.toNat text k := by
  have hmono := rowOf_mono maxChars.toNat text hk (Nat.le_refl _)
  rw [toNat_row hmax hk, Nat.mod_eq_of_lt (by omega)]

theorem drawnPlace_snd : (drawnPlace text maxChars k).2 = rowY (layoutPosOf text maxChars k).1 := by
  rw [drawnPlace, placeOf]

/-- The place of the loop is that of the layout while its row fits 16 bits with sign. -/
theorem drawnPlace_eq (hheight : height < 32768) (h : Visible text maxChars height k) :
    drawnPlace text maxChars k = layoutPlace text maxChars k ∧
      int16 (rowY (layoutPosOf text maxChars k).1 - 2) + 2 = (layoutPlace text maxChars k).2 := by
  have hbound := UInt16.lt_iff_toNat_lt.mp hheight
  rw [show (32768 : UInt16).toNat = 32768 from rfl] at hbound
  rw [Visible, layoutPlace] at h
  dsimp only at h
  have hrow : rowY (layoutPosOf text maxChars k).1 =
      24 + 12 * ((layoutPosOf text maxChars k).1.toNat : Int) := by
    rw [rowY, int16_eq (by omega) (by omega), Int.mul_comm]
  rw [drawnPlace, placeOf, layoutPlace, hrow, int16_eq (by omega) (by omega)]
  exact ⟨rfl, by omega⟩

/-- Visible bytes are drawn. -/
theorem Visible.drawn (hmax : 1 ≤ maxChars)
    (hrows : rowOf maxChars.toNat text text.length < 65536) (hk : k ≤ text.length)
    (hheight : height < 32768) (h : Visible text maxChars height k) :
    Drawn text maxChars height k := by
  intro j hj
  have hmono := rowOf_mono maxChars.toNat text hj hk
  have hvisible : Visible text maxChars height j := by
    rw [Visible, layoutPlace, row_eq hmax hrows hk] at h
    rw [Visible, layoutPlace, row_eq hmax hrows (hj.trans hk)]
    dsimp only at h ⊢
    omega
  rw [← drawnPlace_snd, (drawnPlace_eq hheight hvisible).1]
  exact hvisible

/-- The loop gets to a byte although its row starts below the window. -/
def Misdrawn (text : List UInt8) (maxChars height : UInt16) (k : Nat) : Prop :=
  Drawn text maxChars height k ∧ ¬Visible text maxChars height k

/-- The rows that are drawn although they start below the window: from row 2729 on the
place of a row does not fit 16 bits, and only row 13651 may still end the loop. -/
theorem misdrawn_iff (hmax : 1 ≤ maxChars)
    (hrows : rowOf maxChars.toNat text text.length < 65536) (hk : k ≤ text.length)
    (hheight : height < 32768) :
    Misdrawn text maxChars height k ↔ 32760 ≤ height.toNat ∧
      2729 ≤ rowOf maxChars.toNat text k ∧
      (32764 ≤ height.toNat ∨ rowOf maxChars.toNat text k < 13651) := by
  have hbound := UInt16.lt_iff_toNat_lt.mp hheight
  rw [show (32768 : UInt16).toNat = 32768 from rfl] at hbound
  have hvisible : Visible text maxChars height k ↔
      24 + 12 * rowOf maxChars.toNat text k ≤ height.toNat := by
    rw [Visible, layoutPlace, row_eq hmax hrows hk]
    dsimp only
    omega
  have hdrawn : ∀ row ≤ rowOf maxChars.toNat text k, Drawn text maxChars height k →
      ∃ counter : UInt16, counter.toNat = row ∧ rowY counter ≤ height.toNat := by
    intro row hrow h
    obtain ⟨j, hj, hfirst, -⟩ := exists_first hk hrow
    exact ⟨_, (row_eq hmax hrows (hj.trans hk)).trans hfirst, h j hj⟩
  rw [Misdrawn, hvisible]
  constructor
  · intro ⟨h, hbelow⟩
    have hlarge : 32760 ≤ height.toNat := by
      by_contra hsmall
      -- The first row below the window fits 16 bits and ends the loop.
      obtain ⟨counter, hrow, hpass⟩ := hdrawn
        (if height.toNat < 24 then 0 else (height.toNat - 24) / 12 + 1)
        (by split_ifs <;> omega) h
      rw [rowY_eq, hrow] at hpass
      split_ifs at hpass <;> omega
    refine ⟨hlarge, by omega, ?_⟩
    by_contra hend
    obtain ⟨counter, hrow, hpass⟩ := hdrawn 13651 (by omega) h
    rw [rowY_eq, hrow] at hpass
    split_ifs at hpass <;> omega
  · intro ⟨hlarge, hrow, hend⟩
    refine ⟨?_, by omega⟩
    intro j hj
    have hmono := rowOf_mono maxChars.toNat text hj hk
    rw [rowY_eq, row_eq hmax hrows (hj.trans hk)]
    split_ifs <;> omega

end Places

/-- Two drawings of which the second leaves out parts of the first are the same where it
leaves out nothing. -/
theorem flatMap_range_eq_iff {α : Type} {f g : Nat → List α} {n : Nat}
    (h : ∀ k < n, f k = g k ∨ g k = []) :
    (List.range n).flatMap f = (List.range n).flatMap g ↔ ∀ k < n, f k = g k := by
  constructor
  · intro heq
    have hlength : ∀ m ≤ n, ((List.range m).flatMap g).length ≤
        ((List.range m).flatMap f).length := by
      intro m hm
      induction m with
      | zero => exact Nat.le_refl _
      | succ m ih =>
          have := ih (by omega)
          simp only [List.range_succ, List.flatMap_append, List.length_append,
            List.flatMap_singleton]
          rcases h m hm with hsame | hnil
          · rw [hsame]
            omega
          · rw [hnil, List.length_nil]
            omega
    have hsame : ∀ m ≤ n, (List.range m).flatMap f = (List.range m).flatMap g →
        ∀ k < m, f k = g k := by
      intro m hm heq
      induction m with
      | zero => omega
      | succ m ih =>
          simp only [List.range_succ, List.flatMap_append, List.flatMap_singleton] at heq
          have hlast : f m = g m := by
            rcases h m hm with hsame | hnil
            · exact hsame
            · have hlen := congrArg List.length heq
              have := hlength m (by omega)
              rw [hnil, List.append_nil, List.length_append] at hlen
              rw [hnil]
              exact List.length_eq_zero_iff.mp (by omega)
          rw [hlast] at heq
          intro k hk
          rcases Nat.lt_or_eq_of_le (Nat.le_of_lt_succ hk) with hk | rfl
          · exact ih (by omega) (List.append_cancel_right heq) k hk
          · exact hlast
    exact hsame n (Nat.le_refl n) heq
  · intro hall
    apply List.flatMap_congr
    intro k hk
    exact hall k (List.mem_range.mp hk)

section Result

variable {theme : Theme} {width height : UInt16} {state : NotepadWindowState}

/-- What `handle_notepad_redraw` draws of a document. -/
theorem handleNotepadRedraw_after (theme : Theme) (width height : UInt16)
    (hwf : state.WellFormed) (hbuffer : state.textBuffer.isSome) :
    ∃ d, handleNotepadRedraw theme width height state =
        some (drawFrame theme width height ++ drawCursor theme d) ∧
      After state.text (notepadMaxChars width) height state.selectionStart.toNat
        state.selectionEnd.toNat state.cursorIndex.toNat d := by
  obtain ⟨hmax, hmax'⟩ := notepadMaxChars_bounds width
  have hlength := hwf.text_length
  have hcursor := UInt32.le_iff_toNat_le.mp hwf.cursor
  have hend := hwf.selectionEnd_le
  have hstart : Before state.text (notepadMaxChars width) height state.selectionStart.toNat
      state.selectionEnd.toNat state.cursorIndex.toNat 0 ⟨0, 0, [], none, none, []⟩ :=
    ⟨nofun, rfl, rfl, rfl, rfl, rfl, fun _ => ⟨nofun, rfl, nofun⟩, fun _ => rfl, fun _ => rfl⟩
  obtain ⟨d, hloop, hafter⟩ := drawFrom_after hmax hmax' (by omega) (by omega) theme
    (Nat.zero_le _) hstart
  refine ⟨d, ?_, hafter⟩
  have hnone : ¬state.textBuffer.isNone := by simpa using Option.isSome_iff_ne_none.mp hbuffer
  rw [List.drop_zero] at hloop
  rw [handleNotepadRedraw]
  simp only [hnone, hloop, Option.bind_eq_bind, Option.bind_some]
  rfl

@[simp] theorem drawCursor_glyphs (theme : Theme) (d : Redraw) :
    (drawCursor theme d).flatMap DrawCall.glyphs = d.calls.flatMap DrawCall.glyphs := by
  rw [drawCursor]
  split <;> simp [DrawCall.glyphs]

@[simp] theorem drawCursor_cells (theme : Theme) (d : Redraw) :
    (drawCursor theme d).flatMap DrawCall.cells = d.calls.flatMap DrawCall.cells := by
  rw [drawCursor]
  split <;> simp [DrawCall.cells]

theorem drawCursor_carets (theme : Theme) {d : Redraw}
    (hcalls : d.calls.flatMap DrawCall.carets = []) :
    (drawCursor theme d).flatMap DrawCall.carets =
      d.cursor.toList.map fun place => (place.1, int16 (place.2 - 1) + 1) := by
  rw [drawCursor]
  split
  · next hnone => rw [hcalls, hnone, Option.toList_none, List.map_nil]
  · next hsome => simp [DrawCall.carets, hcalls, hsome]

/-- What is drawn of a byte is what belongs there, unless it is drawn below the window. -/
theorem agree_iff {α : Type} {text : List UInt8} {maxChars : UInt16} {k : Nat}
    {drawnPart layoutPart : List α} (hmax : 1 ≤ maxChars)
    (hrows : rowOf maxChars.toNat text text.length < 65536) (hk : k ≤ text.length)
    (hheight : height < 32768)
    (hsame : Visible text maxChars height k → drawnPart = layoutPart) :
    let drawn := if Drawn text maxChars height k then drawnPart else []
    let expected := if Visible text maxChars height k then layoutPart else []
    (drawn = expected ∨ expected = []) ∧
      (drawn = expected ↔ (Misdrawn text maxChars height k → drawnPart = [])) := by
  dsimp only
  by_cases hvisible : Visible text maxChars height k
  · rw [if_pos hvisible, if_pos (hvisible.drawn hmax hrows hk hheight), hsame hvisible]
    exact ⟨Or.inl rfl, fun _ h => absurd hvisible h.2, fun _ => rfl⟩
  · rw [if_neg hvisible]
    refine ⟨Or.inr rfl, ?_⟩
    by_cases hdrawn : Drawn text maxChars height k
    · rw [if_pos hdrawn]
      exact ⟨fun h _ => h, fun h => h ⟨hdrawn, hvisible⟩⟩
    · rw [if_neg hdrawn]
      exact ⟨fun _ h => absurd h.1 hdrawn, fun _ => rfl⟩

theorem glyphAt_eq_nil {place : Int × Int} {target : UInt8} :
    glyphAt place target = [] ↔ target = newline := by
  rw [glyphAt]
  split_ifs with hbyte
  · exact ⟨fun _ => hbyte, fun _ => rfl⟩
  · exact ⟨nofun, fun h => absurd h hbyte⟩

theorem drawnCells_eq_nil {text : List UInt8} {maxChars : UInt16} {k : Nat} :
    drawnCells text maxChars state.selectionStart.toNat state.selectionEnd.toNat k = [] ↔
      ¬Selected state k := by
  rw [drawnCells, selectedAt]
  split_ifs with hselected
  · exact ⟨nofun, fun h => absurd (of_decide_eq_true hselected) h⟩
  · exact ⟨fun _ h => hselected (decide_eq_true h), fun _ => rfl⟩

theorem caret_eq {text : List UInt8} {maxChars : UInt16} {k : Nat} (hheight : height < 32768)
    (h : Visible text maxChars height k) :
    ((layoutPlace text maxChars k).1, int16 ((layoutPlace text maxChars k).2 - 1) + 1) =
      layoutPlace text maxChars k := by
  have hbound := UInt16.lt_iff_toNat_lt.mp hheight
  rw [show (32768 : UInt16).toNat = 32768 from rfl] at hbound
  have hplace : 24 ≤ (layoutPlace text maxChars k).2 := by
    rw [layoutPlace]
    omega
  rw [Visible] at h
  rw [int16_eq (by omega) (by omega), Int.sub_add_cancel]

/-- Something is drawn of a byte: its character, its cell of the selection or the caret. -/
def Shows (state : NotepadWindowState) (i : Nat) : Prop :=
  i < state.text.length ∧ (state.text.getD i 0 ≠ newline ∨ Selected state i) ∨
    i = state.cursorIndex.toNat

theorem drawsLayout_iff {d : Redraw} (hcalls : handleNotepadRedraw theme width height state =
    some (drawFrame theme width height ++ drawCursor theme d)) :
    DrawsLayout theme width height state ↔
      (drawCursor theme d).flatMap DrawCall.glyphs =
        (List.range state.text.length).flatMap (fun i =>
          if Visible state.text (notepadMaxChars width) height i then
            glyphAt (layoutPlace state.text (notepadMaxChars width) i) (state.text.getD i 0)
          else []) ∧
      (drawCursor theme d).flatMap DrawCall.cells =
        (List.range state.text.length).flatMap (fun i =>
          if Visible state.text (notepadMaxChars width) height i ∧ Selected state i then
            [layoutPlace state.text (notepadMaxChars width) i]
          else []) ∧
      (drawCursor theme d).flatMap DrawCall.carets =
        if Visible state.text (notepadMaxChars width) height state.cursorIndex.toNat then
          [layoutPlace state.text (notepadMaxChars width) state.cursorIndex.toNat]
        else [] := by
  constructor
  · intro ⟨calls, hcalls', hdraws⟩
    rw [hcalls, Option.some.injEq] at hcalls'
    rwa [List.append_cancel_left hcalls']
  · intro hdraws
    exact ⟨drawCursor theme d, hcalls, hdraws⟩

theorem drawsLayout_iff_misdrawn (hwf : state.WellFormed) (hbuffer : state.textBuffer.isSome)
    (hrows : rowOf (notepadMaxChars width).toNat state.text state.text.length < 65536)
    (hheight : height < 32768) :
    DrawsLayout theme width height state ↔
      ∀ i ≤ state.text.length, Misdrawn state.text (notepadMaxChars width) height i →
        ¬Shows state i := by
  have hmax := (notepadMaxChars_bounds width).1
  have hlength := hwf.text_length
  have hcursor := UInt32.le_iff_toNat_le.mp hwf.cursor
  obtain ⟨d, hcalls, hafter⟩ := handleNotepadRedraw_after theme width height hwf hbuffer
  have hglyph := fun k (hk : k ≤ state.text.length) => agree_iff hmax hrows hk hheight
    fun hvisible => show drawnGlyphs state.text (notepadMaxChars width) k =
        glyphAt (layoutPlace state.text (notepadMaxChars width) k) (state.text.getD k 0) by
      rw [drawnGlyphs, (drawnPlace_eq hheight hvisible).1]
  have hcell := fun k (hk : k ≤ state.text.length) => agree_iff hmax hrows hk hheight
    fun hvisible => show drawnCells state.text (notepadMaxChars width)
        state.selectionStart.toNat state.selectionEnd.toNat k =
          if Selected state k then [layoutPlace state.text (notepadMaxChars width) k] else [] by
      rw [drawnCells, selectedAt, (drawnPlace_eq hheight hvisible).2]
      simp only [decide_eq_true_eq]
      rfl
  have hcaret := agree_iff hmax hrows (k := state.cursorIndex.toNat) (by omega) hheight
    fun hvisible => show [((drawnPlace state.text (notepadMaxChars width)
        state.cursorIndex.toNat).1, int16 ((drawnPlace state.text (notepadMaxChars width)
          state.cursorIndex.toNat).2 - 1) + 1)] =
        [layoutPlace state.text (notepadMaxChars width) state.cursorIndex.toNat] by
      rw [(drawnPlace_eq hheight hvisible).1, caret_eq hheight hvisible]
  have hglyphs : (drawCursor theme d).flatMap DrawCall.glyphs =
        (List.range state.text.length).flatMap (fun i =>
          if Visible state.text (notepadMaxChars width) height i then
            glyphAt (layoutPlace state.text (notepadMaxChars width) i) (state.text.getD i 0)
          else []) ↔
      ∀ k < state.text.length, Misdrawn state.text (notepadMaxChars width) height k →
        state.text.getD k 0 = newline := by
    rw [drawCursor_glyphs, hafter.glyphs,
      flatMap_range_eq_iff (fun k hk => (hglyph k (Nat.le_of_lt hk)).1)]
    apply forall₂_congr
    intro k hk
    rw [(hglyph k (Nat.le_of_lt hk)).2, drawnGlyphs, glyphAt_eq_nil]
  have hcells : (drawCursor theme d).flatMap DrawCall.cells =
        (List.range state.text.length).flatMap (fun i =>
          if Visible state.text (notepadMaxChars width) height i ∧ Selected state i then
            [layoutPlace state.text (notepadMaxChars width) i]
          else []) ↔
      ∀ k < state.text.length, Misdrawn state.text (notepadMaxChars width) height k →
        ¬Selected state k := by
    simp only [ite_and]
    rw [drawCursor_cells, hafter.cells,
      flatMap_range_eq_iff (fun k hk => (hcell k (Nat.le_of_lt hk)).1)]
    apply forall₂_congr
    intro k hk
    rw [(hcell k (Nat.le_of_lt hk)).2, drawnCells_eq_nil]
  have hcarets : (drawCursor theme d).flatMap DrawCall.carets =
        (if Visible state.text (notepadMaxChars width) height state.cursorIndex.toNat then
          [layoutPlace state.text (notepadMaxChars width) state.cursorIndex.toNat]
        else []) ↔
      ¬Misdrawn state.text (notepadMaxChars width) height state.cursorIndex.toNat := by
    have hdrawn : (drawCursor theme d).flatMap DrawCall.carets = _ :=
      drawCursor_carets theme hafter.carets
    rw [hdrawn, hafter.cursor, apply_ite Option.toList, apply_ite (List.map _)]
    refine hcaret.2.trans ⟨fun h hmis => ?_, fun h hmis => absurd hmis h⟩
    exact List.cons_ne_nil _ _ (h hmis)
  rw [drawsLayout_iff hcalls, hglyphs, hcells, hcarets]
  constructor
  · intro ⟨hglyphs, hcells, hnocaret⟩ i _ hmis hshows
    rcases hshows with ⟨hi, hbyte | hselected⟩ | rfl
    · exact hbyte (hglyphs i hi hmis)
    · exact hcells i hi hmis hselected
    · exact hnocaret hmis
  · intro hnothing
    refine ⟨?_, ?_, ?_⟩
    · intro k hk hmis
      by_contra hbyte
      exact hnothing k (Nat.le_of_lt hk) hmis (Or.inl ⟨hk, Or.inl hbyte⟩)
    · intro k hk hmis hselected
      exact hnothing k (Nat.le_of_lt hk) hmis (Or.inl ⟨hk, Or.inr hselected⟩)
    · intro hmis
      exact hnothing state.cursorIndex.toNat (by omega) hmis (Or.inr rfl)

/-- The drawing agrees with the layout unless something is drawn in a row whose place does
not fit 16 bits. -/
theorem handleNotepadRedraw_drawsLayout_iff (theme : Theme) (width : UInt16)
    (hheight : height < 32768) (hwf : state.WellFormed) (hbuffer : state.textBuffer.isSome)
    (hrows : rowOf (notepadMaxChars width).toNat state.text state.text.length < 65536) :
    DrawsLayout theme width height state ↔
      ∀ i ≤ state.text.length, 32760 ≤ height.toNat →
        2729 ≤ rowOf (notepadMaxChars width).toNat state.text i →
        (32764 ≤ height.toNat ∨ rowOf (notepadMaxChars width).toNat state.text i < 13651) →
        ¬Shows state i := by
  rw [drawsLayout_iff_misdrawn hwf hbuffer hrows hheight]
  apply forall₂_congr
  intro i hi
  rw [misdrawn_iff (notepadMaxChars_bounds width).1 hrows hi hheight]
  tauto

end Result

/-- Colours that are all black. -/
def Theme.black : Theme := ⟨0, 0, 0, 0, 0, 0, 0⟩

/-- A line of twelve letters and one of two, with a selection over the line break. -/
def NotepadWindowState.letters : NotepadWindowState :=
  ⟨some (List.replicate 12 97 ++ [newline, 98, 98]), 15, 15, 3, 14⟩

/-- A window in which the first line takes two rows. -/
theorem handleNotepadRedraw_drawsLayout_iff_letter :
    NotepadWindowState.letters.WellFormed ∧
      (List.range 16).map (rowOf (notepadMaxChars 80).toNat NotepadWindowState.letters.text) =
        [0, 0, 0, 0, 0, 0, 0, 0, 0, 0, 1, 1, 1, 2, 2, 2] ∧
      DrawsLayout .black 80 100 .letters := by
  have hwf : NotepadWindowState.letters.WellFormed := ⟨rfl, by decide, by decide, by decide⟩
  refine ⟨hwf, by decide, ?_⟩
  apply (handleNotepadRedraw_drawsLayout_iff .black 80 (by decide) hwf rfl (by decide)).mpr
  intro _ _ hheight
  exact absurd hheight (by decide)

theorem rowOf_le (width : Nat) (text : List UInt8) (i : Nat) : rowOf width text i ≤ i := by
  induction i with
  | zero => exact Nat.le_refl 0
  | succ i ih =>
      by_cases hi : i < text.length
      · by_cases hends : EndsRow width text i
        · rw [(rowOf_succ_of_ends hi hends).1]
          omega
        · rw [(rowOf_succ_of_not_ends hi hends).1]
          omega
      · rw [rowOf, cellOf, List.take_of_length_le (by omega)] at ih ⊢
        omega

theorem rowOf_breaks (width : Nat) {n i : Nat} (rest : List UInt8) (hi : i ≤ n) :
    rowOf width (List.replicate n newline ++ rest) i = i := by
  induction i with
  | zero => rfl
  | succ i ih =>
      have hbyte : (List.replicate n newline ++ rest)[i]? = some newline := by
        rw [List.getElem?_append_left (by rw [List.length_replicate]; omega),
          List.getElem?_replicate, if_pos (by omega)]
      rw [(rowOf_succ_of_ends (by simp; omega) (Or.inl hbyte)).1, ih (by omega)]

/-- A letter behind 5460 line breaks. -/
def NotepadWindowState.longText : NotepadWindowState :=
  ⟨some (List.replicate 5460 newline ++ [97]), 5461, 5461, 0, 0⟩

/-- The letter is drawn over the menu bar of a window that is 32767 pixels high. -/
theorem handleNotepadRedraw_wraps :
    ¬DrawsLayout .black 200 32767 .longText := by
  have hlength : (List.replicate 5460 newline ++ [97]).length = 5461 := by
    rw [List.length_append, List.length_replicate, List.length_singleton]
  have htext : NotepadWindowState.longText.text = List.replicate 5460 newline ++ [97] :=
    List.take_of_length_le (Nat.le_of_eq hlength)
  have hwf : NotepadWindowState.longText.WellFormed := ⟨hlength, by decide, by decide, by decide⟩
  have hrows : rowOf (notepadMaxChars 200).toNat NotepadWindowState.longText.text
      NotepadWindowState.longText.text.length < 65536 := by
    have := rowOf_le (notepadMaxChars 200).toNat NotepadWindowState.longText.text
      NotepadWindowState.longText.text.length
    rw [htext, hlength] at *
    omega
  rw [drawsLayout_iff_misdrawn hwf rfl hrows (by decide)]
  intro hnothing
  rw [htext, hlength] at hnothing
  rw [htext] at hrows
  apply hnothing 5460 (by omega)
  · rw [misdrawn_iff (notepadMaxChars_bounds 200).1 hrows (by rw [hlength]; omega) (by decide),
      rowOf_breaks _ _ (Nat.le_refl _)]
    exact ⟨by decide, by decide, by decide⟩
  · refine Or.inl ⟨by rw [htext, hlength]; omega, Or.inl ?_⟩
    rw [htext, List.getD_append_right _ _ _ _ (by rw [List.length_replicate]),
      List.length_replicate]
    decide

end AvrKernel.Notepad

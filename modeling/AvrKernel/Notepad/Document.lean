import AvrKernel.Lib.Blocks

/-!
# The document of the notepad

`notepad/procedure.c`: the text lies in a buffer that grows when bytes are inserted.
Between the caret and the anchor lies the selection. An access outside of the buffer
is a fault, and nothing comes of it.
-/

namespace AvrKernel.Notepad

open Bytes

/-- The document of `struct NotepadWindowState`. -/
structure NotepadWindowState where
  /-- The bytes of the buffer, if there is one. -/
  textBuffer : Option (List UInt8)
  textCapacity : UInt32
  textLength : UInt32
  cursorIndex : UInt32
  selAnchor : UInt32
  deriving DecidableEq

/-- What `realloc` finds: for a size either no memory or the bytes of a new block. -/
abbrev Heap := UInt32 → Option (Nat → UInt8)

/-- The bytes of a grown block: those of the old one, then new ones. -/
def realloc (heap : Heap) (old : Option (List UInt8)) (size : UInt32) : Option (List UInt8) :=
  (heap size).map fun fresh =>
    (List.range size.toNat).map fun i => (old.getD []).getD i (fresh i)

def memmove (buffer : List UInt8) (off src n : Nat) : Option (List UInt8) :=
  Blocks.copy buffer src off n buffer

namespace NotepadWindowState

/-- The text. -/
def text (state : NotepadWindowState) : List UInt8 :=
  (state.textBuffer.getD []).take state.textLength.toNat

def hasSelection (state : NotepadWindowState) : Bool := state.selAnchor ≠ state.cursorIndex

def selectionStart (state : NotepadWindowState) : UInt32 :=
  if state.selAnchor < state.cursorIndex then state.selAnchor else state.cursorIndex

def selectionEnd (state : NotepadWindowState) : UInt32 :=
  if state.selAnchor > state.cursorIndex then state.selAnchor else state.cursorIndex

def moveCursor (state : NotepadWindowState) (index : UInt32) (extend : Bool) :
    NotepadWindowState :=
  let index := if index > state.textLength then state.textLength else index
  { state with
    cursorIndex := index, selAnchor := if ¬extend then index else state.selAnchor }

/-- The loop of `ensure_capacity`; from 0 on it does not end. -/
def doubled (needed : UInt32) : Nat → UInt32 → Option UInt32
  | 0, _ => none
  | n + 1, capacity =>
      if capacity < needed then doubled needed n (capacity * 2) else some capacity

/-- Room for `extra` more bytes. -/
def ensureCapacity (heap : Heap) (n : Nat) (extra : UInt32) (state : NotepadWindowState) :
    Option (Bool × NotepadWindowState) :=
  let needed := state.textLength + extra
  if state.textBuffer.isSome ∧ needed ≤ state.textCapacity then some (true, state)
  else do
    let newCapacity ← doubled needed n (if state.textCapacity > 0 then state.textCapacity else 2048)
    match realloc heap state.textBuffer newCapacity with
    | none => return (false, state)
    | some newBuf =>
        return (true, { state with textBuffer := some newBuf, textCapacity := newCapacity })

def deleteRange (start stop : UInt32) (state : NotepadWindowState) : Option NotepadWindowState :=
  let stop := if stop > state.textLength then state.textLength else stop
  if start ≥ stop then some state
  else do
    let buffer ← state.textBuffer
    let buffer ← memmove buffer start.toNat stop.toNat (state.textLength - stop).toNat
    let state := { state with
      textBuffer := some buffer, textLength := state.textLength - (stop - start) }
    return state.moveCursor start false

def deleteSelection (state : NotepadWindowState) : Option (Bool × NotepadWindowState) :=
  if ¬state.hasSelection then some (false, state)
  else do
    let state ← state.deleteRange state.selectionStart state.selectionEnd
    return (true, state)

/-- Insert bytes at the caret in place of the selection. -/
def insertBytes (heap : Heap) (n : Nat) (data : List UInt8) (state : NotepadWindowState) :
    Option (Bool × NotepadWindowState) := do
  let (_, state) ← state.deleteSelection
  let length := UInt32.ofNat data.length
  if length = 0 then return (true, state)
  else do
    let (ok, state) ← ensureCapacity heap n length state
    if ok = false then return (false, state)
    else do
      let start := state.cursorIndex
      let buffer ← state.textBuffer
      let buffer ← memmove buffer (start + length).toNat start.toNat
        (state.textLength - start).toNat
      let buffer ← Blocks.copy data 0 start.toNat data.length buffer
      let state := { state with
        textBuffer := some buffer, textLength := state.textLength + length }
      return (true, state.moveCursor (start + length) false)

/-! ## Documents -/

/-- A document whose text, caret and anchor lie in its buffer. -/
structure WellFormed (state : NotepadWindowState) : Prop where
  buffer : (state.textBuffer.getD []).length = state.textCapacity.toNat
  length : state.textLength ≤ state.textCapacity
  cursor : state.cursorIndex ≤ state.textLength
  anchor : state.selAnchor ≤ state.textLength

/-- The user sees no difference. -/
structure Same (state state' : NotepadWindowState) : Prop where
  text : state'.text = state.text
  cursor : state'.cursorIndex = state.cursorIndex
  anchor : state'.selAnchor = state.selAnchor

variable {state state' : NotepadWindowState} {heap : Heap} {n : Nat} {data : List UInt8}

theorem Same.refl (state : NotepadWindowState) : state.Same state := ⟨rfl, rfl, rfl⟩

theorem WellFormed.text_length (h : state.WellFormed) :
    state.text.length = state.textLength.toNat := by
  rw [text, List.length_take, h.buffer]
  exact Nat.min_eq_left (UInt32.le_iff_toNat_le.mp h.length)

theorem toNat_selectionStart (state : NotepadWindowState) :
    state.selectionStart.toNat = min state.selAnchor.toNat state.cursorIndex.toNat := by
  rw [selectionStart]
  split <;> rw [UInt32.lt_iff_toNat_lt] at * <;> omega

theorem toNat_selectionEnd (state : NotepadWindowState) :
    state.selectionEnd.toNat = max state.selAnchor.toNat state.cursorIndex.toNat := by
  rw [selectionEnd]
  split <;> rw [gt_iff_lt, UInt32.lt_iff_toNat_lt] at * <;> omega

theorem selection_lt (h : state.hasSelection) :
    state.selectionStart.toNat < state.selectionEnd.toNat := by
  rw [toNat_selectionStart, toNat_selectionEnd]
  have hne : state.selAnchor.toNat ≠ state.cursorIndex.toNat := by
    simpa [hasSelection, UInt32.toNat_inj] using h
  omega

theorem WellFormed.selectionEnd_le (h : state.WellFormed) :
    state.selectionEnd.toNat ≤ state.textLength.toNat := by
  have hcursor := UInt32.le_iff_toNat_le.mp h.cursor
  have hanchor := UInt32.le_iff_toNat_le.mp h.anchor
  rw [toNat_selectionEnd]
  omega

/-- Where something is selected there is a buffer. -/
theorem WellFormed.buffer_isSome (h : state.WellFormed) (hsel : state.hasSelection) :
    state.textBuffer.isSome := by
  have hlt := selection_lt hsel
  have hend := h.selectionEnd_le
  have hcapacity := UInt32.le_iff_toNat_le.mp h.length
  have hbuffer := h.buffer
  cases hb : state.textBuffer with
  | none =>
      rw [hb] at hbuffer
      simp only [Option.getD_none, List.length_nil] at hbuffer
      omega
  | some buffer => rfl

theorem deleteSelection_of_not (h : ¬state.hasSelection) :
    state.deleteSelection = some (false, state) := if_pos h

/-- The document without the selected bytes. -/
structure Deletes (state state' : NotepadWindowState) : Prop where
  wellFormed : state'.WellFormed
  text : state'.text =
    state.text.take state.selectionStart.toNat ++ state.text.drop state.selectionEnd.toNat
  capacity : state'.textCapacity = state.textCapacity
  buffer : state'.textBuffer.isSome
  cursor : state'.cursorIndex = state.selectionStart
  length : state'.textLength = state.textLength - (state.selectionEnd - state.selectionStart)

/-- Bytes from `stop` to `length` move to `start`; what they replace is left behind the text. -/
theorem memmove_back (buffer : List UInt8) {start stop length : Nat} (hstart : start ≤ stop)
    (hstop : stop ≤ length) (hlength : length ≤ buffer.length) :
    ∃ buffer', memmove buffer start stop (length - stop) = some buffer' ∧
      buffer'.length = buffer.length ∧
      buffer'.take (start + (length - stop)) =
        (buffer.take length).take start ++ (buffer.take length).drop stop := by
  have hmoved : ((buffer.drop stop).take (length - stop)).length = length - stop := by
    rw [List.length_take, List.length_drop]
    omega
  refine ⟨patch buffer start ((buffer.drop stop).take (length - stop)), ?_,
    patch_length (by omega), ?_⟩
  · exact Blocks.copy_eq_patch (by omega) (by omega)
  · have hfirst : (buffer.take start).length = start := List.length_take_of_le (by omega)
    rw [patch, List.take_append_of_le_length (by rw [List.length_append, hfirst, hmoved]),
      List.take_of_length_le (by rw [List.length_append, hfirst, hmoved]), List.take_take,
      List.drop_take, Nat.min_eq_left (by omega)]

theorem deleteSelection_spec (h : state.WellFormed) (hsel : state.hasSelection) :
    ∃ state', state.deleteSelection = some (true, state') ∧ state.Deletes state' := by
  have hlt := selection_lt hsel
  have hend := h.selectionEnd_le
  have hcapacity := UInt32.le_iff_toNat_le.mp h.length
  have hbuffer := h.buffer
  obtain ⟨buffer, hb⟩ := Option.isSome_iff_exists.mp (h.buffer_isSome hsel)
  rw [hb, Option.getD_some] at hbuffer
  obtain ⟨buffer', hmove, hlength, htext⟩ := memmove_back buffer
    (Nat.le_of_lt hlt) hend (by omega)
  have hnot : ¬state.selectionEnd > state.textLength := by
    rw [gt_iff_lt, UInt32.lt_iff_toNat_lt]
    omega
  have hstart : ¬state.selectionStart ≥ state.selectionEnd := by
    rw [ge_iff_le, UInt32.le_iff_toNat_le]
    omega
  have hrest : (state.textLength - state.selectionEnd).toNat =
      state.textLength.toNat - state.selectionEnd.toNat := Mem.toNat_sub_of_le hend
  have hgap : (state.selectionEnd - state.selectionStart).toNat =
      state.selectionEnd.toNat - state.selectionStart.toNat := Mem.toNat_sub_of_le (by omega)
  have hshorter : (state.textLength - (state.selectionEnd - state.selectionStart)).toNat =
      state.textLength.toNat - (state.selectionEnd.toNat - state.selectionStart.toNat) := by
    rw [Mem.toNat_sub_of_le (by omega), hgap]
  have hcaret : ¬state.selectionStart >
      state.textLength - (state.selectionEnd - state.selectionStart) := by
    rw [gt_iff_lt, UInt32.lt_iff_toNat_lt]
    omega
  rw [← hrest] at hmove
  refine ⟨{ state with
    textBuffer := some buffer'
    textLength := state.textLength - (state.selectionEnd - state.selectionStart)
    cursorIndex := state.selectionStart
    selAnchor := state.selectionStart }, ?_, ?_⟩
  · simp only [deleteSelection, hsel, not_true_eq_false, if_false, deleteRange, if_neg hnot,
      if_neg hstart, hb, hmove, Option.bind_eq_bind, Option.bind_some, moveCursor,
      if_neg hcaret, Option.pure_def, Bool.false_eq_true, not_false_eq_true, if_true]
  · constructor
    · constructor
      · simpa [hlength] using hbuffer
      · rw [UInt32.le_iff_toNat_le]
        dsimp only
        omega
      · exact UInt32.not_lt.mp hcaret
      · exact UInt32.not_lt.mp hcaret
    · simp only [text, hb, Option.getD_some]
      rw [hshorter, ← htext]
      congr 1
      omega
    · rfl
    · rfl
    · rfl
    · rfl

/-- A deletion is seen. -/
theorem Deletes.not_same (h : state.Deletes state') (hwf : state.WellFormed)
    (hsel : state.hasSelection) : ¬state.Same state' := by
  intro hsame
  have hlt := selection_lt hsel
  have hend := hwf.selectionEnd_le
  have hlength := congrArg List.length hsame.text
  rw [h.text, List.length_append, List.length_take, List.length_drop, hwf.text_length] at hlength
  omega

/-! ## Room for an insertion -/

theorem ensureCapacity_false_iff {extra : UInt32} :
    ensureCapacity heap n extra state = some (false, state') ↔
      state' = state ∧ ¬(state.textBuffer.isSome ∧ state.textLength + extra ≤ state.textCapacity) ∧
        ∃ size, doubled (state.textLength + extra) n
          (if state.textCapacity > 0 then state.textCapacity else 2048) = some size ∧
          heap size = none := by
  rw [ensureCapacity]
  split
  · next hroom => simp [hroom]
  · next hroom =>
    simp only [Option.bind_eq_bind, Option.bind_eq_some_iff, hroom, not_false_eq_true, true_and]
    constructor
    · rintro ⟨size, hsize, hgrow⟩
      cases hheap : heap size with
      | none =>
          simp only [realloc, hheap, Option.map_none, Option.pure_def, Option.some.injEq,
            Prod.mk.injEq, true_and] at hgrow
          exact ⟨hgrow.symm, size, hsize, hheap⟩
      | some fresh => simp [realloc, hheap] at hgrow
    · rintro ⟨rfl, size, hsize, hheap⟩
      exact ⟨size, hsize, by simp [realloc, hheap]⟩

/-- The length of the text with `extra` bytes in place of the selection. -/
def needed (state : NotepadWindowState) (extra : UInt32) : UInt32 :=
  state.textLength - (state.selectionEnd - state.selectionStart) + extra

/-- There is room for `extra` bytes in place of the selection: in the buffer, or there is memory
for a larger one. -/
def Room (heap : Heap) (n : Nat) (state : NotepadWindowState) (extra : UInt32) : Prop :=
  (state.textBuffer.isSome ∧ state.needed extra ≤ state.textCapacity) ∨
    ∀ size, doubled (state.needed extra) n
      (if state.textCapacity > 0 then state.textCapacity else 2048) = some size → heap size ≠ none

theorem insertBytes_of_delete {deleted : NotepadWindowState} {answer : Bool}
    (hdelete : state.deleteSelection = some (answer, deleted)) :
    insertBytes heap n data state = some (false, state') ↔
      UInt32.ofNat data.length ≠ 0 ∧
        ensureCapacity heap n (.ofNat data.length) deleted = some (false, state') := by
  simp only [insertBytes, hdelete, Option.bind_eq_bind, Option.bind_some]
  split
  · next hzero => simp [hzero]
  · next hlength =>
    simp only [ne_eq, hlength, not_false_eq_true, true_and, Option.bind_eq_some_iff]
    constructor
    · rintro ⟨⟨ok, grown⟩, hgrow, hrest⟩
      cases ok with
      | false => simpa [hgrow] using hrest
      | true => simp [Option.bind_eq_some_iff] at hrest
    · intro hgrow
      exact ⟨(false, state'), hgrow, by simp⟩

/-- A failed insertion leaves the document as it was exactly if there was nothing to insert,
nothing was selected, or there was room after all. -/
theorem insertBytes_keeps_iff (heap : Heap) (n : Nat) (data : List UInt8)
    (state : NotepadWindowState) (h : state.WellFormed) :
    (∀ state', insertBytes heap n data state = some (false, state') → state.Same state') ↔
      UInt32.ofNat data.length = 0 ∨ ¬state.hasSelection ∨
        Room heap n state (.ofNat data.length) := by
  by_cases hsel : state.hasSelection
  · obtain ⟨deleted, hdelete, hdeletes⟩ := deleteSelection_spec h hsel
    simp only [insertBytes_of_delete hdelete, ensureCapacity_false_iff, hdeletes.length,
      hdeletes.capacity, hdeletes.buffer, true_and]
    simp only [Room, h.buffer_isSome hsel, true_and, needed, hsel, not_true_eq_false, false_or]
    constructor
    · intro hkeeps
      by_contra hnot
      simp only [not_or, not_forall, not_not] at hnot
      obtain ⟨hlength, hfull, size, hsize, hheap⟩ := hnot
      exact hdeletes.not_same h hsel
        (hkeeps deleted ⟨hlength, rfl, hfull, size, hsize, hheap⟩)
    · rintro hroom state' ⟨hlength, rfl, hfull, size, hsize, hheap⟩
      rcases hroom with hzero | hroom | hmemory
      · exact absurd hzero hlength
      · exact absurd hroom hfull
      · exact absurd hheap (hmemory size hsize)
  · have hkeeps : ∀ state', insertBytes heap n data state = some (false, state') →
        state.Same state' := by
      intro state' hrun
      rw [insertBytes_of_delete (deleteSelection_of_not hsel), ensureCapacity_false_iff] at hrun
      rw [hrun.2.1]
      exact .refl state
    exact iff_of_true hkeeps (.inr (.inl hsel))

/-- A document "ab", all of it selected, whose buffer is full. -/
def full : NotepadWindowState := ⟨some [0x61, 0x62], 2, 2, 2, 0⟩

theorem full_wellFormed : full.WellFormed := by
  constructor <;> decide

/-- The same document with its caret at the end. -/
def unselected : NotepadWindowState := ⟨some [0x61, 0x62], 2, 2, 2, 2⟩

/-- Three bytes that do not fit, with memory for them and without. -/
theorem insertBytes_keeps_iff_full :
    insertBytes (fun _ => none) 40 [0x63, 0x64, 0x65] unselected = some (false, unselected) ∧
      ∀ state ∈ [full, unselected], ∀ heap ∈ [fun _ => none, fun _ => some fun _ => 0],
        ((∀ state', insertBytes heap 40 [0x63, 0x64, 0x65] state = some (false, state') →
            state.Same state') ↔
          (3 : UInt32) = 0 ∨ ¬state.hasSelection ∨ Room heap 40 state 3) := by
  have hwf : ∀ state ∈ [full, unselected], state.WellFormed := by
    intro state hstate
    simp only [List.mem_cons, List.not_mem_nil, or_false] at hstate
    rcases hstate with rfl | rfl
    · exact full_wellFormed
    · constructor <;> decide
  refine ⟨by decide, fun state hstate heap _ => ?_⟩
  exact insertBytes_keeps_iff heap 40 [0x63, 0x64, 0x65] state (hwf state hstate)

/-- Three bytes for which there is no memory: the selected text is gone. -/
theorem insertBytes_loses_selection : full.WellFormed ∧ full.text = [0x61, 0x62] ∧
    ∃ state', insertBytes (fun _ => none) 40 [0x63, 0x64, 0x65] full = some (false, state') ∧
      state'.text = [] ∧ ¬full.Same state' := by
  refine ⟨full_wellFormed, by decide, ⟨some [0x61, 0x62], 2, 0, 0, 0⟩, by decide, by decide, ?_⟩
  intro hsame
  exact absurd hsame.text (by decide)

end NotepadWindowState

end AvrKernel.Notepad

import AvrKernel.Dwm.Desktop
import AvrKernel.Util.Strings

/-!
# Edit fields

`dwm_core_internal.c`: the text of an edit field lies in a buffer of 128 bytes. The
calls find the field by its handle among those of a window. The place and the look of
a field are left out.
-/

namespace AvrKernel.Dwm

open Util

def textFieldSize : Nat := 128

structure WindowEditField where
  id : UInt32
  cursorIndex : UInt16
  text : Vector UInt8 textFieldSize

/-- The caret, moved back to the end of the text if it lies behind it. -/
def clampedCursor (field : WindowEditField) (currentLen : Nat) : Nat :=
  if field.cursorIndex.toNat > currentLen then currentLen else field.cursorIndex.toNat

/-! ## The calls -/

def dwmWindowEditText (text : List UInt8) (field : WindowEditField) :
    Option (Bool × WindowEditField) := do
  let len ← strnlen 32 text
  let buffer ← strncpy field.text text 128
  return (true, { field with text := buffer, cursorIndex := .ofNat len })

def dwmWindowEditInsert (text : List UInt8) (field : WindowEditField) :
    Option (Bool × WindowEditField) := do
  let newLen ← strnlen 32 text
  let currentLen ← strnlen 128 field.text.toList
  let cursorIndex := clampedCursor field currentLen
  if currentLen + newLen ≥ 128 ∧ ¬127 > currentLen then
    return (false, { field with cursorIndex := .ofNat cursorIndex })
  else do
    let newLen := if currentLen + newLen ≥ 128 then 127 - currentLen else newLen
    let numCharsToShift := currentLen - cursorIndex
    let buffer ← memmove field.text (cursorIndex + newLen) cursorIndex (numCharsToShift + 1)
    let buffer ← memcpy buffer cursorIndex text newLen
    return (true, { field with text := buffer, cursorIndex := .ofNat (cursorIndex + newLen) })

def dwmWindowEditBackspace (field : WindowEditField) : Option (Bool × WindowEditField) := do
  let currentLen ← strnlen 128 field.text.toList
  let cursorIndex := clampedCursor field currentLen
  if cursorIndex = 0 then return (false, { field with cursorIndex := 0 })
  else do
    let numCharsToShift := currentLen - cursorIndex
    let buffer ← memmove field.text (cursorIndex - 1) cursorIndex (numCharsToShift + 1)
    return (true, { field with text := buffer, cursorIndex := .ofNat (cursorIndex - 1) })

def dwmWindowEditCursorSetPos (position : UInt16) (field : WindowEditField) :
    Option (Bool × WindowEditField) :=
  some (true, { field with cursorIndex := position })

inductive EditCall
  | text (text : CString)
  | insert (text : CString)
  | backspace
  | cursorSetPos (position : UInt16)

/-- What a call does to the field that it finds. -/
def EditCall.edit : EditCall → WindowEditField → Option (Bool × WindowEditField)
  | .text s => dwmWindowEditText s.memory
  | .insert s => dwmWindowEditInsert s.memory
  | .backspace => dwmWindowEditBackspace
  | .cursorSetPos position => dwmWindowEditCursorSetPos position

/-- A new field; `malloc` leaves any value where its caret is stored. -/
def newField (id : UInt32) (cursorIndex : UInt16) : WindowEditField where
  id
  cursorIndex
  text := Vector.replicate textFieldSize 0

/-! ## The text -/

/-- The text has a terminator. -/
def WindowEditField.Terminated (field : WindowEditField) : Prop := 0 ∈ field.text.toList

def WindowEditField.string (field : WindowEditField) : List UInt8 := cstring field.text

/-- The caret of a field whose text has `length` characters, inside of the text. -/
def WindowEditField.caret (field : WindowEditField) : Nat :=
  min field.cursorIndex.toNat field.string.length

/-- What fits of an argument: at most 32 characters, and the terminator has to have room. -/
def fitting (field : WindowEditField) (text : CString) : List UInt8 :=
  text.chars.take (min 32 (127 - field.string.length))

/-- What a call is to do. -/
def EditCall.Does (field field' : WindowEditField) : EditCall → Prop
  | .text _ => True
  | .cursorSetPos _ => True
  | .insert s =>
      field'.string = field.string.take field.caret ++ fitting field s ++
        field.string.drop field.caret ∧
      field'.cursorIndex.toNat = field.caret + (fitting field s).length ∧
      field'.cursorIndex.toNat ≤ field'.string.length
  | .backspace =>
      field'.string = field.string.take (field.caret - 1) ++ field.string.drop field.caret ∧
      field'.cursorIndex.toNat = field.caret - 1 ∧
      field'.cursorIndex.toNat ≤ field'.string.length

/-- The calls of a sequence return, keep the terminator and do what they are to do. -/
def EditsWell : WindowEditField → List EditCall → Prop
  | _, [] => True
  | field, call :: calls => ∃ answer field', call.edit field = some (answer, field') ∧
      field'.Terminated ∧ call.Does field field' ∧ EditsWell field' calls

variable {field field' : WindowEditField} {str rest : List UInt8}

theorem string_nonzero (field : WindowEditField) : ∀ c ∈ field.string, c ≠ 0 := by
  intro c hc
  simpa using List.mem_takeWhile_imp hc

theorem WindowEditField.Terminated.split (h : field.Terminated) :
    ∃ rest, field.text.toList = field.string ++ 0 :: rest ∧ field.string.length ≤ 127 := by
  obtain ⟨before, rest, hsplit, hbefore⟩ := List.eq_append_cons_of_mem h
  have hstring : field.string = before := by
    apply cstring_eq _ hsplit
    intro c hc hzero
    exact hbefore (hzero ▸ hc)
  have hlength := field.text.length_toList
  rw [hsplit] at hlength
  simp only [List.length_append, List.length_cons, textFieldSize] at hlength
  exact ⟨rest, hstring ▸ hsplit, by rw [hstring]; omega⟩

theorem terminated_of_eq (h : field.text.toList = str ++ 0 :: rest) : field.Terminated := by
  simp [WindowEditField.Terminated, h]

theorem newField_terminated (id : UInt32) (cursorIndex : UInt16) :
    (newField id cursorIndex).Terminated := by
  simp [WindowEditField.Terminated, newField, textFieldSize]

theorem clampedCursor_eq (field : WindowEditField) :
    clampedCursor field field.string.length = field.caret := by
  rw [clampedCursor, WindowEditField.caret]
  split <;> omega

theorem caret_le (field : WindowEditField) : field.caret ≤ field.string.length :=
  Nat.min_le_right ..

theorem toNat_cursor {n : Nat} (h : n ≤ 128) : (UInt16.ofNat n).toNat = n := by
  rw [UInt16.toNat_ofNat']
  exact Nat.mod_eq_of_lt (by omega)

/-! ## Each call -/

/-- The first character that a buffer filled by `strncpy` cannot hold is its terminator. -/
theorem editText_spec (field : WindowEditField) (text : CString) :
    ∃ field', dwmWindowEditText text.memory field = some (true, field') ∧
      (field'.Terminated ↔ text.chars.length < 128) := by
  obtain ⟨buffer, hcopy, hbuffer⟩ := strncpy_eq field.text [] text.nonzero
  refine ⟨{ field with text := buffer, cursorIndex := .ofNat (min 32 text.chars.length) }, ?_, ?_⟩
  · simp only [dwmWindowEditText, CString.memory, strnlen_eq text.nonzero]
    simp only [Option.bind_eq_bind, Option.bind_some]
    rw [show (128 : Nat) = textFieldSize from rfl, hcopy]
    rfl
  · have hbuffer' : buffer.toList = text.chars.take 128 ++
        List.replicate (128 - (text.chars.take 128).length) 0 := hbuffer
    change 0 ∈ buffer.toList ↔ _
    rw [hbuffer']
    constructor
    · intro hmem
      by_contra hlong
      have hfull : (text.chars.take 128).length = 128 := by
        rw [List.length_take]
        omega
      rw [hfull, Nat.sub_self, List.replicate_zero, List.append_nil] at hmem
      exact text.nonzero 0 (List.mem_of_mem_take hmem) rfl
    · intro hshort
      apply List.mem_append_right
      rw [List.mem_replicate, List.length_take]
      exact ⟨by omega, rfl⟩

/-- Bytes put between the two parts of a text: first the second part and the terminator
move, then the bytes are copied into the gap. -/
theorem insert_gap {buffer : Vector UInt8 textFieldSize} {before after : List UInt8}
    (gap : List UInt8) (hbuffer : buffer.toList = before ++ after ++ 0 :: rest)
    (hroom : before.length + gap.length + after.length ≤ 127) :
    ∃ middle buffer' rest', memmove buffer (before.length + gap.length) before.length
        (after.length + 1) = some middle ∧
      poke middle before.length gap = some buffer' ∧
      buffer'.toList = before ++ gap ++ after ++ 0 :: rest' := by
  have hlength := buffer.length_toList
  rw [hbuffer] at hlength
  simp only [List.length_append, List.length_cons, textFieldSize] at hlength
  have hmoved : (buffer.toList.drop before.length).take (after.length + 1) = after ++ [0] := by
    rw [hbuffer, List.append_assoc, List.drop_left, List.take_append]
    simp
  -- the bytes that the moved ones replace
  have hcut : buffer.toList = buffer.toList.take (before.length + gap.length) ++
      (buffer.toList.drop (before.length + gap.length)).take (after.length + 1) ++
      (buffer.toList.drop (before.length + gap.length)).drop (after.length + 1) := by
    rw [List.append_assoc, List.take_append_drop, List.take_append_drop]
  obtain ⟨middle, hmove, hmiddle⟩ := poke_eq (after ++ [0]) hcut (by
    simp only [List.length_append, List.length_take, List.length_drop, hbuffer, List.length_cons,
      List.length_nil]
    omega)
  have htake : (buffer.toList.take (before.length + gap.length)).length =
      before.length + gap.length := by
    simp only [List.length_take, hbuffer, List.length_append, List.length_cons]
    omega
  rw [htake] at hmove
  have hfirst : buffer.toList.take (before.length + gap.length) =
      before ++ (buffer.toList.drop before.length).take gap.length := by
    rw [List.take_add]
    congr 1
    rw [hbuffer, List.append_assoc, List.take_left]
  have hgap : middle.toList = before ++ (buffer.toList.drop before.length).take gap.length ++
      (after ++ [0] ++ (buffer.toList.drop (before.length + gap.length)).drop
        (after.length + 1)) := by
    rw [hmiddle, hfirst]
    simp only [List.append_assoc]
  obtain ⟨buffer', hcopy, hbuffer'⟩ := poke_eq gap hgap (by
    simp only [List.length_take, List.length_drop, hbuffer, List.length_append, List.length_cons]
    omega)
  refine ⟨middle, buffer', (buffer.toList.drop (before.length + gap.length)).drop
    (after.length + 1), ?_, hcopy, ?_⟩
  · rw [memmove, memcpy, if_pos, hmoved]
    · exact hmove
    · simp only [List.length_drop, hbuffer, List.length_append, List.length_cons]
      omega
  · rw [hbuffer']
    simp only [List.append_assoc, List.singleton_append]

theorem fitting_length (field : WindowEditField) (s : CString) :
    (fitting field s).length = min (min 32 (127 - field.string.length)) s.chars.length :=
  List.length_take ..

theorem fitting_eq (field : WindowEditField) (s : CString) {newLen : Nat}
    (hlen : newLen = (fitting field s).length) : s.memory.take newLen = fitting field s := by
  rw [fitting_length] at hlen
  have hle : newLen ≤ s.chars.length := by omega
  rw [CString.memory, List.take_append_of_le_length hle, fitting, hlen, ← List.take_take,
    List.take_of_length_le (l := s.chars) (i := s.chars.length) (Nat.le_refl _)]

theorem insert_spec (h : field.Terminated) (s : CString) :
    ∃ answer field', dwmWindowEditInsert s.memory field = some (answer, field') ∧
      field'.Terminated ∧ (EditCall.insert s).Does field field' := by
  obtain ⟨rest, hsplit, hlength⟩ := h.split
  have hcaret := caret_le field
  have hfits := fitting_length field s
  have hnew : strnlen 32 s.memory = some (min 32 s.chars.length) := strnlen_eq s.nonzero 32
  have hcurrent : strnlen 128 field.text.toList = some field.string.length := by
    rw [hsplit, strnlen_eq (string_nonzero field), Nat.min_eq_right (by omega)]
  simp only [dwmWindowEditInsert, hnew, hcurrent, Option.bind_eq_bind, Option.bind_some,
    clampedCursor_eq]
  split
  · next hfull =>
    -- the text fills the buffer
    have hnone : fitting field s = [] := List.eq_nil_of_length_eq_zero (by omega)
    refine ⟨false, { field with cursorIndex := .ofNat field.caret }, rfl, h, ?_⟩
    simp only [EditCall.Does, hnone, List.append_nil, List.take_append_drop, List.length_nil,
      Nat.add_zero, toNat_cursor (Nat.le_trans hcaret (by omega : _ ≤ 128))]
    exact ⟨rfl, trivial, hcaret⟩
  · next hroom =>
    have hlen : (if field.string.length + min 32 s.chars.length ≥ 128 then
        127 - field.string.length else min 32 s.chars.length) = (fitting field s).length := by
      split <;> omega
    have hparts : field.string.take field.caret ++ field.string.drop field.caret = field.string :=
      List.take_append_drop ..
    have hbefore : (field.string.take field.caret).length = field.caret :=
      List.length_take_of_le hcaret
    have hafter : (field.string.drop field.caret).length = field.string.length - field.caret :=
      List.length_drop ..
    obtain ⟨middle, buffer, rest', hmove, hcopy, hbuffer⟩ := insert_gap (fitting field s)
      (hparts.symm ▸ hsplit) (by rw [hbefore, hafter, hfits]; omega)
    rw [hbefore] at hmove hcopy
    rw [hafter] at hmove
    have hmemory : (fitting field s).length ≤ s.memory.length := by
      rw [CString.memory, List.length_append]
      omega
    refine ⟨true, { field with
      text := buffer, cursorIndex := .ofNat (field.caret + (fitting field s).length) }, ?_,
      terminated_of_eq hbuffer, ?_⟩
    · rw [hlen, hmove, Option.bind_some, memcpy, if_pos hmemory, fitting_eq field s rfl, hcopy]
      rfl
    · have hnonzero : ∀ c ∈ field.string.take field.caret ++ fitting field s ++
          field.string.drop field.caret, c ≠ 0 := by
        intro c hc
        simp only [List.mem_append] at hc
        rcases hc with (hc | hc) | hc
        · exact string_nonzero field c (List.mem_of_mem_take hc)
        · exact s.nonzero c (List.mem_of_mem_take hc)
        · exact string_nonzero field c (List.mem_of_mem_drop hc)
      have hstring := cstring_eq hnonzero hbuffer
      have hfinal : (cstring buffer).length = field.string.length + (fitting field s).length := by
        rw [hstring, List.length_append, List.length_append, hbefore, hafter]
        omega
      have hcursor := toNat_cursor (n := field.caret + (fitting field s).length) (by omega)
      refine ⟨hstring, hcursor, ?_⟩
      rw [hcursor]
      exact Nat.le_trans (by omega) (Nat.le_of_eq hfinal.symm)

/-- The byte before the caret is removed by moving what follows it and the terminator. -/
theorem backspace_spec (h : field.Terminated) :
    ∃ answer field', dwmWindowEditBackspace field = some (answer, field') ∧
      field'.Terminated ∧ EditCall.backspace.Does field field' := by
  obtain ⟨rest, hsplit, hlength⟩ := h.split
  have hcaret := caret_le field
  have hcurrent : strnlen 128 field.text.toList = some field.string.length := by
    rw [hsplit, strnlen_eq (string_nonzero field), Nat.min_eq_right (by omega)]
  simp only [dwmWindowEditBackspace, hcurrent, Option.bind_eq_bind, Option.bind_some,
    clampedCursor_eq]
  split
  · next hzero =>
    refine ⟨false, { field with cursorIndex := 0 }, rfl, h, ?_⟩
    simp only [EditCall.Does, hzero, List.drop_zero]
    exact ⟨rfl, rfl, Nat.zero_le _⟩
  · next hpos =>
    have hbefore : (field.string.take (field.caret - 1)).length = field.caret - 1 :=
      List.length_take_of_le (by omega)
    have hafter : (field.string.drop field.caret).length = field.string.length - field.caret :=
      List.length_drop ..
    -- what is in front of the byte, the byte with the rest of the text, and what follows
    have hcut : field.text.toList = field.string.take (field.caret - 1) ++
        field.string.drop (field.caret - 1) ++ 0 :: rest := by
      rw [List.take_append_drop]
      exact hsplit
    obtain ⟨buffer, hmove, hbuffer⟩ := poke_eq (field.string.drop field.caret ++ [0]) hcut
      (by simp only [List.length_append, List.length_drop, List.length_singleton]; omega)
    rw [hbefore] at hmove
    have hmoved : (field.text.toList.drop field.caret).take
        (field.string.length - field.caret + 1) = field.string.drop field.caret ++ [0] := by
      rw [hsplit, List.drop_append_of_le_length hcaret, List.take_append, hafter]
      simp
    have htext : buffer.toList = field.string.take (field.caret - 1) ++
        field.string.drop field.caret ++ 0 :: (0 :: rest) := by
      rw [hbuffer]
      simp only [List.append_assoc, List.singleton_append]
    refine ⟨true, { field with text := buffer, cursorIndex := .ofNat (field.caret - 1) }, ?_,
      terminated_of_eq htext, ?_⟩
    · rw [memmove, memcpy, if_pos, hmoved, hmove]
      · rfl
      · rw [List.length_drop, hsplit, List.length_append, List.length_cons]
        omega
    · have hnonzero : ∀ c ∈ field.string.take (field.caret - 1) ++ field.string.drop field.caret,
          c ≠ 0 := by
        intro c hc
        rcases List.mem_append.mp hc with hc | hc
        · exact string_nonzero field c (List.mem_of_mem_take hc)
        · exact string_nonzero field c (List.mem_of_mem_drop hc)
      have hstring := cstring_eq hnonzero htext
      have hfinal : (cstring buffer).length = field.string.length - 1 := by
        rw [hstring, List.length_append, hbefore, hafter]
        omega
      have hcursor := toNat_cursor (n := field.caret - 1) (by omega)
      refine ⟨hstring, hcursor, ?_⟩
      rw [hcursor]
      exact Nat.le_trans (by omega) (Nat.le_of_eq hfinal.symm)

/-! ## Sequences of calls -/

/-- A call on a terminated field does what it is to do, unless it sets a text that the
buffer cannot hold. -/
theorem edit_spec (h : field.Terminated) (call : EditCall) :
    ∃ answer field', call.edit field = some (answer, field') ∧ call.Does field field' ∧
      (field'.Terminated ↔ ∀ s, call = .text s → s.chars.length < 128) := by
  cases call with
  | text s =>
      obtain ⟨field', hedit, hterminated⟩ := editText_spec field s
      refine ⟨true, field', hedit, trivial, hterminated.trans ⟨?_, fun hall => hall s rfl⟩⟩
      intro hshort _ heq
      cases heq
      exact hshort
  | insert s =>
      obtain ⟨answer, field', hedit, hterminated, hdoes⟩ := insert_spec h s
      exact ⟨answer, field', hedit, hdoes, by simp [hterminated]⟩
  | backspace =>
      obtain ⟨answer, field', hedit, hterminated, hdoes⟩ := backspace_spec h
      exact ⟨answer, field', hedit, hdoes, by simp [hterminated]⟩
  | cursorSetPos position =>
      refine ⟨true, { field with cursorIndex := position }, rfl, trivial,
        fun _ => nofun, fun _ => h⟩

/-- On a field with a terminated text, a sequence of calls keeps the terminator and does what
it is to do exactly if no text that is set has 128 characters or more. -/
theorem edits_well_iff (field : WindowEditField) (h : field.Terminated) (calls : List EditCall) :
    EditsWell field calls ↔ ∀ s, .text s ∈ calls → s.chars.length < 128 := by
  induction calls generalizing field with
  | nil => simp [EditsWell]
  | cons call calls ih =>
      obtain ⟨answer, field', hedit, hdoes, hterminated⟩ := edit_spec h call
      constructor
      · rintro ⟨answer', field'', hedit', hterm, -, hrest⟩ s hs
        rw [hedit] at hedit'
        cases hedit'
        rcases List.mem_cons.mp hs with hhead | htail
        · exact hterminated.mp hterm s hhead.symm
        · exact (ih field' hterm).mp hrest s htail
      · intro hall
        have hterm := hterminated.mpr fun s hs => hall s (by simp [hs])
        refine ⟨answer, field', hedit, hterm, hdoes, (ih field' hterm).mpr ?_⟩
        intro s hs
        exact hall s (List.mem_cons_of_mem _ hs)

theorem edits_well_iff_new :
    EditsWell (newField 1 500) [.text ⟨[0x61, 0x62], by simp⟩, .backspace] ↔
      ∀ s, .text s ∈ [EditCall.text ⟨[0x61, 0x62], by simp⟩, .backspace] → s.chars.length < 128 :=
  edits_well_iff _ (newField_terminated 1 500) _

/-- A text without a terminator in the buffer. -/
def longText : CString := ⟨List.replicate 128 0x61, by simp⟩

/-- The terminator does not fit, and a backspace moves a byte from behind the buffer. -/
theorem edits_not_well : ¬EditsWell (newField 1 0) [.text longText] ∧
    ((EditCall.text longText).edit (newField 1 0)).bind
      (fun result => EditCall.backspace.edit result.2) = none := by
  constructor
  · rintro ⟨answer, field', hedit, hterminated, -⟩
    obtain ⟨field'', hedit', hiff⟩ := editText_spec (newField 1 0) longText
    rw [EditCall.edit, hedit'] at hedit
    cases hedit
    simpa [longText] using hiff.mp hterminated
  · decide +kernel

end AvrKernel.Dwm

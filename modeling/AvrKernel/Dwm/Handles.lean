import AvrKernel.Dwm.EditField
import AvrKernel.Dwm.Forest

/-!
# Ids of windows and edit fields

Windows and edit fields are known by ids from two counters of 32 bits that wrap around.
`dwm_allocate_window` and `dwm_window_add_edit_field` pass over 0 and over the ids of the
windows. The ids of the edit fields are not looked at: an id that lies behind the
counter is given again when the counter comes back to it.
-/

namespace AvrKernel.Dwm

abbrev EditFieldHandle := UInt32

/-- What `dwm_window_add_edit_field` gets from `malloc` for the field, its text and the node of
the list, and what is stored where the caret goes. -/
structure FieldMemory where
  field : Bool
  text : Bool
  node : Bool
  cursorIndex : UInt16

/-- The desktop with the edit fields of its windows. -/
structure FieldDesktop where
  desktop : Desktop
  nextEditFieldId : EditFieldHandle
  editFields : Address → List WindowEditField

namespace FieldDesktop

def init (displayWidth displayHeight : Int) : FieldDesktop where
  desktop := .init displayWidth displayHeight
  nextEditFieldId := 0
  editFields _ := []

variable (s : FieldDesktop)

def windowIds : List WindowHandle := s.desktop.windows.map (·.id)

def fieldIds (a : Address) : List EditFieldHandle := (s.editFields a).map (·.id)

/-- `dwm_create_window`; without a window it answers 0. -/
def createWindow (wclass : WindowClass) (style : UInt16) (memory : Desktop.WindowMemory) :
    Option (WindowHandle × FieldDesktop) := do
  let desktop ← s.desktop.allocateWindow wclass style memory
  match memory.address.bind desktop.window with
  | none => return (0, { s with desktop })
  | some window =>
      return (window.id, { s with
        desktop, editFields := Function.update s.editFields window.address [] })

/-- `dwm_window_add_edit_field` -/
def addEditField (handle : WindowHandle) (memory : FieldMemory) :
    Option (EditFieldHandle × FieldDesktop) :=
  match s.desktop.getWindowById handle with
  | none => some (0, s)
  | some window =>
      if !memory.field then some (0, s)
      -- the text is cleared without a check
      else if !memory.text then none
      else do
        let (id, nextEditFieldId) ←
          Desktop.freeId s.windowIds (s.desktop.windows.length + 1) s.nextEditFieldId
        let fields := s.editFields window.address
        if memory.node then
          return (id, { s with
            nextEditFieldId
            editFields := Function.update s.editFields window.address
              (fields ++ [newField id memory.cursorIndex]) })
        else return (id, { s with nextEditFieldId })

/-- `dwm_destroy_window`. Every window that is gone has freed its fields. -/
def destroyWindow (handle : WindowHandle) : Option FieldDesktop :=
  (s.desktop.destroyWindow handle).map fun desktop => { s with
    desktop, editFields := fun a => if (desktop.window a).isSome then s.editFields a else [] }

end FieldDesktop

inductive HandleCall
  | createWindow (wclass : WindowClass) (style : UInt16) (memory : Desktop.WindowMemory)
  | addEditField (handle : WindowHandle) (memory : FieldMemory)
  | destroyWindow (handle : WindowHandle)

namespace FieldDesktop

/-- A call and the handle that it answers, if it answers one. -/
def obey (s : FieldDesktop) : HandleCall → Option (Option UInt32 × FieldDesktop)
  | .createWindow wclass style memory =>
      (s.createWindow wclass style memory).map fun answer => (some answer.1, answer.2)
  | .addEditField handle memory =>
      (s.addEditField handle memory).map fun answer => (some answer.1, answer.2)
  | .destroyWindow handle => (s.destroyWindow handle).map fun s => (none, s)

/-- Both searches end. -/
structure SearchesEnd (s : FieldDesktop) : Prop where
  window : (Desktop.freeId s.windowIds (s.desktop.windows.length + 1) s.desktop.nextWindowId).isSome
  field : (Desktop.freeId s.windowIds (s.desktop.windows.length + 1) s.nextEditFieldId).isSome

/-- The ids of the windows, and the ids of the fields of one window, are distinct and not 0, and
a search for an id ends while there are ids left. -/
structure IdsFine (s : FieldDesktop) : Prop where
  windows : s.windowIds.Nodup
  windows_ne : 0 ∉ s.windowIds
  fields : ∀ w ∈ s.desktop.windows, (s.fieldIds w.address).Nodup
  fields_ne : ∀ w ∈ s.desktop.windows, 0 ∉ s.fieldIds w.address
  searches : s.desktop.windows.length < 2 ^ 32 - 1 → s.SearchesEnd

/-- A new field finds an unused id between the counter and every field of its window whose
id is no window's. -/
def Fresh (s : FieldDesktop) : HandleCall → Prop
  | .addEditField handle memory =>
      memory.field → memory.text → memory.node →
        ∀ window, s.desktop.getWindowById handle = some window →
          ∀ id ∈ s.fieldIds window.address, id ∈ s.windowIds ∨
            ∃ k < (id - s.nextEditFieldId).toNat,
              Desktop.Unused s.windowIds (s.nextEditFieldId + .ofNat k)
  | _ => True

end FieldDesktop

namespace Desktop

variable {s s' : Desktop} {ids : List UInt32} {fuel : Nat} {next id : UInt32}

/-! ## The search -/

/-- The value that the search tries after `i` others. -/
def candidate (next : UInt32) (i : Nat) : UInt32 :=
  .ofNat (1 + (next.toNat - 1 + i) % (2 ^ 32 - 1))

theorem toNat_candidate (next : UInt32) (i : Nat) :
    (candidate next i).toNat = 1 + (next.toNat - 1 + i) % (2 ^ 32 - 1) := by
  rw [candidate, UInt32.toNat_ofNat']
  omega

theorem candidate_zero (h : next ≠ 0) : candidate next 0 = next := by
  have hlt := next.toNat_lt
  have hne : next.toNat ≠ 0 := fun heq => h (UInt32.toNat_inj.mp heq)
  apply UInt32.toNat_inj.mp
  rw [toNat_candidate]
  omega

theorem candidate_null : candidate 0 = candidate 1 := rfl

/-- Behind the last value the search goes on with 1. -/
theorem candidate_succ (h : next ≠ 0) (i : Nat) :
    candidate next (i + 1) = candidate (next + 1) i := by
  have hlt := next.toNat_lt
  have hne : next.toNat ≠ 0 := fun heq => h (UInt32.toNat_inj.mp heq)
  have hnext : (next + 1).toNat = (next.toNat + 1) % 2 ^ 32 := UInt32.toNat_add next 1
  apply UInt32.toNat_inj.mp
  rw [toNat_candidate, toNat_candidate, hnext]
  omega

theorem candidate_inj {i j : Nat} (hi : i < 2 ^ 32 - 1) (hj : j < 2 ^ 32 - 1)
    (h : candidate next i = candidate next j) : i = j := by
  have h := congrArg UInt32.toNat h
  rw [toNat_candidate, toNat_candidate] at h
  omega

/-- A search that does not end has met ids in use only. -/
theorem mem_of_freeId_none (h : freeId ids fuel next = none) {i : Nat} (hi : i < fuel) :
    candidate next i ∈ ids := by
  induction fuel generalizing next i with
  | zero => exact absurd hi (Nat.not_lt_zero _)
  | succ fuel ih =>
      rw [freeId] at h
      by_cases hzero : next = 0
      · simp only [hzero, if_true] at h
        rw [hzero, candidate_null]
        split at h
        next hused =>
          cases i with
          | zero => rwa [candidate_zero (by decide)]
          | succ i =>
              rw [candidate_succ (by decide)]
              exact ih h (Nat.lt_of_succ_lt_succ hi)
        · cases h
      · simp only [hzero, if_false] at h
        split at h
        next hused =>
          cases i with
          | zero => rwa [candidate_zero hzero]
          | succ i =>
              rw [candidate_succ hzero]
              exact ih h (Nat.lt_of_succ_lt_succ hi)
        · cases h

theorem freeId_isSome (h : ids.length < 2 ^ 32 - 1) (next : UInt32) :
    (freeId ids (ids.length + 1) next).isSome := by
  by_contra hnone
  rw [Option.not_isSome_iff_eq_none] at hnone
  have hnodup : ((List.range (ids.length + 1)).map (candidate next)).Nodup := by
    refine List.Nodup.map_on (fun i hi j hj heq => ?_) List.nodup_range
    rw [List.mem_range] at hi hj
    exact candidate_inj (by omega) (by omega) heq
  have hsub : (List.range (ids.length + 1)).map (candidate next) ⊆ ids := by
    intro id hid
    obtain ⟨i, hi, rfl⟩ := List.mem_map.mp hid
    exact mem_of_freeId_none hnone (List.mem_range.mp hi)
  have hle := (hnodup.subperm hsub).length_le
  rw [List.length_map, List.length_range] at hle
  exact absurd hle (Nat.not_succ_le_self _)

end Desktop

namespace FieldDesktop

open Desktop (Linked Unused)

variable {s s' : FieldDesktop} {handle id : UInt32}

/-! ## The calls -/

theorem createWindow_cases {wclass : WindowClass} {style : UInt16} {memory : Desktop.WindowMemory}
    (h : s.createWindow wclass style memory = some (id, s')) :
    s.desktop.allocateWindow wclass style memory = some s'.desktop ∧
      ∀ a, s'.editFields a = s.editFields a ∨ s'.editFields a = [] := by
  rw [createWindow, Option.bind_eq_bind, Option.bind_eq_some_iff] at h
  obtain ⟨desktop, hdesktop, h⟩ := h
  split at h
  · cases h
    exact ⟨hdesktop, fun a => .inl rfl⟩
  next window _ =>
    cases h
    refine ⟨hdesktop, fun a => ?_⟩
    by_cases ha : a = window.address
    · simp [ha]
    · simp [ha]

theorem destroyWindow_cases (h : s.destroyWindow handle = some s') :
    s.desktop.destroyWindow handle = some s'.desktop ∧
      ∀ a, s'.editFields a = s.editFields a ∨ s'.editFields a = [] := by
  obtain ⟨desktop, hdesktop, rfl⟩ := Option.map_eq_some_iff.mp h
  refine ⟨hdesktop, fun a => ?_⟩
  by_cases ha : (desktop.window a).isSome
  · simp [ha]
  · simp [ha]

/-- A new field is the last of its window, and its id is the first from the counter on that no
window has. -/
theorem addEditField_cases {memory : FieldMemory}
    (h : s.addEditField handle memory = some (id, s')) :
    s' = s ∧ (s.desktop.getWindowById handle = none ∨ memory.field = false) ∨
      ∃ window, s.desktop.getWindowById handle = some window ∧
      memory.field = true ∧ memory.text = true ∧
      Counter.First (· + 1) (Unused s.windowIds) s.nextEditFieldId id ∧ s'.desktop = s.desktop ∧
      s'.editFields = if memory.node then
        Function.update s.editFields window.address
          (s.editFields window.address ++ [newField id memory.cursorIndex]) else s.editFields := by
  rw [addEditField] at h
  split at h
  next hnone =>
    cases h
    exact .inl ⟨rfl, .inl hnone⟩
  next window hwindow =>
    split at h
    next hfield =>
      cases h
      exact .inl ⟨rfl, .inr (by simpa using hfield)⟩
    next hfield =>
      split at h
      · cases h
      next htext =>
        simp only [Option.bind_eq_bind, Option.bind_eq_some_iff] at h
        obtain ⟨⟨found, nextEditFieldId⟩, hfound, h⟩ := h
        have hfirst := Desktop.first_of_freeId hfound
        refine .inr ⟨window, hwindow, by simpa using hfield, by simpa using htext, ?_⟩
        split at h
        next hnode =>
          cases h
          exact ⟨hfirst, rfl, by rw [if_pos hnode]⟩
        next hnode =>
          cases h
          exact ⟨hfirst, rfl, by rw [if_neg hnode]⟩

/-- While there is an unused id, a new field gets the first one. -/
theorem exists_addEditField {memory : FieldMemory} {window : WindowObject}
    (hwindow : s.desktop.getWindowById handle = some window) (hfield : memory.field)
    (htext : memory.text) (hlength : s.desktop.windows.length < 2 ^ 32 - 1) :
    ∃ id s', s.addEditField handle memory = some (id, s') := by
  have hids : s.windowIds.length = s.desktop.windows.length := List.length_map _
  have hsome := Desktop.freeId_isSome (hids ▸ hlength) s.nextEditFieldId
  rw [hids] at hsome
  obtain ⟨⟨id, nextEditFieldId⟩, hid⟩ := Option.isSome_iff_exists.mp hsome
  simp only [addEditField, hwindow, hfield, htext, Bool.not_true, Bool.false_eq_true, if_false,
    Option.bind_eq_bind, hid, Option.bind_some]
  split
  · exact ⟨_, _, rfl⟩
  · exact ⟨_, _, rfl⟩

/-! ## Runs -/

/-- The windows are linked, and the ids of the fields at an address are distinct and not 0. -/
structure Sound (s : FieldDesktop) : Prop where
  linked : Linked [] s.desktop
  fields : ∀ a, (s.fieldIds a).Nodup
  fields_ne : ∀ a, 0 ∉ s.fieldIds a

theorem sound_init (displayWidth displayHeight : Int) :
    (init displayWidth displayHeight).Sound where
  linked := (Desktop.linked_init displayWidth displayHeight).1
  fields _ := List.nodup_nil
  fields_ne _ := List.not_mem_nil

theorem Sound.idsFine (h : s.Sound) : s.IdsFine where
  windows := by
    have hids := Kin.Linked.ids h.linked
    rwa [Desktop.kin, List.map_map] at hids
  windows_ne hmem := by
    obtain ⟨w, hw, hid⟩ := List.mem_map.mp hmem
    exact Kin.Linked.id_ne h.linked w.kin (Desktop.kin_mem hw) hid
  fields w _ := h.fields w.address
  fields_ne w _ := h.fields_ne w.address
  searches hlength := by
    have hids : s.windowIds.length = s.desktop.windows.length := List.length_map _
    rw [← hids] at hlength
    constructor
    · rw [← hids]
      exact Desktop.freeId_isSome hlength _
    · rw [← hids]
      exact Desktop.freeId_isSome hlength _

/-- The windows stay linked whatever is called. -/
theorem linked_obey {call : HandleCall} {answer : Option UInt32} (hs : Linked [] s.desktop)
    (h : s.obey call = some (answer, s')) : Linked [] s'.desktop := by
  cases call with
  | createWindow wclass style memory =>
      obtain ⟨⟨id, s₁⟩, hcall, heq⟩ := Option.map_eq_some_iff.mp h
      cases heq
      exact (Desktop.linked_allocateWindow hs (createWindow_cases hcall).1).1
  | addEditField handle memory =>
      obtain ⟨⟨id, s₁⟩, hcall, heq⟩ := Option.map_eq_some_iff.mp h
      cases heq
      rcases addEditField_cases hcall with ⟨rfl, -⟩ | ⟨window, -, -, -, -, hdesktop, -⟩
      · exact hs
      · rwa [hdesktop]
  | destroyWindow handle =>
      obtain ⟨s₁, hcall, heq⟩ := Option.map_eq_some_iff.mp h
      cases heq
      rcases Desktop.destroyWindow_spec hs (destroyWindow_cases hcall).1 with
        ⟨-, hsame⟩ | ⟨w, -, hdestroys⟩
      · rwa [hsame]
      · exact hdestroys.linked

/-- Fields that are gone leave the ids of the others. -/
theorem Sound.dropped (h : s.Sound) (hlinked : Linked [] s'.desktop)
    (hfields : ∀ a, s'.editFields a = s.editFields a ∨ s'.editFields a = []) : s'.Sound := by
  refine ⟨hlinked, fun a => ?_, fun a => ?_⟩
  · rcases hfields a with hsame | hnone
    · rw [fieldIds, hsame]
      exact h.fields a
    · simp [fieldIds, hnone]
  · rcases hfields a with hsame | hnone
    · rw [fieldIds, hsame]
      exact h.fields_ne a
    · simp [fieldIds, hnone]

theorem fieldIds_update {b : Address} {field : WindowEditField}
    (h : s'.editFields = Function.update s.editFields b (s.editFields b ++ [field])) (a : Address) :
    s'.fieldIds a = if a = b then s.fieldIds b ++ [field.id] else s.fieldIds a := by
  rw [fieldIds, h]
  by_cases ha : a = b
  · simp [ha, fieldIds]
  · simp [ha, fieldIds]

/-- An id that is no window's and lies before every unused one is the first from the counter. -/
theorem first_of_not_fresh (hid : Unused s.windowIds id)
    (hnone : ¬∃ k < (id - s.nextEditFieldId).toNat,
      Unused s.windowIds (s.nextEditFieldId + .ofNat k)) :
    Counter.First (· + 1) (Unused s.windowIds) s.nextEditFieldId id :=
  Counter.first_iff.mpr ⟨hid, fun k hk hunused => hnone ⟨k, hk, hunused⟩⟩

theorem Sound.addEditField {memory : FieldMemory} (h : s.Sound)
    (hfresh : s.Fresh (.addEditField handle memory))
    (hadd : s.addEditField handle memory = some (id, s')) : s'.Sound := by
  rcases addEditField_cases hadd with
    ⟨rfl, -⟩ | ⟨window, hwindow, hfield, htext, hfirst, hdesktop, hfields⟩
  · exact h
  · have hlinked : Linked [] s'.desktop := hdesktop ▸ h.linked
    by_cases hnode : memory.node
    · rw [if_pos hnode] at hfields
      have hnew : id ∉ s.fieldIds window.address := by
        intro hmem
        rcases hfresh hfield htext hnode window hwindow id hmem with hused | ⟨k, hk, hunused⟩
        · exact hfirst.isFree.1 hused
        · exact (Counter.first_iff.mp hfirst).2 k hk hunused
      refine ⟨hlinked, fun a => ?_, fun a => ?_⟩
      · rw [fieldIds_update hfields]
        split
        · rw [← List.concat_eq_append]
          exact (h.fields _).concat hnew
        · exact h.fields a
      · rw [fieldIds_update hfields]
        split
        · rw [List.mem_append, List.mem_singleton, not_or]
          exact ⟨h.fields_ne _, fun heq => hfirst.isFree.2 heq.symm⟩
        · exact h.fields_ne a
    · rw [if_neg hnode] at hfields
      exact h.dropped hlinked fun a => .inl (congrFun hfields a)

theorem sound_obey {call : HandleCall} {answer : Option UInt32} (hs : s.Sound)
    (hfresh : s.Fresh call) (h : s.obey call = some (answer, s')) : s'.Sound := by
  have hlinked := linked_obey hs.linked h
  cases call with
  | createWindow wclass style memory =>
      obtain ⟨⟨id, s₁⟩, hcall, heq⟩ := Option.map_eq_some_iff.mp h
      cases heq
      exact hs.dropped hlinked (createWindow_cases hcall).2
  | addEditField handle memory =>
      obtain ⟨⟨id, s₁⟩, hcall, heq⟩ := Option.map_eq_some_iff.mp h
      cases heq
      exact hs.addEditField hfresh hcall
  | destroyWindow handle =>
      obtain ⟨s₁, hcall, heq⟩ := Option.map_eq_some_iff.mp h
      cases heq
      exact hs.dropped hlinked (destroyWindow_cases hcall).2

/-- A call that is not fresh gives an id of its window for the second time. -/
theorem not_idsFine_of_not_fresh {call : HandleCall} (hfine : s.IdsFine) (hfresh : ¬s.Fresh call) :
    ∃ answer s', s.obey call = some (answer, s') ∧ ¬s'.IdsFine := by
  cases call with
  | createWindow | destroyWindow => exact absurd trivial hfresh
  | addEditField handle memory =>
      simp only [Fresh, not_forall, not_or, exists_prop] at hfresh
      obtain ⟨hfield, htext, hnode, window, hwindow, id, hmem, hout, hnone⟩ := hfresh
      obtain ⟨hwmem, -⟩ := Desktop.getWindowById_some hwindow
      have hunused : Unused s.windowIds id :=
        ⟨hout, fun heq => hfine.fields_ne window hwmem (heq ▸ hmem)⟩
      -- 0 and the unused id are no ids of windows
      have hlength : s.desktop.windows.length < 2 ^ 32 - 1 := by
        have hnodup : (id :: s.windowIds).Nodup := List.nodup_cons.mpr ⟨hout, hfine.windows⟩
        have hzero : 0 ∉ id :: s.windowIds := by
          rw [List.mem_cons, not_or]
          exact ⟨Ne.symm hunused.2, hfine.windows_ne⟩
        have hlt := Counter.length_lt_of_nodup hnodup hzero
        rw [List.length_cons, windowIds, List.length_map] at hlt
        exact Nat.lt_sub_of_add_lt hlt
      obtain ⟨id', s', hadd⟩ := exists_addEditField hwindow hfield htext hlength
      refine ⟨some id', s', Option.map_eq_some_iff.mpr ⟨_, hadd, rfl⟩, fun hfine' => ?_⟩
      rcases addEditField_cases hadd with
        ⟨-, hnothing⟩ | ⟨window', hwindow', -, -, hfirst, hdesktop, hfields⟩
      · simp [hwindow, hfield] at hnothing
      · rw [hwindow] at hwindow'
        cases hwindow'
        rw [if_pos hnode] at hfields
        have heq : id' = id := hfirst.unique (first_of_not_fresh hunused hnone)
        have hnodup := hfine'.fields window (hdesktop ▸ hwmem)
        rw [fieldIds_update hfields, if_pos rfl, newField, heq] at hnodup
        exact List.disjoint_of_nodup_append hnodup hmem (List.mem_singleton_self id)

/-- In every state of a run the ids are fine, if and only if every new field finds an unused id in
front of the ids of its window. -/
theorem idsFine_run {calls : List HandleCall} (hs : s.Sound) :
    (∀ first rest, first ++ rest = calls → ∀ answers s',
      Trace.run obey s first = some (answers, s') → s'.IdsFine) ↔
        Trace.Permitted obey Fresh s calls := by
  constructor
  · intro hfine
    induction calls generalizing s with
    | nil => trivial
    | cons call calls ih =>
        have hfresh : s.Fresh call := by
          by_contra hnot
          obtain ⟨answer, s', hcall, hnot'⟩ := not_idsFine_of_not_fresh hs.idsFine hnot
          refine hnot' (hfine [call] calls rfl [answer] s' ?_)
          exact Trace.run_cons.mpr ⟨answer, s', [], hcall, rfl, rfl⟩
        refine ⟨hfresh, fun answer s₁ hcall => ih (sound_obey hs hfresh hcall) ?_⟩
        intro first rest hcalls answers s' hrest
        refine hfine (call :: first) rest (by rw [List.cons_append, hcalls])
          (answer :: answers) s' ?_
        exact Trace.run_cons.mpr ⟨answer, s₁, answers, hcall, hrest, rfl⟩
  · rintro hok first rest rfl answers s' hrun
    have hstep : ∀ s call answer s', Sound s → Fresh s call → s.obey call = some (answer, s') →
        Sound s' := fun s call answer s' hs hfresh hcall => sound_obey hs hfresh hcall
    have hinv : s'.Sound := Trace.run_preserves hstep hs hok.append.1 hrun
    exact hinv.idsFine

end FieldDesktop

/-- In every state that the calls lead to, the ids of the windows and of the fields of a window
are distinct and not 0, and the searches for an id end, if and only if every new field finds an
unused id between the counter and the ids of its window. -/
theorem ids_fine_iff (displayWidth displayHeight : Int) (calls : List HandleCall) :
    (∀ first rest, first ++ rest = calls → ∀ answers s,
      Trace.run FieldDesktop.obey (.init displayWidth displayHeight) first = some (answers, s) →
        s.IdsFine) ↔
      Trace.Permitted FieldDesktop.obey FieldDesktop.Fresh
        (.init displayWidth displayHeight) calls :=
  FieldDesktop.idsFine_run (FieldDesktop.sound_init displayWidth displayHeight)

/-! ## The counter comes back

A window keeps its field while others come, get a field and go. -/

/-- A plain window at an address. -/
def HandleCall.create (a : Address) : HandleCall :=
  .createWindow ⟨50, 50, 200, 100, 0, 0⟩ 0 ⟨some a, true, true, true, true, true, none, none⟩

def HandleCall.add (handle : WindowHandle) : HandleCall :=
    .addEditField handle ⟨true, true, true, 0⟩

/-- Another window comes, gets a field and goes. -/
def HandleCall.visit (handle : WindowHandle) : List HandleCall :=
  [.create 0x2000, .add handle, .destroyWindow handle]

def HandleCall.visits (n : Nat) : List HandleCall :=
  (List.range n).flatMap fun i => HandleCall.visit (.ofNat (2 + i))

/-- What `HandleCall.create` makes. -/
def WindowObject.plain (address : Address) (id : WindowHandle) : WindowObject where
  address
  id
  style := 0
  parent := none
  children := []
  buttons := []
  x := 50
  y := 50
  w := 200
  h := 100
  localX := 0
  localY := 0
  maxWidth := 0
  maxHeight := 0
  surfaceX := 50
  surfaceY := 71
  surfaceW := 200
  surfaceH := 80
  frameBuffer := true
  bufferW := 200
  bufferH := 100
  borderWidth := 1
  titlebarHeight := 20

/-- Nothing happened but that windows came and went. -/
def Desktop.plain (windows : List WindowObject) (nextWindowId : UInt32) : Desktop :=
  { Desktop.init 800 600 with windows, nextWindowId }

namespace FieldDesktop

/-- There is one window, with some fields. -/
def alone (nextWindowId nextEditFieldId : UInt32) (fields : List WindowEditField) :
    FieldDesktop where
  desktop := .plain [.plain 0x1000 1] nextWindowId
  nextEditFieldId
  editFields a := if a = 0x1000 then fields else []

/-- There is another window, and both have fields. -/
def visited (id : WindowHandle) (nextEditFieldId : UInt32) (fields others : List WindowEditField) :
    FieldDesktop where
  desktop := .plain [.plain 0x1000 1, .plain 0x2000 id] (id + 1)
  nextEditFieldId
  editFields a := if a = 0x1000 then fields else if a = 0x2000 then others else []

variable {s : FieldDesktop} {windows : List WindowObject} {a : Address} {id next next' : UInt32}

theorem allocateWindow_plain
    (hid : Desktop.freeId (windows.map (·.id)) (windows.length + 1) next = some (id, next'))
    (ha : (Desktop.plain windows next).window a = none) :
    (Desktop.plain windows next).allocateWindow ⟨50, 50, 200, 100, 0, 0⟩ 0
        ⟨some a, true, true, true, true, true, none, none⟩ =
      some (.plain (windows ++ [.plain a id]) next') := by
  have hbuttons : Desktop.windowButtons ⟨50, 50, 200, 100, 0, 0⟩ 0 20
      ⟨some a, true, true, true, true, true, none, none⟩ = some [] := rfl
  have hfree : Desktop.freeId ((Desktop.plain windows next).windows.map (·.id))
      ((Desktop.plain windows next).windows.length + 1) (Desktop.plain windows next).nextWindowId =
        some (id, next') := hid
  rw [Desktop.allocateWindow]
  simp only [ha, hfree]
  simp [hbuttons, Desktop.plain, Desktop.init, WindowObject.plain]

theorem obey_create (hs : s.desktop = .plain windows next)
    (hid : Desktop.freeId (windows.map (·.id)) (windows.length + 1) next = some (id, next'))
    (ha : a ∉ windows.map (·.address)) :
    s.obey (.create a) = some (some id, { s with
      desktop := .plain (windows ++ [.plain a id]) next'
      editFields := Function.update s.editFields a [] }) := by
  have hnone : windows.find? (·.address = a) = none := by simpa using ha
  have hdesktop := allocateWindow_plain hid hnone
  have hfound : (Desktop.plain (windows ++ [.plain a id]) next').window a = some (.plain a id) := by
    rw [Desktop.window, Desktop.plain, List.find?_append, hnone]
    simp [WindowObject.plain]
  simp only [obey, HandleCall.create, createWindow, hs, hdesktop, hfound, Option.bind_eq_bind,
    Option.bind_some]
  rfl

theorem obey_add {handle : WindowHandle} {window : WindowObject}
    (hwindow : s.desktop.getWindowById handle = some window)
    (hid : Desktop.freeId s.windowIds (s.desktop.windows.length + 1) s.nextEditFieldId =
      some (id, next')) :
    s.obey (.add handle) = some (some id, { s with
      nextEditFieldId := next'
      editFields := Function.update s.editFields window.address
        (s.editFields window.address ++ [newField id 0]) }) := by
  simp [obey, HandleCall.add, addEditField, hwindow, hid]

theorem destroyWindow_plain (hnull : id ≠ 0) (hfirst : id ≠ 1) :
    (Desktop.plain [.plain 0x1000 1, .plain 0x2000 id] next).destroyWindow id =
      some (.plain [.plain 0x1000 1] next) := by
  simp [Desktop.destroyWindow, Desktop.destroyWindowInternal, Desktop.getWindowById,
    Desktop.getAbsolutePosition, absolutePosition, Desktop.unlinkChild, Desktop.withoutWindow,
    Desktop.window, Desktop.plain, Desktop.init, WindowObject.plain, hnull, hnull.symm, hfirst.symm]

theorem freeId_unused {ids : List UInt32} {fuel : Nat} (hnull : next ≠ 0) (hout : next ∉ ids) :
    Desktop.freeId ids (fuel + 1) next = some (next, next + 1) := by
  simp [Desktop.freeId, hnull, hout]

/-- Both counters go on by one. -/
theorem run_visit {field : UInt32} (fields : List WindowEditField) (hid : id ≠ 0 ∧ id ≠ 1)
    (hfield : field ≠ 0 ∧ field ≠ 1) (hne : field ≠ id) :
    Trace.run obey (alone id field fields) (HandleCall.visit id) =
      some ([some id, some field, none], alone (id + 1) (field + 1) fields) := by
  have hcreate : obey (alone id field fields) (.create 0x2000) =
      some (some id, visited id field fields []) := by
    refine (obey_create rfl (freeId_unused hid.1 ?_) ?_).trans ?_
    · simpa [WindowObject.plain] using hid.2
    · simp [WindowObject.plain]
    · simp only [alone, visited, List.singleton_append]
      congr
      ext a : 1
      simp only [Function.update_apply]
      grind
  have hadd : obey (visited id field fields []) (.add id) =
      some (some field, visited id (field + 1) fields [newField field 0]) := by
    have hwindow : (visited id field fields []).desktop.getWindowById id =
        some (.plain 0x2000 id) := by
      simp [Desktop.getWindowById, visited, Desktop.plain, WindowObject.plain, hid.1, hid.2.symm]
    refine (obey_add hwindow (freeId_unused hfield.1 ?_)).trans ?_
    · simp [windowIds, visited, Desktop.plain, WindowObject.plain, hfield.2, hne]
    · simp only [visited, WindowObject.plain]
      congr
      ext a : 1
      simp only [Function.update_apply]
      grind
  have hdestroy : obey (visited id (field + 1) fields [newField field 0]) (.destroyWindow id) =
      some (none, alone (id + 1) (field + 1) fields) := by
    simp only [obey, destroyWindow, visited, destroyWindow_plain hid.1 hid.2,
      Option.map_some, alone]
    congr
    ext a : 1
    simp only [Desktop.window, Desktop.plain, WindowObject.plain]
    grind
  simp only [HandleCall.visit, Trace.run, hcreate, hadd, hdestroy,
    Option.bind_some, Option.map_some]

theorem ofNat_ne {i j : Nat} (hi : i < 2 ^ 32) (hj : j < 2 ^ 32) (hne : i ≠ j) :
    UInt32.ofNat i ≠ .ofNat j := by
  intro heq
  have heq := congrArg UInt32.toNat heq
  rw [UInt32.toNat_ofNat_of_lt' hi, UInt32.toNat_ofNat_of_lt' hj] at heq
  exact hne heq

theorem run_visits (fields : List WindowEditField) {n : Nat} (hn : n + 3 ≤ 2 ^ 32) :
    ∃ answers, Trace.run obey (alone 2 3 fields) (HandleCall.visits n) =
      some (answers, alone (.ofNat (2 + n)) (.ofNat (3 + n)) fields) := by
  induction n with
  | zero => exact ⟨[], rfl⟩
  | succ n ih =>
      obtain ⟨answers, hrun⟩ := ih (by omega)
      have hid : UInt32.ofNat (2 + n) ≠ .ofNat 0 ∧ UInt32.ofNat (2 + n) ≠ .ofNat 1 :=
        ⟨ofNat_ne (by omega) (by decide) (by omega), ofNat_ne (by omega) (by decide) (by omega)⟩
      have hfield : UInt32.ofNat (3 + n) ≠ .ofNat 0 ∧ UInt32.ofNat (3 + n) ≠ .ofNat 1 :=
        ⟨ofNat_ne (by omega) (by decide) (by omega), ofNat_ne (by omega) (by decide) (by omega)⟩
      have hne : UInt32.ofNat (3 + n) ≠ .ofNat (2 + n) :=
        ofNat_ne (by omega) (by omega) (by omega)
      have hlast := run_visit fields hid hfield hne
      have hvisits : HandleCall.visits (n + 1) =
          HandleCall.visits n ++ HandleCall.visit (.ofNat (2 + n)) := by
        simp only [HandleCall.visits, List.range_succ, List.flatMap_append, List.flatMap_singleton]
      have hnext : ∀ i, UInt32.ofNat (i + (n + 1)) = .ofNat (i + n) + 1 :=
        fun i => UInt32.ofNat_add (i + n) 1
      rw [hvisits, hnext, hnext]
      exact ⟨_, Trace.run_append.mpr ⟨answers, _, _, hrun, hlast, rfl⟩⟩

/-- The window that is alone gets a field. -/
theorem obey_add_alone {nextWindowId : UInt32} {fields : List WindowEditField}
    (hid : Desktop.freeId [1] 2 next = some (id, next')) :
    obey (alone nextWindowId next fields) (.add 1) =
      some (some id, alone nextWindowId next' (fields ++ [newField id 0])) := by
  have hwindow : (alone nextWindowId next fields).desktop.getWindowById 1 =
      some (.plain 0x1000 1) := rfl
  refine (obey_add hwindow hid).trans ?_
  simp only [alone, WindowObject.plain]
  congr
  ext a : 1
  simp only [Function.update_apply]
  grind

theorem run_start : Trace.run obey (.init 800 600) [.create 0x1000, .add 1] =
    some ([some 1, some 2], alone 2 3 [newField 2 0]) := by
  have hid : Desktop.freeId (([] : List WindowObject).map (·.id))
      (([] : List WindowObject).length + 1) 0 = some (1, 2) := rfl
  have hcreate : obey (.init 800 600) (.create 0x1000) = some (some 1, alone 2 0 []) := by
    refine (obey_create rfl hid List.not_mem_nil).trans ?_
    simp [init, alone]
  have hadd : obey (alone 2 0 []) (.add 1) = some (some 2, alone 2 3 [newField 2 0]) :=
    obey_add_alone rfl
  simp only [Trace.run, hcreate, hadd, Option.bind_some, Option.map_some]

end FieldDesktop

/-- After 2^32 - 3 visits the counter is 0 again, and the next field of the first window gets the
id 2 as well. -/
theorem ids_not_fine : ∃ answers s,
    Trace.run FieldDesktop.obey (.init 800 600)
      ([.create 0x1000, .add 1] ++ HandleCall.visits (2 ^ 32 - 3) ++ [.add 1]) = some (answers, s) ∧
      s.desktop.windows.length = 1 ∧ s.fieldIds 0x1000 = [2, 2] ∧ ¬s.IdsFine := by
  obtain ⟨answers, hvisits⟩ := FieldDesktop.run_visits [newField 2 0] (n := 2 ^ 32 - 3) (by decide)
  have hlast : FieldDesktop.obey (.alone (.ofNat (2 + (2 ^ 32 - 3))) 0 [newField 2 0]) (.add 1) =
      some (some 2, .alone (.ofNat (2 + (2 ^ 32 - 3))) 3 ([newField 2 0] ++ [newField 2 0])) :=
    FieldDesktop.obey_add_alone rfl
  refine ⟨_, _, Trace.run_append.mpr ⟨_, _, _,
    Trace.run_append.mpr ⟨_, _, _, FieldDesktop.run_start,
    hvisits, rfl⟩, Trace.run_cons.mpr ⟨_, _, _, hlast, rfl, rfl⟩, rfl⟩, rfl, rfl, fun hfine => ?_⟩
  have hnodup := hfine.fields (.plain 0x1000 1) (List.mem_singleton_self _)
  exact absurd hnodup (by decide)

end AvrKernel.Dwm

import AvrKernel.Dwm.Update

/-!
# Interactions end

At most one drag, resizing or capture goes on. Releasing the left button ends it, unless
a window without a frame buffer is resized.
-/

namespace AvrKernel.Dwm

/-- How many interactions go on. -/
def DragDrop.interactions (d : DragDrop) : Nat :=
  d.draggedWindow.isSome.toNat + d.draggedResizing.isSome.toNat + d.draggedIcon.isSome.toNat +
    (d.capturedWindow != 0).toNat

/-- The window can be resized with the mouse. -/
def WindowObject.HasGrip (w : WindowObject) : Prop :=
  ∃ button ∈ w.buttons, button.event = dwmEventResize

/-- No window with a resize grip is created without a frame buffer. -/
def DesktopOp.Buffered : DesktopOp → Prop
  | createWindow _ style _ => style &&& dwmWstyleResizeable ≠ 0 → style &&& dwmWstyleChild = 0
  | _ => True

def Surroundings.Buffered (around : Surroundings) : Prop :=
  (∀ op ∈ around.menuAction, op.Buffered) ∧ ∀ op ∈ around.renameCommit, op.Buffered

def MouseInput.Buffered (input : MouseInput) : Prop :=
  input.around.Buffered ∧ input.before.Buffered

def DwmOp.Buffered : DwmOp → Prop
  | perform op => op.Buffered
  | update frame => (∀ input ∈ frame.events, input.Buffered) ∧ frame.around.Buffered

namespace Desktop

variable {s s' s'' : Desktop} {ok ok' : Prop} {a b : Address} {w : WindowObject}

theorem dragging_iff : s.Dragging ↔ s.dragdrop.interactions ≠ 0 := by
  simp only [Dragging, DragDrop.interactions]
  cases s.dragdrop.draggedWindow <;> cases s.dragdrop.draggedResizing <;>
    cases s.dragdrop.draggedIcon <;> by_cases s.dragdrop.capturedWindow = 0 <;> simp [*]

/-- Every window with a resize grip has a frame buffer. -/
def Gripped (s : Desktop) : Prop := ∀ w ∈ s.windows, w.HasGrip → w.frameBuffer = true

/-- The window that is resized has a frame buffer. -/
def ResizesBuffered (s : Desktop) : Prop :=
  ∀ a w, s.dragdrop.draggedResizing = some a → s.window a = some w → w.frameBuffer = true

/-! ## What starts no interaction -/

/-- The buttons, and what they were at the end of the last frame. -/
def buttons (s : Desktop) : (Bool × Bool) × (Bool × Bool) :=
  ((s.leftButtonPressed, s.rightButtonPressed), (s.lastLeftButtonPressed, s.lastRightButtonPressed))

/-- No interaction starts, and the window that is resized stays. Under the condition `ok` no
window with a grip is without a frame buffer if none was. -/
structure Keeps (ok : Prop) (s s' : Desktop) : Prop where
  interactions : s'.dragdrop.interactions ≤ s.dragdrop.interactions
  resizing : ∀ a, s'.dragdrop.draggedResizing = some a → s.dragdrop.draggedResizing = some a ∧
    ∀ w, s.window a = some w → ∃ w', s'.window a = some w' ∧ w'.frameBuffer = w.frameBuffer
  grips : ok → s.Gripped → s'.Gripped
  buttons : s'.buttons = s.buttons

namespace Keeps

theorem refl (s : Desktop) : Keeps ok s s :=
  ⟨Nat.le_refl _, fun _ h => ⟨h, fun w hw => ⟨w, hw, rfl⟩⟩, fun _ h => h, rfl⟩

theorem trans (h : Keeps ok s s') (h' : Keeps ok s' s'') : Keeps ok s s'' where
  interactions := Nat.le_trans h'.interactions h.interactions
  resizing a hresizing := by
    obtain ⟨hresizing', hwindow'⟩ := h'.resizing a hresizing
    obtain ⟨hresizing, hwindow⟩ := h.resizing a hresizing'
    refine ⟨hresizing, fun w hw => ?_⟩
    obtain ⟨w', hw', hbuffer⟩ := hwindow w hw
    obtain ⟨w'', hw'', hbuffer'⟩ := hwindow' w' hw'
    exact ⟨w'', hw'', hbuffer'.trans hbuffer⟩
  grips hok hgrips := h'.grips hok (h.grips hok hgrips)
  buttons := h'.buttons.trans h.buttons

theorem mono (h : Keeps ok s s') (himp : ok' → ok) : Keeps ok' s s' :=
  { h with grips := fun hok => h.grips (himp hok) }

theorem of_eq (hwindows : s'.windows = s.windows)
    (hinteractions : s'.dragdrop.interactions ≤ s.dragdrop.interactions)
    (hresizing : s'.dragdrop.draggedResizing = s.dragdrop.draggedResizing)
    (hbuttons : s'.buttons = s.buttons) : Keeps ok s s' where
  interactions := hinteractions
  resizing a h := ⟨hresizing ▸ h, fun w hw => ⟨w, by rwa [window, hwindows], rfl⟩⟩
  grips _ hgrips w hw := hgrips w (hwindows ▸ hw)
  buttons := hbuttons

theorem foldlM {α : Type} {f : Desktop → α → Option Desktop} {xs : List α}
    (hstep : ∀ s x s', f s x = some s' → Keeps ok s s') {s s' : Desktop}
    (h : xs.foldlM f s = some s') : Keeps ok s s' := by
  induction xs generalizing s with
  | nil =>
      cases h
      exact .refl _
  | cons x xs ih =>
      rw [List.foldlM_cons, Option.bind_eq_bind, Option.bind_eq_some_iff] at h
      obtain ⟨s₁, hfirst, hrest⟩ := h
      exact (hstep s x s₁ hfirst).trans (ih hrest)

end Keeps

/-! ## Windows -/

theorem window_some (h : s.window a = some w) : w ∈ s.windows ∧ w.address = a :=
  ⟨List.mem_of_find?_eq_some h, by simpa using List.find?_some h⟩

theorem window_modifyWindow {f : WindowObject → WindowObject}
    (hf : ∀ w, w.address = a → (f w).address = a) (b : Address) :
    (s.modifyWindow a f).window b =
      (s.window b).map fun w => if w.address = a then f w else w := by
  have hsame : (fun w : WindowObject => decide ((if w.address = a then f w else w).address = b)) =
      fun w => decide (w.address = b) := by
    funext w
    split
    next h => rw [hf w h, h]
    next => rfl
  rw [window, modifyWindow, List.find?_map]
  change Option.map _ (List.find? (fun w => decide (_ = b)) _) = _
  rw [hsame]
  rfl

theorem keeps_modifyWindow {f : WindowObject → WindowObject}
    (haddress : ∀ w, w.address = a → (f w).address = a)
    (hbuffer : ∀ w, s.window a = some w → (f w).frameBuffer = w.frameBuffer)
    (hgrips : s.Gripped → ∀ w ∈ s.windows, w.address = a → (f w).HasGrip →
      (f w).frameBuffer = true) :
    Keeps ok s (s.modifyWindow a f) where
  interactions := Nat.le_refl _
  resizing b h := by
    refine ⟨h, fun w hw => ⟨_, by rw [window_modifyWindow haddress, hw]; rfl, ?_⟩⟩
    dsimp only
    split
    next heq => exact hbuffer w (heq ▸ (window_some hw).2 ▸ hw)
    next => rfl
  grips _ hgripped w hw hgrip := by
    obtain ⟨v, hv, rfl⟩ := List.mem_map.mp hw
    split at hgrip
    next heq =>
      rw [if_pos heq]
      exact hgrips hgripped v hv heq hgrip
    next hne =>
      rw [if_neg hne]
      exact hgripped v hv hgrip
  buttons := rfl

theorem keeps_moveWindow {f : WindowObject → WindowObject}
    (hf : ∀ w, (f w).address = w.address ∧ (f w).frameBuffer = w.frameBuffer ∧
      (f w).buttons = w.buttons) :
    Keeps ok s (s.modifyWindow a f) := by
  refine keeps_modifyWindow (fun w h => (hf w).1.trans h) (fun w _ => (hf w).2.1) ?_
  intro hgripped w hw _ hgrip
  rw [WindowObject.HasGrip, (hf w).2.2] at hgrip
  exact (hf w).2.1.trans (hgripped w hw hgrip)

theorem keeps_unlinkChild (w : WindowObject) : Keeps ok s (s.unlinkChild w) := by
  rw [unlinkChild]
  split
  · exact .refl s
  · refine (keeps_moveWindow ?_).trans (keeps_moveWindow ?_)
    · exact fun _ => ⟨rfl, rfl, rfl⟩
    · exact fun _ => ⟨rfl, rfl, rfl⟩

theorem keeps_withoutWindow (w : WindowObject) : Keeps ok s (s.withoutWindow w) where
  interactions := by
    have hle : ∀ (p : Prop) [Decidable p] (x : Option Address),
        (if p then none else x).isSome.toNat ≤ x.isSome.toNat := by
      intro p _ x
      split
      · exact Nat.zero_le _
      · exact Nat.le_refl _
    have hcaptured : ∀ (id captured : WindowHandle),
        ((if captured = id then 0 else captured) != 0).toNat ≤ (captured != 0).toNat := by
      intro id captured
      split
      · exact Nat.zero_le _
      · exact Nat.le_refl _
    have := hle (s.dragdrop.draggedWindow = some w.address) s.dragdrop.draggedWindow
    have := hle (s.dragdrop.draggedResizing = some w.address) s.dragdrop.draggedResizing
    have := hcaptured w.id s.dragdrop.capturedWindow
    simp only [DragDrop.interactions, withoutWindow]
    omega
  resizing a h := by
    simp only [withoutWindow] at h
    split at h
    · cases h
    next hne =>
      refine ⟨h, fun v hv => ⟨v, ?_, rfl⟩⟩
      have hother : a ≠ w.address := fun heq => hne (heq ▸ h)
      rw [window, withoutWindow, List.find?_filter, ← hv, window]
      congr 1
      funext u
      by_cases hu : u.address = a <;> simp [hu, hother]
  grips _ hgripped v hv := hgripped v (List.mem_filter.mp hv).1
  buttons := rfl

/-- What destroying a window does, apart from the positions that it looks up. -/
theorem destroyWindowInternal_cases {fuel : Nat} {dying : List WindowObject} {handle : WindowHandle}
    (h : destroyWindowInternal (fuel + 1) dying s handle = some s') :
    (s.getWindowById handle = none ∧ s' = s) ∨
      ∃ w w', s.getWindowById handle = some w ∧ (s.unlinkChild w).window w.address = some w' ∧
        w'.children.foldlM (destroyChild (destroyWindowInternal fuel (w' :: dying)))
          ((s.unlinkChild w).withoutWindow w') = some s' := by
  rw [destroyWindowInternal] at h
  split at h
  next hnone =>
    cases h
    exact .inl ⟨hnone, rfl⟩
  next w hw =>
    simp only [Option.bind_eq_bind, Option.bind_eq_some_iff] at h
    obtain ⟨-, -, w', hw', s₁, hfold, htail⟩ := h
    refine .inr ⟨w, w', hw, hw', ?_⟩
    split at htail
    · cases htail
      exact hfold
    · obtain ⟨-, -, rfl⟩ := Option.map_eq_some_iff.mp htail
      exact hfold

theorem keeps_destroyWindow {handle : WindowHandle} (h : s.destroyWindow handle = some s') :
    Keeps ok s s' := by
  rw [destroyWindow] at h
  generalize s.windows.length + 1 = fuel at h
  generalize ([] : List WindowObject) = dying at h
  induction fuel generalizing s s' handle dying with
  | zero => cases h
  | succ fuel ih =>
      rcases destroyWindowInternal_cases h with ⟨-, rfl⟩ | ⟨w, w', -, -, hfold⟩
      · exact .refl s'
      · refine ((keeps_unlinkChild w).trans (keeps_withoutWindow w')).trans (.foldlM ?_ hfold)
        intro s₁ child s₂ hchild
        simp only [destroyChild, Option.bind_eq_bind, Option.bind_eq_some_iff] at hchild
        obtain ⟨c, -, hdestroy⟩ := hchild
        refine (keeps_moveWindow ?_).trans (ih _ hdestroy)
        exact fun _ => ⟨rfl, rfl, rfl⟩

theorem keeps_removeChild (c : WindowObject) : Keeps ok s (s.removeChild c) := by
  rw [removeChild]
  split
  · exact .refl s
  · exact keeps_moveWindow fun _ => ⟨rfl, rfl, rfl⟩

theorem keeps_appendChild (parent child : Address) (node : Bool) :
    Keeps ok s (s.appendChild parent child node) := by
  rw [appendChild]
  split
  · exact keeps_moveWindow fun _ => ⟨rfl, rfl, rfl⟩
  · exact .refl s

theorem keeps_windowSetParent (child parent : WindowHandle) (node : Bool) :
    Keeps ok s (s.windowSetParent child parent node) := by
  rw [windowSetParent]
  split
  next p c _ _ =>
    refine ((keeps_removeChild c).trans (keeps_appendChild ..)).trans (keeps_moveWindow ?_)
    exact fun _ => ⟨rfl, rfl, rfl⟩
  · exact .refl s

theorem window_raise (w : WindowObject) (a : Address) : (s.raise w).window a = s.window a := by
  simp only [window, raise, List.find?_append, List.find?_filter]
  by_cases h : a = w.address
  · rw [List.find?_eq_none.mpr fun v _ => by simp +contextual [h], Option.none_or]
    congr 1
    funext v
    by_cases hv : v.address = a <;> simp [hv, h]
  · rw [Option.or_eq_left_of_none]
    · congr 1
      funext v
      by_cases hv : v.address = a <;> simp [hv, h]
    · exact List.find?_eq_none.mpr fun v _ => by
        by_cases hv : v.address = a <;> simp [hv, h]

theorem keeps_setFocus (w : WindowObject) : Keeps ok s (s.setFocus w) where
  interactions := Nat.le_refl _
  resizing a h := ⟨h, fun v hv => ⟨v, (window_raise w a).trans hv, rfl⟩⟩
  grips _ hgripped v hv := by
    rcases List.mem_append.mp hv with hv | hv
    · exact hgripped v (List.mem_filter.mp hv).1
    · exact hgripped v (List.mem_filter.mp hv).1
  buttons := rfl

theorem keeps_syncChildPositions {fuel : Nat} {parent : Address}
    (h : s.syncChildPositions fuel parent = some s') : Keeps ok s s' := by
  induction fuel generalizing s s' parent with
  | zero => cases h
  | succ fuel ih =>
      rw [syncChildPositions, Option.bind_eq_bind, Option.bind_eq_some_iff] at h
      obtain ⟨p, -, h⟩ := h
      refine .foldlM ?_ h
      intro s₁ child s₂ hchild
      simp only [Option.bind_eq_some_iff] at hchild
      obtain ⟨_, -, _, -, hsync⟩ := hchild
      refine (keeps_moveWindow ?_).trans (ih hsync)
      exact fun _ => ⟨rfl, rfl, rfl⟩

/-! ## New windows -/

theorem mem_windowAddButton {memory : Bool} {buttons : List WindowButton} {button b : WindowButton}
    (h : b ∈ windowAddButton memory buttons button) : b ∈ buttons ∨ b = button := by
  rw [windowAddButton] at h
  split at h
  · rcases List.mem_append.mp h with h | h
    · exact .inl h
    · exact .inr (List.mem_singleton.mp h)
  · exact .inl h

theorem titlebarButtons_event {wclass : WindowClass} {style : UInt16} {titlebarHeight : UInt8}
    {memory : WindowMemory} {buttons : List WindowButton} {button : WindowButton}
    (h : titlebarButtons wclass style titlebarHeight memory = some buttons)
    (hmem : button ∈ buttons) : button.event ≠ dwmEventResize := by
  have hevents : dwmEventClose ≠ dwmEventResize ∧ dwmEventMinimize ≠ dwmEventResize := by decide
  rw [titlebarButtons] at h
  split at h
  · split at h
    · cases h
      cases hmem
    · split at h
      · cases h
      · dsimp only at h
        split at h <;> cases h
        · rcases mem_windowAddButton hmem with hnone | rfl
          · cases hnone
          · exact hevents.1
        · rcases mem_windowAddButton hmem with hclose | rfl
          · rcases mem_windowAddButton hclose with hnone | rfl
            · cases hnone
            · exact hevents.1
          · exact hevents.2
  · cases h
    cases hmem

theorem windowButtons_resize {wclass : WindowClass} {style : UInt16} {titlebarHeight : UInt8}
    {memory : WindowMemory} {buttons : List WindowButton} {button : WindowButton}
    (h : windowButtons wclass style titlebarHeight memory = some buttons) (hmem : button ∈ buttons)
    (hevent : button.event = dwmEventResize) : style &&& dwmWstyleResizeable ≠ 0 := by
  rw [windowButtons, Option.map_eq_some_iff] at h
  obtain ⟨titlebar, htitlebar, rfl⟩ := h
  intro hstyle
  rw [if_neg (not_not.mpr hstyle)] at hmem
  exact titlebarButtons_event htitlebar hmem hevent

theorem keeps_allocateWindow {wclass : WindowClass} {style : UInt16} {memory : WindowMemory}
    (h : s.allocateWindow wclass style memory = some s') :
    Keeps (style &&& dwmWstyleResizeable ≠ 0 → style &&& dwmWstyleChild = 0) s s' := by
  rw [allocateWindow] at h
  split at h
  · cases h
    exact .refl s
  next address _ =>
    split at h
    · cases h
    · dsimp only at h
      split at h
      · cases h
        exact .refl s
      · simp only [Option.bind_eq_bind, Option.bind_eq_some_iff] at h
        obtain ⟨⟨id, nextWindowId⟩, -, buttons, hbuttons, h⟩ := h
        split at h
        · cases h
          refine ⟨Nat.le_refl _, fun a ha => ⟨ha, fun w hw => ⟨w, ?_, rfl⟩⟩, ?_, rfl⟩
          · rw [window] at hw
            rw [window, List.find?_append, hw, Option.some_or]
          · intro hstyle hgripped w hw hgrip
            rcases List.mem_append.mp hw with hw | hw
            · exact hgripped w hw hgrip
            · rw [List.mem_singleton.mp hw] at hgrip ⊢
              obtain ⟨button, hbutton, hevent⟩ := hgrip
              have hchild := hstyle (windowButtons_resize hbuttons hbutton hevent)
              simp [hchild]
        · cases h
          exact .of_eq rfl (Nat.le_refl _) rfl rfl

/-! ## Operations on the desktop -/

theorem keeps_createIcon {x y width height : UInt16} {address : Option Address}
    (h : s.createIcon x y width height address = some s') : Keeps ok s s' := by
  cases address with
  | none =>
      cases h
      exact .refl s
  | some address =>
      rw [createIcon] at h
      split at h <;> cases h
      exact .of_eq rfl (Nat.le_refl _) rfl rfl

theorem keeps_createContextMenu (x y : Int) (directive : UInt16) (itemCount : Int) :
    Keeps ok s (s.createContextMenu x y directive itemCount) := by
  rw [createContextMenu]
  split
  · exact .refl s
  · exact .of_eq rfl (Nat.le_refl _) rfl rfl

theorem keeps_summonContextMenu (handle : WindowHandle) (x y numberOfItems : UInt16) :
    Keeps ok s (s.summonContextMenu handle x y numberOfItems) := by
  rw [summonContextMenu]
  split
  · exact .refl s
  · dsimp only
    split
    · exact .refl s
    next w _ _ =>
      have hhandle : Keeps ok s { s with menuHandle := some w.address } :=
        .of_eq rfl (Nat.le_refl _) rfl rfl
      exact hhandle.trans (keeps_createContextMenu ..)

/-- No icon is dragged any more, or the same. -/
theorem keeps_dropIcon (h : s'.windows = s.windows) {icon : Option Address}
    (hicon : icon.isSome.toNat ≤ s.dragdrop.draggedIcon.isSome.toNat)
    (hdragdrop : s'.dragdrop = { s.dragdrop with draggedIcon := icon })
    (hbuttons : s'.buttons = s.buttons) : Keeps ok s s' := by
  refine .of_eq h ?_ (by rw [hdragdrop]) hbuttons
  rw [hdragdrop]
  simp only [DragDrop.interactions]
  omega

theorem keeps_perform {op : DesktopOp} (h : s.perform op = some s') :
    Keeps op.Buffered s s' := by
  have hdropped : ∀ icon : Address,
      (if s.dragdrop.draggedIcon = some icon then none else s.dragdrop.draggedIcon).isSome.toNat ≤
        s.dragdrop.draggedIcon.isSome.toNat := by
    intro icon
    split
    · exact Nat.zero_le _
    · exact Nat.le_refl _
  cases op with
  | createWindow wclass style memory => exact keeps_allocateWindow h
  | destroyWindow handle => exact keeps_destroyWindow h
  | setParent child parent node =>
      cases h
      exact keeps_windowSetParent child parent node
  | setFocus handle =>
      rw [perform, windowSetFocus] at h
      split at h
      · cases h
        exact .refl s
      · split at h
        · cases h
          exact keeps_setFocus _
        · rw [Option.map_eq_some_iff] at h
          obtain ⟨w, -, rfl⟩ := h
          exact keeps_setFocus w
  | createIcon x y width height address => exact keeps_createIcon h
  | destroyIcon icon =>
      cases h
      rw [destroyIcon]
      split
      · exact .refl s
      · exact keeps_dropIcon rfl (hdropped icon) rfl rfl
  | moveIcon | setIconBounds =>
      cases h
      exact .of_eq rfl (Nat.le_refl _) rfl rfl
  | summonContextMenu handle x y numberOfItems =>
      cases h
      exact keeps_summonContextMenu handle x y numberOfItems
  | renameBegin icon length =>
      cases h
      exact keeps_dropIcon rfl (hdropped icon) rfl rfl
  | renameText | renameEnd =>
      cases h
      exact .of_eq rfl (Nat.le_refl _) rfl rfl

theorem keeps_performAll {ops : List DesktopOp} (h : s.performAll ops = some s') :
    Keeps (∀ op ∈ ops, op.Buffered) s s' := by
  induction ops generalizing s with
  | nil =>
      cases h
      exact .refl _
  | cons op ops ih =>
      rw [performAll, List.foldlM_cons, Option.bind_eq_bind, Option.bind_eq_some_iff] at h
      obtain ⟨s₁, hop, hrest⟩ := h
      have hfirst := (keeps_perform hop).mono fun (hall : ∀ op' ∈ op :: ops, op'.Buffered) =>
        hall op List.mem_cons_self
      exact hfirst.trans ((ih hrest).mono fun hall op' hop' =>
        hall op' (List.mem_cons_of_mem op hop'))

/-! ## The handlers of interactions -/

theorem keeps_updateIconDragging (h : s.updateIconDragging = some s') : Keeps ok s s' := by
  rw [updateIconDragging] at h
  split at h
  · cases h
    exact .refl s
  · split at h
    · dsimp only at h
      split at h
      · cases h
        exact .refl s
      · rw [Option.map_eq_some_iff] at h
        obtain ⟨i, -, rfl⟩ := h
        exact .of_eq rfl (Nat.le_refl _) rfl rfl
    · cases h
      exact keeps_dropIcon rfl (Nat.zero_le _) rfl rfl

theorem keeps_updateWindowDragging (h : s.updateWindowDragging = some s') : Keeps ok s s' := by
  rw [updateWindowDragging] at h
  split at h
  · cases h
    exact .refl s
  · split at h
    · rw [Option.bind_eq_some_iff] at h
      obtain ⟨w, -, h⟩ := h
      dsimp only at h
      split at h
      · cases h
        exact .refl s
      · rw [moveWindow, Option.bind_eq_bind, Option.bind_eq_some_iff] at h
        obtain ⟨_, -, hsync⟩ := h
        refine (keeps_moveWindow ?_).trans (keeps_syncChildPositions hsync)
        exact fun _ => ⟨rfl, rfl, rfl⟩
    · cases h
      refine .of_eq rfl ?_ rfl rfl
      simp only [DragDrop.interactions, Option.isSome_none, Bool.toNat_false]
      omega

theorem resizeWindowBuffer_some {v : WindowObject} {newW newH : Int} {memory : Bool}
    (h : resizeWindowBuffer w newW newH memory = some v) :
    v.address = w.address ∧ v.frameBuffer = w.frameBuffer ∧ v.buttons = w.buttons := by
  rw [resizeWindowBuffer] at h
  split at h
  · split at h <;> cases h
    exact ⟨rfl, rfl, rfl⟩
  · cases h
    exact ⟨rfl, rfl, rfl⟩

theorem moveButton_event (w : WindowObject) (uiClose : Option UInt16) (button : WindowButton) :
    (moveButton w uiClose button).event = button.event := by
  simp only [moveButton]
  split
  · rfl
  · split
    · rfl
    · split
      · split <;> rfl
      · rfl

theorem keeps_resizeWindow {targetW targetH : Int} {around : Surroundings}
    (hw : s.window a = some w) (h : s.resizeWindow a w targetW targetH around = some s') :
    Keeps ok s s' := by
  simp only [resizeWindow, Option.bind_eq_bind, Option.bind_eq_some_iff] at h
  obtain ⟨v, hresized, s₁, hsync, h⟩ := h
  obtain ⟨haddress, hbuffer, hbuttons⟩ := resizeWindowBuffer_some hresized
  have hgrip : v.HasGrip ↔ w.HasGrip := by rw [WindowObject.HasGrip, hbuttons, WindowObject.HasGrip]
  have hreplaced : Keeps ok s (s.modifyWindow a fun _ => v) := by
    refine keeps_modifyWindow (fun _ _ => haddress.trans (window_some hw).2) ?_ ?_
    · intro u hu
      rw [hw] at hu
      cases hu
      exact hbuffer
    · intro hgripped _ _ _ hv
      exact hbuffer.trans (hgripped w (window_some hw).1 (hgrip.mp hv))
  have hplaced : Keeps ok s₁ s' := by
    cases h
    refine keeps_modifyWindow (fun _ h => h) (fun _ _ => rfl) ?_
    rintro hgripped u hu - ⟨moved, hmoved, hevent⟩
    obtain ⟨button, hbutton, rfl⟩ := List.mem_map.mp hmoved
    rw [moveButton_event] at hevent
    exact hgripped u hu ⟨button, hbutton, hevent⟩
  exact (hreplaced.trans (keeps_syncChildPositions hsync)).trans hplaced

theorem keeps_updateWindowResizing {around : Surroundings}
    (h : s.updateWindowResizing around = some s') : Keeps ok s s' := by
  rw [updateWindowResizing] at h
  split at h
  · cases h
    exact .refl s
  · rw [Option.bind_eq_some_iff] at h
    obtain ⟨w, hw, h⟩ := h
    split at h
    · cases h
      exact .refl s
    · dsimp only at h
      split at h
      · split at h
        · cases h
          exact .refl s
        · exact keeps_resizeWindow hw h
      · cases h
        refine ⟨?_, nofun, fun _ h => h, rfl⟩
        simp only [DragDrop.interactions, Option.isSome_none, Bool.toNat_false]
        omega

theorem keeps_updateWindowCapture : Keeps ok s s.updateWindowCapture := by
  rw [updateWindowCapture]
  split
  · exact .refl s
  · split
    · refine .of_eq rfl ?_ rfl rfl
      simp [DragDrop.interactions]
    · exact .refl s

/-! ## Clicks -/

/-- At most one interaction goes on, and the window that is resized is there. -/
structure Sound (ok : Prop) (s : Desktop) : Prop where
  one : s.dragdrop.interactions ≤ 1
  resizing : ∀ a, s.dragdrop.draggedResizing = some a →
    ∃ w, s.window a = some w ∧ (ok → w.frameBuffer = true)
  grips : ok → s.Gripped

theorem Keeps.sound (h : Keeps ok s s') (hs : s.Sound ok) : s'.Sound ok where
  one := Nat.le_trans h.interactions hs.one
  resizing a hresizing := by
    obtain ⟨hresizing, hwindow⟩ := h.resizing a hresizing
    obtain ⟨w, hw, hbuffer⟩ := hs.resizing a hresizing
    obtain ⟨w', hw', hsame⟩ := hwindow w hw
    exact ⟨w', hw', fun hok => hsame.trans (hbuffer hok)⟩
  grips hok := h.grips hok (hs.grips hok)

theorem Keeps.idle (h : Keeps ok s s') (hidle : ¬s.Dragging) : ¬s'.Dragging := by
  rw [dragging_iff, not_not] at hidle ⊢
  exact Nat.le_zero.mp (hidle ▸ h.interactions)

theorem windowAt_some {p : Point} {level : List Address} (h : s.windowAt p level = some (some w)) :
    ∃ a, s.window a = some w := by
  induction level with
  | nil => cases h
  | cons a rest ih =>
      simp only [windowAt, Option.bind_eq_bind, Option.bind_eq_some_iff] at h
      obtain ⟨v, hv, position, -, h⟩ := h
      split at h
      · cases h
        exact ⟨a, hv⟩
      · exact ih h

theorem findClickedWindow_some {p : Point} {fuel : Nat} {level : List Address}
    (h : s.findClickedWindow p fuel level = some (some w)) : ∃ a, s.window a = some w := by
  induction fuel generalizing level w with
  | zero => cases h
  | succ fuel ih =>
      rw [findClickedWindow, Option.bind_eq_bind, Option.bind_eq_some_iff] at h
      obtain ⟨found, hfound, h⟩ := h
      cases found with
      | none => cases h
      | some v =>
          dsimp only at h
          split at h
          · cases h
            exact windowAt_some hfound
          · simp only [Option.bind_eq_some_iff] at h
            obtain ⟨inner, hinner, h⟩ := h
            cases inner with
            | none =>
                cases h
                exact windowAt_some hfound
            | some u =>
                cases h
                exact ih hinner

/-- A click while nothing goes on starts at most one interaction. -/
theorem sound_clickWindow {position : Point} {clicks : Clicks} (hs : s.Sound ok)
    (hidle : ¬s.Dragging) (hw : s.window w.address = some w) :
    (s.clickWindow w position clicks).Sound ok := by
  have hnone := not_not.mp (dragging_iff.not.mp hidle)
  have hfields : s.dragdrop.draggedWindow = none ∧ s.dragdrop.draggedResizing = none ∧
      s.dragdrop.draggedIcon = none ∧ s.dragdrop.capturedWindow = 0 := by
    simpa [Dragging, not_or] using hidle
  obtain ⟨hwindow, hresizing, hicon, hcaptured⟩ := hfields
  rw [clickWindow]
  split
  next button hbutton =>
    split
    next hevent =>
      refine ⟨?_, ?_, hs.grips⟩
      · simp [DragDrop.interactions, hwindow, hicon, hcaptured]
      · rintro _ ⟨⟩
        refine ⟨w, hw, fun hok => hs.grips hok w (window_some hw).1 ⟨button, ?_, hevent⟩⟩
        exact List.mem_of_find?_eq_some hbutton
    next => exact hs
  next =>
    split
    · refine ⟨?_, hs.resizing, hs.grips⟩
      simp only [DragDrop.interactions, hresizing, hicon, hcaptured]
      split <;> simp [hwindow]
    · split
      · refine ⟨?_, hs.resizing, hs.grips⟩
        simp only [DragDrop.interactions, hwindow, hresizing, hicon]
        cases w.id != 0 <;> decide
      · exact hs

theorem keeps_focusRoot (root : WindowObject) : Keeps ok s (s.focusRoot root) := by
  rw [focusRoot]
  split
  · exact .refl s
  · exact keeps_setFocus root

theorem window_focusRoot (root : WindowObject) (a : Address) :
    (s.focusRoot root).window a = s.window a := by
  rw [focusRoot]
  split
  · rfl
  · exact window_raise root a

/-- A click that is not taken by a window changes nothing. -/
theorem sound_handleWindowClicks {clicks : Clicks} {taken : Bool} (hs : s.Sound ok)
    (hidle : ¬s.Dragging) (h : s.handleWindowClicks clicks = some (taken, s')) :
    s'.Sound ok ∧ (taken = false → s' = s) := by
  rw [handleWindowClicks, Option.bind_eq_bind, Option.bind_eq_some_iff] at h
  obtain ⟨clicked, hclicked, h⟩ := h
  cases clicked with
  | none =>
      cases h
      exact ⟨hs, fun _ => rfl⟩
  | some w =>
      simp only [Option.bind_eq_bind, Option.bind_eq_some_iff] at h
      obtain ⟨root, -, position, -, h⟩ := h
      cases h
      obtain ⟨a, ha⟩ := findClickedWindow_some hclicked
      obtain rfl := (window_some ha).2
      have hfocus : Keeps ok s (s.focusRoot root) := keeps_focusRoot root
      exact ⟨sound_clickWindow (hfocus.sound hs) (hfocus.idle hidle)
        ((window_focusRoot root _).trans ha), nofun⟩

theorem sound_handleIconClicks {clicks : Clicks} {around : Surroundings} (hs : s.Sound ok)
    (hidle : ¬s.Dragging) : (s.handleIconClicks clicks around).Sound ok := by
  have hnone : s.dragdrop.draggedWindow = none ∧ s.dragdrop.draggedResizing = none ∧
      s.dragdrop.draggedIcon = none ∧ s.dragdrop.capturedWindow = 0 := by
    simpa [Dragging, not_or] using hidle
  obtain ⟨hwindow, hresizing, hicon, hcaptured⟩ := hnone
  rw [handleIconClicks]
  split
  · split
    · exact ⟨hs.one, hs.resizing, hs.grips⟩
    · split
      · exact (keeps_createContextMenu ..).sound hs
      · exact hs
  next i _ =>
    have hfocused : Sound ok { s with focusedIcon := some i.address } :=
      ⟨hs.one, hs.resizing, hs.grips⟩
    dsimp only
    split
    · rw [clickIcon]
      split <;>
      · refine ⟨?_, hs.resizing, hs.grips⟩
        simp [DragDrop.interactions, hwindow, hresizing, hcaptured]
    · split
      · exact (keeps_createContextMenu ..).sound hfocused
      · exact hfocused

theorem keeps_processContextMenuEvents {around : Surroundings}
    (h : s.processContextMenuEvents around = some s') : Keeps around.Buffered s s' := by
  rw [processContextMenuEvents] at h
  split at h
  · split at h
    · cases h
      exact .refl s
    · obtain ⟨-, -, rfl⟩ := Option.map_eq_some_iff.mp h
      exact .refl s
  · split at h
    · exact (keeps_performAll h).mono And.left
    · cases h
      exact .refl s

theorem keeps_clickMenu {menu : ContextMenu} {clicks : Clicks} {around : Surroundings}
    (h : s.clickMenu menu clicks around = some s') : Keeps around.Buffered s s' := by
  rw [clickMenu] at h
  split at h
  · split at h
    · cases h
    · split at h
      · exact keeps_processContextMenuEvents h
      · cases h
        exact .refl s
  · cases h
    exact .refl s

theorem keeps_handleContextMenuClicks {clicks : Clicks} {around : Surroundings} {taken : Bool}
    (h : s.handleContextMenuClicks clicks around = some (taken, s')) :
    Keeps around.Buffered s s' := by
  rw [handleContextMenuClicks] at h
  split at h
  · cases h
    exact .of_eq rfl (Nat.le_refl _) rfl rfl
  · rw [Option.map_eq_some_iff] at h
    obtain ⟨s₁, hclick, h⟩ := h
    cases h
    exact (keeps_clickMenu hclick).trans (.of_eq rfl (Nat.le_refl _) rfl rfl)

theorem keeps_renameHandleClick {around : Surroundings} {taken : Bool}
    (h : s.renameHandleClick around = some (taken, s')) : Keeps around.Buffered s s' := by
  rw [renameHandleClick] at h
  split at h
  · cases h
    exact .refl s
  · rw [Option.bind_eq_some_iff] at h
    obtain ⟨i, -, h⟩ := h
    split at h
    · cases h
      exact .refl s
    · rw [Option.map_eq_some_iff] at h
      obtain ⟨s₁, hcommit, h⟩ := h
      cases h
      have hover : Keeps around.Buffered s { s with rename := none } :=
        .of_eq rfl (Nat.le_refl _) rfl rfl
      exact hover.trans ((keeps_performAll hcommit).mono And.right)

theorem sound_updateMouse {around : Surroundings} {clicks : Clicks} (hok : ok → around.Buffered)
    (hs : s.Sound ok) (hidle : ¬s.Dragging) (h : s.updateMouse around = some (clicks, s')) :
    s'.Sound ok := by
  rw [updateMouse] at h
  dsimp only at h
  split at h
  · cases h
    exact hs
  · rw [Option.bind_eq_bind, Option.bind_eq_some_iff] at h
    obtain ⟨⟨taken, s₁⟩, hmenu, h⟩ := h
    have hmenu := (keeps_handleContextMenuClicks hmenu).mono hok
    dsimp only at h
    split at h
    · cases h
      exact hmenu.sound hs
    · rw [Option.bind_eq_some_iff] at h
      obtain ⟨⟨taken₂, s₂⟩, hrename, h⟩ := h
      have hrename := hmenu.trans ((keeps_renameHandleClick hrename).mono hok)
      dsimp only at h
      split at h
      · cases h
        exact hrename.sound hs
      · rw [Option.bind_eq_some_iff] at h
        obtain ⟨⟨taken₃, s₃⟩, hwindows, h⟩ := h
        obtain ⟨hclicked, hsame⟩ :=
          sound_handleWindowClicks (hrename.sound hs) (hrename.idle hidle) hwindows
        dsimp only at h
        split at h
        · cases h
          exact hclicked
        next htaken =>
          cases h
          obtain rfl := hsame (by simpa using htaken)
          exact sound_handleIconClicks ⟨hclicked.one, hclicked.resizing, hclicked.grips⟩
            (hrename.idle hidle)

theorem sound_applyMouseState {around : Surroundings} {clicks : Clicks}
    (hok : ok → around.Buffered) (hs : s.Sound ok)
    (h : s.applyMouseState around = some (clicks, s')) : s'.Sound ok := by
  rw [applyMouseState] at h
  split at h
  · rw [Option.map_eq_some_iff] at h
    obtain ⟨s₁, hdragged, h⟩ := h
    cases h
    exact (keeps_updateWindowDragging hdragged).sound hs
  next hwindow =>
    split at h
    · rw [Option.map_eq_some_iff] at h
      obtain ⟨s₁, hresized, h⟩ := h
      cases h
      exact (keeps_updateWindowResizing hresized).sound hs
    next hresizing =>
      split at h
      · rw [Option.map_eq_some_iff] at h
        obtain ⟨s₁, hdragged, h⟩ := h
        cases h
        exact (keeps_updateIconDragging hdragged).sound hs
      next hicon =>
        split at h
        · cases h
          exact keeps_updateWindowCapture.sound hs
        next hcaptured =>
          refine sound_updateMouse hok hs ?_ h
          rintro (h | h | h | h)
          · exact hwindow h
          · exact hresizing h
          · exact hicon h
          · exact hcaptured h

/-! ## Releasing the button -/

/-- The desktop when an event with the left button up is applied. -/
def released (s : Desktop) (mouse : Point) (rightButtonPressed : Bool) : Desktop :=
  { s with mouse, leftButtonPressed := false, rightButtonPressed }

/-- Every event with the left button up that is applied during an interaction ends it. -/
def Releases (s : Desktop) : Prop :=
  ∀ mouse rightButtonPressed around, (s.released mouse rightButtonPressed).Dragging →
    ∃ clicks s', (s.released mouse rightButtonPressed).applyMouseState around = some (clicks, s') ∧
      ¬s'.Dragging

/-- What goes on is the only interaction, so that nothing goes on after it. -/
theorem Sound.over (hs : s.Sound ok) (hless : s'.dragdrop.interactions < s.dragdrop.interactions) :
    ¬s'.Dragging := by
  have hone := hs.one
  rw [dragging_iff, not_not]
  omega

theorem Sound.of_released (hs : s.Sound ok) (mouse : Point) (right : Bool) :
    (s.released mouse right).Sound ok :=
  ⟨hs.one, hs.resizing, hs.grips⟩

theorem Sound.releases (hs : s.Sound ok) (hbuffered : s.ResizesBuffered) : s.Releases := by
  intro mouse right around hdragging
  rw [applyMouseState]
  split
  next hwindow =>
    obtain ⟨a, ha⟩ := Option.isSome_iff_exists.mp hwindow
    refine ⟨_, _, by rw [updateWindowDragging, ha]; rfl, (hs.of_released mouse right).over ?_⟩
    simp [DragDrop.interactions, ha]
  next =>
    split
    next hresizing =>
      obtain ⟨a, ha⟩ := Option.isSome_iff_exists.mp hresizing
      obtain ⟨w, hw, -⟩ := hs.resizing a ha
      have hbuffer := hbuffered a w ha hw
      have hupdate : (s.released mouse right).updateWindowResizing around =
          some { s.released mouse right with
            dragdrop := { s.dragdrop with draggedResizing := none } } := by
        rw [updateWindowResizing, ha, Option.bind_eq_some_iff]
        exact ⟨w, hw, by simp [hbuffer, released]⟩
      have hsome : s.dragdrop.draggedResizing = some a := ha
      refine ⟨_, _, by rw [hupdate]; rfl, (hs.of_released mouse right).over ?_⟩
      simp [DragDrop.interactions, released, hsome]
    next =>
      split
      next hicon =>
        obtain ⟨a, ha⟩ := Option.isSome_iff_exists.mp hicon
        refine ⟨_, _, by rw [updateIconDragging, ha]; rfl, (hs.of_released mouse right).over ?_⟩
        simp [DragDrop.interactions, ha]
      next =>
        split
        next hcaptured =>
          have hsome : (s.dragdrop.capturedWindow == 0) = false := beq_false_of_ne hcaptured
          refine ⟨_, _, rfl, (hs.of_released mouse right).over ?_⟩
          rw [updateWindowCapture, if_neg hcaptured, if_pos (.inr Bool.false_ne_true)]
          simp [DragDrop.interactions, released, bne, hsome]
        next => simp_all [Dragging]

/-- The event changes nothing while a window without a frame buffer is resized. -/
theorem Sound.releases_iff (hs : s.Sound ok) : s.Releases ↔ s.ResizesBuffered := by
  refine ⟨fun hreleases a w ha hw => ?_, hs.releases⟩
  by_contra hbuffer
  have hdragging : (s.released s.mouse false).Dragging := .inr (.inl (by simp [released, ha]))
  have hwindow : s.dragdrop.draggedWindow = none := by
    have hone := hs.one
    simp only [DragDrop.interactions, ha, Option.isSome_some, Bool.toNat_true] at hone
    cases h : s.dragdrop.draggedWindow with
    | none => rfl
    | some b =>
        rw [h, Option.isSome_some, Bool.toNat_true] at hone
        omega
  obtain ⟨clicks, s', happly, hover⟩ := hreleases s.mouse false ⟨0, [], [], true, none⟩ hdragging
  have hsame : (s.released s.mouse false).updateWindowResizing ⟨0, [], [], true, none⟩ =
      some (s.released s.mouse false) := by
    rw [updateWindowResizing,
      show (s.released s.mouse false).dragdrop.draggedResizing = some a from ha]
    exact Option.bind_eq_some_iff.mpr ⟨w, hw, by simp [hbuffer]⟩
  rw [applyMouseState, if_neg (by simp [released, hwindow]), if_pos (by simp [released, ha]), hsame]
    at happly
  cases happly
  exact hover hdragging

end Desktop

/-! ## Runs -/

namespace Frame

variable {f g : Frame} {ok : Prop} {input : MouseInput}

theorem sound_flush {clicks : Clicks} (hok : ok → input.Buffered) (hf : f.desktop.Sound ok)
    (h : f.flush input = some (clicks, g)) : g.desktop.Sound ok := by
  rw [flush] at h
  split at h
  · rw [Option.map_eq_some_iff] at h
    obtain ⟨⟨clicks, s⟩, happly, h⟩ := h
    cases h
    exact Desktop.sound_applyMouseState (fun h => (hok h).2) hf happly
  · cases h
    exact hf

theorem sound_take {dragging buttonsChanged : Bool} {clicks : Clicks}
    (hok : ok → input.Buffered) (hf : f.desktop.Sound ok)
    (h : f.take input dragging buttonsChanged = some (clicks, g)) : g.desktop.Sound ok := by
  have hsnapshot : (f.desktop.snapshot input).Sound ok := ⟨hf.one, hf.resizing, hf.grips⟩
  rw [take] at h
  dsimp only at h
  split at h
  · cases h
    exact hsnapshot
  · rw [Option.map_eq_some_iff] at h
    obtain ⟨⟨clicks, s⟩, happly, h⟩ := h
    cases h
    exact Desktop.sound_applyMouseState (fun h => (hok h).1) hsnapshot happly

theorem sound_event {clicks : Clicks × Clicks} (hok : ok → input.Buffered)
    (hf : f.desktop.Sound ok) (h : f.event input = some (clicks, g)) : g.desktop.Sound ok := by
  simp only [event, Option.bind_eq_bind, Option.bind_eq_some_iff] at h
  obtain ⟨⟨flushed, g₁⟩, hflush, ⟨own, g₂⟩, htake, h⟩ := h
  cases h
  exact sound_take hok (sound_flush hok hf hflush) htake

theorem sound_run {events : List MouseInput} {clicks : List (Clicks × Clicks)}
    (hok : ok → ∀ input ∈ events, input.Buffered) (hf : f.desktop.Sound ok)
    (h : Trace.run event f events = some (clicks, g)) : g.desktop.Sound ok := by
  induction events generalizing f clicks with
  | nil =>
      cases h
      exact hf
  | cons input events ih =>
      obtain ⟨answer, f₁, answers, hevent, hrest, -⟩ := Trace.run_cons.mp h
      refine ih (fun h e he => hok h e (List.mem_cons_of_mem input he)) ?_ hrest
      exact sound_event (fun h => hok h input List.mem_cons_self) hf hevent

end Frame

namespace Desktop

variable {s s' : Desktop} {ok : Prop}

theorem sound_update {frame : FrameInput} {clicks : List (Clicks × Clicks)}
    (hok : ok → (DwmOp.update frame).Buffered) (hs : s.Sound ok)
    (h : s.update frame = some (clicks, s')) : s'.Sound ok := by
  simp only [update, Option.bind_eq_bind, Option.bind_eq_some_iff] at h
  obtain ⟨⟨clicks, f⟩, hevents, ⟨last, s₁⟩, hfinish, h⟩ := h
  cases h
  have hf : f.desktop.Sound ok := Frame.sound_run (fun h => (hok h).1) hs hevents
  rw [Frame.finish, Option.map_eq_some_iff] at hfinish
  obtain ⟨⟨clicks, s₂⟩, hpending, h⟩ := hfinish
  cases h
  have hs₂ : s₂.Sound ok := by
    rw [Frame.pending] at hpending
    split at hpending
    · exact sound_applyMouseState (fun h => (hok h).2) hf hpending
    · cases hpending
      exact hf
  exact ⟨hs₂.one, hs₂.resizing, hs₂.grips⟩

theorem sound_step {op : DwmOp} {clicks : List (Clicks × Clicks)} (hok : ok → op.Buffered)
    (hs : s.Sound ok) (h : s.step op = some (clicks, s')) : s'.Sound ok := by
  cases op with
  | perform op =>
      obtain ⟨s₁, hop, h⟩ := Option.map_eq_some_iff.mp h
      cases h
      exact ((keeps_perform hop).mono hok).sound hs
  | update frame => exact sound_update hok hs h

theorem sound_init (displayWidth displayHeight : Int) :
    (init displayWidth displayHeight).Sound ok :=
  ⟨by simp [init, DragDrop.interactions], nofun, fun _ => nofun⟩

theorem sound_run {displayWidth displayHeight : Int} {ops : List DwmOp}
    {clicks : List (List (Clicks × Clicks))} (hok : ok → ∀ op ∈ ops, op.Buffered)
    (h : Trace.run step (init displayWidth displayHeight) ops = some (clicks, s)) : s.Sound ok := by
  have hinit : (init displayWidth displayHeight).Sound ok := sound_init displayWidth displayHeight
  generalize init displayWidth displayHeight = s₀ at h hinit
  induction ops generalizing s₀ clicks with
  | nil =>
      cases h
      exact hinit
  | cons op ops ih =>
      obtain ⟨answer, s₁, answers, hstep, hrest, -⟩ := Trace.run_cons.mp h
      refine ih (fun h o ho => hok h o (List.mem_cons_of_mem op ho)) s₁ hrest ?_
      exact sound_step (fun h => hok h op List.mem_cons_self) hinit hstep

end Desktop

/-- At most one interaction goes on wherever an event is handled. Releasing the left button
ends it unless a window without a frame buffer is resized, and none is if no child window with
a resize grip is created. -/
theorem interactions_end {displayWidth displayHeight : Int} {ops : List DwmOp}
    {clicks : List (List (Clicks × Clicks))} {s : Desktop}
    (hrun : Trace.run Desktop.step (.init displayWidth displayHeight) ops = some (clicks, s))
    {events : List MouseInput} {answers : List (Clicks × Clicks)} {f : Frame}
    (hevents : Trace.run Frame.event ⟨s, false⟩ events = some (answers, f))
    {input : MouseInput} {flushed : Clicks} {g : Frame}
    (hflush : f.flush input = some (flushed, g)) :
    g.desktop.dragdrop.interactions ≤ 1 ∧
      (g.desktop.Releases ↔ g.desktop.ResizesBuffered) ∧
      ((∀ op ∈ ops, op.Buffered) → (∀ input' ∈ events ++ [input], input'.Buffered) →
        g.desktop.Releases) := by
  have hsound : ∀ ok : Prop, (ok → ∀ op ∈ ops, op.Buffered) →
      (ok → ∀ input' ∈ events ++ [input], input'.Buffered) → g.desktop.Sound ok := by
    intro ok hops hinputs
    have hs := Desktop.sound_run hops hrun
    have hf := Frame.sound_run
      (fun h input' hmem => hinputs h input' (List.mem_append_left _ hmem)) hs hevents
    exact Frame.sound_flush
      (fun h => hinputs h input (List.mem_append_right _ (List.mem_singleton_self _))) hf hflush
  have hg := hsound False False.elim False.elim
  refine ⟨hg.one, hg.releases_iff, fun hops hinputs => ?_⟩
  have hbuffered := hsound True (fun _ => hops) fun _ => hinputs
  refine hbuffered.releases fun a w ha hw => ?_
  obtain ⟨w', hw', hbuffer⟩ := hbuffered.resizing a ha
  rw [hw] at hw'
  cases hw'
  exact hbuffer trivial

/-- Nothing happens around the mouse. -/
def Surroundings.quiet : Surroundings := ⟨0, [], [], true, none⟩

theorem Surroundings.quiet_buffered : quiet.Buffered :=
  ⟨fun _ => List.not_mem_nil.elim, fun _ => List.not_mem_nil.elim⟩

/-- The left button at a place. -/
def MouseInput.left (x y : Int) (leftButton : Bool) : MouseInput :=
  ⟨x, y, leftButton, false, .quiet, .quiet⟩

/-- A window of 200 by 100 pixels at (50, 50). -/
def DesktopOp.create (style : UInt16) : DesktopOp :=
  .createWindow ⟨50, 50, 200, 100, 0, 0⟩ style ⟨some 0x1000, true, true, true,
    true, true, none, none⟩

/-- A window is dragged at its title bar. -/
theorem interactions_end_drag : ∃ clicks s answers f flushed g,
    Trace.run Desktop.step (.init 800 600) [.perform (.create 0)] = some (clicks, s) ∧
      Trace.run Frame.event ⟨s, false⟩ [.left 100 55 true] = some (answers, f) ∧
      f.flush (.left 100 60 false) = some (flushed, g) ∧ g.desktop.dragdrop.interactions = 1 ∧
      g.desktop.Releases := by
  have hrun : ((Trace.run Desktop.step (.init 800 600) [.perform (.create 0)]).bind fun r =>
      (Trace.run Frame.event ⟨r.2, false⟩ [.left 100 55 true]).bind fun q =>
        (q.2.flush (.left 100 60 false)).map fun p => p.2.desktop.dragdrop.interactions) =
      some 1 := by
    decide +kernel
  simp only [Option.bind_eq_some_iff, Option.map_eq_some_iff] at hrun
  obtain ⟨⟨clicks, s⟩, hrun, ⟨answers, f⟩, hevents, ⟨flushed, g⟩, hflush, hone⟩ := hrun
  refine ⟨clicks, s, answers, f, flushed, g, hrun, hevents, hflush, hone, ?_⟩
  refine (interactions_end hrun hevents hflush).2.2 ?_ ?_
  · simp only [List.mem_singleton, forall_eq]
    exact fun _ => by decide
  · rintro input hinput
    simp only [List.cons_append, List.nil_append, List.mem_cons, List.not_mem_nil,
      or_false] at hinput
    rcases hinput with rfl | rfl <;>
      exact ⟨Surroundings.quiet_buffered, Surroundings.quiet_buffered⟩

/-- A child window with a resize grip is resized, and releasing the button does not end that. -/
theorem interactions_not_end : ∃ clicks s,
    Trace.run Desktop.step (.init 800 600)
        [.perform (.create (dwmWstyleChild ||| dwmWstyleResizeable)),
          .update ⟨[.left 245 145 true, .left 245 145 false], .quiet⟩] = some (clicks, s) ∧
      s.leftButtonPressed = false ∧ s.Dragging ∧ ¬s.Releases := by
  have hrun : (Trace.run Desktop.step (.init 800 600)
      [.perform (.create (dwmWstyleChild ||| dwmWstyleResizeable)),
        .update ⟨[.left 245 145 true, .left 245 145 false], .quiet⟩]).map (fun r =>
          (r.2.leftButtonPressed, decide r.2.Dragging, decide (r.2.released ⟨0, 0⟩ false).Dragging,
            ((r.2.released ⟨0, 0⟩ false).applyMouseState .quiet).map fun q =>
              decide q.2.Dragging)) =
        some (false, true, true, some true) := by
    decide +kernel
  rw [Option.map_eq_some_iff] at hrun
  obtain ⟨⟨clicks, s⟩, hrun, hanswers⟩ := hrun
  simp only [Prod.mk.injEq, decide_eq_true_eq, Option.map_eq_some_iff] at hanswers
  obtain ⟨hleft, hdragging, hreleased, ⟨q, happly, hstill⟩⟩ := hanswers
  refine ⟨clicks, s, hrun, hleft, hdragging, fun hreleases => ?_⟩
  obtain ⟨clicks', s', happly', hover⟩ := hreleases ⟨0, 0⟩ false .quiet hreleased
  rw [happly] at happly'
  cases happly'
  exact hover hstill

end AvrKernel.Dwm

import AvrKernel.Dwm.Forest

/-!
# Frames and the family of windows

The handlers of `dwm_update` move and raise windows and start interactions with windows
that are there. What such changes and the operations on the desktop keep, every frame keeps.
-/

namespace AvrKernel.Dwm

/-- Menu actions and rename commits do only what `allowed` says. -/
def Surroundings.Within (allowed : DesktopOp → Prop) (around : Surroundings) : Prop :=
  (∀ op ∈ around.menuAction, allowed op) ∧ ∀ op ∈ around.renameCommit, allowed op

def FrameInput.Within (allowed : DesktopOp → Prop) (frame : FrameInput) : Prop :=
  (∀ input ∈ frame.events, input.around.Within allowed ∧ input.before.Within allowed) ∧
    frame.around.Within allowed

/-- There is memory to put a child in the list of its parent. -/
def DesktopOp.Granted : DesktopOp → Prop
  | setParent _ _ node => node = true
  | _ => True

theorem DesktopOp.Granted.granted {op : DesktopOp} (h : op.Granted) (s : Desktop) :
    s.Granted op := by
  cases op with
  | setParent child parent node => exact fun _ _ _ _ => h
  | _ => trivial

def DwmOp.Granted : DwmOp → Prop
  | perform op => op.Granted
  | update frame => frame.Within DesktopOp.Granted

namespace Desktop

variable {s s' s'' : Desktop} {orphans : List Address} {a b c p : Address} {w w' : WindowObject}

/-! ## Changes that keep the family -/

/-- The windows are the same to their relatives, in any order, and a pointer that is new leads to
one of them. -/
structure Follows (s s' : Desktop) : Prop where
  kin : s'.kin.Perm s.kin
  dragged : ∀ a, s'.dragdrop.draggedWindow = some a → s.dragdrop.draggedWindow = some a ∨ s.Live a
  resizing : ∀ a, s'.dragdrop.draggedResizing = some a →
    s.dragdrop.draggedResizing = some a ∨ s.Live a
  menu : s'.menuDirective = dwmContextMenuUser → ∀ a, s'.menuHandle = some a →
    s.menuDirective = dwmContextMenuUser ∧ s.menuHandle = some a ∨ s.Live a

namespace Follows

theorem live (h : Follows s s') : s'.Live a ↔ s.Live a := (h.kin.map Kin.address).mem_iff

theorem of_kin (hkin : s'.kin.Perm s.kin) (hpointers : s'.pointers = s.pointers) :
    Follows s s' := by
  simp only [pointers, Prod.mk.injEq] at hpointers
  obtain ⟨⟨hdragged, hresizing⟩, hdirective, hhandle⟩ := hpointers
  refine ⟨hkin, fun a ha => .inl (hdragged ▸ ha),
    fun a ha => .inl (hresizing ▸ ha), fun h a ha => ?_⟩
  exact .inl ⟨hdirective ▸ h, hhandle ▸ ha⟩

theorem refl (s : Desktop) : Follows s s := .of_kin (.refl _) rfl

theorem trans (h : Follows s s') (h' : Follows s' s'') : Follows s s'' where
  kin := h'.kin.trans h.kin
  dragged a ha := by
    rcases h'.dragged a ha with hsame | hlive
    · exact h.dragged a hsame
    · exact .inr (h.live.mp hlive)
  resizing a ha := by
    rcases h'.resizing a ha with hsame | hlive
    · exact h.resizing a hsame
    · exact .inr (h.live.mp hlive)
  menu hdirective a ha := by
    rcases h'.menu hdirective a ha with ⟨hsame, hhandle⟩ | hlive
    · exact h.menu hsame a hhandle
    · exact .inr (h.live.mp hlive)

/-- No pointer to a window is new. -/
theorem of_windows (hwindows : s'.windows = s.windows)
    (hdragged : ∀ a, s'.dragdrop.draggedWindow = some a → s.dragdrop.draggedWindow = some a)
    (hresizing : ∀ a, s'.dragdrop.draggedResizing = some a → s.dragdrop.draggedResizing = some a)
    (hmenu : s'.menuDirective = dwmContextMenuUser →
      s.menuDirective = dwmContextMenuUser ∧ s'.menuHandle = s.menuHandle) : Follows s s' where
  kin := by rw [Desktop.kin, Desktop.kin, hwindows]
  dragged a ha := .inl (hdragged a ha)
  resizing a ha := .inl (hresizing a ha)
  menu hdirective a ha := by
    obtain ⟨hsame, hhandle⟩ := hmenu hdirective
    exact .inl ⟨hsame, hhandle ▸ ha⟩

end Follows

/-! ## Operations on the desktop -/

theorem follows_setFocus (w : WindowObject) : Follows s (s.setFocus w) := .of_kin (kin_raise w) rfl

theorem follows_modifyWindow {f : WindowObject → WindowObject} (hf : ∀ w, (f w).kin = w.kin) :
    Follows s (s.modifyWindow a f) :=
  .of_kin (.of_eq (kin_modifyWindow_same hf)) rfl

/-- The menus of the desktop and of icons are no window's. -/
theorem follows_createContextMenu {directive : UInt16} (hdirective : directive ≠ dwmContextMenuUser)
    (x y itemCount : Int) : Follows s (s.createContextMenu x y directive itemCount) := by
  rw [createContextMenu]
  split
  · exact .refl s
  · refine .of_windows rfl ?_ ?_ ?_
    · exact fun _ h => h
    · exact fun _ h => h
    · exact fun h => absurd h hdirective

theorem follows_summonContextMenu (handle : WindowHandle) (x y numberOfItems : UInt16) :
    Follows s (s.summonContextMenu handle x y numberOfItems) := by
  have hwindows := windows_summonContextMenu (s := s) handle x y numberOfItems
  rw [summonContextMenu] at hwindows ⊢
  split
  · exact .refl s
  next w hw =>
    dsimp only
    split
    · exact .refl s
    · rw [createContextMenu]
      have hlive := live_of_mem (getWindowById_some hw).1
      split
      · refine ⟨.refl _, fun _ h => .inl h, fun _ h => .inl h, ?_⟩
        rintro - _ ⟨⟩
        exact .inr hlive
      · refine ⟨.refl _, fun _ h => .inl h, fun _ h => .inl h, ?_⟩
        rintro - _ ⟨⟩
        exact .inr hlive

theorem follows_aside {op : DesktopOp} (hop : op.Aside) (h : s.perform op = some s') :
    Follows s s' := by
  have hwindows := windows_perform hop h
  cases op with
  | createWindow | destroyWindow | setParent | setFocus => exact hop.elim
  | createIcon x y width height address =>
      cases address with
      | none =>
          cases h
          exact .refl s
      | some address =>
          rw [perform, createIcon] at h
          split at h
          · cases h
          · cases h
            exact .of_kin (.refl _) rfl
  | destroyIcon icon =>
      cases h
      rw [destroyIcon]
      split
      · exact .refl s
      · exact .of_kin (.refl _) rfl
  | summonContextMenu handle x y numberOfItems =>
      cases h
      exact follows_summonContextMenu handle x y numberOfItems
  | moveIcon | setIconBounds | renameBegin | renameText | renameEnd =>
      cases h
      exact .of_kin (.refl _) rfl

/-! ## The handlers of interactions -/

theorem follows_syncChildPositions {fuel : Nat} {parent : Address}
    (h : s.syncChildPositions fuel parent = some s') : Follows s s' := by
  induction fuel generalizing s s' parent with
  | zero => cases h
  | succ fuel ih =>
      rw [syncChildPositions, Option.bind_eq_bind, Option.bind_eq_some_iff] at h
      obtain ⟨p, -, h⟩ := h
      generalize p.children = children at h
      induction children generalizing s with
      | nil =>
          cases h
          exact .refl s'
      | cons c children ihc =>
          simp only [List.foldlM_cons, Option.bind_eq_bind, Option.bind_eq_some_iff] at h
          obtain ⟨s₁, ⟨_, -, _, -, hchild⟩, hrest⟩ := h
          refine Follows.trans ?_ ((ih hchild).trans (ihc hrest))
          exact follows_modifyWindow fun _ => rfl

theorem follows_updateIconDragging (h : s.updateIconDragging = some s') : Follows s s' := by
  rw [updateIconDragging] at h
  split at h
  · cases h
    exact .refl s
  · split at h
    · dsimp only at h
      split at h
      · cases h
        exact .refl s
      · obtain ⟨i, -, rfl⟩ := Option.map_eq_some_iff.mp h
        exact .of_kin (.refl _) rfl
    · cases h
      exact .of_kin (.refl _) rfl

theorem follows_updateWindowDragging (h : s.updateWindowDragging = some s') : Follows s s' := by
  rw [updateWindowDragging] at h
  split at h
  · cases h
    exact .refl s
  · split at h
    · rw [Option.bind_eq_some_iff] at h
      obtain ⟨w, -, h⟩ := h
      dsimp only at h
      split at h
      · cases h
        exact .refl s
      · rw [moveWindow, Option.bind_eq_bind, Option.bind_eq_some_iff] at h
        obtain ⟨_, -, hsync⟩ := h
        refine Follows.trans ?_ (follows_syncChildPositions hsync)
        exact follows_modifyWindow fun _ => rfl
    · cases h
      exact .of_windows rfl (by rintro _ ⟨⟩) (fun _ h => h) fun h => ⟨h, rfl⟩

theorem resizeWindowBuffer_kin {newW newH : Int} {memory : Bool}
    (h : resizeWindowBuffer w newW newH memory = some w') : w'.kin = w.kin := by
  rw [resizeWindowBuffer] at h
  split at h
  · split at h <;> cases h
    rfl
  · cases h
    rfl

/-- Putting a window in its own place is no matter of kin. -/
theorem kin_replaceWindow (hs : Linked orphans s) (hw : s.window a = some w)
    (hkin : w'.kin = w.kin) :
    (s.modifyWindow a fun _ => w').kin = s.kin := by
  obtain ⟨hmem, rfl⟩ := window_some hw
  simp only [kin, modifyWindow, List.map_map]
  refine List.map_congr_left fun v hv => ?_
  rw [Function.comp_apply]
  split
  next heq =>
    have hsame := hs.window_eq hv
    rw [heq, hw] at hsame
    rw [hkin, Option.some_inj.mp hsame]
  · rfl

theorem follows_updateWindowResizing {around : Surroundings} (hs : Linked orphans s)
    (h : s.updateWindowResizing around = some s') : Follows s s' := by
  rw [updateWindowResizing] at h
  split at h
  · cases h
    exact .refl s
  · rw [Option.bind_eq_some_iff] at h
    obtain ⟨w, hw, h⟩ := h
    split at h
    · cases h
      exact .refl s
    · dsimp only at h
      split at h
      · split at h
        · cases h
          exact .refl s
        · simp only [resizeWindow, Option.bind_eq_bind, Option.bind_eq_some_iff] at h
          obtain ⟨v, hresized, s₁, hsync, h⟩ := h
          cases h
          have hreplaced : Follows s (s.modifyWindow _ fun _ => v) :=
            .of_kin (.of_eq (kin_replaceWindow hs hw (resizeWindowBuffer_kin hresized))) rfl
          refine (hreplaced.trans (follows_syncChildPositions hsync)).trans ?_
          exact follows_modifyWindow fun _ => rfl
      · cases h
        exact .of_windows rfl (fun _ h => h) (by rintro _ ⟨⟩) fun h => ⟨h, rfl⟩

theorem follows_updateWindowCapture : Follows s s.updateWindowCapture := by
  rw [updateWindowCapture]
  split
  · exact .refl s
  · split
    · exact .of_kin (.refl _) rfl
    · exact .refl s

/-! ## Clicks -/

theorem follows_clickWindow {position : Point} {clicks : Clicks} (hw : s.Live w.address) :
    Follows s (s.clickWindow w position clicks) := by
  rw [clickWindow]
  split
  · split
    · refine ⟨.refl _, fun _ h => .inl h, ?_, fun hdirective a ha => .inl ⟨hdirective, ha⟩⟩
      rintro _ ⟨⟩
      exact .inr hw
    · exact .refl s
  · split
    · refine ⟨.refl _, fun a ha => ?_, fun _ h => .inl h,
        fun hdirective a ha => .inl ⟨hdirective, ha⟩⟩
      dsimp only at ha
      split at ha
      · cases ha
        exact .inr hw
      · exact .inl ha
    · split
      · exact .of_kin (.refl _) rfl
      · exact .refl s

theorem follows_focusRoot (root : WindowObject) : Follows s (s.focusRoot root) := by
  rw [focusRoot]
  split
  · exact .refl s
  · exact follows_setFocus root

theorem follows_handleWindowClicks {clicks : Clicks} {taken : Bool}
    (h : s.handleWindowClicks clicks = some (taken, s')) : Follows s s' := by
  rw [handleWindowClicks, Option.bind_eq_bind, Option.bind_eq_some_iff] at h
  obtain ⟨clicked, hclicked, h⟩ := h
  cases clicked with
  | none =>
      cases h
      exact .refl s
  | some w =>
      simp only [Option.bind_eq_bind, Option.bind_eq_some_iff] at h
      obtain ⟨root, -, position, -, h⟩ := h
      cases h
      obtain ⟨a, ha⟩ := findClickedWindow_some hclicked
      have hfocus : Follows s (s.focusRoot root) := follows_focusRoot root
      refine hfocus.trans (follows_clickWindow (hfocus.live.mpr ?_))
      exact live_of_mem (window_some ha).1

theorem follows_handleIconClicks {clicks : Clicks} {around : Surroundings} :
    Follows s (s.handleIconClicks clicks around) := by
  have hmenus : dwmContextMenuDesktop ≠ dwmContextMenuUser ∧
      dwmContextMenuIcon ≠ dwmContextMenuUser := by decide
  rw [handleIconClicks]
  split
  · split
    · exact .of_kin (.refl _) rfl
    · split
      · exact follows_createContextMenu hmenus.1 ..
      · exact .refl s
  next i _ =>
    have hfocused : Follows s { s with focusedIcon := some i.address } := .of_kin (.refl _) rfl
    dsimp only
    split
    · rw [clickIcon]
      split
      · exact .of_kin (.refl _) rfl
      · exact .of_kin (.refl _) rfl
    · split
      · exact hfocused.trans (follows_createContextMenu hmenus.2 ..)
      · exact hfocused

/-! ## What every frame keeps -/

/-- A fact that changes which keep the family and allowed operations keep. -/
structure Kept (allowed : DesktopOp → Prop) (I : Desktop → Prop) : Prop where
  linked : ∀ s, I s → Linked [] s
  follows : ∀ s s', Follows s s' → I s → I s'
  perform : ∀ s op s', allowed op → I s → s.perform op = some s' → I s'

variable {allowed : DesktopOp → Prop} {I : Desktop → Prop}

namespace Kept

theorem performAll {ops : List DesktopOp} (hI : Kept allowed I) (hs : I s)
    (hok : ∀ op ∈ ops, allowed op) (h : s.performAll ops = some s') : I s' := by
  induction ops generalizing s with
  | nil =>
      cases h
      exact hs
  | cons op ops ih =>
      rw [Desktop.performAll, List.foldlM_cons, Option.bind_eq_bind, Option.bind_eq_some_iff] at h
      obtain ⟨s₁, hop, hrest⟩ := h
      have hs₁ := hI.perform s op s₁ (hok op List.mem_cons_self) hs hop
      exact ih hs₁ (fun op hop => hok op (List.mem_cons_of_mem _ hop)) hrest

theorem clickMenu {menu : ContextMenu} {clicks : Clicks} {around : Surroundings}
    (hI : Kept allowed I) (hs : I s) (hok : around.Within allowed)
    (h : s.clickMenu menu clicks around = some s') : I s' := by
  rw [Desktop.clickMenu] at h
  split at h
  · split at h
    · cases h
    · split at h
      · rw [processContextMenuEvents] at h
        split at h
        · split at h
          · cases h
            exact hs
          · obtain ⟨-, -, rfl⟩ := Option.map_eq_some_iff.mp h
            exact hs
        · split at h
          · exact hI.performAll hs hok.1 h
          · cases h
            exact hs
      · cases h
        exact hs
  · cases h
    exact hs

theorem handleContextMenuClicks {clicks : Clicks} {around : Surroundings} {taken : Bool}
    (hI : Kept allowed I) (hs : I s) (hok : around.Within allowed)
    (h : s.handleContextMenuClicks clicks around = some (taken, s')) : I s' := by
  have hclosed : ∀ s, Follows s { s with menus := [] } := fun s => .of_kin (.refl _) rfl
  rw [Desktop.handleContextMenuClicks] at h
  split at h
  · cases h
    exact hI.follows s _ (hclosed s) hs
  · obtain ⟨s₁, hclick, h⟩ := Option.map_eq_some_iff.mp h
    cases h
    exact hI.follows s₁ _ (hclosed s₁) (hI.clickMenu hs hok hclick)

theorem renameHandleClick {around : Surroundings} {taken : Bool} (hI : Kept allowed I) (hs : I s)
    (hok : around.Within allowed) (h : s.renameHandleClick around = some (taken, s')) : I s' := by
  rw [Desktop.renameHandleClick] at h
  split at h
  · cases h
    exact hs
  · rw [Option.bind_eq_some_iff] at h
    obtain ⟨i, -, h⟩ := h
    split at h
    · cases h
      exact hs
    · obtain ⟨s₁, hcommit, h⟩ := Option.map_eq_some_iff.mp h
      cases h
      have hover : Follows s { s with rename := none } := .of_kin (.refl _) rfl
      exact hI.performAll (hI.follows s _ hover hs) hok.2 hcommit

theorem updateMouse {around : Surroundings} {clicks : Clicks} (hI : Kept allowed I) (hs : I s)
    (hok : around.Within allowed) (h : s.updateMouse around = some (clicks, s')) : I s' := by
  rw [Desktop.updateMouse] at h
  dsimp only at h
  split at h
  · cases h
    exact hs
  · rw [Option.bind_eq_bind, Option.bind_eq_some_iff] at h
    obtain ⟨⟨taken, s₁⟩, hmenu, h⟩ := h
    have hs₁ := hI.handleContextMenuClicks hs hok hmenu
    dsimp only at h
    split at h
    · cases h
      exact hs₁
    · rw [Option.bind_eq_some_iff] at h
      obtain ⟨⟨taken₂, s₂⟩, hrename, h⟩ := h
      have hs₂ := hI.renameHandleClick hs₁ hok hrename
      dsimp only at h
      split at h
      · cases h
        exact hs₂
      · rw [Option.bind_eq_some_iff] at h
        obtain ⟨⟨taken₃, s₃⟩, hwindows, h⟩ := h
        have hs₃ := hI.follows s₂ s₃ (follows_handleWindowClicks hwindows) hs₂
        dsimp only at h
        split at h
        · cases h
          exact hs₃
        · cases h
          have hfocused : Follows s₃ { s₃ with desktopFocused := true } := .of_kin (.refl _) rfl
          exact hI.follows s₃ _ (hfocused.trans follows_handleIconClicks) hs₃

theorem applyMouseState {around : Surroundings} {clicks : Clicks} (hI : Kept allowed I) (hs : I s)
    (hok : around.Within allowed) (h : s.applyMouseState around = some (clicks, s')) : I s' := by
  rw [Desktop.applyMouseState] at h
  split at h
  · obtain ⟨s₁, hdragged, h⟩ := Option.map_eq_some_iff.mp h
    cases h
    exact hI.follows s s' (follows_updateWindowDragging hdragged) hs
  · split at h
    · obtain ⟨s₁, hresized, h⟩ := Option.map_eq_some_iff.mp h
      cases h
      exact hI.follows s s' (follows_updateWindowResizing (hI.linked s hs) hresized) hs
    · split at h
      · obtain ⟨s₁, hdragged, h⟩ := Option.map_eq_some_iff.mp h
        cases h
        exact hI.follows s s' (follows_updateIconDragging hdragged) hs
      · split at h
        · cases h
          exact hI.follows s _ follows_updateWindowCapture hs
        · exact hI.updateMouse hs hok h

theorem event {f g : Frame} {input : MouseInput} {clicks : Clicks × Clicks} (hI : Kept allowed I)
    (hf : I f.desktop) (hok : input.around.Within allowed ∧ input.before.Within allowed)
    (h : f.event input = some (clicks, g)) : I g.desktop := by
  simp only [Frame.event, Option.bind_eq_bind, Option.bind_eq_some_iff] at h
  obtain ⟨⟨flushed, g₁⟩, hflush, ⟨own, g₂⟩, htake, h⟩ := h
  cases h
  have hg₁ : I g₁.desktop := by
    rw [Frame.flush] at hflush
    split at hflush
    · obtain ⟨⟨clicks, s⟩, happly, h⟩ := Option.map_eq_some_iff.mp hflush
      cases h
      exact hI.applyMouseState hf hok.2 happly
    · cases hflush
      exact hf
  have hsnapshot : I (g₁.desktop.snapshot input) :=
    hI.follows g₁.desktop _ (.of_kin (.refl _) rfl) hg₁
  rw [Frame.take] at htake
  dsimp only at htake
  split at htake
  · cases htake
    exact hsnapshot
  · obtain ⟨⟨clicks, s⟩, happly, h⟩ := Option.map_eq_some_iff.mp htake
    cases h
    exact hI.applyMouseState hsnapshot hok.1 happly

theorem events {f g : Frame} {inputs : List MouseInput} {clicks : List (Clicks × Clicks)}
    (hI : Kept allowed I) (hf : I f.desktop)
    (hok : ∀ input ∈ inputs, input.around.Within allowed ∧ input.before.Within allowed)
    (h : Trace.run Frame.event f inputs = some (clicks, g)) : I g.desktop := by
  induction inputs generalizing f clicks with
  | nil =>
      cases h
      exact hf
  | cons input inputs ih =>
      obtain ⟨answer, f₁, answers, hevent, hrest, -⟩ := Trace.run_cons.mp h
      refine ih (hI.event hf (hok input List.mem_cons_self) hevent) ?_ hrest
      exact fun i hi => hok i (List.mem_cons_of_mem input hi)

theorem update {frame : FrameInput} {clicks : List (Clicks × Clicks)} (hI : Kept allowed I)
    (hs : I s) (hok : frame.Within allowed) (h : s.update frame = some (clicks, s')) : I s' := by
  simp only [Desktop.update, Option.bind_eq_bind, Option.bind_eq_some_iff] at h
  obtain ⟨⟨clicks, f⟩, hevents, ⟨last, s₁⟩, hfinish, h⟩ := h
  cases h
  have hf : I f.desktop := hI.events (f := ⟨s, false⟩) hs hok.1 hevents
  rw [Frame.finish] at hfinish
  obtain ⟨⟨clicks, s₂⟩, hpending, h⟩ := Option.map_eq_some_iff.mp hfinish
  cases h
  refine hI.follows s₂ _ (.of_kin (.refl _) rfl) ?_
  rw [Frame.pending] at hpending
  split at hpending
  · exact hI.applyMouseState hf hok.2 hpending
  · cases hpending
    exact hf

end Kept

theorem kept_linked : Kept DesktopOp.Granted (Linked []) where
  linked _ hs := hs
  follows _ _ hfollows hs := Kin.Linked.perm hs hfollows.kin
  perform s _ _ hmemory hs hop := (linked_perform hs (hmemory.granted s) hop).1

theorem linked_step {op : DwmOp} {clicks : List (Clicks × Clicks)} (hmemory : op.Granted)
    (hs : Linked [] s) (h : s.step op = some (clicks, s')) : Linked [] s' := by
  cases op with
  | perform op =>
      obtain ⟨s₁, hop, h⟩ := Option.map_eq_some_iff.mp h
      cases h
      exact (linked_perform hs (hmemory.granted s) hop).1
  | update frame => exact kept_linked.update hs hmemory h

end Desktop

end AvrKernel.Dwm

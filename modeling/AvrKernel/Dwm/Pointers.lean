import AvrKernel.Dwm.Steps

/-!
# Pointers to windows

The window that is dragged, the one that is resized, the one that summoned the context
menu, and the relatives of windows. `dwm_destroy_window` clears all of them but the one of
the context menu, and what children that are in no list have of their parent.
-/

namespace AvrKernel.Dwm

open Relation

/-- The operation destroys no window, and leaves no child out of the list of its parent. -/
def DesktopOp.Sparing : DesktopOp → Prop
  | destroyWindow _ => False
  | setParent _ _ node => node = true
  | _ => True

/-- No menu action and no rename commit of the frame destroys a window or gives it a parent, as none
in the kernel does. -/
def DwmOp.Sparing : DwmOp → Prop
  | perform _ => True
  | update frame => frame.Within DesktopOp.Sparing

namespace Desktop

variable {s s' s'' : Desktop} {orphans : List Address} {a b c p : Address} {w w' : WindowObject}

/-- The code may follow a pointer to the window. -/
def PointsTo (s : Desktop) (a : Address) : Prop :=
  s.dragdrop.draggedWindow = some a ∨ s.dragdrop.draggedResizing = some a ∨
    s.menuDirective = dwmContextMenuUser ∧ s.menuHandle = some a ∨
      ∃ w ∈ s.windows, w.address = a ∨ w.parent = some a ∨ a ∈ w.children

/-- No pointer leads to a window that is gone. -/
def NoneDangles (s : Desktop) : Prop := ∀ a, s.PointsTo a → s.Live a

/-- No window is destroyed whose context menu is open, nor one above it, and there is memory to put
a child in the list of its parent. -/
def Spares (s : Desktop) : DwmOp → Prop
  | .perform (.destroyWindow handle) => s.menuDirective = dwmContextMenuUser →
      ∀ w a, s.getWindowById handle = some w → s.menuHandle = some a → ¬s.Below w.address a
  | .perform (.setParent child parent node) => s.Granted (.setParent child parent node)
  | _ => True

theorem Spares.granted {op : DesktopOp} (h : s.Spares (.perform op)) : s.Granted op := by
  cases op with
  | setParent => exact h
  | _ => trivial

/-- Parents and children agree, and the other pointers lead to windows. -/
structure Pointing (s : Desktop) : Prop where
  linked : Linked [] s
  dragged : ∀ a, s.dragdrop.draggedWindow = some a → s.Live a
  resizing : ∀ a, s.dragdrop.draggedResizing = some a → s.Live a
  menu : s.menuDirective = dwmContextMenuUser → ∀ a, s.menuHandle = some a → s.Live a

theorem Pointing.noneDangles (h : s.Pointing) : s.NoneDangles := by
  rintro a (hdragged | hresizing | ⟨hdirective, hhandle⟩ | ⟨w, hw, rfl | hparent | hchild⟩)
  · exact h.dragged a hdragged
  · exact h.resizing a hresizing
  · exact h.menu hdirective a hhandle
  · exact live_of_mem hw
  · exact Kin.Linked.parent_mem h.linked ((h.linked.up_iff hw).mpr hparent) List.not_mem_nil
  · exact Kin.Linked.child_mem h.linked ((h.linked.down_iff hw).mpr hchild)

theorem Follows.pointing (h : Follows s s') (hs : s.Pointing) : s'.Pointing where
  linked := Kin.Linked.perm hs.linked h.kin
  dragged a ha := by
    rw [h.live]
    rcases h.dragged a ha with hsame | hlive
    · exact hs.dragged a hsame
    · exact hlive
  resizing a ha := by
    rw [h.live]
    rcases h.resizing a ha with hsame | hlive
    · exact hs.resizing a hsame
    · exact hlive
  menu hdirective a ha := by
    rw [h.live]
    rcases h.menu hdirective a ha with ⟨hsame, hhandle⟩ | hlive
    · exact hs.menu hsame a hhandle
    · exact hlive

/-! ## Every step -/

theorem live_windowSetParent (child parent : WindowHandle) (node : Bool) :
    (s.windowSetParent child parent node).Live a ↔ s.Live a := by
  have hremove : ∀ c, (s.removeChild c).Live a ↔ s.Live a := by
    intro c
    rw [removeChild]
    split
    · rfl
    · exact live_modifyWindow fun _ => rfl
  have happend : ∀ (s : Desktop) (p c : Address), (s.appendChild p c node).Live a ↔ s.Live a := by
    intro s p c
    rw [appendChild]
    split
    · exact live_modifyWindow fun _ => rfl
    · rfl
  rw [windowSetParent]
  split
  · refine (live_modifyWindow ?_).trans ((happend ..).trans (hremove _))
    exact fun _ => rfl
  · rfl

theorem pointers_windowSetParent (child parent : WindowHandle) (node : Bool) :
    (s.windowSetParent child parent node).pointers = s.pointers := by
  have hremove : ∀ c, (s.removeChild c).pointers = s.pointers := by
    intro c
    rw [removeChild]
    split <;> rfl
  have happend : ∀ (s : Desktop) (p c : Address),
    (s.appendChild p c node).pointers = s.pointers := by
    intro s p c
    rw [appendChild]
    split <;> rfl
  rw [windowSetParent]
  split
  · exact (happend ..).trans (hremove _)
  · rfl

/-- Windows come, and the other pointers stay. -/
theorem Pointing.of_live (hs : s.Pointing) (hlinked : Linked [] s')
    (hlive : ∀ a, s.Live a → s'.Live a)
    (hpointers : s'.pointers = s.pointers) : s'.Pointing := by
  simp only [pointers, Prod.mk.injEq] at hpointers
  obtain ⟨⟨hdragged, hresizing⟩, hdirective, hhandle⟩ := hpointers
  refine ⟨hlinked, fun a ha => hlive a (hs.dragged a (hdragged ▸ ha)),
    fun a ha => hlive a (hs.resizing a (hresizing ▸ ha)), fun h a ha => ?_⟩
  exact hlive a (hs.menu (hdirective ▸ h) a (hhandle ▸ ha))

theorem live_allocateWindow {wclass : WindowClass} {style : UInt16} {memory : WindowMemory}
    (h : s.allocateWindow wclass style memory = some s') (ha : s.Live a) : s'.Live a := by
  rcases (kin_allocateWindow h).2 with hsame | ⟨address, id, hkin, -⟩
  · rwa [Live, hsame]
  · rw [Live, hkin, List.map_append]
    exact List.mem_append_left _ ha

/-- A destroyed window leaves no drag behind, and a menu only if the menu is its own. -/
theorem pointing_perform {op : DesktopOp} (hs : s.Pointing) (hok : s.Spares (.perform op))
    (h : s.perform op = some s') : s'.Pointing := by
  have hlinked := (linked_perform hs.linked hok.granted h).1
  cases op with
  | createWindow wclass style memory =>
      exact hs.of_live hlinked (fun a ha => live_allocateWindow h ha) (kin_allocateWindow h).1
  | destroyWindow handle =>
      rcases destroyWindow_spec hs.linked h with ⟨-, rfl⟩ | ⟨w, hw, hdestroys⟩
      · exact hs
      · refine ⟨hlinked, fun a ha => ?_, fun a ha => ?_, fun hdirective a ha => ?_⟩
        · obtain ⟨hdragged, hleft⟩ := hdestroys.prunes.dragged a ha
          exact hleft (hs.dragged a hdragged)
        · obtain ⟨hresizing, hleft⟩ := hdestroys.prunes.resizing a ha
          exact hleft (hs.resizing a hresizing)
        · rw [hdestroys.prunes.menu.1] at hdirective
          rw [hdestroys.prunes.menu.2] at ha
          exact hdestroys.survive a (hs.menu hdirective a ha) (hok hdirective w a hw ha)
  | setParent child parent node =>
      cases h
      refine hs.of_live hlinked (fun a ha => ?_) (pointers_windowSetParent child parent node)
      exact (live_windowSetParent child parent node).mpr ha
  | setFocus handle =>
      rw [perform, windowSetFocus] at h
      split at h
      · cases h
        exact hs
      · split at h
        · cases h
          exact (follows_setFocus _).pointing hs
        · obtain ⟨w, -, rfl⟩ := Option.map_eq_some_iff.mp h
          exact (follows_setFocus w).pointing hs
  | createIcon | destroyIcon | moveIcon | setIconBounds | summonContextMenu
      | renameBegin | renameText
  | renameEnd =>
      exact (follows_aside (by exact trivial) h).pointing hs

theorem kept_pointing : Kept DesktopOp.Sparing Pointing where
  linked _ hs := hs.linked
  follows _ _ hfollows hs := hfollows.pointing hs
  perform s op s' hok hs hop := by
    refine pointing_perform hs ?_ hop
    cases op with
    | destroyWindow => exact hok.elim
    | setParent => exact fun _ _ _ _ => hok
    | _ => exact trivial

theorem pointing_step {op : DwmOp} {clicks : List (Clicks × Clicks)} (hsparing : op.Sparing)
    (hs : s.Pointing) (hok : s.Spares op) (h : s.step op = some (clicks, s')) : s'.Pointing := by
  cases op with
  | perform op =>
      obtain ⟨s₁, hop, h⟩ := Option.map_eq_some_iff.mp h
      cases h
      exact pointing_perform hs hok hop
  | update frame => exact kept_pointing.update hs hsparing h

theorem pointing_init (displayWidth displayHeight : Int) :
    (init displayWidth displayHeight).Pointing :=
  ⟨(linked_init ..).1, nofun, nofun, nofun⟩

theorem pointing_run {ops : List DwmOp} {clicks : List (List (Clicks × Clicks))} (hs : s.Pointing)
    (hsparing : ∀ op ∈ ops, op.Sparing) (hok : Trace.Permitted step Spares s ops)
    (h : Trace.run step s ops = some (clicks, s')) : s'.Pointing := by
  induction ops generalizing s clicks with
  | nil =>
      cases h
      exact hs
  | cons op ops ih =>
      obtain ⟨answer, s₁, answers, hstep, hrest, -⟩ := Trace.run_cons.mp h
      have hs₁ := pointing_step (hsparing op List.mem_cons_self) hs hok.1 hstep
      exact ih hs₁ (fun o ho => hsparing o (List.mem_cons_of_mem op ho))
        (hok.2 answer s₁ hstep) hrest

end Desktop

/-- As long as no window is destroyed whose context menu is open, nor one above it, and children
are put in the lists of their parents, no pointer to a window dangles. What is destroyed is
pointed to no more, but for the menu. -/
theorem pointers_live {displayWidth displayHeight : Int} {ops : List DwmOp}
    {clicks : List (List (Clicks × Clicks))} {s : Desktop} (hsparing : ∀ op ∈ ops, op.Sparing)
    (hok : Trace.Permitted Desktop.step Desktop.Spares (.init displayWidth displayHeight) ops)
    (hrun : Trace.run Desktop.step (.init displayWidth displayHeight) ops = some (clicks, s)) :
    s.NoneDangles ∧ ∀ handle w s', s.getWindowById handle = some w →
      s.destroyWindow handle = some s' →
        (s.Spares (.perform (.destroyWindow handle)) ↔
          ∀ a, s.Below w.address a → ¬s'.PointsTo a) := by
  have hs := Desktop.pointing_run (Desktop.pointing_init ..) hsparing hok hrun
  refine ⟨hs.noneDangles, fun handle w s' hw hdestroy => ⟨fun hspares a hbelow hpoints => ?_, ?_⟩⟩
  · have hs' := Desktop.pointing_perform hs hspares hdestroy
    rcases Desktop.destroyWindow_spec hs.linked hdestroy with ⟨hnone, -⟩ | ⟨v, hv, hdestroys⟩
    · rw [hw] at hnone
      cases hnone
    · rw [hw] at hv
      cases hv
      exact hdestroys.dead_below hs.linked hbelow (hs'.noneDangles a hpoints)
  · -- the menu is left as it is
    intro hnone hdirective v a hv ha hbelow
    rw [hw] at hv
    cases hv
    have hprunes : Desktop.Prunes s s' := by
      rcases Desktop.destroyWindow_spec hs.linked hdestroy with ⟨-, rfl⟩ | ⟨v, -, hdestroys⟩
      · exact .refl s'
      · exact hdestroys.prunes
    refine hnone a hbelow (.inr (.inr (.inl ⟨?_, ?_⟩)))
    · exact hprunes.menu.1.trans hdirective
    · exact hprunes.menu.2.trans ha

/-- A child window is destroyed while it is dragged and the context menu of its parent is open, and
then its parent is dragged. -/
def dragOps : List DwmOp :=
  [.perform (.create 0), .perform (.createWindow ⟨10, 10, 40, 60, 0, 0⟩ 0
      ⟨some 0x2000, true, true, true, true, true, none, none⟩),
    .perform (.setParent 2 1 true), .update ⟨[.left 65 85 true], .quiet⟩,
    .perform (.summonContextMenu 1 10 10 2), .perform (.destroyWindow 2),
    .update ⟨[.left 65 85 false], .quiet⟩, .update ⟨[.left 200 55 true], .quiet⟩]

theorem dragOps_permitted :
    Trace.Permitted Desktop.step Desktop.Spares (.init 800 600) dragOps := by
  refine ⟨trivial, fun _ s₁ h₁ => ⟨trivial, fun _ s₂ h₂ => ⟨fun _ _ _ _ => rfl, fun _ s₃ h₃ =>
    ⟨trivial, fun _ s₄ h₄ => ⟨trivial, fun _ s₅ h₅ => ⟨?_, fun _ _ _ => ⟨trivial, fun _ _ _ =>
      ⟨trivial, fun _ _ _ => trivial⟩⟩⟩⟩⟩⟩⟩⟩
  have hfacts : (Trace.run Desktop.step (.init 800 600) (dragOps.take 5)).map (fun r =>
      ((r.2.getWindowById 2).map WindowObject.address, r.2.kin, r.2.menuHandle)) =
      some (some 0x2000, [⟨0x2000, 2, some 0x1000, []⟩, ⟨0x1000, 1, none, [0x2000]⟩],
        some 0x1000) := by
    decide +kernel
  obtain ⟨answers, hrun⟩ : ∃ answers, Trace.run Desktop.step (.init 800 600) (dragOps.take 5) =
      some (answers, s₅) :=
    ⟨_, Trace.run_cons.mpr ⟨_, _, _, h₁, Trace.run_cons.mpr ⟨_, _, _, h₂,
      Trace.run_cons.mpr ⟨_, _, _, h₃, Trace.run_cons.mpr ⟨_, _, _, h₄,
        Trace.run_cons.mpr ⟨_, _, _, h₅, Trace.run_nil s₅, rfl⟩, rfl⟩, rfl⟩, rfl⟩, rfl⟩⟩
  rw [hrun] at hfacts
  simp only [Option.map_some, Option.some.injEq, Prod.mk.injEq] at hfacts
  obtain ⟨hdying, hkin, hmenu⟩ := hfacts
  intro _ w a hw ha hbelow
  rw [hw] at hdying
  rw [hmenu] at ha
  cases ha
  rw [Option.some.inj hdying] at hbelow
  -- it has no children
  rcases hbelow.cases_head with hsame | ⟨c, ⟨k, hk, haddress, hchild⟩, -⟩
  · exact absurd hsame (by decide)
  · rw [hkin] at hk
    simp only [List.mem_cons, List.not_mem_nil, or_false] at hk
    rcases hk with rfl | rfl
    · cases hchild
    · exact absurd haddress (by decide)

theorem pointers_live_drag : ∃ clicks s,
    Trace.run Desktop.step (.init 800 600) dragOps = some (clicks, s) ∧
      s.dragdrop.draggedWindow = some 0x1000 ∧ s.NoneDangles := by
  have hrun : (Trace.run Desktop.step (.init 800 600) dragOps).map (fun r =>
      r.2.dragdrop.draggedWindow) = some (some 0x1000) := by
    decide +kernel
  obtain ⟨⟨clicks, s⟩, hrun, hdragged⟩ := Option.map_eq_some_iff.mp hrun
  refine ⟨clicks, s, hrun, hdragged, (pointers_live ?_ dragOps_permitted hrun).1⟩
  have hquiet : Surroundings.quiet.Within DesktopOp.Sparing :=
    ⟨fun _ => List.not_mem_nil.elim, fun _ => List.not_mem_nil.elim⟩
  have hinput : ∀ x y pressed, (MouseInput.left x y pressed).around.Within DesktopOp.Sparing ∧
      (MouseInput.left x y pressed).before.Within DesktopOp.Sparing := fun _ _ _ => ⟨hquiet, hquiet⟩
  simp only [dragOps, List.mem_cons, List.not_mem_nil, or_false, forall_eq_or_imp, forall_eq]
  have hframe : ∀ x y pressed,
    (FrameInput.mk [.left x y pressed] .quiet).Within DesktopOp.Sparing := by
    intro x y pressed
    refine ⟨fun input hmem => ?_, hquiet⟩
    rw [List.mem_singleton.mp hmem]
    exact hinput ..
  exact ⟨trivial, trivial, trivial, hframe .., trivial, trivial, hframe .., hframe ..⟩

/-- The context menu of a window that is destroyed leads nowhere. -/
theorem pointers_not_live : ∃ clicks s,
    Trace.run Desktop.step (.init 800 600)
        [.perform (.create 0), .perform (.summonContextMenu 1 10 10 2),
          .perform (.destroyWindow 1)] = some (clicks, s) ∧ ¬s.NoneDangles := by
  have hrun : (Trace.run Desktop.step (.init 800 600)
      [.perform (.create 0), .perform (.summonContextMenu 1 10 10 2),
        .perform (.destroyWindow 1)]).map
          (fun r => (r.2.menuDirective, r.2.menuHandle, r.2.windows)) =
        some (dwmContextMenuUser, some 0x1000, []) := by
    decide +kernel
  obtain ⟨⟨clicks, s⟩, hrun, hmenu⟩ := Option.map_eq_some_iff.mp hrun
  simp only [Prod.mk.injEq] at hmenu
  obtain ⟨hdirective, hhandle, hwindows⟩ := hmenu
  refine ⟨clicks, s, hrun, fun hdangles => ?_⟩
  have hlive := hdangles 0x1000 (.inr (.inr (.inl ⟨hdirective, hhandle⟩)))
  rw [Desktop.Live, Desktop.kin, hwindows] at hlive
  cases hlive

end AvrKernel.Dwm

import AvrKernel.Dwm.Desktop

/-!
# The mouse on the desktop

`dwm_drag_drop.c`, `dwm_mouse.c`, `dwm_update.c`: drags, resizing and capture, what a
click starts, and how `dwm_update` hands the events of a frame to them.
-/

namespace AvrKernel.Dwm

/-- What the code around the mouse handlers does while they run. -/
structure Surroundings where
  /-- `timer_get_ms` -/
  time : UInt64
  /-- The action of the item of the context menu that is clicked. -/
  menuAction : List DesktopOp
  /-- `dwm_desktop_rename_commit` beyond the rename box. -/
  renameCommit : List DesktopOp
  /-- There is memory for a larger frame buffer. -/
  bufferMemory : Bool
  /-- The width of the image of the close button. -/
  uiClose : Option UInt16

/-- What `dwm_update_mouse` takes for new clicks. -/
structure Clicks where
  left : Bool
  right : Bool
  deriving DecidableEq

def Clicks.none : Clicks := ⟨false, false⟩

namespace Desktop

variable (s : Desktop)

def inside (p : Point) (minX maxX minY maxY : Int) : Prop :=
  minX ≤ p.x ∧ p.x ≤ maxX ∧ minY ≤ p.y ∧ p.y ≤ maxY

instance {p : Point} {minX maxX minY maxY : Int} : Decidable (inside p minX maxX minY maxY) :=
  inferInstanceAs (Decidable (_ ∧ _))

/-! ## Interactions -/

/-- An icon goes with the mouse and does not leave the screen. -/
def moveIcon (a : Address) (i : IconObject) : Desktop :=
  let constrain (new bounds size display : Int) : Int :=
    let new := if new + bounds < 0 then -bounds else new
    if new + bounds + size > display then display - bounds - size else new
  let newX := constrain (s.mouse.x - s.dragdrop.iconDragOffsetX) i.boundsX.toInt i.boundsW.toInt
    s.displayWidth
  let newY := constrain (s.mouse.y - s.dragdrop.iconDragOffsetY) i.boundsY.toInt i.boundsH.toInt
    s.displayHeight
  s.modifyIcon a fun i => { i with x := .ofInt newX, y := .ofInt newY }

/-- `dwm_update_icon_dragging` -/
def updateIconDragging : Option Desktop :=
  match s.dragdrop.draggedIcon with
  | none => some s
  | some a =>
      if s.leftButtonPressed then
        let dx := s.mouse.x - s.dragdrop.dragStartX
        let dy := s.mouse.y - s.dragdrop.dragStartY
        if !s.dragdrop.isDragging && dx * dx + dy * dy < 16 then some s
        else
          let s := { s with dragdrop := { s.dragdrop with isDragging := true } }
          (s.icon a).map (s.moveIcon a)
      else some { s with dragdrop := { s.dragdrop with draggedIcon := none } }

/-- A window of the given width (height) does not leave the screen at the left (top) or the
right (bottom). -/
def constrain (new border size display : Int) : Int :=
  let new := if new - border < 0 then border else new
  if new + size + border > display then display - size - border else new

/-- A place on the screen, as seen from the parent of a window. -/
def localPosition (w : WindowObject) (newX newY : Int) : Option (UInt16 × UInt16) :=
  match w.parent with
  | none => some (0, 0)
  | some parent => (s.window parent).map fun p =>
      (UInt16.ofInt (newX - p.surfaceX.toNat), UInt16.ofInt (newY - p.surfaceY.toNat))

/-- A window gets a new place, with its children. -/
def moveWindow (a : Address) (w : WindowObject) (newX newY : Int) : Option Desktop := do
  let (localX, localY) ← s.localPosition w newX newY
  let titlebar : Int := w.titlebarHeight.toNat
  let s := s.modifyWindow a fun w => { w with
    x := .ofInt newX
    y := .ofInt newY
    localX, localY
    surfaceX := .ofInt newX
    surfaceY := .ofInt (newY + titlebar + if titlebar = 0 then 0 else 1)
    surfaceW := w.w
    surfaceH := w.h - w.titlebarHeight.toUInt16 }
  s.syncChildPositions (s.windows.length + 1) a

/-- `dwm_update_window_dragging` -/
def updateWindowDragging : Option Desktop :=
  match s.dragdrop.draggedWindow with
  | none => some s
  | some a =>
      if s.leftButtonPressed then
        (s.window a).bind fun w =>
          let newX := constrain (s.mouse.x - s.dragdrop.dragOffsetX) w.borderWidth.toNat w.w.toNat
            s.displayWidth
          let newY := constrain (s.mouse.y - s.dragdrop.dragOffsetY) w.borderWidth.toNat w.h.toNat
            s.displayHeight
          if (w.x.toNat : Int) = newX ∧ (w.y.toNat : Int) = newY then some s
          else s.moveWindow a w newX newY
      else some { s with dragdrop := { s.dragdrop with draggedWindow := none } }

/-- The capacity that is reached from `capacity` in steps of `DWM_BUFFER_CHUNK_SIZE`. -/
def chunked (capacity target : Nat) : Nat :=
  if capacity < target then chunked (capacity + 256) target else capacity
termination_by target - capacity
decreasing_by omega

/-- `dwm_resize_window_buffer` of a window with a frame buffer. Without memory it copies
to a null pointer. -/
def resizeWindowBuffer (w : WindowObject) (newW newH : Int) (memory : Bool) : Option WindowObject :=
  if newW > w.bufferW.toNat ∨ newH > w.bufferH.toNat then
    if memory then
      some { w with
        bufferW := .ofNat (chunked w.bufferW.toNat newW.toNat)
        bufferH := .ofNat (chunked w.bufferH.toNat newH.toNat)
        w := .ofInt newW
        h := .ofInt newH }
    else none
  else some { w with w := .ofInt newW, h := .ofInt newH }

/-- The buttons of a window that was resized. -/
def moveButton (w : WindowObject) (uiClose : Option UInt16)
    (button : WindowButton) : WindowButton :=
  let x : Int := w.w.toNat - button.width.toNat
  if button.event = dwmEventResize then
    { button with x := .ofInt x, y := .ofInt (w.h.toNat - button.height.toNat) }
  else if button.event = dwmEventClose then { button with x := .ofInt x }
  else if button.event = dwmEventMinimize then
    match uiClose with
    | none => button
    | some width => { button with x := .ofInt (x - width.toNat) }
  else button

/-- The width (height) that the mouse asks for: within the screen, at least `min`, and at most
`max` unless that is 0. -/
def resizeTarget (target place border display min max : Int) : Int :=
  let target := if place + target + border > display then display - place - border else target
  let target := if target < min then min else target
  if 0 < max ∧ max < target then max else target

/-- A window gets a new size. -/
def resizeWindow (a : Address) (w : WindowObject) (targetW targetH : Int) (around : Surroundings) :
    Option Desktop := do
  let w ← resizeWindowBuffer w targetW targetH around.bufferMemory
  let s := s.modifyWindow a fun _ => w
  let s ← s.syncChildPositions (s.windows.length + 1) a
  let titlebar := w.titlebarHeight.toUInt16
  return s.modifyWindow a fun w => { w with
    surfaceW := w.w
    surfaceH := w.h - titlebar
    surfaceX := w.x
    surfaceY := w.y + titlebar + if titlebar = 0 then 0 else 1
    buttons := w.buttons.map (moveButton w around.uiClose) }

/-- `dwm_update_window_resizing` -/
def updateWindowResizing (around : Surroundings) : Option Desktop :=
  match s.dragdrop.draggedResizing with
  | none => some s
  | some a => (s.window a).bind fun w =>
      if !w.frameBuffer then some s
      else if s.leftButtonPressed then
        let targetW := resizeTarget (s.mouse.x + s.dragdrop.resizeOffsetX - w.x.toNat) w.x.toNat
          w.borderWidth.toNat s.displayWidth 64 w.maxWidth.toNat
        let targetH := resizeTarget (s.mouse.y + s.dragdrop.resizeOffsetY - w.y.toNat) w.y.toNat
          w.borderWidth.toNat s.displayHeight (48 + w.titlebarHeight.toNat) w.maxHeight.toNat
        if (w.w.toNat : Int) = targetW ∧ (w.h.toNat : Int) = targetH then some s
        else s.resizeWindow a w targetW targetH around
      else some { s with dragdrop := { s.dragdrop with draggedResizing := none } }

/-- `dwm_update_window_capture`, without the messages. -/
def updateWindowCapture : Desktop :=
  if s.dragdrop.capturedWindow = 0 then s
  else if (s.getWindowById s.dragdrop.capturedWindow).isNone ∨ ¬ s.leftButtonPressed then
    { s with dragdrop := { s.dragdrop with capturedWindow := 0 } }
  else s

/-! ## Clicks -/

/-- The first of the windows with the point in it or on its border. -/
def windowAt (p : Point) : List Address → Option (Option WindowObject)
  | [] => some none
  | a :: rest => do
      let w ← s.window a
      let position ← s.getAbsolutePosition w
      let border : Int := w.borderWidth.toNat
      if inside p (position.x - border) (position.x + w.w.toNat + border)
          (position.y - border) (position.y + w.h.toNat + border) then return some w
      else windowAt p rest

/-- `dwm_find_clicked_window` on the windows of one level, from the bottom to the top. -/
def findClickedWindow (p : Point) : Nat → List Address → Option (Option WindowObject)
  | 0, _ => none
  | fuel + 1, level => do
      match ← s.windowAt p level.reverse with
      | none => return none
      | some w =>
          if w.children.isEmpty then return some w
          else return some ((← findClickedWindow p fuel w.children).getD w)

/-- The top of the window's family. -/
def rootOf (fuel : Nat) (w : WindowObject) : Option WindowObject :=
  rootParent s.window WindowObject.parent fuel w

/-- The first button of the window with the mouse on it. -/
def buttonAt (w : WindowObject) : Option WindowButton :=
  w.buttons.find? fun button =>
    let minX := w.x.toNat + button.x.toInt
    let minY := w.y.toNat + button.y.toInt
    inside s.mouse minX (minX + button.width.toNat) minY (minY + button.height.toNat)

/-- What a click on a window starts. -/
def clickWindow (w : WindowObject) (position : Point) (clicks : Clicks) : Desktop :=
  match s.buttonAt w with
  | some button =>
      if button.event = dwmEventResize then
        { s with dragdrop := { s.dragdrop with
          draggedResizing := some w.address
          resizeOffsetX := w.x.toNat + w.w.toNat - s.mouse.x
          resizeOffsetY := w.y.toNat + w.h.toNat - s.mouse.y } }
      else s
  | none =>
      if w.style &&& dwmWstyleNoborders = 0 ∧
          inside s.mouse position.x (position.x + w.w.toNat)
            position.y (position.y + w.titlebarHeight.toNat - 1) then
        { s with dragdrop := { s.dragdrop with
          dragOffsetX := s.mouse.x - w.x.toNat
          dragOffsetY := s.mouse.y - w.y.toNat
          draggedWindow := if clicks.left then some w.address else s.dragdrop.draggedWindow } }
      else if clicks.left then
        { s with dragdrop := { s.dragdrop with capturedWindow := w.id } }
      else s

/-- `dwm_get_focused_window` -/
def getFocusedWindow : Option WindowObject :=
  if s.desktopFocused then none else s.windows.getLast?

/-- A clicked family of windows gets the focus unless it has it. -/
def focusRoot (root : WindowObject) : Desktop :=
  if s.getFocusedWindow.map (·.address) = some root.address then s else s.setFocus root

/-- `dwm_handle_window_clicks`, without the messages and the time of the last click. -/
def handleWindowClicks (clicks : Clicks) : Option (Bool × Desktop) := do
  match ← s.findClickedWindow s.mouse (s.windows.length + 1) (s.windows.map (·.address)) with
  | none => return (false, s)
  | some w =>
      let root ← s.rootOf (s.windows.length + 1) w
      let s := s.focusRoot root
      let position ← s.getAbsolutePosition w
      return (true, s.clickWindow w position clicks)

/-- The first icon with the mouse on it. -/
def iconAt : Option IconObject :=
  s.icons.find? fun i =>
    let minX := i.x.toNat + i.boundsX.toInt
    let minY := i.y.toNat + i.boundsY.toInt
    inside s.mouse minX (minX + i.boundsW.toInt) minY (minY + i.boundsH.toInt)

/-- What a left click on an icon starts: a drag or, as the second one, a program. -/
def clickIcon (i : IconObject) (currentTime : UInt32) : Desktop :=
  let dx := s.mouse.x - s.dragdrop.dragStartX
  let dy := s.mouse.y - s.dragdrop.dragStartY
  if s.lastFocusedIcon = some i.address ∧ dx * dx + dy * dy ≤ 25 ∧
      currentTime - s.lastIconClickTime ≤ 500 then
    { s with
      focusedIcon := none
      lastFocusedIcon := none
      lastIconClickTime := 0
      dragdrop := { s.dragdrop with draggedIcon := none } }
  else
    { s with
      dragdrop := { s.dragdrop with
        draggedIcon := some i.address
        dragStartX := s.mouse.x
        dragStartY := s.mouse.y
        isDragging := false
        iconDragOffsetX := s.mouse.x - i.x.toNat
        iconDragOffsetY := s.mouse.y - i.y.toNat }
      lastFocusedIcon := some i.address
      lastIconClickTime := currentTime }

/-- `dwm_handle_icon_clicks`, without the programs that a double click starts. -/
def handleIconClicks (clicks : Clicks) (around : Surroundings) : Desktop :=
  match s.iconAt with
  | none =>
      if clicks.left then { s with lastFocusedIcon := none }
      else if clicks.right then s.createContextMenu s.mouse.x s.mouse.y dwmContextMenuDesktop 5
      else s
  | some i =>
      let s := { s with focusedIcon := some i.address }
      if clicks.left then s.clickIcon i around.time.toUInt32
      else if clicks.right then s.createContextMenu s.mouse.x s.mouse.y dwmContextMenuIcon 6
      else s

/-- `dwm_process_context_menu_events`: a message to the window that summoned the menu, or an
action. -/
def processContextMenuEvents (around : Surroundings) : Option Desktop :=
  if s.menuDirective = dwmContextMenuUser then
    match s.menuHandle with
    | none => some s
    | some a => (s.window a).map fun _ => s
  else if s.menuDirective = dwmContextMenuDesktop ∨ s.menuDirective = dwmContextMenuIcon then
    s.performAll around.menuAction
  else some s

/-- A click in a layer of the context menu. -/
def clickMenu (menu : ContextMenu) (clicks : Clicks) (around : Surroundings) : Option Desktop :=
  if clicks.left then
    if menu.itemHeight = 0 then none
    else if (s.mouse.y - menu.y.toInt).toNat / menu.itemHeight.toNat < menu.itemCount.toNat then
      s.processContextMenuEvents around
    else some s
  else some s

/-- `dwm_handle_context_menu_clicks` -/
def handleContextMenuClicks (clicks : Clicks) (around : Surroundings) : Option (Bool × Desktop) :=
  match s.menus.reverse.find? fun menu =>
      inside s.mouse menu.x.toInt (menu.x.toInt + menu.w.toInt)
        menu.y.toInt (menu.y.toInt + menu.h.toInt) with
  | none => some (false, { s with menus := [] })
  | some menu => (s.clickMenu menu clicks around).map fun s => (true, { s with menus := [] })

/-- The mouse is in the rename box of an icon. -/
def InRenameBox (i : IconObject) (length : Nat) : Prop :=
  let w : Int := min (max (length * 6) 30) 140
  let x : Int := i.x.toNat + (i.width.toNat - w).tdiv 2
  let y : Int := i.y.toNat + 40
  let x := max x 1
  let x := if x + w + 1 > s.displayWidth then s.displayWidth - w - 1 else x
  inside s.mouse (x - 1) (x + w) (y - 1) (y + 18)

instance (i : IconObject) (length : Nat) : Decidable (s.InRenameBox i length) :=
  inferInstanceAs (Decidable (inside ..))

/-- `dwm_desktop_rename_handle_click` -/
def renameHandleClick (around : Surroundings) : Option (Bool × Desktop) :=
  match s.rename with
  | none => some (false, s)
  | some (a, length) => (s.icon a).bind fun i =>
      if s.InRenameBox i length then some (true, s)
      else (Desktop.performAll { s with rename := none } around.renameCommit).map (false, ·)

/-- `dwm_update_mouse`; a click that one handler takes does not reach the next. -/
def updateMouse (around : Surroundings) : Option (Clicks × Desktop) := do
  let clicks : Clicks :=
    ⟨s.leftButtonPressed && !s.lastLeftButtonPressed,
      s.rightButtonPressed && !s.lastRightButtonPressed⟩
  if !clicks.left && !clicks.right then return (clicks, s)
  else
    let (taken, s) ← s.handleContextMenuClicks clicks around
    if taken then return (clicks, s)
    else
      let (taken, s) ← s.renameHandleClick around
      if taken then return (clicks, s)
      else
        let (taken, s) ← s.handleWindowClicks clicks
        if taken then return (clicks, s)
        else return (clicks, Desktop.handleIconClicks
          { s with desktopFocused := true } clicks around)

/-! ## Frames -/

/-- A drag, a resizing or a capture goes on. -/
def Dragging : Prop :=
  s.dragdrop.draggedWindow.isSome ∨ s.dragdrop.draggedResizing.isSome ∨
    s.dragdrop.draggedIcon.isSome ∨ s.dragdrop.capturedWindow ≠ 0

instance : Decidable s.Dragging := inferInstanceAs (Decidable (_ ∨ _))

/-- `dwm_apply_mouse_state`, and what is taken for a click. -/
def applyMouseState (around : Surroundings) : Option (Clicks × Desktop) :=
  if s.dragdrop.draggedWindow.isSome then s.updateWindowDragging.map (.none, ·)
  else if s.dragdrop.draggedResizing.isSome then (s.updateWindowResizing around).map (.none, ·)
  else if s.dragdrop.draggedIcon.isSome then s.updateIconDragging.map (.none, ·)
  else if s.dragdrop.capturedWindow ≠ 0 then some (.none, s.updateWindowCapture)
  else s.updateMouse around

end Desktop

/-- One event of the queue, and what the code around does when it is applied and when
deferred motion is applied before it. -/
structure MouseInput where
  x : Int
  y : Int
  leftButton : Bool
  rightButton : Bool
  around : Surroundings
  before : Surroundings

/-- The desktop with the position and the buttons of an event. -/
def Desktop.snapshot (s : Desktop) (input : MouseInput) : Desktop :=
  { s with
    mouse := ⟨input.x, input.y⟩
    leftButtonPressed := input.leftButton
    rightButtonPressed := input.rightButton }

/-- `dwm_update` among its events. -/
structure Frame where
  desktop : Desktop
  dragPending : Bool

namespace Frame

variable (f : Frame) (input : MouseInput)

def ButtonsChanged : Prop :=
  input.leftButton ≠ f.desktop.leftButtonPressed ∨ input.rightButton ≠ f.desktop.rightButtonPressed

instance : Decidable (f.ButtonsChanged input) := inferInstanceAs (Decidable (_ ∨ _))

/-- Deferred motion is applied before a button changes. -/
def flush : Option (Clicks × Frame) :=
  if f.dragPending ∧ f.ButtonsChanged input then
    (f.desktop.applyMouseState input.before).map fun (clicks, s) => (clicks, ⟨s, false⟩)
  else some (.none, f)

/-- The event itself: motion during an interaction is deferred. -/
def take (dragging buttonsChanged : Bool) : Option (Clicks × Frame) :=
  let s := f.desktop.snapshot input
  if dragging && !buttonsChanged then some (.none, ⟨s, true⟩)
  else (s.applyMouseState input.around).map fun (clicks, s) => (clicks, ⟨s, f.dragPending⟩)

/-- One round of the loop of `dwm_update`. The first clicks are those of the deferred
motion, the second ones those of the event. -/
def event : Option ((Clicks × Clicks) × Frame) := do
  let (flushed, g) ← f.flush input
  let (own, g) ← g.take input (f.desktop.Dragging) (f.ButtonsChanged input)
  return ((flushed, own), g)

/-- Deferred motion is applied after the last event. -/
def pending (around : Surroundings) : Option (Clicks × Desktop) :=
  if f.dragPending then f.desktop.applyMouseState around else some (.none, f.desktop)

/-- The end of `dwm_update`. -/
def finish (around : Surroundings) : Option (Clicks × Desktop) :=
  (f.pending around).map fun (clicks, s) => (clicks, { s with
    lastLeftButtonPressed := s.leftButtonPressed
    lastRightButtonPressed := s.rightButtonPressed })

end Frame

/-- A frame: the events that are in the queue, and the surroundings of its end. -/
structure FrameInput where
  events : List MouseInput
  around : Surroundings

/-- What happens to the desktop, one thing after the other. The procedures that
`dwm_update` calls before and after its events are operations of their own. -/
inductive DwmOp
  | perform (op : DesktopOp)
  | update (frame : FrameInput)

namespace Desktop

/-- `dwm_update`; the reply has the clicks of the events and of the deferred motion. -/
def update (s : Desktop) (frame : FrameInput) : Option (List (Clicks × Clicks) × Desktop) := do
  let (clicks, f) ← Trace.run Frame.event ⟨s, false⟩ frame.events
  let (last, s) ← f.finish frame.around
  return (clicks ++ [(last, .none)], s)

def step (s : Desktop) : DwmOp → Option (List (Clicks × Clicks) × Desktop)
  | .perform op => (s.perform op).map ([], ·)
  | .update frame => s.update frame

end Desktop

end AvrKernel.Dwm

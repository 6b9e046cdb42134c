import AvrKernel.Lib.Trace
import Mathlib.Tactic.Common

/-!
# The desktop

`dwm.c`, `dwm_core_internal.c`: windows, icons, the context menu and the rename box,
as far as the mouse has to do with them. Drawing, messages and texts are left out.
Windows and icons are told apart by their addresses.
-/

namespace AvrKernel.Dwm

def dwmMaxNameLen : Nat := 64
def dwmMaxPathLen : Nat := 128

def dwmWstyleTopmost : UInt16 := 0x0001
def dwmWstyleNoborders : UInt16 := 0x0002
def dwmWstyleChild : UInt16 := 0x0004
def dwmWstyleResizeable : UInt16 := 0x0008
def dwmWstyleNoclosebox : UInt16 := 0x0010
def dwmWstyleCascade : UInt16 := 0x0020
def dwmWstyleNotitlebar : UInt16 := 0x0040

def dwmEventClose : UInt16 := 0x0008
def dwmEventMinimize : UInt16 := 0x0040
def dwmEventResize : UInt16 := 0x0100

def dwmContextMenuDesktop : UInt16 := 0x01
def dwmContextMenuIcon : UInt16 := 0x02
def dwmContextMenuUser : UInt16 := 0x04

abbrev WindowHandle := UInt32
abbrev Address := UInt32

structure WindowClass where
  x : UInt16
  y : UInt16
  width : UInt16
  height : UInt16
  maxWidth : UInt16
  maxHeight : UInt16

structure WindowButton where
  x : Int16
  y : Int16
  width : UInt16
  height : UInt16
  event : UInt16
  deriving DecidableEq

structure WindowObject where
  address : Address
  id : WindowHandle
  style : UInt16
  parent : Option Address
  children : List Address
  buttons : List WindowButton
  x : UInt16
  y : UInt16
  w : UInt16
  h : UInt16
  localX : UInt16
  localY : UInt16
  maxWidth : UInt16
  maxHeight : UInt16
  surfaceX : UInt16
  surfaceY : UInt16
  surfaceW : UInt16
  surfaceH : UInt16
  /-- There is a client frame buffer. -/
  frameBuffer : Bool
  bufferW : UInt16
  bufferH : UInt16
  borderWidth : UInt8
  titlebarHeight : UInt8
  deriving DecidableEq

structure IconObject where
  address : Address
  x : UInt16
  y : UInt16
  width : UInt16
  height : UInt16
  boundsX : Int16
  boundsY : Int16
  boundsW : Int16
  boundsH : Int16
  deriving DecidableEq

/-- One layer of the context menu. -/
structure ContextMenu where
  x : Int16
  y : Int16
  w : Int16
  h : Int16
  itemHeight : UInt8
  itemCount : UInt8
  deriving DecidableEq

/-- `struct DWMDragDrop`. At `capturedWindow = 0` nothing is captured. -/
structure DragDrop where
  draggedWindow : Option Address
  dragOffsetX : Int
  dragOffsetY : Int
  draggedIcon : Option Address
  iconDragOffsetX : Int
  iconDragOffsetY : Int
  dragStartX : Int
  dragStartY : Int
  isDragging : Bool
  draggedResizing : Option Address
  resizeOffsetX : Int
  resizeOffsetY : Int
  capturedWindow : WindowHandle
  deriving DecidableEq

structure Point where
  x : Int
  y : Int
  deriving DecidableEq

/-! ## Up the parents -/

/-- The sum of the surfaces from a window up to its root; `window` is what a pointer leads to. -/
def surfaceSum (window : Address → Option WindowObject) : Nat → Option Address → Option Point
  | 0, _ => none
  | _, none => some ⟨0, 0⟩
  | fuel + 1, some a => do
      let p ← window a
      let above ← surfaceSum window fuel p.parent
      return ⟨p.surfaceX.toNat + above.x, p.surfaceY.toNat + above.y⟩

/-- `dwm_get_absolute_position` -/
def absolutePosition (window : Address → Option WindowObject) (fuel : Nat) (w : WindowObject) :
    Option Point :=
  match w.parent with
  | none => some ⟨w.x.toNat, w.y.toNat⟩
  | some parent => (surfaceSum window fuel (some parent)).map fun sum =>
      ⟨w.localX.toNat + sum.x, w.localY.toNat + sum.y⟩

/-- `dwm_get_root_parent`; a cycle of parents has no end. -/
def rootParent {Window : Type} (window : Address → Option Window)
    (parent : Window → Option Address) : Nat → Window → Option Window
  | 0, _ => none
  | fuel + 1, w =>
      match parent w with
      | none => some w
      | some p => (window p).bind (rootParent window parent fuel)

/-! ## The desktop -/

structure Desktop where
  displayWidth : Int
  displayHeight : Int
  taskbarHeight : Int
  /-- From the bottom to the top. -/
  windows : List WindowObject
  icons : List IconObject
  nextWindowId : UInt32
  desktopFocused : Bool
  cascadeX : UInt16
  cascadeY : UInt16
  dragdrop : DragDrop
  mouse : Point
  leftButtonPressed : Bool
  rightButtonPressed : Bool
  lastLeftButtonPressed : Bool
  lastRightButtonPressed : Bool
  focusedIcon : Option Address
  lastFocusedIcon : Option Address
  lastIconClickTime : UInt32
  /-- The layers of the context menu that are open, the lowest first. -/
  menus : List ContextMenu
  /-- What the context menu is for, and the window that summoned it last. -/
  menuDirective : UInt16
  menuHandle : Option Address
  /-- The icon that is being renamed and the length of the text in the box. -/
  rename : Option (Address × Nat)
  deriving DecidableEq

namespace Desktop

/-- `dwm_initiate`, before the window of the taskbar is created. -/
def init (displayWidth displayHeight : Int) : Desktop where
  displayWidth
  displayHeight
  taskbarHeight := 28
  windows := []
  icons := []
  nextWindowId := 0
  desktopFocused := false
  cascadeX := 51
  cascadeY := 60
  dragdrop := ⟨none, 0, 0, none, 0, 0, 0, 0, false, none, 0, 0, 0⟩
  mouse := ⟨displayWidth / 2, displayHeight / 2⟩
  leftButtonPressed := false
  rightButtonPressed := false
  lastLeftButtonPressed := false
  lastRightButtonPressed := false
  focusedIcon := none
  lastFocusedIcon := none
  lastIconClickTime := 0
  menus := []
  menuDirective := 0
  menuHandle := none
  rename := none

variable (s : Desktop)

def window (a : Address) : Option WindowObject := s.windows.find? (·.address = a)

def icon (a : Address) : Option IconObject := s.icons.find? (·.address = a)

def modifyWindow (a : Address) (f : WindowObject → WindowObject) : Desktop :=
  { s with windows := s.windows.map fun w => if w.address = a then f w else w }

/-- `dwm_get_window_by_id` -/
def getWindowById (id : WindowHandle) : Option WindowObject :=
  if id = 0 then none else s.windows.find? (·.id = id)

/-! ## Windows -/

/-- The first id from `next` on that is not in use, and the counter behind it. -/
def freeId (ids : List UInt32) : Nat → UInt32 → Option (UInt32 × UInt32)
  | 0, _ => none
  | fuel + 1, next =>
      let (candidate, next) := if next = 0 then (1, 2) else (next, next + 1)
      if candidate ∈ ids then freeId ids fuel next else some (candidate, next)

/-- What `dwm_allocate_window` finds: the memory for the window (`none` if there is
none), whether there is memory for the rest and for each of the buttons, and the sizes of the
images. -/
structure WindowMemory where
  address : Option Address
  frameBuffer : Bool
  node : Bool
  closeButton : Bool
  minimizeButton : Bool
  resizeButton : Bool
  uiClose : Option (UInt16 × UInt16)
  uiMinimize : Option (UInt16 × UInt16)

/-- `window_add_button` -/
def windowAddButton (memory : Bool) (buttons : List WindowButton) (button : WindowButton) :
    List WindowButton :=
  if memory then buttons ++ [button] else buttons

/-- The buttons in the title bar; an image of no height divides by zero. -/
def titlebarButtons (wclass : WindowClass) (style : UInt16) (titlebarHeight : UInt8)
    (memory : WindowMemory) : Option (List WindowButton) :=
  if style &&& (dwmWstyleNoclosebox ||| dwmWstyleNotitlebar) = 0 then
    match memory.uiClose with
    | none => some []
    | some (width, height) =>
        if height = 0 then none
        else
          let vertical := Int16.ofInt ((titlebarHeight.toNat / height.toNat : Nat) - 1)
          let closeX := Int16.ofInt (wclass.width.toNat - width.toNat)
          let buttons := windowAddButton memory.closeButton []
            ⟨closeX, vertical, width, height, dwmEventClose⟩
          match memory.uiMinimize with
          | none => some buttons
          | some (minimizeWidth, _) =>
              let closeMin := Int16.ofInt (wclass.width.toNat - width.toNat - minimizeWidth.toNat)
              some (windowAddButton memory.minimizeButton buttons
                ⟨closeMin, vertical, width, height, dwmEventMinimize⟩)
  else some []

/-- The buttons that `dwm_allocate_window` adds. -/
def windowButtons (wclass : WindowClass) (style : UInt16) (titlebarHeight : UInt8)
    (memory : WindowMemory) : Option (List WindowButton) :=
  (titlebarButtons wclass style titlebarHeight memory).map fun buttons =>
    if style &&& dwmWstyleResizeable ≠ 0 then
      windowAddButton memory.resizeButton buttons
        ⟨Int16.ofInt (wclass.width.toNat - 12), Int16.ofInt (wclass.height.toNat - 12), 12, 12,
          dwmEventResize⟩
    else buttons

/-- `dwm_allocate_window`. Nothing happens without memory. -/
def allocateWindow (wclass : WindowClass) (style : UInt16) (memory : WindowMemory) :
    Option Desktop := do
  match memory.address with
  | none => some s
  | some address =>
      -- malloc returns memory that no window has
      if (s.window address).isSome then none
      else
        let child : Bool := style &&& dwmWstyleChild ≠ 0
        if !child && !memory.frameBuffer then some s
        else
          let (id, nextWindowId) ← freeId (s.windows.map (·.id))
            (s.windows.length + 1) s.nextWindowId
          let noborders : Bool := style &&& dwmWstyleNoborders ≠ 0
          let notitlebar : Bool := style &&& dwmWstyleNotitlebar ≠ 0
          let titlebarHeight : UInt8 := if noborders || notitlebar then 0 else 20
          let cascade : Bool := style &&& dwmWstyleCascade ≠ 0
          let x := if cascade then s.cascadeX else wclass.x
          let y := if cascade then s.cascadeY else wclass.y
          let wrapped : Bool := s.cascadeX + 20 > 400
          let buttons ← windowButtons wclass style titlebarHeight memory
          let window : WindowObject := {
            address, id, style
            parent := none
            children := []
            buttons, x, y
            w := wclass.width
            h := wclass.height
            localX := 0
            localY := 0
            maxWidth := wclass.maxWidth
            maxHeight := wclass.maxHeight
            surfaceX := x
            surfaceY := y + titlebarHeight.toUInt16 + if titlebarHeight = 0 then 0 else 1
            surfaceW := wclass.width
            surfaceH := wclass.height - titlebarHeight.toUInt16
            frameBuffer := !child
            bufferW := wclass.width
            bufferH := wclass.height
            borderWidth := if noborders then 0 else 1
            titlebarHeight }
          let s := { s with
            nextWindowId
            cascadeX := if !cascade then s.cascadeX else if wrapped then 20 else s.cascadeX + 20
            cascadeY := if !cascade then s.cascadeY else if wrapped then 17 else s.cascadeY + 17 }
          if memory.node then
            return { s with windows := s.windows ++ [window], desktopFocused := false }
          else return s

/-- Out of the list of its parent, if it has one. -/
def unlinkChild (w : WindowObject) : Desktop :=
  match w.parent with
  | none => s
  | some parent =>
      (s.modifyWindow parent fun p =>
        { p with children := p.children.erase w.address }).modifyWindow
        w.address fun w => { w with parent := none }

/-- The desktop without the window, and with no interaction with it. -/
def withoutWindow (w : WindowObject) : Desktop :=
  { s with
    windows := s.windows.filter (·.address ≠ w.address)
    dragdrop := { s.dragdrop with
      draggedWindow :=
        if s.dragdrop.draggedWindow = some w.address then none else s.dragdrop.draggedWindow
      draggedResizing :=
        if s.dragdrop.draggedResizing = some w.address then none else s.dragdrop.draggedResizing
      capturedWindow := if s.dragdrop.capturedWindow =
        w.id then 0 else s.dragdrop.capturedWindow } }

def getAbsolutePosition (w : WindowObject) : Option Point :=
  absolutePosition s.window (s.windows.length + 2) w

/-- The desktop with windows that are out of its list and not freed yet. -/
def holding (dying : List WindowObject) : Desktop := { s with windows := dying ++ s.windows }

/-- A child of a window that is being destroyed. -/
def destroyChild (destroy : Desktop → WindowHandle → Option Desktop) (s : Desktop)
    (child : Address) : Option Desktop := do
  let c ← s.window child
  destroy (s.modifyWindow child fun c => { c with parent := none }) c.id

/-- `dwm_destroy_window_internal`; a call goes deeper only after a window is gone. The windows
whose children are being destroyed are `dying`. -/
def destroyWindowInternal : Nat → List WindowObject → Desktop → WindowHandle → Option Desktop
  | 0, _, _, _ => none
  | fuel + 1, dying, s, handle =>
      match s.getWindowById handle with
      | none => some s
      | some w => do
          let _ ← (s.holding dying).getAbsolutePosition w
          let unlinked := s.unlinkChild w
          let w ← unlinked.window w.address
          let s ← w.children.foldlM (destroyChild (destroyWindowInternal fuel (w :: dying)))
            (unlinked.withoutWindow w)
          -- the window that is on top now is drawn again
          match s.windows.getLast? with
          | none => return s
          | some tail => ((s.holding (w :: dying)).getAbsolutePosition tail).map fun _ => s

/-- `dwm_destroy_window` -/
def destroyWindow (handle : WindowHandle) : Option Desktop :=
  destroyWindowInternal (s.windows.length + 1) [] s handle

/-- Out of the list of the parent, which the window keeps. -/
def removeChild (c : WindowObject) : Desktop :=
  match c.parent with
  | none => s
  | some old => s.modifyWindow old fun o => { o with children := o.children.erase c.address }

/-- Into the list of the parent, if there is memory for the `node`. -/
def appendChild (parent child : Address) (node : Bool) : Desktop :=
  if node then s.modifyWindow parent fun p => { p with children := p.children ++ [child] } else s

/-- `dwm_window_set_parent`. A child that could not be put in the list has the parent all the
same. -/
def windowSetParent (child parent : WindowHandle) (node : Bool) : Desktop :=
  match s.getWindowById parent, s.getWindowById child with
  | some p, some c =>
      let placed : Bool := c.localX ≠ 0 || c.localY ≠ 0
      let localX := if placed then c.localX else c.x
      let localY := if placed then c.localY else c.y
      let x := p.surfaceX + localX
      let y := p.surfaceY + localY
      let s := (s.removeChild c).appendChild p.address c.address node
      s.modifyWindow c.address fun c => { c with
        style := c.style ||| dwmWstyleChild
        parent := some p.address
        localX, localY, x, y
        surfaceX := x
        surfaceY := y + c.titlebarHeight.toUInt16 + if c.borderWidth = 0 then 0 else 1
        surfaceW := c.w
        surfaceH := c.h - c.titlebarHeight.toUInt16 }
  | _, _ => s

/-- The window moves to the top. -/
def raise (w : WindowObject) : Desktop :=
  { s with windows := s.windows.filter (·.address ≠ w.address) ++
      s.windows.filter (·.address = w.address) }

/-- `dwm_set_focus` -/
def setFocus (w : WindowObject) : Desktop := { s.raise w with desktopFocused := false }

/-- `dwm_window_set_focus`: the parent of a child window gets the focus. -/
def windowSetFocus (handle : WindowHandle) : Option Desktop :=
  match s.getWindowById handle with
  | none => some s
  | some w =>
      match w.parent with
      | none => some (s.setFocus w)
      | some parent => (s.window parent).map s.setFocus

/-- `dwm_sync_child_positions`, `dwm_cascade_child_positions`: what they move. A cycle of
parents has no end. -/
def syncChildPositions : Nat → Desktop → Address → Option Desktop
  | 0, _, _ => none
  | fuel + 1, s, parent => do
      let p ← s.window parent
      p.children.foldlM (fun s child => do
        let p ← s.window parent
        let c ← s.window child
        let x := p.surfaceX + c.localX
        let y := p.surfaceY + c.localY
        syncChildPositions fuel (s.modifyWindow child fun c => { c with
          x, y
          surfaceX := x
          surfaceY := y + c.titlebarHeight.toUInt16 + if c.borderWidth = 0 then 0 else 1 }) child) s

/-! ## Icons, the context menu and the rename box -/

/-- `dwm_create_icon`; `none` for the address if there is no memory. -/
def createIcon (x y width height : UInt16) (address : Option Address) : Option Desktop :=
  match address with
  | none => some s
  | some address =>
      if (s.icon address).isSome then none
      else some { s with icons := s.icons ++
        [⟨address, x, y, width, height, -1, -1, (width + 2).toInt16, (height + 2).toInt16⟩] }

/-- `dwm_destroy_icon` -/
def destroyIcon (a : Address) : Desktop :=
  if (s.icon a).isNone then s
  else
    { s with
      icons := s.icons.filter (·.address ≠ a)
      rename := if s.rename.map Prod.fst = some a then none else s.rename
      focusedIcon := if s.focusedIcon = some a then none else s.focusedIcon
      lastFocusedIcon := if s.lastFocusedIcon = some a then none else s.lastFocusedIcon
      dragdrop := { s.dragdrop with
        draggedIcon := if s.dragdrop.draggedIcon = some a then none else s.dragdrop.draggedIcon } }

/-- A new place (`layout_move_icon`) or new bounds (`dwm_calculate_icon_bounds`). -/
def modifyIcon (a : Address) (f : IconObject → IconObject) : Desktop :=
  { s with icons := s.icons.map fun i => if i.address = a then f i else i }

/-- `dwm_create_context_menu` -/
def createContextMenu (x y : Int) (directive : UInt16) (itemCount : Int) : Desktop :=
  if itemCount ≤ 0 ∨ 16 < itemCount then s
  else
    let w : Int := 130
    let h : Int := 22 * itemCount
    let x := Int16.ofInt x
    let y := Int16.ofInt y
    let x := if x.toInt + w > s.displayWidth then Int16.ofInt (s.displayWidth - w) else x
    let y := if y.toInt + h > s.displayHeight - s.taskbarHeight then
      Int16.ofInt (s.displayHeight - s.taskbarHeight - h) else y
    { s with
      menuDirective := directive
      menus := [⟨x, y, Int16.ofInt w, Int16.ofInt h, 22, UInt8.ofNat itemCount.toNat⟩] }

/-- `dwm_summon_context_menu` -/
def summonContextMenu (handle : WindowHandle) (x y numberOfItems : UInt16) : Desktop :=
  match s.getWindowById handle with
  | none => s
  | some w =>
      let posx := w.x + x
      let posy := w.y + y + w.titlebarHeight.toUInt16
      if posx.toNat > w.x.toNat + w.w.toNat ∨ posy.toNat > w.y.toNat + w.h.toNat then s
      else
        createContextMenu { s with menuHandle := some w.address } posx.toNat posy.toNat
          dwmContextMenuUser numberOfItems.toNat

/-- `dwm_desktop_rename_begin`, once the rename before it is over and the icon may be
renamed. -/
def renameBegin (a : Address) (length : Nat) : Desktop :=
  { s with
    rename := some (a, length)
    dragdrop := { s.dragdrop with
      draggedIcon := if s.dragdrop.draggedIcon = some a then none else s.dragdrop.draggedIcon } }

end Desktop

/-- What programs, window procedures and menu actions do to the desktop. -/
inductive DesktopOp
  | createWindow (wclass : WindowClass) (style : UInt16) (memory : Desktop.WindowMemory)
  | destroyWindow (handle : WindowHandle)
  | setParent (child parent : WindowHandle) (node : Bool)
  | setFocus (handle : WindowHandle)
  | createIcon (x y width height : UInt16) (address : Option Address)
  | destroyIcon (icon : Address)
  | moveIcon (icon : Address) (x y : UInt16)
  | setIconBounds (icon : Address) (x y w h : Int16)
  | summonContextMenu (handle : WindowHandle) (x y numberOfItems : UInt16)
  | renameBegin (icon : Address) (length : Nat)
  | renameText (length : Nat)
  | renameEnd

namespace Desktop

def perform (s : Desktop) : DesktopOp → Option Desktop
  | .createWindow wclass style memory => s.allocateWindow wclass style memory
  | .destroyWindow handle => s.destroyWindow handle
  | .setParent child parent node => some (s.windowSetParent child parent node)
  | .setFocus handle => s.windowSetFocus handle
  | .createIcon x y width height address => s.createIcon x y width height address
  | .destroyIcon icon => some (s.destroyIcon icon)
  | .moveIcon icon x y => some (s.modifyIcon icon fun i => { i with x, y })
  | .setIconBounds icon x y w h => some (s.modifyIcon icon fun i =>
      { i with boundsX := x, boundsY := y, boundsW := w, boundsH := h })
  | .summonContextMenu handle x y numberOfItems =>
      some (s.summonContextMenu handle x y numberOfItems)
  | .renameBegin icon length => some (s.renameBegin icon length)
  | .renameText length => some { s with rename := s.rename.map fun r => (r.1, length) }
  | .renameEnd => some { s with rename := none }

def performAll (s : Desktop) (ops : List DesktopOp) : Option Desktop :=
  ops.foldlM Desktop.perform s

end Desktop

end AvrKernel.Dwm

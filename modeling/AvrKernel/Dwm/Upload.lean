import AvrKernel.Dwm.Desktop
import AvrKernel.Dwm.DirtyRegions
import Mathlib.Algebra.Order.Ring.Int
import Mathlib.Tactic.Ring

/-!
# Window contents on the screen

`dwm_render_window_recursive` of `dwm_draw.c` copies the frame buffers of windows to the back
buffer, and `dwm_upload_window_buffer_to_backbuffer` of `dwm_core_internal.c` cuts each copy
to the frame buffer. An upload is the list of words it copies. Coordinates are integers,
since their sums are supposed to fit in an `int`.
-/

namespace AvrKernel.Dwm

open Boxes

def dwmWflagRedraw : UInt16 := 0x01
def dwmWflagRefresh : UInt16 := 0x02
def dwmWflagRedecorate : UInt16 := 0x04

/-- A window with its flags and the number of words behind `frame_buffer`, which is 0 for a
null pointer. -/
structure ShownWindow extends WindowObject where
  flags : UInt16
  frameWords : Nat

abbrev Windows := List ShownWindow

namespace Windows

def find (windows : Windows) (a : Address) : Option ShownWindow :=
  windows.find? (·.address = a)

def modify (windows : Windows) (a : Address) (f : ShownWindow → ShownWindow) : Windows :=
  windows.map fun window => if window.address = a then f window else window

end Windows

/-! ## Rectangles -/

def rectsIntersect (a b : Rect) : Bool :=
  ¬(a.x + a.w ≤ b.x ∨ b.x + b.w ≤ a.x ∨ a.y + a.h ≤ b.y ∨ b.y + b.h ≤ a.y)

/-- `get_rect_intersection`. Without an intersection `x` and `y` stay, and nobody reads them. -/
def getRectIntersection (a b : Rect) : Rect :=
  let ix1 := if a.x > b.x then a.x else b.x
  let iy1 := if a.y > b.y then a.y else b.y
  let ix2 := if a.x + a.w < b.x + b.w then a.x + a.w else b.x + b.w
  let iy2 := if a.y + a.h < b.y + b.h then a.y + a.h else b.y + b.h
  if ix1 < ix2 ∧ iy1 < iy2 then ⟨ix1, iy1, ix2 - ix1, iy2 - iy1⟩ else ⟨a.x, a.y, 0, 0⟩

namespace ShownWindow

variable (window : ShownWindow)

def clientX : Int := window.x.toNat
def clientY : Int := window.y.toNat + window.titlebarHeight.toNat

/-- The window with its borders. -/
def frame : Rect where
  x := window.x.toNat - window.borderWidth.toNat
  y := window.y.toNat - window.borderWidth.toNat
  w := window.w.toNat + window.borderWidth.toNat * 2
  h := window.h.toNat + window.borderWidth.toNat * 2

/-- The window below its title bar. -/
def client : Rect where
  x := window.clientX
  y := window.clientY
  w := window.w.toNat
  h := window.h.toNat - window.titlebarHeight.toNat

def surface : Rect where
  x := window.surfaceX.toNat
  y := window.surfaceY.toNat
  w := window.surfaceW.toNat
  h := window.surfaceH.toNat

def hasFlag (flags : UInt16) : Bool := window.flags &&& flags ≠ 0

def clearFlag (flags : UInt16) : ShownWindow := { window with flags := window.flags &&& ~~~flags }

end ShownWindow

/-! ## The upload -/

/-- One word goes from the frame buffer of a window to the back buffer. -/
structure Copy where
  src : Int
  dest : Int
  deriving DecidableEq

/-- Along one axis: where the copy starts in the frame buffer, and how much is left of it. -/
def clampAxis (clip size clientStart buffer : Int) : Int × Int :=
  let localStart := clip - clientStart
  let size := if localStart < 0 then size + localStart else size
  let localStart := if localStart < 0 then 0 else localStart
  (localStart, if localStart + size > buffer then buffer - localStart else size)

/-- A call of `dwm_upload_window_buffer_to_backbuffer`. -/
structure UploadCall where
  window : ShownWindow
  clip : Rect

namespace UploadCall

variable (call : UploadCall)

def axisX : Int × Int :=
  clampAxis call.clip.x call.clip.w call.window.clientX call.window.bufferW.toNat

def axisY : Int × Int :=
  clampAxis call.clip.y call.clip.h call.window.clientY call.window.bufferH.toNat

/-- The words the call copies. The index of a row in the back buffer is an `uint32_t`. -/
def copies (screenStride : UInt16) : List Copy :=
  if call.axisX.2 ≤ 0 ∨ call.axisY.2 ≤ 0 then []
  else
    (List.range call.axisY.2.toNat).flatMap fun (i : Nat) =>
      (List.range call.axisX.2.toNat).map fun (j : Nat) =>
        { src := (call.axisY.1 + i) * call.window.bufferW.toNat + call.axisX.1 + j
          dest := ((call.clip.y + i) * screenStride.toNat + call.clip.x) % 2 ^ 32 + j }

end UploadCall

/-! ## Rendering -/

/-- The windows and the dirty rectangles while a frame is drawn. -/
structure Stage where
  windows : Windows
  dirty : List Rect

/-- The area of a child window, where its own coordinates put it. -/
def childArea (windows : Windows) (window : ShownWindow) : Option Rect :=
  (absolutePosition (fun a => (windows.find a).map ShownWindow.toWindowObject)
    (windows.length + 1) window.toWindowObject).map fun position =>
      ⟨position.x, position.y, window.bufferW.toNat, window.bufferH.toNat⟩

/-- What the upload of a child window is about: the window at the root, the area of the child
and the surface of its parent. -/
def childParts (windows : Windows) (window : ShownWindow) (parent : Address) :
    Option (ShownWindow × Rect × Rect) := do
  let root ← rootParent windows.find (·.parent) (windows.length + 1) window
  let area ← childArea windows window
  let parent ← windows.find parent
  return (root, area, parent.surface)

def dirtyIntersection (dirty : List Rect) (window : ShownWindow) : Bool :=
  dirty.any (rectsIntersect · window.frame)

/-- The window is drawn again. -/
def Shown (dirty : List Rect) (window : ShownWindow) : Prop :=
  window.hasFlag (dwmWflagRefresh ||| dwmWflagRedecorate) ∨ dirtyIntersection dirty window

instance (dirty : List Rect) (window : ShownWindow) : Decidable (Shown dirty window) :=
  inferInstanceAs (Decidable (_ ∨ _))

/-- An upload of what two rectangles share, unless that is nothing. -/
def uploadShared (window : ShownWindow) (a b : Rect) : List UploadCall :=
  let clip := getRectIntersection a b
  if clip.w > 0 ∧ clip.h > 0 then [⟨window, clip⟩] else []

/-- The uploads for the dirty parts of a client area. -/
def chunks (dirty : List Rect) (window : ShownWindow) : List UploadCall :=
  dirty.flatMap (uploadShared window · window.client)

/-- The uploads for one window. -/
def windowUploads (stage : Stage) (window : ShownWindow) : Option (List UploadCall) :=
  if Shown stage.dirty window then
    match window.parent with
    | none =>
        if (chunks stage.dirty window).isEmpty ∧ window.hasFlag dwmWflagRefresh then
          some [⟨window, window.client⟩]
        else some (chunks stage.dirty window)
    | some parent =>
        (childParts stage.windows window parent).map fun (root, area, surface) =>
          uploadShared root area surface
  else some []

/-- A window that is rendered, the stage at that time, and the uploads. -/
structure Visit where
  stage : Stage
  window : ShownWindow
  uploads : List UploadCall

/-- The child after `child` in the list of children of `a`. -/
def nextChild (windows : Windows) (a child : Address) : Option Address := do
  let window ← windows.find a
  (window.children.dropWhile (· ≠ child)).tail.head?

/-- A window with the redraw flag loses it and is told to draw itself. `redraw` is what the
procedure of a window does to the stage then. -/
def redrawn (redraw : Address → Stage → Stage) (a : Address) (window : ShownWindow)
    (stage : Stage) : Stage :=
  if window.hasFlag dwmWflagRedraw then
    redraw a { stage with windows := stage.windows.modify a (·.clearFlag dwmWflagRedraw) }
  else stage

/-- A window that is shown loses the flags for it. -/
def flagsCleared (a : Address) (window : ShownWindow) (stage : Stage) : Stage :=
  if Shown stage.dirty window then
    { stage with windows :=
        stage.windows.modify a (·.clearFlag (dwmWflagRefresh ||| dwmWflagRedecorate)) }
  else stage

mutual

/-- `dwm_render_window_recursive`. -/
def renderWindow (redraw : Address → Stage → Stage) :
    Nat → Stage → Address → Option (List Visit × Stage)
  | 0, _, _ => none
  | fuel + 1, stage, a => do
      let window ← stage.windows.find a
      let stage := redrawn redraw a window stage
      let window ← stage.windows.find a
      let uploads ← windowUploads stage window
      let (visits, after) ←
        renderChildren redraw fuel (flagsCleared a window stage) a window.children.head?
      return (⟨stage, window, uploads⟩ :: visits, after)

/-- The loop over the children of window `a`, from one of them on. -/
def renderChildren (redraw : Address → Stage → Stage) :
    Nat → Stage → Address → Option Address → Option (List Visit × Stage)
  | 0, _, _, _ => none
  | _ + 1, stage, _, none => some ([], stage)
  | fuel + 1, stage, a, some child => do
      let (visits, stage) ← renderWindow redraw fuel stage child
      let (more, stage) ← renderChildren redraw fuel stage a (nextChild stage.windows a child)
      return (visits ++ more, stage)

end

/-! ## Uploads that stay on the screen -/

namespace ShownWindow

variable (window : ShownWindow)

/-- The place of the frame buffer on the screen. -/
def bufferBox : Box where
  left := window.clientX
  top := window.clientY
  right := window.clientX + window.bufferW.toNat
  bottom := window.clientY + window.bufferH.toNat

/-- The index of the pixel that belongs to a point of the screen. -/
def wordAt (x y : Int) : Int :=
  (y - window.clientY) * window.bufferW.toNat + (x - window.clientX)

/-- The frame buffer has memory for its pixels up to those in `b`. -/
def Readable (b : Box) : Prop := window.wordAt (b.right - 1) (b.bottom - 1) < window.frameWords

instance (b : Box) : Decidable (window.Readable b) := inferInstanceAs (Decidable (_ < _))

end ShownWindow

/-- The copy takes the pixel of a point on the screen to that point. -/
def GoodCopy (displayW displayH : UInt16) (window : ShownWindow) (copy : Copy) : Prop :=
  (0 ≤ copy.src ∧ copy.src < window.frameWords) ∧
    ∃ sx sy, (displayBox displayW.toNat displayH.toNat).Contains sx sy ∧
      copy.dest = sy * displayW.toNat + sx ∧
      window.bufferBox.Contains sx sy ∧ copy.src = window.wordAt sx sy

def UploadCall.Good (displayW displayH : UInt16) (call : UploadCall) : Prop :=
  ∀ copy ∈ call.copies displayW, GoodCopy displayW displayH call.window copy

/-- What `clip` and the frame buffer share begins where `clip` does, is on the screen and has
memory. -/
structure FitsShared (displayW displayH : UInt16) (window : ShownWindow) (clip : Box) :
    Prop where
  left : window.clientX ≤ clip.left
  top : window.clientY ≤ clip.top
  within : (clip.inter window.bufferBox).Within (displayBox displayW.toNat displayH.toNat)
  readable : window.Readable (clip.inter window.bufferBox)

/-- An upload of `clip` stays in the frame buffer and on the screen. -/
def Fits (displayW displayH : UInt16) (window : ShownWindow) (clip : Box) : Prop :=
  (clip.inter window.bufferBox).Proper → FitsShared displayW displayH window clip

variable {displayW displayH : UInt16} {window : ShownWindow} {call : UploadCall} {copy : Copy}
variable {a b r clip : Rect} {dirty : List Rect} {stage stage' : Stage}

/-- What `clip` and the frame buffer share. -/
def UploadCall.shared (call : UploadCall) : Box := call.clip.box.inter call.window.bufferBox

theorem clampAxis_eq (clip size clientStart buffer : Int) :
    clampAxis clip size clientStart buffer =
      (max clip clientStart - clientStart,
        min (clip + size) (clientStart + buffer) - max clip clientStart) := by
  unfold clampAxis
  ext <;> simp only <;> split_ifs <;> omega

theorem axisX_eq : call.axisX =
    (call.shared.left - call.window.clientX, call.shared.right - call.shared.left) :=
  clampAxis_eq _ _ _ _

theorem axisY_eq : call.axisY =
    (call.shared.top - call.window.clientY, call.shared.bottom - call.shared.top) :=
  clampAxis_eq _ _ _ _

/-- There is a copy for every point of the box; where it goes is counted from the corner of
`clip`. -/
theorem mem_copies : copy ∈ call.copies displayW ↔
    ∃ x y, call.shared.Contains x y ∧ copy.src = call.window.wordAt x y ∧
      copy.dest = ((call.clip.y + (y - call.shared.top)) * displayW.toNat + call.clip.x) %
        2 ^ 32 + (x - call.shared.left) := by
  obtain ⟨src, dest⟩ := copy
  unfold UploadCall.copies
  simp only [axisX_eq, axisY_eq, Box.Contains, ShownWindow.wordAt]
  split
  · next hempty =>
    simp only [List.not_mem_nil, false_iff]
    rintro ⟨x, y, ⟨_, _, _, _⟩, _⟩
    omega
  · simp only [List.mem_flatMap, List.mem_map, List.mem_range, Copy.mk.injEq]
    constructor
    · rintro ⟨i, hi, j, hj, rfl, rfl⟩
      refine ⟨call.shared.left + j, call.shared.top + i, by omega, ?_, ?_⟩
      · ring
      · simp
    · rintro ⟨x, y, hshared, rfl, rfl⟩
      refine ⟨(y - call.shared.top).toNat, by omega, (x - call.shared.left).toNat, by omega,
        ?_, ?_⟩
      · rw [Int.toNat_of_nonneg (by omega), Int.toNat_of_nonneg (by omega)]
        ring
      · rw [Int.toNat_of_nonneg (by omega), Int.toNat_of_nonneg (by omega)]

theorem shared_within : call.shared.Within call.window.bufferBox := Box.inter_within_right _ _

theorem clip_le_shared (call : UploadCall) :
    call.clip.x ≤ call.shared.left ∧ call.clip.y ≤ call.shared.top := by
  simp [UploadCall.shared, Box.inter, Rect.box]

theorem client_nonneg (window : ShownWindow) : 0 ≤ window.clientX ∧ 0 ≤ window.clientY := by
  unfold ShownWindow.clientX ShownWindow.clientY
  omega

/-- The indices of the screen fit in an `uint32_t`. -/
theorem index_lt {x y : Int}
    (h : (displayBox displayW.toNat displayH.toNat).Contains x y) :
    y * displayW.toNat + x < 2 ^ 32 := by
  obtain ⟨hleft, hright, htop, hbottom⟩ := h
  simp only [displayBox] at *
  have hw := displayW.toNat_lt
  have hh := displayH.toNat_lt
  calc y * displayW.toNat + x ≤ 65535 * 65535 + 65535 := by
        have hmul : y * displayW.toNat ≤ 65535 * 65535 :=
          Int.mul_le_mul (by omega) (by omega) (by omega) (by omega)
        omega
    _ < 2 ^ 32 := by decide

theorem goodCopy_point {x y : Int} (h : GoodCopy displayW displayH window copy)
    (hbuffer : window.bufferBox.Contains x y) (hsrc : copy.src = window.wordAt x y) :
    (displayBox displayW.toNat displayH.toNat).Contains x y ∧
      copy.dest = y * displayW.toNat + x := by
  obtain ⟨-, sx, sy, hscreen, hdest, hcontains, hword⟩ := h
  have hsame : x - window.clientX = sx - window.clientX ∧
      y - window.clientY = sy - window.clientY := by
    obtain ⟨hleft, hright, _, _⟩ := hbuffer
    obtain ⟨hleft', hright', _, _⟩ := hcontains
    simp only [ShownWindow.bufferBox] at *
    exact index_inj (by omega) (by omega) (by omega) (by omega) (hsrc.symm.trans hword)
  obtain rfl : x = sx := by omega
  obtain rfl : y = sy := by omega
  exact ⟨hscreen, hdest⟩

/-- The pixel at a point is in the memory, if the last one of a box is. -/
theorem wordAt_lt {b : Box} {x y : Int} (h : window.Readable b) (hb : b.Contains x y) :
    window.wordAt x y < window.frameWords := by
  obtain ⟨hleft, hright, htop, hbottom⟩ := hb
  apply Int.lt_of_le_of_lt _ h
  exact index_le (by omega) (by omega) (by omega)

/-- The copies of the first and the last pixel show that an upload fits. -/
theorem fits_of_good (hx : 0 ≤ call.clip.x) (hy : 0 ≤ call.clip.y)
    (hgood : call.Good displayW displayH) :
    Fits displayW displayH call.window call.clip.box := by
  intro hproper
  have hproperX : call.shared.left < call.shared.right := hproper.1
  have hproperY : call.shared.top < call.shared.bottom := hproper.2
  have hfirst : call.shared.Contains call.shared.left call.shared.top :=
    ⟨by omega, by omega, by omega, by omega⟩
  have hlast : call.shared.Contains (call.shared.right - 1) (call.shared.bottom - 1) :=
    ⟨by omega, by omega, by omega, by omega⟩
  have hgoodFirst := hgood ⟨_, _⟩ (mem_copies.mpr ⟨_, _, hfirst, rfl, rfl⟩)
  have hgoodLast := hgood ⟨_, _⟩ (mem_copies.mpr ⟨_, _, hlast, rfl, rfl⟩)
  obtain ⟨hscreen, hdest⟩ := goodCopy_point hgoodFirst (hfirst.mono shared_within) rfl
  obtain ⟨⟨_, hright, _, hbottom⟩, -⟩ :=
    goodCopy_point hgoodLast (hlast.mono shared_within) rfl
  have hindex := index_lt hscreen
  obtain ⟨hleft, hfirstRight, htop, _⟩ := hscreen
  simp only [displayBox] at hright hbottom hleft hfirstRight htop
  obtain ⟨hclipX, hclipY⟩ := clip_le_shared call
  have hle : call.clip.y * (displayW.toNat : Int) + call.clip.x ≤ _ :=
    index_le (by omega) hclipX hclipY
  have hnonneg : 0 ≤ call.clip.y * (displayW.toNat : Int) := Int.mul_nonneg hy (by omega)
  -- the row of `clip` does not wrap, so that its corner is the first pixel
  rw [Int.sub_self, Int.sub_self, Int.add_zero, Int.add_zero,
    Int.emod_eq_of_lt (by omega) (by omega)] at hdest
  obtain ⟨hcornerX, hcornerY⟩ := index_inj hx (by omega) hleft hfirstRight hdest
  have hbufferX : call.window.clientX ≤ call.shared.left := shared_within.left
  have hbufferY : call.window.clientY ≤ call.shared.top := shared_within.top
  constructor
  · exact hbufferX.trans_eq hcornerX.symm
  · exact hbufferY.trans_eq hcornerY.symm
  · exact ⟨hleft, htop, by simp only [displayBox]; change call.shared.right ≤ _; omega,
      by simp only [displayBox]; change call.shared.bottom ≤ _; omega⟩
  · exact hgoodLast.1.2

theorem good_of_fits (hfits : Fits displayW displayH call.window call.clip.box) :
    call.Good displayW displayH := by
  intro copy hcopy
  obtain ⟨x, y, hpoint, hsrc, hdest⟩ := mem_copies.mp hcopy
  obtain ⟨hleft, htop, hwithin, hreadable⟩ := hfits hpoint.proper
  have hcornerX : call.shared.left = call.clip.x := max_eq_left hleft
  have hcornerY : call.shared.top = call.clip.y := max_eq_left htop
  have hscreen := hpoint.mono hwithin
  have hbuffer := hpoint.mono shared_within
  have hindex := index_lt hscreen
  refine ⟨⟨?_, hsrc ▸ wordAt_lt hreadable hpoint⟩, x, y, hscreen, ?_, hbuffer, hsrc⟩
  · obtain ⟨hbufferX, _, hbufferY, _⟩ := hbuffer
    simp only [ShownWindow.bufferBox] at hbufferX hbufferY
    rw [hsrc]
    exact Int.add_nonneg (Int.mul_nonneg (by omega) (by omega)) (by omega)
  · obtain ⟨hclientX, hclientY⟩ := client_nonneg call.window
    obtain ⟨hpointX, _, hpointY, _⟩ := hpoint
    have hclip : 0 ≤ call.clip.x := hclientX.trans hleft
    have hrow : call.clip.y + (y - call.shared.top) = y := by omega
    have hnonneg : 0 ≤ y * (displayW.toNat : Int) :=
      Int.mul_nonneg (hscreen.2.2.1) (by omega)
    rw [hdest, hrow, Int.emod_eq_of_lt (by omega) (by omega), hcornerX]
    omega

theorem good_iff (call : UploadCall) (hx : 0 ≤ call.clip.x) (hy : 0 ≤ call.clip.y) :
    call.Good displayW displayH ↔ Fits displayW displayH call.window call.clip.box :=
  ⟨fits_of_good hx hy, good_of_fits⟩

/-! ## Windows that are rendered -/

/-- The rectangles are on the screen. -/
def OnScreen (displayW displayH : UInt16) (dirty : List Rect) : Prop :=
  ∀ r ∈ dirty, r.box.Within (displayBox displayW.toNat displayH.toNat)

/-- What `b` and the frame buffer share has memory. -/
def Held (window : ShownWindow) (b : Box) : Prop :=
  (b.inter window.bufferBox).Proper → window.Readable (b.inter window.bufferBox)

/-- The dirty parts of the client area have memory. Where there are none, a refresh is for a
client area that fits. -/
structure RootFits (displayW displayH : UInt16) (dirty : List Rect) (window : ShownWindow) :
    Prop where
  held : ∀ r ∈ dirty, Held window (r.box.inter window.client.box)
  refresh : window.hasFlag dwmWflagRefresh →
    (∀ r ∈ dirty, ¬(r.box.inter window.client.box).Proper) →
    Fits displayW displayH window window.client.box

/-- The visible part of a child fits the window at the root. -/
def ChildFits (displayW displayH : UInt16) (windows : Windows) (window : ShownWindow)
    (parent : Address) : Prop :=
  ∀ root area surface, childParts windows window parent = some (root, area, surface) →
    Fits displayW displayH root (area.box.inter surface.box)

def VisitFits (displayW displayH : UInt16) (stage : Stage) (window : ShownWindow) : Prop :=
  Shown stage.dirty window →
    match window.parent with
    | none => RootFits displayW displayH stage.dirty window
    | some parent => ChildFits displayW displayH stage.windows window parent

theorem getRectIntersection_eq : getRectIntersection a b =
    if (a.box.inter b.box).Proper then .ofBox (a.box.inter b.box) else ⟨a.x, a.y, 0, 0⟩ := by
  have hleft : (if a.x > b.x then a.x else b.x) = max a.x b.x := by omega
  have htop : (if a.y > b.y then a.y else b.y) = max a.y b.y := by omega
  have hright : (if a.x + a.w < b.x + b.w then a.x + a.w else b.x + b.w) =
      min (a.x + a.w) (b.x + b.w) := by omega
  have hbottom : (if a.y + a.h < b.y + b.h then a.y + a.h else b.y + b.h) =
      min (a.y + a.h) (b.y + b.h) := by omega
  unfold getRectIntersection
  simp only [hleft, htop, hright, hbottom]
  rfl

theorem uploadShared_eq : uploadShared window a b =
    if (a.box.inter b.box).Proper then [⟨window, .ofBox (a.box.inter b.box)⟩] else [] := by
  unfold uploadShared
  simp only [getRectIntersection_eq]
  split
  · next hproper =>
    apply if_pos
    exact ⟨Int.sub_pos.mpr hproper.1, Int.sub_pos.mpr hproper.2⟩
  · simp

theorem fits_of_not_proper {clip : Box} (h : ¬clip.Proper) :
    Fits displayW displayH window clip := by
  intro hproper
  obtain ⟨x, y, hpoint⟩ := Box.proper_iff.mp hproper
  exact absurd (hpoint.mono (Box.inter_within_left _ _)).proper h

theorem uploadShared_good_iff (hx : 0 ≤ b.x) (hy : 0 ≤ b.y) :
    (∀ call ∈ uploadShared window a b, call.Good displayW displayH) ↔
      Fits displayW displayH window (a.box.inter b.box) := by
  rw [uploadShared_eq]
  split
  · have hleft : 0 ≤ (a.box.inter b.box).left := hx.trans (le_max_right _ _)
    have htop : 0 ≤ (a.box.inter b.box).top := hy.trans (le_max_right _ _)
    simpa using good_iff ⟨window, .ofBox (a.box.inter b.box)⟩ hleft htop
  · next hempty => simp [fits_of_not_proper hempty]

theorem chunks_isEmpty : (chunks dirty window).isEmpty ↔
    ∀ r ∈ dirty, ¬(r.box.inter window.client.box).Proper := by
  simp [chunks, List.isEmpty_iff, List.flatMap_eq_nil_iff, uploadShared_eq]

/-- A dirty part of the client area begins in the frame buffer and is on the screen. -/
theorem fits_iff_held (hr : r.box.Within (displayBox displayW.toNat displayH.toNat)) :
    Fits displayW displayH window (r.box.inter window.client.box) ↔
      Held window (r.box.inter window.client.box) := by
  constructor
  · intro h hproper
    exact (h hproper).readable
  · intro h hproper
    constructor
    · exact le_max_right _ _
    · exact le_max_right _ _
    · exact ((Box.inter_within_left _ _).trans (Box.inter_within_left _ _)).trans hr
    · exact h hproper

theorem chunks_good_iff (hdirty : OnScreen displayW displayH dirty) :
    (∀ call ∈ chunks dirty window, call.Good displayW displayH) ↔
      ∀ r ∈ dirty, Held window (r.box.inter window.client.box) := by
  obtain ⟨hclientX, hclientY⟩ := client_nonneg window
  simp only [chunks, List.mem_flatMap, forall_exists_index, and_imp]
  rw [forall_comm]
  apply forall_congr'
  intro r
  rw [forall_comm]
  apply forall_congr'
  intro hr
  rw [← fits_iff_held (hdirty r hr), ← uploadShared_good_iff hclientX hclientY]

theorem held_of_not_proper {b : Box} (h : ¬b.Proper) : Held window b := by
  intro hproper
  have hfits : Fits 0 0 window b := fits_of_not_proper h
  exact (hfits hproper).readable

theorem surface_nonneg {windows : Windows} {parent : Address} {root : ShownWindow}
    {area surface : Rect} (h : childParts windows window parent = some (root, area, surface)) :
    0 ≤ surface.x ∧ 0 ≤ surface.y := by
  simp only [childParts, Option.bind_eq_bind, Option.bind_eq_some_iff, Option.pure_def,
    Option.some.injEq, Prod.mk.injEq] at h
  obtain ⟨_, _, _, _, p, _, _, _, rfl⟩ := h
  simp [ShownWindow.surface]

theorem windowUploads_good_iff {uploads : List UploadCall}
    (hdirty : OnScreen displayW displayH stage.dirty)
    (h : windowUploads stage window = some uploads) :
    (∀ call ∈ uploads, call.Good displayW displayH) ↔
      VisitFits displayW displayH stage window := by
  unfold windowUploads at h
  unfold VisitFits
  by_cases hshown : Shown stage.dirty window
  · rw [if_pos hshown] at h
    simp only [hshown, true_imp_iff]
    cases hparent : window.parent with
    | none =>
        obtain ⟨hclientX, hclientY⟩ := client_nonneg window
        simp only [hparent] at h
        split at h
        · next hwhole =>
          obtain rfl := Option.some.inj h
          have hempty := chunks_isEmpty.mp hwhole.1
          rw [List.forall_mem_singleton, good_iff _ hclientX hclientY]
          constructor
          · intro hfits
            exact ⟨fun r hr => held_of_not_proper (hempty r hr), fun _ _ => hfits⟩
          · intro hfits
            exact hfits.refresh hwhole.2 hempty
        · next hchunks =>
          obtain rfl := Option.some.inj h
          rw [chunks_good_iff hdirty]
          constructor
          · intro hheld
            exact ⟨hheld, fun hrefresh hempty =>
              absurd ⟨chunks_isEmpty.mpr hempty, hrefresh⟩ hchunks⟩
          · exact RootFits.held
    | some parent =>
        simp only [hparent] at h
        obtain ⟨⟨root, area, surface⟩, hparts, rfl⟩ := Option.map_eq_some_iff.mp h
        obtain ⟨hsurfaceX, hsurfaceY⟩ := surface_nonneg hparts
        rw [uploadShared_good_iff hsurfaceX hsurfaceY]
        simp [ChildFits, hparts]
  · rw [if_neg hshown] at h
    obtain rfl := Option.some.inj h
    simp [hshown]

/-! ## Rendering a window and its children -/

/-- A procedure leaves no dirty rectangle outside of the screen. -/
def KeepsOnScreen (displayW displayH : UInt16) (redraw : Address → Stage → Stage) : Prop :=
  ∀ a stage, OnScreen displayW displayH stage.dirty →
    OnScreen displayW displayH (redraw a stage).dirty

/-- The uploads of a visit are those of the window, and the dirty rectangles are on the
screen. -/
structure Visit.Faithful (displayW displayH : UInt16) (visit : Visit) : Prop where
  dirty : OnScreen displayW displayH visit.stage.dirty
  uploads : windowUploads visit.stage visit.window = some visit.uploads

variable {redraw : Address → Stage → Stage} {visits : List Visit}

/-- What a run of the renderer leaves. -/
def Rendered (displayW displayH : UInt16) (result : Option (List Visit × Stage)) : Prop :=
  ∀ visits stage, result = some (visits, stage) →
    (∀ visit ∈ visits, visit.Faithful displayW displayH) ∧
      OnScreen displayW displayH stage.dirty

theorem onScreen_redrawn (hredraw : KeepsOnScreen displayW displayH redraw)
    (hstage : OnScreen displayW displayH stage.dirty) (a : Address) (window : ShownWindow) :
    OnScreen displayW displayH (redrawn redraw a window stage).dirty := by
  unfold redrawn
  split
  · exact hredraw _ _ hstage
  · exact hstage

@[simp] theorem flagsCleared_dirty (a : Address) :
    (flagsCleared a window stage).dirty = stage.dirty := by
  unfold flagsCleared
  split <;> rfl

theorem rendered_renderWindow {fuel : Nat} (hredraw : KeepsOnScreen displayW displayH redraw)
    (hstage : OnScreen displayW displayH stage.dirty)
    (hchildren : ∀ after a current, OnScreen displayW displayH after.dirty →
      Rendered displayW displayH (renderChildren redraw fuel after a current)) (a : Address) :
    Rendered displayW displayH (renderWindow redraw (fuel + 1) stage a) := by
  intro visits stage' h
  simp only [renderWindow, Option.bind_eq_bind, Option.bind_eq_some_iff, Option.pure_def,
    Option.some.injEq, Prod.mk.injEq, Prod.exists] at h
  obtain ⟨window, -, drawn, -, uploads, huploads, rest, after, hrest, rfl, rfl⟩ := h
  have hdrawn := onScreen_redrawn hredraw hstage a window
  obtain ⟨hvisits, hafter⟩ := hchildren _ _ _ (by simpa using hdrawn) _ _ hrest
  refine ⟨?_, hafter⟩
  rw [List.forall_mem_cons]
  exact ⟨⟨hdrawn, huploads⟩, hvisits⟩

theorem rendered_renderChildren {fuel : Nat}
    (hwindow : ∀ stage a, OnScreen displayW displayH stage.dirty →
      Rendered displayW displayH (renderWindow redraw fuel stage a))
    (hchildren : ∀ after a current, OnScreen displayW displayH after.dirty →
      Rendered displayW displayH (renderChildren redraw fuel after a current))
    (hstage : OnScreen displayW displayH stage.dirty) (a : Address) (current : Option Address) :
    Rendered displayW displayH (renderChildren redraw (fuel + 1) stage a current) := by
  intro visits stage' h
  cases current with
  | none =>
      simp only [renderChildren, Option.some.injEq, Prod.mk.injEq] at h
      obtain ⟨rfl, rfl⟩ := h
      exact ⟨by simp, hstage⟩
  | some child =>
      simp only [renderChildren, Option.bind_eq_bind, Option.bind_eq_some_iff, Option.pure_def,
        Option.some.injEq, Prod.mk.injEq, Prod.exists] at h
      obtain ⟨first, between, hfirst, rest, after, hrest, rfl, rfl⟩ := h
      obtain ⟨hvisits, hbetween⟩ := hwindow _ _ hstage _ _ hfirst
      obtain ⟨hmore, hafter⟩ := hchildren _ _ _ hbetween _ _ hrest
      refine ⟨?_, hafter⟩
      rw [List.forall_mem_append]
      exact ⟨hvisits, hmore⟩

/-- By induction on the depth, for the windows and the rest of a list of children at once. -/
theorem rendered (hredraw : KeepsOnScreen displayW displayH redraw) (fuel : Nat) :
    (∀ stage a, OnScreen displayW displayH stage.dirty →
      Rendered displayW displayH (renderWindow redraw fuel stage a)) ∧
    ∀ after a current, OnScreen displayW displayH after.dirty →
      Rendered displayW displayH (renderChildren redraw fuel after a current) := by
  induction fuel with
  | zero => constructor <;> intros <;> intro _ _ h <;> simp [renderWindow, renderChildren] at h
  | succ fuel ih =>
      obtain ⟨hwindow, hchildren⟩ := ih
      constructor
      · intro stage a hstage
        exact rendered_renderWindow hredraw hstage hchildren a
      · intro stage a current hstage
        exact rendered_renderChildren hwindow hchildren hstage a current

/-- Every upload of a run stays in its frame buffer and on the screen, and puts every pixel
where it belongs, exactly if every window that is shown on the way fits. -/
theorem renderWindow_good_iff (hredraw : KeepsOnScreen displayW displayH redraw)
    (hstage : OnScreen displayW displayH stage.dirty) {fuel : Nat} {a : Address}
    (h : renderWindow redraw fuel stage a = some (visits, stage')) :
    (∀ visit ∈ visits, ∀ call ∈ visit.uploads, call.Good displayW displayH) ↔
      ∀ visit ∈ visits, VisitFits displayW displayH visit.stage visit.window := by
  obtain ⟨hvisits, -⟩ := (rendered hredraw fuel).1 stage a hstage _ _ h
  apply forall_congr'
  intro visit
  apply forall_congr'
  intro hvisit
  exact windowUploads_good_iff (hvisits visit hvisit).dirty (hvisits visit hvisit).uploads

/-- A new window of one pixel without borders. -/
def tinyWindow (x y : UInt16) : ShownWindow where
  address := 1
  id := 1
  style := dwmWstyleNoborders
  parent := none
  children := []
  buttons := []
  x := x
  y := y
  w := 1
  h := 1
  localX := 0
  localY := 0
  maxWidth := 0
  maxHeight := 0
  surfaceX := x
  surfaceY := y
  surfaceW := 1
  surfaceH := 1
  frameBuffer := true
  bufferW := 1
  bufferH := 1
  borderWidth := 0
  titlebarHeight := 0
  flags := 0x07
  frameWords := 1

/-- The window, and the cursor elsewhere. -/
def tinyStage (x y : UInt16) : Stage := ⟨[tinyWindow x y], [⟨320, 240, 8, 8⟩]⟩

theorem onScreen_tinyStage {x y : UInt16} : OnScreen 640 480 (tinyStage x y).dirty := by
  intro r hr
  obtain rfl := List.mem_singleton.mp hr
  constructor <;> decide

/-- A window with a title bar, and a child in it. The window sticks out of a screen of 10 times 10
pixels, all of which is dirty. -/
def nestedStage : Stage where
  windows :=
    [{ tinyWindow 4 4 with
        children := [2], w := 8, h := 8, surfaceY := 6, surfaceW := 8, surfaceH := 4
        bufferW := 8, bufferH := 6, borderWidth := 1, titlebarHeight := 2, frameWords := 48 },
      { tinyWindow 5 7 with
        address := 2, id := 2, parent := some 1, w := 4, h := 3, localX := 1, localY := 1
        bufferW := 4, bufferH := 3, frameWords := 12 }]
  dirty := [⟨0, 0, 10, 10⟩]

theorem renderWindow_good_iff_tiny :
    ∃ visits stage', renderWindow (fun _ stage => stage) 4 nestedStage 1 = some (visits, stage') ∧
      visits.map (fun visit => visit.uploads.map UploadCall.clip) =
        [[⟨4, 6, 6, 4⟩], [⟨5, 7, 4, 3⟩]] ∧
      ∀ visit ∈ visits, ∀ call ∈ visit.uploads, call.Good 10 10 := by
  have hrun : renderWindow (fun _ stage => stage) 4 nestedStage 1 = some (_, _) := rfl
  have hstage : OnScreen 10 10 nestedStage.dirty := by
    intro r hr
    obtain rfl := List.mem_singleton.mp hr
    constructor <;> decide
  refine ⟨_, _, hrun, by decide, (renderWindow_good_iff (fun _ _ h => h) hstage hrun).mpr ?_⟩
  intro visit hvisit
  simp only [List.cons_append, List.nil_append, List.mem_cons, List.not_mem_nil, or_false] at hvisit
  rcases hvisit with rfl | rfl
  · intro _
    refine ⟨fun r hr _ => ?_, fun _ hempty => ?_⟩
    · obtain rfl := List.mem_singleton.mp hr
      decide
    · exact absurd (hempty _ List.mem_cons_self) (by decide)
  · rintro - root area surface hparts -
    cases hparts
    exact ⟨by decide, by decide, by constructor <;> decide, by decide⟩

/-- A window to the right of the screen shows up at the left edge, one row below. -/
theorem renderWindow_off_screen :
    OnScreen 640 480 (tinyStage 640 0).dirty ∧
      ∃ visits stage', renderWindow (fun _ stage => stage) 2 (tinyStage 640 0) 1 =
          some (visits, stage') ∧
        ∃ visit ∈ visits, ∃ call ∈ visit.uploads, ¬call.Good 640 480 := by
  refine ⟨onScreen_tinyStage, _, _, rfl, _, List.mem_cons_self, _, List.mem_cons_self, ?_⟩
  intro hgood
  obtain ⟨-, sx, sy, ⟨_, hright, _⟩, -, ⟨hleft, _⟩, -⟩ := hgood ⟨0, 640⟩ (by decide)
  have hclient : (640 : Int) ≤ sx := hleft
  have hdisplay : sx < 640 := hright
  omega

end AvrKernel.Dwm

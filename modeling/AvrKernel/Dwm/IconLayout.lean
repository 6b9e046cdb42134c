import AvrKernel.Dwm.Desktop
import AvrKernel.Lib.Tape
import AvrKernel.Util.Strings

/-!
# The icon layout file

`dwm_layout.c`: the positions of the icons, keyed by their paths, are saved to a file and
put back from it. Any call to the file system may fail and transfers may be cut short; the
bytes that are stored are kept. Painting is left out.
-/

namespace AvrKernel.Dwm

open Bytes Util

/-! ## Icons with their texts -/

structure IconBounds where
  x : Int16
  y : Int16
  w : Int16
  h : Int16
  deriving DecidableEq

/-- The bounds that `dwm_calculate_icon_bounds` gives an icon whose name has so many
characters. -/
def dwmCalculateIconBounds (width : UInt16) (length : Nat) : IconBounds :=
  let textWidth : Int16 := .ofNat (length * 6)
  let iconTextHeight : Int16 := 45
  let textHeight : Int16 := 8
  if textWidth.toInt > width.toNat then
    ⟨.ofInt ((width.toNat - textWidth.toInt).tdiv 2), 0, textWidth, iconTextHeight + textHeight⟩
  else ⟨0, 0, width.toInt16, iconTextHeight + textHeight⟩

/-- `strlen(icon->name)`, which goes on into the path where the name has no terminator. -/
def nameLength (name : Vector UInt8 dwmMaxNameLen) (path : Vector UInt8 dwmMaxPathLen) : Nat :=
  ((name.toList ++ path.toList).takeWhile (· ≠ 0)).length

/-- An icon of the desktop. Its bounds are the calculated ones. -/
structure DesktopIcon extends IconObject where
  name : Vector UInt8 dwmMaxNameLen
  path : Vector UInt8 dwmMaxPathLen
  measured : ⟨boundsX, boundsY, boundsW, boundsH⟩ =
    dwmCalculateIconBounds width (nameLength name path)

/-- What `dwm_create_folder`, `dwm_create_mount` and `dwm_create_file` do with a new icon, and
`dwm_desktop_rename_commit` with one that there is: it gets its texts and its bounds. -/
def IconObject.label (icon : IconObject) (name : Vector UInt8 dwmMaxNameLen)
    (path : Vector UInt8 dwmMaxPathLen) : DesktopIcon :=
  let bounds := dwmCalculateIconBounds icon.width (nameLength name path)
  { icon with
    boundsX := bounds.x, boundsY := bounds.y, boundsW := bounds.w, boundsH := bounds.h
    name, path, measured := rfl }

structure DisplaySize where
  width : UInt16
  height : UInt16

namespace DesktopIcon

/-- The position that keeps an extent of the bounds on the screen. -/
def clamp (size bounds extent position : Int) : Int :=
  let position := if position + bounds < 0 then -bounds else position
  if position + bounds + extent > size then size - bounds - extent else position

/-- `layout_move_icon` -/
def layoutMoveIcon (display : DisplaySize) (x y : Int) (icon : DesktopIcon) : DesktopIcon :=
  let x := clamp display.width.toNat icon.boundsX.toInt icon.boundsW.toInt x
  let y := clamp display.height.toNat icon.boundsY.toInt icon.boundsH.toInt y
  if icon.x.toNat = x ∧ icon.y.toNat = y then icon
  else { icon with x := .ofInt x, y := .ofInt y }

end DesktopIcon

/-- `layout_find_icon` -/
def layoutFindIcon (icons : List DesktopIcon) (path : Vector UInt8 dwmMaxPathLen) : Option Nat :=
  icons.findIdx? fun icon => strncmp dwmMaxPathLen icon.path.toList path.toList = some 0

/-! ## The file -/

def desktopLayoutVersion : UInt16 := 1
def desktopLayoutMaxEntries : Nat := 1024

structure DesktopLayoutHeader where
  magic : Vector UInt8 4
  version : UInt16
  count : UInt16

/-- The coordinates are the bits of 16-bit signed integers. -/
structure DesktopLayoutEntry where
  x : UInt16
  y : UInt16
  path : Vector UInt8 dwmMaxPathLen

def DesktopLayoutHeader.layout : Layout DesktopLayoutHeader :=
  ((Layout.bytes 4).pair (Layout.u16.pair Layout.u16)).iso
    (fun fields => ⟨fields.1, fields.2.1, fields.2.2⟩)
    (fun header => (header.magic, header.version, header.count)) fun _ => rfl

def DesktopLayoutEntry.layout : Layout DesktopLayoutEntry :=
  (Layout.u16.pair (Layout.u16.pair (Layout.bytes dwmMaxPathLen))).iso
    (fun fields => ⟨fields.1, fields.2.1, fields.2.2⟩)
    (fun entry => (entry.x, entry.y, entry.path)) fun _ => rfl

/-- "ICON" -/
def desktopLayoutMagic : Vector UInt8 4 := #v[0x49, 0x43, 0x4F, 0x4E]

/-- The entry that an icon gets in the cleared buffer. -/
def DesktopIcon.layoutEntry (icon : DesktopIcon) : Option DesktopLayoutEntry :=
  (strncpy (Vector.replicate dwmMaxPathLen 0) icon.path.toList (dwmMaxPathLen - 1)).map fun path =>
    ⟨icon.x, icon.y, path.set (dwmMaxPathLen - 1) 0⟩

/-- The buffer that is saved. -/
def layoutBuffer (icons : List DesktopIcon) : Option (List UInt8) :=
  let count := min icons.length desktopLayoutMaxEntries
  ((icons.take count).mapM DesktopIcon.layoutEntry).map fun entries =>
    DesktopLayoutHeader.layout.encode ⟨desktopLayoutMagic, desktopLayoutVersion, .ofNat count⟩ ++
      entries.flatMap DesktopLayoutEntry.layout.encode

/-! ## The file system -/

/-- The files and what becomes of the calls: whether the next ones succeed and how many bytes
they move at most. -/
structure LayoutVfs where
  home : List UInt8
  files : List UInt8 → Option (List UInt8)
  directories : List UInt8 → Bool
  opened : Option (List UInt8 × Nat)
  outcome : Nat → Bool
  transfer : Nat → Nat
  calls : Nat
  heap : Nat → UInt8

namespace LayoutVfs

variable (fs : LayoutVfs)

def succeeds : Bool := fs.outcome fs.calls

def called : LayoutVfs := { fs with calls := fs.calls + 1 }

/-- A file gets a content. -/
def stored (path content : List UInt8) : LayoutVfs :=
  { fs with files := Function.update fs.files path (some content) }

def vfsMkdir (path : List UInt8) : Bool × LayoutVfs :=
  if fs.succeeds then
    (true, { fs.called with directories := Function.update fs.directories path true })
  else (false, fs.called)

/-- With `create` the file is there afterwards. -/
def vfsOpen (path : List UInt8) (create : Bool) : Bool × LayoutVfs :=
  if fs.succeeds then
    match fs.files path with
    | some _ => (true, { fs.called with opened := some (path, 0) })
    | none =>
        if create then (true, { fs.called.stored path [] with opened := some (path, 0) })
        else (false, fs.called)
  else (false, fs.called)

def vfsClose : LayoutVfs := { fs with opened := none }

def vfsTruncate (path : List UInt8) (newSize : Nat) : Bool × LayoutVfs :=
  match fs.files path with
  | none => (false, fs.called)
  | some content =>
      if fs.succeeds then
        (true, fs.called.stored path
          (content.take newSize ++ List.replicate (newSize - content.length) 0))
      else (false, fs.called)

def vfsGetSize : UInt32 :=
  match fs.opened with
  | none => 0
  | some (path, _) => .ofNat ((fs.files path).getD []).length

def vfsSeek (position : Nat) : LayoutVfs :=
  if fs.succeeds then { fs.called with opened := fs.opened.map fun file => (file.1, position) }
  else fs.called

/-- The number of bytes, or -1, and the buffer they are read into. -/
def vfsRead (buffer : List UInt8) (size : Nat) : Int × List UInt8 × LayoutVfs :=
  match fs.opened with
  | none => (-1, buffer, fs.called)
  | some (path, position) =>
      if fs.succeeds then
        let bytes := (((fs.files path).getD []).drop position).take
          (min size (fs.transfer fs.calls))
        (bytes.length, patch buffer 0 bytes,
          { fs.called with opened := some (path, position + bytes.length) })
      else (-1, buffer, fs.called)

def vfsWrite (buffer : List UInt8) : Int × LayoutVfs :=
  match fs.opened with
  | none => (-1, fs.called)
  | some (path, position) =>
      if fs.succeeds then
        let bytes := buffer.take (fs.transfer fs.calls)
        let content := (fs.files path).getD []
        (bytes.length, { fs.called.stored path (patch content position bytes) with
          opened := some (path, position + bytes.length) })
      else (-1, fs.called)

/-- A block with whatever the memory held. -/
def malloc (size : Nat) : Option (List UInt8) × LayoutVfs :=
  (if fs.succeeds then some (Tape.read fs.heap 0 size) else none, fs.called)

/-- `layout_build_path` with a buffer of 256 bytes. -/
def layoutBuildPath (suffix : List UInt8) : List UInt8 :=
  let home := fs.home.take 255
  home ++ suffix.take (255 - home.length)

/-- "/usr/icons" -/
def iconsPath : List UInt8 :=
  fs.layoutBuildPath [0x2F, 0x75, 0x73, 0x72, 0x2F, 0x69, 0x63, 0x6F, 0x6E, 0x73]

/-- "/usr" -/
def usrPath : List UInt8 := fs.layoutBuildPath [0x2F, 0x75, 0x73, 0x72]

/-- One step of the saving after the other, until one fails. -/
def andThen (first second : LayoutVfs → Bool × LayoutVfs) (fs : LayoutVfs) : Bool × LayoutVfs :=
  let result := first fs
  if result.1 then second result.2 else result

end LayoutVfs

/-! ## Saving -/

open LayoutVfs in
/-- What `dwm_desktop_layout_save` does with the file that was sized and opened. -/
def writeLayout (buffer : List UInt8) (fs : LayoutVfs) : Bool × LayoutVfs :=
  let written := (fs.vfsSeek 0).vfsWrite buffer
  let finalSize := written.2.vfsGetSize
  (decide (written.1 = buffer.length ∧ finalSize.toNat = buffer.length), written.2.vfsClose)

open LayoutVfs in
def dwmDesktopLayoutSave (icons : List DesktopIcon) (fs : LayoutVfs) : Option (Bool × LayoutVfs) :=
  if fs.home = [] then some (false, fs)
  else
    let filePath := fs.iconsPath
    let usrPath := fs.usrPath
    (layoutBuffer icons).map fun buffer =>
      (andThen (fun fs => if fs.directories usrPath then (true, fs) else fs.vfsMkdir usrPath) <|
        andThen (fun fs => ((fs.malloc buffer.length).1.isSome, (fs.malloc buffer.length).2)) <|
        andThen (fun fs => ((fs.vfsOpen filePath true).1, (fs.vfsOpen filePath true).2.vfsClose)) <|
        andThen (fun fs => fs.vfsTruncate filePath buffer.length) <|
        andThen (fun fs => fs.vfsOpen filePath false) <|
        writeLayout buffer) fs

/-! ## Loading -/

/-- One entry of the loop of `dwm_desktop_layout_load`. -/
def placeEntry (display : DisplaySize) (icons : List DesktopIcon) (entry : DesktopLayoutEntry) :
    List DesktopIcon :=
  match layoutFindIcon icons (entry.path.set (dwmMaxPathLen - 1) 0) with
  | some i =>
      icons.modify i (DesktopIcon.layoutMoveIcon display entry.x.toInt16.toInt
        entry.y.toInt16.toInt)
  | none => icons

/-- The entry at an index of the buffer. -/
def entryAt (buffer : List UInt8) (i : Nat) : DesktopLayoutEntry :=
  DesktopLayoutEntry.layout.decode
    (buffer.drop (DesktopLayoutHeader.layout.size + i * DesktopLayoutEntry.layout.size))

/-- What `dwm_desktop_layout_load` does with the bytes of the file. -/
def placeEntries (display : DisplaySize) (icons : List DesktopIcon) (buffer : List UInt8)
    (count : Nat) : List DesktopIcon :=
  ((List.range count).map (entryAt buffer)).foldl (placeEntry display) icons

/-- Whether the header fits the format and the size of the file. -/
def DesktopLayoutHeader.Accepted (header : DesktopLayoutHeader) (fileSize : Nat) : Prop :=
  header.magic = desktopLayoutMagic ∧ header.version = desktopLayoutVersion ∧
    header.count.toNat ≤ desktopLayoutMaxEntries ∧
    DesktopLayoutHeader.layout.size + header.count.toNat * DesktopLayoutEntry.layout.size ≤
      fileSize

instance (header : DesktopLayoutHeader) (fileSize : Nat) : Decidable (header.Accepted fileSize) :=
  inferInstanceAs (Decidable (_ ∧ _ ∧ _ ∧ _))

open LayoutVfs in
/-- `dwm_desktop_layout_load`, once the file is open. -/
def readLayout (display : DisplaySize) (icons : List DesktopIcon) (fs : LayoutVfs) :
    Bool × List DesktopIcon × LayoutVfs :=
  let fileSize := fs.vfsGetSize
  if fileSize.toNat < DesktopLayoutHeader.layout.size then (false, icons, fs.vfsClose)
  else
    match fs.malloc fileSize.toNat with
    | (none, fs) => (false, icons, fs.vfsClose)
    | (some block, fs) =>
        let (bytesRead, buffer, fs) := fs.vfsRead block fileSize.toNat
        let header := DesktopLayoutHeader.layout.decode buffer
        if bytesRead = fileSize.toInt32.toInt ∧ header.Accepted fileSize.toNat then
          (true, placeEntries display icons buffer header.count.toNat, fs.vfsClose)
        else (false, icons, fs.vfsClose)

open LayoutVfs in
def dwmDesktopLayoutLoad (display : DisplaySize) (icons : List DesktopIcon) (fs : LayoutVfs) :
    Bool × List DesktopIcon × LayoutVfs :=
  if fs.home = [] ∨ (fs.files fs.iconsPath).isNone then (false, icons, fs)
  else
    let file := fs.vfsOpen fs.iconsPath false
    if file.1 then readLayout display icons file.2 else (false, icons, file.2)

/-! ## Paths -/

namespace DesktopIcon

variable {icon icon' : DesktopIcon} {display : DisplaySize}

/-- The path is shorter than its buffer. -/
def Terminated (icon : DesktopIcon) : Prop := 0 ∈ icon.path.toList

/-- The path as a string. -/
def pathString (icon : DesktopIcon) : List UInt8 := cstring icon.path

theorem pathString_nonzero (icon : DesktopIcon) : ∀ c ∈ icon.pathString, c ≠ 0 := by
  intro c hc
  simpa using List.mem_takeWhile_imp hc

theorem Terminated.path_eq (h : icon.Terminated) :
    ∃ rest, icon.path.toList = icon.pathString ++ 0 :: rest := by
  obtain ⟨str, rest, hpath, hnot⟩ := List.eq_append_cons_of_mem h
  have hstr : ∀ c ∈ str, c ≠ 0 := fun c hc hzero => hnot (hzero ▸ hc)
  have hstring : icon.pathString = str := cstring_eq hstr hpath
  exact ⟨rest, hstring ▸ hpath⟩

theorem Terminated.length_lt (h : icon.Terminated) : icon.pathString.length < dwmMaxPathLen := by
  obtain ⟨rest, hrest⟩ := h.path_eq
  have hlength := icon.path.length_toList
  rw [hrest, List.length_append, List.length_cons] at hlength
  omega

theorem strncmp_path (h : icon.Terminated) {path : Vector UInt8 dwmMaxPathLen}
    {str rest : List UInt8} (hstr : ∀ c ∈ str, c ≠ 0) (hpath : path.toList = str ++ 0 :: rest) :
    strncmp dwmMaxPathLen icon.path.toList path.toList = some 0 ↔ icon.pathString = str := by
  obtain ⟨rest', hrest⟩ := h.path_eq
  rw [hrest, hpath]
  exact strncmp_eq_zero_iff rest' rest icon.pathString_nonzero hstr h.length_lt

/-! ## Entries -/

/-- The entry of an icon. -/
structure SavedAs (icon : DesktopIcon) (entry : DesktopLayoutEntry) : Prop where
  x : entry.x = icon.x
  y : entry.y = icon.y
  path : ∃ rest, (entry.path.set (dwmMaxPathLen - 1) 0 (by decide)).toList =
    icon.pathString ++ 0 :: rest

theorem Terminated.savedAs (h : icon.Terminated) {entry : DesktopLayoutEntry}
    (hentry : icon.layoutEntry = some entry) : icon.SavedAs entry := by
  obtain ⟨rest, hrest⟩ := h.path_eq
  have hlt := h.length_lt
  have hle : icon.pathString.length ≤ dwmMaxPathLen - 1 := Nat.le_pred_of_lt hlt
  obtain ⟨copied, hcopy, hcopied⟩ := strncpy_within (Vector.replicate dwmMaxPathLen 0) rest
    icon.pathString_nonzero (show dwmMaxPathLen - 1 ≤ dwmMaxPathLen by decide)
  rw [layoutEntry, hrest, hcopy, Option.map_some, Option.some.injEq] at hentry
  rw [← hentry]
  have hbytes : copied.toList =
      icon.pathString ++ List.replicate (dwmMaxPathLen - icon.pathString.length) 0 := by
    rw [hcopied, List.take_of_length_le hle, Vector.toList_replicate,
      List.drop_replicate, List.append_assoc, List.replicate_append_replicate]
    congr 2
    omega
  have hset : ((copied.set (dwmMaxPathLen - 1) 0).set (dwmMaxPathLen - 1) 0).toList =
      copied.toList := by
    rw [Vector.toList_set, Vector.toList_set, hbytes]
    rw [List.set_append_right _ _ hle, List.set_replicate_self, List.set_append_right _ _ hle,
      List.set_replicate_self]
  refine ⟨rfl, rfl, List.replicate (dwmMaxPathLen - icon.pathString.length - 1) 0, ?_⟩
  rw [hset, hbytes, ← List.replicate_succ]
  congr 2
  omega

/-! ## Positions -/

/-- Both ends of an extent of the bounds are on the screen. -/
def Within (size position bounds extent : Int) : Prop :=
  0 ≤ position + bounds ∧ position + bounds ≤ size ∧
    0 ≤ position + bounds + extent ∧ position + bounds + extent ≤ size

/-- The bounds lie on the screen. -/
def OnScreen (icon : DesktopIcon) (display : DisplaySize) : Prop :=
  Within display.width.toNat icon.x.toNat icon.boundsX.toInt icon.boundsW.toInt ∧
    Within display.height.toNat icon.y.toNat icon.boundsY.toInt icon.boundsH.toInt

theorem clamp_within {size position bounds extent : Int}
    (h : Within size position bounds extent) : clamp size bounds extent position = position := by
  obtain ⟨hlo, -, -, hhi⟩ := h
  rw [clamp, if_neg (by omega), if_neg (by omega)]

/-- The bounds start left of the icon, and end right of where it starts. -/
theorem bounds_reach (icon : DesktopIcon) :
    (icon.boundsX.toInt = 0 ∨ 0 ≤ icon.boundsX.toInt + icon.boundsW.toInt) ∧
      icon.boundsY.toInt = 0 := by
  have hmeasured := icon.measured
  rw [dwmCalculateIconBounds] at hmeasured
  split at hmeasured
  next hwide =>
    obtain ⟨hx, hy, hw, hh⟩ := IconBounds.mk.inj hmeasured
    have hlt := icon.boundsW.toInt_lt
    rw [← hw] at hwide hx
    have hhalf : ((icon.width.toNat : Int) - icon.boundsW.toInt).tdiv 2 =
        -((icon.boundsW.toInt - icon.width.toNat) / 2) := by
      rw [← Int.neg_sub, Int.neg_tdiv, Int.tdiv_eq_ediv_of_nonneg (by omega)]
    rw [hx, hy, hhalf, Int16.toInt_ofInt_of_le (by omega) (by omega)]
    exact ⟨.inr (by omega), rfl⟩
  next hnarrow =>
    obtain ⟨hx, hy, hw, hh⟩ := IconBounds.mk.inj hmeasured
    rw [hx, hy]
    exact ⟨.inl rfl, rfl⟩

/-- On a screen of less than 2^15 pixels the coordinates are no negative 16-bit integers. -/
theorem OnScreen.position_lt (h : icon.OnScreen display) (hwidth : display.width.toNat < 2 ^ 15)
    (hheight : display.height.toNat < 2 ^ 15) :
    icon.x.toNat < 2 ^ 15 ∧ icon.y.toNat < 2 ^ 15 := by
  obtain ⟨⟨-, hleft, -, hright⟩, -, htop, -, -⟩ := h
  obtain ⟨hx | hx, hy⟩ := icon.bounds_reach
  · omega
  · omega

theorem toInt_toInt16 {value : UInt16} (h : value.toNat < 2 ^ 15) :
    value.toInt16.toInt = value.toNat := by
  change value.toBitVec.toInt = value.toBitVec.toNat
  apply BitVec.toInt_eq_toNat_of_lt
  change 2 * value.toNat < 2 ^ 16
  omega

theorem ofInt_toNat (value : UInt16) : UInt16.ofInt value.toNat = value := by
  apply UInt16.toNat_inj.mp
  have hlt := value.toNat_lt
  rw [UInt16.ofInt, UInt16.toNat_ofNat']
  omega

theorem layoutMoveIcon_path (display : DisplaySize) (x y : Int) (icon : DesktopIcon) :
    (icon.layoutMoveIcon display x y).path = icon.path := by
  rw [layoutMoveIcon]
  split
  · rfl
  · rfl

/-- An icon gets a position that keeps its bounds on the screen. -/
theorem layoutMoveIcon_same (hscreen : icon.OnScreen display)
    (hbounds : icon'.boundsX = icon.boundsX ∧ icon'.boundsY = icon.boundsY ∧
      icon'.boundsW = icon.boundsW ∧ icon'.boundsH = icon.boundsH) :
    (icon'.layoutMoveIcon display icon.x.toNat icon.y.toNat).x = icon.x ∧
      (icon'.layoutMoveIcon display icon.x.toNat icon.y.toNat).y = icon.y := by
  obtain ⟨hx, hy, hw, hh⟩ := hbounds
  have hclampX : clamp display.width.toNat icon'.boundsX.toInt icon'.boundsW.toInt icon.x.toNat =
      icon.x.toNat := by
    rw [hx, hw]
    exact clamp_within hscreen.1
  have hclampY : clamp display.height.toNat icon'.boundsY.toInt icon'.boundsH.toInt icon.y.toNat =
      icon.y.toNat := by
    rw [hy, hh]
    exact clamp_within hscreen.2
  rw [layoutMoveIcon, hclampX, hclampY]
  split
  next hsame => exact ⟨UInt16.toNat_inj.mp (by omega), UInt16.toNat_inj.mp (by omega)⟩
  next => exact ⟨ofInt_toNat icon.x, ofInt_toNat icon.y⟩

/-! ## Placing -/

/-- What one entry does to an icon. -/
def movedTo (display : DisplaySize) (source icon : DesktopIcon) : DesktopIcon :=
  if icon.pathString = source.pathString then
    icon.layoutMoveIcon display source.x.toNat source.y.toNat
  else icon

/-- What all entries do to an icon. -/
def restored (display : DisplaySize) (saved : List DesktopIcon) (icon : DesktopIcon) :
    DesktopIcon :=
  match saved.find? (·.pathString = icon.pathString) with
  | some source => icon.layoutMoveIcon display source.x.toNat source.y.toNat
  | none => icon

theorem movedTo_path (display : DisplaySize) (source icon : DesktopIcon) :
    (movedTo display source icon).path = icon.path := by
  rw [movedTo]
  split
  · exact layoutMoveIcon_path display _ _ icon
  · rfl

theorem movedTo_pathString (display : DisplaySize) (source icon : DesktopIcon) :
    (movedTo display source icon).pathString = icon.pathString := by
  rw [pathString, movedTo_path]
  rfl

theorem restored_of_not_mem {saved : List DesktopIcon}
    (h : icon.pathString ∉ saved.map pathString) : restored display saved icon = icon := by
  have hnone : saved.find? (·.pathString = icon.pathString) = none := by
    apply List.find?_eq_none.mpr
    intro source hsource
    rw [decide_eq_true_iff]
    exact fun heq => h (List.mem_map.mpr ⟨source, hsource, heq⟩)
  rw [restored, hnone]

theorem restored_cons {source : DesktopIcon} {saved : List DesktopIcon}
    (hnew : source.pathString ∉ saved.map pathString) (icon : DesktopIcon) :
    restored display saved (movedTo display source icon) =
      restored display (source :: saved) icon := by
  by_cases hsame : icon.pathString = source.pathString
  · have hnot : (movedTo display source icon).pathString ∉ saved.map pathString := by
      rw [movedTo_pathString, hsame]
      exact hnew
    rw [restored_of_not_mem hnot, movedTo, if_pos hsame, restored,
      List.find?_cons_of_pos (by simpa using hsame.symm)]
  · have hother : source.pathString ≠ icon.pathString := fun heq => hsame heq.symm
    rw [movedTo, if_neg hsame, restored, restored, List.find?_cons_of_neg (by simpa using hother)]

theorem restored_of_mem {saved : List DesktopIcon} {source : DesktopIcon}
    (hdistinct : (saved.map pathString).Nodup) (hsource : source ∈ saved)
    (hsame : source.pathString = icon.pathString) :
    restored display saved icon = icon.layoutMoveIcon display source.x.toNat source.y.toNat := by
  rw [restored]
  cases hfind : saved.find? (·.pathString = icon.pathString) with
  | none =>
      have hnone := List.find?_eq_none.mp hfind source hsource
      rw [decide_eq_true_iff] at hnone
      exact absurd hsame hnone
  | some found =>
      have hfound : found.pathString = icon.pathString := by
        simpa using List.find?_some hfind
      have heq := List.inj_on_of_nodup_map hdistinct (List.mem_of_find?_eq_some hfind) hsource
        (hfound.trans hsame.symm)
      rw [heq]

end DesktopIcon

open DesktopIcon

variable {display : DisplaySize}

/-- Where at most one element is found, changing the found one is changing each one that is. -/
theorem modify_findIdx? {α : Type} (found : α → Bool) (f : α → α) {l : List α}
    (hunique : l.Pairwise fun a b => ¬(found a = true ∧ found b = true)) :
    (match l.findIdx? found with | some i => l.modify i f | none => l) =
      l.map fun a => if found a then f a else a := by
  induction l with
  | nil => rfl
  | cons a l ih =>
      obtain ⟨hhead, htail⟩ := List.pairwise_cons.mp hunique
      rw [List.findIdx?_cons, List.map_cons]
      by_cases ha : found a = true
      · have hrest : l.map (fun b => if found b then f b else b) = l := by
          rw [List.map_congr_left (g := id), List.map_id]
          intro b hb
          exact if_neg fun hfound => hhead b hb ⟨ha, hfound⟩
        rw [if_pos ha, if_pos ha, hrest]
        rfl
      · rw [if_neg ha, if_neg ha, ← ih htail]
        cases l.findIdx? found with
        | none => rfl
        | some i => rfl

theorem placeEntry_eq {icons : List DesktopIcon} {source : DesktopIcon}
    {entry : DesktopLayoutEntry} (hentry : source.SavedAs entry)
    (hsource : source.x.toNat < 2 ^ 15 ∧ source.y.toNat < 2 ^ 15)
    (hterm : ∀ icon ∈ icons, icon.Terminated) (hnodup : (icons.map pathString).Nodup) :
    placeEntry display icons entry = icons.map (movedTo display source) := by
  obtain ⟨rest, hpath⟩ := hentry.path
  have hfound : ∀ icon ∈ icons,
      (strncmp dwmMaxPathLen icon.path.toList
        (entry.path.set (dwmMaxPathLen - 1) 0 (by decide)).toList = some 0 ↔
          icon.pathString = source.pathString) :=
    fun icon hicon => strncmp_path (hterm icon hicon) source.pathString_nonzero hpath
  have hunique : icons.Pairwise fun a b =>
      ¬(decide (strncmp dwmMaxPathLen a.path.toList
          (entry.path.set (dwmMaxPathLen - 1) 0 (by decide)).toList = some 0) = true ∧
        decide (strncmp dwmMaxPathLen b.path.toList
          (entry.path.set (dwmMaxPathLen - 1) 0 (by decide)).toList = some 0) = true) := by
    refine (List.pairwise_map.mp hnodup).imp_of_mem fun ha hb hne hboth => hne ?_
    exact ((hfound _ ha).mp (of_decide_eq_true hboth.1)).trans
      ((hfound _ hb).mp (of_decide_eq_true hboth.2)).symm
  rw [placeEntry, layoutFindIcon]
  refine (modify_findIdx? _ _ hunique).trans ?_
  apply List.map_congr_left
  intro icon hicon
  rw [movedTo, hentry.x, hentry.y, toInt_toInt16 hsource.1, toInt_toInt16 hsource.2]
  simp only [decide_eq_true_eq, hfound icon hicon]

theorem foldl_placeEntry {saved icons : List DesktopIcon} {entries : List DesktopLayoutEntry}
    (hentries : List.Forall₂ SavedAs saved entries)
    (hsaved : ∀ source ∈ saved, source.x.toNat < 2 ^ 15 ∧ source.y.toNat < 2 ^ 15)
    (hdistinct : (saved.map pathString).Nodup) (hterm : ∀ icon ∈ icons, icon.Terminated)
    (hnodup : (icons.map pathString).Nodup) :
    entries.foldl (placeEntry display) icons = icons.map (restored display saved) := by
  induction hentries generalizing icons with
  | nil =>
      have hid : ∀ icon ∈ icons, restored display [] icon = id icon := fun _ _ => rfl
      rw [List.map_congr_left hid, List.map_id]
      rfl
  | @cons source entry saved entries hentry _ ih =>
      rw [List.map_cons, List.nodup_cons] at hdistinct
      rw [List.foldl_cons, placeEntry_eq hentry (hsaved source List.mem_cons_self) hterm hnodup,
        ih (fun other hother => hsaved other (List.mem_cons_of_mem _ hother)) hdistinct.2,
        List.map_map]
      · exact List.map_congr_left fun icon _ => restored_cons hdistinct.1 icon
      · intro moved hmoved
        obtain ⟨icon, hicon, rfl⟩ := List.mem_map.mp hmoved
        rw [Terminated, movedTo_path]
        exact hterm icon hicon
      · have hsame : ∀ icon ∈ icons, (pathString ∘ movedTo display source) icon = icon.pathString :=
          fun icon _ => movedTo_pathString display source icon
        rw [List.map_map, List.map_congr_left hsame]
        exact hnodup

/-! ## The buffer -/

theorem mapM_forall₂ {α β : Type} {f : α → Option β} {l : List α} {l' : List β}
    (h : l.mapM f = some l') : List.Forall₂ (fun a b => f a = some b) l l' := by
  induction l generalizing l' with
  | nil =>
      cases h
      exact .nil
  | cons a l ih =>
      simp only [List.mapM_cons, Option.pure_def, Option.bind_eq_bind, Option.bind_eq_some_iff,
        Option.some.injEq] at h
      obtain ⟨b, hhead, bs, htail, rfl⟩ := h
      exact .cons hhead (ih htail)

theorem layoutBuffer_eq {icons : List DesktopIcon} {buffer : List UInt8}
    (h : layoutBuffer icons = some buffer) (hcount : icons.length ≤ desktopLayoutMaxEntries) :
    ∃ entries, List.Forall₂ (fun icon entry => icon.layoutEntry = some entry) icons entries ∧
      buffer = DesktopLayoutHeader.layout.encode
          ⟨desktopLayoutMagic, desktopLayoutVersion, .ofNat icons.length⟩ ++
        entries.flatMap DesktopLayoutEntry.layout.encode := by
  rw [layoutBuffer, Nat.min_eq_left hcount, List.take_length, Option.map_eq_some_iff] at h
  obtain ⟨entries, hentries, hbuffer⟩ := h
  exact ⟨entries, mapM_forall₂ hentries, hbuffer.symm⟩

theorem savedAs_entries {saved : List DesktopIcon} {entries : List DesktopLayoutEntry}
    (h : List.Forall₂ (fun icon entry => icon.layoutEntry = some entry) saved entries)
    (hterm : ∀ icon ∈ saved, icon.Terminated) : List.Forall₂ SavedAs saved entries := by
  induction h with
  | nil => exact .nil
  | cons hentry _ ih =>
      apply List.Forall₂.cons
      · exact (hterm _ List.mem_cons_self).savedAs hentry
      · exact ih fun icon hicon => hterm icon (List.mem_cons_of_mem _ hicon)

/-- The entries are found where they were put. -/
theorem map_entryAt (header : DesktopLayoutHeader) (entries : List DesktopLayoutEntry) :
    (List.range entries.length).map (entryAt (DesktopLayoutHeader.layout.encode header ++
      entries.flatMap DesktopLayoutEntry.layout.encode)) = entries := by
  apply List.ext_getElem
  · rw [List.length_map, List.length_range]
  · intro i hi hi'
    rw [List.getElem_map, List.getElem_range, entryAt, ← List.drop_drop,
      ← DesktopLayoutHeader.layout.encode_length header, List.drop_left,
      Layout.drop_flatMap_encode, List.drop_eq_getElem_cons hi', List.flatMap_cons,
      DesktopLayoutEntry.layout.decode_encode]

namespace LayoutVfs

variable {fs fs' : LayoutVfs} {path buffer content : List UInt8}

theorem andThen_eq_true {first second : LayoutVfs → Bool × LayoutVfs}
    (h : andThen first second fs = (true, fs')) :
    ∃ middle, first fs = (true, middle) ∧ second middle = (true, fs') := by
  rw [andThen] at h
  split at h
  next hok => exact ⟨(first fs).2, Prod.ext hok rfl, h⟩
  next hok => exact absurd (congrArg Prod.fst h) hok

theorem vfsTruncate_eq_true {newSize : Nat} (h : fs.vfsTruncate path newSize = (true, fs')) :
    ∃ content, fs'.files path = some content ∧ content.length = newSize := by
  rw [vfsTruncate] at h
  split at h
  · cases h
  next content hfile =>
    split at h
    · cases h
      refine ⟨_, Function.update_self .., ?_⟩
      rw [List.length_append, List.length_take, List.length_replicate]
      omega
    · cases h

theorem vfsOpen_eq_true (hfile : fs.files path = some content)
    (h : fs.vfsOpen path false = (true, fs')) :
    fs'.opened = some (path, 0) ∧ fs'.files = fs.files := by
  rw [vfsOpen, hfile] at h
  split at h
  · cases h
    exact ⟨rfl, rfl⟩
  · cases h

end LayoutVfs

open LayoutVfs

variable {fs fs' : LayoutVfs} {path buffer content : List UInt8}

theorem vfsSeek_opened (hopen : fs.opened = some (path, 0)) :
    (fs.vfsSeek 0).opened = some (path, 0) ∧ (fs.vfsSeek 0).files = fs.files := by
  rw [vfsSeek]
  split
  · rw [hopen]
    exact ⟨rfl, rfl⟩
  · exact ⟨hopen, rfl⟩

/-- A file of the size of the buffer holds it once the write is complete. -/
theorem writeLayout_eq_true (hopen : fs.opened = some (path, 0))
    (hfile : fs.files path = some content) (hlength : content.length = buffer.length)
    (h : writeLayout buffer fs = (true, fs')) : fs'.files path = some buffer := by
  obtain ⟨hopen', hfiles⟩ := vfsSeek_opened hopen
  obtain ⟨hok, hstate⟩ := Prod.mk.inj h
  have hwritten := (of_decide_eq_true hok).1
  rw [← hstate]
  simp only [vfsWrite, hopen', hfiles, hfile, vfsClose] at hwritten ⊢
  split at hwritten
  next hsucceeds =>
    have hwhole : buffer.take ((fs.vfsSeek 0).transfer (fs.vfsSeek 0).calls) = buffer := by
      rw [List.take_eq_self_iff]
      have hlen : (buffer.take ((fs.vfsSeek 0).transfer (fs.vfsSeek 0).calls)).length =
          buffer.length := Int.natCast_inj.mp hwritten
      rw [List.length_take] at hlen
      omega
    rw [if_pos hsucceeds, hwhole, Option.getD_some, patch_whole hlength]
    exact Function.update_self ..
  next =>
    simp only at hwritten
    omega

/-- A save that returns true leaves the buffer in the file, whatever the file held. -/
theorem dwmDesktopLayoutSave_eq_true {icons : List DesktopIcon}
    (h : dwmDesktopLayoutSave icons fs = some (true, fs')) :
    ∃ buffer, layoutBuffer icons = some buffer ∧ fs'.files fs.iconsPath = some buffer := by
  rw [dwmDesktopLayoutSave] at h
  split at h
  · cases h
  · obtain ⟨buffer, hbuffer, hrun⟩ := Option.map_eq_some_iff.mp h
    obtain ⟨fs₁, -, hrun⟩ := andThen_eq_true hrun
    obtain ⟨fs₂, -, hrun⟩ := andThen_eq_true hrun
    obtain ⟨fs₃, -, hrun⟩ := andThen_eq_true hrun
    obtain ⟨fs₄, htruncate, hrun⟩ := andThen_eq_true hrun
    obtain ⟨content, hfile, hlength⟩ := vfsTruncate_eq_true htruncate
    obtain ⟨fs₅, hopen, hwrite⟩ := andThen_eq_true hrun
    obtain ⟨hopened, hfiles⟩ := vfsOpen_eq_true hfile hopen
    rw [← hfiles] at hfile
    exact ⟨buffer, hbuffer, writeLayout_eq_true hopened hfile hlength hwrite⟩

theorem toInt_toInt32 {value : UInt32} (h : value.toNat < 2 ^ 31) :
    value.toInt32.toInt = value.toNat := by
  change value.toBitVec.toInt = value.toBitVec.toNat
  apply BitVec.toInt_eq_toNat_of_lt
  change 2 * value.toNat < 2 ^ 32
  omega

/-- A read that is complete leaves the bytes of the file in the block. -/
theorem vfsRead_eq {size : Nat} {block : List UInt8} (hopen : fs.opened = some (path, 0))
    (hfile : fs.files path = some content) (hblock : block.length = content.length)
    (hcount : (fs.vfsRead block size).1 = content.length) :
    (fs.vfsRead block size).2.1 = content := by
  simp only [vfsRead, hopen, hfile, Option.getD_some, List.drop_zero] at hcount ⊢
  split at hcount
  next hsucceeds =>
    have hwhole : content.take (min size (fs.transfer fs.calls)) = content := by
      rw [List.take_eq_self_iff]
      have hlen := Int.natCast_inj.mp hcount
      rw [List.length_take] at hlen
      omega
    rw [if_pos hsucceeds, hwhole, patch_whole hblock]
  next =>
    simp only at hcount
    omega

theorem readLayout_eq_true {icons icons' : List DesktopIcon} {display : DisplaySize}
    (hopen : fs.opened = some (path, 0)) (hfile : fs.files path = some content)
    (hlength : content.length < 2 ^ 31)
    (h : readLayout display icons fs = (true, icons', fs')) :
    icons' = placeEntries display icons content
      (DesktopLayoutHeader.layout.decode content).count.toNat := by
  have hsize : fs.vfsGetSize.toNat = content.length := by
    rw [vfsGetSize, hopen]
    simp only [hfile, Option.getD_some]
    rw [UInt32.toNat_ofNat', Nat.mod_eq_of_lt (by omega)]
  have hint : fs.vfsGetSize.toInt32.toInt = content.length := by
    rw [toInt_toInt32 (by omega), hsize]
  rw [readLayout] at h
  simp only [hsize, hint, LayoutVfs.malloc] at h
  split at h
  · cases h
  · split at h
    · cases h
    next block fs₁ hmalloc =>
      obtain ⟨hblock, hfs⟩ := Prod.mk.inj hmalloc
      split at hblock
      · cases hblock
        rw [← hfs] at h
        split at h
        next hvalid =>
          have hread : (fs.called.vfsRead (Tape.read fs.heap 0 content.length)
              content.length).2.1 = content :=
            vfsRead_eq hopen hfile (Tape.read_length ..) hvalid.1
          obtain ⟨-, hrest⟩ := Prod.mk.inj h
          obtain ⟨hicons, -⟩ := Prod.mk.inj hrest
          rw [hread] at hicons
          exact hicons.symm
        next => cases h
      · cases hblock

/-- A load that returns true places the entries of the file. -/
theorem dwmDesktopLayoutLoad_eq_true {icons icons' : List DesktopIcon}
    {display : DisplaySize} (hfile : fs.files fs.iconsPath = some content)
    (hlength : content.length < 2 ^ 31)
    (h : dwmDesktopLayoutLoad display icons fs = (true, icons', fs')) :
    icons' = placeEntries display icons content
      (DesktopLayoutHeader.layout.decode content).count.toNat := by
  rw [dwmDesktopLayoutLoad] at h
  split at h
  · cases h
  · simp only at h
    split at h
    next hok =>
      obtain ⟨hopened, hfiles⟩ := vfsOpen_eq_true hfile (Prod.ext hok rfl)
      rw [← hfiles] at hfile
      exact readLayout_eq_true hopened hfile hlength h
    next => cases h

/-! ## The round trip -/

/-- What is saved from icons with paths of their own is what a load puts back. -/
theorem placeEntries_layoutBuffer {saved icons : List DesktopIcon} (display : DisplaySize)
    (hbuffer : layoutBuffer saved = some buffer) (hcount : saved.length ≤ desktopLayoutMaxEntries)
    (hterm : ∀ icon ∈ saved, icon.Terminated) (hdistinct : (saved.map pathString).Nodup)
    (hposition : ∀ icon ∈ saved, icon.x.toNat < 2 ^ 15 ∧ icon.y.toNat < 2 ^ 15)
    (hterm' : ∀ icon ∈ icons, icon.Terminated) (hdistinct' : (icons.map pathString).Nodup) :
    buffer.length < 2 ^ 31 ∧
      placeEntries display icons buffer (DesktopLayoutHeader.layout.decode buffer).count.toNat =
        icons.map (restored display saved) := by
  obtain ⟨entries, hentries, rfl⟩ := layoutBuffer_eq hbuffer hcount
  have hlength := hentries.length_eq
  have hmax : saved.length ≤ 1024 := hcount
  constructor
  · have hsize := DesktopLayoutEntry.layout.flatMap_encode_length entries
    have hentry : DesktopLayoutEntry.layout.size = 132 := rfl
    rw [List.length_append, DesktopLayoutHeader.layout.encode_length, hsize, hentry,
      show DesktopLayoutHeader.layout.size = 8 from rfl]
    omega
  · have hn : (UInt16.ofNat saved.length).toNat = entries.length := by
      rw [UInt16.toNat_ofNat', Nat.mod_eq_of_lt (by omega), hlength]
    rw [DesktopLayoutHeader.layout.decode_encode, placeEntries, hn, map_entryAt]
    exact foldl_placeEntry (savedAs_entries hentries hterm) hposition hdistinct hterm' hdistinct'

/-- Layouts survive. After a save that returned true, whatever the file held before, a load
that returns true puts each icon with a saved path back, clamped to the screen, and leaves the
others where they are; with the bounds and the display of the save it is the saved position. -/
theorem desktopLayout_roundTrip (saved icons : List DesktopIcon) (display display' : DisplaySize)
    (fs after before fs' : LayoutVfs) (icons' : List DesktopIcon)
    (hcount : saved.length ≤ desktopLayoutMaxEntries)
    (hterm : ∀ icon ∈ saved, icon.Terminated) (hdistinct : (saved.map pathString).Nodup)
    (hscreen : ∀ icon ∈ saved, icon.OnScreen display)
    (hdisplay : display.width.toNat < 2 ^ 15 ∧ display.height.toNat < 2 ^ 15)
    (hsave : dwmDesktopLayoutSave saved fs = some (true, after))
    (hkept : before.home = fs.home ∧ before.files fs.iconsPath = after.files fs.iconsPath)
    (hterm' : ∀ icon ∈ icons, icon.Terminated) (hdistinct' : (icons.map pathString).Nodup)
    (hload : dwmDesktopLayoutLoad display' icons before = (true, icons', fs')) :
    icons'.length = icons.length ∧
      ∀ (i : Nat) (hi : i < icons.length), ∃ icon', icons'[i]? = some icon' ∧
        (icons[i].pathString ∉ saved.map pathString → icon' = icons[i]) ∧
        ∀ source ∈ saved, source.pathString = icons[i].pathString →
          icon' = icons[i].layoutMoveIcon display' source.x.toNat source.y.toNat ∧
          (display' = display ∧ icons[i].boundsX = source.boundsX ∧
              icons[i].boundsY = source.boundsY ∧ icons[i].boundsW = source.boundsW ∧
              icons[i].boundsH = source.boundsH →
            icon'.x = source.x ∧ icon'.y = source.y) := by
  obtain ⟨buffer, hbuffer, hstored⟩ := dwmDesktopLayoutSave_eq_true hsave
  have hposition : ∀ icon ∈ saved, icon.x.toNat < 2 ^ 15 ∧ icon.y.toNat < 2 ^ 15 :=
    fun icon hicon => (hscreen icon hicon).position_lt hdisplay.1 hdisplay.2
  obtain ⟨hlength, hplace⟩ := placeEntries_layoutBuffer display' hbuffer hcount hterm hdistinct
    hposition hterm' hdistinct'
  have hpath : before.iconsPath = fs.iconsPath := by
    rw [iconsPath, iconsPath, layoutBuildPath, layoutBuildPath, hkept.1]
  rw [← hkept.2, ← hpath] at hstored
  have hicons : icons' = icons.map (restored display' saved) :=
    (dwmDesktopLayoutLoad_eq_true hstored hlength hload).trans hplace
  refine ⟨by rw [hicons, List.length_map], fun i hi => ?_⟩
  refine ⟨restored display' saved icons[i], ?_, fun hnot => ?_, fun source hsource hsame => ?_⟩
  · rw [hicons, List.getElem?_map, List.getElem?_eq_getElem hi]
    rfl
  · exact restored_of_not_mem hnot
  · rw [restored_of_mem hdistinct hsource hsame]
    refine ⟨rfl, ?_⟩
    rintro ⟨rfl, hbounds⟩
    exact layoutMoveIcon_same (hscreen source hsource) ⟨hbounds.1, hbounds.2.1, hbounds.2.2⟩

/-- An icon without a name, and a path of one letter. -/
def letterIcon (letter : UInt8) (x y : UInt16) : DesktopIcon :=
  IconObject.label ⟨1, x, y, 32, 32, -1, -1, 34, 34⟩ (Vector.replicate dwmMaxNameLen 0)
    ((Vector.replicate dwmMaxPathLen 0).set 0 letter)

/-- A file system on which all calls succeed. Each file has been longer than a layout. -/
def steadyVfs : LayoutVfs where
  home := [0x68]
  files _ := some (List.replicate 1000 0x55)
  directories _ := true
  opened := none
  outcome _ := true
  transfer _ := 4096
  calls := 0
  heap _ := 0

def savedIcons : List DesktopIcon := [letterIcon 0x61 3 4, letterIcon 0x62 50 60]

/-- One icon is gone, one has been moved, and one is new. -/
def laterIcons : List DesktopIcon := [letterIcon 0x62 70 80, letterIcon 0x63 90 100]

/-- The file system after the icons were saved. -/
def savedVfs : LayoutVfs := ((dwmDesktopLayoutSave savedIcons steadyVfs).getD (false, steadyVfs)).2

def loadLater : Bool × List DesktopIcon × LayoutVfs :=
  dwmDesktopLayoutLoad ⟨640, 480⟩ laterIcons savedVfs

theorem desktopLayout_roundTrip_moved :
    dwmDesktopLayoutSave savedIcons steadyVfs = some (true, savedVfs) ∧ loadLater.1 = true ∧
      (∃ icon, loadLater.2.1[0]? = some icon ∧ icon.x = 50 ∧ icon.y = 60) ∧
      loadLater.2.1[1]? = some (letterIcon 0x63 90 100) := by
  have hsaved : (dwmDesktopLayoutSave savedIcons steadyVfs).map Prod.fst = some true := by
    decide +kernel
  have hsave : dwmDesktopLayoutSave savedIcons steadyVfs = some (true, savedVfs) := by
    obtain ⟨result, hresult, hok⟩ := Option.map_eq_some_iff.mp hsaved
    rw [savedVfs, hresult, Option.getD_some, ← hok]
  have hloaded : loadLater.1 = true := by decide +kernel
  have hsplit : ∀ result : Bool × List DesktopIcon × LayoutVfs, result.1 = true →
      result = (true, result.2.1, result.2.2) := fun _ htrue => Prod.ext htrue rfl
  have hload : loadLater = (true, loadLater.2.1, loadLater.2.2) := hsplit loadLater hloaded
  have hterm : ∀ icon ∈ savedIcons ++ laterIcons, icon.Terminated := by
    change ∀ icon ∈ savedIcons ++ laterIcons, 0 ∈ icon.path.toList
    decide +kernel
  have hscreen : ∀ icon ∈ savedIcons, icon.OnScreen ⟨640, 480⟩ := by
    simp only [DesktopIcon.OnScreen, DesktopIcon.Within]
    decide +kernel
  obtain ⟨-, hplaces⟩ := desktopLayout_roundTrip savedIcons laterIcons ⟨640, 480⟩ ⟨640, 480⟩
    steadyVfs savedVfs savedVfs loadLater.2.2 loadLater.2.1 (by decide)
    (fun icon hicon => hterm icon (List.mem_append_left _ hicon)) (by decide +kernel) hscreen
    (by decide) hsave ⟨by decide +kernel, rfl⟩
    (fun icon hicon => hterm icon (List.mem_append_right _ hicon)) (by decide +kernel) hload
  obtain ⟨moved, hmoved, -, hrestored⟩ := hplaces 0 (by decide)
  obtain ⟨-, hsame⟩ :=
    hrestored (letterIcon 0x62 50 60) (List.mem_cons_of_mem _ List.mem_cons_self) rfl
  obtain ⟨fresh, hfresh, hkept, -⟩ := hplaces 1 (by decide)
  refine ⟨hsave, hloaded, ⟨moved, hmoved, hsame ⟨rfl, rfl, rfl, rfl, rfl⟩⟩, ?_⟩
  rw [hfresh, hkept (by decide +kernel)]
  rfl

end AvrKernel.Dwm

import AvrKernel.Dwm.Desktop
import AvrKernel.Util.Strings
import Mathlib.Logic.Function.Basic

/-!
# The clipboard

`dwm_clipboard.c`: what is put on the clipboard is built in a private buffer first and swapped in
under the lock, so that a call is at most two steps, between which other threads take theirs. A
read behind the memory of a caller is a fault, and nothing comes of it.
-/

namespace AvrKernel.Dwm

open Util

def dwmClipboardMaxBytes : UInt32 := 512 * 1024
def dwmClipboardMaxFiles : UInt32 := 64

inductive DWMClipboardFormat
  | empty
  | text
  | files
  | image
  | binary
  deriving DecidableEq

inductive DWMClipboardFileOp
  | copy
  | cut
  deriving DecidableEq

/-- The value of the enumeration that a caller has passed. -/
def DWMClipboardFileOp.ofWord (op : UInt32) : Option DWMClipboardFileOp :=
  if op = 0 then some .copy else if op = 1 then some .cut else none

/-- The fields of the clipboard that come with its contents. -/
structure ClipPayload where
  format : DWMClipboardFormat
  data : Option (List UInt8)
  size : UInt32
  fileCount : UInt32
  fileOp : DWMClipboardFileOp
  imageWidth : UInt16
  imageHeight : UInt16
  deriving DecidableEq

structure Clip extends ClipPayload where
  sequence : UInt32
  deriving DecidableEq

namespace Clip

/-! ## Under the lock -/

/-- What `clip_take_locked` leaves. -/
def takenPayload : ClipPayload := ⟨.empty, none, 0, 0, .copy, 0, 0⟩

def clipTakeLocked (clip : Clip) : Clip := ⟨takenPayload, clip.sequence⟩

def clipInstall (payload : ClipPayload) (clip : Clip) : Clip := ⟨payload, clip.sequence + 1⟩

def dwmClipboardClear (clip : Clip) : Clip :=
  if clip.format = .empty then clip
  else { clip.clipTakeLocked with sequence := clip.sequence + 1 }

def dwmClipboardFilesCompleteCut (sequence : UInt32) (clip : Clip) : Bool × Clip :=
  if clip.sequence ≠ sequence ∨ clip.format ≠ .files ∨ clip.fileOp ≠ .cut then (false, clip)
  else (true, { clip.clipTakeLocked with sequence := clip.sequence + 1 })

/-! ## Readers

They get the size of their buffer, 0 when they have none, and return what they write to it. -/

def clipBinaryIsTextLocked (clip : Clip) : Bool :=
  if clip.format ≠ .binary ∨ clip.size = 0 then false
  else ((clip.data.getD []).take clip.size.toNat).all (· ≠ 0)

def textChar (nulToNewline : Bool) (c : UInt8) : UInt8 :=
  if c = 0 ∧ nulToNewline = true then 10 else c

def clipCopyTextOut (size : UInt32) (src : List UInt8) (len : UInt32) (nulToNewline : Bool) :
    Option (List UInt8) :=
  if size = 0 then some []
  else
    let n := (if len < size - 1 then len else size - 1).toNat
    if src.length < n then none
    else some ((src.take n).map (textChar nulToNewline) ++ [0])

def dwmClipboardGetText (clip : Clip) (size : UInt32) : Option (UInt32 × List UInt8) :=
  let data := clip.data.getD []
  let nothing := if size = 0 then [] else [0]
  match clip.format with
  | .text => (clipCopyTextOut size data clip.size false).map fun out => (clip.size, out)
  | .files => (clipCopyTextOut size data (clip.size - 1) true).map fun out => (clip.size - 1, out)
  | .binary =>
      if clip.clipBinaryIsTextLocked then
        (clipCopyTextOut size data clip.size false).map fun out => (clip.size, out)
      else some (0, nothing)
  | .empty | .image => some (0, nothing)

/-- The memory from the path with the index on. -/
def skipPaths : Nat → List UInt8 → Option (List UInt8)
  | 0, path => some path
  | index + 1, path => do
      let len ← strlen path
      skipPaths index (path.drop (len + 1))

def dwmClipboardGetFile (clip : Clip) (index size : UInt32) : Option (Bool × List UInt8) :=
  if size = 0 then some (false, [])
  else if clip.format = .files ∧ index < clip.fileCount then do
    let path ← skipPaths index.toNat (clip.data.getD [])
    let len ← strlen path
    if len < size.toNat then some (true, path.take (len + 1)) else some (false, [0])
  else some (false, [0])

end Clip

/-- What a call does to the clipboard under the lock. -/
inductive ClipChange
  | clear
  | install (payload : ClipPayload)
  | completeCut (sequence : UInt32)

/-- Take the lock, change the clipboard, and return. -/
def ClipChange.apply : ClipChange → Clip → Bool × Clip
  | clear, clip => (true, clip.dwmClipboardClear)
  | install payload, clip => (true, clip.clipInstall payload)
  | completeCut sequence, clip => clip.dwmClipboardFilesCompleteCut sequence

/-! ## In front of the lock

Each function gets the memory that its pointers lead to, which are not given for `NULL`, and
whether `malloc` serves it. It returns false, or goes on to change the clipboard. -/

def dwmClipboardSetTextN (text : Option (List UInt8)) (length : UInt32) (memory : Bool) :
    Option (Option ClipChange) :=
  match text with
  | none => some none
  | some text => do
      let found ← strnlen length.toNat text
      let length := UInt32.ofNat found
      if length = 0 then some (some .clear)
      else if length > dwmClipboardMaxBytes - 1 then some none
      else if memory = false then some none
      else some (some (.install
        ⟨.text, some (text.take length.toNat ++ [0]), length, 0, .copy, 0, 0⟩))

/-- The bytes that the list of the paths needs, unless one of them is not valid. -/
def filesTotal : Nat → List (Option (List UInt8)) → UInt32 → Option (Option UInt32)
  | 0, _, total => some (some total)
  | _ + 1, [], _ => none
  | _ + 1, none :: _, _ => some none
  | count + 1, some path :: paths, total => do
      let len ← strnlen dwmMaxPathLen path
      if len = 0 ∨ len ≥ dwmMaxPathLen then some none
      else filesTotal count paths (total + (.ofNat len + 1))

/-- The paths one after the other, with their terminators. -/
def filesList : Nat → List (Option (List UInt8)) → Option (List UInt8)
  | 0, _ => some []
  | count + 1, some path :: paths => do
      let len ← strnlen dwmMaxPathLen path
      let list ← filesList count paths
      some (path.take len ++ [0] ++ list)
  | _ + 1, _ => none

def dwmClipboardSetFiles (paths : Option (List (Option (List UInt8)))) (count op : UInt32)
    (memory : Bool) : Option (Option ClipChange) :=
  match paths with
  | none => some none
  | some paths =>
      if count = 0 ∨ count > dwmClipboardMaxFiles then some none
      else match DWMClipboardFileOp.ofWord op with
        | none => some none
        | some op => do
            match ← filesTotal count.toNat paths 0 with
            | none => some none
            | some total =>
                if memory = false then some none
                else do
                  let list ← filesList count.toNat paths
                  some (some (.install ⟨.files, some list, total, count, op, 0, 0⟩))

def dwmClipboardSetImage (pixels : Option (List UInt32)) (width height : UInt16) (memory : Bool) :
    Option (Option ClipChange) :=
  match pixels with
  | none => some none
  | some pixels =>
      let count := width.toNat * height.toNat
      if width = 0 ∨ height = 0 then some none
      else if count * 4 > dwmClipboardMaxBytes.toNat then some none
      else if memory = false then some none
      else if pixels.length < count then none
      else some (some (.install ⟨.image, some ((pixels.take count).flatMap Bytes.Layout.u32.encode),
        .ofNat (count * 4), 0, .copy, width, height⟩))

def dwmClipboardSet (data : Option (List UInt8)) (size : UInt32) (memory : Bool) :
    Option (Option ClipChange) :=
  match data with
  | none => some (some .clear)
  | some data =>
      if size = 0 then some (some .clear)
      else if size > dwmClipboardMaxBytes then some none
      else if memory = false then some none
      else if data.length < size.toNat then none
      else some (some (.install ⟨.binary, some (data.take size.toNat), size, 0, .copy, 0, 0⟩))

/-! ## Calls of several threads -/

inductive ClipCall
  | setTextN (text : Option (List UInt8)) (length : UInt32)
  | setFiles (paths : Option (List (Option (List UInt8)))) (count op : UInt32)
  | setImage (pixels : Option (List UInt32)) (width height : UInt16)
  | set (data : Option (List UInt8)) (size : UInt32)
  | clear
  | filesCompleteCut (sequence : UInt32)
  deriving DecidableEq

/-- What a call does in front of the lock. -/
def ClipCall.build (memory : Bool) : ClipCall → Option (Option ClipChange)
  | setTextN text length => dwmClipboardSetTextN text length memory
  | setFiles paths count op => dwmClipboardSetFiles paths count op memory
  | setImage pixels width height => dwmClipboardSetImage pixels width height memory
  | set data size => dwmClipboardSet data size memory
  | clear => some (some .clear)
  | filesCompleteCut sequence => some (some (.completeCut sequence))

/-- The clipboard, and the calls that are about to take the lock. -/
structure ClipSystem (Thread : Type) where
  clip : Clip
  waiting : Thread → Option (ClipCall × ClipChange)

inductive ClipEvent (Thread : Type)
  | enter (thread : Thread) (call : ClipCall) (memory : Bool)
  | lock (thread : Thread)

namespace ClipSystem

variable {Thread : Type} [DecidableEq Thread]

def start : ClipSystem Thread := ⟨⟨Clip.takenPayload, 0⟩, fun _ => none⟩

/-- A step of a thread, with the call that returns in it and its result. A thread is in one call at
a time. -/
def step (s : ClipSystem Thread) :
    ClipEvent Thread → Option (Option (ClipCall × Bool) × ClipSystem Thread)
  | .enter thread call memory =>
      match s.waiting thread with
      | some _ => none
      | none => (call.build memory).map fun
          | none => (some (call, false), s)
          | some change =>
              (none, { s with waiting := Function.update s.waiting thread (some (call, change)) })
  | .lock thread =>
      (s.waiting thread).map fun (call, change) =>
        (some (call, (change.apply s.clip).1),
          ⟨(change.apply s.clip).2, Function.update s.waiting thread none⟩)

/-- The steps of a run that change the sequence number. -/
def changes (s : ClipSystem Thread) : List (ClipEvent Thread) → Nat
  | [] => 0
  | event :: events =>
      match s.step event with
      | none => 0
      | some (_, s') => (if s'.clip.sequence = s.clip.sequence then 0 else 1) + changes s' events

end ClipSystem

/-! ## Contents -/

/-- What a caller puts on the clipboard. -/
inductive ClipContents
  | text (chars : List UInt8)
  | files (paths : List (List UInt8)) (op : DWMClipboardFileOp)
  | image (pixels : List UInt32) (width height : UInt16)
  | binary (bytes : List UInt8)
  deriving DecidableEq

/-- The paths with a null byte behind each of them. -/
def packPaths (paths : List (List UInt8)) : List UInt8 := paths.flatMap (· ++ [0])

theorem packPaths_cons (path : List UInt8) (paths : List (List UInt8)) :
    packPaths (path :: paths) = path ++ 0 :: packPaths paths := by
  simp [packPaths]

def ClipContents.payload : ClipContents → ClipPayload
  | text chars => ⟨.text, some (chars ++ [0]), .ofNat chars.length, 0, .copy, 0, 0⟩
  | files paths op =>
      ⟨.files, some (packPaths paths), .ofNat (packPaths paths).length, .ofNat paths.length, op,
        0, 0⟩
  | image pixels width height =>
      ⟨.image, some (pixels.flatMap Bytes.Layout.u32.encode), .ofNat (pixels.length * 4), 0, .copy,
        width, height⟩
  | binary bytes => ⟨.binary, some bytes, .ofNat bytes.length, 0, .copy, 0, 0⟩

/-- The payload of an empty clipboard, or of one with contents. -/
def payloadOf : Option ClipContents → ClipPayload
  | none => Clip.takenPayload
  | some contents => contents.payload

/-- A list of paths is one that `dwm_clipboard_set_files` accepts. -/
def ClipContents.Valid : ClipContents → Prop
  | files paths _ => paths ≠ [] ∧ paths.length ≤ 64 ∧
      ∀ path ∈ paths, path.length < dwmMaxPathLen ∧ ∀ c ∈ path, c ≠ 0
  | _ => True

/-- The string at a pointer, of which at most `maxlen` characters count. -/
def upTo (maxlen : Nat) (str : List UInt8) : List UInt8 := (str.take maxlen).takeWhile (· ≠ 0)

/-- What a call is to leave on the clipboard. -/
def ClipCall.input : ClipCall → Option ClipContents
  | setTextN (some text) length =>
      let chars := upTo length.toNat text
      if chars = [] then none else some (.text chars)
  | setFiles (some paths) count op =>
      some (.files ((paths.take count.toNat).map fun path => upTo dwmMaxPathLen (path.getD []))
        ((DWMClipboardFileOp.ofWord op).getD .copy))
  | setImage (some pixels) width height =>
      some (.image (pixels.take (width.toNat * height.toNat)) width height)
  | set (some data) size => if size = 0 then none else some (.binary (data.take size.toNat))
  | _ => none

/-- The last call that has returned true. -/
def lastDone (answers : List (Option (ClipCall × Bool))) : Option ClipCall :=
  (answers.filterMap fun answer => answer.bind fun (call, ok) =>
    if ok = true then some call else none).getLast?

def contentsAfter (answers : List (Option (ClipCall × Bool))) : Option ClipContents :=
  (lastDone answers).bind ClipCall.input

/-- The call leaves its input on the clipboard, which it clears when there is none. -/
def ClipCall.Leaves (call : ClipCall) (change : ClipChange) : Prop :=
  match call.input with
  | none => change = .clear
  | some contents => contents.Valid ∧ change = .install contents.payload

section Building

variable {maxlen count found : Nat} {str : List UInt8} {paths : List (Option (List UInt8))}
  {total total' : UInt32} {memory : Bool} {call : ClipCall} {change : ClipChange}

theorem upTo_cons (c : UInt8) :
    upTo (maxlen + 1) (c :: str) = if c = 0 then [] else c :: upTo maxlen str := by
  simp only [upTo, List.take_succ_cons, List.takeWhile_cons]
  by_cases hc : c = 0 <;> simp [hc]

theorem upTo_nonzero {c : UInt8} (h : c ∈ upTo maxlen str) : c ≠ 0 := by
  simpa using List.mem_takeWhile_imp h

theorem upTo_length_le : (upTo maxlen str).length ≤ maxlen :=
  ((List.takeWhile_prefix _).length_le).trans (List.length_take_le _ _)

theorem strnlen_eq_some (h : strnlen maxlen str = some found) :
    found = (upTo maxlen str).length ∧ str.take found = upTo maxlen str := by
  induction maxlen generalizing str found with
  | zero =>
      cases h
      simp [upTo]
  | succ maxlen ih =>
      cases str with
      | nil => cases h
      | cons c str =>
          rw [strnlen] at h
          rw [upTo_cons]
          split at h
          next hc =>
            cases h
            simp [hc]
          next hc =>
            obtain ⟨found', hfound, rfl⟩ := Option.map_eq_some_iff.mp h
            obtain ⟨hlength, htake⟩ := ih hfound
            rw [if_neg hc, List.take_succ_cons, htake, List.length_cons, ← hlength]
            exact ⟨rfl, rfl⟩

theorem filesTotal_eq_some (h : filesTotal count paths total = some (some total')) :
    ∃ names : List (List UInt8),
      (paths.take count).map (fun path => upTo dwmMaxPathLen (path.getD [])) = names ∧
      names.length = count ∧ (∀ name ∈ names, name.length < dwmMaxPathLen ∧ ∀ c ∈ name, c ≠ 0) ∧
      filesList count paths = some (packPaths names) ∧
      total' = total + .ofNat (packPaths names).length := by
  induction count generalizing paths total with
  | zero =>
      cases h
      exact ⟨[], rfl, rfl, by simp, rfl, by simp [packPaths]⟩
  | succ count ih =>
      cases paths with
      | nil => cases h
      | cons path paths =>
          cases path with
          | none => cases h
          | some path =>
              rw [filesTotal] at h
              obtain ⟨len, hlen, h⟩ := Option.bind_eq_some_iff.mp h
              split at h
              next => cases h
              next hfits =>
                obtain ⟨names, hnames, hlength, hvalid, hlist, rfl⟩ := ih h
                obtain ⟨rfl, htake⟩ := strnlen_eq_some hlen
                rw [not_or, Nat.not_le] at hfits
                refine ⟨upTo dwmMaxPathLen path :: names, by simp [hnames], by simp [hlength], ?_,
                  ?_, ?_⟩
                · intro name hname
                  rcases List.mem_cons.mp hname with rfl | hname
                  · exact ⟨hfits.2, fun c hc => upTo_nonzero hc⟩
                  · exact hvalid name hname
                · simp [filesList, hlen, hlist, htake, packPaths]
                · rw [packPaths_cons, List.length_append, List.length_cons, Nat.add_comm _ 1,
                    UInt32.ofNat_add, UInt32.ofNat_add, UInt32.add_assoc, UInt32.add_assoc]
                  rfl

theorem setTextN_leaves {text : Option (List UInt8)} {length : UInt32}
    (h : dwmClipboardSetTextN text length memory = some (some change)) :
    (ClipCall.setTextN text length).Leaves change := by
  cases text with
  | none => cases h
  | some text =>
      rw [dwmClipboardSetTextN] at h
      obtain ⟨found, hfound, h⟩ := Option.bind_eq_some_iff.mp h
      obtain ⟨rfl, htake⟩ := strnlen_eq_some hfound
      have hle : (upTo length.toNat text).length ≤ length.toNat := upTo_length_le
      have hlt := length.toNat_lt
      have hnat : (UInt32.ofNat (upTo length.toNat text).length).toNat =
          (upTo length.toNat text).length := by
        rw [UInt32.toNat_ofNat']
        omega
      have hzero : UInt32.ofNat (upTo length.toNat text).length = 0 ↔
          upTo length.toNat text = [] := by
        rw [← UInt32.toNat_inj, hnat, UInt32.toNat_zero, List.length_eq_zero_iff]
      simp only [hzero, hnat, htake] at h
      simp only [ClipCall.Leaves, ClipCall.input]
      split_ifs at h with hempty
      · rw [if_pos hempty]
        cases h
        rfl
      all_goals cases h
      rw [if_neg hempty]
      exact ⟨trivial, rfl⟩

theorem setFiles_leaves {list : Option (List (Option (List UInt8)))} {count op : UInt32}
    (h : dwmClipboardSetFiles list count op memory = some (some change)) :
    (ClipCall.setFiles list count op).Leaves change := by
  cases list with
  | none => cases h
  | some paths =>
      rw [dwmClipboardSetFiles] at h
      split at h
      next => cases h
      next hcount =>
        rw [not_or, UInt32.not_lt, UInt32.le_iff_toNat_le] at hcount
        split at h
        next => cases h
        next op' hop =>
          obtain ⟨answer, htotal, h⟩ := Option.bind_eq_some_iff.mp h
          cases answer with
          | none => cases h
          | some total =>
              simp only at h
              split at h
              next => cases h
              next =>
                obtain ⟨names, hnames, hlength, hvalid, hlist, rfl⟩ := filesTotal_eq_some htotal
                rw [hlist, Option.bind_eq_bind, Option.bind_some] at h
                cases h
                have hpos : count.toNat ≠ 0 := fun hzero => hcount.1 (UInt32.toNat_inj.mp hzero)
                rw [ClipCall.Leaves, ClipCall.input, hnames, hop, Option.getD_some]
                refine ⟨⟨?_, ?_, hvalid⟩, ?_⟩
                · rintro rfl
                  exact hpos hlength.symm
                · rw [hlength]
                  exact hcount.2
                · rw [ClipContents.payload, hlength, UInt32.ofNat_toNat, UInt32.zero_add]

theorem setImage_leaves {pixels : Option (List UInt32)} {width height : UInt16}
    (h : dwmClipboardSetImage pixels width height memory = some (some change)) :
    (ClipCall.setImage pixels width height).Leaves change := by
  cases pixels with
  | none => cases h
  | some pixels =>
      simp only [dwmClipboardSetImage] at h
      split_ifs at h with _ _ _ hlength <;> cases h
      refine ⟨trivial, ?_⟩
      rw [ClipContents.payload, List.length_take, Nat.min_eq_left (Nat.not_lt.mp hlength)]

theorem set_leaves {data : Option (List UInt8)} {size : UInt32}
    (h : dwmClipboardSet data size memory = some (some change)) :
    (ClipCall.set data size).Leaves change := by
  cases data with
  | none =>
      cases h
      rfl
  | some data =>
      simp only [dwmClipboardSet] at h
      simp only [ClipCall.Leaves, ClipCall.input]
      split_ifs at h with hzero _ _ hlength
      · rw [if_pos hzero]
        cases h
        rfl
      all_goals cases h
      rw [if_neg hzero]
      refine ⟨trivial, ?_⟩
      rw [ClipContents.payload, List.length_take, Nat.min_eq_left (Nat.not_lt.mp hlength),
        UInt32.ofNat_toNat]

/-- What a call has built is what it is to leave. -/
theorem ClipCall.build_leaves (h : call.build memory = some (some change)) :
    call.Leaves change ∨
      ∃ sequence, call = .filesCompleteCut sequence ∧ change = .completeCut sequence := by
  cases call with
  | setTextN text length => exact .inl (setTextN_leaves h)
  | setFiles paths count op => exact .inl (setFiles_leaves h)
  | setImage pixels width height => exact .inl (setImage_leaves h)
  | set data size => exact .inl (set_leaves h)
  | clear =>
      cases h
      exact .inl rfl
  | filesCompleteCut sequence =>
      cases h
      exact .inr ⟨sequence, rfl, rfl⟩

end Building

/-! ## What readers find -/

section Reading

variable {clip : Clip} {paths : List (List UInt8)} {op : DWMClipboardFileOp} {index : Nat}

theorem skipPaths_packPaths (hnonzero : ∀ path ∈ paths, ∀ c ∈ path, c ≠ 0)
    (hindex : index ≤ paths.length) :
    Clip.skipPaths index (packPaths paths) = some (packPaths (paths.drop index)) := by
  induction index generalizing paths with
  | zero => rfl
  | succ index ih =>
      cases paths with
      | nil => exact absurd hindex (Nat.not_succ_le_zero index)
      | cons path rest =>
          rw [Clip.skipPaths, packPaths_cons, strlen_eq (hnonzero path List.mem_cons_self),
            Option.bind_eq_bind, Option.bind_some, List.drop_append,
            List.drop_eq_nil_of_le (by omega), Nat.add_sub_cancel_left, List.nil_append,
            List.drop_one, List.tail_cons, List.drop_succ_cons]
          exact ih (fun path hpath => hnonzero path (List.mem_cons_of_mem _ hpath))
            (Nat.le_of_succ_le_succ hindex)

/-- `dwm_clipboard_get_file` writes the path with the index, if it fits. -/
theorem Clip.getFile_files (hclip : clip.toClipPayload = (ClipContents.files paths op).payload)
    (hvalid : (ClipContents.files paths op).Valid) (index : UInt32) {size : UInt32}
    (hsize : size ≠ 0) :
    clip.dwmClipboardGetFile index size = some (match paths[index.toNat]? with
      | some path => if path.length < size.toNat then (true, path ++ [0]) else (false, [0])
      | none => (false, [0])) := by
  obtain ⟨-, hmany, hpaths⟩ := hvalid
  have hnonzero : ∀ path ∈ paths, ∀ c ∈ path, c ≠ 0 := fun path hpath => (hpaths path hpath).2
  have hformat : clip.format = .files := congrArg ClipPayload.format hclip
  have hcount : clip.fileCount.toNat = paths.length := by
    rw [show clip.fileCount = .ofNat paths.length from congrArg ClipPayload.fileCount hclip,
      UInt32.toNat_ofNat']
    omega
  have hdata : clip.data.getD [] = packPaths paths := by
    rw [show clip.data = some (packPaths paths) from congrArg ClipPayload.data hclip]
    rfl
  rw [dwmClipboardGetFile, if_neg hsize, hdata]
  by_cases hindex : index.toNat < paths.length
  · rw [if_pos ⟨hformat, UInt32.lt_iff_toNat_lt.mpr (hcount ▸ hindex)⟩,
      skipPaths_packPaths hnonzero hindex.le, List.getElem?_eq_getElem hindex,
      List.drop_eq_getElem_cons hindex, packPaths_cons, Option.bind_eq_bind, Option.bind_some,
      strlen_eq (hnonzero _ (List.getElem_mem hindex)), Option.bind_eq_bind, Option.bind_some,
      List.take_append,
      List.take_of_length_le (by omega), Nat.add_sub_cancel_left]
    exact (apply_ite some ..).symm
  · rw [if_neg fun hboth => hindex (hcount ▸ UInt32.lt_iff_toNat_lt.mp hboth.2),
      List.getElem?_eq_none (Nat.not_lt.mp hindex)]

/-- The paths with newlines between them. -/
def joinPaths (paths : List (List UInt8)) : List UInt8 := [10].intercalate paths

theorem packPaths_newlines (hpaths : paths ≠ []) (hnonzero : ∀ path ∈ paths, ∀ c ∈ path, c ≠ 0) :
    (packPaths paths).map (Clip.textChar true) = joinPaths paths ++ [10] := by
  induction paths with
  | nil => exact absurd rfl hpaths
  | cons path rest ih =>
      have hpath : path.map (Clip.textChar true) = path := by
        refine (List.map_congr_left fun c hc => ?_).trans (List.map_id path)
        exact if_neg fun hzero => hnonzero path List.mem_cons_self c hc hzero.1
      rw [packPaths_cons, List.map_append, hpath, List.map_cons, joinPaths]
      cases rest with
      | nil => simp [packPaths, Clip.textChar]
      | cons next rest =>
          have hrest := ih (List.cons_ne_nil next rest) fun path hpath =>
            hnonzero path (List.mem_cons_of_mem _ hpath)
          rw [hrest, joinPaths, List.intercalate_cons_cons, List.append_assoc, List.append_assoc]
          rfl

theorem packPaths_length_le (hshort : ∀ path ∈ paths, path.length < dwmMaxPathLen) :
    (packPaths paths).length ≤ 128 * paths.length := by
  induction paths with
  | nil => exact Nat.le_refl 0
  | cons path rest ih =>
      have hlt : path.length < 128 := hshort path List.mem_cons_self
      have hrest := ih fun path hpath => hshort path (List.mem_cons_of_mem _ hpath)
      rw [packPaths_cons, List.length_append, List.length_cons, List.length_cons]
      omega

/-- `dwm_clipboard_get_text` writes the joined paths, as far as they fit. -/
theorem Clip.getText_files (hclip : clip.toClipPayload = (ClipContents.files paths op).payload)
    (hvalid : (ClipContents.files paths op).Valid) (size : UInt32) :
    clip.dwmClipboardGetText size = some (.ofNat (joinPaths paths).length,
      if size = 0 then [] else (joinPaths paths).take (size.toNat - 1) ++ [0]) := by
  obtain ⟨hpaths, hmany, hshort⟩ := hvalid
  have hnewlines := packPaths_newlines hpaths fun path hpath => (hshort path hpath).2
  have hlength : (packPaths paths).length = (joinPaths paths).length + 1 := by
    simpa using congrArg List.length hnewlines
  have hbound := packPaths_length_le fun path hpath => (hshort path hpath).1
  have hformat : clip.format = .files := congrArg ClipPayload.format hclip
  have hdata : clip.data.getD [] = packPaths paths := by
    rw [show clip.data = some (packPaths paths) from congrArg ClipPayload.data hclip]
    rfl
  have hlen : clip.size - 1 = .ofNat (joinPaths paths).length := by
    rw [show clip.size = .ofNat (packPaths paths).length from congrArg ClipPayload.size hclip,
      hlength, UInt32.ofNat_add]
    exact UInt32.add_sub_cancel _ _
  have hnat : (UInt32.ofNat (joinPaths paths).length).toNat = (joinPaths paths).length := by
    rw [UInt32.toNat_ofNat']
    omega
  rw [dwmClipboardGetText, hformat]
  simp only [hdata, hlen, clipCopyTextOut]
  by_cases hsize : size = 0
  · simp [hsize]
  · have hroom : (size - 1).toNat = size.toNat - 1 := by
      have hpos : size.toNat ≠ 0 := fun hzero => hsize (UInt32.toNat_inj.mp hzero)
      rw [UInt32.toNat_sub_of_le _ _ (UInt32.le_iff_toNat_le.mpr (show 1 ≤ _ by omega))]
      rfl
    have hmin : (if UInt32.ofNat (joinPaths paths).length < size - 1 then
        UInt32.ofNat (joinPaths paths).length else size - 1).toNat =
          min (joinPaths paths).length (size.toNat - 1) := by
      simp only [UInt32.lt_iff_toNat_lt, apply_ite UInt32.toNat, hnat, hroom]
      split <;> omega
    have htake : (joinPaths paths).take (min (joinPaths paths).length (size.toNat - 1)) =
        (joinPaths paths).take (size.toNat - 1) := by
      rw [List.take_eq_take_iff]
      omega
    rw [if_neg hsize, if_neg hsize, hmin, if_neg (by omega), List.map_take, hnewlines,
      List.take_append_of_le_length (Nat.min_le_left _ _), htake, Option.map_some]

end Reading

/-! ## Runs -/

namespace ClipSystem

variable {Thread : Type} [DecidableEq Thread] {s s' s'' : ClipSystem Thread}
  {event : ClipEvent Thread} {events : List (ClipEvent Thread)}
  {answer : Option (ClipCall × Bool)} {answers answers' : List (Option (ClipCall × Bool))}

/-- What the clipboard holds is what the last call that has succeeded was to leave, and the calls
that wait for the lock have built what they are to leave. -/
structure Kept (answers : List (Option (ClipCall × Bool))) (s : ClipSystem Thread) : Prop where
  contents : s.clip.toClipPayload = payloadOf (contentsAfter answers)
  valid : ∀ contents, contentsAfter answers = some contents → contents.Valid
  waiting : ∀ thread call change, s.waiting thread = some (call, change) →
    ∃ memory, call.build memory = some (some change)

/-- What a step can do: a call returns false in front of the lock, or waits for it, or takes it. -/
theorem step_cases (hstep : s.step event = some (answer, s')) :
    (∃ call, answer = some (call, false) ∧ s' = s) ∨
    (∃ thread call memory change, call.build memory = some (some change) ∧ answer = none ∧
      s' = ⟨s.clip, Function.update s.waiting thread (some (call, change))⟩) ∨
    ∃ thread call change, event = .lock thread ∧ s.waiting thread = some (call, change) ∧
      answer = some (call, (change.apply s.clip).1) ∧
      s' = ⟨(change.apply s.clip).2, Function.update s.waiting thread none⟩ := by
  cases event with
  | enter thread call memory =>
      rw [step] at hstep
      split at hstep
      next => cases hstep
      next =>
        obtain ⟨built, hbuild, hresult⟩ := Option.map_eq_some_iff.mp hstep
        cases built with
        | none =>
            cases hresult
            exact .inl ⟨call, rfl, rfl⟩
        | some change =>
            cases hresult
            exact .inr (.inl ⟨thread, call, memory, change, hbuild, rfl, rfl⟩)
  | lock thread =>
      rw [step] at hstep
      obtain ⟨⟨call, change⟩, hwaiting, hresult⟩ := Option.map_eq_some_iff.mp hstep
      cases hresult
      exact .inr (.inr ⟨thread, call, change, rfl, hwaiting, rfl, rfl⟩)

theorem contentsAfter_true (answers : List (Option (ClipCall × Bool))) (call : ClipCall) :
    contentsAfter (answers ++ [some (call, true)]) = call.input := by
  simp [contentsAfter, lastDone]

theorem contentsAfter_same (answers : List (Option (ClipCall × Bool)))
    (answer : Option (ClipCall × Bool)) (hanswer : ∀ call, answer ≠ some (call, true)) :
    contentsAfter (answers ++ [answer]) = contentsAfter answers := by
  cases answer with
  | none => simp [contentsAfter, lastDone]
  | some result =>
      obtain ⟨call, ok⟩ := result
      cases ok with
      | false => simp [contentsAfter, lastDone]
      | true => exact absurd rfl (hanswer call)

/-- Only an empty clipboard has the format of one. -/
theorem payloadOf_empty {contents : Option ClipContents}
    (h : (payloadOf contents).format = .empty) : contents = none := by
  cases contents with
  | none => rfl
  | some contents => cases contents <;> cases h

theorem Kept.update (h : Kept answers s) {clip : Clip} {thread : Thread}
    {entry : Option (ClipCall × ClipChange)}
    (hcontents : clip.toClipPayload = payloadOf (contentsAfter answers'))
    (hvalid : ∀ contents, contentsAfter answers' = some contents → contents.Valid)
    (hentry : ∀ call change, entry = some (call, change) →
      ∃ memory, call.build memory = some (some change)) :
    Kept answers' ⟨clip, Function.update s.waiting thread entry⟩ := by
  refine ⟨hcontents, hvalid, fun other call change hwaiting => ?_⟩
  simp only [Function.update_apply] at hwaiting
  split at hwaiting
  · exact hentry call change hwaiting
  · exact h.waiting other call change hwaiting

theorem Kept.step (h : Kept answers s) (hstep : s.step event = some (answer, s')) :
    Kept (answers ++ [answer]) s' := by
  rcases step_cases hstep with ⟨call, rfl, rfl⟩ |
    ⟨thread, call, memory, change, hbuild, rfl, rfl⟩ | ⟨thread, call, change, -, hwaiting, rfl, rfl⟩
  · have hsame := contentsAfter_same answers (some (call, false)) (by simp)
    exact ⟨hsame ▸ h.contents, hsame ▸ h.valid, h.waiting⟩
  · have hsame := contentsAfter_same answers none (by simp)
    refine h.update (hsame ▸ h.contents) (hsame ▸ h.valid) fun call' change' hentry => ?_
    cases hentry
    exact ⟨memory, hbuild⟩
  · obtain ⟨memory, hbuild⟩ := h.waiting thread call change hwaiting
    suffices hdone : (change.apply s.clip).2.toClipPayload =
        payloadOf (contentsAfter (answers ++ [some (call, (change.apply s.clip).1)])) ∧
        ∀ contents, contentsAfter (answers ++ [some (call, (change.apply s.clip).1)]) =
          some contents → contents.Valid by
      exact h.update hdone.1 hdone.2 fun _ _ hentry => by cases hentry
    rcases ClipCall.build_leaves hbuild with hleaves | ⟨sequence, rfl, rfl⟩
    · rw [ClipCall.Leaves] at hleaves
      cases hinput : call.input with
      | some contents =>
          rw [hinput] at hleaves
          obtain ⟨hvalid, rfl⟩ := hleaves
          rw [show ((ClipChange.install contents.payload).apply s.clip).1 = true from rfl,
            contentsAfter_true, hinput]
          exact ⟨rfl, fun _ hcontents => Option.some.inj hcontents ▸ hvalid⟩
      | none =>
          rw [hinput] at hleaves
          obtain rfl := hleaves
          rw [show (ClipChange.clear.apply s.clip).1 = true from rfl, contentsAfter_true, hinput]
          refine ⟨?_, by simp⟩
          change s.clip.dwmClipboardClear.toClipPayload = Clip.takenPayload
          rw [Clip.dwmClipboardClear]
          split
          next hempty =>
            rw [h.contents] at hempty ⊢
            rw [payloadOf_empty hempty]
            rfl
          next => rfl
    · simp only [ClipChange.apply, Clip.dwmClipboardFilesCompleteCut]
      split
      next =>
        rw [contentsAfter_same answers _ (by simp)]
        exact ⟨h.contents, h.valid⟩
      next =>
        rw [contentsAfter_true]
        exact ⟨rfl, by simp [ClipCall.input]⟩

theorem Kept.run (h : Kept answers s)
    (hrun : Trace.run ClipSystem.step s events = some (answers', s')) :
    Kept (answers ++ answers') s' := by
  induction events generalizing s answers answers' with
  | nil =>
      cases hrun
      rwa [List.append_nil]
  | cons event events ih =>
      obtain ⟨answer, s₁, rest, hstep, hrest, rfl⟩ := Trace.run_cons.mp hrun
      have hkept := ih (h.step hstep) hrest
      rwa [List.append_assoc, List.singleton_append] at hkept

/-- A step leaves the clipboard as it is, or counts; the latter when a call returns true. -/
theorem step_sequence (hstep : s.step event = some (answer, s')) :
    s'.clip = s.clip ∨ s'.clip.sequence = s.clip.sequence + 1 ∧
      ∀ call, answer ≠ some (call, false) := by
  rcases step_cases hstep with ⟨call, rfl, rfl⟩ | ⟨thread, call, memory, change, -, rfl, rfl⟩ |
    ⟨thread, call, change, -, -, rfl, rfl⟩
  · exact .inl rfl
  · exact .inl rfl
  · cases change with
    | install payload => exact .inr ⟨rfl, by simp [ClipChange.apply]⟩
    | clear =>
        simp only [ClipChange.apply, Clip.dwmClipboardClear]
        split
        · exact .inl rfl
        · exact .inr ⟨rfl, by simp⟩
    | completeCut sequence =>
        simp only [ClipChange.apply, Clip.dwmClipboardFilesCompleteCut]
        split
        · exact .inl rfl
        · exact .inr ⟨rfl, by simp⟩

theorem run_sequence (hrun : Trace.run step s events = some (answers, s')) :
    s'.clip.sequence = s.clip.sequence + .ofNat (s.changes events) ∧
      (s.changes events = 0 → s'.clip = s.clip) := by
  induction events generalizing s answers with
  | nil =>
      cases hrun
      exact ⟨(UInt32.add_zero _).symm, fun _ => rfl⟩
  | cons event events ih =>
      obtain ⟨answer, s₁, rest, hstep, hrest, rfl⟩ := Trace.run_cons.mp hrun
      obtain ⟨hsequence, hsame⟩ := ih hrest
      simp only [changes, hstep]
      rcases step_sequence hstep with hclip | ⟨hcounts, -⟩
      · rw [if_pos (congrArg Clip.sequence hclip), Nat.zero_add]
        exact ⟨hclip ▸ hsequence, fun hzero => (hsame hzero).trans hclip⟩
      · have hne : s₁.clip.sequence ≠ s.clip.sequence := by
          rw [hcounts]
          intro hback
          exact absurd (UInt32.add_eq_left.mp hback) (by decide)
        rw [if_neg hne]
        refine ⟨?_, fun hzero => by omega⟩
        rw [hsequence, hcounts, UInt32.ofNat_add, UInt32.add_assoc]
        rfl

/-- What callers of the clipboard may rely on. -/
structure Served (answers : List (Option (ClipCall × Bool))) (s : ClipSystem Thread) : Prop where
  contents : s.clip.toClipPayload = payloadOf (contentsAfter answers)
  failed : ∀ event call s', s.step event = some (some (call, false), s') → s'.clip = s.clip
  files : ∀ paths op, contentsAfter answers = some (.files paths op) →
    s.clip.data = some (packPaths paths) ∧ s.clip.fileCount.toNat = paths.length ∧
    (∀ index size, size ≠ 0 → s.clip.dwmClipboardGetFile index size =
      some (match paths[index.toNat]? with
        | some path => if path.length < size.toNat then (true, path ++ [0]) else (false, [0])
        | none => (false, [0]))) ∧
    ∀ size, s.clip.dwmClipboardGetText size = some (.ofNat (joinPaths paths).length,
      if size = 0 then [] else (joinPaths paths).take (size.toNat - 1) ++ [0])
  cut : ∀ events answers' s' thread s'', Trace.run step s events = some (answers', s') →
    s.changes events < 2 ^ 32 →
    s'.step (.lock thread) = some (some (.filesCompleteCut s.clip.sequence, true), s'') →
      s'.clip = s.clip ∧ (∃ paths, contentsAfter answers = some (.files paths .cut)) ∧
        s''.clip.toClipPayload = Clip.takenPayload

/-- Only the contents that a caller has seen are cut, and they are gone then. -/
theorem Kept.cut (h : Kept answers s)
    (hrun : Trace.run ClipSystem.step s events = some (answers', s'))
    (hchanges : s.changes events < 2 ^ 32) {thread : Thread}
    (hstep : s'.step (.lock thread) =
      some (some (.filesCompleteCut s.clip.sequence, true), s'')) :
    s'.clip = s.clip ∧ (∃ paths, contentsAfter answers = some (.files paths .cut)) ∧
      s''.clip.toClipPayload = Clip.takenPayload := by
  rcases step_cases hstep with ⟨call, heq, -⟩ | ⟨_, _, _, _, -, heq, -⟩ |
    ⟨thread', call, change, hthread, hwaiting, heq, rfl⟩
  · cases heq
  · cases heq
  obtain ⟨memory, hbuild⟩ := (h.run hrun).waiting thread' call change hwaiting
  obtain ⟨rfl, hdone⟩ := Prod.mk.inj (Option.some.inj heq)
  cases hbuild
  simp only [ClipChange.apply, Clip.dwmClipboardFilesCompleteCut] at hdone ⊢
  split at hdone
  next => cases hdone
  next hpresent =>
    simp only [not_or, not_not] at hpresent
    obtain ⟨hsequence, hformat, hop⟩ := hpresent
    obtain ⟨hcounted, hsame⟩ := run_sequence hrun
    rw [hsequence, eq_comm, UInt32.add_eq_left, ← UInt32.toNat_inj, UInt32.toNat_ofNat',
      UInt32.toNat_zero, Nat.mod_eq_of_lt hchanges] at hcounted
    have hclip := hsame hcounted
    refine ⟨hclip, ?_, by rw [if_neg (by simp [hsequence, hformat, hop])]; rfl⟩
    rw [hclip, h.contents] at hformat hop
    cases hcontents : contentsAfter answers with
    | none =>
        rw [hcontents] at hformat
        cases hformat
    | some contents =>
        rw [hcontents] at hformat hop
        cases contents with
        | files paths op =>
            obtain rfl : op = .cut := hop
            exact ⟨paths, rfl⟩
        | text | image | binary => cases hformat

/-- However the calls of several threads interleave, the clipboard holds what the last successful
one of them has put there, and calls that fail change nothing. -/
theorem run_clipboard_served (hrun : Trace.run step (start : ClipSystem Thread) events =
    some (answers, s)) : s.Served answers := by
  have hstart : Kept [] (start : ClipSystem Thread) :=
    ⟨rfl, by simp [contentsAfter, lastDone], by simp [start]⟩
  have h : Kept answers s := hstart.run hrun
  refine ⟨h.contents, fun event call s' hstep => (step_sequence hstep).resolve_right fun hcounts =>
    hcounts.2 call rfl, fun paths op hfiles => ?_,
    fun _ _ _ _ _ hlater hchanges hstep => h.cut hlater hchanges hstep⟩
  have hclip : s.clip.toClipPayload = (ClipContents.files paths op).payload := by
    rw [h.contents, hfiles]
    rfl
  have hvalid := h.valid _ hfiles
  refine ⟨congrArg ClipPayload.data hclip, ?_, fun index size hsize =>
    s.clip.getFile_files hclip hvalid index hsize, s.clip.getText_files hclip hvalid⟩
  rw [show s.clip.fileCount = .ofNat paths.length from congrArg ClipPayload.fileCount hclip,
    UInt32.toNat_ofNat']
  have hmany := hvalid.2.1
  omega

/-- One thread cuts two files while another one sets a text; the first one is the last to take the
lock. A list without a path and a stale sequence number are refused. -/
def exampleEvents : List (ClipEvent Bool) :=
  [.enter false (.setFiles (some [some [0x2F, 0x61, 0], some [0x2F, 0x62, 0x63, 0]]) 2 1) true,
    .enter true (.setTextN (some [0x68, 0x69, 0]) 5) true, .lock true, .lock false,
    .enter true (.setFiles (some [none]) 1 0) true, .enter true (.filesCompleteCut 1) true,
    .lock true]

theorem run_clipboard_served_two : ∃ answers s,
    Trace.run step start exampleEvents = some (answers, s) ∧ s.clip.sequence = 2 ∧
      contentsAfter answers = some (.files [[0x2F, 0x61], [0x2F, 0x62, 0x63]] .cut) ∧
      s.Served answers := by
  have hshown : (Trace.run step start exampleEvents).map
      (fun result => (result.2.clip.sequence, contentsAfter result.1)) =
        some (2, some (.files [[0x2F, 0x61], [0x2F, 0x62, 0x63]] .cut)) := by
    decide +kernel
  obtain ⟨⟨answers, s⟩, hrun, hresult⟩ := Option.map_eq_some_iff.mp hshown
  obtain ⟨hsequence, hcontents⟩ := Prod.mk.inj hresult
  exact ⟨answers, s, hrun, hsequence, hcontents, run_clipboard_served hrun⟩

end ClipSystem

end AvrKernel.Dwm

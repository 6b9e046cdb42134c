import AvrKernel.Lib.Trace
import AvrKernel.Vfs.Descriptor
import AvrKernel.Vfs.Tree

/-!
# Runs of the virtual file system

Every operation of the VFS as one step, and what holds of the table of open files
in every run: the handle of a descriptor is one of its file, and it cannot write
if the descriptor was not opened for writing.
-/

namespace AvrKernel.BaseFS.FS

open Effect

/-! ## Handles -/

theorem read_yields (file : FileHandle) (size : UInt32) :
    (fsFileRead file size).Yields fun result =>
      ∃ position, result.2.2 = { file with position } := by
  have hsame : ∃ position, file = { file with position } := ⟨file.position, rfl⟩
  refine Prog.Yields.bind_any fun valid => ?_
  split
  · split
    · exact hsame
    · split
      · exact hsame
      · refine Prog.Yields.bind_any fun fileSize => ?_
        split
        · exact hsame
        · exact Prog.Yields.bind_any fun header => Prog.Yields.bind_any fun transfer => ⟨_, rfl⟩
  · exact hsame

theorem writeBytes_yields (file : FileHandle) (source : List UInt8) (size : UInt32) :
    (writeBytes file source size).Yields fun result =>
      ∃ position, result.2 = { file with position } :=
  Prog.Yields.bind_any fun _ => Prog.Yields.bind_any fun _ => ⟨_, rfl⟩

theorem write_yields (file : FileHandle) (source : List UInt8) (size : UInt32) :
    (fsFileWrite file source size).Yields fun result =>
      ∃ position, result.2 = { file with position } := by
  have hsame : ∃ position, file = { file with position } := ⟨file.position, rfl⟩
  refine Prog.Yields.bind_any fun valid => ?_
  split
  · split
    · exact hsame
    · split
      · exact hsame
      · refine Prog.Yields.bind_any fun fileSize => ?_
        split
        · refine Prog.Yields.bind_any fun grown => ?_
          split
          · exact writeBytes_yields file source size
          · exact hsame
        · exact writeBytes_yields file source size
  · exact hsame

theorem seek_yields (file : FileHandle) (position : UInt32) :
    (fsFileSeek file position).Yields fun result =>
      ∃ position', result.2 = { file with position := position' } := by
  refine Prog.Yields.bind_any fun valid => ?_
  split
  · exact Prog.Yields.bind_any fun fileSize => ⟨_, rfl⟩
  · exact ⟨file.position, rfl⟩

end AvrKernel.BaseFS.FS

namespace AvrKernel.Vfs

open BaseFS Kernel Effect VfsM

/-! ## Operations -/

inductive VfsOp
  | openFile (path : List UInt8) (flags : UInt16)
  | closeFile (file : UInt32)
  | read (file size : UInt32)
  | write (file : UInt32) (buffer : List UInt8) (size : UInt32)
  | seek (file position : UInt32)
  | tell (file : UInt32)
  | getSize (file : UInt32)
  | exist (path : List UInt8)
  | mkdir (path : List UInt8)
  | remove (path : List UInt8)
  | rename (path name : List UInt8)
  | truncate (path : List UInt8) (newSize : UInt32)
  | stat (path : List UInt8)
  | setPermissions (path : List UInt8) (perm : UInt8)
  | getPermissions (path : List UInt8)
  | directoryCheck (path : List UInt8)
  | directoryCheckMounted (path : List UInt8)
  | directoryGetItemCount (path : List UInt8)
  | directoryGetItem (path : List UInt8) (index : UInt32)
  | syncAll

inductive VfsAnswer
  | none
  | status (ok : Bool)
  | word (value : UInt32)
  | data (count : UInt32) (bytes : List UInt8)
  | stats (stats : Option FSFileStats)
  | permissions (perm : Option UInt8)
  | name (name : Option (List UInt8))
  deriving DecidableEq

namespace VfsOp

def program : VfsOp → VfsM VfsAnswer
  | openFile path flags => do
      let file ← doOpen path flags
      return .word file
  | closeFile file => do
      doClose file
      return .none
  | read file size => do
      let (count, bytes) ← doRead file size
      return .data count bytes
  | write file buffer size => do
      let count ← doWrite file buffer size
      return .word count
  | seek file position => do
      let position' ← doSeek file position
      return .word position'
  | tell file => do
      let position ← doTell file
      return .word position
  | getSize file => do
      let size ← doGetSize file
      return .word size
  | exist path => do
      let found ← doExists path
      return .status found
  | mkdir path => do
      let ok ← doMkdir path
      return .status ok
  | remove path => do
      let ok ← doRemove path
      return .status ok
  | rename path name => do
      let ok ← doRename path name
      return .status ok
  | truncate path newSize => do
      let ok ← doTruncate path newSize
      return .status ok
  | stat path => do
      let stats ← doStat path
      return .stats stats
  | setPermissions path perm => do
      let ok ← doSetPermissions path perm
      return .status ok
  | getPermissions path => do
      let perm ← doGetPermissions path
      return .permissions perm
  | directoryCheck path => do
      let found ← doDirectoryCheck path
      return .status found
  | directoryCheckMounted path => do
      let found ← doDirectoryCheckMounted path
      return .status found
  | directoryGetItemCount path => do
      let count ← doDirectoryGetItemCount path
      return .word count
  | directoryGetItem path index => do
      let name ← doDirectoryGetItem path index
      return .name name
  | syncAll => do
      let ok ← doSyncAll
      return .status ok

def step (n : Nat) (s : VfsState) (op : VfsOp) : Option (VfsAnswer × VfsState) :=
  op.program.run n VfsState.handle s

/-- Operations that open, close or use descriptors. -/
def UsesTable : VfsOp → Prop
  | openFile .. | closeFile _ | read .. | write .. | seek .. => True
  | _ => False

end VfsOp

namespace VfsM

variable {n : Nat} {s s' : VfsState} {α : Type}

/-! ## Resolving -/

theorem views_resolvePathToAddress (path : List UInt8) :
    Views (resolvePathToAddress path) := by
  rw [resolvePathToAddress]
  split
  · trivial
  · refine (views_resolveWalk path).bind fun walk => ?_
    cases walk <;> trivial

theorem views_resolveParentPathToAddress (path : List UInt8) :
    Views (resolveParentPathToAddress path) := by
  rw [resolveParentPathToAddress]
  split
  · trivial
  · split
    · trivial
    · exact views_resolvePathToAddress _

theorem views_mountTokens (path : List (List UInt8)) (knode : UInt32) :
    Views (mountTokens path knode) := by
  induction path generalizing knode with
  | nil => trivial
  | cons token rest ih =>
      rw [mountTokens]
      split
      · exact ih knode
      · refine (views_nextKnode _ _).bind fun next => ?_
        cases next with
        | none => trivial
        | some next =>
            refine (views_kernel (KernelM.readOnly_getFlags _)).bind fun flags => ?_
            split
            · trivial
            · exact ih next

theorem views_resolvePathToMountPoint (path : List UInt8) :
    Views (resolvePathToMountPoint path) := by
  rw [resolvePathToMountPoint]
  split
  · trivial
  · refine (views_kernel KernelM.readOnly_getRoot).bind fun root => ?_
    refine (views_kernel (KernelM.readOnly_getFlags _)).bind fun flags => ?_
    split
    · trivial
    · exact views_mountTokens _ _

theorem views_deviceGetContext (path : List UInt8) : Views (vfsDeviceGetContext path) := by
  refine (views_resolvePathToMountPoint path).bind fun address => ?_
  split
  · trivial
  · refine (views_kernel (KernelM.readOnly_isValidAddress _)).bind fun valid => ?_
    split
    · refine (views_kernel (KernelM.readOnly_getFlags _)).bind fun flags => ?_
      split
      · trivial
      · exact views_kernel (KernelM.readOnly_getReference _ _)
    · trivial

theorem views_onDevice (ctx address : UInt32) : Views (onDevice ctx address) := by
  rw [onDevice]
  split
  · exact views_device (FS.readOnly_checkDirectoryValid address)
  · trivial

theorem views_hasKernelFlag (address : UInt32) (mask : UInt8) :
    Views (hasKernelFlag address mask) := by
  apply (views_kernel (KernelM.readOnly_isValid address)).bind
  intro valid
  split
  · exact (views_kernel (KernelM.readOnly_getFlags address)).bind fun _ => trivial
  · trivial

theorem views_directoryCheckMounted (path : List UInt8) :
    Views (doDirectoryCheckMounted path) := by
  rw [doDirectoryCheckMounted]
  split
  · trivial
  · apply (views_resolvePathToAddress path).bind
    intro address
    split
    · trivial
    · apply (views_hasKernelFlag address _).bind
      intro mounted
      split
      · trivial
      · apply (views_deviceGetContext path).bind
        intro ctx
        apply (views_onDevice ctx address).bind
        intro found
        split
        · exact (views_device (FS.readOnly_getParent address)).bind fun _ => trivial
        · trivial

theorem readOnly_resolvePathToAddress (path : List UInt8) :
    ReadOnly (resolvePathToAddress path) := (views_resolvePathToAddress path).readOnly

theorem readOnly_resolveParentPathToAddress (path : List UInt8) :
    ReadOnly (resolveParentPathToAddress path) := (views_resolveParentPathToAddress path).readOnly

theorem readOnly_deviceGetContext (path : List UInt8) : ReadOnly (vfsDeviceGetContext path) :=
  (views_deviceGetContext path).readOnly

theorem readOnly_directoryCheckMounted (path : List UInt8) :
    ReadOnly (doDirectoryCheckMounted path) := (views_directoryCheckMounted path).readOnly

/-! ## The table of open files -/

theorem keepsTable_resolve (path : List UInt8) : KeepsTable (resolvePathToAddress path) :=
  (readOnly_resolvePathToAddress path).keepsTable

theorem keepsTable_resolveParent (path : List UInt8) :
    KeepsTable (resolveParentPathToAddress path) :=
  (readOnly_resolveParentPathToAddress path).keepsTable

theorem keepsTable_getContext (path : List UInt8) : KeepsTable (vfsDeviceGetContext path) :=
  (readOnly_deviceGetContext path).keepsTable

theorem keepsTable_onDevice (ctx address : UInt32) : KeepsTable (onDevice ctx address) :=
  (views_onDevice ctx address).readOnly.keepsTable

theorem keepsTable_nodeOnDevice (fileFirst : Bool) (ctx address : UInt32) :
    KeepsTable (nodeOnDevice fileFirst ctx address) := by
  rw [nodeOnDevice]
  split
  · trivial
  · split
    · refine (keepsTable_device _ _).bind fun found => ?_
      split
      · trivial
      · exact keepsTable_device _ _
    · refine (keepsTable_device _ _).bind fun found => ?_
      split
      · trivial
      · exact keepsTable_device _ _

theorem keepsTable_located (path : List UInt8) {refuses : UInt32 → Prop} [DecidablePred refuses]
    {refused : VfsM α} {f : UInt32 → UInt32 → VfsM α} (hrefused : KeepsTable refused)
    (hf : ∀ address ctx, KeepsTable (f address ctx)) :
    KeepsTable (do
      let address ← resolvePathToAddress path
      if refuses address then refused
      else do
        let ctx ← vfsDeviceGetContext path
        f address ctx) := by
  refine (keepsTable_resolve path).bind fun address => ?_
  split
  · exact hrefused
  · exact (keepsTable_getContext path).bind (hf address)

theorem keepsTable_exists (path : List UInt8) : KeepsTable (doExists path) := by
  rw [doExists]
  split
  · trivial
  · refine keepsTable_located path trivial fun address ctx => ?_
    split
    · refine (keepsTable_device _ _).bind fun found => ?_
      split
      · trivial
      · exact keepsTable_device _ _
    · exact keepsTable_kernel _

theorem keepsTable_mkdir (path : List UInt8) : KeepsTable (doMkdir path) := by
  rw [doMkdir]
  split
  · trivial
  · split
    · trivial
    · split
      · trivial
      · refine (keepsTable_resolve _).bind fun parent => ?_
        split
        · trivial
        · refine (keepsTable_getContext _).bind fun ctx => ?_
          refine (keepsTable_onDevice _ _).bind fun found => ?_
          split
          · refine (keepsTable_device _ _).bind fun parentPerm => ?_
            split
            · trivial
            · exact (keepsTable_device _ _).bind fun _ => trivial
          · refine (keepsTable_kernel _).bind fun valid => ?_
            split
            · refine (keepsTable_kernel _).bind fun parentPerm => ?_
              split
              · trivial
              · exact (keepsTable_kernel _).bind fun _ => trivial
            · trivial

theorem keepsTable_removeOnDevice (ctx address parent : UInt32) :
    KeepsTable (removeOnDevice ctx address parent) := by
  refine (keepsTable_device _ _).bind fun itemPerm => ?_
  refine (keepsTable_device _ _).bind fun parentPerm => ?_
  split
  · trivial
  · refine (keepsTable_device _ _).bind fun isFile => ?_
    split
    · exact (keepsTable_device _ _).bind fun _ => keepsTable_device _ _
    · refine (keepsTable_device _ _).bind fun isDirectory => ?_
      split
      · exact keepsTable_device _ _
      · trivial

theorem keepsTable_removeKnode (address parent : UInt32) :
    KeepsTable (removeKnode address parent) := by
  refine (keepsTable_kernel _).bind fun itemPerm => ?_
  refine (keepsTable_kernel _).bind fun parentPerm => ?_
  split
  · trivial
  · exact keepsTable_kernel _

theorem keepsTable_remove (path : List UInt8) : KeepsTable (doRemove path) := by
  rw [doRemove]
  split
  · trivial
  · refine (keepsTable_resolve path).bind fun address => ?_
    split
    · trivial
    · refine (keepsTable_resolveParent path).bind fun parent => ?_
      split
      · trivial
      · refine (keepsTable_getContext path).bind fun ctx => ?_
        refine (keepsTable_onDevice _ _).bind fun found => ?_
        split
        · exact keepsTable_removeOnDevice _ _ _
        · exact keepsTable_removeKnode _ _

theorem keepsTable_rename (path name : List UInt8) : KeepsTable (doRename path name) := by
  rw [doRename]
  split
  · trivial
  · split
    · trivial
    · refine (keepsTable_resolve path).bind fun address => ?_
      split
      · trivial
      · refine (keepsTable_resolveParent path).bind fun parent => ?_
        split
        · trivial
        · refine (keepsTable_getContext path).bind fun ctx => ?_
          refine (keepsTable_onDevice _ _).bind fun found => ?_
          split
          · refine (keepsTable_device _ _).bind fun existing => ?_
            split
            · trivial
            · exact keepsTable_device _ _
          · exact (keepsTable_kernel _).bind fun _ => trivial

theorem keepsTable_truncate (path : List UInt8) (newSize : UInt32) :
    KeepsTable (doTruncate path newSize) := by
  rw [doTruncate]
  split
  · trivial
  · refine keepsTable_located path trivial fun address ctx => ?_
    split
    · exact (keepsTable_device _ _).bind fun _ => trivial
    · trivial

theorem keepsTable_stat (path : List UInt8) : KeepsTable (doStat path) := by
  rw [doStat]
  split
  · trivial
  · refine keepsTable_located path trivial fun address ctx => ?_
    refine (keepsTable_nodeOnDevice _ _ _).bind fun found => ?_
    split
    · exact (keepsTable_device _ _).bind fun _ => (keepsTable_device _ _).bind fun _ =>
        (keepsTable_device _ _).bind fun _ => trivial
    · refine (keepsTable_kernel _).bind fun valid => ?_
      split
      · exact (keepsTable_kernel _).bind fun _ => (keepsTable_kernel _).bind fun _ => trivial
      · trivial

theorem keepsTable_setPermissions (path : List UInt8) (perm : UInt8) :
    KeepsTable (doSetPermissions path perm) := by
  rw [doSetPermissions]
  split
  · trivial
  · refine keepsTable_located path trivial fun address ctx => ?_
    refine (keepsTable_nodeOnDevice _ _ _).bind fun found => ?_
    split
    · exact (keepsTable_device _ _).bind fun _ => trivial
    · refine (keepsTable_kernel _).bind fun valid => ?_
      split
      · exact (keepsTable_kernel _).bind fun _ => trivial
      · trivial

theorem keepsTable_getPermissions (path : List UInt8) : KeepsTable (doGetPermissions path) := by
  rw [doGetPermissions]
  split
  · trivial
  · refine keepsTable_located path trivial fun address ctx => ?_
    refine (keepsTable_nodeOnDevice _ _ _).bind fun found => ?_
    split
    · exact (keepsTable_device _ _).bind fun _ => trivial
    · refine (keepsTable_kernel _).bind fun valid => ?_
      split
      · exact (keepsTable_kernel _).bind fun _ => trivial
      · trivial

theorem keepsTable_directoryCheck (path : List UInt8) : KeepsTable (doDirectoryCheck path) := by
  rw [doDirectoryCheck]
  split
  · trivial
  · refine (readOnly_directoryCheckMounted path).keepsTable.bind fun mounted => ?_
    split
    · trivial
    · refine (keepsTable_resolve path).bind fun address => ?_
      split
      · trivial
      · refine (views_hasKernelFlag _ _).readOnly.keepsTable.bind fun directory => ?_
        split
        · trivial
        · exact (keepsTable_getContext path).bind fun ctx => keepsTable_onDevice _ _

theorem keepsTable_directoryGetItemCount (path : List UInt8) :
    KeepsTable (doDirectoryGetItemCount path) := by
  rw [doDirectoryGetItemCount]
  split
  · trivial
  · refine keepsTable_located path trivial fun address ctx => ?_
    refine (keepsTable_onDevice _ _).bind fun found => ?_
    split
    · exact keepsTable_device _ _
    · exact keepsTable_kernel _

theorem keepsTable_directoryGetItem (path : List UInt8) (index : UInt32) :
    KeepsTable (doDirectoryGetItem path index) := by
  rw [doDirectoryGetItem]
  split
  · trivial
  · refine keepsTable_located path trivial fun address ctx => ?_
    refine (keepsTable_onDevice _ _).bind fun found => ?_
    split
    · exact (keepsTable_device _ _).bind fun _ => (keepsTable_device _ _).bind fun _ => trivial
    · exact (keepsTable_kernel _).bind fun _ => (keepsTable_kernel _).bind fun _ => trivial

theorem keepsTable_syncMount (mount : UInt32) : KeepsTable (syncMount mount) := by
  rw [syncMount]
  split
  · trivial
  · refine (keepsTable_kernel _).bind fun flags => ?_
    split
    · trivial
    · refine (keepsTable_kernel _).bind fun ctxRef => ?_
      split
      · trivial
      · refine (keepsTable_device _ _).bind fun geometry => ?_
        split
        · trivial
        · exact ⟨trivial, fun _ => trivial⟩

theorem keepsTable_syncMounts (mnt : UInt32) (remaining : Nat) (index : UInt32) (ok : Bool) :
    KeepsTable (syncMounts mnt remaining index ok) := by
  induction remaining generalizing index ok with
  | zero => trivial
  | succ remaining ih =>
      exact (keepsTable_kernel _).bind fun mount => (keepsTable_syncMount _).bind fun _ => ih _ _

theorem keepsTable_syncAll : KeepsTable doSyncAll := by
  refine (keepsTable_kernel _).bind fun root => (keepsTable_kernel _).bind fun mnt => ?_
  split
  · trivial
  · exact (keepsTable_kernel _).bind fun count => keepsTable_syncMounts _ _ _ _

theorem keepsTable_findOpen (file : UInt32) : KeepsTable (vfsFileFindOpen file) := by
  rw [vfsFileFindOpen]
  split
  · trivial
  · exact ⟨trivial, fun _ => trivial⟩

theorem keepsTable_tell (file : UInt32) : KeepsTable (doTell file) := by
  refine (keepsTable_findOpen file).bind fun desc => ?_
  cases desc <;> trivial

theorem keepsTable_getSize (file : UInt32) : KeepsTable (doGetSize file) := by
  refine (keepsTable_findOpen file).bind fun desc => ?_
  cases desc with
  | none => trivial
  | some desc =>
      dsimp only
      split
      · exact keepsTable_device _ _
      · exact keepsTable_kernel _

/-- The other operations leave the table of open files alone. -/
theorem keepsTable_program {op : VfsOp} (h : ¬op.UsesTable) : KeepsTable op.program := by
  cases op with
  | openFile | closeFile | read | write | seek => exact absurd trivial h
  | tell file => exact (keepsTable_tell file).bind fun _ => trivial
  | getSize file => exact (keepsTable_getSize file).bind fun _ => trivial
  | exist path => exact (keepsTable_exists path).bind fun _ => trivial
  | mkdir path => exact (keepsTable_mkdir path).bind fun _ => trivial
  | remove path => exact (keepsTable_remove path).bind fun _ => trivial
  | rename path name => exact (keepsTable_rename path name).bind fun _ => trivial
  | truncate path newSize => exact (keepsTable_truncate path newSize).bind fun _ => trivial
  | stat path => exact (keepsTable_stat path).bind fun _ => trivial
  | setPermissions path perm => exact (keepsTable_setPermissions path perm).bind fun _ => trivial
  | getPermissions path => exact (keepsTable_getPermissions path).bind fun _ => trivial
  | directoryCheck path => exact (keepsTable_directoryCheck path).bind fun _ => trivial
  | directoryCheckMounted path =>
      exact (readOnly_directoryCheckMounted path).keepsTable.bind fun _ => trivial
  | directoryGetItemCount path =>
      exact (keepsTable_directoryGetItemCount path).bind fun _ => trivial
  | directoryGetItem path index =>
      exact (keepsTable_directoryGetItem path index).bind fun _ => trivial
  | syncAll => exact keepsTable_syncAll.bind fun _ => trivial

end VfsM

/-! ## Moving open files -/

/-- What operations that neither open nor close do to the table of open files: nothing, or they
move one of them. -/
def VfsState.Moved (s s' : VfsState) : Prop :=
  s'.openFiles = s.openFiles ∨ ∃ file desc position offset, s.findOpen file = some desc ∧
    s'.openFiles = (s.setOpen
      { desc with handle := { desc.handle with position }, offset }).openFiles

/-- A program that leaves the table of open files alone or moves `desc`. -/
def VfsM.Moves (n : Nat) (desc : OpenFileDescriptor) {α : Type} (p : VfsM α) : Prop :=
  ∀ s value s', p.run n VfsState.handle s = some (value, s') →
    s'.openFiles = s.openFiles ∨ ∃ position offset, s'.openFiles = (s.setOpen
      { desc with handle := { desc.handle with position }, offset }).openFiles

namespace VfsM.Moves

variable {n : Nat} {s s' : VfsState} {desc : OpenFileDescriptor} {file : UInt32} {α β : Type}

theorem of_keepsTable {p : VfsM α} (hp : KeepsTable p) : Moves n desc p :=
  fun _ _ _ hrun => .inl (hp.run hrun)

theorem bind {p : VfsM α} {f : α → VfsM β} (hp : KeepsTable p)
    (hf : ∀ value s s', p.run n VfsState.handle s = some (value, s') → Moves n desc (f value)) :
    Moves n desc (p >>= f) := by
  intro s result s' hrun
  rw [Prog.run_bind_eq_some] at hrun
  obtain ⟨value, s₁, hfirst, hrest⟩ := hrun
  have hmoved := hf value s s₁ hfirst s₁ result s' hrest
  simp only [VfsState.setOpen, hp.run hfirst] at hmoved
  exact hmoved

theorem onDevice {ctx : UInt32} {q : FS α} {P : α → Prop} {f : α → VfsM β} (hq : q.Yields P)
    (hf : ∀ value, P value → Moves n desc (f value)) : Moves n desc (VfsM.device ctx q >>= f) := by
  apply bind (keepsTable_device _ _)
  intro value s s' hrun
  rw [run_device_eq_some] at hrun
  obtain ⟨d', hrun, -⟩ := hrun
  exact hf value (hq.run n Device.handle hrun)

theorem update (value : α) (position offset : UInt32) :
    Moves n desc (updateOpen { desc with handle := { desc.handle with position }, offset } >>=
      fun _ => Prog.ret value) := by
  intro s result s' hrun
  cases hrun
  exact .inr ⟨position, offset, rfl⟩

/-- Programs that begin by looking a descriptor up. -/
theorem findOpen {next : Option OpenFileDescriptor → VfsM α} {value : α}
    (hnone : KeepsTable (next none)) (hsome : ∀ desc, Moves n desc (next (some desc)))
    (hrun : (vfsFileFindOpen file >>= next).run n VfsState.handle s = some (value, s')) :
    s.Moved s' := by
  rw [Prog.run_bind, run_findOpen, Option.bind_some] at hrun
  cases hfind : s.findOpen file with
  | none =>
      rw [hfind] at hrun
      exact .inl (hnone.run hrun)
  | some desc =>
      rw [hfind] at hrun
      obtain htable | ⟨position, offset, htable⟩ := hsome desc s value s' hrun
      · exact .inl htable
      · exact .inr ⟨file, desc, position, offset, hfind, htable⟩

theorem doRead {size : UInt32} {result : UInt32 × List UInt8}
    (hrun : (doRead file size).run n VfsState.handle s = some (result, s')) : s.Moved s' := by
  refine findOpen ?_ (fun desc => ?_) hrun
  · trivial
  dsimp only
  split
  · apply bind (keepsTable_device _ _)
    intro perm _ _ _
    split
    · exact of_keepsTable trivial
    · apply onDevice (FS.read_yields _ _)
      rintro ⟨count, bytes, handle⟩ ⟨position, rfl⟩
      exact update _ position desc.offset
  · apply bind (keepsTable_kernel _)
    intro perm _ _ _
    split
    · exact of_keepsTable trivial
    · apply bind (keepsTable_kernel _)
      intro nodeSize _ _ _
      split
      · exact of_keepsTable trivial
      · exact bind (keepsTable_kernel _) fun _ _ _ _ => update _ desc.handle.position _

theorem doWrite {buffer : List UInt8} {size count : UInt32}
    (hrun : (doWrite file buffer size).run n VfsState.handle s = some (count, s')) :
    s.Moved s' := by
  refine findOpen ?_ (fun desc => ?_) hrun
  · trivial
  dsimp only
  split
  · apply bind (keepsTable_device _ _)
    intro perm _ _ _
    split
    · exact of_keepsTable trivial
    · apply onDevice (FS.write_yields _ _ _)
      rintro ⟨count, handle⟩ ⟨position, rfl⟩
      exact update _ position desc.offset
  · apply bind (keepsTable_kernel _)
    intro perm _ _ _
    split
    · exact of_keepsTable trivial
    · apply bind (keepsTable_kernel _)
      intro nodeSize _ _ _
      split
      · exact of_keepsTable trivial
      · exact bind (keepsTable_kernel _) fun _ _ _ _ => update _ desc.handle.position _

theorem doSeek {position answer : UInt32}
    (hrun : (doSeek file position).run n VfsState.handle s = some (answer, s')) :
    s.Moved s' := by
  refine findOpen ?_ (fun desc => ?_) hrun
  · trivial
  dsimp only
  split
  · apply onDevice (FS.seek_yields _ _)
    rintro ⟨position', handle⟩ ⟨sought, rfl⟩
    exact update _ sought position
  · exact update _ desc.handle.position position

end VfsM.Moves

/-- Only opening and closing change which files are open. -/
theorem VfsOp.step_moved {n : Nat} {s s' : VfsState} {op : VfsOp} {answer : VfsAnswer}
    (hopen : ∀ path flags, op ≠ .openFile path flags) (hclose : ∀ file, op ≠ .closeFile file)
    (hstep : op.step n s = some (answer, s')) : s.Moved s' := by
  by_cases huses : op.UsesTable
  · rw [VfsOp.step] at hstep
    cases op with
    | openFile path flags => exact absurd rfl (hopen path flags)
    | closeFile file => exact absurd rfl (hclose file)
    | read | write | seek =>
        rw [VfsOp.program, Prog.run_bind_eq_some] at hstep
        obtain ⟨result, s₁, hrun, hstep⟩ := hstep
        cases hstep
        first
          | exact VfsM.Moves.doRead hrun
          | exact VfsM.Moves.doWrite hrun
          | exact VfsM.Moves.doSeek hrun
    | _ => exact huses.elim
  · exact .inl ((keepsTable_program huses).run hstep)

/-! ## Descriptors and their handles -/

/-- The handle of a descriptor is one of its file, and it writes only if the descriptor was
opened for writing. -/
structure OpenFileDescriptor.Bound (desc : OpenFileDescriptor) : Prop where
  ctx : desc.inFileSystem = true → desc.handle.ctx = desc.ctx
  address : desc.inFileSystem = true → desc.handle.address = desc.address
  readOnly : desc.inFileSystem = true → hasOpenFlag desc.flags vfsOpenWrite = false →
    hasFlag desc.handle.mode fsFileModeWrite = false

/-- Every open file is bound. -/
def VfsState.AllBound (s : VfsState) : Prop := ∀ desc ∈ s.openFiles.files, desc.Bound

section Bound

variable {n : Nat} {s s' : VfsState} {desc : OpenFileDescriptor} {file : UInt32}

theorem VfsState.findOpen_mem (h : s.findOpen file = some desc) : desc ∈ s.openFiles.files := by
  rw [findOpen] at h
  split at h
  · cases h
  · exact List.mem_of_find?_eq_some h

theorem mem_replaceFirst {desc' : OpenFileDescriptor} {files : List OpenFileDescriptor}
    (h : desc' ∈ replaceFirst desc files) : desc' = desc ∨ desc' ∈ files := by
  induction files with
  | nil => cases h
  | cons first rest ih =>
      rw [replaceFirst] at h
      split at h
      · rcases List.mem_cons.mp h with rfl | hrest
        · exact .inl rfl
        · exact .inr (List.mem_cons_of_mem _ hrest)
      · rcases List.mem_cons.mp h with rfl | hrest
        · exact .inr List.mem_cons_self
        · exact (ih hrest).imp_right (List.mem_cons_of_mem _)

theorem mem_of_removeFirst {id : UInt32} {files : List OpenFileDescriptor}
    (h : desc ∈ removeFirst id files) : desc ∈ files := by
  induction files with
  | nil => cases h
  | cons first rest ih =>
      rw [removeFirst] at h
      split at h
      · exact List.mem_cons_of_mem _ h
      · rcases List.mem_cons.mp h with rfl | hrest
        · exact List.mem_cons_self
        · exact List.mem_cons_of_mem _ (ih hrest)

namespace VfsState.AllBound

/-- Moving an open file does not change what it is bound to. -/
theorem moved (h : s.AllBound) (hmoved : s.Moved s') : s'.AllBound := by
  obtain htable | ⟨file, old, position, offset, hfind, htable⟩ := hmoved
  · rw [AllBound, htable]
    exact h
  · rw [AllBound, htable]
    intro desc hmem
    rcases mem_replaceFirst hmem with rfl | hold
    · have hbound := h old (findOpen_mem hfind)
      exact ⟨hbound.ctx, hbound.address, hbound.readOnly⟩
    · exact h desc hold

theorem doOpen {path : List UInt8} {flags : UInt16} (h : s.AllBound)
    (hrun : (doOpen path flags).run n VfsState.handle s = some (file, s')) : s'.AllBound := by
  obtain ⟨-, hfiles, -⟩ | ⟨walk, handle, s₁, -, hnew, -, -, hfiles⟩ := run_open_cases hrun
  · rw [AllBound, hfiles]
    exact h
  · intro desc hmem
    rw [hfiles, List.mem_append, List.mem_singleton] at hmem
    obtain hold | rfl := hmem
    · exact h desc hold
    · refine ⟨fun hfs => (hnew hfs).ctx, fun hfs => ?_, fun hfs => (hnew hfs).readOnly⟩
      rw [(hnew hfs).address]
      exact (if_pos hfs).symm

theorem doClose (h : s.AllBound)
    (hrun : (doClose file).run n VfsState.handle s = some ((), s')) : s'.AllBound := by
  rw [VfsM.doClose, Prog.run_bind, run_findOpen, Option.bind_some] at hrun
  cases hfind : s.findOpen file with
  | none =>
      rw [hfind] at hrun
      cases hrun
      exact h
  | some desc =>
      rw [hfind] at hrun
      cases hrun
      exact fun desc' hmem => h desc' (mem_of_removeFirst hmem)

/-- Every operation keeps the open files bound. -/
theorem step {op : VfsOp} {answer : VfsAnswer} (h : s.AllBound)
    (hstep : op.step n s = some (answer, s')) : s'.AllBound := by
  cases op with
  | openFile path flags =>
      rw [VfsOp.step, VfsOp.program, Prog.run_bind_eq_some] at hstep
      obtain ⟨file, s₁, hrun, hstep⟩ := hstep
      cases hstep
      exact h.doOpen hrun
  | closeFile file =>
      rw [VfsOp.step, VfsOp.program, Prog.run_bind_eq_some] at hstep
      obtain ⟨_, s₁, hrun, hstep⟩ := hstep
      cases hstep
      exact h.doClose hrun
  | _ => exact h.moved (VfsOp.step_moved (by rintro _ _ ⟨⟩) (by rintro _ ⟨⟩) hstep)

/-- In every run from a state without open files the open files are bound. -/
theorem of_run {ok : VfsState → VfsOp → Prop} {ops : List VfsOp} {answers : List VfsAnswer}
    (hnone : s.openFiles.files = []) (hok : Trace.Permitted (VfsOp.step n) ok s ops)
    (hrun : Trace.run (VfsOp.step n) s ops = some (answers, s')) : s'.AllBound := by
  have hinit : s.AllBound := by
    rw [AllBound, hnone]
    exact fun desc hmem => absurd hmem List.not_mem_nil
  exact Trace.run_preserves (fun _ _ _ _ hbound _ hstep => hbound.step hstep) hinit hok hrun

end VfsState.AllBound

end Bound

end AvrKernel.Vfs

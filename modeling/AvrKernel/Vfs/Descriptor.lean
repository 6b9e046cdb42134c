import AvrKernel.Vfs.OpenFile
import AvrKernel.Vfs.Resolvers

/-!
# Runs on a descriptor

The pieces that operations on descriptors are made of, each with what it does to
the state: finding a descriptor, storing it, and running a program on a device or
in the kernel.
-/

namespace AvrKernel.Vfs

open BaseFS Kernel Effect

namespace VfsState

variable {s : VfsState} {file : UInt32} {desc old : OpenFileDescriptor}

/-- The open file that operations on an id work on. -/
def findOpen (s : VfsState) (file : UInt32) : Option OpenFileDescriptor :=
  if file = vfsInvalidFile then none else s.openFiles.files.find? fun desc => desc.id = file

def setOpen (desc : OpenFileDescriptor) (s : VfsState) : VfsState :=
  { s with openFiles := { s.openFiles with files := VfsM.replaceFirst desc s.openFiles.files } }

@[simp] theorem setDevice_devices (ctx : UInt32) (d : Device) (s : VfsState) :
    (s.setDevice ctx d).devices ctx = d := Function.update_self ..

theorem setDevice_devices_ne {ctx other : UInt32} (h : other ≠ ctx) (d : Device) (s : VfsState) :
    (s.setDevice ctx d).devices other = s.devices other := Function.update_of_ne h ..

@[simp] theorem setDevice_self (ctx : UInt32) (s : VfsState) :
    s.setDevice ctx (s.devices ctx) = s := by
  rw [setDevice, Function.update_eq_self]

theorem find_replaceFirst {files : List OpenFileDescriptor}
    (h : (files.find? fun desc' => desc'.id = desc.id) = some old) :
    (VfsM.replaceFirst desc files).find? (fun desc' => desc'.id = desc.id) = some desc := by
  induction files with
  | nil => cases h
  | cons first rest ih =>
      rw [VfsM.replaceFirst]
      split
      next => simp
      next hne =>
        rw [List.find?_cons_of_neg (by simpa using hne)] at h ⊢
        exact ih h

theorem findOpen_id (h : s.findOpen file = some desc) : desc.id = file := by
  rw [findOpen] at h
  split at h
  · cases h
  · simpa using List.find?_some h

/-- A stored descriptor is found under its id. -/
theorem findOpen_setOpen (h : s.findOpen file = some old) (hid : desc.id = file) :
    (s.setOpen desc).findOpen file = some desc := by
  subst hid
  rw [findOpen] at h ⊢
  split at h
  · cases h
  next hvalid =>
    rw [if_neg hvalid]
    exact find_replaceFirst h

end VfsState

/-- The id that the next new descriptor gets. -/
def OpenFiles.nextId (table : OpenFiles) : UInt32 :=
  if table.nextUniqueId = vfsInvalidFile then table.nextUniqueId + 1 else table.nextUniqueId

/-- Calls that leave the table of open files alone. -/
def VfsCall.KeepsTable : VfsCall → Prop
  | setOpenFiles _ => False
  | _ => True

namespace VfsM

variable {n : Nat} {s s' : VfsState} {file : UInt32} {α : Type}

theorem run_kernel (p : KernelM α) :
    (kernel p).run n VfsState.handle s =
      (p.run n KernelState.handle s.kernel).map fun result => (result.1, s.setKernel result.2) :=
  @Prog.run_embed _ _ _ _ _ VfsCall.Answer _ VfsCall.kernel (fun _ answer => answer)
    KernelState.handle VfsState.handle VfsState.kernel VfsState.setKernel (fun _ _ => rfl)
    (fun _ _ => rfl) (fun _ _ => rfl) (fun _ _ _ => rfl) (fun _ => rfl) n p s

theorem run_device (ctx : UInt32) (p : FS α) :
    (device ctx p).run n VfsState.handle s =
      (p.run n Device.handle (s.devices ctx)).map fun result =>
        (result.1, s.setDevice ctx result.2) := by
  refine @Prog.run_embed _ _ _ _ _ _ _ (VfsCall.device ctx) (fun _ answer => answer) Device.handle
    VfsState.handle (fun s => s.devices ctx) (VfsState.setDevice ctx) (fun _ _ => rfl)
    (fun _ _ => rfl) ?_ ?_ ?_ n p s
  · exact fun d s => VfsState.setDevice_devices ctx d s
  · intro d d' s
    simp only [VfsState.setDevice, Function.update_idem]
  · exact fun s => VfsState.setDevice_self ctx s

theorem run_device_eq_some {ctx : UInt32} {p : FS α} {value : α} :
    (device ctx p).run n VfsState.handle s = some (value, s') ↔
      ∃ d', p.run n Device.handle (s.devices ctx) = some (value, d') ∧ s' = s.setDevice ctx d' := by
  rw [run_device, Option.map_eq_some_iff]
  constructor
  · rintro ⟨⟨value', d'⟩, hrun, heq⟩
    obtain ⟨rfl, rfl⟩ := Prod.mk.injEq .. ▸ heq
    exact ⟨d', hrun, rfl⟩
  · rintro ⟨d', hrun, rfl⟩
    exact ⟨(value, d'), hrun, rfl⟩

theorem run_context (ctx : UInt32) :
    (device ctx FS.context).run n VfsState.handle s = some ((s.devices ctx).ctx.geometry, s) := by
  have hself : s.setDevice ctx (Device.handle FSCall.geometry (s.devices ctx)).2 = s :=
    VfsState.setDevice_self ctx s
  rw [run_device]
  exact congrArg (fun s' => some ((s.devices ctx).ctx.geometry, s')) hself

/-- A reading program of the kernel leaves the whole state as it is. -/
theorem run_kernel_readOnly {p : KernelM α} (hp : KernelM.ReadOnly p) {value : α} :
    (kernel p).run n VfsState.handle s = some (value, s') ↔
      p.run n KernelState.handle s.kernel = some (value, s.kernel) ∧ s' = s := by
  rw [run_kernel, Option.map_eq_some_iff]
  constructor
  · rintro ⟨⟨value', k'⟩, hrun, heq⟩
    obtain rfl := hp.run hrun
    obtain ⟨rfl, rfl⟩ := Prod.mk.injEq .. ▸ heq
    exact ⟨hrun, rfl⟩
  · rintro ⟨hrun, rfl⟩
    exact ⟨(value, s'.kernel), hrun, rfl⟩

theorem run_findOpen (file : UInt32) :
    (vfsFileFindOpen file).run n VfsState.handle s = some (s.findOpen file, s) := by
  rw [vfsFileFindOpen, VfsState.findOpen]
  split <;> rfl

theorem run_updateOpen (desc : OpenFileDescriptor) :
    (updateOpen desc).run n VfsState.handle s = some ((), s.setOpen desc) := rfl

theorem run_doTell : (doTell file).run n VfsState.handle s =
    some ((s.findOpen file).elim vfsInvalidFile OpenFileDescriptor.offset, s) := by
  rw [doTell, Prog.run_bind, run_findOpen, Option.bind_some]
  cases s.findOpen file <;> rfl

theorem run_tell {desc : OpenFileDescriptor} (hfind : s.findOpen file = some desc) :
    (doTell file).run n VfsState.handle s = some (desc.offset, s) := by
  rw [run_doTell, hfind]
  rfl

/-! ## The table of open files -/

/-- A program that leaves the table of open files alone. -/
abbrev KeepsTable (p : VfsM α) : Prop := p.All VfsCall.KeepsTable

theorem KeepsTable.run {p : VfsM α} (hp : KeepsTable p) {value : α}
    (hrun : p.run n VfsState.handle s = some (value, s')) : s'.openFiles = s.openFiles := by
  have hcalls : p.Calls n VfsState.handle (fun e _ => e.KeepsTable) s :=
    hp.calls _ _ (fun _ _ he => he) s
  refine Prog.run_preserves n VfsState.handle
    (fun e s₁ (hs₁ : s₁.openFiles = s.openFiles) he => ?_) rfl hcalls hrun
  cases e with
  | setOpenFiles table => exact he.elim
  | _ => exact hs₁

theorem keepsTable_kernel (p : KernelM α) : KeepsTable (kernel p) := by
  have hall : p.All fun e => (VfsCall.kernel e).KeepsTable :=
    Prog.All.of_forall (fun _ => trivial) p
  exact hall.embed

theorem keepsTable_device (ctx : UInt32) (p : FS α) : KeepsTable (device ctx p) := by
  have hall : p.All fun e => (VfsCall.device ctx e).KeepsTable :=
    Prog.All.of_forall (fun _ => trivial) p
  exact hall.embed

theorem ReadOnly.keepsTable {p : VfsM α} (hp : ReadOnly p) : KeepsTable p :=
  hp.mono fun e he => by
    cases e with
    | setOpenFiles table => exact he.elim
    | _ => trivial

theorem keepsTable_parseMount (walk : PathWalk) : KeepsTable (parseMount walk) := by
  refine (keepsTable_kernel _).bind fun flags => ?_
  split
  · refine (keepsTable_kernel _).bind fun deviceAddress => ?_
    refine (keepsTable_kernel _).bind fun deviceContext => ?_
    split
    · refine (keepsTable_device _ _).bind fun partition => ?_
      split
      · trivial
      · refine (keepsTable_device _ _).bind fun geometry => ?_
        split <;> trivial
    · trivial
  · trivial

theorem keepsTable_parseCreate (walk : PathWalk) (token : List UInt8) :
    KeepsTable (parseCreate walk token) := by
  rw [parseCreate]
  split
  · trivial
  · refine (keepsTable_device _ _).bind fun created => ?_
    split <;> trivial

theorem keepsTable_parseTokens (flags : UInt16) (path : List (List UInt8)) (walk : PathWalk) :
    KeepsTable (parseTokens flags path walk) := by
  induction path generalizing walk with
  | nil => trivial
  | cons token rest ih =>
      rw [parseTokens]
      split
      · exact ih walk
      · split
        · refine (views_nextKnode _ _).readOnly.keepsTable.bind fun next => ?_
          cases next with
          | none => trivial
          | some knode =>
              refine (keepsTable_parseMount _).bind fun entered => ?_
              cases entered with
              | none => trivial
              | some walk' => exact ih walk'
        · split
          · refine (keepsTable_device _ _).bind fun parent => ?_
            refine (keepsTable_device _ _).bind fun partition => ?_
            split
            · exact (keepsTable_kernel _).bind fun up => ih _
            · exact ih _
          · refine (keepsTable_device _ _).bind fun refCount => ?_
            refine (views_findReference _ _ _ _ _).readOnly.keepsTable.bind fun foundRef => ?_
            split
            · split
              · exact keepsTable_parseCreate _ _
              · trivial
            · exact ih _

theorem keepsTable_parsePath (path : List UInt8) (flags : UInt16) :
    KeepsTable (vfsParsePath path flags) :=
  (keepsTable_kernel _).bind fun _ => keepsTable_parseTokens _ _ _

theorem readOnly_canOpen (walk : PathWalk) : ReadOnly (canOpen walk) := by
  rw [canOpen]
  split
  · exact readOnly_device (FS.readOnly_fileCheck _)
  · exact (readOnly_kernel (KernelM.readOnly_getFlags _)).bind fun _ => trivial

theorem readOnly_openHandle (walk : PathWalk) (flags : UInt16) :
    ReadOnly (openHandle walk flags) := by
  rw [openHandle]
  split
  · exact (readOnly_device (FS.readOnly_getPermissions _)).bind fun _ =>
      readOnly_device (FS.readOnly_open _ _ _)
  · trivial

/-! ## Opening -/

/-- A handle as `fs_file_open` fills it for one of the modes of `vfs_open`. -/
structure NewHandle (ctx address : UInt32) (flags : UInt16) (handle : FileHandle) : Prop where
  ctx : handle.ctx = ctx
  address : handle.address = address
  position : handle.position = 0
  readOnly : hasOpenFlag flags vfsOpenWrite = false → hasFlag handle.mode fsFileModeWrite = false

theorem targetMode_append (flags : UInt16) (perm : UInt8) :
    hasFlag (targetMode flags perm) fsFileModeAppend = false := by
  rw [targetMode]
  generalize (hasOpenFlag flags vfsOpenRead && hasFlag perm fsPermissionRead) = read
  generalize (hasOpenFlag flags vfsOpenWrite && hasFlag perm fsPermissionWrite) = write
  cases read <;> cases write <;> rfl

theorem targetMode_write {flags : UInt16} (h : hasOpenFlag flags vfsOpenWrite = false)
    (perm : UInt8) : hasFlag (targetMode flags perm) fsFileModeWrite = false := by
  rw [targetMode, h, Bool.false_and]
  generalize (hasOpenFlag flags vfsOpenRead && hasFlag perm fsPermissionRead) = read
  cases read <;> rfl

theorem fileOpen_yields (ctx address : UInt32) (flags : UInt16) (perm : UInt8) :
    (FS.fsFileOpen ctx address (targetMode flags perm)).Yields fun result =>
      ∀ handle ∈ result, NewHandle ctx address flags handle := by
  have hrefused : ∀ handle ∈ (none : Option FileHandle), NewHandle ctx address flags handle := by
    rintro handle ⟨⟩
  refine Prog.Yields.bind_any fun ok => ?_
  split
  · refine Prog.Yields.bind_any fun header => ?_
    split
    · exact hrefused
    · split
      · exact hrefused
      · rw [if_neg (by simp [targetMode_append])]
        rintro handle ⟨⟩
        exact ⟨rfl, rfl, rfl, fun h => targetMode_write h perm⟩
  · exact hrefused

theorem openHandle_new {walk : PathWalk} {flags : UInt16} {handle : FileHandle}
    (hfs : walk.inFileSystem = true)
    (hrun : (openHandle walk flags).run n VfsState.handle s = some (some handle, s')) :
    NewHandle walk.ctx walk.fsNode flags handle := by
  rw [openHandle, if_pos hfs, Prog.run_bind_eq_some] at hrun
  obtain ⟨perm, s₁, -, hrun⟩ := hrun
  rw [run_device_eq_some] at hrun
  obtain ⟨d', hrun, -⟩ := hrun
  exact (fileOpen_yields walk.ctx walk.fsNode flags perm).run n Device.handle hrun handle rfl

theorem files_malloc {allocated : Bool}
    (hrun : malloc.run n VfsState.handle s = some (allocated, s')) :
    s'.openFiles = s.openFiles := by
  cases hrun
  rfl

theorem run_takeId {id : UInt32} (hrun : takeId.run n VfsState.handle s = some (id, s')) :
    id = s.openFiles.nextId ∧ s'.openFiles.files = s.openFiles.files ∧
      s'.openFiles.nextUniqueId = id + 1 := by
  rw [takeId, Prog.run_bind_eq_some] at hrun
  obtain ⟨table, s₁, htable, hrun⟩ := hrun
  cases htable
  rw [OpenFiles.nextId]
  split at hrun
  next hzero =>
    cases hrun
    refine ⟨(if_pos hzero).symm, rfl, ?_⟩
    rw [UInt32.add_assoc]
    rfl
  next hne =>
    cases hrun
    exact ⟨(if_neg hne).symm, rfl, rfl⟩

/-- The path has led to a node, and a descriptor of it is appended to the table. -/
def Opened (n : Nat) (path : List UInt8) (flags : UInt16) (file : UInt32)
    (s s' : VfsState) : Prop :=
  ∃ (walk : PathWalk) (handle : FileHandle) (s₁ : VfsState),
    (vfsParsePath path flags).run n VfsState.handle s = some (some walk, s₁) ∧
    (walk.inFileSystem = true → NewHandle walk.ctx walk.fsNode flags handle) ∧
    file = s.openFiles.nextId ∧ s'.openFiles.nextUniqueId = file + 1 ∧
    s'.openFiles.files = s.openFiles.files ++
      [{ id := file, address := walk.node, inFileSystem := walk.inFileSystem, offset := 0,
         handle, flags, ctx := walk.ctx }]

/-- What `vfs_open` has done when it returns: it has appended a descriptor to the table, or it
has left the files in the table alone. -/
theorem run_open_cases {path : List UInt8} {flags : UInt16}
    (hrun : (doOpen path flags).run n VfsState.handle s = some (file, s')) :
    (file = vfsInvalidFile ∧ s'.openFiles.files = s.openFiles.files ∧
      (s'.openFiles.nextUniqueId = s.openFiles.nextUniqueId ∨
        s'.openFiles.nextUniqueId = s.openFiles.nextId + 1)) ∨
    Opened n path flags file s s' := by
  have hkept {s' : VfsState} (htable : s'.openFiles = s.openFiles) :
      s'.openFiles.files = s.openFiles.files ∧
        (s'.openFiles.nextUniqueId = s.openFiles.nextUniqueId ∨
          s'.openFiles.nextUniqueId = s.openFiles.nextId + 1) :=
    ⟨congrArg OpenFiles.files htable, .inl (congrArg OpenFiles.nextUniqueId htable)⟩
  rw [doOpen] at hrun
  split at hrun
  · cases hrun
    exact .inl ⟨rfl, hkept rfl⟩
  · rw [Prog.run_bind_eq_some] at hrun
    obtain ⟨parsed, s₁, hparse, hrun⟩ := hrun
    have htable₁ := (keepsTable_parsePath path flags).run hparse
    cases parsed with
    | none =>
        cases hrun
        exact .inl ⟨rfl, hkept htable₁⟩
    | some walk =>
        dsimp only at hrun
        rw [Prog.run_bind_eq_some] at hrun
        obtain ⟨ok, s₂, hcan, hrun⟩ := hrun
        have htable₂ := ((readOnly_canOpen walk).keepsTable.run hcan).trans htable₁
        split at hrun
        · rw [Prog.run_bind_eq_some] at hrun
          obtain ⟨allocated, s₃, hmalloc, hrun⟩ := hrun
          have htable₃ := (files_malloc hmalloc).trans htable₂
          split at hrun
          · rw [Prog.run_bind_eq_some] at hrun
            obtain ⟨id, s₄, hid, hrun⟩ := hrun
            obtain ⟨hnext, hfiles₄, hcounter₄⟩ := run_takeId hid
            rw [htable₃] at hnext hfiles₄
            rw [Prog.run_bind_eq_some] at hrun
            obtain ⟨opened, s₅, hhandle, hrun⟩ := hrun
            have htable₅ := (readOnly_openHandle walk flags).keepsTable.run hhandle
            rw [← htable₅] at hfiles₄ hcounter₄
            cases opened with
            | none =>
                cases hrun
                exact .inl ⟨rfl, hfiles₄, .inr (hnext ▸ hcounter₄)⟩
            | some handle =>
                dsimp only at hrun
                rw [appendOpen, Prog.run_bind_eq_some] at hrun
                obtain ⟨appended, s₆, happend, hrun⟩ := hrun
                rw [← files_malloc happend] at hfiles₄ hcounter₄
                split at hrun
                · cases hrun
                  exact .inr ⟨walk, handle, s₁, hparse, fun hfs => openHandle_new hfs hhandle,
                    hnext, hcounter₄, congrArg (· ++ _) hfiles₄⟩
                · cases hrun
                  exact .inl ⟨rfl, hfiles₄, .inr (hnext ▸ hcounter₄)⟩
          · cases hrun
            exact .inl ⟨rfl, hkept htable₃⟩
        · cases hrun
          exact .inl ⟨rfl, hkept htable₂⟩

theorem run_open {path : List UInt8} {flags : UInt16} (hfile : file ≠ vfsInvalidFile)
    (hrun : (doOpen path flags).run n VfsState.handle s = some (file, s')) :
    Opened n path flags file s s' :=
  (run_open_cases hrun).resolve_left fun hinvalid => hfile hinvalid.1

/-- A file that was opened under a new id is the one that its descriptor is found for. -/
theorem findOpen_of_appended {desc : OpenFileDescriptor} (hfile : file ≠ vfsInvalidFile)
    (hid : desc.id = file) (hfresh : ∀ old ∈ s.openFiles.files, old.id ≠ file)
    (happended : s'.openFiles.files = s.openFiles.files ++ [desc]) :
    s'.findOpen file = some desc := by
  have hnone : s.openFiles.files.find? (fun desc => desc.id = file) = none := by
    rw [List.find?_eq_none]
    exact fun old hmem => by simpa using hfresh old hmem
  rw [VfsState.findOpen, if_neg hfile, happended, List.find?_append, hnone]
  simp [hid]

end VfsM

end AvrKernel.Vfs

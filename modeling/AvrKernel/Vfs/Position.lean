import AvrKernel.Lib.Trace
import AvrKernel.Vfs.Descriptor
import AvrKernel.Vfs.Mount

/-!
# The position of a descriptor

A descriptor has an offset, which `vfs_tell` reports, and a descriptor of a file
on a device has another position in its file handle, at which transfers act. The
two agree as long as no such transfer moves any bytes and no seek is clipped.
-/

namespace AvrKernel.BaseFS

open Bytes Effect

namespace FS

variable {n : Nat} {d d' : Device} {file file' : FileHandle} {position size count : UInt32}

/-- A seek to `position` is not clipped. -/
def SeeksWithin (n : Nat) (d : Device) (file : FileHandle) (position : UInt32) : Prop :=
  if d.view n (fsFileStructIsValid file) = some true then
    ∃ fileSize, d.view n (fsFileGetSize file.address) = some fileSize ∧ position ≤ fileSize
  else position = file.position

/-- The handle cannot be used for a transfer of `size` bytes in this mode. -/
def Refuses (n : Nat) (d : Device) (file : FileHandle) (mode : UInt8) (size : UInt32) : Prop :=
  size = 0 ∨ hasFlag file.mode mode = false ∨ d.view n (fsFileStructIsValid file) = some false

/-- The handle is at or behind the end of its file. -/
def AtEnd (n : Nat) (d : Device) (file : FileHandle) : Prop :=
  ∃ fileSize, d.view n (fsFileGetSize file.address) = some fileSize ∧ fileSize ≤ file.position

/-- The looks at a file that `vfs_write` takes before the file grows, and the growth. -/
def growFor (file : FileHandle) (size : UInt32) : FS Bool := do
  let _ ← fsFileGetPermissions file.address
  let _ ← fsFileStructIsValid file
  let _ ← fsFileGetSize file.address
  fsFileResize file.address (file.position + size)

/-- A write of `size` bytes needs a growth that is refused. -/
def CannotGrow (n : Nat) (d : Device) (file : FileHandle) (size : UInt32) : Prop :=
  (∃ fileSize, d.view n (fsFileGetSize file.address) = some fileSize ∧
    fileSize < file.position + size) ∧
  ∃ d', (growFor file size).run n Device.handle d = some (false, d')

theorem run_seek (h : d.Sound) (hwithin : SeeksWithin n d file position)
    (hrun : (fsFileSeek file position).run n Device.handle d = some ((count, file'), d')) :
    file' = { file with position } := by
  rw [fsFileSeek, Prog.run_bind_eq_some] at hrun
  obtain ⟨valid, d₁, hvalid, hrun⟩ := hrun
  obtain ⟨hsound, hlogical, hview⟩ := h.run_readOnly (readOnly_structIsValid file) hvalid
  rw [SeeksWithin, hview] at hwithin
  cases valid with
  | false =>
      rw [if_neg (by decide)] at hwithin
      cases hrun
      rw [hwithin]
  | true =>
      rw [if_pos rfl] at hwithin
      obtain ⟨fileSize, hsize, hle⟩ := hwithin
      rw [if_pos rfl, Prog.run_bind_eq_some] at hrun
      obtain ⟨fileSize', d₂, hgetSize, hrun⟩ := hrun
      have hview' := (hsound.run_readOnly (readOnly_getSize _) hgetSize).2.2
      rw [Device.view_of_logical hlogical, hsize] at hview'
      obtain rfl := Option.some.inj hview'
      cases hrun
      rw [if_neg (UInt32.not_lt.mpr hle)]

theorem run_read_nothing (h : d.Sound)
    (hnothing : Refuses n d file fsFileModeRead size ∨ AtEnd n d file) {bytes : List UInt8}
    (hrun : (fsFileRead file size).run n Device.handle d = some ((count, bytes, file'), d')) :
    count = 0 ∧ file' = file := by
  rw [fsFileRead, Prog.run_bind_eq_some] at hrun
  obtain ⟨valid, d₁, hvalid, hrun⟩ := hrun
  obtain ⟨hsound, hlogical, hview⟩ := h.run_readOnly (readOnly_structIsValid file) hvalid
  cases valid with
  | false =>
      cases hrun
      exact ⟨rfl, rfl⟩
  | true =>
      rw [if_pos rfl] at hrun
      split at hrun
      · cases hrun
        exact ⟨rfl, rfl⟩
      next hmode =>
        split at hrun
        · cases hrun
          exact ⟨rfl, rfl⟩
        next hsize =>
          rw [Prog.run_bind_eq_some] at hrun
          obtain ⟨fileSize, d₂, hgetSize, hrun⟩ := hrun
          have hview' := (hsound.run_readOnly (readOnly_getSize _) hgetSize).2.2
          rw [Device.view_of_logical hlogical] at hview'
          have hend : file.position ≥ fileSize := by
            rcases hnothing with (hzero | hlacks | hinvalid) | ⟨fileSize', hsize', hle⟩
            · exact absurd hzero hsize
            · exact absurd hlacks (by simpa using hmode)
            · rw [hview] at hinvalid
              cases hinvalid
            · rw [hview'] at hsize'
              exact Option.some.inj hsize' ▸ hle
          rw [if_pos hend] at hrun
          cases hrun
          exact ⟨rfl, rfl⟩

theorem run_write_nothing {d₀ : Device} {perm : UInt8} {buffer : List UInt8} (h : d₀.Sound)
    (hperm : (fsFileGetPermissions file.address).run n Device.handle d₀ = some (perm, d))
    (hnothing : Refuses n d₀ file fsFileModeWrite size ∨ CannotGrow n d₀ file size)
    (hrun : (fsFileWrite file buffer size).run n Device.handle d = some ((count, file'), d')) :
    count = 0 ∧ file' = file := by
  obtain ⟨hsound₀, hlogical₀, -⟩ := h.run_readOnly (readOnly_getPermissions _) hperm
  rw [fsFileWrite, Prog.run_bind_eq_some] at hrun
  obtain ⟨valid, d₁, hvalid, hrun⟩ := hrun
  obtain ⟨hsound, hlogical, hview⟩ := hsound₀.run_readOnly (readOnly_structIsValid file) hvalid
  rw [Device.view_of_logical hlogical₀] at hview
  cases valid with
  | false =>
      cases hrun
      exact ⟨rfl, rfl⟩
  | true =>
      rw [if_pos rfl] at hrun
      split at hrun
      · cases hrun
        exact ⟨rfl, rfl⟩
      next hmode =>
        split at hrun
        · cases hrun
          exact ⟨rfl, rfl⟩
        next hsize =>
          rw [Prog.run_bind_eq_some] at hrun
          obtain ⟨fileSize, d₂, hgetSize, hrun⟩ := hrun
          have hview' := (hsound.run_readOnly (readOnly_getSize _) hgetSize).2.2
          rw [Device.view_of_logical hlogical, Device.view_of_logical hlogical₀] at hview'
          rcases hnothing with (hzero | hlacks | hinvalid) | ⟨⟨fileSize', hsize', hless⟩, d₃, hgrow⟩
          · exact absurd hzero hsize
          · exact absurd hlacks (by simpa using hmode)
          · rw [hview] at hinvalid
            cases hinvalid
          · rw [hview'] at hsize'
            obtain rfl := Option.some.inj hsize'
            rw [if_pos hless, Prog.run_bind_eq_some] at hrun
            obtain ⟨grown, d₄, hresize, hrun⟩ := hrun
            have hgrown : (growFor file size).run n Device.handle d₀ = some (grown, d₄) := by
              rw [growFor, Prog.run_bind, hperm, Option.bind_some, Prog.run_bind, hvalid,
                Option.bind_some, Prog.run_bind, hgetSize]
              exact hresize
            rw [hgrow, Option.some_inj, Prod.mk.injEq] at hgrown
            obtain ⟨rfl, -⟩ := hgrown
            cases hrun
            exact ⟨rfl, rfl⟩

end FS

end AvrKernel.BaseFS

namespace AvrKernel.Vfs

open BaseFS Kernel Effect VfsM

/-- Where the next transfer on a descriptor acts. -/
def OpenFileDescriptor.position (desc : OpenFileDescriptor) : UInt32 :=
  if desc.inFileSystem = true then desc.handle.position else desc.offset

/-- The operations that use or move a position. -/
inductive DescriptorOp
  | seek (position : UInt32)
  | read (size : UInt32)
  | write (buffer : List UInt8) (size : UInt32)

namespace DescriptorOp

/-- Operations report a number. -/
def program (file : UInt32) : DescriptorOp → VfsM UInt32
  | seek position => doSeek file position
  | read size => do
      let (count, _) ← doRead file size
      return count
  | write buffer size => doWrite file buffer size

def step (n : Nat) (file : UInt32) (s : VfsState)
    (op : DescriptorOp) : Option (UInt32 × VfsState) :=
  (op.program file).run n VfsState.handle s

def IsTransfer : DescriptorOp → Prop
  | seek _ => False
  | read _ | write .. => True

end DescriptorOp

/-- The end of a transfer of `size` bytes on a kernel node can be told, unless `size` is
reported as a negative number. -/
def EndsInRange (n : Nat) (k : KernelState) (desc : OpenFileDescriptor) (size : UInt32) : Prop :=
  ∀ nodeSize, (KernelM.kmallocGetSize desc.address).run n KernelState.handle k =
    some (nodeSize, k) →
    desc.offset < nodeSize → desc.offset + size ≤ nodeSize →
      desc.offset.toNat + size.toNat < 2 ^ 32 ∨ 2 ^ 31 ≤ size.toNat

/-- Neither the permissions of the file nor those of the node allow it. -/
def LacksPermission (n : Nat) (s : VfsState) (desc : OpenFileDescriptor) (flag : UInt8) : Prop :=
  ∃ perm, hasFlag perm flag = false ∧
    if desc.inFileSystem = true then
      (s.devices desc.ctx).view n (FS.fsFileGetPermissions desc.address) = some perm
    else (KernelM.kmallocGetPermissions desc.address).run n KernelState.handle s.kernel =
      some (perm, s.kernel)

/-- Seeks on files of devices are not clipped, transfers on them move no bytes, and transfers
on kernel nodes do not run around the end of the address space. -/
def DescriptorOp.Kept (n : Nat) (s : VfsState) (desc : OpenFileDescriptor) : DescriptorOp → Prop
  | seek position => desc.inFileSystem = true →
      (s.devices desc.ctx).Sound ∧ FS.SeeksWithin n (s.devices desc.ctx) desc.handle position
  | read size => if desc.inFileSystem = true then
        (s.devices desc.ctx).Sound ∧ (LacksPermission n s desc fsPermissionRead ∨
          FS.Refuses n (s.devices desc.ctx) desc.handle fsFileModeRead size ∨
          FS.AtEnd n (s.devices desc.ctx) desc.handle)
      else LacksPermission n s desc kmallocPermissionRead ∨ EndsInRange n s.kernel desc size
  | write _ size => if desc.inFileSystem = true then
        (s.devices desc.ctx).Sound ∧ (LacksPermission n s desc fsPermissionWrite ∨
          FS.Refuses n (s.devices desc.ctx) desc.handle fsFileModeWrite size ∨
          FS.CannotGrow n (s.devices desc.ctx) desc.handle size)
      else LacksPermission n s desc kmallocPermissionWrite ∨ EndsInRange n s.kernel desc size

/-- Steps on the descriptor of an id. -/
def DescriptorOp.KeptAt (n : Nat) (file : UInt32) (s : VfsState) (op : DescriptorOp) : Prop :=
  ∀ desc, s.findOpen file = some desc → op.Kept n s desc

/-- The positions of a descriptor agree, and its handle is one of its file. -/
structure OpenFileDescriptor.Told (desc : OpenFileDescriptor) : Prop where
  agrees : desc.offset = desc.position
  ctx : desc.inFileSystem = true → desc.handle.ctx = desc.ctx
  address : desc.inFileSystem = true → desc.handle.address = desc.address

variable {n : Nat} {s s' : VfsState} {file position size count : UInt32}
  {desc : OpenFileDescriptor}

/-- A transfer keeps the positions together and moves on by what it reports. -/
def Advanced (file : UInt32) (s' : VfsState) (desc : OpenFileDescriptor) (count : UInt32) : Prop :=
  ∃ desc', s'.findOpen file = some desc' ∧ desc'.Told ∧ (count.toNat < 2 ^ 31 →
    desc'.offset.toNat = desc.offset.toNat + count.toNat)

theorem Advanced.of_unchanged (hfind : s'.findOpen file = some desc) (htold : desc.Told)
    (hcount : count = minusOne ∨ count = 0) : Advanced file s' desc count := by
  refine ⟨desc, hfind, htold, fun hless => ?_⟩
  rcases hcount with rfl | rfl
  · exact absurd hless (by decide)
  · rfl

/-- A transfer of nothing leaves the handle as it is. -/
theorem Advanced.of_same_handle {s₁ : VfsState} (hfind : s₁.findOpen file = some desc)
    (htold : desc.Told) (hs : s' = s₁.setOpen desc) : Advanced file s' desc 0 := by
  subst hs
  exact .of_unchanged (VfsState.findOpen_setOpen hfind (VfsState.findOpen_id hfind)) htold
    (.inr rfl)

theorem clipped_end {offset size nodeSize : UInt32} (hin : offset < nodeSize)
    (hrange : offset + size ≤ nodeSize →
      offset.toNat + size.toNat < 2 ^ 32 ∨ 2 ^ 31 ≤ size.toNat)
    (hcount : (clipped offset size nodeSize).toNat < 2 ^ 31) :
    (offset + clipped offset size nodeSize).toNat =
      offset.toNat + (clipped offset size nodeSize).toNat := by
  have hnode := nodeSize.toNat_lt
  rw [UInt32.lt_iff_toNat_lt] at hin
  rw [UInt32.toNat_add]
  unfold clipped at hcount ⊢
  split at hcount
  next hover =>
    rw [if_pos hover, UInt32.toNat_sub_of_le _ _ (UInt32.le_iff_toNat_le.mpr (Nat.le_of_lt hin))]
    omega
  next hfits =>
    rw [if_neg hfits]
    have hbound := hrange (UInt32.not_lt.mp hfits)
    omega

/-- A transfer on a kernel node moves the offset behind its end. -/
theorem Advanced.of_clipped {nodeSize : UInt32} {s₁ : VfsState}
    (hfind : s₁.findOpen file = some desc) (hkernel : ¬desc.inFileSystem = true)
    (hin : desc.offset < nodeSize) (hrange : desc.offset + size ≤ nodeSize →
      desc.offset.toNat + size.toNat < 2 ^ 32 ∨ 2 ^ 31 ≤ size.toNat)
    (hs : s' = s₁.setOpen { desc with offset := desc.offset + clipped desc.offset size nodeSize }) :
    Advanced file s' desc (clipped desc.offset size nodeSize) := by
  subst hs
  have hid : desc.id = file := VfsState.findOpen_id hfind
  refine ⟨_, VfsState.findOpen_setOpen hfind hid,
    ⟨?_, fun hfs => absurd hfs hkernel, fun hfs => absurd hfs hkernel⟩, clipped_end hin hrange⟩
  rw [OpenFileDescriptor.position, if_neg hkernel]

/-! ## One step -/

theorem step_seek (hfind : s.findOpen file = some desc) (htold : desc.Told)
    (hkept : (DescriptorOp.seek position).Kept n s desc)
    (hstep : (DescriptorOp.seek position).step n file s = some (count, s')) :
    ∃ desc', s'.findOpen file = some desc' ∧ desc'.Told := by
  have hid : desc.id = file := VfsState.findOpen_id hfind
  rw [DescriptorOp.step, DescriptorOp.program, doSeek, Prog.run_bind, run_findOpen, hfind,
    Option.bind_some] at hstep
  dsimp only at hstep
  split at hstep
  next hfs =>
    rw [Prog.run_bind_eq_some] at hstep
    obtain ⟨⟨answer, handle⟩, s₁, hseek, hstep⟩ := hstep
    rw [htold.ctx hfs, run_device_eq_some] at hseek
    obtain ⟨d', hseek, rfl⟩ := hseek
    obtain ⟨hsound, hwithin⟩ := hkept hfs
    obtain rfl := FS.run_seek hsound hwithin hseek
    cases hstep
    refine ⟨_, VfsState.findOpen_setOpen hfind hid, ?_, htold.ctx, htold.address⟩
    rw [OpenFileDescriptor.position, if_pos hfs]
  next hkernel =>
    cases hstep
    refine ⟨_, VfsState.findOpen_setOpen hfind hid, ?_, htold.ctx, htold.address⟩
    rw [OpenFileDescriptor.position, if_neg hkernel]

theorem run_permissions {ctx address : UInt32} {perm : UInt8} (hsound : (s.devices ctx).Sound)
    (hrun : (device ctx (FS.fsFileGetPermissions address)).run n VfsState.handle s =
      some (perm, s')) :
    ∃ d', (FS.fsFileGetPermissions address).run n Device.handle (s.devices ctx) = some (perm, d') ∧
      s' = s.setDevice ctx d' ∧ d'.Sound ∧ d'.logical = (s.devices ctx).logical ∧
      (s.devices ctx).view n (FS.fsFileGetPermissions address) = some perm := by
  rw [run_device_eq_some] at hrun
  obtain ⟨d', hrun, rfl⟩ := hrun
  exact ⟨d', hrun, rfl, hsound.run_readOnly (FS.readOnly_getPermissions _) hrun⟩

theorem LacksPermission.of_device {flag perm : UInt8} (h : LacksPermission n s desc flag)
    (hfs : desc.inFileSystem = true)
    (hview : (s.devices desc.ctx).view n (FS.fsFileGetPermissions desc.address) = some perm) :
    hasFlag perm flag = false := by
  obtain ⟨perm', hlacks, hperm⟩ := h
  rw [if_pos hfs, hview] at hperm
  exact Option.some.inj hperm ▸ hlacks

theorem LacksPermission.of_kernel {flag perm : UInt8} (h : LacksPermission n s desc flag)
    (hkernel : ¬desc.inFileSystem = true)
    (hrun : (KernelM.kmallocGetPermissions desc.address).run n KernelState.handle s.kernel =
      some (perm, s.kernel)) : hasFlag perm flag = false := by
  obtain ⟨perm', hlacks, hperm⟩ := h
  rw [if_neg hkernel, hrun, Option.some_inj, Prod.mk.injEq] at hperm
  exact hperm.1 ▸ hlacks

theorem step_read (hfind : s.findOpen file = some desc) (htold : desc.Told)
    (hkept : (DescriptorOp.read size).Kept n s desc)
    (hstep : (DescriptorOp.read size).step n file s = some (count, s')) :
    Advanced file s' desc count := by
  rw [DescriptorOp.step, DescriptorOp.program, Prog.run_bind_eq_some] at hstep
  obtain ⟨⟨count', bytes⟩, s'', hstep, hcount⟩ := hstep
  cases hcount
  rw [doRead, Prog.run_bind, run_findOpen, hfind, Option.bind_some] at hstep
  rw [DescriptorOp.Kept] at hkept
  dsimp only at hstep
  split at hstep
  next hfs =>
    rw [if_pos hfs] at hkept
    obtain ⟨hsound, hnothing⟩ := hkept
    rw [Prog.run_bind_eq_some] at hstep
    obtain ⟨perm, s₁, hperm, hstep⟩ := hstep
    obtain ⟨d', -, rfl, hsound', hlogical, hview⟩ := run_permissions hsound hperm
    split at hstep
    · cases hstep
      exact .of_unchanged hfind htold (.inl rfl)
    next hallowed =>
      rw [Prog.run_bind_eq_some] at hstep
      obtain ⟨⟨count', bytes', handle⟩, s₂, hread, hstep⟩ := hstep
      rw [htold.ctx hfs, run_device_eq_some, VfsState.setDevice_devices] at hread
      obtain ⟨d'', hread, rfl⟩ := hread
      have hidle : FS.Refuses n d' desc.handle fsFileModeRead size ∨ FS.AtEnd n d' desc.handle := by
        rw [FS.Refuses, FS.AtEnd, Device.view_of_logical hlogical, Device.view_of_logical hlogical]
        refine hnothing.resolve_left fun hlacks => hallowed ?_
        rw [hlacks.of_device hfs hview]
        rfl
      obtain ⟨rfl, rfl⟩ := FS.run_read_nothing hsound' hidle hread
      cases hstep
      have hfind' : ((s.setDevice desc.ctx d').setDevice desc.ctx d'').findOpen file = some desc :=
        hfind
      exact .of_same_handle hfind' htold rfl
  next hkernel =>
    rw [if_neg hkernel] at hkept
    rw [Prog.run_bind_eq_some] at hstep
    obtain ⟨perm, s₁, hperm, hstep⟩ := hstep
    rw [run_kernel_readOnly (KernelM.readOnly_getPermissions _)] at hperm
    obtain ⟨hperm, rfl⟩ := hperm
    split at hstep
    · cases hstep
      exact .of_unchanged hfind htold (.inl rfl)
    next hallowed =>
      rw [Prog.run_bind_eq_some] at hstep
      obtain ⟨nodeSize, s₂, hnode, hstep⟩ := hstep
      rw [run_kernel_readOnly (KernelM.readOnly_getSize _)] at hnode
      obtain ⟨hnode, rfl⟩ := hnode
      split at hstep
      · cases hstep
        exact .of_unchanged hfind htold (.inr rfl)
      next hin =>
        have hrange := hkept.resolve_left fun hlacks => hallowed (by
          rw [hlacks.of_kernel hkernel hperm]
          rfl)
        cases hstep
        exact .of_clipped hfind hkernel (UInt32.not_le.mp hin)
          (hrange nodeSize hnode (UInt32.not_le.mp hin)) rfl

theorem step_write {buffer : List UInt8} (hfind : s.findOpen file = some desc) (htold : desc.Told)
    (hkept : (DescriptorOp.write buffer size).Kept n s desc)
    (hstep : (DescriptorOp.write buffer size).step n file s = some (count, s')) :
    Advanced file s' desc count := by
  rw [DescriptorOp.step, DescriptorOp.program, doWrite, Prog.run_bind, run_findOpen, hfind,
    Option.bind_some] at hstep
  rw [DescriptorOp.Kept] at hkept
  dsimp only at hstep
  split at hstep
  next hfs =>
    rw [if_pos hfs] at hkept
    obtain ⟨hsound, hnothing⟩ := hkept
    rw [Prog.run_bind_eq_some] at hstep
    obtain ⟨perm, s₁, hperm, hstep⟩ := hstep
    obtain ⟨d', hlook, rfl, hsound', hlogical, hview⟩ := run_permissions hsound hperm
    split at hstep
    · cases hstep
      exact .of_unchanged hfind htold (.inl rfl)
    next hallowed =>
      rw [Prog.run_bind_eq_some] at hstep
      obtain ⟨⟨count', handle⟩, s₂, hwrite, hstep⟩ := hstep
      rw [htold.ctx hfs, run_device_eq_some, VfsState.setDevice_devices] at hwrite
      obtain ⟨d'', hwrite, rfl⟩ := hwrite
      have hidle := hnothing.resolve_left fun hlacks => hallowed (by
        rw [hlacks.of_device hfs hview]
        rfl)
      rw [← htold.address hfs] at hlook
      obtain ⟨rfl, rfl⟩ := FS.run_write_nothing hsound hlook hidle hwrite
      cases hstep
      have hfind' : ((s.setDevice desc.ctx d').setDevice desc.ctx d'').findOpen file = some desc :=
        hfind
      exact .of_same_handle hfind' htold rfl
  next hkernel =>
    rw [if_neg hkernel] at hkept
    rw [Prog.run_bind_eq_some] at hstep
    obtain ⟨perm, s₁, hperm, hstep⟩ := hstep
    rw [run_kernel_readOnly (KernelM.readOnly_getPermissions _)] at hperm
    obtain ⟨hperm, rfl⟩ := hperm
    split at hstep
    · cases hstep
      exact .of_unchanged hfind htold (.inl rfl)
    next hallowed =>
      rw [Prog.run_bind_eq_some] at hstep
      obtain ⟨nodeSize, s₂, hnode, hstep⟩ := hstep
      rw [run_kernel_readOnly (KernelM.readOnly_getSize _)] at hnode
      obtain ⟨hnode, rfl⟩ := hnode
      split at hstep
      · cases hstep
        exact .of_unchanged hfind htold (.inl rfl)
      next hin =>
        have hrange := hkept.resolve_left fun hlacks => hallowed (by
          rw [hlacks.of_kernel hkernel hperm]
          rfl)
        rw [Prog.run_bind_eq_some] at hstep
        obtain ⟨answer, s₃, hwrite, hstep⟩ := hstep
        rw [run_kernel] at hwrite
        cases hwrite
        cases hstep
        have hfind' : ∀ k, (s₂.setKernel k).findOpen file = some desc := fun _ => hfind
        exact .of_clipped (hfind' _) hkernel (UInt32.not_le.mp hin)
          (hrange nodeSize hnode (UInt32.not_le.mp hin)) rfl

/-- A step on a descriptor keeps its positions together, and a transfer moves them on by what
it reports. -/
theorem step_told {op : DescriptorOp} (hfind : s.findOpen file = some desc) (htold : desc.Told)
    (hkept : op.Kept n s desc) (hstep : op.step n file s = some (count, s')) :
    ∃ desc', s'.findOpen file = some desc' ∧ desc'.Told ∧ (op.IsTransfer → count.toNat < 2 ^ 31 →
      desc'.offset.toNat = desc.offset.toNat + count.toNat) := by
  cases op with
  | seek position =>
      obtain ⟨desc', hfind', htold'⟩ := step_seek hfind htold hkept hstep
      exact ⟨desc', hfind', htold', fun htransfer => htransfer.elim⟩
  | read size =>
      obtain ⟨desc', hfind', htold', hmoved⟩ := step_read hfind htold hkept hstep
      exact ⟨desc', hfind', htold', fun _ => hmoved⟩
  | write buffer size =>
      obtain ⟨desc', hfind', htold', hmoved⟩ := step_write hfind htold hkept hstep
      exact ⟨desc', hfind', htold', fun _ => hmoved⟩

/-- The positions of a descriptor agree when it has been opened. -/
theorem open_told {path : List UInt8} {flags : UInt16} (hfile : file ≠ vfsInvalidFile)
    (hfresh : ∀ old ∈ s.openFiles.files, old.id ≠ file)
    (hopen : (doOpen path flags).run n VfsState.handle s = some (file, s')) :
    ∃ desc, s'.findOpen file = some desc ∧ desc.Told := by
  obtain ⟨walk, handle, s₁, -, hnew, -, -, happended⟩ := run_open hfile hopen
  refine ⟨_, findOpen_of_appended hfile rfl hfresh happended, ?_, fun hfs => (hnew hfs).ctx,
    fun hfs => ?_⟩
  · rw [OpenFileDescriptor.position]
    split
    next hfs => exact (hnew hfs).position.symm
    next => rfl
  · rw [(hnew hfs).address]
    exact (if_pos hfs).symm

/-- After any sequence of seeks and transfers on a file that was opened under a new id, if
seeks on files of devices are not clipped and transfers on them move no bytes, `vfs_tell`
reports where the next transfer acts, and that transfer advances it by what it reports. -/
theorem tell_is_position (n : Nat) {s s₀ s' : VfsState} {path : List UInt8} {flags : UInt16}
    {file : UInt32} {ops : List DescriptorOp} {answers : List UInt32}
    (hfile : file ≠ vfsInvalidFile) (hfresh : ∀ old ∈ s.openFiles.files, old.id ≠ file)
    (hopen : (doOpen path flags).run n VfsState.handle s = some (file, s₀))
    (hkept : Trace.Permitted (DescriptorOp.step n file) (DescriptorOp.KeptAt n file) s₀ ops)
    (hrun : Trace.run (DescriptorOp.step n file) s₀ ops = some (answers, s')) :
    ∃ desc, s'.findOpen file = some desc ∧
      (doTell file).run n VfsState.handle s' = some (desc.position, s') ∧
      ∀ (op : DescriptorOp) (count : UInt32) (s'' : VfsState), op.IsTransfer → op.KeptAt n file s' →
        op.step n file s' = some (count, s'') → count.toNat < 2 ^ 31 →
          ∃ told, (doTell file).run n VfsState.handle s'' = some (told, s'') ∧
            told.toNat = desc.position.toNat + count.toNat := by
  have hstep : ∀ (s : VfsState) (op : DescriptorOp) (count : UInt32) (s' : VfsState),
      (∃ desc, s.findOpen file = some desc ∧ desc.Told) → op.KeptAt n file s →
        op.step n file s = some (count, s') → ∃ desc, s'.findOpen file = some desc ∧ desc.Told := by
    rintro s op count s' ⟨desc, hfind, htold⟩ hop hstep
    obtain ⟨desc', hfind', htold', -⟩ := step_told hfind htold (hop desc hfind) hstep
    exact ⟨desc', hfind', htold'⟩
  obtain ⟨desc, hfind, htold⟩ := Trace.run_preserves hstep (open_told hfile hfresh hopen) hkept hrun
  refine ⟨desc, hfind, htold.agrees ▸ run_tell hfind, ?_⟩
  intro op count s'' htransfer hop hlast hcount
  obtain ⟨desc', hfind', -, hmoved⟩ := step_told hfind htold (hop desc hfind) hlast
  exact ⟨desc'.offset, run_tell hfind', htold.agrees ▸ hmoved htransfer hcount⟩

/-- The bytes that the operation is to move. -/
def DescriptorOp.asked : DescriptorOp → UInt32
  | seek _ => 0
  | read size | write _ size => size

/-- The open file is a kernel node, and the operation ends in the address space. -/
def EndsOnNode (file : UInt32) (s : VfsState) (op : DescriptorOp) : Prop :=
  ∀ desc ∈ s.findOpen file, desc.inFileSystem = false ∧
    desc.offset.toNat + op.asked.toNat < 2 ^ 32

instance (file : UInt32) (s : VfsState) (op : DescriptorOp) : Decidable (EndsOnNode file s op) :=
  inferInstanceAs (Decidable (∀ desc ∈ s.findOpen file, _))

theorem EndsOnNode.keptAt {op : DescriptorOp} (h : EndsOnNode file s op) : op.KeptAt n file s := by
  intro desc hfind
  obtain ⟨hkernel, hends⟩ := h desc hfind
  have hin : ¬desc.inFileSystem = true := by
    rw [hkernel]
    exact Bool.false_ne_true
  cases op with
  | seek position => exact fun hfs => absurd hfs hin
  | read size =>
      rw [DescriptorOp.Kept, if_neg hin]
      exact .inr fun _ _ _ _ => .inl hends
  | write buffer size =>
      rw [DescriptorOp.Kept, if_neg hin]
      exact .inr fun _ _ _ _ => .inl hends

def nodeOps : List DescriptorOp := [.read 4, .write [1, 2, 3] 3, .seek 10, .read 8]

/-- What the transfers on `/f` answer, what is told then, and after a further one. -/
theorem tell_is_position_node : ∃ (s s₀ s' s'' : VfsState) (desc : OpenFileDescriptor),
    (doOpen [slash, 0x66] (vfsOpenRead ||| vfsOpenWrite)).run 4 VfsState.handle s = some (1, s₀) ∧
      Trace.run (DescriptorOp.step 4 1) s₀ nodeOps = some ([4, 3, 10, 8], s') ∧
      s'.findOpen 1 = some desc ∧
      (doTell 1).run 4 VfsState.handle s' = some (desc.position, s') ∧
      (DescriptorOp.read 2).step 4 1 s' = some (2, s'') ∧
      ∃ told, (doTell 1).run 4 VfsState.handle s'' = some (told, s'') ∧
        told.toNat = desc.position.toNat + 2 := by
  have hrun : ((VfsState.mounted 4).bind fun s =>
      ((doOpen [slash, 0x66] (vfsOpenRead ||| vfsOpenWrite)).run 4 VfsState.handle s).bind
        fun (file, s₀) => (Trace.run (DescriptorOp.step 4 1) s₀ nodeOps).bind fun (answers, s') =>
          ((DescriptorOp.read 2).step 4 1 s').map fun (count, _) =>
            (file, decide (Trace.Permitted (DescriptorOp.step 4 1) (EndsOnNode 1) s₀ nodeOps),
              answers, decide (EndsOnNode 1 s' (.read 2)), count)) =
        some (1, true, [4, 3, 10, 8], true, 2) := by
    rw [VfsState.mounted_eq]
    decide +kernel
  simp only [Option.bind_eq_some_iff, Option.map_eq_some_iff, Prod.exists, Prod.mk.injEq,
    decide_eq_true_eq] at hrun
  obtain ⟨s, hs, -, s₀, hopen, -, s', hops, -, s'', hlast, rfl, hends, rfl, hends', rfl⟩ := hrun
  have hfresh : ∀ old ∈ s.openFiles.files, old.id ≠ 1 := by
    rw [VfsState.mounted_openFiles hs]
    exact fun old hmem => absurd hmem List.not_mem_nil
  have hpermitted : Trace.Permitted (DescriptorOp.step 4 1) (DescriptorOp.KeptAt 4 1) s₀
      nodeOps :=
    hends.mono fun _ _ h => h.keptAt
  obtain ⟨desc, hfind, htell, hnext⟩ :=
    tell_is_position 4 (by decide) hfresh hopen hpermitted hops
  exact ⟨s, s₀, s', s'', desc, hopen, hops, hfind, htell, hlast,
    hnext (.read 2) 2 s'' trivial hends'.keptAt hlast (by decide)⟩

/-- `/mnt/ata0/a` -/
def newFilePath : List UInt8 :=
  [0x2F, 0x6D, 0x6E, 0x74, 0x2F, 0x61, 0x74, 0x61, 0x30, 0x2F, 0x61]

/-- What a new file reports after one byte has been written, and where it stands. -/
def writeOne : VfsM (UInt32 × UInt32 × UInt32 × Option UInt32) := do
  let file ← doOpen newFilePath (vfsOpenRead ||| vfsOpenWrite ||| vfsOpenCreate)
  let count ← doWrite file [0x41] 1
  let told ← doTell file
  let desc ← vfsFileFindOpen file
  return (file, count, told, desc.map OpenFileDescriptor.position)

set_option maxRecDepth 100000 in
/-- A transfer on a new file of a device reports a byte and leaves `vfs_tell` at 0. -/
theorem tell_not_position : ∃ (s s₀ s' : VfsState) (file : UInt32) (desc : OpenFileDescriptor),
    (doOpen newFilePath (vfsOpenRead ||| vfsOpenWrite ||| vfsOpenCreate)).run 4 VfsState.handle s =
        some (file, s₀) ∧
      file ≠ vfsInvalidFile ∧ (∀ old ∈ s.openFiles.files, old.id ≠ file) ∧
      (doWrite file [0x41] 1).run 4 VfsState.handle s₀ = some (1, s') ∧
      s'.findOpen file = some desc ∧ desc.position = 1 ∧
      (doTell file).run 4 VfsState.handle s' = some (0, s') := by
  have hrun : ((VfsState.mounted 4).bind fun s =>
      (writeOne.run 4 VfsState.handle s).map Prod.fst) = some (1, 1, 0, some 1) := by
    rw [VfsState.mounted_eq]
    decide +kernel
  rw [Option.bind_eq_some_iff] at hrun
  obtain ⟨s, hs, hrun⟩ := hrun
  rw [Option.map_eq_some_iff] at hrun
  obtain ⟨⟨answer, s₄⟩, hrun, hanswer⟩ := hrun
  rw [writeOne, Prog.run_bind_eq_some] at hrun
  obtain ⟨file, s₀, hopen, hrun⟩ := hrun
  rw [Prog.run_bind_eq_some] at hrun
  obtain ⟨count, s', hwrite, hrun⟩ := hrun
  rw [Prog.run_bind_eq_some] at hrun
  obtain ⟨told, s₃, htell, hrun⟩ := hrun
  rw [Prog.run_bind, run_findOpen] at hrun
  obtain ⟨rfl, rfl⟩ := Prod.mk.injEq .. ▸ Option.some.inj hrun
  simp only [Prod.mk.injEq, Option.map_eq_some_iff] at hanswer
  obtain ⟨rfl, rfl, rfl, desc, hfind, hposition⟩ := hanswer
  obtain rfl : s' = s₃ := by
    rw [run_doTell] at htell
    exact (Prod.mk.inj (Option.some.inj htell)).2
  refine ⟨s, s₀, s', 1, desc, hopen, by decide, ?_, hwrite, hfind, hposition, htell⟩
  rw [VfsState.mounted_openFiles hs]
  exact fun old hmem => absurd hmem List.not_mem_nil

end AvrKernel.Vfs

import AvrKernel.BaseFS.Isolation
import AvrKernel.Kernel.Allocations
import AvrKernel.Vfs.Mount
import AvrKernel.Vfs.Position
import AvrKernel.Vfs.Run

/-!
# Protected content

What `vfs_write` and `vfs_truncate` do to files and kernel nodes, whatever else a
run has done before: which bytes they may change, and when they may change any.
-/

namespace AvrKernel.Vfs

open BaseFS Kernel Effect VfsM

variable {n : Nat} {s s' s₁ s₂ : VfsState} {file size newSize count : UInt32}
  {desc : OpenFileDescriptor} {ctx address : UInt32}

/-- There is no file at the address, or it is one with a chain of extents of its own. -/
def OwnChain (n : Nat) (d : Device) (address : UInt32) : Prop :=
  d.view n (FS.fsFileCheck address) = some false ∨ ∀ (g : FSGeometry) (S : Store g), d.Holds S →
    ∃ (file : FSFileHeader) (es : List Extent), S.ChainAt address file es

/-- The device and the address that a path leads to. -/
def Leads (n : Nat) (s : VfsState) (path : List UInt8) (ctx address : UInt32) : Prop :=
  ∃ s₁ s₂, (resolvePathToAddress path).run n VfsState.handle s = some (address, s₁) ∧
    (vfsDeviceGetContext path).run n VfsState.handle s₁ = some (ctx, s₂) ∧ ctx ≠ 0

/-- The bytes of a kernel node and of the header in front of it. -/
def InNode (node nodeSize x : UInt32) : Prop :=
  (x - (node - kmallocHeaderSize)).toNat < kmallocHeaderSize.toNat + nodeSize.toNat

/-- The bytes of a kernel node. -/
def InPayload (node nodeSize x : UInt32) : Prop := (x - node).toNat < nodeSize.toNat

/-- No other file that lacks the permission to write has an allocation in common with the file at
the address. -/
def SparesFiles (d : Device) (address : UInt32) : Prop :=
  ∀ (g : FSGeometry) (S : Store g), d.Holds S → ∀ (other : UInt32) (header header' : FSFileHeader)
    (es es' : List Extent), other ≠ address → S.ChainAt other header es →
      hasFlag header.block.permissions fsPermissionWrite = false → S.ChainAt address header' es' →
        List.Disjoint (fileBlocks other es) (fileBlocks address es')

/-- No other kernel node has a byte of the node, in itself or in its header. -/
def SparesNodes (n : Nat) (k : KernelState) (node : UInt32) : Prop :=
  ∀ other size otherSize : UInt32, other ≠ node →
    (KernelM.kmallocIsValid other).run n KernelState.handle k = some (true, k) →
    (KernelM.kmallocGetSize node).run n KernelState.handle k = some (size, k) →
    (KernelM.kmallocGetSize other).run n KernelState.handle k = some (otherSize, k) →
      ∀ x, InNode other otherSize x → ¬InPayload node size x

/-! ## Writing to a file -/

/-- The run of `vfs_truncate` looks for its file and resizes it, or changes nothing. -/
theorem run_truncate {path : List UInt8} {ok : Bool}
    (hrun : (doTruncate path newSize).run n VfsState.handle s = some (ok, s')) :
    s.SameNodes s' ∨ ∃ (ctx address : UInt32) (s₁ : VfsState) (resized : Bool) (d : Device),
      Leads n s path ctx address ∧ s.SameNodes s₁ ∧
      (FS.fsFileResize address newSize).run n Device.handle (s₁.devices ctx) = some (resized, d) ∧
      s' = s₁.setDevice ctx d := by
  rw [doTruncate] at hrun
  split at hrun
  · cases hrun
    exact .inl (.refl s)
  · rw [Prog.run_bind_eq_some] at hrun
    obtain ⟨address, s₁, hresolve, hrun⟩ := hrun
    have hsame₁ := (readOnly_resolvePathToAddress path).run hresolve
    split at hrun
    · cases hrun
      exact .inl hsame₁
    · rw [Prog.run_bind_eq_some] at hrun
      obtain ⟨ctx, s₂, hcontext, hrun⟩ := hrun
      have hsame₂ := hsame₁.trans ((readOnly_deviceGetContext path).run hcontext)
      split at hrun
      next hctx =>
        rw [Prog.run_bind_eq_some] at hrun
        obtain ⟨resized, s₃, hresize, hrun⟩ := hrun
        rw [run_device_eq_some] at hresize
        obtain ⟨d, hresize, rfl⟩ := hresize
        cases hrun
        exact .inr ⟨ctx, address, s₂, resized, d, ⟨s₁, s₂, hresolve, hcontext, hctx⟩, hsame₂,
          hresize, rfl⟩
      next =>
        cases hrun
        exact .inl hsame₂

theorem VfsState.SameNodes.holds (h : s.SameNodes s') {ctx : UInt32} {g : FSGeometry} {S : Store g}
    (hd : (s.devices ctx).Holds S) : (s'.devices ctx).Holds S := by
  obtain ⟨hcoherent, hlogical⟩ := h.devices ctx hd.coherent
  exact hd.of_logical hcoherent hlogical

namespace VfsOp

/-- A write to a kernel node that may be written goes through a descriptor that is open for
writing and ends in the address space, and no other node has bytes of this one; on a device, there
is no file at the address or one with its own chain, of which no other file that may not be
written has an allocation, and `vfs_truncate` changes the size only if the file may be written. -/
def Permitted (n : Nat) (s : VfsState) : VfsOp → Prop
  | write file _ size => ∀ desc, s.findOpen file = some desc →
      if desc.inFileSystem = true then
        OwnChain n (s.devices desc.ctx) desc.address ∧ SparesFiles (s.devices desc.ctx) desc.address
      else desc.offset.toNat + size.toNat < 2 ^ 32 ∧ SparesNodes n s.kernel desc.address ∧
        (hasOpenFlag desc.flags vfsOpenWrite = true ∨
          LacksPermission n s desc kmallocPermissionWrite)
  | truncate path newSize => ∀ ctx address, Leads n s path ctx address →
      OwnChain n (s.devices ctx) address ∧ SparesFiles (s.devices ctx) address ∧
        ((s.devices ctx).view n (FS.fsFileCheck address) = some true →
          (s.devices ctx).view n (FS.fsFileGetSize address) = some newSize ∨
          ∃ perm, (s.devices ctx).view n (FS.fsFileGetPermissions address) = some perm ∧
            hasFlag perm fsPermissionWrite = true)
  | _ => True

end VfsOp

end AvrKernel.Vfs

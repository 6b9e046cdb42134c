import AvrKernel.Vfs.Descriptor

/-!
# What changes no node

Looking around, opening without `VFS_OPEN_CREATE`, seeking and closing leave every
kernel node and what is on every device as they are.
-/

namespace AvrKernel.Vfs

open BaseFS Kernel Effect VfsM

/-- Calls that change no node. -/
def VfsCall.KeepsContents : VfsCall → Prop
  | kernel e => e.Reads
  | device _ e => e.Reads
  | deviceSync _ => False
  | openFiles | malloc | setOpenFiles _ => True

/-- Two states with the same kernel nodes and logical devices. -/
structure VfsState.SameContents (s s' : VfsState) : Prop where
  kernel : s'.kernel = s.kernel
  devices : ∀ ctx, (s.devices ctx).Coherent →
    (s'.devices ctx).Coherent ∧ (s'.devices ctx).logical = (s.devices ctx).logical

namespace VfsState

variable {n : Nat} {s s₁ s₂ : VfsState} {e : VfsCall} {α : Type} {p : VfsM α} {value : α}

theorem SameContents.refl (s : VfsState) : s.SameContents s := ⟨rfl, fun _ h => ⟨h, rfl⟩⟩

theorem SameContents.trans (h : s.SameContents s₁) (h' : s₁.SameContents s₂) :
    s.SameContents s₂ where
  kernel := h'.kernel.trans h.kernel
  devices ctx hcoherent := by
    obtain ⟨hcoherent', hlogical⟩ := h.devices ctx hcoherent
    obtain ⟨hcoherent'', hlogical'⟩ := h'.devices ctx hcoherent'
    exact ⟨hcoherent'', hlogical'.trans hlogical⟩

theorem SameNodes.contents (h : s.SameNodes s₁) : s.SameContents s₁ := ⟨h.kernel, h.devices⟩

theorem SameContents.of_handle (he : e.KeepsContents) (s : VfsState) :
    s.SameContents (handle e s).2 := by
  cases e with
  | kernel e => exact (SameNodes.of_handle (e := .kernel e) he s).contents
  | device ctx e => exact (SameNodes.of_handle (e := .device ctx e) he s).contents
  | deviceSync => exact he.elim
  | openFiles | malloc | setOpenFiles => exact ⟨rfl, fun _ h => ⟨h, rfl⟩⟩

end VfsState

namespace VfsM

variable {n : Nat} {s s₁ s' : VfsState} {α : Type} {p : VfsM α} {value : α}

/-- A program that changes no node. -/
abbrev KeepsContents (p : VfsM α) : Prop := p.All VfsCall.KeepsContents

theorem KeepsContents.run (hp : KeepsContents p)
    (hrun : p.run n VfsState.handle s = some (value, s')) : s.SameContents s' := by
  have hcalls : p.Calls n VfsState.handle (fun e _ => e.KeepsContents) s :=
    hp.calls _ _ (fun _ _ he => he) s
  exact Prog.run_preserves n VfsState.handle
    (fun e s₂ (hs₂ : s.SameContents s₂) he => hs₂.trans (.of_handle he s₂)) (.refl s) hcalls hrun

end VfsM

end AvrKernel.Vfs

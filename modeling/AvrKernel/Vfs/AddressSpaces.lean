import AvrKernel.Kernel.Listing
import AvrKernel.Vfs.Mount
import AvrKernel.Vfs.Run

/-!
# Addresses of the kernel and of devices

Addresses on a device and addresses of the kernel heap have one type. An
operation on a path that ends on a device depends on the kernel only through the
walks along the path, as long as it does not take the address of a node on the
device for one of the heap.
-/

namespace AvrKernel

open BaseFS Kernel Effect

/-! ## Outside of the heap -/

/-- The addresses that the heap takes for those of a block if the right bytes are in front of
them. -/
def Kernel.KernelHeap.Spans (heap : KernelHeap) (address : UInt32) : Prop :=
  ∃ k : KernelState, k.heap = heap ∧
    (KernelM.kmallocIsValid address).run 0 KernelState.handle k = some (true, k)

/-- The data area begins above the address. -/
theorem Kernel.KernelHeap.not_spans_of_lt {heap : KernelHeap} {address : UInt32}
    (h : address < heap.heapBegin + KernelM.kmallocHeapDataBegin heap + kmallocHeaderSize) :
    ¬heap.Spans address := by
  rintro ⟨k, rfl, hvalid⟩
  rw [KernelM.kmallocIsValid] at hvalid
  split at hvalid
  · cases hvalid
  · rw [Prog.run_bind_eq_some] at hvalid
    obtain ⟨heap, k', hheap, hvalid⟩ := hvalid
    obtain ⟨rfl, rfl⟩ : k.heap = heap ∧ k = k' := Prod.mk.inj (Option.some.inj hheap)
    rw [if_pos h] at hvalid
    cases hvalid

namespace Kernel.KernelM

variable {n : Nat} {k : KernelState} {address : UInt32} (hoff : ¬k.heap.Spans address)

include hoff

/-- The heap refuses the address whatever its memory contains. -/
theorem run_isValid_off :
    (kmallocIsValid address).run n KernelState.handle k = some (false, k) := by
  obtain ⟨⟨valid, k'⟩, hrun⟩ := (straight_isValid address).run KernelState.handle k
  obtain rfl := (readOnly_isValid address).run (hrun n)
  cases valid with
  | false => exact hrun n
  | true => exact absurd ⟨k', rfl, hrun 0⟩ hoff

theorem run_kmallocGet_off {α : Type} [OfNat α 0] (field : KMallocHeader → α) :
    (kmallocGet field address).run n KernelState.handle k = some (0, k) := by
  rw [kmallocGet, Prog.run_bind_eq_some]
  exact ⟨false, k, run_isValid_off hoff, rfl⟩

theorem run_checkIsValid_off :
    (knodeCheckIsValid address).run n KernelState.handle k = some (false, k) := by
  rw [knodeCheckIsValid, knodeIsValidAddress]
  split
  · rfl
  · rw [Prog.run_bind_eq_some]
    exact ⟨0, k, run_kmallocGet_off hoff _, rfl⟩

theorem run_getReference_off (index : UInt32) :
    (knodeGetReference address index).run n KernelState.handle k = some (kmallocNull, k) := by
  rw [knodeGetReference, Prog.run_bind_eq_some]
  exact ⟨false, k, run_checkIsValid_off hoff, rfl⟩

theorem run_setName_off (name : List UInt8) :
    (knodeSetName address name).run n KernelState.handle k = some ((), k) := by
  rw [knodeSetName, Prog.run_bind_eq_some]
  exact ⟨0, k, run_kmallocGet_off hoff _, rfl⟩

end Kernel.KernelM

namespace Vfs

open VfsM

/-! ## Two kernels -/

/-- A call that reads the same in both kernels. -/
def VfsCall.SameIn (k k' : KernelState) : VfsCall → Prop
  | kernel e => e.Reads ∧ (KernelState.handle e k').1 = (KernelState.handle e k).1
  | _ => True

/-- Some reading calls lead from one state to the other. -/
def VfsState.ReadsTo : VfsState → VfsState → Prop :=
  Relation.ReflTransGen fun s s' => ∃ e : VfsCall, e.Reads ∧ s' = (VfsState.handle e s).2

/-- A walk returns the value, perhaps behind some other reads. -/
def VfsState.Looks {α : Type} (n : Nat) (s : VfsState) (p : VfsM α) (value : α) : Prop :=
  ∃ s₁ s', s.ReadsTo s₁ ∧ p.run n VfsState.handle s₁ = some (value, s')

/-- With the kernel `k'` in place of its own the program does the same, and it changes neither. -/
def SameRun {α : Type} (n : Nat) (k' : KernelState) (p : VfsM α) (s : VfsState) : Prop :=
  ∀ value s', p.run n VfsState.handle s = some (value, s') →
    s'.kernel = s.kernel ∧
      p.run n VfsState.handle (s.setKernel k') = some (value, s'.setKernel k')

namespace SameRun

variable {n : Nat} {s s' : VfsState} {k' : KernelState} {α β : Type} {p : VfsM α} {f : α → VfsM β}

theorem ret (value : α) : SameRun n k' (Prog.ret value) s := by
  intro value' s' hrun
  cases hrun
  exact ⟨rfl, rfl⟩

theorem bind (hp : SameRun n k' p s)
    (hf : ∀ value s', p.run n VfsState.handle s = some (value, s') → SameRun n k' (f value) s') :
    SameRun n k' (p >>= f) s := by
  intro result s'' hrun
  rw [Prog.run_bind_eq_some] at hrun
  obtain ⟨value, s', hfirst, hrest⟩ := hrun
  obtain ⟨hkernel, hfirst'⟩ := hp value s' hfirst
  obtain ⟨hkernel', hrest'⟩ := hf value s' hfirst result s'' hrest
  refine ⟨hkernel'.trans hkernel, ?_⟩
  rw [Prog.run_bind_eq_some]
  exact ⟨value, s'.setKernel k', hfirst', hrest'⟩

theorem device (ctx : UInt32) (p : FS α) : SameRun n k' (VfsM.device ctx p) s := by
  intro value s' hrun
  rw [run_device_eq_some] at hrun
  obtain ⟨d, hrun, rfl⟩ := hrun
  refine ⟨rfl, ?_⟩
  rw [run_device_eq_some]
  exact ⟨d, hrun, rfl⟩

/-- What returns the same from any kernel with the same heap. -/
theorem kernel {p : KernelM α} {value : α} (hheap : k'.heap = s.kernel.heap)
    (hrun : ∀ k : KernelState, k.heap = s.kernel.heap →
      p.run n KernelState.handle k = some (value, k)) : SameRun n k' (VfsM.kernel p) s := by
  intro value' s' hrun'
  rw [run_kernel, hrun _ rfl] at hrun'
  cases hrun'
  refine ⟨rfl, ?_⟩
  rw [run_kernel]
  exact congrArg (Option.map _) (hrun k' hheap)

/-- Walks on which both kernels answer the same. -/
theorem of_calls (hcalls : p.Calls n VfsState.handle (fun e _ => e.SameIn s.kernel k') s) :
    SameRun n k' p s := by
  suffices h : ∀ s₁ : VfsState, s₁.kernel = s.kernel →
      p.Calls n VfsState.handle (fun e _ => e.SameIn s.kernel k') s₁ → SameRun n k' p s₁ from
    h s rfl hcalls
  clear hcalls
  intro s₁ hkernel hcalls value s' hrun
  induction p generalizing s₁ with
  | ret value' =>
      cases hrun
      exact ⟨rfl, rfl⟩
  | call e next ih =>
      obtain ⟨hsame, hrest⟩ := hcalls
      rw [Prog.run_call] at hrun ⊢
      cases e with
      | kernel e =>
          obtain ⟨hreads, hanswer⟩ := hsame
          have hstay : (VfsState.handle (.kernel e) s₁).2 = s₁ := by
            rw [VfsState.handle, KernelState.handle_snd hreads]
            rfl
          have hstay' : (VfsState.handle (.kernel e) (s₁.setKernel k')).2 = s₁.setKernel k' := by
            rw [VfsState.handle]
            exact congrArg (fun k => s₁.setKernel k) (KernelState.handle_snd hreads k')
          have hboth : (VfsState.handle (.kernel e) (s₁.setKernel k')).1 =
              (VfsState.handle (.kernel e) s₁).1 := by
            rw [← hkernel] at hanswer
            exact hanswer
          rw [hstay] at hrun hrest
          rw [hstay', hboth]
          exact ih _ s₁ hkernel hrest hrun
      | device ctx e => exact ih _ (VfsState.handle (.device ctx e) s₁).2 hkernel hrest hrun
      | deviceSync ctx => exact ih _ (VfsState.handle (.deviceSync ctx) s₁).2 hkernel hrest hrun
      | malloc => exact ih _ (VfsState.handle (.malloc) s₁).2 hkernel hrest hrun
      | openFiles => exact ih _ (VfsState.handle (.openFiles) s₁).2 hkernel hrest hrun
      | setOpenFiles table =>
          exact ih _ (VfsState.handle (.setOpenFiles table) s₁).2 hkernel hrest hrun
  | fuel next ih => exact ih n s₁ hkernel hcalls hrun
  | halt => cases hrun

end SameRun

/-! ## Looking twice -/

section Looks

variable {n : Nat} {s s₁ s₂ : VfsState} {α : Type} {p : VfsM α} {value : α}

/-- Two states with the nodes of a third one have the same nodes. -/
theorem VfsState.SameNodes.join (h : s.SameNodes s₁) (h' : s.SameNodes s₂)
    (hcoherent : ∀ ctx, (s.devices ctx).Coherent) : s₁.SameNodes s₂ where
  kernel := h'.kernel.trans h.kernel.symm
  openFiles := h'.openFiles.trans h.openFiles.symm
  devices ctx _ := by
    obtain ⟨-, hlogical⟩ := h.devices ctx (hcoherent ctx)
    obtain ⟨hcoherent', hlogical'⟩ := h'.devices ctx (hcoherent ctx)
    exact ⟨hcoherent', hlogical'.trans hlogical.symm⟩

/-- A reading call has the same answer in all states with the same nodes. -/
theorem VfsCall.Reads.answer {e : VfsCall} (he : e.Reads) (hsound : ∀ ctx, (s.devices ctx).Sound)
    (hsame : s.SameNodes s₁) : (VfsState.handle e s₁).1 = (VfsState.handle e s).1 := by
  cases e with
  | kernel e => exact congrArg (fun k => (KernelState.handle e k).1) hsame.kernel
  | device ctx e =>
      obtain ⟨hcoherent, hlogical⟩ := hsame.devices ctx (hsound ctx).coherent
      have hsound₁ := (hsound ctx).of_logical hcoherent (m := (s.devices ctx).image) hlogical
      cases e with
      | geometry => exact Device.geometry_of_logical hlogical
      | memRead address size =>
          have hread := (hsound₁.memRead address size.toNat).1
          rw [Device.image_of_logical hlogical] at hread
          exact hread.trans ((hsound ctx).memRead address size.toNat).1.symm
      | memWrite | alloc | free => exact he.elim
  | openFiles => exact hsame.openFiles
  | deviceSync | malloc | setOpenFiles => exact he.elim

theorem VfsCall.Reads.sound {e : VfsCall} (he : e.Reads) (hsound : ∀ ctx, (s.devices ctx).Sound) :
    ∀ ctx, ((VfsState.handle e s).2.devices ctx).Sound := by
  intro ctx
  obtain ⟨hcoherent, hlogical⟩ :=
    (VfsState.SameNodes.of_handle he s).devices ctx (hsound ctx).coherent
  exact (hsound ctx).of_logical hcoherent (m := (s.devices ctx).image) hlogical

theorem VfsState.ReadsTo.sameNodes (h : s.ReadsTo s₁) : s.SameNodes s₁ := by
  induction h with
  | refl => exact .refl s
  | tail _ hlast ih =>
      obtain ⟨e, he, rfl⟩ := hlast
      exact ih.trans (.of_handle he _)

theorem VfsM.ReadOnly.readsTo (hp : ReadOnly p)
    (hrun : p.run n VfsState.handle s = some (value, s₁)) : s.ReadsTo s₁ := by
  have hcalls : p.Calls n VfsState.handle (fun e _ => e.Reads) s :=
    hp.calls _ _ (fun _ _ he => he) s
  apply Prog.run_preserves n VfsState.handle _ .refl hcalls hrun
  intro e s₂ hs₂ he
  exact hs₂.tail ⟨e, he, rfl⟩

/-- Walks return the same, and make the same calls, in all states with the same nodes. -/
theorem VfsM.ReadOnly.same (hp : ReadOnly p) (hsound : ∀ ctx, (s.devices ctx).Sound)
    (hsame : s.SameNodes s₁) {P : VfsCall → Prop} :
    (p.run n VfsState.handle s₁).map Prod.fst = (p.run n VfsState.handle s).map Prod.fst ∧
      (p.Calls n VfsState.handle (fun e _ => P e) s →
        p.Calls n VfsState.handle (fun e _ => P e) s₁) := by
  induction p generalizing s s₁ with
  | ret value => exact ⟨rfl, fun h => h⟩
  | call e next ih =>
      obtain ⟨he, hnext⟩ := hp
      have hanswer := he.answer hsound hsame
      have hsame' : (VfsState.handle e s).2.SameNodes (VfsState.handle e s₁).2 :=
        (VfsState.SameNodes.of_handle he s).join (hsame.trans (.of_handle he s₁))
          fun ctx => (hsound ctx).coherent
      obtain ⟨hrun, hcalls⟩ := ih _ (hnext (VfsState.handle e s).1) (he.sound hsound) hsame'
      rw [Prog.run_call, Prog.run_call, hanswer]
      refine ⟨hrun, fun h => ⟨h.1, ?_⟩⟩
      rw [hanswer]
      exact hcalls h.2
  | fuel next ih => exact ih n (hp n) hsound hsame
  | halt => exact ⟨rfl, fun h => h⟩

/-- On devices that can be read, other reads make no difference. -/
theorem VfsState.Looks.eq (hp : ReadOnly p) (hsound : ∀ ctx, (s.devices ctx).Sound) {s' : VfsState}
    {found : α} (h : s.Looks n p found) (hrun : p.run n VfsState.handle s = some (value, s')) :
    found = value := by
  obtain ⟨s₁, s₂, hreads, hlook⟩ := h
  have hsame := (hp.same hsound hreads.sameNodes (n := n) (P := fun _ => True)).1
  rw [hlook, hrun] at hsame
  exact Option.some.inj hsame

end Looks

/-! ## Operations on a path to a device -/

/-- The walks that an operation makes along its path. -/
def VfsOp.walks : VfsOp → List (VfsM UInt32)
  | remove path | rename path _ =>
      [resolvePathToAddress path, resolveParentPathToAddress path, vfsDeviceGetContext path]
  | setPermissions path _ | getPermissions path | stat path | directoryCheck path
  | directoryCheckMounted path | directoryGetItem path _ =>
      [resolvePathToAddress path, vfsDeviceGetContext path]
  | _ => []

/-- The bytes at an address that are read as a name are not in the heap. -/
def NameOutside (heap : KernelHeap) (address : UInt32) : Prop :=
  ∀ i < 16, heap.poolSize ≤ address + .ofNat i - heap.heapBegin

/-- Operations that choose between a device and the kernel by the address they find, and do not
take an address of a device to the heap: their guards end them before that, they find a node
there first, or the heap refuses the address whatever it contains. For an address that is
refused `vfs_directory_get_item` reads a name at the null address. -/
def VfsOp.Apart (n : Nat) (s : VfsState) : VfsOp → Prop
  | remove path => path ≠ [] → ∀ address parent ctx,
      s.Looks n (resolvePathToAddress path) address → isNowhere address = false →
      s.Looks n (resolveParentPathToAddress path) parent → isNowhere parent = false →
      s.Looks n (vfsDeviceGetContext path) ctx →
      s.Looks n (onDevice ctx parent) false → ¬s.kernel.heap.Spans address
  | rename path name => ¬(path = [] ∨ path.head? = some space) → vfsNameIsValid name = true →
      ∀ address parent ctx,
      s.Looks n (resolvePathToAddress path) address → isNowhere address = false →
      s.Looks n (resolveParentPathToAddress path) parent → isNowhere parent = false →
      s.Looks n (vfsDeviceGetContext path) ctx →
      s.Looks n (onDevice ctx parent) false → ¬s.kernel.heap.Spans address
  | setPermissions path _ | getPermissions path => path ≠ [] → ∀ address ctx,
      s.Looks n (resolvePathToAddress path) address → isNowhere address = false →
      s.Looks n (vfsDeviceGetContext path) ctx →
      s.Looks n (nodeOnDevice false ctx address) false → ¬s.kernel.heap.Spans address
  | stat path => path ≠ [] → ∀ address ctx,
      s.Looks n (resolvePathToAddress path) address → isNowhere address = false →
      s.Looks n (vfsDeviceGetContext path) ctx →
      s.Looks n (nodeOnDevice true ctx address) false → ¬s.kernel.heap.Spans address
  | directoryCheck path | directoryCheckMounted path => path ≠ [] → ∀ address,
      s.Looks n (resolvePathToAddress path) address → ¬(address = knodeNull ∨ address = fsNull) →
        ¬s.kernel.heap.Spans address
  | directoryGetItem path _ => path ≠ [] → ∀ address ctx,
      s.Looks n (resolvePathToAddress path) address → ¬(address = knodeNull ∨ address = fsNull) →
      s.Looks n (vfsDeviceGetContext path) ctx → s.Looks n (onDevice ctx address) false →
        ¬s.kernel.heap.Spans address ∧ NameOutside s.kernel.heap kmallocNull
  | _ => False

/-- The other kernel has the same heap and, outside of it, the same memory, and the walks of the
operation read the same in it. -/
structure VfsOp.SameWalks (n : Nat) (s : VfsState) (k' : KernelState) (op : VfsOp) : Prop where
  heap : k'.heap = s.kernel.heap
  outside : ∀ x : UInt32, s.kernel.heap.poolSize ≤ x - s.kernel.heap.heapBegin →
    k'.memory x = s.kernel.memory x
  calls : ∀ p ∈ op.walks, ∀ s₁, s.ReadsTo s₁ →
    p.Calls n VfsState.handle (fun e _ => e.SameIn s.kernel k') s₁

section Operations

variable {n : Nat} {s s₁ s₂ : VfsState} {k' : KernelState} {address parent ctx : UInt32}
  {α β : Type}

/-- What only reads, and the same in both kernels, comes to what it looks for. -/
theorem SameRun.look {p : VfsM α} {f : α → VfsM β} (hp : ReadOnly p)
    (hcalls : ∀ s₁, s.ReadsTo s₁ →
      p.Calls n VfsState.handle (fun e _ => e.SameIn s.kernel k') s₁) (hreads : s.ReadsTo s₁)
    (hf : ∀ value s₂, s.ReadsTo s₂ → s.Looks n p value → SameRun n k' (f value) s₂) :
    SameRun n k' (p >>= f) s₁ := by
  have hcalls₁ := hcalls s₁ hreads
  rw [← hreads.sameNodes.kernel] at hcalls₁
  apply SameRun.bind (.of_calls hcalls₁)
  intro value s₂ hrun
  exact hf value s₂ (hreads.trans (hp.readsTo hrun)) ⟨s₁, s₂, hreads, hrun⟩

/-- Calls that read from a device. -/
def VfsCall.Asks : VfsCall → Prop
  | device _ e => e.Reads
  | _ => False

theorem VfsCall.Asks.reads {e : VfsCall} (he : e.Asks) : e.Reads := by
  cases e with
  | device ctx e => exact he
  | kernel | deviceSync | malloc | openFiles | setOpenFiles => exact he.elim

theorem asks_device {p : FS α} (hp : FS.ReadOnly p) : (device ctx p).All VfsCall.Asks := by
  have hasks : p.All fun e => (VfsCall.device ctx e).Asks := hp
  exact hasks.embed

theorem asks_onDevice (ctx address : UInt32) : (onDevice ctx address).All VfsCall.Asks := by
  rw [onDevice]
  split
  · exact asks_device (FS.readOnly_checkDirectoryValid address)
  · trivial

theorem asks_nodeOnDevice (fileFirst : Bool) (ctx address : UInt32) :
    (nodeOnDevice fileFirst ctx address).All VfsCall.Asks := by
  rw [nodeOnDevice]
  split
  · trivial
  · split
    · apply (asks_device (FS.readOnly_fileCheck address)).bind
      intro found
      split
      · trivial
      · exact asks_device (FS.readOnly_checkDirectoryValid address)
    · apply (asks_device (FS.readOnly_checkDirectoryValid address)).bind
      intro found
      split
      · trivial
      · exact asks_device (FS.readOnly_fileCheck address)

theorem SameRun.ask {p : VfsM α} {f : α → VfsM β} (hp : p.All VfsCall.Asks)
    (hreads : s.ReadsTo s₁)
    (hf : ∀ value s₂, s.ReadsTo s₂ → s.Looks n p value → SameRun n k' (f value) s₂) :
    SameRun n k' (p >>= f) s₁ := by
  apply SameRun.look (hp.mono fun e he => he.reads) _ hreads hf
  intro s₂ _
  apply hp.calls
  intro e s₃ he
  cases e with
  | device ctx e => trivial
  | kernel | deviceSync | malloc | openFiles | setOpenFiles => exact he.elim

/-- What the heap answers at once, without a look at its blocks. -/
theorem SameRun.refused {p : KernelM α} {f : α → VfsM β} {value : α}
    (hheap : k'.heap = s.kernel.heap) (hreads : s.ReadsTo s₁)
    (hrun : ∀ k : KernelState, k.heap = s.kernel.heap →
      p.run n KernelState.handle k = some (value, k))
    (hf : SameRun n k' (f value) s₁) : SameRun n k' (VfsM.kernel p >>= f) s₁ := by
  rw [← hreads.sameNodes.kernel] at hheap hrun
  apply SameRun.bind (.kernel hheap hrun)
  intro value' s₂ hrun'
  rw [run_kernel, hrun _ rfl] at hrun'
  cases hrun'
  exact hf

theorem run_removeKnode_off (hoff : ¬s₁.kernel.heap.Spans address) :
    (removeKnode address parent).run n VfsState.handle s₁ = some (false, s₁) := by
  rw [removeKnode, Prog.run_bind_eq_some]
  refine ⟨0, s₁, ?_, ?_⟩
  · rw [run_kernel, KernelM.kmallocGetPermissions, KernelM.run_kmallocGet_off hoff]
    rfl
  · rw [Prog.run_bind_eq_some]
    obtain ⟨⟨perm, k⟩, hperm⟩ :=
      (KernelM.straight_kmallocGet KMallocHeader.perm parent).run KernelState.handle s₁.kernel
    have hk := (KernelM.readOnly_getPermissions parent).run (hperm n)
    refine ⟨perm, s₁, ?_, rfl⟩
    rw [run_kernel, KernelM.kmallocGetPermissions, hperm n, hk]
    rfl

/-- Operations on what a device or the kernel has at an address. -/
theorem SameRun.choose {check : VfsM Bool} {onDevice inKernel : VfsM α}
    (hcheck : check.All VfsCall.Asks) (hreads : s.ReadsTo s₁)
    (hdevice : ∀ s₂, SameRun n k' onDevice s₂)
    (hkernel : s.Looks n check false → ∀ s₂, s.ReadsTo s₂ → SameRun n k' inKernel s₂) :
    SameRun n k' (do if ← check then onDevice else inKernel) s₁ := by
  apply SameRun.ask hcheck hreads
  intro found s₂ hreads₂ hfound
  split
  · exact hdevice s₂
  next hmissing =>
    rw [Bool.not_eq_true] at hmissing
    subst hmissing
    exact hkernel hfound s₂ hreads₂

/-! ## The two first walks -/

section Walks

variable {path : List UInt8}
  (hresolve : ∀ s₁, s.ReadsTo s₁ → (resolvePathToAddress path).Calls n VfsState.handle
    (fun e _ => e.SameIn s.kernel k') s₁)
  (hcontext : ∀ s₁, s.ReadsTo s₁ → (vfsDeviceGetContext path).Calls n VfsState.handle
    (fun e _ => e.SameIn s.kernel k') s₁)

include hresolve hcontext

/-- Operations that find an address and a device, and go on if the address is not refused. -/
theorem SameRun.locate {refuses : UInt32 → Prop} [DecidablePred refuses] {refused : VfsM α}
    {f : UInt32 → UInt32 → VfsM α} (hreads : s.ReadsTo s₁)
    (hrefused : ∀ s₂, SameRun n k' refused s₂)
    (hf : ∀ address ctx s₂, s.ReadsTo s₂ → s.Looks n (resolvePathToAddress path) address →
      ¬refuses address → s.Looks n (vfsDeviceGetContext path) ctx →
        SameRun n k' (f address ctx) s₂) :
    SameRun n k' (do
      let address ← resolvePathToAddress path
      if refuses address then refused
      else do
        let ctx ← vfsDeviceGetContext path
        f address ctx) s₁ := by
  apply SameRun.look (readOnly_resolvePathToAddress path) hresolve hreads
  intro address s₂ hreads₂ haddress
  split
  · exact hrefused s₂
  next hok =>
    apply SameRun.look (readOnly_deviceGetContext path) hcontext hreads₂
    intro ctx s₃ hreads₃ hctx
    exact hf address ctx s₃ hreads₃ haddress hok hctx

theorem sameRun_setPermissions {perm : UInt8} (hheap : k'.heap = s.kernel.heap)
    (happart : (VfsOp.setPermissions path perm).Apart n s) :
    SameRun n k' (doSetPermissions path perm) s := by
  rw [doSetPermissions]
  split
  · exact .ret _
  next hpath =>
    apply SameRun.locate hresolve hcontext .refl (fun _ => .ret _)
    intro address ctx s₁ hreads haddress hsome hctx
    apply SameRun.choose (asks_nodeOnDevice false ctx address) hreads
    · intro s₂
      exact (SameRun.device ctx _).bind fun _ _ _ => .ret _
    · intro hmissing s₂ hreads₂
      have hoff := happart hpath address ctx haddress (by simpa using hsome) hctx hmissing
      apply SameRun.refused hheap hreads₂ (fun k hk => KernelM.run_isValid_off (hk ▸ hoff))
      exact .ret _

theorem sameRun_getPermissions (hheap : k'.heap = s.kernel.heap)
    (happart : (VfsOp.getPermissions path).Apart n s) :
    SameRun n k' (doGetPermissions path) s := by
  rw [doGetPermissions]
  split
  · exact .ret _
  next hpath =>
    apply SameRun.locate hresolve hcontext .refl (fun _ => .ret _)
    intro address ctx s₁ hreads haddress hsome hctx
    apply SameRun.choose (asks_nodeOnDevice false ctx address) hreads
    · intro s₂
      exact (SameRun.device ctx _).bind fun _ _ _ => .ret _
    · intro hmissing s₂ hreads₂
      have hoff := happart hpath address ctx haddress (by simpa using hsome) hctx hmissing
      apply SameRun.refused hheap hreads₂ (fun k hk => KernelM.run_isValid_off (hk ▸ hoff))
      exact .ret _

theorem sameRun_stat (hheap : k'.heap = s.kernel.heap) (happart : (VfsOp.stat path).Apart n s) :
    SameRun n k' (doStat path) s := by
  rw [doStat]
  split
  · exact .ret _
  next hpath =>
    apply SameRun.locate hresolve hcontext .refl (fun _ => .ret _)
    intro address ctx s₁ hreads haddress hsome hctx
    apply SameRun.choose (asks_nodeOnDevice true ctx address) hreads
    · intro s₂
      exact (SameRun.device ctx _).bind fun _ _ _ => (SameRun.device ctx _).bind fun _ _ _ =>
        (SameRun.device ctx _).bind fun _ _ _ => .ret _
    · intro hmissing s₂ hreads₂
      have hoff := happart hpath address ctx haddress (by simpa using hsome) hctx hmissing
      apply SameRun.refused hheap hreads₂ (fun k hk => KernelM.run_checkIsValid_off (hk ▸ hoff))
      exact .ret _

theorem sameRun_directoryGetItem {index : UInt32} (hheap : k'.heap = s.kernel.heap)
    (houtside : ∀ x : UInt32, s.kernel.heap.poolSize ≤ x - s.kernel.heap.heapBegin →
      k'.memory x = s.kernel.memory x)
    (happart : (VfsOp.directoryGetItem path index).Apart n s) :
    SameRun n k' (doDirectoryGetItem path index) s := by
  rw [doDirectoryGetItem]
  split
  · exact .ret _
  next hpath =>
    apply SameRun.locate hresolve hcontext .refl (fun _ => .ret _)
    intro address ctx s₁ hreads haddress hsome hctx
    apply SameRun.choose (asks_onDevice ctx address) hreads
    · intro s₂
      exact (SameRun.device ctx _).bind fun _ _ _ => (SameRun.device ctx _).bind fun _ _ _ => .ret _
    · intro hmissing s₂ hreads₂
      obtain ⟨hoff, hname⟩ := happart hpath address ctx haddress hsome hctx hmissing
      apply SameRun.refused hheap hreads₂
        (fun k hk => KernelM.run_getReference_off (hk ▸ hoff) index)
      apply SameRun.bind _ fun _ _ _ => .ret _
      apply SameRun.of_calls
      refine ⟨⟨trivial, Bytes.Mem.read_congr _ fun i hi => ?_⟩, trivial⟩
      rw [hreads₂.sameNodes.kernel]
      exact houtside _ (hname i hi)

theorem sameRun_directoryCheckMounted (hheap : k'.heap = s.kernel.heap)
    (happart : (VfsOp.directoryCheckMounted path).Apart n s) (hreads : s.ReadsTo s₁) :
    SameRun n k' (doDirectoryCheckMounted path) s₁ := by
  rw [doDirectoryCheckMounted]
  split
  · exact .ret _
  next hpath =>
    apply SameRun.look (readOnly_resolvePathToAddress path) hresolve hreads
    intro address s₂ hreads₂ haddress
    split
    · exact .ret _
    next hsome =>
      rw [hasKernelFlag, Prog.bind_assoc]
      apply SameRun.refused hheap hreads₂
        (fun k hk => KernelM.run_isValid_off (hk ▸ happart hpath address haddress hsome))
      apply SameRun.look (readOnly_deviceGetContext path) hcontext hreads₂
      intro ctx s₃ hreads₃ hctx
      apply SameRun.ask (asks_onDevice ctx address) hreads₃
      intro found s₄ hreads₄ hfound
      split
      · exact (SameRun.device ctx _).bind fun _ _ _ => .ret _
      · exact .ret _

theorem sameRun_directoryCheck (hheap : k'.heap = s.kernel.heap)
    (happart : (VfsOp.directoryCheck path).Apart n s) :
    SameRun n k' (doDirectoryCheck path) s := by
  rw [doDirectoryCheck]
  split
  · exact .ret _
  next hpath =>
    apply SameRun.bind
      (sameRun_directoryCheckMounted hresolve hcontext hheap happart .refl)
    intro mounted s₁ hrun
    have hreads := (readOnly_directoryCheckMounted path).readsTo hrun
    split
    · exact .ret _
    · apply SameRun.look (readOnly_resolvePathToAddress path) hresolve hreads
      intro address s₂ hreads₂ haddress
      split
      · exact .ret _
      next hsome =>
        rw [hasKernelFlag, Prog.bind_assoc]
        apply SameRun.refused hheap hreads₂
          (fun k hk => KernelM.run_isValid_off (hk ▸ happart hpath address haddress hsome))
        apply SameRun.look (readOnly_deviceGetContext path) hcontext hreads₂
        intro ctx s₃ hreads₃ hctx
        rw [onDevice]
        split
        · exact .device ctx _
        · exact .ret _

/-- Operations that find an address, its parent and a device, and go on if neither address is
refused. -/
theorem SameRun.locateIn {refused : VfsM α} {f : UInt32 → UInt32 → UInt32 → VfsM α}
    (hparent : ∀ s₁, s.ReadsTo s₁ → (resolveParentPathToAddress path).Calls n VfsState.handle
    (fun e _ => e.SameIn s.kernel k') s₁) (hrefused : ∀ s₂, SameRun n k' refused s₂)
    (hf : ∀ address parent ctx s₂, s.ReadsTo s₂ →
      s.Looks n (resolvePathToAddress path) address → isNowhere address = false →
      s.Looks n (resolveParentPathToAddress path) parent → isNowhere parent = false →
      s.Looks n (vfsDeviceGetContext path) ctx → SameRun n k' (f address parent ctx) s₂) :
    SameRun n k' (do
      let address ← resolvePathToAddress path
      if isNowhere address then refused
      else do
        let parent ← resolveParentPathToAddress path
        if isNowhere parent then refused
        else do
          let ctx ← vfsDeviceGetContext path
          f address parent ctx) s := by
  apply SameRun.look (readOnly_resolvePathToAddress path) hresolve .refl
  intro address s₁ hreads haddress
  split
  · exact hrefused s₁
  next hsome =>
    apply SameRun.look (readOnly_resolveParentPathToAddress path) hparent hreads
    intro parent s₂ hreads₂ hparent
    split
    · exact hrefused s₂
    next hsomeParent =>
      apply SameRun.look (readOnly_deviceGetContext path) hcontext hreads₂
      intro ctx s₃ hreads₃ hctx
      exact hf address parent ctx s₃ hreads₃ haddress (by simpa using hsome) hparent
        (by simpa using hsomeParent) hctx

theorem sameRun_remove (hheap : k'.heap = s.kernel.heap)
    (hparent : ∀ s₁, s.ReadsTo s₁ → (resolveParentPathToAddress path).Calls n VfsState.handle
    (fun e _ => e.SameIn s.kernel k') s₁) (happart : (VfsOp.remove path).Apart n s) :
    SameRun n k' (doRemove path) s := by
  rw [doRemove]
  split
  · exact .ret _
  next hpath =>
    apply SameRun.locateIn hresolve hcontext hparent (fun _ => .ret _)
    intro address parent ctx s₁ hreads haddress hsome hparent hsomeParent hctx
    apply SameRun.choose (asks_onDevice ctx parent) hreads
    · intro s₂
      rw [removeOnDevice]
      apply (SameRun.device ctx _).bind
      intro itemPerm s₃ _
      apply (SameRun.device ctx _).bind
      intro parentPerm s₄ _
      split
      · exact .ret _
      · apply (SameRun.device ctx _).bind
        intro isFile s₅ _
        split
        · exact (SameRun.device ctx _).bind fun _ _ _ => .device ctx _
        · apply (SameRun.device ctx _).bind
          intro isDirectory s₆ _
          split
          · exact .device ctx _
          · exact .ret _
    · intro hmissing s₂ hreads₂ value s₃ hrun
      have hoff := happart hpath address parent ctx haddress hsome hparent hsomeParent hctx hmissing
      rw [← hreads₂.sameNodes.kernel] at hheap hoff
      rw [run_removeKnode_off hoff] at hrun
      cases hrun
      have hother : ¬ (s₂.setKernel k').kernel.heap.Spans address := by
        rw [← hheap] at hoff
        exact hoff
      exact ⟨rfl, run_removeKnode_off hother⟩

theorem sameRun_rename {name : List UInt8} (hheap : k'.heap = s.kernel.heap)
    (hparent : ∀ s₁, s.ReadsTo s₁ → (resolveParentPathToAddress path).Calls n VfsState.handle
    (fun e _ => e.SameIn s.kernel k') s₁) (happart : (VfsOp.rename path name).Apart n s) :
    SameRun n k' (doRename path name) s := by
  rw [doRename]
  split
  · exact .ret _
  next hpath =>
    split
    · exact .ret _
    next hname =>
      apply SameRun.locateIn hresolve hcontext hparent (fun _ => .ret _)
      intro address parent ctx s₁ hreads haddress hsome hparent hsomeParent hctx
      apply SameRun.choose (asks_onDevice ctx parent) hreads
      · intro s₂
        apply (SameRun.device ctx _).bind
        intro existing s₃ _
        split
        · exact .ret _
        · exact .device ctx _
      · intro hmissing s₂ hreads₂
        have hoff := happart hpath (by simpa using hname) address parent ctx haddress hsome hparent
          hsomeParent hctx hmissing
        apply SameRun.refused hheap hreads₂ (fun k hk => KernelM.run_setName_off (hk ▸ hoff) name)
        exact .ret _

end Walks

end Operations

/-! ## Apart -/

/-- An operation that does not take an address of a device to the heap does the same with
another kernel in which its walks read the same, and it changes neither. -/
theorem address_spaces_apart {n : Nat} {s s' : VfsState} {k' : KernelState} {op : VfsOp}
    {answer : VfsAnswer} (hwalks : op.SameWalks n s k') (happart : op.Apart n s)
    (hrun : op.step n s = some (answer, s')) :
    s'.kernel = s.kernel ∧ op.step n (s.setKernel k') = some (answer, s'.setKernel k') := by
  suffices hsame : SameRun n k' op.program s from hsame answer s' hrun
  obtain ⟨hheap, houtside, hcalls⟩ := hwalks
  cases op with
  | remove path =>
      obtain ⟨hresolve, hparent, hcontext⟩ := by simpa [VfsOp.walks] using hcalls
      exact (sameRun_remove hresolve hcontext hheap hparent happart).bind fun _ _ _ => .ret _
  | rename path name =>
      obtain ⟨hresolve, hparent, hcontext⟩ := by simpa [VfsOp.walks] using hcalls
      exact (sameRun_rename hresolve hcontext hheap hparent happart).bind fun _ _ _ => .ret _
  | setPermissions path perm =>
      obtain ⟨hresolve, hcontext⟩ := by simpa [VfsOp.walks] using hcalls
      exact (sameRun_setPermissions hresolve hcontext hheap happart).bind fun _ _ _ => .ret _
  | getPermissions path =>
      obtain ⟨hresolve, hcontext⟩ := by simpa [VfsOp.walks] using hcalls
      exact (sameRun_getPermissions hresolve hcontext hheap happart).bind fun _ _ _ => .ret _
  | stat path =>
      obtain ⟨hresolve, hcontext⟩ := by simpa [VfsOp.walks] using hcalls
      exact (sameRun_stat hresolve hcontext hheap happart).bind fun _ _ _ => .ret _
  | directoryCheck path =>
      obtain ⟨hresolve, hcontext⟩ := by simpa [VfsOp.walks] using hcalls
      exact (sameRun_directoryCheck hresolve hcontext hheap happart).bind fun _ _ _ => .ret _
  | directoryCheckMounted path =>
      obtain ⟨hresolve, hcontext⟩ := by simpa [VfsOp.walks] using hcalls
      exact (sameRun_directoryCheckMounted hresolve hcontext hheap happart .refl).bind
        fun _ _ _ => .ret _
  | directoryGetItem path index =>
      obtain ⟨hresolve, hcontext⟩ := by simpa [VfsOp.walks] using hcalls
      exact (sameRun_directoryGetItem hresolve hcontext hheap houtside happart).bind fun _ _ _ =>
        .ret _
  | openFile | closeFile | read | write | seek | tell | getSize | exist | mkdir | truncate
  | directoryGetItemCount | syncAll => exact happart.elim

/-! ## A disk in a drive -/

/-- A call that reads no byte of the kernel at `address`. -/
def VfsCall.Misses (address : UInt32) : VfsCall → Prop
  | kernel (.memRead source size) => ¬address - source < size
  | kernel (.memWrite ..) => False
  | _ => True

instance (address : UInt32) : (e : VfsCall) → Decidable (e.Misses address)
  | .kernel (.memRead source size) => inferInstanceAs (Decidable (¬address - source < size))
  | .kernel (.memWrite ..) => .isFalse id
  | .kernel .heap | .kernel .root | .device .. | .deviceSync _ | .malloc | .openFiles
  | .setOpenFiles _ => .isTrue trivial

/-- The kernel with another byte at `address`. -/
def withByte (address : UInt32) (byte : UInt8) (k : KernelState) : KernelState :=
  { k with memory := Function.update k.memory address byte }

theorem VfsCall.Misses.sameIn {address : UInt32} {e : VfsCall} (h : e.Misses address)
    (k : KernelState) (byte : UInt8) : e.SameIn k (withByte address byte k) := by
  cases e with
  | kernel e =>
      cases e with
      | heap | root => exact ⟨trivial, rfl⟩
      | memRead source size =>
          refine ⟨trivial, Bytes.Mem.read_congr _ fun i hi => Function.update_of_ne ?_ _ _⟩
          rintro rfl
          apply h
          rw [UInt32.lt_iff_toNat_lt, UInt32.add_comm, UInt32.add_sub_cancel, UInt32.toNat_ofNat',
            Nat.mod_eq_of_lt (hi.trans size.toNat_lt)]
          exact hi
      | memWrite => exact h.elim
  | device | deviceSync | malloc | openFiles | setOpenFiles => trivial

/-- A disk whose partition has an empty root directory at the address 256. -/
def rootDisk : List UInt8 :=
  let part : FSPartitionBlock :=
    ⟨4096, 64, 256, Vector.replicate 16 0, 0, 0, 0, fsMagic⟩
  let block : FSBlockHeader :=
    ⟨Vector.replicate 16 0, fsAttributeDirectory, fsPermissionRead ||| fsPermissionWrite,
      Vector.replicate 6 0, 0, 0⟩
  let root : FSDirectoryHeader := ⟨block, fsNull, ⟨fsNull, fsNull⟩, 0⟩
  List.replicate 16 0 ++ FSPartitionBlock.layout.encode part ++ List.replicate 208 0 ++
    FSDirectoryHeader.layout.encode root

/-- The disk in a drive at `/mnt/ata0`. -/
def VfsState.inserted : Option VfsState := do
  let disk : UInt32 → Sector := fun sector offset =>
    if sector = 0 then rootDisk.getD offset 0 else 0
  let drive := { zeroDevice.drive with disk }
  let (_, opened) ← Device.fsDeviceOpen { zeroDevice with drive } .ata
  return { kernel := smallKernel, devices := fun _ => opened, openFiles := ⟨[], 1⟩
           mallocOk := fun _ => true, mallocs := 0 }

theorem VfsState.inserted_spec {s : VfsState} (h : VfsState.inserted = some s) :
    s.kernel = smallKernel ∧ ∀ ctx, (s.devices ctx).Sound := by
  simp only [inserted, Option.bind_eq_bind, Option.bind_eq_some_iff] at h
  obtain ⟨⟨part, opened⟩, hopen, h⟩ := h
  cases h
  exact ⟨rfl, fun ctx =>
    (Device.fsDeviceOpen_spec ⟨.inl rfl, fun _ => rfl, fun _ => rfl⟩ hopen).2.1.sound⟩

/-- Walks that miss a byte of the kernel read the same, whatever it is. -/
theorem VfsOp.SameWalks.of_misses {n : Nat} {s : VfsState} {op : VfsOp} {address : UInt32}
    (hsound : ∀ ctx, (s.devices ctx).Sound)
    (hin : address - s.kernel.heap.heapBegin < s.kernel.heap.poolSize)
    (hmisses : ∀ p ∈ op.walks, ReadOnly p ∧
      p.Calls n VfsState.handle (fun e _ => e.Misses address) s) (byte : UInt8) :
    op.SameWalks n s (withByte address byte s.kernel) := by
  refine ⟨rfl, fun x hout => Function.update_of_ne ?_ _ _, fun p hp s₁ hreads => ?_⟩
  · rintro rfl
    rw [UInt32.le_iff_toNat_le] at hout
    rw [UInt32.lt_iff_toNat_lt] at hin
    omega
  obtain ⟨hread, hcalls⟩ := hmisses p hp
  have hsame := (hread.same hsound hreads.sameNodes (n := n)
    (P := fun e => e.Misses address)).2 hcalls
  exact hsame.mono _ _ fun e _ he => he.sameIn s.kernel byte

/-- `/mnt/ata0`. -/
def mountPath : List UInt8 := [0x2F, 0x6D, 0x6E, 0x74, 0x2F, 0x61, 0x74, 0x61, 0x30]

/-- The root directory of the disk is below the data of the heap, so that the first byte of `/f`
has no say in what it is. -/
theorem address_spaces_apart_mounted : ∃ s s' : VfsState, VfsState.inserted = some s ∧
    (VfsOp.directoryCheckMounted mountPath).step 100 s = some (.status true, s') ∧
    s'.kernel = s.kernel ∧
    (VfsOp.directoryCheckMounted mountPath).step 100
      (s.setKernel (withByte 0x100110 0x41 s.kernel)) =
      some (.status true, s'.setKernel (withByte 0x100110 0x41 s.kernel)) := by
  have hrun : (do
      let s ← VfsState.inserted
      let (address, _) ← (resolvePathToAddress mountPath).run 100 VfsState.handle s
      let (answer, _) ← (VfsOp.directoryCheckMounted mountPath).step 100 s
      let misses := decide (∀ p ∈ [resolvePathToAddress mountPath, vfsDeviceGetContext mountPath],
        p.Calls 100 VfsState.handle (fun e _ => e.Misses 0x100110) s)
      return (address, answer, misses)) = some (256, .status true, true) := by
    rw [VfsState.inserted, smallKernel_eq]
    decide +kernel
  obtain ⟨s, hs, hrun⟩ := Option.bind_eq_some_iff.mp hrun
  obtain ⟨⟨address, s₁⟩, hresolve, hrun⟩ := Option.bind_eq_some_iff.mp hrun
  obtain ⟨⟨answer, s'⟩, hstep, hrun⟩ := Option.bind_eq_some_iff.mp hrun
  obtain ⟨rfl, hanswer⟩ := Prod.mk.inj (Option.some.inj hrun)
  obtain ⟨rfl, hmisses⟩ := Prod.mk.inj hanswer
  obtain ⟨hkernel, hsound⟩ := VfsState.inserted_spec hs
  have hcalls := of_decide_eq_true hmisses
  have hapart : (VfsOp.directoryCheckMounted mountPath).Apart 100 s := by
    intro _ address' hlook _
    rw [hlook.eq (readOnly_resolvePathToAddress mountPath) hsound hresolve, hkernel]
    exact KernelHeap.not_spans_of_lt (by decide)
  refine ⟨s, s', hs, hstep, address_spaces_apart (.of_misses hsound ?_ ?_ _) hapart hstep⟩
  · rw [hkernel]
    decide
  intro p hp
  refine ⟨?_, hcalls p hp⟩
  simp only [VfsOp.walks, List.mem_cons, List.not_mem_nil, or_false] at hp
  rcases hp with rfl | rfl
  · exact readOnly_resolvePathToAddress mountPath
  · exact readOnly_deviceGetContext mountPath

/-- An empty device at `/mnt/ata0` whose root directory has the address of `/f`. -/
def VfsState.colliding (n : Nat) : Option VfsState := do
  let d ← zeroDevice.formatCommand n 0x400430 0x10010C .ata
  return { kernel := smallKernel, devices := fun _ => d, openFiles := ⟨[], 1⟩
           mallocOk := fun _ => true, mallocs := 0 }

/-- Renaming the root directory of the device writes to `/f`. -/
theorem address_spaces_mix : ∃ (s s' : VfsState), VfsState.colliding 100 = some s ∧
    (∃ s₁, (resolvePathToAddress mountPath).run 100 VfsState.handle s = some (0x100110, s₁)) ∧
    (∃ s₂, (vfsDeviceGetContext mountPath).run 100 VfsState.handle s = some (0x5000, s₂)) ∧
    (VfsOp.rename mountPath [0x78]).step 100 s = some (.status true, s') ∧
    s.kernel.memory 0x100110 = 0x66 ∧ s'.kernel.memory 0x100110 = 0x78 := by
  have hrun : (do
      let s ← VfsState.colliding 100
      let (address, _) ← (resolvePathToAddress mountPath).run 100 VfsState.handle s
      let (ctx, _) ← (vfsDeviceGetContext mountPath).run 100 VfsState.handle s
      let (answer, s') ← (VfsOp.rename mountPath [0x78]).step 100 s
      return (address, ctx, answer, s.kernel.memory 0x100110, s'.kernel.memory 0x100110)) =
        some (0x100110, 0x5000, .status true, 0x66, 0x78) := by
    rw [VfsState.colliding, smallKernel_eq]
    decide +kernel
  obtain ⟨s, hs, hrun⟩ := Option.bind_eq_some_iff.mp hrun
  obtain ⟨⟨address, s₁⟩, hresolve, hrun⟩ := Option.bind_eq_some_iff.mp hrun
  obtain ⟨⟨ctx, s₂⟩, hcontext, hrun⟩ := Option.bind_eq_some_iff.mp hrun
  obtain ⟨⟨answer, s'⟩, hstep, hrun⟩ := Option.bind_eq_some_iff.mp hrun
  obtain ⟨rfl, hfound⟩ := Prod.mk.inj (Option.some.inj hrun)
  obtain ⟨rfl, hstatus⟩ := Prod.mk.inj hfound
  obtain ⟨rfl, hbytes⟩ := Prod.mk.inj hstatus
  obtain ⟨hbefore, hafter⟩ := Prod.mk.inj hbytes
  exact ⟨s, s', hs, ⟨s₁, hresolve⟩, ⟨s₂, hcontext⟩, hstep, hbefore, hafter⟩

end Vfs

end AvrKernel

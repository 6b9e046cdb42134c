import AvrKernel.BaseFS.Heap
import AvrKernel.BaseFS.ReadOnly
import AvrKernel.Kernel.ReadOnly
import AvrKernel.Vfs.Mount
import AvrKernel.Vfs.Parse

/-!
# The resolvers agree

A path that is opened is parsed by another function than the one that all other
operations resolve paths with. Both take the same walk, and the walk only reads.
-/

namespace AvrKernel.Vfs

open BaseFS Kernel Effect

/-! ## Reading -/

/-- Calls that change neither nodes nor tables. -/
def VfsCall.Reads : VfsCall → Prop
  | kernel e => e.Reads
  | device _ e => e.Reads
  | openFiles => True
  | deviceSync _ | malloc | setOpenFiles _ => False

/-- Calls that look at nodes only. -/
def VfsCall.Views : VfsCall → Prop
  | kernel e => e.Reads
  | device _ e => e.Reads
  | openFiles | deviceSync _ | malloc | setOpenFiles _ => False

theorem VfsCall.Views.reads {e : VfsCall} (he : e.Views) : e.Reads := by
  cases e with
  | kernel e => exact he
  | device ctx e => exact he
  | openFiles | deviceSync | malloc | setOpenFiles => exact he.elim

/-- Two states with the same kernel nodes, open files and logical devices. -/
structure VfsState.SameNodes (s s' : VfsState) : Prop where
  kernel : s'.kernel = s.kernel
  openFiles : s'.openFiles = s.openFiles
  devices : ∀ ctx, (s.devices ctx).Coherent →
    (s'.devices ctx).Coherent ∧ (s'.devices ctx).logical = (s.devices ctx).logical

namespace VfsState

variable {s s' s'' : VfsState}

theorem SameNodes.refl (s : VfsState) : s.SameNodes s := ⟨rfl, rfl, fun _ h => ⟨h, rfl⟩⟩

theorem SameNodes.trans (h : s.SameNodes s') (h' : s'.SameNodes s'') : s.SameNodes s'' where
  kernel := h'.kernel.trans h.kernel
  openFiles := h'.openFiles.trans h.openFiles
  devices ctx hcoherent := by
    obtain ⟨hcoherent', hlogical⟩ := h.devices ctx hcoherent
    obtain ⟨hcoherent'', hlogical'⟩ := h'.devices ctx hcoherent'
    exact ⟨hcoherent'', hlogical'.trans hlogical⟩

theorem SameNodes.of_handle {e : VfsCall} (he : e.Reads) (s : VfsState) :
    s.SameNodes (handle e s).2 := by
  cases e with
  | kernel e =>
      refine ⟨KernelState.handle_snd he s.kernel, rfl, fun _ h => ⟨h, rfl⟩⟩
  | device ctx e =>
      refine ⟨rfl, rfl, fun other hcoherent => ?_⟩
      simp only [handle, setDevice]
      by_cases heq : other = ctx
      · subst heq
        rw [Function.update_self]
        exact hcoherent.handle he
      · rw [Function.update_of_ne heq]
        exact ⟨hcoherent, rfl⟩
  | openFiles => exact .refl s
  | deviceSync | malloc | setOpenFiles => exact he.elim

end VfsState

namespace VfsM

/-- A program whose calls only read. -/
abbrev ReadOnly {α : Type} (p : VfsM α) : Prop := p.All VfsCall.Reads

theorem ReadOnly.run {α : Type} {p : VfsM α} (hp : ReadOnly p) {n : Nat} {s s' : VfsState}
    {value : α} (hrun : p.run n VfsState.handle s = some (value, s')) : s.SameNodes s' := by
  have hcalls : p.Calls n VfsState.handle (fun e _ => e.Reads) s :=
    hp.calls _ _ (fun _ _ he => he) s
  exact Prog.run_preserves n VfsState.handle
    (fun e s₁ (hs₁ : s.SameNodes s₁) he => hs₁.trans (.of_handle he s₁)) (.refl s) hcalls hrun

/-- A program whose calls look at nodes only. -/
abbrev Views {α : Type} (p : VfsM α) : Prop := p.All VfsCall.Views

theorem Views.readOnly {α : Type} {p : VfsM α} (hp : Views p) : ReadOnly p :=
  hp.mono fun _ he => he.reads

theorem views_kernel {α : Type} {p : KernelM α} (hp : KernelM.ReadOnly p) :
    Views (kernel p) := by
  have hreads : p.All fun e => (VfsCall.kernel e).Views := hp
  exact hreads.embed

theorem views_device {α : Type} {ctx : UInt32} {p : FS α} (hp : FS.ReadOnly p) :
    Views (device ctx p) := by
  have hreads : p.All fun e => (VfsCall.device ctx e).Views := hp
  exact hreads.embed

theorem views_findReference (ctx directory : UInt32) (token : List UInt8) (remaining : Nat)
    (index : UInt32) : Views (findReference ctx directory token remaining index) := by
  induction remaining generalizing index with
  | zero => trivial
  | succ remaining ih =>
      refine (views_device (FS.readOnly_getReference _ _)).bind fun reference => ?_
      split
      · exact ih _
      · refine (views_device (FS.readOnly_getName _)).bind fun itemName => ?_
        split
        · trivial
        · exact ih _

theorem views_nextKnode (knode : UInt32) (token : List UInt8) :
    Views (nextKnode knode token) := by
  rw [nextKnode]
  split
  · exact (views_kernel (KernelM.readOnly_getParent _)).bind fun _ => trivial
  · exact (views_kernel (KernelM.readOnly_findByName _ _)).bind fun _ => trivial

theorem views_resolveMount (walk : PathWalk) : Views (resolveMount walk) := by
  refine (views_kernel (KernelM.readOnly_getFlags _)).bind fun flags => ?_
  split
  · refine (views_kernel (KernelM.readOnly_getReference _ _)).bind fun deviceAddress => ?_
    refine (views_kernel (KernelM.readOnly_getReference _ _)).bind fun deviceContext => ?_
    split
    · split
      · refine (views_device FS.readOnly_getPartition).bind fun partition => ?_
        split
        · trivial
        · refine (views_device FS.readOnly_context).bind fun geometry => ?_
          split <;> trivial
      · trivial
    · trivial
  · trivial

theorem views_resolveToken (walk : PathWalk) (token : List UInt8) :
    Views (resolveToken walk token) := by
  rw [resolveToken]
  split
  · refine (views_nextKnode _ _).bind fun next => ?_
    cases next with
    | none => trivial
    | some knode => exact views_resolveMount _
  · split
    · refine (views_device (FS.readOnly_getParent _)).bind fun parent => ?_
      refine (views_device FS.readOnly_getPartition).bind fun partition => ?_
      split
      · exact (views_kernel (KernelM.readOnly_getParent _)).bind fun _ => trivial
      · trivial
    · refine (views_device (FS.readOnly_getReferenceCount _)).bind fun refCount => ?_
      refine (views_findReference _ _ _ _ _).bind fun foundRef => ?_
      split <;> trivial

theorem views_resolveTokens (path : List (List UInt8)) (walk : PathWalk) :
    Views (resolveTokens path walk) := by
  induction path generalizing walk with
  | nil => trivial
  | cons token rest ih =>
      rw [resolveTokens]
      split
      · exact ih _
      · refine (views_resolveToken _ _).bind fun next => ?_
        cases next with
        | none => trivial
        | some walk' => exact ih _

theorem readOnly_kernel {α : Type} {p : KernelM α} (hp : KernelM.ReadOnly p) :
    ReadOnly (kernel p) := (views_kernel hp).readOnly

theorem readOnly_device {α : Type} {ctx : UInt32} {p : FS α} (hp : FS.ReadOnly p) :
    ReadOnly (device ctx p) := (views_device hp).readOnly

/-! ## One walk -/

/-- The two ways of checking a mount are one. -/
theorem parseMount_eq (walk : PathWalk) : parseMount walk = resolveMount walk := by
  rw [parseMount, resolveMount]
  refine bind_congr fun flags => ?_
  split
  · refine bind_congr fun deviceAddress => bind_congr fun deviceContext => ?_
    by_cases hcontext : deviceContext ≠ kmallocNull ∧ deviceContext ≠ 0
    · by_cases haddress : deviceAddress ≠ kmallocNull ∧ deviceAddress ≠ 0
      · rw [if_pos ⟨hcontext.2, hcontext.1, haddress⟩, if_pos hcontext, if_pos haddress]
      · rw [if_neg fun h => haddress ⟨h.2.2.1, h.2.2.2⟩, if_pos hcontext, if_neg haddress]
    · rw [if_neg fun h => hcontext ⟨h.2.1, h.1⟩, if_neg hcontext]
  · rfl

/-- Without `VFS_OPEN_CREATE` parsing is the walk of resolving. -/
theorem parseTokens_eq {flags : UInt16} (hflags : flags &&& vfsOpenCreate = 0)
    (path : List (List UInt8)) (walk : PathWalk) :
    parseTokens flags path walk = resolveTokens path walk := by
  induction path generalizing walk with
  | nil => rfl
  | cons token rest ih =>
      rw [parseTokens, resolveTokens]
      split
      · exact ih walk
      · rw [resolveToken]
        split
        · rw [Prog.bind_assoc]
          refine bind_congr fun next => ?_
          cases next with
          | none => rfl
          | some knode =>
              dsimp only
              rw [parseMount_eq]
              refine bind_congr fun entered => ?_
              cases entered with
              | none => rfl
              | some walk' => exact ih walk'
        · split
          · simp only [Prog.bind_assoc]
            refine bind_congr fun parent => bind_congr fun partition => ?_
            split
            · rw [Prog.bind_assoc]
              exact bind_congr fun up => ih _
            · exact ih _
          · simp only [Prog.bind_assoc]
            refine bind_congr fun refCount => bind_congr fun foundRef => ?_
            split
            · rw [if_neg fun h => h.2 hflags]
              rfl
            · exact ih _

variable {n : Nat} {s s' : VfsState} {walk walk' : PathWalk} {path : List (List UInt8)}

/-- With any flags parsing follows a walk that reaches its end. -/
theorem parseTokens_of_resolved (flags : UInt16)
    (hrun : (resolveTokens path walk).run n VfsState.handle s = some (some walk', s')) :
    (parseTokens flags path walk).run n VfsState.handle s = some (some walk', s') := by
  induction path generalizing walk s with
  | nil => exact hrun
  | cons token rest ih =>
      rw [resolveTokens] at hrun
      rw [parseTokens]
      by_cases hdot : token = dot
      · rw [if_pos hdot] at hrun ⊢
        exact ih hrun
      · rw [if_neg hdot] at hrun ⊢
        rw [Prog.run_bind_eq_some] at hrun
        obtain ⟨_ | next, s₁, htoken, hrest⟩ := hrun
        · cases hrest
        · rw [resolveToken] at htoken
          by_cases hkernel : walk.inFileSystem = false
          · rw [if_pos hkernel] at htoken ⊢
            rw [Prog.run_bind_eq_some] at htoken ⊢
            obtain ⟨knode, s₂, hknode, hmount⟩ := htoken
            refine ⟨knode, s₂, hknode, ?_⟩
            cases knode with
            | none => cases hmount
            | some knode =>
                dsimp only at hmount ⊢
                rw [parseMount_eq, Prog.run_bind_eq_some]
                exact ⟨some next, s₁, hmount, ih hrest⟩
          · rw [if_neg hkernel] at htoken ⊢
            by_cases hup : token = dotDot
            · rw [if_pos hup] at htoken ⊢
              rw [Prog.run_bind_eq_some] at htoken ⊢
              obtain ⟨parent, s₂, hparent, htoken⟩ := htoken
              refine ⟨parent, s₂, hparent, ?_⟩
              rw [Prog.run_bind_eq_some] at htoken ⊢
              obtain ⟨partition, s₃, hpartition, htoken⟩ := htoken
              refine ⟨partition, s₃, hpartition, ?_⟩
              by_cases hroot : walk.fsNode = partition.2.rootDirectory
              · rw [if_pos hroot] at htoken ⊢
                rw [Prog.run_bind_eq_some] at htoken ⊢
                obtain ⟨up, s₄, hknode, hnext⟩ := htoken
                cases hnext
                exact ⟨up, s₁, hknode, ih hrest⟩
              · rw [if_neg hroot] at htoken ⊢
                cases htoken
                exact ih hrest
            · rw [if_neg hup] at htoken ⊢
              rw [Prog.run_bind_eq_some] at htoken ⊢
              obtain ⟨refCount, s₂, hcount, htoken⟩ := htoken
              refine ⟨refCount, s₂, hcount, ?_⟩
              rw [Prog.run_bind_eq_some] at htoken ⊢
              obtain ⟨foundRef, s₃, hfound, htoken⟩ := htoken
              refine ⟨foundRef, s₃, hfound, ?_⟩
              by_cases hnone : foundRef = 0 ∨ foundRef = fsNull
              · rw [if_pos hnone] at htoken
                cases htoken
              · rw [if_neg hnone] at htoken ⊢
                cases htoken
                exact ih hrest

theorem views_resolveWalk (path : List UInt8) : Views (resolveWalk path) :=
  (views_kernel KernelM.readOnly_getRoot).bind fun _ => views_resolveTokens _ _

theorem readOnly_resolveWalk (path : List UInt8) : ReadOnly (resolveWalk path) :=
  (views_resolveWalk path).readOnly

/-- A walk outside a file system has no device. -/
def Placed (walk : PathWalk) : Prop := walk.inFileSystem = false → walk.ctx = 0

theorem resolveMount_placed {walk : PathWalk} (hwalk : Placed walk) :
    (resolveMount walk).Yields fun result => ∀ walk' ∈ result, Placed walk' := by
  have hsame : ∀ walk' ∈ some walk, Placed walk' := by
    rintro walk' ⟨⟩
    exact hwalk
  refine Prog.Yields.bind_any fun flags => ?_
  split
  · refine Prog.Yields.bind_any fun deviceAddress => Prog.Yields.bind_any fun deviceContext => ?_
    split
    · split
      · refine Prog.Yields.bind_any fun partition => ?_
        split
        · rintro walk' ⟨⟩
        · refine Prog.Yields.bind_any fun geometry => ?_
          split
          · rintro walk' ⟨⟩ hout
            cases hout
          · exact hsame
      · exact hsame
    · exact hsame
  · exact hsame

theorem resolveToken_placed {walk : PathWalk} (hwalk : Placed walk) (token : List UInt8) :
    (resolveToken walk token).Yields fun result => ∀ walk' ∈ result, Placed walk' := by
  rw [resolveToken]
  split
  next hout =>
    refine Prog.Yields.bind_any fun knode => ?_
    cases knode with
    | none => rintro walk' ⟨⟩
    | some knode => exact resolveMount_placed hwalk
  next hin =>
    split
    · refine Prog.Yields.bind_any fun parent => Prog.Yields.bind_any fun partition => ?_
      split
      · refine Prog.Yields.bind_any fun up => ?_
        rintro walk' ⟨⟩ -
        rfl
      · rintro walk' ⟨⟩ hout
        exact absurd hout hin
    · refine Prog.Yields.bind_any fun refCount => Prog.Yields.bind_any fun foundRef => ?_
      split
      · rintro walk' ⟨⟩
      · rintro walk' ⟨⟩ hout
        exact absurd hout hin

theorem resolveTokens_placed (path : List (List UInt8)) {walk : PathWalk} (hwalk : Placed walk) :
    (resolveTokens path walk).Yields fun result => ∀ walk' ∈ result, Placed walk' := by
  induction path generalizing walk with
  | nil =>
      rintro walk' ⟨⟩
      exact hwalk
  | cons token rest ih =>
      rw [resolveTokens]
      split
      · exact ih hwalk
      · refine (resolveToken_placed hwalk token).bind fun next hnext => ?_
        cases next with
        | none => rintro walk' ⟨⟩
        | some walk' => exact ih (hnext walk' rfl)

variable {path : List UInt8} {flags : UInt16}

/-- Where the walk of resolving ends is where resolving leads. -/
theorem run_resolve (hne : path ≠ []) {node : UInt32} (hnode : node ≠ 0xFFFFFFFF) :
    (resolvePathToAddress path).run n VfsState.handle s = some (node, s') ↔
      ∃ walk, (resolveWalk path).run n VfsState.handle s = some (some walk, s') ∧
        walk.node = node := by
  rw [resolvePathToAddress, if_neg hne, Prog.run_bind_eq_some]
  constructor
  · rintro ⟨_ | walk, s₁, hwalk, hresult⟩
    · cases hresult
      exact absurd rfl hnode
    · cases hresult
      exact ⟨walk, hwalk, rfl⟩
  · rintro ⟨walk, hwalk, rfl⟩
    exact ⟨some walk, s', hwalk, rfl⟩

theorem parsePath_eq (hflags : flags &&& vfsOpenCreate = 0) :
    vfsParsePath path flags = resolveWalk path :=
  bind_congr fun _ => parseTokens_eq hflags _ _

theorem parsePath_of_resolved (flags : UInt16) {walk : PathWalk}
    (hrun : (resolveWalk path).run n VfsState.handle s = some (some walk, s')) :
    (vfsParsePath path flags).run n VfsState.handle s = some (some walk, s') := by
  rw [resolveWalk, Prog.run_bind_eq_some] at hrun
  obtain ⟨root, s₁, hroot, hrest⟩ := hrun
  rw [vfsParsePath, Prog.run_bind_eq_some]
  exact ⟨root, s₁, hroot, parseTokens_of_resolved flags hrest⟩

/-- Parsing a path without creating anything, or a path that resolves, takes the walk of
resolving. -/
theorem run_parsePath (hne : path ≠ [])
    (hflags : flags &&& vfsOpenCreate = 0 ∨ ∃ node s', node ≠ 0xFFFFFFFF ∧
      (resolvePathToAddress path).run n VfsState.handle s = some (node, s')) :
    (vfsParsePath path flags).run n VfsState.handle s =
      (resolveWalk path).run n VfsState.handle s := by
  rcases hflags with hflags | ⟨node, s₁, hnode, hresolved⟩
  · rw [parsePath_eq hflags]
  · obtain ⟨walk, hwalk, -⟩ := (run_resolve hne hnode).mp hresolved
    rw [parsePath_of_resolved flags hwalk, hwalk]

end VfsM

open VfsM in
/-- Parsing a path leads to the node that the path resolves to, on the device on which the
walk of resolving ends, and changes nothing; with `VFS_OPEN_CREATE` it does so if the path
resolves. -/
theorem parse_agrees_with_resolve (n : Nat) (s : VfsState) {path : List UInt8} {flags : UInt16}
    (hne : path ≠ [])
    (hflags : flags &&& vfsOpenCreate = 0 ∨ ∃ node s', node ≠ 0xFFFFFFFF ∧
      (resolvePathToAddress path).run n VfsState.handle s = some (node, s')) :
    (∀ node s', node ≠ 0xFFFFFFFF →
      ((∃ walk, (vfsParsePath path flags).run n VfsState.handle s = some (some walk, s') ∧
          walk.node = node) ↔
        (resolvePathToAddress path).run n VfsState.handle s = some (node, s'))) ∧
    (∀ walk s', (vfsParsePath path flags).run n VfsState.handle s = some (some walk, s') →
      (resolveWalk path).run n VfsState.handle s = some (some walk, s') ∧
        (walk.inFileSystem = false → walk.ctx = 0)) ∧
    ∀ result s', (vfsParsePath path flags).run n VfsState.handle s = some (result, s') →
      s.SameNodes s' := by
  have hsame := run_parsePath hne hflags
  refine ⟨fun node s' hnode => ?_, fun walk s' hrun => ?_, fun result s' hrun => ?_⟩
  · rw [hsame]
    exact (run_resolve hne hnode).symm
  · rw [hsame] at hrun
    refine ⟨hrun, ?_⟩
    have hplaced : (resolveWalk path).Yields fun result => ∀ walk' ∈ result, Placed walk' :=
      Prog.Yields.bind_any fun root => resolveTokens_placed _ fun _ => rfl
    exact hplaced.run _ _ hrun walk rfl
  · rw [hsame] at hrun
    exact (readOnly_resolveWalk path).run hrun

open VfsM in
/-- Opened for creating, a path through a mount that leads to a file takes the walk of
resolving. -/
theorem parse_agrees_with_resolve_stocked : ∃ s s' : VfsState, VfsState.stocked = some s ∧
    (vfsParsePath stockedPath vfsOpenCreate).run 16 VfsState.handle s =
      some (some ⟨0x1000C0, 708, true, 0x5000⟩, s') ∧ s.SameNodes s' := by
  have hresolve : (VfsState.stocked.bind fun s => do
      let (node, _) ← (resolvePathToAddress stockedPath).run 16 VfsState.handle s
      let (walk, _) ← (resolveWalk stockedPath).run 16 VfsState.handle s
      return (node, walk)) = some (708, some ⟨0x1000C0, 708, true, 0x5000⟩) := by
    rw [VfsState.stocked_eq]
    decide +kernel
  simp only [Option.bind_eq_bind, Option.bind_eq_some_iff] at hresolve
  obtain ⟨s, hs, ⟨node, s'⟩, hnode, ⟨walk, s''⟩, hwalk, heq⟩ := hresolve
  cases heq
  obtain ⟨hparse, hwalks, hsame⟩ := @parse_agrees_with_resolve 16 s stockedPath vfsOpenCreate
    (by decide) (.inr ⟨708, s', by decide, hnode⟩)
  obtain ⟨walk, hrun, -⟩ := (hparse 708 s' (by decide)).mpr hnode
  obtain rfl : walk = ⟨0x1000C0, 708, true, 0x5000⟩ := Option.some.inj
    (congrArg Prod.fst (Option.some.inj ((hwalks walk s' hrun).1.symm.trans hwalk)))
  exact ⟨s, s', hs, hrun, hsame _ s' hrun⟩

end AvrKernel.Vfs

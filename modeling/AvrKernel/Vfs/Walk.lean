import AvrKernel.BaseFS.Isolation
import AvrKernel.BaseFS.ReferenceOps
import AvrKernel.Kernel.Listing
import AvrKernel.Vfs.Descriptor
import AvrKernel.Vfs.Mount
import AvrKernel.Vfs.NodeTree

/-!
# Resolving is walking

A state shows a tree of nodes, in the memory of the kernel and on its devices.
Resolving a path walks along its segments in this tree.
-/

namespace AvrKernel.Vfs

open BaseFS Kernel Effect Util

/-! ## States that show a tree -/

/-- The kernel has a folder with its entries at an address, or no node that lists anything. -/
def ShowsKnode (k : KernelState) (node : UInt32) : Option Folder → Prop
  | none => ¬k.IsKnode node
  | some f => k.Lists node (f.entries.map Prod.snd) ∧
      (∀ entry ∈ f.entries, k.name entry.2 = entry.1) ∧
      match f.parent with
      | none => isEnd (k.directory node).parent = true
      | some parent => (k.directory node).parent = parent ∧ k.IsKnode parent

/-- The store has a directory with its entries at an address, or something too small for one. -/
def ShowsNode {g : FSGeometry} (S : Store g) (node : UInt32) : Option Folder → Prop
  | none => ∃ payload, S.cells node = some payload ∧ payload.length < 48
  | some f => ∃ D, S.DirectoryAt node D ∧ D.refs = f.entries.map Prod.snd ∧
      D.header.parent = f.parent.getD fsNull ∧ ∀ entry ∈ f.entries, S.HasName entry.2 entry.1

theorem ShowsNode.ne_fsNull {g : FSGeometry} {S : Store g} {node : UInt32}
    {folder : Option Folder} (h : ShowsNode S node folder) : node ≠ fsNull := by
  cases folder with
  | none =>
      obtain ⟨payload, hcell, -⟩ := h
      exact S.ne_fsNull hcell
  | some f =>
      obtain ⟨D, hdir, -⟩ := h
      exact S.ne_fsNull hdir.cell

/-- The partition header of a device. -/
def partitionOf (d : Device) : FSPartitionBlock :=
  FSPartitionBlock.layout.decode (d.image.read 16 32)

def ShowsVolume (d : Device) (nodes : Nodes) : Prop :=
  ∃ (g : FSGeometry) (S : Store g), d.Holds S ∧ (partitionOf d).rootDirectory = nodes.root ∧
    ∀ node ∈ nodes.all, ShowsNode S node (nodes.folder node)

/-- What is mounted at a kernel node with some references. -/
def VfsState.mountedAt (s : VfsState) (node : UInt32) (refs : List UInt32) : MountPoint :=
  let ctx := refs.getD 1 kmallocNull
  if s.kernel.flags node &&& kmallocFlagMount = 0 then .nothing
  else if isEnd (refs.getD 0 kmallocNull) ∨ isEnd ctx then .nothing
  else if (partitionOf (s.devices ctx)).magic ≠ fsMagic then .foreign
  else if (s.devices ctx).ctx.geometry.isOpen then .volume ctx
  else .nothing

/-- The addresses that a node lists. -/
def Nodes.listed (nodes : Nodes) (node : UInt32) : List UInt32 :=
  (nodes.folder node).elim [] fun f => f.entries.map Prod.snd

/-- The nodes of the kernel and on the devices are those of the tree, and devices can be read. -/
structure VfsState.Shows (s : VfsState) (T : NodeTree) : Prop where
  sound : ∀ ctx, (s.devices ctx).Sound
  root : s.kernel.root = T.kernel.root
  knode : ∀ node ∈ T.kernel.all, ShowsKnode s.kernel node (T.kernel.folder node)
  mounted : ∀ node ∈ T.kernel.all, T.mounted node = s.mountedAt node (T.kernel.listed node)
  volume : ∀ node ∈ T.kernel.all, ∀ ctx, T.mounted node = .volume ctx →
    ShowsVolume (s.devices ctx) (T.volume ctx)

/-! ## Looking around -/

namespace VfsState

variable {s : VfsState}

/-- The program finds the value in all states with the nodes of this one. -/
abbrev Finds {α : Type} (s : VfsState) (p : VfsM α) (value : α) : Prop :=
  p.Finds handle s.SameNodes value

theorem finds_kernel {α : Type} {p : KernelM α} {value : α} (h : s.kernel.Finds p value) :
    s.Finds (VfsM.kernel p) value := by
  obtain ⟨enough, h⟩ := h
  refine ⟨enough, fun n hn s₁ hs₁ => ⟨s₁, ?_, hs₁⟩⟩
  obtain ⟨k, hrun, rfl⟩ := h n hn s₁.kernel hs₁.kernel
  rw [VfsM.run_kernel, hrun, ← hs₁.kernel]
  rfl

theorem finds_device {α : Type} {p : FS α} {ctx : UInt32} {value : α}
    (hsound : (s.devices ctx).Sound) (hp : FS.ReadOnly p)
    (hview : ∀ n, (s.devices ctx).view n p = some value) : s.Finds (VfsM.device ctx p) value := by
  refine ⟨0, fun n _ s₁ hs₁ => ?_⟩
  obtain ⟨hcoherent, hlogical⟩ := hs₁.devices ctx hsound.coherent
  have hsound₁ := hsound.of_logical hcoherent (m := (s.devices ctx).image) hlogical
  have hfound := hsound₁.run_view hp n
  rw [Device.view_of_logical hlogical, hview] at hfound
  obtain ⟨⟨value', d'⟩, hrun, rfl⟩ := Option.map_eq_some_iff.mp hfound.symm
  have hrun' : (VfsM.device ctx p).run n handle s₁ = some (value', s₁.setDevice ctx d') := by
    rw [VfsM.run_device, hrun]
    rfl
  exact ⟨_, hrun', hs₁.trans ((VfsM.readOnly_device hp).run hrun')⟩

section Holds

variable {ctx node : UInt32} {g : FSGeometry} {S : Store g} (hd : (s.devices ctx).Holds S)

include hd

/-- What a reading program ensures that it finds, it finds. -/
theorem finds_of_ensures {α : Type} {p : BaseFS.FS α} {value : α} (hp : FS.ReadOnly p)
    (h : ∀ n, (world g n (fun _ _ => True) fun _ _ => True).Ensures p S
      fun found _ => found = value) : s.Finds (VfsM.device ctx p) value :=
  finds_device hd.sound hp fun n => hd.view_of_ensures hp (h n)

theorem finds_getParent {folder : Option Folder} (hnode : ShowsNode S node folder) :
    s.Finds (VfsM.device ctx (FS.fsDirectoryGetParent node))
      ((folder.bind Folder.parent).getD fsNull) := by
  refine finds_of_ensures hd (FS.readOnly_getParent node) fun n => Refine.ensures_bind ?_
  cases folder with
  | none =>
      obtain ⟨payload, hcell, hsmall⟩ := hnode
      exact FS.ensures_headerRead_small hcell hsmall (Refine.ensures_ret rfl)
  | some f =>
      obtain ⟨D, hdir, -, hparent, -⟩ := hnode
      exact FS.ensures_headerRead hdir.cell (Refine.ensures_ret hparent)

theorem finds_referenceCount {folder : Option Folder} (hnode : ShowsNode S node folder) :
    s.Finds (VfsM.device ctx (FS.fsDirectoryGetReferenceCount node))
      (.ofNat (folder.elim [] Folder.entries).length) := by
  refine finds_of_ensures hd (FS.readOnly_getReferenceCount node) fun n => ?_
  cases folder with
  | none =>
      obtain ⟨payload, hcell, hsmall⟩ := hnode
      exact Refine.ensures_bind (FS.ensures_headerRead_small hcell hsmall (Refine.ensures_ret rfl))
  | some f =>
      obtain ⟨D, hdir, hrefs, -, -⟩ := hnode
      refine FS.ensures_getReferenceCount hdir ?_
      rw [hrefs, List.length_map]
      rfl

/-- The search for a name goes through the entries in order. -/
theorem finds_findReference {D : Directory} (hdir : S.DirectoryAt node D)
    (done : List (List UInt8 × UInt32)) {rest : List (List UInt8 × UInt32)}
    (hrefs : D.refs = (done ++ rest).map Prod.snd)
    (hnames : ∀ entry ∈ rest, S.HasName entry.2 entry.1) (name : List UInt8) :
    s.Finds (VfsM.findReference ctx node name rest.length (.ofNat done.length))
      (((rest.find? fun entry => entry.1 = name).map Prod.snd).getD 0) := by
  induction rest generalizing done with
  | nil => exact .ret 0
  | cons entry rest ih =>
      have hlt := hdir.refs_length_lt
      rw [hrefs, List.length_map, List.length_append] at hlt
      have hname := hnames entry List.mem_cons_self
      have hne : entry.2 ≠ fsNull := by
        obtain ⟨block, tail, hcell, -⟩ := hname
        exact S.ne_fsNull hcell
      have hat : D.refs.getD (UInt32.ofNat done.length).toNat fsNull = entry.2 := by
        rw [hrefs, UInt32.toNat_ofNat', Nat.mod_eq_of_lt (by omega)]
        simp
      have hget : s.Finds (VfsM.device ctx (FS.fsDirectoryGetReference node (.ofNat done.length)))
          entry.2 :=
        finds_of_ensures hd (FS.readOnly_getReference _ _) fun n =>
          FS.ensures_getReference hdir hat
      rw [List.length_cons, VfsM.findReference]
      refine hget.bind ?_
      rw [if_neg hne]
      refine (finds_of_ensures hd (FS.readOnly_getName _) fun n =>
        FS.ensures_getName hname rfl).bind ?_
      by_cases hfound : entry.1 = name
      · rw [Option.getD_some, if_pos hfound, List.find?_cons_of_pos (by simpa using hfound)]
        exact .ret _
      · rw [Option.getD_some, if_neg hfound, List.find?_cons_of_neg (by simpa using hfound)]
        have hrest := ih (done ++ [entry]) (by rw [hrefs, List.append_assoc]; rfl)
          fun e he => hnames e (List.mem_cons_of_mem _ he)
        rw [List.length_append, UInt32.ofNat_add] at hrest
        exact hrest

end Holds

namespace Shows

variable {T : NodeTree} {node : UInt32} (hs : s.Shows T)

include hs

/-- The references that a node finds are those that it lists in the tree. -/
theorem finds_reference (hnode : node ∈ T.kernel.all) (index : UInt32) :
    s.Finds (VfsM.kernel (KernelM.knodeGetReference node index))
      ((T.kernel.listed node).getD index.toNat kmallocNull) := by
  have hshows := hs.knode node hnode
  rw [Nodes.listed]
  cases hfolder : T.kernel.folder node with
  | none =>
      rw [hfolder] at hshows
      exact finds_kernel ((KernelState.finds_of_not_knode hshows).2.2 index)
  | some f =>
      rw [hfolder] at hshows
      exact finds_kernel (hshows.1.finds_getReference index)

theorem finds_parent (hnode : node ∈ T.kernel.all) :
    s.Finds (VfsM.kernel (KernelM.knodeGetParent node))
      ((T.kernel.folder node).elim kmallocNull fun f => f.parent.getD node) := by
  have hshows := hs.knode node hnode
  cases hfolder : T.kernel.folder node with
  | none =>
      rw [hfolder] at hshows
      exact finds_kernel (KernelState.finds_of_not_knode hshows).1
  | some f =>
      rw [hfolder] at hshows
      exact finds_kernel (KernelState.finds_getParent hshows.1.knode hshows.2.2)

theorem finds_child (hnode : node ∈ T.kernel.all) {segment : List UInt8} (hne : segment ≠ [])
    (hup : segment ≠ dotDot) :
    s.Finds (VfsM.nextKnode node segment)
      ((T.kernel.folder node).bind fun f => f.child segment) := by
  have hshows := hs.knode node hnode
  rw [VfsM.nextKnode, if_neg hup]
  cases hfolder : T.kernel.folder node with
  | none =>
      rw [hfolder] at hshows
      refine (finds_kernel ((KernelState.finds_of_not_knode hshows).2.1 segment)).bind ?_
      rw [if_pos (.inl rfl)]
      exact .ret _
  | some f =>
      rw [hfolder] at hshows
      obtain ⟨hlists, hnames, -⟩ := hshows
      have hfind := hlists.finds_findByName hne
      rw [f.find_child hnames] at hfind
      refine (finds_kernel hfind).bind ?_
      rw [Option.bind_some]
      cases hchild : f.child segment with
      | none =>
          rw [Option.getD_none, if_pos (.inl rfl)]
          exact .ret _
      | some child =>
          obtain ⟨entry, hentry, rfl⟩ := Option.map_eq_some_iff.mp hchild
          have hvalid := hlists.valid entry.2
            (List.mem_map_of_mem (List.mem_of_find?_eq_some hentry))
          rw [isEnd, decide_eq_false_iff_not, not_or] at hvalid
          rw [Option.getD_some, if_neg fun h => h.elim hvalid.2 hvalid.1]
          exact .ret _

theorem finds_partition (ctx : UInt32) :
    s.Finds (VfsM.device ctx FS.fsDeviceGetPartition)
      (if (partitionOf (s.devices ctx)).magic ≠ fsMagic then 1 else 0,
        partitionOf (s.devices ctx)) :=
  finds_device (hs.sound ctx) FS.readOnly_getPartition fun _ => rfl

/-- Reaching a kernel node enters the volume that is mounted there. -/
theorem finds_resolveMount (hnode : node ∈ T.kernel.all) :
    s.Finds (VfsM.resolveMount (.start node)) ((T.enter node).map Place.walk) := by
  have hmounted := hs.mounted node hnode
  rw [mountedAt] at hmounted
  refine (finds_kernel (KernelState.finds_getFlags node)).bind ?_
  rw [NodeTree.enter]
  by_cases hmount : s.kernel.flags node &&& kmallocFlagMount = 0
  · rw [if_pos hmount] at hmounted
    rw [hmounted, if_neg (not_not.mpr hmount)]
    exact .ret _
  rw [if_neg hmount] at hmounted
  rw [if_pos hmount]
  refine (hs.finds_reference hnode 0).bind ((hs.finds_reference hnode 1).bind ?_)
  rw [show (0 : UInt32).toNat = 0 from rfl, show (1 : UInt32).toNat = 1 from rfl]
  generalize (T.kernel.listed node).getD 0 kmallocNull = address at hmounted ⊢
  generalize (T.kernel.listed node).getD 1 kmallocNull = ctx at hmounted ⊢
  simp only [isEnd_eq_true] at hmounted
  by_cases hctx : ctx ≠ kmallocNull ∧ ctx ≠ 0
  · rw [if_pos hctx]
    by_cases haddress : address ≠ kmallocNull ∧ address ≠ 0
    · rw [if_neg (not_or.mpr ⟨not_not.mpr haddress, not_not.mpr hctx⟩)] at hmounted
      rw [if_pos haddress]
      refine (hs.finds_partition ctx).bind ?_
      by_cases hmagic : (partitionOf (s.devices ctx)).magic ≠ fsMagic
      · rw [if_pos hmagic] at hmounted ⊢
        rw [hmounted]
        exact .ret _
      · rw [if_neg hmagic] at hmounted ⊢
        refine (finds_device (hs.sound ctx) FS.readOnly_context fun _ => rfl).bind ?_
        by_cases hopen : (s.devices ctx).ctx.geometry.isOpen = true
        · rw [if_pos hopen] at hmounted ⊢
          obtain ⟨g, S, -, hroot, -⟩ := hs.volume node hnode ctx hmounted
          rw [hmounted]
          dsimp only
          rw [← hroot]
          exact .ret _
        · rw [if_neg hopen] at hmounted ⊢
          rw [hmounted]
          exact .ret _
    · rw [if_pos (.inl haddress)] at hmounted
      rw [hmounted, if_neg haddress]
      exact .ret _
  · rw [if_pos (.inr hctx)] at hmounted
    rw [hmounted, if_neg hctx]
    exact .ret _

end Shows

/-! ## Following segments -/

/-- A walk that has left the tree, and does not find back. -/
def Lost (s : VfsState) (walk : PathWalk) : Prop :=
  walk = .start kmallocNull ∨
    walk.inFileSystem = true ∧ walk.fsNode = fsNull ∧
      (partitionOf (s.devices walk.ctx)).rootDirectory ≠ fsNull

/-- The walk is at the place, or there is none. -/
def Agrees (s : VfsState) (place : Option Place) (walk : Option PathWalk) : Prop :=
  match place with
  | some place => walk = some place.walk
  | none => ∀ walk' ∈ walk, Lost s walk'

theorem Lost.node {walk : PathWalk} (h : Lost s walk) : walk.node = 0xFFFFFFFF := by
  rcases h with rfl | ⟨hin, hnode, -⟩
  · rfl
  · rw [PathWalk.node, if_pos hin]
    exact hnode

theorem Agrees.of_enter {place : Option Place} : Agrees s place (place.map Place.walk) := by
  cases place with
  | none => rintro walk ⟨⟩
  | some place => rfl

end VfsState

namespace VfsM

/-! The three kinds of steps of `resolveToken`. -/

variable {walk : PathWalk} {token : List UInt8}

theorem resolveToken_start (node : UInt32) (token : List UInt8) :
    resolveToken (.start node) token = nextKnode node token >>= fun
      | none => return none
      | some knode => resolveMount (.start knode) := rfl

theorem resolveToken_up (hin : walk.inFileSystem = true) :
    resolveToken walk dotDot = (do
      let parent ← device walk.ctx (FS.fsDirectoryGetParent walk.fsNode)
      let partition ← device walk.ctx FS.fsDeviceGetPartition
      if walk.fsNode = partition.2.rootDirectory then do
        let up ← kernel (KernelM.knodeGetParent walk.knode)
        return some (PathWalk.start up)
      else return some { walk with fsNode := parent }) := by
  rw [resolveToken, if_neg (by simp [hin]), if_pos rfl]

theorem resolveToken_down (hin : walk.inFileSystem = true) (hup : token ≠ dotDot) :
    resolveToken walk token = (do
      let refCount ← device walk.ctx (FS.fsDirectoryGetReferenceCount walk.fsNode)
      let foundRef ← findReference walk.ctx walk.fsNode token refCount.toNat 0
      if foundRef = 0 ∨ foundRef = fsNull then return none
      else return some { walk with fsNode := foundRef }) := by
  rw [resolveToken, if_neg (by simp [hin]), if_neg hup]

end VfsM

namespace VfsState

variable {s : VfsState}

namespace Shows

variable {T : NodeTree} {segment : List UInt8} (hs : s.Shows T)

include hs

omit hs in
/-- Null is no node of the kernel, and nothing is mounted there. -/
theorem finds_lost_mount :
    s.Finds (VfsM.resolveMount (.start kmallocNull)) (some (.start kmallocNull)) := by
  refine (finds_kernel (KernelState.finds_getFlags kmallocNull)).bind ?_
  rw [if_neg]
  · exact .ret _
  · rw [not_not, KernelState.flags_null]
    rfl

/-- A walk that has left the tree stays lost. -/
theorem finds_lost {walk : PathWalk} (hlost : Lost s walk) (segment : List UInt8) :
    ∃ next, s.Finds (VfsM.resolveToken walk segment) next ∧ ∀ walk' ∈ next, Lost s walk' := by
  rcases hlost with rfl | ⟨hin, hnode, hroot⟩
  · have hnull := KernelState.finds_of_not_knode (KernelState.not_isKnode_null (k := s.kernel))
    rw [VfsM.resolveToken_start, VfsM.nextKnode]
    by_cases hup : segment = dotDot
    · rw [if_pos hup]
      have hnext := (finds_kernel hnull.1).map some
      refine ⟨some (.start kmallocNull), hnext.bind finds_lost_mount, ?_⟩
      rintro walk' ⟨⟩
      exact .inl rfl
    · rw [if_neg hup]
      have hnext := (finds_kernel (hnull.2.1 segment)).map
        fun node => if node = knodeNull ∨ node = 0 then none else some node
      rw [if_pos (.inl rfl)] at hnext
      refine ⟨none, hnext.bind (.ret none), ?_⟩
      rintro walk' ⟨⟩
  · by_cases hup : segment = dotDot
    · have hparent : s.Finds (VfsM.device walk.ctx (FS.fsDirectoryGetParent fsNull)) fsNull := by
        refine finds_device (hs.sound walk.ctx) (FS.readOnly_getParent _) fun _ => ?_
        rw [FS.fsDirectoryGetParent, FS.headerRead_null]
        rfl
      rw [hup, VfsM.resolveToken_up hin, hnode]
      refine ⟨some { walk with fsNode := fsNull },
        hparent.bind ((hs.finds_partition walk.ctx).bind ?_), ?_⟩
      · rw [if_neg hroot.symm]
        exact .ret _
      · rintro walk' ⟨⟩
        exact .inr ⟨hin, rfl, hroot⟩
    · have hcount : s.Finds (VfsM.device walk.ctx (FS.fsDirectoryGetReferenceCount fsNull)) 0 := by
        refine finds_device (hs.sound walk.ctx) (FS.readOnly_getReferenceCount _) fun _ => ?_
        rw [FS.fsDirectoryGetReferenceCount, FS.headerRead_null]
        rfl
      rw [VfsM.resolveToken_down hin hup, hnode]
      refine ⟨none, hcount.bind ?_, ?_⟩
      · exact .ret _
      · rintro walk' ⟨⟩

theorem folder_of_volume {mount ctx : UInt32} (hmount : mount ∈ T.kernel.all)
    (hmounted : T.mounted mount = .volume ctx) : ∃ f, T.kernel.folder mount = some f := by
  have hat := hs.mounted mount hmount
  rw [hmounted, mountedAt, Nodes.listed] at hat
  cases hfolder : T.kernel.folder mount with
  | none =>
      rw [hfolder] at hat
      split at hat
      · cases hat
      · rw [if_pos (.inl rfl)] at hat
        cases hat
  | some f => exact ⟨f, rfl⟩

theorem finds_up {mount ctx node : UInt32} (hplace : T.Contains (.inside mount ctx node)) :
    ∃ next, s.Finds (VfsM.resolveToken ⟨mount, node, true, ctx⟩ dotDot) next ∧
      Agrees s (if node = (T.volume ctx).root then
          (T.kernel.folder mount).map fun f => .knode (f.parent.getD mount)
        else ((T.volume ctx).folder node).bind fun f => f.parent.map (.inside mount ctx)) next := by
  obtain ⟨hmount, hmounted, hnode⟩ := hplace
  obtain ⟨g, S, hd, hroot, hnodes⟩ := hs.volume mount hmount ctx hmounted
  have hparent := finds_getParent hd (hnodes node hnode)
  have hpartition := hs.finds_partition ctx
  rw [VfsM.resolveToken_up rfl]
  by_cases htop : node = (T.volume ctx).root
  · obtain ⟨f, hfolder⟩ := hs.folder_of_volume hmount hmounted
    have hmountParent := hs.finds_parent hmount
    rw [hfolder] at hmountParent
    refine ⟨some (.start (f.parent.getD mount)), hparent.bind (hpartition.bind ?_), ?_⟩
    · dsimp only
      rw [hroot, if_pos htop]
      exact hmountParent.map fun up => some (PathWalk.start up)
    · rw [if_pos htop, hfolder]
      rfl
  · refine ⟨some ⟨mount, (((T.volume ctx).folder node).bind Folder.parent).getD fsNull, true, ctx⟩,
      hparent.bind (hpartition.bind ?_), ?_⟩
    · dsimp only
      rw [hroot, if_neg htop]
      exact .ret _
    · rw [if_neg htop]
      have hnull : (partitionOf (s.devices ctx)).rootDirectory ≠ fsNull := by
        rw [hroot]
        exact (hnodes _ (T.volume ctx).root_mem).ne_fsNull
      have hlost : Lost s ⟨mount, fsNull, true, ctx⟩ := .inr ⟨rfl, rfl, hnull⟩
      cases hfolder : (T.volume ctx).folder node with
      | none =>
          rintro walk ⟨⟩
          exact hlost
      | some f =>
          rw [Option.bind_some, Option.bind_some]
          cases f.parent with
          | none =>
              rintro walk ⟨⟩
              exact hlost
          | some parent => rfl

theorem finds_down {mount ctx node : UInt32} (hplace : T.Contains (.inside mount ctx node))
    (hup : segment ≠ dotDot) :
    ∃ next, s.Finds (VfsM.resolveToken ⟨mount, node, true, ctx⟩ segment) next ∧
      Agrees s (((T.volume ctx).folder node).bind fun f =>
        (f.child segment).map (.inside mount ctx)) next := by
  obtain ⟨hmount, hmounted, hnode⟩ := hplace
  obtain ⟨g, S, hd, -, hnodes⟩ := hs.volume mount hmount ctx hmounted
  have hshows := hnodes node hnode
  have hcount := finds_referenceCount hd hshows
  rw [VfsM.resolveToken_down rfl hup]
  cases hfolder : (T.volume ctx).folder node with
  | none =>
      rw [hfolder] at hcount
      refine ⟨none, hcount.bind (.ret _), ?_⟩
      rintro walk ⟨⟩
  | some f =>
      rw [hfolder] at hcount hshows
      obtain ⟨D, hdir, hrefs, -, hnames⟩ := hshows
      have hlt := hdir.refs_length_lt
      have hfind := finds_findReference hd hdir [] hrefs hnames segment
      rw [hrefs, List.length_map] at hlt
      change s.Finds (VfsM.findReference ctx node segment f.entries.length 0)
        ((f.child segment).getD 0) at hfind
      rw [← Nat.mod_eq_of_lt hlt, ← UInt32.toNat_ofNat'] at hfind
      rw [Option.bind_some]
      cases hchild : f.child segment with
      | none =>
          rw [hchild] at hfind
          refine ⟨none, hcount.bind (hfind.bind ?_), ?_⟩
          · rw [if_pos (.inl rfl)]
            exact .ret _
          · rintro walk ⟨⟩
      | some child =>
          rw [hchild] at hfind
          obtain ⟨entry, hentry, rfl⟩ := Option.map_eq_some_iff.mp hchild
          obtain ⟨block, rest, hcell, -⟩ := hnames entry (List.mem_of_find?_eq_some hentry)
          refine ⟨_, hcount.bind (hfind.bind ?_), rfl⟩
          rw [if_neg]
          · exact .ret _
          · rintro (hzero | hnull)
            · have hfour := S.four_le hcell
              rw [Option.getD_some] at hzero
              rw [hzero] at hfour
              exact absurd hfour (by decide)
            · exact S.ne_fsNull hcell hnull

/-- Following a segment is a step in the tree. -/
theorem finds_step {place : Place} (hplace : T.Contains place) (hne : segment ≠ []) :
    ∃ next, s.Finds (VfsM.resolveToken place.walk segment) next ∧
      Agrees s (T.step place segment) next := by
  cases place with
  | knode node =>
      rw [NodeTree.step, Place.walk, VfsM.resolveToken_start]
      by_cases hup : segment = dotDot
      · rw [if_pos hup, VfsM.nextKnode, if_pos hup]
        have hnext := (hs.finds_parent hplace).map some
        cases hfolder : T.kernel.folder node with
        | none =>
            rw [hfolder] at hnext
            refine ⟨some (.start kmallocNull), hnext.bind finds_lost_mount, ?_⟩
            rintro walk ⟨⟩
            exact .inl rfl
        | some f =>
            rw [hfolder] at hnext
            have henter := hs.finds_resolveMount (NodeTree.parent_mem hplace hfolder)
            exact ⟨_, hnext.bind henter, .of_enter⟩
      · rw [if_neg hup]
        have hchild := hs.finds_child hplace hne hup
        cases hfolder : T.kernel.folder node with
        | none =>
            rw [hfolder] at hchild
            refine ⟨none, hchild.bind (.ret _), ?_⟩
            rintro walk ⟨⟩
        | some f =>
            rw [hfolder, Option.bind_some] at hchild
            rw [Option.bind_some]
            cases hnext : f.child segment with
            | none =>
                rw [hnext] at hchild
                refine ⟨none, hchild.bind (.ret _), ?_⟩
                rintro walk ⟨⟩
            | some child =>
                rw [hnext] at hchild
                have henter := hs.finds_resolveMount (T.kernel.child_mem hplace hfolder hnext)
                exact ⟨_, hchild.bind henter, .of_enter⟩
  | inside mount ctx node =>
      rw [NodeTree.step]
      by_cases hup : segment = dotDot
      · rw [if_pos hup, hup]
        exact hs.finds_up hplace
      · rw [if_neg hup]
        exact hs.finds_down hplace hup

theorem finds_lost_tokens {walk : PathWalk} (hlost : Lost s walk) (path : List (List UInt8)) :
    ∃ last, s.Finds (VfsM.resolveTokens path walk) last ∧ ∀ walk' ∈ last, Lost s walk' := by
  induction path generalizing walk with
  | nil =>
      refine ⟨some walk, .ret _, ?_⟩
      rintro walk' ⟨⟩
      exact hlost
  | cons token rest ih =>
      rw [VfsM.resolveTokens]
      by_cases hdot : token = dot
      · rw [if_pos hdot]
        exact ih hlost
      · rw [if_neg hdot]
        obtain ⟨_ | next, htoken, hnext⟩ := hs.finds_lost hlost token
        · refine ⟨none, htoken.bind (.ret _), ?_⟩
          rintro walk' ⟨⟩
        · obtain ⟨last, hlast, hlost'⟩ := ih (hnext next rfl)
          exact ⟨last, htoken.bind hlast, hlost'⟩

/-- Following tokens is the walk in the tree. -/
theorem finds_tokens {place : Place} (hplace : T.Contains place) {path : List (List UInt8)}
    (hpath : ∀ token ∈ path, token ≠ []) :
    ∃ last, s.Finds (VfsM.resolveTokens path place.walk) last ∧
      Agrees s (T.walk path place) last := by
  induction path generalizing place with
  | nil => exact ⟨some place.walk, .ret _, rfl⟩
  | cons token rest ih =>
      have hrest : ∀ token' ∈ rest, token' ≠ [] := fun token' h =>
        hpath token' (List.mem_cons_of_mem _ h)
      rw [VfsM.resolveTokens, NodeTree.walk]
      by_cases hdot : token = dot
      · rw [if_pos hdot, if_pos hdot]
        exact ih hplace hrest
      · rw [if_neg hdot, if_neg hdot]
        obtain ⟨next, htoken, hagrees⟩ := hs.finds_step hplace (hpath token List.mem_cons_self)
        cases hstep : T.step place token with
        | none =>
            rw [hstep] at hagrees
            cases next with
            | none =>
                refine ⟨none, htoken.bind (.ret _), ?_⟩
                rintro walk' ⟨⟩
            | some next =>
                obtain ⟨last, hlast, hlost⟩ := hs.finds_lost_tokens (hagrees next rfl) rest
                exact ⟨last, htoken.bind hlast, hlost⟩
        | some place' =>
            rw [hstep] at hagrees
            cases hagrees
            obtain ⟨last, hlast, hagrees'⟩ := ih (NodeTree.contains_step hplace hstep) hrest
            exact ⟨last, htoken.bind hlast, hagrees'⟩

/-- The walk of the resolver takes the segments of the first 255 characters. -/
theorem finds_resolveWalk (path : List UInt8) :
    ∃ last, s.Finds (VfsM.resolveWalk path) last ∧ Agrees s (T.resolve (path.take 255)) last := by
  have hroot : s.Finds (VfsM.kernel KernelM.knodeGetRoot) T.kernel.root :=
    finds_kernel (.of_run fun _ => by rw [← hs.root]; rfl)
  have hpath : ∀ token ∈ pathTokens path, token ≠ [] := by
    intro token htoken
    rw [pathTokens, tokens_eq, segments] at htoken
    simpa using (List.mem_filter.mp htoken).2
  obtain ⟨last, hlast, hagrees⟩ := hs.finds_tokens T.contains_root hpath
  refine ⟨last, hroot.bind hlast, ?_⟩
  rwa [NodeTree.resolve, ← tokens_eq]

theorem finds_resolve {path : List UInt8} (hne : path ≠ []) :
    s.Finds (VfsM.resolvePathToAddress path) (NodeTree.address (T.resolve (path.take 255))) := by
  obtain ⟨last, hlast, hagrees⟩ := hs.finds_resolveWalk path
  rw [VfsM.resolvePathToAddress, if_neg hne]
  refine hlast.bind ?_
  cases hplace : T.resolve (path.take 255) with
  | none =>
      rw [hplace] at hagrees
      cases last with
      | none => exact .ret _
      | some walk =>
          have hnode := (hagrees walk rfl).node
          rw [NodeTree.address, Option.map_none, Option.getD_none, ← hnode]
          exact .ret _
  | some place =>
      rw [hplace] at hagrees
      cases hagrees
      rw [NodeTree.address, Option.map_some, Option.getD_some, ← place.node_walk]
      exact .ret _

end Shows

end VfsState

/-- Resolving a path leads to the node at the end of the walk along its segments, or to none if
one of them cannot be followed. Only a path whose first 255 characters have its segments is
walked as a whole, and the empty path leads nowhere. -/
theorem resolve_is_walk {s : VfsState} {T : NodeTree} (hs : s.Shows T) {path : List UInt8}
    (hcut : (segments [slash] (path.take 255)).filter (· ≠ dot) =
      (segments [slash] path).filter (· ≠ dot)) :
    ∃ enough, ∀ n ≥ enough, ∃ s',
      (VfsM.resolvePathToAddress path).run n VfsState.handle s =
        some (if path = [] then 0xFFFFFFFF else NodeTree.address (T.resolve path), s') ∧
      s.SameNodes s' := by
  by_cases hne : path = []
  · refine ⟨0, fun n _ => ⟨s, ?_, .refl s⟩⟩
    rw [if_pos hne, VfsM.resolvePathToAddress, if_pos hne]
    rfl
  · obtain ⟨enough, hfinds⟩ := hs.finds_resolve hne
    have hresolve : T.resolve (path.take 255) = T.resolve path := by
      rw [NodeTree.resolve, NodeTree.resolve, NodeTree.walk_eq, hcut, ← NodeTree.walk_eq]
    rw [hresolve] at hfinds
    rw [if_neg hne]
    exact ⟨enough, fun n hn => hfinds n hn s (.refl s)⟩

/-! ## A small tree -/

/-- The nodes of `smallKernel`, and what its mount refers to. -/
def smallNodes : List (UInt32 × Option Folder) :=
  [(0x100020, some ⟨none, [([0x6D, 0x6E, 0x74], 0x100070), ([0x66], 0x100110)]⟩),
    (0x100070, some ⟨some 0x100020, [([0x61, 0x74, 0x61, 0x30], 0x1000C0)]⟩),
    (0x1000C0, some ⟨some 0x100070, [([], 0x4000), ([], 0x5000)]⟩),
    (0x100110, none), (0x4000, none), (0x5000, none)]

/-- The tree of `smallKernel` with something that is no file system on its device. -/
def smallTree : NodeTree where
  kernel := .ofList smallNodes 0x100020 List.mem_cons_self (by decide) (by decide)
  mounted := fun node => if node = 0x1000C0 then .foreign else .nothing
  volume := fun _ => ⟨0, {0}, fun _ => none, rfl, nofun, nofun⟩

theorem smallTree_mounted (node : UInt32) :
    smallTree.mounted node = if node = 0x1000C0 then .foreign else .nothing := rfl

/-- A node with up to six references lists them in itself. -/
theorem lists_of_directory {k : KernelState} {node : UInt32} {refs : List UInt32}
    (hknode : k.IsKnode node)
    (hdirectory : (k.directory node).size = .ofNat refs.length ∧ refs.length ≤ 6 ∧
      isEnd (k.directory node).next = true ∧
      (k.directory node).reference.toList.take refs.length = refs ∧
      refs.all (fun reference => !isEnd reference) = true) : k.Lists node refs := by
  obtain ⟨hsize, hle, hend, hrefs, hall⟩ := hdirectory
  have hvalid : ∀ reference ∈ refs, isEnd reference = false := fun reference hreference =>
    Bool.not_eq_true' .. ▸ List.all_eq_true.mp hall reference hreference
  have hcount : (k.directory node).size.toNat = refs.length := by
    rw [hsize, UInt32.toNat_ofNat', Nat.mod_eq_of_lt (by omega)]
  refine ⟨hknode, hcount.le.trans hle, ⟨[], .nil hend, ?_⟩, hvalid, by omega⟩
  rw [hcount, List.append_nil, hrefs]

/-- What the memory of a small kernel has at its nodes, by looking at each of them. -/
theorem shows_of_nodes {k : KernelState} {nodes : List (UInt32 × Option Folder)}
    (hleaf : ∀ node ∈ nodes, node.2 = none → ¬k.IsKnode node.1)
    (hknode : ∀ node ∈ nodes, node.2 ≠ none → k.IsKnode node.1)
    (hdirectory : ∀ node ∈ nodes, ∀ f ∈ node.2,
      (k.directory node.1).size = .ofNat (f.entries.map Prod.snd).length ∧
        (f.entries.map Prod.snd).length ≤ 6 ∧ isEnd (k.directory node.1).next = true ∧
        (k.directory node.1).reference.toList.take (f.entries.map Prod.snd).length =
          f.entries.map Prod.snd ∧
        (f.entries.map Prod.snd).all (fun reference => !isEnd reference) = true)
    (hnames : ∀ node ∈ nodes, ∀ f ∈ node.2, ∀ entry ∈ f.entries, k.name entry.2 = entry.1)
    (hparent : ∀ node ∈ nodes, ∀ f ∈ node.2,
      (f.parent = none → isEnd (k.directory node.1).parent = true) ∧
        f.parent.all (fun parent => decide ((k.directory node.1).parent = parent ∧
          k.IsKnode parent)) = true) :
    ∀ node ∈ nodes, ShowsKnode k node.1 node.2 := by
  rintro ⟨node, folder⟩ hnode
  cases folder with
  | none => exact hleaf _ hnode rfl
  | some f =>
      have hlists := lists_of_directory (hknode _ hnode (Option.some_ne_none f))
        (hdirectory _ hnode f rfl)
      refine ⟨hlists, hnames _ hnode f rfl, ?_⟩
      obtain ⟨hroot, hup⟩ := hparent _ hnode f rfl
      cases h : f.parent with
      | none => exact hroot h
      | some parent => exact of_decide_eq_true ((Option.all_eq_true ..).mp hup parent h)

theorem smallKernel_shows : ∀ node ∈ smallNodes, ShowsKnode smallKernel node.1 node.2 := by
  rw [smallKernel_eq]
  apply shows_of_nodes
  · decide +kernel
  · decide +kernel
  · decide +kernel
  · decide +kernel
  · decide +kernel

/-- What is mounted at the nodes of the small kernel, on a device that is the same at all
addresses. -/
theorem mountedAt_small {s : VfsState} {d : Device} (hkernel : s.kernel = smallKernel)
    (hdevice : s.devices 0x5000 = d) {shown : UInt32 × Option Folder}
    (hshown : shown ∈ smallNodes) :
    s.mountedAt shown.1 (smallTree.kernel.listed shown.1) =
      if shown.1 = 0x1000C0 then
        if (partitionOf d).magic ≠ fsMagic then .foreign
        else if d.ctx.geometry.isOpen then .volume 0x5000 else .nothing
      else .nothing := by
  have hnothing : ∀ node ∈ smallNodes, node.1 ≠ 0x1000C0 →
      smallKernel.flags node.1 &&& kmallocFlagMount = 0 := by
    rw [smallKernel_eq]
    decide +kernel
  have hmount : smallKernel.flags 0x1000C0 &&& kmallocFlagMount ≠ 0 := by
    rw [smallKernel_eq]
    decide +kernel
  rw [VfsState.mountedAt, hkernel]
  by_cases hata : shown.1 = 0x1000C0
  · have hlisted : smallTree.kernel.listed 0x1000C0 = [0x4000, 0x5000] := by decide
    rw [if_pos hata, hata, hlisted, if_neg hmount, if_neg (by decide), List.getD_cons_succ,
      List.getD_cons_zero, hdevice]
  · rw [if_neg hata, if_pos (hnothing shown hshown hata)]

theorem smallNodes_lookup : ∀ node ∈ smallNodes,
    (node.1, (smallNodes.lookup node.1).join) ∈ smallNodes := by
  decide

theorem VfsState.small_shows : VfsState.small.Shows smallTree := by
  have hmagic : (partitionOf (zeroDevice.blank .ata)).magic ≠ fsMagic := by
    rw [partitionOf, (Device.Sound.of_blank zeroDevice_io).2]
    decide
  refine ⟨fun _ => (Device.Sound.of_blank zeroDevice_io).1, rfl, ?_, ?_, ?_⟩
  · intro node hnode
    obtain ⟨shown, hshown, rfl⟩ := List.mem_map.mp hnode
    exact smallKernel_shows _ (smallNodes_lookup shown hshown)
  · intro node hnode
    obtain ⟨shown, hshown, rfl⟩ := List.mem_map.mp hnode
    rw [mountedAt_small rfl rfl hshown, smallTree_mounted, small, if_pos hmagic]
  · intro node _ ctx hmounted
    rw [smallTree_mounted] at hmounted
    split at hmounted <;> cases hmounted

/-! ## A tree with a volume -/

def stockedDirectory (name : List UInt8) (parent : UInt32) (refs : List UInt32) : Directory where
  header :=
    { block := FS.newBlock name fsAttributeDirectory (fsPermissionRead ||| fsPermissionWrite)
      parent
      extent := ⟨fsNull, fsNull⟩
      referenceCount := .ofNat refs.length }
  slots := ⟨refs, List.replicate (96 - 4 * refs.length) 0⟩
  extents := []

def stockedFile (name : List UInt8) (size first : UInt32) : FSFileHeader where
  block := FS.newBlock name 0 (fsPermissionRead ||| fsPermissionWrite)
  totalLogicalSize := size
  extent := ⟨first, fsNull⟩

def stockedExtents : List Extent :=
  [⟨516, 452, List.replicate 112 0, []⟩, ⟨644, 516, List.replicate 16 0, []⟩]

/-- A store with the directories and files of the volume. -/
structure Stocked {g : FSGeometry} (S : Store g) : Prop where
  root : S.DirectoryAt 68 (stockedDirectory [0x72, 0x6F, 0x6F, 0x74] fsNull [260, 452])
  d : S.DirectoryAt 260 (stockedDirectory [0x64] 68 [708])
  fCell : S.cells 452 = some (FSFileHeader.layout.encode (stockedFile [0x66] 128 516))
  f : S.FileAt 452 (stockedFile [0x66] 128 516) stockedExtents
  gCell : S.cells 708 = some (FSFileHeader.layout.encode (stockedFile [0x67] 0 fsNull))
  g : S.FileAt 708 (stockedFile [0x67] 0 fsNull) []

theorem directoryAt_stocked {g : FSGeometry} {S : Store g} {address parent : UInt32}
    {name : List UInt8} {refs : List UInt32}
    (hcell : S.cells address = some (FSDirectoryHeader.layout.encode
      (stockedDirectory name parent refs).header ++
        (Bytes.Layout.words refs ++ List.replicate (96 - 4 * refs.length) 0))) :
    S.DirectoryAt address (stockedDirectory name parent refs) :=
  ⟨hcell, rfl, rfl, trivial, List.nodup_singleton _⟩

theorem stockedHeap_tame : (freshDevice 4096 64).map (fun fresh =>
    decide ((stockVolume (Device.formatPartition 4096 64)).Calls 16 Heap.handle Heap.Tame
      ⟨fresh, []⟩)) = some true := by
  decide +kernel

theorem stockedHeap_cells : stockedHeap.map (fun h =>
    ((partitionOf h.device).magic, (partitionOf h.device).rootDirectory,
      h.device.ctx.geometry.isOpen, [68, 260, 452, 708, 516, 644].map h.cells)) =
    some (fsMagic, 68, true,
      [(stockedDirectory [0x72, 0x6F, 0x6F, 0x74] fsNull [260, 452], [260, 452]),
          (stockedDirectory [0x64] 68 [708], [708])].map (fun shown => some
        (FSDirectoryHeader.layout.encode shown.1.header ++
          (Bytes.Layout.words shown.2 ++ List.replicate (96 - 4 * shown.2.length) 0))) ++
      [some (FSFileHeader.layout.encode (stockedFile [0x66] 128 516)),
        some (FSFileHeader.layout.encode (stockedFile [0x67] 0 fsNull)),
        some (Extent.bytes ⟨516, 452, List.replicate 112 0, []⟩ 644),
        some (Extent.bytes ⟨644, 516, List.replicate 16 0, []⟩ fsNull)]) := by
  decide +kernel

/-- The volume is there, and all its sizes are those of its device. -/
theorem exists_stocked : ∃ (d : Device) (g : FSGeometry) (S : Store g),
    VfsState.stocked = some { VfsState.small with devices := fun _ => d } ∧
      d.ctx.geometry.isOpen = true ∧ (partitionOf d).magic = fsMagic ∧
      (partitionOf d).rootDirectory = 68 ∧ d.Holds S ∧ Stocked S := by
  obtain ⟨-, fresh, -, -, hfresh, himage⟩ :=
    exists_freshDevice 4096 (show 0 < (64 : UInt32).toNat by decide)
  have htame := stockedHeap_tame
  have hcells := stockedHeap_cells
  rw [hfresh, Option.map_some, Option.some_inj] at htame
  obtain ⟨h, hh, hshown⟩ := Option.map_eq_some_iff.mp hcells
  have hrun := hh
  simp only [stockedHeap, hfresh, Option.bind_eq_bind, Option.bind_some,
    Option.bind_eq_some_iff] at hrun
  obtain ⟨made, hrun, hmade⟩ := hrun
  cases hmade
  have hgeo : fresh.ctx.geometry.Ok := by
    rw [himage.geometry]
    exact FSGeometry.ofPartition_ok _ (by decide) (by decide)
  have hinv := (Heap.Inv.of_fresh himage hgeo).run (of_decide_eq_true htame) hrun
  obtain ⟨S, hS, hd⟩ := Device.Holds.exists_store rfl hinv
  simp only [List.map_cons, List.map_nil, List.cons_append, List.nil_append, Prod.mk.injEq,
    List.cons.injEq, ← hS] at hshown
  obtain ⟨hmagic, hroot, hopen, h68, h260, h452, h708, h516, h644, -⟩ := hshown
  refine ⟨_, _, S, by rw [VfsState.stocked, hh]; rfl, hopen, hmagic, hroot, hd,
    directoryAt_stocked h68, directoryAt_stocked h260, h452, ?_, h708, ?_⟩
  · exact ⟨⟨[], by rw [h452, List.append_nil]⟩, rfl, rfl, ⟨h516, h644, trivial⟩, by decide, rfl⟩
  · exact ⟨⟨[], by rw [h708, List.append_nil]⟩, rfl, rfl, trivial, by decide, rfl⟩

def stockedNodes : List (UInt32 × Option Folder) :=
  [(68, some ⟨none, [([0x64], 260), ([0x66], 452)]⟩), (260, some ⟨some 68, [([0x67], 708)]⟩),
    (452, none), (708, none)]

/-- The tree of the small kernel with this volume. -/
def stockedTree : NodeTree :=
  { smallTree with
    mounted := fun node => if node = 0x1000C0 then .volume 0x5000 else .nothing
    volume := fun _ => .ofList stockedNodes 68 List.mem_cons_self (by decide) (by decide) }

theorem Stocked.shows {g : FSGeometry} {S : Store g} (h : Stocked S) :
    ∀ node ∈ stockedNodes, ShowsNode S node.1 node.2 := by
  simp only [stockedNodes, List.forall_mem_cons]
  refine ⟨⟨_, h.root, rfl, rfl, ?_⟩, ⟨_, h.d, rfl, rfl, ?_⟩, ⟨_, h.fCell, by decide⟩,
    ⟨_, h.gCell, by decide⟩, List.forall_mem_nil _⟩
  · simp only [List.forall_mem_cons]
    exact ⟨h.d.hasName, h.f.hasName, List.forall_mem_nil _⟩
  · simp only [List.forall_mem_cons]
    exact ⟨h.g.hasName, List.forall_mem_nil _⟩

/-- The kernel with the volume shows its tree. -/
theorem exists_stocked_shows : ∃ (s : VfsState) (g : FSGeometry) (S : Store g),
    VfsState.stocked = some s ∧ s.kernel = smallKernel ∧ s.Shows stockedTree ∧
      (s.devices 0x5000).Holds S ∧ Stocked S := by
  obtain ⟨d, g, S, hstocked, hopen, hmagic, hroot, hd, hstock⟩ := exists_stocked
  refine ⟨_, g, S, hstocked, rfl, ⟨fun _ => hd.sound, rfl, ?_, ?_, ?_⟩, hd, hstock⟩
  · intro node hnode
    obtain ⟨shown, hshown, rfl⟩ := List.mem_map.mp hnode
    exact smallKernel_shows _ (smallNodes_lookup shown hshown)
  · intro node hnode
    obtain ⟨shown, hshown, rfl⟩ := List.mem_map.mp hnode
    have hat := mountedAt_small (s := { VfsState.small with devices := fun _ => d }) rfl rfl hshown
    rw [if_neg (not_not.mpr hmagic), hopen, if_pos rfl] at hat
    exact hat.symm
  · intro node _ ctx _
    refine ⟨g, S, hd, hroot, fun node hnode => ?_⟩
    have hlookup : ∀ node ∈ stockedNodes,
        (node.1, (stockedNodes.lookup node.1).join) ∈ stockedNodes := by decide
    obtain ⟨shown, hshown, rfl⟩ := List.mem_map.mp hnode
    exact hstock.shows _ (hlookup shown hshown)

/-- The path leads through the mount to the file `d/g` of the volume. -/
theorem resolve_is_walk_stocked : ∃ (s : VfsState) (enough : Nat), VfsState.stocked = some s ∧
    ∀ n ≥ enough, ∃ s',
      (VfsM.resolvePathToAddress stockedPath).run n VfsState.handle s = some (708, s') ∧
        s.SameNodes s' := by
  obtain ⟨s, -, -, hstocked, -, hs, -⟩ := exists_stocked_shows
  obtain ⟨enough, hwalk⟩ := @resolve_is_walk s stockedTree hs stockedPath (by decide)
  rw [if_neg (by decide), show NodeTree.address (stockedTree.resolve stockedPath) = 708 by decide]
    at hwalk
  exact ⟨s, enough, hstocked, hwalk⟩

/-- The empty path has no segments, so that its walk ends at the root, but it leads nowhere. -/
theorem resolve_not_walk : VfsState.small.Shows smallTree ∧
    ¬∃ enough, ∀ n ≥ enough, ∃ s', (VfsM.resolvePathToAddress []).run n VfsState.handle .small =
      some (NodeTree.address (smallTree.resolve []), s') := by
  refine ⟨VfsState.small_shows, ?_⟩
  rintro ⟨enough, h⟩
  obtain ⟨s', hrun⟩ := h enough le_rfl
  rw [VfsM.resolvePathToAddress, if_pos rfl] at hrun
  exact absurd (Prod.mk.inj (Option.some.inj hrun)).1 (by decide)

end AvrKernel.Vfs

import AvrKernel.Vfs.Walk

/-!
# The device of a path

The address of a path and the device that it is used on are found by two walks.
The second one ends at the first mount that it meets, so that the two agree
only if the walk ends on the device that is mounted there.
-/

namespace AvrKernel.Vfs

open BaseFS Kernel Effect Util

namespace NodeTree

variable (T : NodeTree)

/-- The places that a walk passes, as far as it gets. -/
def visited : List (List UInt8) → Place → List Place
  | [], place => [place]
  | segment :: rest, place =>
      if segment = dot then visited rest place
      else place :: (T.step place segment).elim [] (visited rest)

theorem visited_eq_cons (segments : List (List UInt8)) (place : Place) :
    ∃ tail, T.visited segments place = place :: tail := by
  induction segments with
  | nil => exact ⟨[], rfl⟩
  | cons segment rest ih =>
      rw [visited]
      split
      · exact ih
      · exact ⟨_, rfl⟩

/-- The context that a mount refers to. -/
def contextAt (mount : UInt32) : UInt32 :=
  (T.kernel.folder mount).elim 0 fun _ => (T.kernel.listed mount).getD 1 kmallocNull

end NodeTree

/-- A place that a search for a mount stops at. -/
def mountAt (k : KernelState) : Place → Option UInt32
  | .knode node => if k.flags node &&& kmallocFlagMount ≠ 0 then some node else none
  | .inside mount _ _ => some mount

/-- The first mount on the way of a path. -/
def firstMount (k : KernelState) (T : NodeTree) (path : List UInt8) : Option UInt32 :=
  (T.visited (segments [slash] path) (.knode T.kernel.root)).findSome? (mountAt k)

/-! ## The second walk -/

namespace VfsState.Shows

variable {s : VfsState} {T : NodeTree} {node : UInt32} {place : Place} (hs : s.Shows T)

include hs

/-- Entering a node is what the search for a mount looks at. -/
theorem mountAt_enter (hnode : node ∈ T.kernel.all) (henter : T.enter node = some place) :
    mountAt s.kernel place =
      if s.kernel.flags node &&& kmallocFlagMount ≠ 0 then some node else none := by
  have hmounted := hs.mounted node hnode
  rw [NodeTree.enter] at henter
  cases hat : T.mounted node with
  | nothing =>
      rw [hat] at henter
      cases henter
      rfl
  | foreign =>
      rw [hat] at henter
      cases henter
  | volume ctx =>
      rw [hat] at henter hmounted
      cases henter
      rw [if_pos]
      · rfl
      · intro hzero
        rw [mountedAt, if_pos hzero] at hmounted
        cases hmounted

/-- A node that is no mount is a place of its own. -/
theorem enter_of_not_mount (hnode : node ∈ T.kernel.all)
    (hmount : s.kernel.flags node &&& kmallocFlagMount = 0) :
    T.enter node = some (.knode node) := by
  rw [NodeTree.enter, hs.mounted node hnode, mountedAt, if_pos hmount]

/-- A step from a kernel node goes to the next one, or into what is mounted there. -/
theorem finds_nextKnode {segment : List UInt8} (hnode : node ∈ T.kernel.all) (hne : segment ≠ [])
    (hstep : T.step (.knode node) segment = some place) :
    ∃ next ∈ T.kernel.all, s.Finds (VfsM.nextKnode node segment) (some next) ∧
      T.enter next = some place := by
  rw [NodeTree.step] at hstep
  by_cases hup : segment = dotDot
  · rw [if_pos hup] at hstep
    obtain ⟨f, hfolder, henter⟩ := Option.bind_eq_some_iff.mp hstep
    have hnext := (hs.finds_parent hnode).map some
    rw [hfolder] at hnext
    rw [VfsM.nextKnode, if_pos hup]
    exact ⟨_, NodeTree.parent_mem hnode hfolder, hnext, henter⟩
  · rw [if_neg hup] at hstep
    obtain ⟨f, hfolder, hdown⟩ := Option.bind_eq_some_iff.mp hstep
    obtain ⟨child, hchild, henter⟩ := Option.bind_eq_some_iff.mp hdown
    have hnext := hs.finds_child hnode hne hup
    rw [hfolder, Option.bind_some, hchild] at hnext
    exact ⟨child, T.kernel.child_mem hnode hfolder hchild, hnext, henter⟩

/-- If a walk along tokens ends somewhere, the search for a mount finds the first one on the
way, or ends at the same kernel node. -/
theorem finds_mountTokens {path : List (List UInt8)} (hpath : ∀ token ∈ path, token ≠ [])
    (hnode : node ∈ T.kernel.all) (hmount : s.kernel.flags node &&& kmallocFlagMount = 0)
    (hwalk : T.walk path (.knode node) = some place) :
    match (T.visited path (.knode node)).findSome? (mountAt s.kernel) with
    | some mount => mount ∈ T.kernel.all ∧ s.kernel.flags mount &&& kmallocFlagMount ≠ 0 ∧
        s.Finds (VfsM.mountTokens path node) mount
    | none => ∃ last ∈ T.kernel.all, place = .knode last ∧
        s.kernel.flags last &&& kmallocFlagMount = 0 ∧
          s.Finds (VfsM.mountTokens path node) last := by
  have hhere : mountAt s.kernel (.knode node) = none := by
    rw [mountAt, if_neg (not_not.mpr hmount)]
  induction path generalizing node with
  | nil =>
      cases hwalk
      rw [NodeTree.visited, List.findSome?_cons, hhere]
      exact ⟨node, hnode, rfl, hmount, .ret _⟩
  | cons token rest ih =>
      have hrest : ∀ token' ∈ rest, token' ≠ [] := fun token' h =>
        hpath token' (List.mem_cons_of_mem _ h)
      rw [NodeTree.walk] at hwalk
      rw [NodeTree.visited]
      by_cases hdot : token = dot
      · rw [if_pos hdot] at hwalk
        simp only [VfsM.mountTokens, if_pos hdot]
        exact ih hrest hnode hmount hwalk hhere
      · rw [if_neg hdot] at hwalk
        obtain ⟨place', hstep, hwalk'⟩ := Option.bind_eq_some_iff.mp hwalk
        obtain ⟨next, hmem, hnext, henter⟩ :=
          hs.finds_nextKnode hnode (hpath token List.mem_cons_self) hstep
        have hat := hs.mountAt_enter hmem henter
        simp only [if_neg hdot]
        rw [hstep, Option.elim_some, List.findSome?_cons, hhere]
        dsimp only
        by_cases hflag : s.kernel.flags next &&& kmallocFlagMount = 0
        · rw [hs.enter_of_not_mount hmem hflag] at henter
          cases henter
          rw [if_neg (not_not.mpr hflag)] at hat
          have hthere := ih hrest hmem hflag hwalk' hat
          have hgoes : ∀ last, s.Finds (VfsM.mountTokens rest next) last →
              s.Finds (VfsM.mountTokens (token :: rest) node) last := by
            intro last hlast
            simp only [VfsM.mountTokens, if_neg hdot]
            refine hnext.bind ((finds_kernel (KernelState.finds_getFlags next)).bind ?_)
            rwa [if_neg (not_not.mpr hflag)]
          revert hthere
          cases (T.visited rest (.knode next)).findSome? (mountAt s.kernel) with
          | some mount =>
              rintro ⟨hmem', hflag', hfinds⟩
              exact ⟨hmem', hflag', hgoes mount hfinds⟩
          | none =>
              rintro ⟨last, hlast, hplace, hflag', hfinds⟩
              exact ⟨last, hlast, hplace, hflag', hgoes last hfinds⟩
        · obtain ⟨tail, htail⟩ := T.visited_eq_cons rest place'
          rw [if_pos hflag] at hat
          rw [htail, List.findSome?_cons, hat]
          refine ⟨hmem, hflag, ?_⟩
          simp only [VfsM.mountTokens, if_neg hdot]
          refine hnext.bind ((finds_kernel (KernelState.finds_getFlags next)).bind ?_)
          rw [if_pos hflag]
          exact .ret _

/-- The context is read from the node that the search for a mount ends at. -/
theorem finds_context {path : List UInt8} (hnode : node ∈ T.kernel.all)
    (hpoint : s.Finds (VfsM.resolvePathToMountPoint path) node) :
    s.Finds (VfsM.vfsDeviceGetContext path)
      (if s.kernel.flags node &&& kmallocFlagMount = 0 then 0 else T.contextAt node) := by
  have hshows := hs.knode node hnode
  have hvalid := finds_kernel (KernelState.finds_isValidAddress (k := s.kernel) node)
  have hflags := finds_kernel (KernelState.finds_getFlags (k := s.kernel) node)
  have href := hs.finds_reference hnode 1
  refine hpoint.bind ?_
  rw [NodeTree.contextAt]
  cases hfolder : T.kernel.folder node with
  | none =>
      rw [hfolder] at hshows
      rw [decide_eq_false hshows] at hvalid
      rw [Option.elim_none, ite_self]
      split
      · exact .ret _
      · exact hvalid.bind (.ret _)
  | some f =>
      rw [hfolder] at hshows
      obtain ⟨hnull, hzero⟩ := isEnd_eq_false.mp hshows.1.knode.1
      rw [decide_eq_true hshows.1.knode] at hvalid
      have hends : ¬(node = 0xFFFFFFFF ∨ node = 0) := not_or.mpr ⟨hnull, hzero⟩
      rw [if_neg hends]
      refine hvalid.bind ?_
      rw [if_pos rfl]
      refine hflags.bind ?_
      split
      · exact .ret _
      · exact href

theorem finds_getContext {path : List UInt8} (hne : path ≠ [])
    (hplace : T.resolve (path.take 255) = some place) :
    match firstMount s.kernel T (path.take 255) with
    | some mount => s.Finds (VfsM.vfsDeviceGetContext path) (T.contextAt mount)
    | none => place.ctx = 0 ∧ s.Finds (VfsM.vfsDeviceGetContext path) 0 := by
  have hroot : s.Finds (VfsM.kernel KernelM.knodeGetRoot) T.kernel.root :=
    finds_kernel (.of_run fun _ => by rw [← hs.root]; rfl)
  have hflags := finds_kernel (KernelState.finds_getFlags (k := s.kernel) T.kernel.root)
  rw [firstMount]
  by_cases hmount : s.kernel.flags T.kernel.root &&& kmallocFlagMount = 0
  · have hpath : ∀ token ∈ segments [slash] (path.take 255), token ≠ [] := fun token htoken => by
      simpa using (List.mem_filter.mp htoken).2
    have hpoint : ∀ last,
        s.Finds (VfsM.mountTokens (segments [slash] (path.take 255)) T.kernel.root) last →
          s.Finds (VfsM.resolvePathToMountPoint path) last := by
      intro last hlast
      rw [VfsM.resolvePathToMountPoint, if_neg hne]
      refine hroot.bind (hflags.bind ?_)
      rw [if_neg (not_not.mpr hmount), pathTokens, tokens_eq]
      exact hlast
    have hsearch := hs.finds_mountTokens hpath T.kernel.root_mem hmount hplace
    revert hsearch
    cases (T.visited (segments [slash] (path.take 255)) (.knode T.kernel.root)).findSome?
      (mountAt s.kernel) with
    | some mount =>
        rintro ⟨hmem, hflag, hfinds⟩
        have hctx := hs.finds_context hmem (hpoint mount hfinds)
        rwa [if_neg hflag] at hctx
    | none =>
        rintro ⟨last, hmem, rfl, hflag, hfinds⟩
        have hctx := hs.finds_context hmem (hpoint last hfinds)
        rw [if_pos hflag] at hctx
        exact ⟨rfl, hctx⟩
  · obtain ⟨tail, htail⟩ := T.visited_eq_cons (segments [slash] (path.take 255))
      (.knode T.kernel.root)
    have hpoint : s.Finds (VfsM.resolvePathToMountPoint path) T.kernel.root := by
      rw [VfsM.resolvePathToMountPoint, if_neg hne]
      refine hroot.bind (hflags.bind ?_)
      rw [if_pos hmount]
      exact .ret _
    have hctx := hs.finds_context T.kernel.root_mem hpoint
    rw [if_neg hmount] at hctx
    rw [htail, List.findSome?_cons, mountAt, if_pos hmount]
    exact hctx

end VfsState.Shows

/-- The walk of resolving a path ends at a place, and the device of the path is that of the place:
the one that the first mount on the way refers to, if there is one. -/
theorem context_agrees_iff {s : VfsState} {T : NodeTree} (hs : s.Shows T) {path : List UInt8}
    (hne : path ≠ []) {place : Place} (hplace : T.resolve (path.take 255) = some place) :
    (∃ enough, ∀ n ≥ enough, ∃ s' s'',
      (VfsM.resolveWalk path).run n VfsState.handle s = some (some place.walk, s') ∧
      (VfsM.vfsDeviceGetContext path).run n VfsState.handle s = some (place.ctx, s'')) ↔
    ∀ mount, firstMount s.kernel T (path.take 255) = some mount →
      T.contextAt mount = place.ctx := by
  obtain ⟨last, hlast, hagrees⟩ := hs.finds_resolveWalk path
  rw [hplace] at hagrees
  cases hagrees
  have hcontext := hs.finds_getContext hne hplace
  have hboth : ∀ ctx, s.Finds (VfsM.vfsDeviceGetContext path) ctx →
      ((∃ enough, ∀ n ≥ enough, ∃ s' s'',
        (VfsM.resolveWalk path).run n VfsState.handle s = some (some place.walk, s') ∧
        (VfsM.vfsDeviceGetContext path).run n VfsState.handle s = some (place.ctx, s'')) ↔
      ctx = place.ctx) := by
    intro ctx hctx
    obtain ⟨enough, hlast⟩ := hlast
    obtain ⟨enough', hctx⟩ := hctx
    constructor
    · rintro ⟨enough'', h⟩
      obtain ⟨s', hrun, -⟩ := hctx _ (le_max_left enough' enough'') s (.refl s)
      obtain ⟨-, s'', -, hrun'⟩ := h _ (le_max_right enough' enough'')
      exact (Prod.mk.inj (Option.some.inj (hrun.symm.trans hrun'))).1
    · rintro rfl
      refine ⟨max enough enough', fun n hn => ?_⟩
      obtain ⟨hn, hn'⟩ := Nat.max_le.mp hn
      obtain ⟨s', hrun, -⟩ := hlast n hn s (.refl s)
      obtain ⟨s'', hrun', -⟩ := hctx n hn' s (.refl s)
      exact ⟨s', s'', hrun, hrun'⟩
  revert hcontext
  cases firstMount s.kernel T (path.take 255) with
  | some mount =>
      intro hctx
      rw [hboth _ hctx]
      exact ⟨fun h mount' hmount' => by cases hmount'; exact h, fun h => h mount rfl⟩
  | none =>
      rintro ⟨hzero, hctx⟩
      rw [hboth _ hctx]
      exact ⟨fun _ => nofun, fun _ => hzero.symm⟩

/-- The path leads to the file `d/g` of the volume at `/mnt/ata0`, and its device is that of the
volume. -/
theorem context_agrees_iff_stocked : ∃ (s : VfsState) (enough : Nat), VfsState.stocked = some s ∧
    firstMount s.kernel stockedTree (stockedPath.take 255) = some 0x1000C0 ∧
    ∀ n ≥ enough, ∃ s' s'',
      (VfsM.resolveWalk stockedPath).run n VfsState.handle s =
          some (some ⟨0x1000C0, 708, true, 0x5000⟩, s') ∧
        (VfsM.vfsDeviceGetContext stockedPath).run n VfsState.handle s = some (0x5000, s'') := by
  obtain ⟨s, -, -, hstocked, hkernel, hs, -⟩ := exists_stocked_shows
  have hfirst : firstMount s.kernel stockedTree (stockedPath.take 255) = some 0x1000C0 := by
    rw [hkernel, smallKernel_eq]
    decide +kernel
  obtain ⟨enough, h⟩ := (@context_agrees_iff s stockedTree hs stockedPath (by decide)
    (.inside 0x1000C0 0x5000 708) (by decide)).mpr (by
      intro mount hmount
      obtain rfl := Option.some.inj (hmount.symm.trans hfirst)
      decide)
  exact ⟨s, enough, hstocked, hfirst, h⟩

set_option maxRecDepth 100000 in
/-- The path `/mnt/ata0/..` leads to the kernel node `/mnt`, but its device is that of
`/mnt/ata0`. -/
theorem context_not_agrees : ∃ (n : Nat) (s s' s'' : VfsState) (walk : PathWalk) (ctx : UInt32),
    VfsState.mounted n = some s ∧
      (VfsM.resolveWalk [0x2F, 0x6D, 0x6E, 0x74, 0x2F, 0x61, 0x74, 0x61, 0x30,
        0x2F, 0x2E, 0x2E]).run
        n VfsState.handle s = some (some walk, s') ∧
      walk.inFileSystem = false ∧ walk.node = 0x100070 ∧
      (VfsM.vfsDeviceGetContext
        [0x2F, 0x6D, 0x6E, 0x74, 0x2F, 0x61, 0x74, 0x61, 0x30, 0x2F, 0x2E, 0x2E]).run
        n VfsState.handle s = some (ctx, s'') ∧ ctx = 0x5000 := by
  have hrun : ((VfsState.mounted 100).bind fun s => do
      let (walk, _) ← (VfsM.resolveWalk
        [0x2F, 0x6D, 0x6E, 0x74, 0x2F, 0x61, 0x74, 0x61, 0x30, 0x2F, 0x2E, 0x2E]).run
          100 VfsState.handle s
      let (ctx, _) ← (VfsM.vfsDeviceGetContext
        [0x2F, 0x6D, 0x6E, 0x74, 0x2F, 0x61, 0x74, 0x61, 0x30, 0x2F, 0x2E, 0x2E]).run
          100 VfsState.handle s
      return (walk, ctx)) = some (some (.start 0x100070), 0x5000) := by
    rw [VfsState.mounted_eq]
    decide +kernel
  simp only [Option.bind_eq_bind, Option.bind_eq_some_iff] at hrun
  obtain ⟨s, hs, ⟨walk, s'⟩, hwalk, ⟨ctx, s''⟩, hctx, hresult⟩ := hrun
  cases hresult
  exact ⟨100, s, s', s'', _, _, hs, hwalk, rfl, rfl, hctx, rfl⟩

end AvrKernel.Vfs

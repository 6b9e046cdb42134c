import AvrKernel.BaseFS.ReferenceOps

/-!
# Directories as sets of references

Over any sequence of additions and removals a directory does what its blocks do.
It stays a set as long as no reference is added in front of where it already is.
-/

namespace AvrKernel.BaseFS

open Bytes Effect BlockList

inductive RefOp
  | add (reference : UInt32)
  | remove (reference : UInt32)

namespace RefOp

def run (address : UInt32) : RefOp → FS UInt8
  | add reference => FS.fsDirectoryAddReference address reference
  | remove reference => FS.fsDirectoryRemoveReference address reference

/-- The status that the operation returns. -/
def step (fuel : Nat) (address : UInt32) (d : Device) (op : RefOp) : Option (UInt8 × Device) :=
  (op.run address).run fuel Device.handle d

/-- The status and the blocks after the operation. -/
def apply (bs : List (Block UInt32)) : RefOp → UInt8 × List (Block UInt32)
  | add x => if x = fsNull then (1, bs) else (0, BlockList.add 12 x bs)
  | remove x =>
      if x = fsNull then (1, bs)
      else if x ∈ elems bs then (0, BlockList.remove x bs) else (4, bs)

/-- Every allocation of the operation succeeds. -/
def Supplied (fuel : Nat) (address : UInt32) (d : Device) (op : RefOp) : Prop :=
  Prog.Calls fuel Device.handle BaseFS.Supplied (op.run address) d

/-- No reference is added in front of where it is. -/
def Visible (bs : List (Block UInt32)) : RefOp → Prop
  | add x => ¬Hidden x bs
  | remove _ => True

end RefOp

/-- The device holds a directory with the blocks `bs`. -/
def Directory.Held (g : FSGeometry) (address : UInt32) (d : Device) (bs : List (Block UInt32)) :
    Prop :=
  ∃ (S : Store g) (D : Directory), d.Holds S ∧ S.DirectoryAt address D ∧ D.blocks = bs

section Simulation

variable {g : FSGeometry} {n : Nat} {address : UInt32} {S : Store g} {D : Directory}
  {A : FSCall → Device → Prop} {B : UInt32 → Device → Prop}

/-- An operation does to the directory what it does to its blocks, unless it needs a new
extent that is refused. -/
theorem RefOp.ensures_run (hdir : S.DirectoryAt address D) (op : RefOp)
    (hgrant : ∀ x, op = .add x → settle x D.blocks = none → ∀ d : Device, A (.alloc 60) d →
      B 60 d)
    (hrefused : ∀ (x : UInt32) (d : Device), op = .add x → settle x D.blocks = none →
      A (.alloc 60) d → (d.fsAlloc 60).1 ≠ fsNull) :
    (world g n A B).Ensures (op.run address) S fun status S' =>
      ∃ D', S'.DirectoryAt address D' ∧ (status, D'.blocks) = op.apply D.blocks := by
  cases op with
  | add x =>
      rw [run, apply]
      by_cases hx : x = fsNull
      · rw [if_pos hx, FS.fsDirectoryAddReference, if_pos hx]
        exact Refine.ensures_ret ⟨D, hdir, rfl⟩
      · rw [if_neg hx, BlockList.add]
        refine FS.ensures_addReference hdir hx (hgrant x rfl) (fun hsettle => ?_)
          (fun S' D' hsettle _ hrelisted _ => ?_)
          (fun d status hsettle hassume hnull _ _ => ?_)
          fun S' D' s hsettle hblocks hrelisted _ _ => ?_
        · exact ⟨D, hdir, by rw [hsettle]; rfl⟩
        · exact ⟨D', hrelisted.directory, by rw [hsettle]; rfl⟩
        · exact absurd hnull (hrefused x d rfl hsettle hassume)
        · exact ⟨D', hrelisted.directory, by rw [hsettle, hblocks]; rfl⟩
  | remove x =>
      rw [run, apply]
      by_cases hx : x = fsNull
      · rw [if_pos hx, FS.fsDirectoryRemoveReference, if_pos hx]
        exact Refine.ensures_ret ⟨D, hdir, rfl⟩
      · have hrefs : D.refs = elems D.blocks := rfl
        rw [if_neg hx, ← hrefs]
        refine FS.ensures_removeReference hdir hx (fun hout => ?_)
          fun S' hin hrelisted => ?_
        · exact ⟨D, hdir, by rw [if_neg hout]⟩
        · exact ⟨D.without x, hrelisted.directory, by rw [if_pos hin, Directory.without_blocks]⟩

/-- Adding a reference that is there, and not hidden, changes nothing. -/
theorem RefOp.ensures_readd (hdir : S.DirectoryAt address D) {x : UInt32} (hmem : x ∈ D.refs)
    (hvisible : ¬Hidden x D.blocks) :
    (world g n A B).Ensures ((RefOp.add x).run address) S fun _ S' => S' = S := by
  have hsettle : settle x D.blocks = some D.blocks := settle_of_mem hmem hvisible
  by_cases hx : x = fsNull
  · rw [run, FS.fsDirectoryAddReference, if_pos hx]
    exact Refine.ensures_ret rfl
  · have hfound : settle x D.blocks ≠ none := by simp [hsettle]
    refine FS.ensures_addReference hdir hx (fun hnone => absurd hnone hfound) (fun _ => rfl)
      (fun S' D' hsome hne _ _ => ?_) (fun _ _ hnone _ _ _ _ => absurd hnone hfound)
      fun _ _ _ hnone _ _ _ _ => absurd hnone hfound
    rw [hsettle, Option.some_inj] at hsome
    exact absurd hsome.symm hne

/-- One operation on the directory simulates the one on its blocks. -/
theorem RefOp.step_simulates (d : Device) (bs : List (Block UInt32)) (op : RefOp)
    (hd : Directory.Held g address d bs) (hsupplied : op.Supplied n address d) :
    ∃ d', op.step n address d = some ((op.apply bs).1, d') ∧
      Directory.Held g address d' (op.apply bs).2 := by
  obtain ⟨S, D, hholds, hdir, rfl⟩ := hd
  have hrun := RefOp.ensures_run (n := n) (A := BaseFS.Supplied) (B := fun _ _ => True) hdir op
    (fun _ _ _ _ _ => trivial) fun _ d _ _ hassume => hassume
  obtain ⟨-, status, d', S', hstep, hd', D', hdir', happly⟩ := hrun d hholds hsupplied
  rw [← happly]
  exact ⟨d', hstep, S', D', hd', hdir', rfl⟩

end Simulation

/-- A visible operation keeps a set of references one. -/
theorem RefOp.nodup_apply {bs : List (Block UInt32)} {op : RefOp} (hset : (elems bs).Nodup)
    (hvisible : op.Visible bs) : (elems (op.apply bs).2).Nodup := by
  cases op with
  | add x =>
      rw [apply]
      split
      · exact hset
      · exact (nodup_add_iff hset).mpr hvisible
  | remove x =>
      rw [apply]
      split
      · exact hset
      · split
        · rw [elems_remove]
          exact hset.erase x
        · exact hset

/-- Every sequence of operations that adds no reference in front of where it is does to the
directory what it does to its blocks, and leaves a set: no reference is listed twice, the
counts add up to their number, and adding one of them again, if it is not hidden, changes
nothing. -/
theorem directory_is_set {g : FSGeometry} {n : Nat} {address : UInt32} {S : Store g}
    {D : Directory} {d : Device} (hd : d.Holds S) (hdir : S.DirectoryAt address D)
    (hset : D.refs.Nodup) {ops : List RefOp}
    (hsupplied : Trace.Permitted (RefOp.step n address) (fun d op => op.Supplied n address d) d ops)
    (hvisible : Trace.Permitted (Trace.total RefOp.apply) RefOp.Visible D.blocks ops) :
    ∃ (answers : List UInt8) (d' : Device) (S' : Store g) (D' : Directory),
      Trace.run (RefOp.step n address) d ops = some (answers, d') ∧
      Trace.run (Trace.total RefOp.apply) D.blocks ops = some (answers, D'.blocks) ∧
      d'.Holds S' ∧ S'.DirectoryAt address D' ∧ D'.refs.Nodup ∧
      (∃ d'', (FS.fsDirectoryGetReferenceCount address).run n Device.handle d' =
        some (.ofNat D'.refs.length, d'')) ∧
      ∀ x ∈ D'.refs, ¬Hidden x D'.blocks →
        ∃ status d'', (RefOp.add x).step n address d' = some (status, d'') ∧ d''.Holds S' := by
  obtain ⟨answers, d', bs, hrun, hspec, S', D', hd', hdir', rfl⟩ :=
    Trace.run_simulates (R := Directory.Held g address) RefOp.step_simulates
      ⟨S, D, hd, hdir, rfl⟩ hsupplied
  have hkeeps : ∀ (bs : List (Block UInt32)) op answer bs', (elems bs).Nodup →
      RefOp.Visible bs op → Trace.total RefOp.apply bs op = some (answer, bs') →
        (elems bs').Nodup := by
    intro bs op answer bs' hnodup hop hstep
    rw [Trace.total, Option.some_inj, Prod.mk.injEq] at hstep
    rw [← hstep.2]
    exact RefOp.nodup_apply hnodup hop
  have hset' : D'.refs.Nodup := Trace.run_preserves hkeeps hset hvisible hspec
  have hcalls : ∀ {α : Type} (p : FS α), Prog.Calls n Device.handle (fun _ _ => True) p d' :=
    fun p => Prog.Calls.of_forall _ _ (fun _ _ => trivial) p d'
  refine ⟨answers, d', S', D', hrun, hspec, hd', hdir', hset', ?_, fun x hx hhidden => ?_⟩
  · have hcount : (world g n (fun _ _ => True) fun _ _ => True).Ensures
        (FS.fsDirectoryGetReferenceCount address) S' fun count _ => count = .ofNat D'.refs.length :=
      FS.ensures_getReferenceCount hdir' rfl
    obtain ⟨-, count, d'', -, hcount', -, rfl⟩ := hcount d' hd' (hcalls _)
    exact ⟨d'', hcount'⟩
  · obtain ⟨-, status, d'', S'', hstep, hd'', rfl⟩ :=
      RefOp.ensures_readd (A := fun _ _ => True) (B := fun _ _ => True) hdir' hx hhidden d' hd'
        (hcalls _)
    exact ⟨status, d'', hstep, hd''⟩

/-! ## A directory whose header is full -/

/-- The header of a directory whose chain starts at `extent`. -/
def fullHeader (extent : UInt32) : FSDirectoryHeader where
  block := FS.newBlock [] fsAttributeDirectory (fsPermissionRead ||| fsPermissionWrite)
  parent := fsNull
  extent := ⟨extent, fsNull⟩
  referenceCount := 24

def fullRefs : List UInt32 := (List.range 24).map fun i => .ofNat (i + 1)

/-- The references 1 to 24 fill the header, 25 is in the extent. -/
def fullBlocks : List (Block UInt32) := [⟨fullRefs, 0⟩, ⟨[25], 11⟩]

theorem exists_fullDirectory : ∃ (d : Device) (S : Store smallGeometry) (address : UInt32)
    (D : Directory), d.Holds S ∧ S.DirectoryAt address D ∧ D.blocks = fullBlocks := by
  obtain ⟨d, S, -, hempty, hd⟩ :=
    Store.exists_empty 1024 (show 0 < (64 : UInt32).toNat by decide) (by decide)
  have hfit : S.fit 144 = some 1 := Store.fit_empty hempty (by decide) (by decide)
  have hmade : (world smallGeometry 0 (fun _ _ => True) fun _ _ => True).Ensures
      (do
        let address ← FS.alloc 144
        let extent ← FS.alloc 60
        FS.memWrite address (FSDirectoryHeader.layout.encode (fullHeader extent) ++
          Layout.words fullRefs)
        FS.memWrite extent (DirExtent.bytes ⟨⟨[25], List.replicate 44 0⟩, extent⟩ address fsNull)
        return address) S
      fun address S' => ∃ D, S'.DirectoryAt address D ∧ D.blocks = fullBlocks := by
    refine Refine.ensures_bind
      (FS.ensures_alloc (.inl ⟨by decide, by decide⟩) (fun _ _ _ => trivial)
      (fun _ _ _ hnone => ?_) ?_)
    · rw [Store.place, hfit] at hnone
      cases hnone
    intro S₁ address payload hsized hplace hfresh hlen hcells₁
    obtain ⟨s, hfit', hfree⟩ := Store.free_alloc hsized hplace hfresh hlen hcells₁
    obtain rfl : s = 1 := Option.some_inj.mp (hfit'.symm.trans hfit)
    have hfit₁ : S₁.fit 60 = some 4 := by
      rw [Store.fit, hfree, Store.free_empty hempty]
      decide
    refine Refine.ensures_bind
      (FS.ensures_alloc (.inl ⟨by decide, by decide⟩) (fun _ _ _ => trivial)
      (fun _ _ _ hnone => ?_) ?_)
    · rw [Store.place, hfit₁] at hnone
      cases hnone
    intro S₂ extent payload' _ _ hfresh' hlen' hcells₂
    have hcell₁ : S₁.cells address = some payload := by rw [hcells₁, Function.update_self]
    have hne : address ≠ extent := by
      rintro rfl
      rw [hcell₁] at hfresh'
      cases hfresh'
    have hcell₂ : S₂.cells address = some ([] ++ payload ++ []) := by
      rw [hcells₂, Function.update_of_ne hne, hcell₁, List.append_nil, List.nil_append]
    refine Refine.ensures_bind (FS.ensures_memWrite hcell₂ (UInt32.add_zero _).symm ?_
      fun S₃ hcells₃ => ?_)
    · rw [hlen, List.length_append, FSDirectoryHeader.layout.encode_length, Layout.words_length]
      decide
    have hcell₃ : S₃.cells extent = some ([] ++ payload' ++ []) := by
      rw [hcells₃, Function.update_of_ne hne.symm, hcells₂, Function.update_self,
        List.append_nil, List.nil_append]
    refine Refine.ensures_bind (FS.ensures_memWrite hcell₃ (UInt32.add_zero _).symm ?_
      fun S' hcells' => Refine.ensures_ret
        ⟨⟨fullHeader extent, ⟨fullRefs, []⟩, [⟨⟨[25], List.replicate 44 0⟩, extent⟩]⟩, ?_,
          by simp [Directory.blocks, Slots.block, fullBlocks]⟩)
    · rw [hlen', DirExtent.bytes_length, List.length_replicate]
      rfl
    rw [List.append_nil, List.nil_append] at hcells₃ hcells'
    have hcount : (24 : UInt32) = .ofNat fullRefs.length := by decide
    refine ⟨?_, hcount, rfl, ⟨?_, trivial⟩, by simp [Directory.addresses, hne]⟩
    · rw [hcells', Function.update_of_ne hne, hcells₃, Function.update_self]
      simp
    · rw [hcells', Function.update_self]
      rfl
  obtain ⟨-, address, d', S', -, hd', D, hdir, hblocks⟩ :=
    hmade d hd (Prog.Calls.of_forall _ _ (fun _ _ => trivial) _ _)
  exact ⟨d', S', address, D, hd', hdir, hblocks⟩

/-- An operation for which there is room allocates nothing. -/
theorem RefOp.step_settled {g : FSGeometry} {n : Nat} {address : UInt32} {d : Device}
    {bs : List (Block UInt32)} (op : RefOp) (hd : Directory.Held g address d bs)
    (hroom : ∀ x, op = .add x → settle x bs ≠ none) :
    op.Supplied n address d ∧ ∃ d', op.step n address d = some ((op.apply bs).1, d') ∧
      Directory.Held g address d' (op.apply bs).2 := by
  obtain ⟨S, D, hholds, hdir, rfl⟩ := hd
  have hrun := RefOp.ensures_run (n := n) (A := fun _ _ => True) (B := fun _ _ => False) hdir op
    (fun x hop hnone => absurd hnone (hroom x hop)) fun x _ hop hnone => absurd hnone (hroom x hop)
  obtain ⟨hgrant, status, d', S', hstep, hd', D', hdir', happly⟩ :=
    hrun d hholds (Prog.Calls.of_forall _ _ (fun _ _ => trivial) _ _)
  rw [← happly]
  refine ⟨hgrant.mono _ _ fun e s hgranted => ?_, d', hstep, S', D', hd', hdir', rfl⟩
  cases e with
  | alloc size => exact hgranted.elim
  | _ => trivial

theorem RefOp.run_settled {g : FSGeometry} {n : Nat} {address : UInt32} {d : Device}
    {bs : List (Block UInt32)} (op op' : RefOp) (hd : Directory.Held g address d bs)
    (hroom : ∀ x, op = .add x → settle x bs ≠ none)
    (hroom' : ∀ x, op' = .add x → settle x (op.apply bs).2 ≠ none) :
    Trace.Permitted (RefOp.step n address) (fun d op => op.Supplied n address d) d [op, op'] ∧
      ∃ answers d', Trace.run (RefOp.step n address) d [op, op'] = some (answers, d') ∧
        Directory.Held g address d' (op'.apply (op.apply bs).2).2 := by
  obtain ⟨hsupplied, d₁, hstep, hd₁⟩ := op.step_settled (n := n) hd hroom
  obtain ⟨hsupplied', d₂, hstep', hd₂⟩ := op'.step_settled (n := n) hd₁ hroom'
  refine ⟨⟨hsupplied, fun answer s hs => ⟨?_, fun _ _ _ => trivial⟩⟩, _, d₂,
    Trace.run_cons.mpr ⟨_, d₁, _, hstep, Trace.run_cons.mpr ⟨_, d₂, [], hstep', rfl, rfl⟩, rfl⟩,
    hd₂⟩
  rw [hstep, Option.some_inj, Prod.mk.injEq] at hs
  rwa [← hs.2]

/-- Removing 1 and adding it again. -/
theorem directory_is_set_full : ∃ (n : Nat) (address : UInt32) (d d' : Device)
    (answers : List UInt8) (S' : Store smallGeometry) (D' : Directory),
    Trace.run (RefOp.step n address) d [.remove 1, .add 1] = some (answers, d') ∧
      d'.Holds S' ∧ S'.DirectoryAt address D' ∧ D'.refs.Nodup := by
  obtain ⟨d, S, address, D, hd, hdir, hblocks⟩ := exists_fullDirectory
  have hset : D.refs.Nodup := by
    rw [Directory.refs, hblocks]
    decide
  obtain ⟨hsupplied, -⟩ := RefOp.run_settled (n := 0) (.remove 1) (.add 1)
    ⟨S, D, hd, hdir, hblocks⟩ (fun _ h => by cases h) fun x h => by
      cases h
      decide
  have hvisible : Trace.Permitted (Trace.total RefOp.apply) RefOp.Visible D.blocks
      [.remove 1, .add 1] := by
    refine ⟨trivial, fun answer bs hstep => ⟨fun hhidden => ?_, fun _ _ _ => trivial⟩⟩
    rw [Trace.total, Option.some_inj, Prod.mk.injEq, hblocks] at hstep
    have hmem := hhidden.mem
    rw [← hstep.2] at hmem
    exact absurd hmem (by decide)
  obtain ⟨answers, d', S', D', hrun, -, hd', hdir', hset', -⟩ :=
    directory_is_set hd hdir hset hsupplied hvisible
  exact ⟨0, address, d, d', answers, S', D', hrun, hd', hdir', hset'⟩

/-- With the header full and 25 in the extent, removing 1 opens a slot in the header, and adding
25 puts it there a second time. -/
theorem directory_not_set : ∃ (n : Nat) (address : UInt32) (d d' : Device)
    (S : Store smallGeometry) (D : Directory) (answers : List UInt8) (bs : List (Block UInt32)),
    d.Holds S ∧ S.DirectoryAt address D ∧ D.refs.Nodup ∧
      Trace.Permitted (RefOp.step n address) (fun d op => op.Supplied n address d) d
        [.remove 1, .add 25] ∧
      Trace.run (RefOp.step n address) d [.remove 1, .add 25] = some (answers, d') ∧
      Directory.Held smallGeometry address d' bs ∧ ¬(elems bs).Nodup := by
  obtain ⟨d, S, address, D, hd, hdir, hblocks⟩ := exists_fullDirectory
  have hset : D.refs.Nodup := by
    rw [Directory.refs, hblocks]
    decide
  obtain ⟨hsupplied, answers, d', hrun, hd'⟩ := RefOp.run_settled (n := 0) (.remove 1) (.add 25)
    ⟨S, D, hd, hdir, hblocks⟩ (fun _ h => by cases h) fun x h => by
      cases h
      decide
  exact ⟨0, address, d, d', S, D, answers, _, hd, hdir, hset, hsupplied, hrun, hd', by decide⟩

end AvrKernel.BaseFS

import AvrKernel.BaseFS.Growth
import AvrKernel.Vfs.Context
import AvrKernel.Vfs.Protection

/-!
# Truncation

`vfs_truncate` reports success for whatever it finds on a device, and does not
look at what became of the resize. When that report is right.
-/

namespace AvrKernel.BaseFS

open Bytes Effect

/-- The first bytes of a content, with zeros behind them if it is too short. -/
def resized (content : List UInt8) (newSize : UInt32) : List UInt8 :=
  content.take newSize.toNat ++ List.replicate (newSize.toNat - content.length) 0

theorem resized_length (content : List UInt8) (newSize : UInt32) :
    (resized content newSize).length = newSize.toNat := by
  rw [resized, List.length_append, List.length_take, List.length_replicate]
  omega

theorem resized_of_length {content : List UInt8} {newSize : UInt32}
    (h : content.length = newSize.toNat) : resized content newSize = content := by
  rw [resized, ← h, List.take_length, Nat.sub_self, List.replicate_zero, List.append_nil]

namespace Device

variable {d d' : Device} {n : Nat} {address newSize : UInt32} {content content' : List UInt8}

/-- The device has a file with a content at an address. -/
def HoldsFile (d : Device) (address : UInt32) (content : List UInt8) : Prop :=
  ∃ (g : FSGeometry) (S : Store g) (file : FSFileHeader) (es : List Extent),
    d.Holds S ∧ S.FileAt address file es ∧ Extent.content es = content

/-- The device has a file at an address, and room for what it lacks to a size. -/
def Fits (d : Device) (n : Nat) (address newSize : UInt32) : Prop :=
  ∃ (g : FSGeometry) (S : Store g) (file : FSFileHeader) (es : List Extent),
    d.Holds S ∧ S.FileAt address file es ∧
      (newSize ≤ file.totalLogicalSize ∨ S.Grows n (newSize - file.totalLogicalSize))

/-- What `fs_file_check` takes for a file at an address is one. -/
def Plain (d : Device) (address : UInt32) : Prop :=
  (∀ n, d.view n (FS.fsFileCheck address) = some false) ∨ ∃ content, d.HoldsFile address content

theorem HoldsFile.check (h : d.HoldsFile address content) (n : Nat) :
    d.view n (FS.fsFileCheck address) = some true := by
  obtain ⟨g, S, file, es, hd, hfile, -⟩ := h
  exact hd.view_check hfile.chain n

theorem HoldsFile.ne_fsNull (h : d.HoldsFile address content) : address ≠ fsNull := by
  obtain ⟨g, S, file, es, -, hfile, -⟩ := h
  obtain ⟨tail, hcell⟩ := hfile.cell
  exact S.ne_fsNull hcell

/-- The stored size is that of the content. -/
theorem HoldsFile.view_size (h : d.HoldsFile address content) (n : Nat) :
    ∃ size : UInt32, d.view n (FS.fsFileGetSize address) = some size ∧
      size.toNat = content.length := by
  obtain ⟨g, S, file, es, hd, hfile, rfl⟩ := h
  exact ⟨_, hd.view_size hfile.chain n, hfile.size⟩

theorem HoldsFile.length_eq (h : d.HoldsFile address content)
    (h' : d.HoldsFile address content') : content'.length = content.length := by
  obtain ⟨size, hview, hsize⟩ := h.view_size 0
  obtain ⟨size', hview', hsize'⟩ := h'.view_size 0
  rw [hview, Option.some_inj] at hview'
  rw [← hsize, ← hsize', hview']

theorem Fits.of_logical (h : d.Fits n address newSize) (hcoherent : d'.Coherent)
    (hlogical : d'.logical = d.logical) : d'.Fits n address newSize := by
  obtain ⟨g, S, file, es, hd, hfile, hroom⟩ := h
  exact ⟨g, S, file, es, hd.of_logical hcoherent hlogical, hfile, hroom⟩

end Device

namespace FS

variable {g : FSGeometry} {n : Nat} {S S' : Store g} {address newSize : UInt32}
  {file : FSFileHeader} {es : List Extent}

/-- Growing that is refused keeps the size. -/
theorem Grown.exists_size {added : List Extent} (hchain : S.ChainAt address file es)
    (hgrown : Grown S S' address es added) :
    ∃ (file' : FSFileHeader) (es' : List Extent), S'.ChainAt address file' es' ∧
      file'.totalLogicalSize = file.totalLogicalSize := by
  obtain ⟨-, file', es', hchain', -⟩ := hgrown.within hchain
  refine ⟨file', es', hchain', ?_⟩
  have hheader : S'.cells address = S.cells address :=
    hgrown.kept _ (List.nodup_cons.mp hgrown.nodup).1
  obtain ⟨tail, hcell⟩ := hchain.cell
  obtain ⟨tail', hcell'⟩ := hchain'.cell
  rw [hheader, hcell, Option.some_inj] at hcell'
  have hencoded : FSFileHeader.layout.encode file = FSFileHeader.layout.encode file' :=
    (List.append_inj hcell' (by simp only [FSFileHeader.layout.encode_length])).1
  rw [← FSFileHeader.layout.decode_encode_self file', ← hencoded,
    FSFileHeader.layout.decode_encode_self]

/-- `fs_file_resize` gives a file the size if there is room, and else keeps the old size. -/
theorem ensures_resizeFile (hn : 2 ^ 32 ≤ n) (hfile : S.FileAt address file es)
    (newSize : UInt32) :
    (world g n (fun _ _ => True) fun _ _ => True).Ensures (fsFileResize address newSize) S
      fun ok S' =>
        (ok = true ↔
          newSize ≤ file.totalLogicalSize ∨ S.Grows n (newSize - file.totalLogicalSize)) ∧
        (ok = true → ∃ (file' : FSFileHeader) (es' : List Extent), S'.FileAt address file' es' ∧
          Extent.content es' = resized (Extent.content es) newSize) ∧
        (ok = false → ∃ (file' : FSFileHeader) (es' : List Extent), S'.ChainAt address file' es' ∧
          file'.totalLogicalSize = file.totalLogicalSize) := by
  have hsize := hfile.size
  have hresized {S' : Store g} {file' : FSFileHeader} {es' : List Extent}
      (hchain : S'.ChainAt address file' es') (hnew : file'.totalLogicalSize = newSize)
      (hcontent : Extent.content es' = resized (Extent.content es) newSize) :
      ∃ (file' : FSFileHeader) (es' : List Extent), S'.FileAt address file' es' ∧
        Extent.content es' = resized (Extent.content es) newSize := by
    refine ⟨file', es', hchain.file ?_, hcontent⟩
    rw [hcontent, resized_length, hnew]
  rw [fsFileResize]
  refine Refine.ensures_bind (ensures_check hfile.chain ?_)
  rw [if_pos rfl]
  refine Refine.ensures_bind (ensures_readFile hfile.chain ?_)
  split
  next hsame =>
    have hcontent : Extent.content es = resized (Extent.content es) newSize :=
      (resized_of_length (by rw [← hsame, hsize])).symm
    refine Refine.ensures_ret ⟨?_, fun _ => ⟨file, es, hfile, hcontent⟩, fun h => by cases h⟩
    simp [hsame]
  next hdiffers =>
    split
    next hless =>
      have hle : newSize ≤ file.totalLogicalSize := UInt32.le_of_lt hless
      refine ensures_shrink hn hfile.chain hless fun S' file' es' hchain _ hnew hcontent _ =>
        ⟨by simp [hle], fun _ => hresized hchain hnew ?_, fun h => by cases h⟩
      rw [UInt32.lt_iff_toNat_lt, hsize] at hless
      rw [hcontent, resized, Nat.sub_eq_zero_of_le (Nat.le_of_lt hless), List.replicate_zero,
        List.append_nil]
    next hgreater =>
      have hlow : file.totalLogicalSize < newSize :=
        UInt32.lt_of_le_of_ne (UInt32.not_lt.mp hgreater) hdiffers
      have hnot : ¬newSize ≤ file.totalLogicalSize := UInt32.not_le.mpr hlow
      refine ensures_grow hn hfile.chain hlow (fun _ _ _ => trivial)
        (fun S' file' added hchain _ hnew hzeros _ hfills =>
          ⟨?_, fun _ => hresized hchain hnew ?_, fun h => by cases h⟩)
        fun S' added hgrown _ hfills =>
          ⟨?_, by rintro ⟨⟩, fun _ => hgrown.exists_size hfile.chain⟩
      · simp [Store.Grows, hfills]
      · rw [UInt32.lt_iff_toNat_lt, hsize] at hlow
        rw [Extent.content_append, hzeros, resized, hsize,
          List.take_of_length_le (Nat.le_of_lt hlow)]
      · simp [Store.Grows, hfills, hnot]

end FS

namespace Device

variable {d : Device} {n : Nat} {address newSize : UInt32} {content : List UInt8}

theorem Holds.resizeFile (hn : 2 ^ 32 ≤ n) {g : FSGeometry} {S : Store g} {file : FSFileHeader}
    {es : List Extent} (hd : d.Holds S) (hfile : S.FileAt address file es) (newSize : UInt32) :
    ∃ (ok : Bool) (d' : Device),
      (FS.fsFileResize address newSize).run n Device.handle d = some (ok, d') ∧
      (ok = true ↔
        newSize ≤ file.totalLogicalSize ∨ S.Grows n (newSize - file.totalLogicalSize)) ∧
      (d'.HoldsFile address (resized (Extent.content es) newSize) ↔ ok = true) := by
  obtain ⟨ok, d', S', hrun, hd', hok, hsome, hnone⟩ :=
    hd.run_of_ensures (FS.ensures_resizeFile hn hfile newSize)
  refine ⟨ok, d', hrun, hok, ?_⟩
  cases ok with
  | true =>
      obtain ⟨file', es', hfile', hcontent⟩ := hsome rfl
      exact ⟨fun _ => rfl, fun _ => ⟨g, S', file', es', hd', hfile', hcontent⟩⟩
  | false =>
      obtain ⟨file', es', hchain', hkept⟩ := hnone rfl
      refine ⟨fun hnew => ?_, fun h => by cases h⟩
      -- the size that is stored would have to be both the old and the new one
      obtain ⟨size, hview, hsize⟩ := hnew.view_size n
      rw [hd'.view_size hchain' n, Option.some_inj, hkept] at hview
      rw [← hview, resized_length, UInt32.toNat_inj] at hsize
      exact hok.mpr (.inl (hsize ▸ UInt32.le_refl _))

/-- Resizing a file answers whether there is room, and makes it as large as that. -/
theorem HoldsFile.resize (hn : 2 ^ 32 ≤ n) (h : d.HoldsFile address content) (newSize : UInt32) :
    ∃ (ok : Bool) (d' : Device),
      (FS.fsFileResize address newSize).run n Device.handle d = some (ok, d') ∧
      (d'.HoldsFile address (resized content newSize) ↔ d.Fits n address newSize) := by
  obtain ⟨g, S, file, es, hd, hfile, rfl⟩ := h
  obtain ⟨ok, d', hrun, hok, hheld⟩ := hd.resizeFile hn hfile newSize
  refine ⟨ok, d', hrun, hheld.trans ⟨fun htrue => ?_, ?_⟩⟩
  · exact ⟨g, S, file, es, hd, hfile, hok.mp htrue⟩
  · rintro ⟨g₁, S₁, file₁, es₁, hd₁, hfile₁, hroom⟩
    obtain ⟨ok₁, d₁, hrun₁, hok₁, -⟩ := hd₁.resizeFile hn hfile₁ newSize
    obtain ⟨rfl, -⟩ := Prod.mk.inj (Option.some.inj (hrun.symm.trans hrun₁))
    exact hok₁.mpr hroom

/-- What is no file is not resized. -/
theorem run_resize_of_no_file (hd : d.Sound) (n : Nat) (newSize : UInt32)
    (hnone : d.view n (FS.fsFileCheck address) = some false) :
    ∃ d', (FS.fsFileResize address newSize).run n Device.handle d = some (false, d') ∧
      d'.Coherent ∧ d'.logical = d.logical := by
  rw [hd.run_view (FS.readOnly_fileCheck address), Option.map_eq_some_iff] at hnone
  obtain ⟨⟨valid, d'⟩, hrun, rfl⟩ := hnone
  obtain ⟨hsound, hlogical, -⟩ := hd.run_readOnly (FS.readOnly_fileCheck address) hrun
  refine ⟨d', ?_, hsound.coherent, hlogical⟩
  rw [FS.fsFileResize, Prog.run_bind, hrun]
  rfl

end Device

end AvrKernel.BaseFS

namespace AvrKernel.Vfs

open BaseFS Kernel Effect VfsM

variable {n : Nat} {s s' : VfsState} {T : NodeTree} {path : List UInt8}
  {ctx fileCtx address newSize : UInt32} {content : List UInt8}

/-! ## What a path leads to -/

/-- The context of the device that a path is used on. -/
def contextOf (k : KernelState) (T : NodeTree) (path : List UInt8) : UInt32 :=
  (firstMount k T (path.take 255)).elim 0 T.contextAt

theorem VfsState.Shows.finds_contextOf (hs : s.Shows T) (hne : path ≠ []) {place : Place}
    (hplace : T.resolve (path.take 255) = some place) :
    s.Finds (vfsDeviceGetContext path) (contextOf s.kernel T path) := by
  have hfound := hs.finds_getContext hne hplace
  rw [contextOf]
  revert hfound
  cases firstMount s.kernel T (path.take 255) with
  | some mount => exact id
  | none => exact And.right

/-- The path leads to a file on a device. -/
def LeadsToFile (n : Nat) (s : VfsState) (path : List UInt8) (ctx address : UInt32)
    (content : List UInt8) : Prop :=
  ∃ (walk : PathWalk) (s₁ : VfsState),
    (resolveWalk path).run n VfsState.handle s = some (some walk, s₁) ∧
    walk.inFileSystem = true ∧ walk.ctx = ctx ∧ walk.fsNode = address ∧
    (s.devices ctx).HoldsFile address content

/-- There is a file where the path ends in the tree. -/
def FileOf (s : VfsState) (T : NodeTree) (path : List UInt8) (ctx address : UInt32)
    (content : List UInt8) : Prop :=
  (∃ mount, T.resolve (path.take 255) = some (.inside mount ctx address)) ∧
    (s.devices ctx).HoldsFile address content

theorem FileOf.address_eq (h : FileOf s T path ctx address content) :
    NodeTree.address (T.resolve (path.take 255)) = address := by
  obtain ⟨⟨mount, hplace⟩, -⟩ := h
  rw [hplace]
  rfl

theorem VfsState.Shows.leadsToFile_iff (hs : s.Shows T) (path : List UInt8) :
    ∃ enough, ∀ n ≥ enough, ∀ ctx address content,
      LeadsToFile n s path ctx address content ↔ FileOf s T path ctx address content := by
  obtain ⟨last, ⟨enough, hlast⟩, hagrees⟩ := hs.finds_resolveWalk path
  refine ⟨enough, fun n hn ctx address content => ?_⟩
  obtain ⟨s₁, hrun, -⟩ := hlast n hn s (.refl s)
  cases hplace : T.resolve (path.take 255) with
  | none =>
      rw [hplace] at hagrees
      constructor
      · rintro ⟨walk, s₂, hrun', hin, -, rfl, hheld⟩
        obtain ⟨rfl, -⟩ := Prod.mk.inj (Option.some.inj (hrun.symm.trans hrun'))
        rcases hagrees walk rfl with rfl | ⟨-, hnull, -⟩
        · cases hin
        · exact absurd hnull hheld.ne_fsNull
      · rintro ⟨⟨mount, hsome⟩, -⟩
        rw [hplace] at hsome
        cases hsome
  | some place =>
      rw [hplace] at hagrees
      cases hagrees
      constructor
      · rintro ⟨walk, s₂, hrun', hin, rfl, rfl, hheld⟩
        obtain ⟨hwalk, -⟩ := Prod.mk.inj (Option.some.inj (hrun.symm.trans hrun'))
        obtain rfl := Option.some.inj hwalk
        cases place with
        | knode node => cases hin
        | inside mount ctx node => exact ⟨⟨mount, hplace⟩, hheld⟩
      · rintro ⟨⟨mount, hsome⟩, hheld⟩
        rw [hplace, Option.some_inj] at hsome
        subst hsome
        exact ⟨_, s₁, hrun, rfl, rfl, rfl, hheld⟩

/-! ## The call -/

/-- The device and the address that `vfs_truncate` calls `fs_file_resize` with. -/
structure Targets (s : VfsState) (T : NodeTree) (path : List UInt8) (ctx address : UInt32) :
    Prop where
  nonempty : path ≠ []
  noSpace : path.head? ≠ some space
  address_eq : NodeTree.address (T.resolve (path.take 255)) = address
  somewhere : isNowhere address = false
  ctx_eq : contextOf s.kernel T path = ctx
  onDevice : ctx ≠ 0

theorem Targets.exists_place (h : Targets s T path ctx address) :
    ∃ place, T.resolve (path.take 255) = some place := by
  cases hplace : T.resolve (path.take 255) with
  | some place => exact ⟨place, rfl⟩
  | none =>
      have haddress := h.address_eq
      rw [hplace] at haddress
      subst haddress
      have hsomewhere := h.somewhere
      contradiction

/-- A call that has a device resizes what it has there, and reports success. -/
theorem VfsState.Shows.run_truncate_of_targets (hs : s.Shows T)
    (h : Targets s T path ctx address) (newSize : UInt32) :
    ∃ enough, ∀ n ≥ enough, ∃ s₂, s.SameNodes s₂ ∧ ∀ resized d,
      (FS.fsFileResize address newSize).run n Device.handle (s₂.devices ctx) = some (resized, d) →
        (doTruncate path newSize).run n VfsState.handle s = some (true, s₂.setDevice ctx d) := by
  obtain ⟨place, hplace⟩ := h.exists_place
  obtain ⟨enough, hresolve⟩ := hs.finds_resolve h.nonempty
  obtain ⟨enough', hcontext⟩ := hs.finds_contextOf h.nonempty hplace
  rw [h.address_eq] at hresolve
  rw [h.ctx_eq] at hcontext
  refine ⟨max enough enough', fun n hn => ?_⟩
  obtain ⟨hn, hn'⟩ := Nat.max_le.mp hn
  obtain ⟨s₁, hrun₁, hs₁⟩ := hresolve n hn s (.refl s)
  obtain ⟨s₂, hrun₂, hs₂⟩ := hcontext n hn' s₁ hs₁
  refine ⟨s₂, hs₂, fun resized d hresize => ?_⟩
  rw [doTruncate, if_neg (not_or.mpr ⟨h.nonempty, h.noSpace⟩), Prog.run_bind, hrun₁,
    Option.bind_some]
  dsimp only
  rw [h.somewhere, if_neg Bool.false_ne_true, Prog.run_bind, hrun₂, Option.bind_some]
  dsimp only
  rw [if_pos h.onDevice, Prog.run_bind, run_device, hresize]
  rfl

/-- Any other call fails, and changes nothing. -/
theorem VfsState.Shows.finds_truncate_of_not_targets (hs : s.Shows T)
    (h : ∀ ctx address, ¬Targets s T path ctx address) (newSize : UInt32) :
    s.Finds (doTruncate path newSize) false := by
  rw [doTruncate]
  by_cases hpath : path = [] ∨ path.head? = some space
  · rw [if_pos hpath]
    exact .ret _
  · rw [if_neg hpath]
    obtain ⟨hne, hspace⟩ := not_or.mp hpath
    refine (hs.finds_resolve hne).bind ?_
    cases hnowhere : isNowhere (NodeTree.address (T.resolve (path.take 255))) with
    | true =>
        rw [if_pos rfl]
        exact .ret _
    | false =>
        rw [if_neg Bool.false_ne_true]
        cases hplace : T.resolve (path.take 255) with
        | none =>
            rw [hplace] at hnowhere
            contradiction
        | some place =>
            refine (hs.finds_contextOf hne hplace).bind ?_
            rw [if_neg]
            · exact .ret _
            · intro hdevice
              exact h _ _ ⟨hne, hspace, rfl, hnowhere, rfl, hdevice⟩

/-! ## The report -/

/-- The call returns, true exactly if the path leads to a file that now has the size, with its
first bytes and zeros behind them, and without any change if it returns false. -/
def TruncatesHonestly (n : Nat) (s : VfsState) (path : List UInt8) (newSize : UInt32) : Prop :=
  ∃ ok s', (doTruncate path newSize).run n VfsState.handle s = some (ok, s') ∧
    (ok = true ↔ ∃ ctx address content, LeadsToFile n s path ctx address content ∧
      (s'.devices ctx).HoldsFile address (resized content newSize)) ∧
    (ok = false → s.SameNodes s')

/-- The path ends at a file: one on the device that the call uses, where there is room, or one
elsewhere that has the size already. A call without a device is not for a file of that size. -/
def TruncatesWell (n : Nat) (s : VfsState) (T : NodeTree) (path : List UInt8)
    (newSize : UInt32) : Prop :=
  (∀ ctx address, Targets s T path ctx address →
    ∃ fileCtx content, FileOf s T path fileCtx address content ∧
      if fileCtx = ctx then (s.devices ctx).Fits n address newSize
      else content.length = newSize.toNat) ∧
  ((∀ ctx address, ¬Targets s T path ctx address) →
    ∀ ctx address content, FileOf s T path ctx address content → content.length ≠ newSize.toNat)

theorem VfsState.SameNodes.holdsFile (h : s.SameNodes s')
    (hheld : (s.devices ctx).HoldsFile address content) :
    (s'.devices ctx).HoldsFile address content := by
  obtain ⟨g, S, file, es, hd, hfile, hcontent⟩ := hheld
  exact ⟨g, S, file, es, h.holds hd, hfile, hcontent⟩

/-- A file that nothing happens to has the size if it had it before. -/
theorem VfsState.SameNodes.holdsFile_resized (h : s.SameNodes s')
    (hheld : (s.devices ctx).HoldsFile address content) (newSize : UInt32) :
    (s'.devices ctx).HoldsFile address (resized content newSize) ↔
      content.length = newSize.toNat := by
  have hheld' := h.holdsFile hheld
  refine ⟨fun hnew => ?_, fun hlength => ?_⟩
  · rw [← hheld'.length_eq hnew, resized_length]
  · rwa [resized_of_length hlength]

theorem Targets.unique {ctx' address' : UInt32} (h : Targets s T path ctx address)
    (h' : Targets s T path ctx' address') : ctx' = ctx ∧ address' = address :=
  ⟨h'.ctx_eq.symm.trans h.ctx_eq, h'.address_eq.symm.trans h.address_eq⟩

/-- What the resize of a call leaves of a file at the address, on the same device or elsewhere. -/
theorem VfsState.Shows.exists_resize (hs : s.Shows T) (hn : 2 ^ 32 ≤ n)
    (hplain : (s.devices ctx).Plain address) {s₂ : VfsState} (hsame : s.SameNodes s₂)
    (newSize : UInt32) :
    ∃ ok d, (FS.fsFileResize address newSize).run n Device.handle (s₂.devices ctx) = some (ok, d) ∧
      ∀ fileCtx content, (s.devices fileCtx).HoldsFile address content →
        (((s₂.setDevice ctx d).devices fileCtx).HoldsFile address (resized content newSize) ↔
          if fileCtx = ctx then (s.devices ctx).Fits n address newSize
          else content.length = newSize.toNat) := by
  have hsound := hs.sound ctx
  obtain ⟨hcoherent, hlogical⟩ := hsame.devices ctx hsound.coherent
  have helsewhere (d : Device) (fileCtx : UInt32) (content : List UInt8) (hne : fileCtx ≠ ctx)
      (hheld : (s.devices fileCtx).HoldsFile address content) :
      ((s₂.setDevice ctx d).devices fileCtx).HoldsFile address (resized content newSize) ↔
        content.length = newSize.toNat := by
    rw [VfsState.setDevice_devices_ne hne]
    exact hsame.holdsFile_resized hheld newSize
  rcases hplain with hnone | ⟨content₀, hheld₀⟩
  · have hview : (s₂.devices ctx).view n (FS.fsFileCheck address) = some false := by
      rw [Device.view_of_logical hlogical, hnone n]
    obtain ⟨d, hrun, -⟩ :=
      Device.run_resize_of_no_file (hsound.of_logical hcoherent hlogical) n newSize hview
    refine ⟨false, d, hrun, fun fileCtx content hheld => ?_⟩
    by_cases hctx : fileCtx = ctx
    · subst hctx
      have hcheck := hheld.check n
      rw [hnone n] at hcheck
      cases hcheck
    · rw [if_neg hctx]
      exact helsewhere d fileCtx content hctx hheld
  · obtain ⟨ok, d, hrun, -⟩ := (hsame.holdsFile hheld₀).resize hn newSize
    refine ⟨ok, d, hrun, fun fileCtx content hheld => ?_⟩
    by_cases hctx : fileCtx = ctx
    · subst hctx
      obtain ⟨ok', d', hrun', hresized⟩ := (hsame.holdsFile hheld).resize hn newSize
      obtain ⟨-, rfl⟩ := Prod.mk.inj (Option.some.inj (hrun.symm.trans hrun'))
      rw [if_pos rfl, VfsState.setDevice_devices, hresized]
      exact ⟨fun hfits => hfits.of_logical hsound.coherent hlogical.symm,
        fun hfits => hfits.of_logical hcoherent hlogical⟩
    · rw [if_neg hctx]
      exact helsewhere d fileCtx content hctx hheld

/-- The report of `vfs_truncate` is right exactly for paths to files that can have the size. -/
theorem truncate_honest_iff (hs : s.Shows T) (path : List UInt8) (newSize : UInt32)
    (hplain : ∀ ctx address, Targets s T path ctx address → (s.devices ctx).Plain address) :
    ∃ enough, ∀ n ≥ enough,
      TruncatesHonestly n s path newSize ↔ TruncatesWell n s T path newSize := by
  obtain ⟨enough, hleads⟩ := hs.leadsToFile_iff path
  by_cases htargets : ∃ ctx address, Targets s T path ctx address
  · obtain ⟨ctx, address, h⟩ := htargets
    obtain ⟨enough', hcalls⟩ := hs.run_truncate_of_targets h newSize
    refine ⟨max (2 ^ 32) (max enough enough'), fun n hn => ?_⟩
    simp only [ge_iff_le, max_le_iff] at hn
    obtain ⟨s₂, hsame, hcall⟩ := hcalls n hn.2.2
    obtain ⟨ok, d, hresize, hfile⟩ := hs.exists_resize hn.1 (hplain ctx address h) hsame newSize
    have hrun := hcall ok d hresize
    constructor
    · rintro ⟨ok', s', hrun', hreport, -⟩
      obtain ⟨rfl, rfl⟩ := Prod.mk.inj (Option.some.inj (hrun.symm.trans hrun'))
      obtain ⟨fileCtx, address', content, hlead, hheld⟩ := hreport.mp rfl
      have hof := (hleads n hn.2.1 _ _ _).mp hlead
      obtain rfl : address = address' := h.address_eq.symm.trans hof.address_eq
      refine ⟨fun ctx' address' h' => ?_, fun hno => absurd h (hno ctx address)⟩
      obtain ⟨rfl, rfl⟩ := h.unique h'
      exact ⟨fileCtx, content, hof, (hfile fileCtx content hof.2).mp hheld⟩
    · rintro ⟨hwell, -⟩
      obtain ⟨fileCtx, content, hof, hroom⟩ := hwell ctx address h
      refine ⟨true, _, hrun, ⟨fun _ => ?_, fun _ => rfl⟩, nofun⟩
      exact ⟨fileCtx, address, content, (hleads n hn.2.1 _ _ _).mpr hof,
        (hfile fileCtx content hof.2).mpr hroom⟩
  · have hnone : ∀ ctx address, ¬Targets s T path ctx address := fun ctx address h =>
      htargets ⟨ctx, address, h⟩
    obtain ⟨enough', hfinds⟩ := hs.finds_truncate_of_not_targets hnone newSize
    refine ⟨max enough enough', fun n hn => ?_⟩
    obtain ⟨hn, hn'⟩ := Nat.max_le.mp hn
    obtain ⟨s', hrun, hsame⟩ := hfinds n hn' s (.refl s)
    constructor
    · rintro ⟨ok', s₁, hrun', hreport, -⟩
      obtain ⟨rfl, rfl⟩ := Prod.mk.inj (Option.some.inj (hrun.symm.trans hrun'))
      refine ⟨fun ctx address h => absurd h (hnone ctx address),
        fun _ ctx address content hof heq => ?_⟩
      have hheld := hsame.holdsFile_resized hof.2 newSize
      exact absurd (hreport.mpr ⟨ctx, address, content, (hleads n hn _ _ _).mpr hof, hheld.mpr heq⟩)
        Bool.false_ne_true
    · rintro ⟨-, hwell⟩
      refine ⟨false, s', hrun, ⟨nofun, ?_⟩, fun _ => hsame⟩
      rintro ⟨ctx, address, content, hlead, hheld⟩
      have hof := (hleads n hn _ _ _).mp hlead
      exact absurd ((hsame.holdsFile_resized hof.2 newSize).mp hheld)
        (hwell hnone ctx address content hof)

/-- The path `/mnt/ata0/f`. -/
def mountedFile : List UInt8 :=
  [0x2F, 0x6D, 0x6E, 0x74, 0x2F, 0x61, 0x74, 0x61, 0x30, 0x2F, 0x66]

/-- Cutting the file of the volume from 128 bytes in two extents to 40. -/
theorem truncate_honest_iff_stocked : ∃ (s : VfsState) (enough : Nat), VfsState.stocked = some s ∧
    Targets s stockedTree mountedFile 0x5000 452 ∧
    (s.devices 0x5000).HoldsFile 452 (List.replicate 128 0) ∧
    ∀ n ≥ enough, TruncatesHonestly n s mountedFile 40 := by
  obtain ⟨s, g, S, hstocked, hkernel, hs, hd, hstock⟩ := exists_stocked_shows
  have hfirst : firstMount s.kernel stockedTree (mountedFile.take 255) = some 0x1000C0 := by
    rw [hkernel, smallKernel_eq]
    decide +kernel
  have hplace : stockedTree.resolve (mountedFile.take 255) =
    some (.inside 0x1000C0 0x5000 452) := by
    decide
  have htargets : Targets s stockedTree mountedFile 0x5000 452 := by
    refine ⟨by decide, by decide, by rw [hplace]; rfl, by decide, ?_, by decide⟩
    rw [contextOf, hfirst]
    decide
  have hheld : (s.devices 0x5000).HoldsFile 452 (List.replicate 128 0) :=
    ⟨g, S, _, _, hd, hstock.f, by decide⟩
  have honly : ∀ ctx address, Targets s stockedTree mountedFile ctx address →
      ctx = 0x5000 ∧ address = 452 := fun _ _ h => htargets.unique h
  obtain ⟨enough, h⟩ := truncate_honest_iff hs mountedFile 40 fun ctx address h => by
    obtain ⟨rfl, rfl⟩ := honly ctx address h
    exact .inr ⟨_, hheld⟩
  refine ⟨s, enough, hstocked, htargets, hheld, fun n hn => (h n hn).mpr
    ⟨fun ctx address h => ?_, fun hnone => absurd htargets (hnone _ _)⟩⟩
  obtain ⟨rfl, rfl⟩ := honly ctx address h
  refine ⟨0x5000, _, ⟨⟨_, hplace⟩, hheld⟩, ?_⟩
  rw [if_pos rfl]
  exact ⟨g, S, _, _, hd, hstock.f, .inl (by decide)⟩

/-- The empty file `/mnt/ata0/f` of a device with 4096 bytes gets a size of 8000 bytes, as
`vfs_truncate` says, but it stays empty. -/
theorem truncate_not_honest : ∃ s s₀ : VfsState, VfsState.mounted 4 = some s₀ ∧
    (doOpen mountedFile (vfsOpenRead ||| vfsOpenWrite ||| vfsOpenCreate)).run (2 ^ 32)
      VfsState.handle s₀ = some (1, s) ∧
    ¬TruncatesHonestly (2 ^ 32) s mountedFile 8000 := by
  have hrun : ((VfsState.mounted 4).bind fun s₀ => do
      let opened ← (doOpen mountedFile (vfsOpenRead ||| vfsOpenWrite ||| vfsOpenCreate)).run
        (2 ^ 32) VfsState.handle s₀
      let walked ← (resolveWalk mountedFile).run (2 ^ 32) VfsState.handle opened.2
      let changed ← (doTruncate mountedFile 8000).run (2 ^ 32) VfsState.handle opened.2
      let sized ← (FS.fsFileGetSize 260).run (2 ^ 32) Device.handle (changed.2.devices 0x5000)
      return (opened.1, walked.1, changed.1, sized.1)) =
        some (1, some ⟨0x1000C0, 260, true, 0x5000⟩, true, 0) := by
    rw [VfsState.mounted_eq]
    decide +kernel
  simp only [Option.bind_eq_bind, Option.bind_eq_some_iff] at hrun
  obtain ⟨s₀, hs₀, ⟨file, s⟩, hopen, ⟨walk, s₁⟩, hwalk, ⟨ok, s'⟩, htruncate, ⟨size, d⟩, hsize,
    hresult⟩ := hrun
  cases hresult
  refine ⟨s, s₀, hs₀, hopen, ?_⟩
  rintro ⟨ok, s₂, hrun, hreport, -⟩
  obtain ⟨rfl, rfl⟩ := Prod.mk.inj (Option.some.inj (htruncate.symm.trans hrun))
  obtain ⟨ctx, address, content, ⟨walk, s₃, hwalk', -, hctx, haddress, -⟩, hheld⟩ :=
    hreport.mp rfl
  obtain ⟨hplace, -⟩ := Prod.mk.inj (Option.some.inj (hwalk.symm.trans hwalk'))
  obtain rfl := Option.some.inj hplace
  subst hctx haddress
  -- the file would have the new size, but the stored one is 0
  obtain ⟨size, hview, hlength⟩ := hheld.view_size (2 ^ 32)
  obtain ⟨g, S, header, es, hd, -, -⟩ := hheld
  rw [hd.sound.run_view (FS.readOnly_getSize _), hsize] at hview
  obtain rfl := Option.some.inj hview
  rw [resized_length] at hlength
  exact absurd (show 0 = 8000 from hlength) (by decide)

end AvrKernel.Vfs

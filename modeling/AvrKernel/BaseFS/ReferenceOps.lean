import AvrKernel.BaseFS.ReferenceList
import AvrKernel.BaseFS.ByteFile

/-!
# Operations on reference lists

What adding, removing and listing references does, read off the blocks of the
directory. The walks are bounded, and the bound is never reached.
-/

namespace AvrKernel.BaseFS

open Bytes Effect BlockList

/-- `S'` is `S` after an operation on the references of the directory at `address`. -/
structure Store.Relisted {g : FSGeometry} (S S' : Store g) (address : UInt32)
    (D D' : Directory) : Prop where
  directory : S'.DirectoryAt address D'
  block : D'.header.block = D.header.block
  parent : D'.header.parent = D.header.parent
  changed : S.Changed S' (D.addresses address) (D'.addresses address)

/-- The name that a file or a directory has. -/
def FSBlockHeader.chars (block : FSBlockHeader) : List UInt8 :=
  (block.name.toList.take (fsNameLengthMax - 1)).takeWhile (· ≠ 0)

/-- The allocation at `address` starts with a block header that has the name. -/
def Store.HasName {g : FSGeometry} (S : Store g) (address : UInt32) (name : List UInt8) : Prop :=
  ∃ (block : FSBlockHeader) (rest : List UInt8),
    S.cells address = some (FSBlockHeader.layout.encode block ++ rest) ∧ block.chars = name

theorem Store.DirectoryAt.hasName {g : FSGeometry} {S : Store g} {address : UInt32} {D : Directory}
    (h : S.DirectoryAt address D) : S.HasName address D.header.block.chars :=
  ⟨D.header.block, _, h.cell.trans (congrArg some (List.append_assoc
    (FSBlockHeader.layout.encode D.header.block) _ _)), rfl⟩

theorem Store.FileAt.hasName {g : FSGeometry} {S : Store g} {address : UInt32}
    {file : FSFileHeader} {es : List Extent} (h : S.FileAt address file es) :
    S.HasName address file.block.chars := by
  obtain ⟨tail, hcell⟩ := h.cell
  exact ⟨file.block, _, hcell.trans (congrArg some (List.append_assoc
    (FSBlockHeader.layout.encode file.block) _ _)), rfl⟩

namespace FS

variable {g : FSGeometry} {n : Nat} {A : FSCall → Device → Prop} {B : UInt32 → Device → Prop}
  {S : Store g} {address x : UInt32} {D : Directory} {e : DirExtent} {es : List DirExtent}
  {prev next : UInt32}

/-! ## Adding -/

theorem extent_cell (hcell : S.cells e.address = some (e.bytes prev next)) :
    S.cells e.address = some (FSDirectoryExtent.layout.encode (e.header prev next) ++
      Layout.words ([] ++ e.refs) ++ e.slack) := by
  rw [hcell, DirExtent.bytes, List.nil_append, List.append_assoc]

theorem extent_base : e.address + 12 =
    e.address + .ofNat (FSDirectoryExtent.layout.encode (e.header prev next)).length := by
  rw [FSDirectoryExtent.layout.encode_length]
  rfl

theorem extent_count (hcell : S.cells e.address = some (e.bytes prev next)) :
    (e.header prev next).referenceCount.toNat = e.refs.length := by
  have hlt := S.length_lt hcell
  rw [DirExtent.bytes_length] at hlt
  rw [DirExtent.header, UInt32.toNat_ofNat', Nat.mod_eq_of_lt (by omega)]

theorem ensures_extentPut (hcell : S.cells e.address = some (e.bytes prev next))
    (hroom : 4 ≤ e.slack.length) {α : Type} {rest : FS α} {post : α → Store g → Prop}
    (h : ∀ S' : Store g, S'.cells = Function.update S.cells e.address
      (some ((e.put x).bytes prev next)) → (world g n A B).Ensures rest S' post) :
    (world g n A B).Ensures (do
      writeWord (e.address + 12 + .ofNat e.refs.length * 4) x
      fsDirectoryExtentWrite e.address
        { e.header prev next with referenceCount := .ofNat e.refs.length + 1 }
      rest) S post := by
  rw [DirExtent.bytes, ← List.append_assoc] at hcell
  refine Refine.ensures_bind (ensures_writeFree hcell extent_base hroom fun S₁ hcells₁ => ?_)
  have hheader : ({ e.header prev next with referenceCount := .ofNat e.refs.length + 1 } :
      FSDirectoryExtent) = (e.put x).header prev next := by
    simp only [DirExtent.header, DirExtent.put, Slots.put, List.length_append, UInt32.ofNat_add]
    rfl
  rw [hheader]
  have hcell₁ : S₁.cells e.address = some (FSDirectoryExtent.layout.encode (e.header prev next) ++
      (Layout.words (e.refs ++ [x]) ++ e.slack.drop 4)) := by
    rw [hcells₁, Function.update_self, List.append_assoc]
  refine Refine.ensures_bind (ensures_writeStruct hcell₁ (FSDirectoryExtent.layout.encode_length _)
    fun S' hcells' => h S' ?_)
  rw [hcells', hcells₁, Function.update_idem]
  rfl

/-- The walk of `fs_directory_add_reference` settles the reference in the extents, or ends at
the last one. -/
theorem ensures_addToExtents {walkGuard : Nat} (hchained : S.Chained prev es fsNull)
    (hnodup : (es.map DirExtent.address).Nodup) (hguard : es.length ≤ walkGuard)
    {post : UInt8 ⊕ UInt32 → Store g → Prop}
    (hsame : settle x (es.map fun e => e.block) = some (es.map fun e => e.block) →
      post (.inl 0) S)
    (hput : ∀ (S' : Store g) (es' : List DirExtent),
      settle x (es.map fun e => e.block) = some (es'.map fun e => e.block) →
      (es'.map fun e => e.block) ≠ es.map (fun e => e.block) →
      es'.map DirExtent.address = es.map DirExtent.address → S'.Chained prev es' fsNull →
      (∀ a ∉ es.map DirExtent.address, S'.cells a = S.cells a) → S'.free = S.free →
        post (.inl 0) S')
    (hfull : settle x (es.map fun e => e.block) = none →
      post (.inr (DirExtent.last fsNull es)) S) :
    (world g n A B).Ensures (addToExtents x walkGuard (DirExtent.first es fsNull)) S post := by
  induction es generalizing prev walkGuard with
  | nil =>
      cases walkGuard with
      | zero => exact Refine.ensures_ret (hfull rfl)
      | succ walkGuard =>
          rw [addToExtents, DirExtent.first_nil, if_pos rfl]
          exact Refine.ensures_ret (hfull rfl)
  | cons e es ih =>
      obtain ⟨walkGuard, rfl⟩ := obtain_succ (Nat.lt_of_succ_le hguard)
      have hcell := hchained.1
      obtain ⟨hfresh, hnodup'⟩ := List.nodup_cons.mp hnodup
      rw [List.map_cons, settle] at hsame hput hfull
      rw [addToExtents, DirExtent.first_cons, if_neg (S.ne_fsNull hcell)]
      refine Refine.ensures_bind (ensures_dirExtentRead hcell ?_)
      refine Refine.ensures_bind (ensures_maxRefs hcell ?_ fun max hmax => ?_)
      · rw [DirExtent.bytes_length]
        simp only [UInt32.reduceToNat]
        omega
      rw [extent_count hcell]
      refine Refine.ensures_bind (ensures_findReference (extent_cell hcell) extent_base
        (fun hout => ?_) fun front back hsplit _ => ?_)
      · have hroom : (e.header prev (DirExtent.first es fsNull)).referenceCount < max ↔
            0 < e.block.room := by
          rw [UInt32.lt_iff_toNat_lt, extent_count hcell, hmax, DirExtent.bytes_length,
            Slots.room_pos]
          simp only [UInt32.reduceToNat]
          omega
        have hhere : x ∉ e.block.elems := hout
        rw [if_neg hhere] at hsame hput hfull
        dsimp only
        by_cases hfree : 0 < e.block.room
        · rw [if_pos hfree] at hput
          rw [if_pos (hroom.mpr hfree)]
          refine ensures_extentPut hcell (Slots.room_pos.mp hfree) fun S' hcells =>
            Refine.ensures_ret (hput S' (e.put x :: es) ?_ ?_ rfl ⟨?_, ?_⟩ ?_ ?_)
          · rw [List.map_cons]
            exact congrArg some (congrArg (· :: _) (Slots.block_put _ _).symm)
          · intro heq
            have helems := congrArg (fun bs => (bs.headD ⟨[], 0⟩).elems.length) heq
            simp [DirExtent.put, Slots.put, Slots.block] at helems
          · rw [hcells]
            exact Function.update_self ..
          · exact hchained.2.update hfresh hcells
          · intro a ha
            rw [List.map_cons, List.mem_cons, not_or] at ha
            rw [hcells, Function.update_of_ne ha.1]
          · refine Store.free_update hcell ?_ hcells
            have hlen := Slots.room_pos.mp hfree
            simp only [DirExtent.bytes_length, DirExtent.put, Slots.put, List.length_append,
              List.length_drop, List.length_cons, List.length_nil]
            omega
        · rw [if_neg hfree] at hsame hput hfull
          rw [if_neg fun hlt => hfree (hroom.mp hlt)]
          cases es with
          | nil =>
              rw [DirExtent.header_next, DirExtent.first_nil, if_pos rfl]
              exact Refine.ensures_ret (hfull rfl)
          | cons f es =>
              rw [DirExtent.header_next, DirExtent.first_cons,
                if_neg (S.ne_fsNull hchained.2.1)]
              refine ih hchained.2 hnodup' (Nat.le_of_succ_le_succ hguard)
                (fun h => hsame (by rw [h]; rfl)) ?_ fun h => ?_
              · intro S' es' hsettle hne hmap hchained' hframe hfree'
                refine hput S' (e :: es') (by rw [hsettle]; rfl)
                  (fun heq => hne ?_) ?_ ⟨?_, hchained'⟩
                  ?_ hfree'
                · exact (List.cons.inj heq).2
                · rw [List.map_cons, List.map_cons, hmap]
                · rw [hframe _ hfresh, DirExtent.first_congr hmap]
                  exact hcell
                · exact fun a ha => hframe a fun hmem => ha (List.mem_cons_of_mem _ hmem)
              · have hdone := hfull (by rw [h]; rfl)
                rwa [DirExtent.last_cons, DirExtent.last_cons, ← DirExtent.last_cons f es fsNull]
                  at hdone
      · refine Refine.ensures_ret (hsame ?_)
        rw [if_pos]
        rw [Slots.block, hsplit]
        simp

/-- A new extent has no references and room for twelve. -/
theorem ensures_extentCreate (hserves : S.Serves 60)
    (hgrant : ∀ d : Device, A (.alloc 60) d → B 60 d)
    {post : UInt32 → Store g → Prop}
    (hnone : ∀ d : Device, A (.alloc 60) d → (d.fsAlloc 60).1 = fsNull → S.place 60 = none →
      post fsNull S)
    (hsome : ∀ (S' : Store g) (e : DirExtent), e.refs = [] → e.slack.length = 48 →
      Sized g 60 → S.place 60 = some e.address → S.cells e.address = none →
      S'.cells = Function.update S.cells e.address (some (e.bytes prev fsNull)) →
        post e.address S') :
    (world g n A B).Ensures (fsDirectoryExtentCreate prev 12) S post := by
  refine Refine.ensures_bind
    (ensures_alloc hserves (fun d _ => hgrant d) (fun d hassume hnull hplace => ?_) ?_)
  · rw [if_pos rfl]
    exact Refine.ensures_ret (hnone d hassume hnull hplace)
  · intro S₁ address payload hsize hplace hfresh hlen hcells₁
    have hcell₁ : S₁.cells address = some payload := by rw [hcells₁, Function.update_self]
    rw [if_neg (S₁.ne_fsNull hcell₁)]
    let e : DirExtent := { address, refs := [], slack := payload.drop 12 }
    have htake : (payload.take 12).length = 12 :=
      List.length_take_of_le (by rw [hlen]; decide)
    have hdrop : e.slack.length = 48 := by
      rw [List.length_drop, hlen]
      rfl
    rw [← List.take_append_drop 12 payload] at hcell₁
    have hheader : (⟨⟨fsNull, prev⟩, 0⟩ : FSDirectoryExtent) = e.header prev fsNull := rfl
    rw [hheader]
    refine Refine.ensures_bind (ensures_writeStruct hcell₁ htake fun S' hcells' =>
      Refine.ensures_ret (hsome S' e rfl hdrop hsize hplace hfresh ?_))
    rw [hcells', hcells₁, Function.update_idem]
    rfl

theorem ensures_addFirst {unreadable : UInt8}
    (hcell : S.cells e.address = some (e.bytes prev next)) (hrefs : e.refs = [])
    (hroom : 4 ≤ e.slack.length) {post : UInt8 → Store g → Prop}
    (h : ∀ S' : Store g, S'.cells = Function.update S.cells e.address
      (some ((e.put x).bytes prev next)) → post 0 S') :
    (world g n A B).Ensures (addFirst e.address x unreadable) S post := by
  refine Refine.ensures_bind (ensures_dirExtentRead hcell ?_)
  have hdone : ∀ S' : Store g, S'.cells = Function.update S.cells e.address
      (some ((e.put x).bytes prev next)) → (world g n A B).Ensures (return 0) S' post :=
    fun S' hcells => Refine.ensures_ret (h S' hcells)
  have hput := ensures_extentPut (x := x) hcell hroom hdone
  have hslot : e.address + 12 + .ofNat e.refs.length * 4 = e.address + 12 := by
    rw [hrefs]
    exact UInt32.add_zero _
  have hone : UInt32.ofNat e.refs.length + 1 = 1 := by
    rw [hrefs]
    rfl
  rwa [hslot, hone] at hput

theorem chained_concat (hchained : S.Chained prev es e.address)
    (hcell : S.cells e.address = some (e.bytes (DirExtent.last prev es) next)) :
    S.Chained prev (es ++ [e]) next :=
  Store.chained_append.mpr ⟨hchained, hcell, trivial⟩

theorem relisted_concat {S' : Store g} (hdir : S.DirectoryAt address D)
    (header : FSDirectoryHeader)
    (hcell : S'.cells address = some (FSDirectoryHeader.layout.encode header ++
      (Layout.words D.slots.refs ++ D.slots.slack)))
    (hblock : header.block = D.header.block) (hparent : header.parent = D.header.parent)
    (hcount : header.referenceCount = D.header.referenceCount)
    (hnext : header.extent.next = DirExtent.first (D.extents ++ [e]) fsNull)
    (hchained : S'.Chained address (D.extents ++ [e]) fsNull) (hfresh : S.cells e.address = none)
    (hkept : ∀ a ∉ D.addresses address, a ≠ e.address → S'.cells a = S.cells a) :
    S.Relisted S' address D { D with header, extents := D.extents ++ [e] } := by
  have hout : e.address ∉ D.addresses address := by
    intro hmem
    rcases List.mem_cons.mp hmem with heq | hin
    · exact hdir.held (heq ▸ hfresh)
    · exact hdir.chained.held hin hfresh
  have haddresses : Directory.addresses { D with header, extents := D.extents ++ [e] } address =
      D.addresses address ++ [e.address] := by
    simp [Directory.addresses]
  refine ⟨⟨hcell, hcount.trans hdir.count, hnext, hchained, ?_⟩, hblock, hparent, ?_⟩
  · rw [haddresses]
    exact List.nodup_append'.mpr
      ⟨hdir.nodup, List.nodup_singleton _, by simpa using hout⟩
  · rw [haddresses]
    refine ⟨fun a ha ha' => hkept a ha ?_, fun a ha ha' => ?_, fun a ha ha' => ?_⟩
    · rintro rfl
      exact ha' (by simp)
    · exact absurd (List.mem_append_left _ ha) ha'
    · rw [List.mem_append, List.mem_singleton] at ha
      rw [ha.resolve_left ha', hfresh]

/-- A reference for which there is no room goes to a new extent. -/
theorem ensures_addExtent (hdir : S.DirectoryAt address D)
    (hgrant : ∀ d : Device, A (.alloc 60) d → B 60 d)
    {post : UInt8 → Store g → Prop}
    (hrefused : ∀ (d : Device) (status : UInt8), A (.alloc 60) d → (d.fsAlloc 60).1 = fsNull →
      S.place 60 = none → status ≠ 0 → post status S)
    (hnew : ∀ (S' : Store g) (D' : Directory) (s : Nat), D'.blocks = D.blocks ++ [⟨[x], 11⟩] →
      S.Relisted S' address D D' → S.fit 60 = some s →
      S'.free = FirstFit.occupy S.free s (g.blocksFor 60).toNat → post 0 S') :
    (world g n A B).Ensures (addExtent address x (DirExtent.last fsNull D.extents) D.header) S
      post := by
  have hblocks : ∀ (header : FSDirectoryHeader) (e : DirExtent), e.refs = [] →
      e.slack.length = 48 →
      Directory.blocks { D with header, extents := D.extents ++ [e.put x] } =
        D.blocks ++ [⟨[x], 11⟩] := by
    intro header e hrefs hslack
    have hblock : (e.put x).block = ⟨[x], 11⟩ := by
      simp [DirExtent.put, Slots.put, Slots.block, hrefs, hslack]
    simp [Directory.blocks, hblock]
  have hlen : ∀ (e : DirExtent) (prev : UInt32), e.refs = [] → e.slack.length = 48 →
      (e.bytes prev fsNull).length = (60 : UInt32).toNat := by
    intro e prev hrefs hslack
    simp [hrefs, hslack]
  have hserves : S.Serves 60 := Store.serves_of_held hdir.held (by decide) (by decide)
  rw [addExtent, hdir.next]
  rcases List.eq_nil_or_concat D.extents with hnil | ⟨init, t, hconcat⟩
  · rw [hnil, DirExtent.first_nil, if_pos rfl]
    refine Refine.ensures_bind
      (ensures_extentCreate hserves hgrant (fun d hassume hnull hplace => ?_) ?_)
    · rw [if_pos rfl]
      exact Refine.ensures_ret (hrefused d 4 hassume hnull hplace (by decide))
    · intro S₁ e hrefs hslack hsize hplace hfresh hcells₁
      have hne : e.address ≠ address := fun heq => hdir.held (heq ▸ hfresh)
      have hcell₁ : S₁.cells e.address = some (e.bytes address fsNull) := by
        rw [hcells₁, Function.update_self]
      have hheader₁ : S₁.cells address = some (FSDirectoryHeader.layout.encode D.header ++
          (Layout.words D.slots.refs ++ D.slots.slack)) := by
        rw [hcells₁, Function.update_of_ne hne.symm, hdir.cell]
      let header : FSDirectoryHeader := { D.header with extent.next := e.address }
      rw [if_neg (S₁.ne_fsNull hcell₁)]
      refine Refine.ensures_bind (ensures_writeStruct hheader₁
        (FSDirectoryHeader.layout.encode_length _) fun S₂ hcells₂ => ?_)
      have hcell₂ : S₂.cells e.address = some (e.bytes address fsNull) := by
        rw [hcells₂, Function.update_of_ne hne, hcell₁]
      refine ensures_addFirst hcell₂ hrefs (by omega) fun S₃ hcells₃ => ?_
      obtain ⟨s, hfit, hfree⟩ :=
        Store.free_alloc hsize hplace hfresh (hlen e address hrefs hslack) hcells₁
      refine hnew S₃ { D with header, extents := D.extents ++ [e.put x] } s
        (hblocks header e hrefs hslack)
        (relisted_concat hdir header ?_ rfl rfl rfl ?_ ?_ hfresh ?_) hfit ?_
      · rw [hcells₃, Function.update_of_ne hne.symm, hcells₂, Function.update_self]
      · rw [hnil]
        rfl
      · rw [hnil]
        refine ⟨?_, trivial⟩
        rw [hcells₃]
        exact Function.update_self ..
      · intro a ha (hne' : a ≠ e.address)
        have hne'' : a ≠ address := fun heq => ha (heq ▸ List.mem_cons_self)
        rw [hcells₃, Function.update_of_ne hne', hcells₂, Function.update_of_ne hne'', hcells₁]
        exact Function.update_of_ne hne' ..
      · rw [Store.free_update hcell₂ ?_ hcells₃, Store.free_update hheader₁ ?_ hcells₂, hfree]
        · simp [FSDirectoryHeader.layout.encode_length]
        · simp only [DirExtent.bytes_length, DirExtent.put, Slots.put, List.length_append,
            List.length_drop, List.length_cons, List.length_nil]
          omega
  · rw [List.concat_eq_append] at hconcat
    have hchained := hdir.chained
    rw [hconcat] at hchained
    obtain ⟨hinit, htail, -⟩ := Store.chained_append.mp hchained
    rw [DirExtent.first_nil] at htail
    have hnext : DirExtent.first D.extents fsNull ≠ fsNull := by
      rw [Ne, hdir.chained.first_eq_fsNull, hconcat]
      simp
    have hlast : DirExtent.last fsNull D.extents = t.address := by
      rw [hconcat, DirExtent.last, List.getLast?_concat]
      rfl
    rw [if_neg hnext, hlast]
    refine Refine.ensures_bind (ensures_dirExtentRead htail ?_)
    refine Refine.ensures_bind
      (ensures_extentCreate hserves hgrant (fun d hassume hnull hplace => ?_) ?_)
    · rw [if_pos rfl]
      exact Refine.ensures_ret (hrefused d 7 hassume hnull hplace (by decide))
    · intro S₁ e hrefs hslack hsize hplace hfresh hcells₁
      have hcell₁ : S₁.cells e.address = some (e.bytes t.address fsNull) := by
        rw [hcells₁, Function.update_self]
      have hmem : t.address ∈ D.extents.map DirExtent.address := by
        rw [hconcat]
        simp
      have hne : e.address ≠ t.address := fun heq => hdir.chained.held hmem (heq ▸ hfresh)
      have hnotHeader : e.address ≠ address := fun heq => hdir.held (heq ▸ hfresh)
      have htail₁ : S₁.cells t.address = some (t.bytes (DirExtent.last address init) fsNull) := by
        rw [hcells₁, Function.update_of_ne hne.symm, htail]
      have hrelink : ({ t.header (DirExtent.last address init) fsNull with
          extent.next := e.address } : FSDirectoryExtent) =
            t.header (DirExtent.last address init) e.address := rfl
      rw [if_neg (S₁.ne_fsNull hcell₁), hrelink]
      refine Refine.ensures_bind (ensures_writeStruct htail₁
        (FSDirectoryExtent.layout.encode_length _) fun S₂ hcells₂ => ?_)
      have hcell₂ : S₂.cells e.address = some (e.bytes t.address fsNull) := by
        rw [hcells₂, Function.update_of_ne hne, hcell₁]
      refine ensures_addFirst hcell₂ hrefs (by omega) fun S₃ hcells₃ => ?_
      obtain ⟨s, hfit, hfree⟩ :=
        Store.free_alloc hsize hplace hfresh (hlen e t.address hrefs hslack) hcells₁
      have hdistinct : t.address ∉ init.map DirExtent.address := by
        have hnodup := hdir.nodup_extents
        rw [hconcat, List.map_append, List.nodup_append'] at hnodup
        exact fun hin => hnodup.2.2 hin (by simp)
      have hnotInit : e.address ∉ init.map DirExtent.address := fun hin => hinit.held hin hfresh
      have hkept : ∀ a, a ≠ e.address → a ≠ t.address → S₃.cells a = S.cells a := by
        intro a hne₁ hne₂
        rw [hcells₃, Function.update_of_ne hne₁, hcells₂, Function.update_of_ne hne₂, hcells₁]
        exact Function.update_of_ne hne₁ ..
      refine hnew S₃ { D with extents := D.extents ++ [e.put x] } s
        (hblocks D.header e hrefs hslack)
        (relisted_concat hdir D.header ?_ rfl rfl rfl ?_ ?_ hfresh ?_) hfit ?_
      · rw [hkept address hnotHeader.symm fun heq => hdir.not_mem_extents (heq ▸ hmem), hdir.cell]
      · rw [hdir.next, hconcat]
        cases init <;> rfl
      · rw [hconcat]
        refine chained_concat (chained_concat (hinit.frame fun f hf => ?_) ?_) ?_
        · exact hkept _ (fun heq => hnotInit (heq ▸ List.mem_map_of_mem hf))
            fun heq => hdistinct (heq ▸ List.mem_map_of_mem hf)
        · rw [hcells₃, Function.update_of_ne hne.symm, hcells₂]
          exact Function.update_self ..
        · rw [hcells₃, DirExtent.last, List.getLast?_concat]
          exact Function.update_self ..
      · exact fun a ha hne' => hkept a hne' fun heq => ha (heq ▸ List.mem_cons_of_mem _ hmem)
      · rw [Store.free_update hcell₂ ?_ hcells₃, Store.free_update htail₁ ?_ hcells₂, hfree]
        · simp [FSDirectoryExtent.layout.encode_length, Nat.add_assoc]
        · simp only [DirExtent.bytes_length, DirExtent.put, Slots.put, List.length_append,
            List.length_drop, List.length_cons, List.length_nil]
          omega

theorem header_cell (hdir : S.DirectoryAt address D) :
    S.cells address = some (FSDirectoryHeader.layout.encode D.header ++
      Layout.words ([] ++ D.slots.refs) ++ D.slots.slack) := by
  rw [hdir.cell, List.nil_append, List.append_assoc]

theorem header_base (header : FSDirectoryHeader) : address + 48 =
    address + .ofNat (FSDirectoryHeader.layout.encode header).length := by
  rw [FSDirectoryHeader.layout.encode_length]
  rfl

theorem header_count (hdir : S.DirectoryAt address D) :
    D.header.referenceCount.toNat = D.slots.refs.length := by
  have hlt := hdir.refs_lt
  rw [hdir.count, UInt32.toNat_ofNat', Nat.mod_eq_of_lt (by omega)]

theorem relisted_header {S' : Store g} (hdir : S.DirectoryAt address D) (slots : Slots)
    (hcells : S'.cells = Function.update S.cells address
      (some (FSDirectoryHeader.layout.encode
        { D.header with referenceCount := .ofNat slots.refs.length } ++
          (Layout.words slots.refs ++ slots.slack)))) :
    S.Relisted S' address D
      { D with header.referenceCount := .ofNat slots.refs.length, slots } := by
  refine ⟨⟨?_, rfl, hdir.next, hdir.chained.update hdir.not_mem_extents hcells, hdir.nodup⟩,
    rfl, rfl, .update List.mem_cons_self hcells⟩
  rw [hcells]
  exact Function.update_self ..

/-- `fs_directory_add_reference` adds to the blocks of the directory, or the new extent that
it needs is refused. -/
theorem ensures_addReference (hdir : S.DirectoryAt address D) (hx : x ≠ fsNull)
    (hgrant : settle x D.blocks = none → ∀ d : Device, A (.alloc 60) d → B 60 d)
    {post : UInt8 → Store g → Prop}
    (hsame : settle x D.blocks = some D.blocks → post 0 S)
    (hput : ∀ (S' : Store g) (D' : Directory), settle x D.blocks = some D'.blocks →
      D'.blocks ≠ D.blocks → S.Relisted S' address D D' → S'.free = S.free → post 0 S')
    (hrefused : ∀ (d : Device) (status : UInt8), settle x D.blocks = none → A (.alloc 60) d →
      (d.fsAlloc 60).1 = fsNull → S.place 60 = none → status ≠ 0 → post status S)
    (hnew : ∀ (S' : Store g) (D' : Directory) (s : Nat), settle x D.blocks = none →
      D'.blocks = D.blocks ++ [⟨[x], 11⟩] → S.Relisted S' address D D' → S.fit 60 = some s →
      S'.free = FirstFit.occupy S.free s (g.blocksFor 60).toNat → post 0 S') :
    (world g n A B).Ensures (fsDirectoryAddReference address x) S post := by
  have hcell := header_cell hdir
  have hblocks : D.blocks = D.slots.block :: D.extents.map fun e => e.block := rfl
  rw [fsDirectoryAddReference, if_neg hx]
  refine Refine.ensures_bind (ensures_headerRead hdir.cell ?_)
  refine Refine.ensures_bind (ensures_maxRefs hdir.cell ?_ fun max hmax => ?_)
  · simp only [List.length_append, FSDirectoryHeader.layout.encode_length,
      FSDirectoryHeader.layout_size, UInt32.reduceToNat]
    omega
  rw [header_count hdir]
  refine Refine.ensures_bind (ensures_findReference hcell (header_base _) (fun hout => ?_)
    fun front back hsplit _ => ?_)
  · have hroom : D.header.referenceCount < max ↔ 0 < D.slots.block.room := by
      rw [UInt32.lt_iff_toNat_lt, header_count hdir, hmax, Slots.room_pos]
      simp only [List.length_append, FSDirectoryHeader.layout.encode_length,
        FSDirectoryHeader.layout_size, Layout.words_length, UInt32.reduceToNat]
      omega
    have hhere : x ∉ D.slots.block.elems := hout
    dsimp only
    by_cases hfree : 0 < D.slots.block.room
    · have hsettle : settle x D.blocks = some ((D.slots.put x).block ::
          D.extents.map fun e => e.block) := by
        rw [hblocks, settle, if_neg hhere, if_pos hfree, Slots.block_put]
      rw [if_pos (hroom.mpr hfree), hdir.count]
      refine Refine.ensures_bind (ensures_writeFree (hcell) (header_base _)
        (Slots.room_pos.mp hfree) fun S₁ hcells₁ => ?_)
      have hcell₁ : S₁.cells address = some (FSDirectoryHeader.layout.encode D.header ++
          (Layout.words (D.slots.put x).refs ++ (D.slots.put x).slack)) := by
        rw [hcells₁, Function.update_self, List.append_assoc]
        rfl
      refine Refine.ensures_bind (ensures_writeStruct hcell₁
        (FSDirectoryHeader.layout.encode_length _) fun S' hcells' => Refine.ensures_ret ?_)
      have hcount : UInt32.ofNat D.slots.refs.length + 1 = .ofNat (D.slots.put x).refs.length := by
        rw [Slots.put, List.length_append, UInt32.ofNat_add]
        rfl
      rw [hcells₁, Function.update_idem, hcount] at hcells'
      let D' : Directory :=
        { D with
          header.referenceCount := .ofNat (D.slots.put x).refs.length
          slots := D.slots.put x }
      refine hput S' D' hsettle (fun heq => ?_) (relisted_header hdir _ hcells') ?_
      · have helems := congrArg (fun bs => (bs.headD ⟨[], 0⟩).elems.length) heq
        simp [D', Directory.blocks, Slots.put, Slots.block] at helems
      · refine Store.free_update hdir.cell ?_ hcells'
        have hlen := Slots.room_pos.mp hfree
        simp only [List.length_append, FSDirectoryHeader.layout.encode_length,
          Layout.words_length, Slots.put, List.length_drop, List.length_cons, List.length_nil]
        omega
    · have hsettle : settle x D.blocks =
          (settle x (D.extents.map fun e => e.block)).map (D.slots.block :: ·) := by
        rw [hblocks, settle, if_neg hhere, if_neg hfree]
      rw [if_neg fun hlt => hfree (hroom.mp hlt), hdir.next]
      have hlimit := hdir.length_lt
      refine Refine.ensures_bind (ensures_walkLimit (Nat.zero_lt_of_lt hlimit) ?_)
      refine Refine.ensures_bind (ensures_addToExtents hdir.chained hdir.nodup_extents
        (Nat.le_of_lt hlimit) (fun h => ?_) (fun S' es' h hne hmap hchained hkept hfree' => ?_)
        fun h => ?_)
      · exact Refine.ensures_ret (hsame (by rw [hsettle, h]; rfl))
      · refine Refine.ensures_ret (hput S' { D with extents := es' } (by rw [hsettle, h]; rfl)
          (fun heq => hne (List.cons.inj heq).2) ⟨⟨?_, hdir.count, ?_, hchained, ?_⟩, rfl, rfl, ?_⟩
          hfree')
        · rw [hkept address hdir.not_mem_extents]
          exact hdir.cell
        · rw [hdir.next, DirExtent.first_congr hmap]
        · rw [Directory.addresses, hmap]
          exact hdir.nodup
        · rw [Directory.addresses, Directory.addresses, hmap]
          exact .cons (fun a _ ha _ => hkept a ha) (fun a hin hout' => absurd hin hout')
            fun a hin hout' => absurd hin hout'
      · have hnone : settle x D.blocks = none := by rw [hsettle, h]; rfl
        exact ensures_addExtent hdir (hgrant hnone)
          (fun d status hassume hnull hplace hne =>
            hrefused d status hnone hassume hnull hplace hne)
          fun S' D' s hblocks' hrelisted hfit hfree' =>
            hnew S' D' s hnone hblocks' hrelisted hfit hfree'
  · refine Refine.ensures_ret (hsame ?_)
    rw [hblocks, settle, if_pos]
    rw [Slots.block, hsplit]
    simp

/-! ## Removing -/

/-- The link in front of an extent leads past it. -/
theorem ensures_bypassNext {header : FSDirectoryHeader} {after : List UInt8} {a : UInt32}
    (hcell : S.cells address = some (FSDirectoryHeader.layout.encode header ++ after))
    (hnext : header.extent.next = DirExtent.first es a) (hchained : S.Chained address es a)
    (hnodup : (address :: es.map DirExtent.address).Nodup) {post : Unit → Store g → Prop}
    (h : ∀ S' : Store g,
      S'.cells address = some (FSDirectoryHeader.layout.encode
        { header with extent.next := DirExtent.first es next } ++ after) →
      S'.Chained address es next →
      (∀ b ∉ address :: es.map DirExtent.address, S'.cells b = S.cells b) → post () S') :
    (world g n A B).Ensures (bypassNext address header ⟨next, DirExtent.last address es⟩) S
      post := by
  rcases List.eq_nil_or_concat es with rfl | ⟨init, t, rfl⟩
  · rw [bypassNext, DirExtent.last_nil, if_pos rfl]
    refine ensures_writeStruct hcell (FSDirectoryHeader.layout.encode_length _)
      fun S' hcells => h S' ?_ trivial fun b hb => ?_
    · rw [hcells]
      exact Function.update_self ..
    · rw [hcells, Function.update_of_ne]
      rintro rfl
      exact hb List.mem_cons_self
  · rw [List.concat_eq_append] at *
    obtain ⟨hinit, htail, -⟩ := Store.chained_append.mp hchained
    rw [DirExtent.first_nil] at htail
    have hlast : DirExtent.last address (init ++ [t]) = t.address := by
      rw [DirExtent.last, List.getLast?_concat]
      rfl
    rw [List.map_append, List.nodup_cons, List.nodup_append'] at hnodup
    have hne : t.address ≠ address := fun heq => hnodup.1 (heq ▸ by simp)
    have hdistinct : t.address ∉ init.map DirExtent.address :=
      fun hin => hnodup.2.2.2 hin (by simp)
    rw [bypassNext, hlast, if_neg hne, if_pos (S.ne_fsNull htail)]
    refine Refine.ensures_bind (ensures_dirExtentRead htail ?_)
    refine ensures_writeStruct htail (FSDirectoryExtent.layout.encode_length _)
      fun S' hcells => h S' ?_ ?_ fun b hb => ?_
    · have hsame : ({ header with extent.next := DirExtent.first (init ++ [t]) next } :
          FSDirectoryHeader) = header := by
        have hfirst : DirExtent.first (init ++ [t]) next = header.extent.next := by
          rw [hnext]
          cases init <;> rfl
        rw [hfirst]
      rw [hcells, Function.update_of_ne hne.symm, hsame, hcell]
    · refine chained_concat (hinit.update hdistinct hcells) ?_
      rw [hcells]
      exact Function.update_self ..
    · rw [hcells, Function.update_of_ne]
      rintro rfl
      exact hb (by simp)

/-- The link behind an extent leads back past it. -/
theorem ensures_bypassPrev {a : UInt32} (hchained : S.Chained a es fsNull)
    (hnodup : (es.map DirExtent.address).Nodup) {post : Unit → Store g → Prop}
    (h : ∀ S' : Store g, S'.Chained prev es fsNull →
      (∀ b ∉ es.map DirExtent.address, S'.cells b = S.cells b) → post () S') :
    (world g n A B).Ensures (bypassPrev ⟨DirExtent.first es fsNull, prev⟩) S post := by
  cases es with
  | nil =>
      rw [bypassPrev, if_neg (by simp)]
      exact Refine.ensures_ret (h S trivial fun _ _ => rfl)
  | cons f es =>
      have hfresh := (List.nodup_cons.mp hnodup).1
      rw [bypassPrev, DirExtent.first_cons, if_pos (S.ne_fsNull hchained.1)]
      refine Refine.ensures_bind (ensures_dirExtentRead hchained.1 ?_)
      refine ensures_writeStruct hchained.1 (FSDirectoryExtent.layout.encode_length _)
        fun S' hcells => h S' ⟨?_, hchained.2.update hfresh hcells⟩ fun b hb => ?_
      · rw [hcells]
        exact Function.update_self ..
      · rw [List.map_cons, List.mem_cons, not_or] at hb
        rw [hcells, Function.update_of_ne hb.1]

theorem ensures_unlinkAndFree {header : FSDirectoryHeader} {extent : FSDirectoryExtent}
    {after payload : List UInt8} {a : UInt32} {done rest : List DirExtent}
    (hcell : S.cells address = some (FSDirectoryHeader.layout.encode header ++ after))
    (hnext : header.extent.next = DirExtent.first done a) (hdone : S.Chained address done a)
    (hextent : S.cells a = some (FSDirectoryExtent.layout.encode extent ++ payload))
    (hlinks : extent.extent = ⟨DirExtent.first rest fsNull, DirExtent.last address done⟩)
    (hrest : S.Chained a rest fsNull)
    (hnodup : (address :: (done.map DirExtent.address ++ a :: rest.map DirExtent.address)).Nodup)
    {post : Unit → Store g → Prop}
    (h : ∀ S' : Store g,
      S'.cells address = some (FSDirectoryHeader.layout.encode
        { header with extent.next := DirExtent.first (done ++ rest) fsNull } ++ after) →
      S'.Chained address (done ++ rest) fsNull → S'.cells a = none →
      (∀ b ∉ address :: (done.map DirExtent.address ++ a :: rest.map DirExtent.address),
        S'.cells b = S.cells b) → post () S') :
    (world g n A B).Ensures (fsDirectoryExtentUnlinkAndFree address a) S post := by
  obtain ⟨houter, hinner⟩ := List.nodup_cons.mp hnodup
  rw [List.mem_append, List.mem_cons, not_or, not_or] at houter
  obtain ⟨hdoneNodup, hrestNodup, hapart⟩ := List.nodup_append'.mp hinner
  obtain ⟨haRest, hrestNodup⟩ := List.nodup_cons.mp hrestNodup
  have haDone : a ∉ done.map DirExtent.address := fun hin => hapart hin List.mem_cons_self
  have hdisjoint : ∀ b ∈ done.map DirExtent.address, b ∉ rest.map DirExtent.address :=
    fun b hin hin' => hapart hin (List.mem_cons_of_mem _ hin')
  refine Refine.ensures_bind (ensures_headerRead hcell ?_)
  refine Refine.ensures_bind (ensures_dirExtentRead hextent ?_)
  dsimp only
  rw [hlinks]
  refine Refine.ensures_bind (ensures_bypassNext hcell hnext hdone
    (List.nodup_cons.mpr ⟨houter.1, hdoneNodup⟩) fun S₁ hcell₁ hdone₁ hkept₁ => ?_)
  have hrest₁ : S₁.Chained a rest fsNull := by
    refine hrest.frame fun f hf => hkept₁ _ ?_
    have hin := List.mem_map_of_mem (f := DirExtent.address) hf
    rw [List.mem_cons, not_or]
    exact ⟨fun heq => houter.2.2 (heq ▸ hin), fun hin' => hdisjoint _ hin' hin⟩
  refine Refine.ensures_bind (ensures_bypassPrev hrest₁ hrestNodup fun S₂ hrest₂ hkept₂ => ?_)
  have ha₂ : S₂.cells a = some (FSDirectoryExtent.layout.encode extent ++ payload) := by
    rw [hkept₂ a haRest, hkept₁ a fun hin => ?_, hextent]
    rcases List.mem_cons.mp hin with heq | hin'
    · exact houter.2.1 heq.symm
    · exact haDone hin'
  refine ensures_free ha₂ fun S' hcells' => h S' ?_ ?_ ?_ fun b hb => ?_
  · rw [hcells', Function.update_of_ne houter.2.1, hkept₂ address houter.2.2, hcell₁,
      DirExtent.first_append]
  · refine Store.chained_append.mpr ⟨(hdone₁.frame fun f hf => ?_).update haDone hcells',
      hrest₂.update haRest hcells'⟩
    exact hkept₂ _ (hdisjoint _ (List.mem_map_of_mem hf))
  · rw [hcells', Function.update_self]
  · rw [List.mem_cons, List.mem_append, List.mem_cons, not_or, not_or, not_or] at hb
    rw [hcells', Function.update_of_ne hb.2.2.1, hkept₂ b hb.2.2.2, hkept₁ b]
    rw [List.mem_cons, not_or]
    exact ⟨hb.1, hb.2.1⟩

theorem count_sub_one (hmem : x ∈ e.refs) :
    UInt32.ofNat e.refs.length - 1 = .ofNat (e.refs.erase x).length := by
  have hpos := List.length_pos_of_mem hmem
  rw [List.length_erase_of_mem hmem]
  conv_lhs => rw [← Nat.sub_add_cancel hpos, UInt32.ofNat_add]
  exact UInt32.add_sub_cancel _ _

/-- The walk of `fs_directory_remove_reference` withdraws the reference from the extents. -/
theorem ensures_removeFromExtents {done rest : List DirExtent} {walkGuard : Nat}
    (hdir : S.DirectoryAt address D) (hsplit : D.extents = done ++ rest)
    (hpassed : ∀ e ∈ done, x ∉ e.refs) (hslots : x ∉ D.slots.refs)
    (hguard : rest.length ≤ walkGuard) {post : UInt8 → Store g → Prop}
    (hnone : x ∉ elems (rest.map fun e => e.block) → post 4 S)
    (hsome : ∀ S' : Store g, x ∈ elems (rest.map fun e => e.block) →
      S.Relisted S' address D (D.without x) → post 0 S') :
    (world g n A B).Ensures (removeFromExtents address x walkGuard (DirExtent.first rest fsNull)) S
      post := by
  induction rest generalizing done walkGuard with
  | nil =>
      cases walkGuard with
      | zero => exact Refine.ensures_ret (hnone List.not_mem_nil)
      | succ walkGuard =>
          rw [removeFromExtents, DirExtent.first_nil, if_pos rfl]
          exact Refine.ensures_ret (hnone List.not_mem_nil)
  | cons e rest ih =>
      obtain ⟨walkGuard, rfl⟩ := obtain_succ (Nat.lt_of_succ_le hguard)
      have hchained := hdir.chained
      have hnodup := hdir.nodup
      rw [hsplit] at hchained
      rw [Directory.addresses, hsplit, List.map_append, List.map_cons] at hnodup
      obtain ⟨hdone, hcell, hrest⟩ := Store.chained_append.mp hchained
      obtain ⟨houter, hinner⟩ := List.nodup_cons.mp hnodup
      obtain ⟨-, hrestNodup, hapart⟩ := List.nodup_append'.mp hinner
      have heRest := (List.nodup_cons.mp hrestNodup).1
      have heDone : e.address ∉ done.map DirExtent.address :=
        fun hin => hapart hin List.mem_cons_self
      have hne : address ≠ e.address := fun heq => houter (heq ▸ by simp)
      rw [List.map_cons, elems_cons, List.mem_append, Slots.block_elems] at hnone hsome
      rw [removeFromExtents, DirExtent.first_cons, if_neg (S.ne_fsNull hcell)]
      refine Refine.ensures_bind (ensures_dirExtentRead hcell ?_)
      refine Refine.ensures_bind (ensures_removeFrom (extent_cell hcell) extent_base
        (fun hout => ?_) fun hmem S₁ hcells₁ => ?_)
      · have hhere : x ∉ e.refs := hout
        rw [if_neg Bool.false_ne_true]
        have hsplit' : D.extents = (done ++ [e]) ++ rest := by
          rw [hsplit, List.append_assoc]
          rfl
        refine ih hsplit' (fun f hf => ?_) (Nat.le_of_succ_le_succ hguard)
          (fun hrestOut => hnone fun hor => hor.elim hhere hrestOut)
          fun S' hin hrelisted => hsome S' (.inr hin) hrelisted
        rcases List.mem_append.mp hf with hf | hf
        · exact hpassed f hf
        · rwa [List.mem_singleton.mp hf]
      · rw [if_pos rfl]
        have hin : x ∈ e.refs := hmem
        have hwithdraw : DirExtent.withdraw x D.extents =
            done ++ if e.refs.erase x = [] then rest else e.take x :: rest := by
          rw [hsplit, DirExtent.withdraw_append hpassed, DirExtent.withdraw, if_pos hin]
        have hcell₁ : S₁.cells e.address = some (FSDirectoryExtent.layout.encode
            (e.header (DirExtent.last address done) (DirExtent.first rest fsNull)) ++
              (Layout.words (e.take x).refs ++ (e.take x).slack)) := by
          rw [hcells₁, Function.update_self, List.append_assoc]
          rfl
        have hheader₁ : S₁.cells address = some (FSDirectoryHeader.layout.encode D.header ++
            (Layout.words D.slots.refs ++ D.slots.slack)) := by
          rw [hcells₁, Function.update_of_ne hne, hdir.cell]
        have hdone₁ := hdone.update heDone hcells₁
        have hrest₁ := hrest.update heRest hcells₁
        have hcount : (e.header (DirExtent.last address done)
            (DirExtent.first rest fsNull)).referenceCount - 1 =
              .ofNat (e.refs.erase x).length := count_sub_one hin
        rw [hcount]
        have hlt := S.length_lt hcell
        rw [DirExtent.bytes_length] at hlt
        have hlength : (e.refs.erase x).length = e.refs.length - 1 := List.length_erase_of_mem hin
        have hzero : UInt32.ofNat (e.refs.erase x).length = 0 ↔ e.refs.erase x = [] := by
          rw [← UInt32.toNat_inj, UInt32.toNat_ofNat', Nat.mod_eq_of_lt (by omega),
            UInt32.toNat_zero, List.length_eq_zero_iff]
        by_cases hlast : e.refs.erase x = []
        · rw [if_pos (hzero.mpr hlast)]
          have hnext : D.header.extent.next = DirExtent.first done e.address := by
            rw [hdir.next, hsplit, DirExtent.first_append, DirExtent.first_cons]
          refine Refine.ensures_bind (ensures_unlinkAndFree hheader₁ hnext hdone₁ hcell₁ rfl hrest₁
            hnodup fun S' hcell' hchained' hnone' hkept' => Refine.ensures_ret ?_)
          rw [if_pos hlast] at hwithdraw
          have hwithout : D.without x =
              { D with
                header.extent.next := DirExtent.first (done ++ rest) fsNull
                extents := done ++ rest } := by
            rw [Directory.without, if_neg hslots, hwithdraw]
          have haddresses' : (D.without x).addresses address =
              address :: (done.map DirExtent.address ++ rest.map DirExtent.address) := by
            rw [hwithout, Directory.addresses, List.map_append]
          have haddresses : D.addresses address = address ::
              (done.map DirExtent.address ++ e.address :: rest.map DirExtent.address) := by
            rw [Directory.addresses, hsplit, List.map_append, List.map_cons]
          have hsub : (address :: (done.map DirExtent.address ++
              rest.map DirExtent.address)).Sublist (address ::
                (done.map DirExtent.address ++ e.address :: rest.map DirExtent.address)) :=
            ((List.sublist_cons_self _ _).append_left _).cons_cons _
          have hnodup' : ((D.without x).addresses address).Nodup := by
            rw [haddresses']
            exact hsub.nodup hnodup
          refine hsome S' (.inl hin) ⟨?_, by rw [hwithout], by rw [hwithout], ?_⟩
          · rw [hwithout] at hnodup' ⊢
            exact ⟨hcell', hdir.count, rfl, hchained', hnodup'⟩
          · rw [haddresses, haddresses']
            constructor
            · intro b hb _
              rw [hkept' b hb, hcells₁, Function.update_of_ne]
              rintro rfl
              exact hb (by simp)
            · intro b hb hb'
              have heq : b = e.address := by
                simp only [List.mem_cons, List.mem_append, not_or] at hb hb'
                rcases hb with rfl | hin' | rfl | hin'
                · exact absurd rfl hb'.1
                · exact absurd hin' hb'.2.1
                · rfl
                · exact absurd hin' hb'.2.2
              rw [heq, hnone']
            · exact fun b hb hb' => absurd (hsub.subset hb) hb'
        · rw [if_neg fun h => hlast (hzero.mp h)]
          refine Refine.ensures_bind (ensures_writeStruct hcell₁
            (FSDirectoryExtent.layout.encode_length _) fun S' hcells' => Refine.ensures_ret ?_)
          rw [hcells₁, Function.update_idem] at hcells'
          rw [if_neg hlast] at hwithdraw
          have hmap : (done ++ e.take x :: rest).map DirExtent.address =
              D.extents.map DirExtent.address := by
            rw [hsplit, List.map_append, List.map_append]
            rfl
          -- the addresses stay, so the link in the header is the same
          have hwithout : D.without x = { D with extents := done ++ e.take x :: rest } := by
            rw [Directory.without, if_neg hslots, hwithdraw, DirExtent.first_congr hmap,
              ← hdir.next]
          rw [hwithout] at hsome
          refine hsome S' (.inl hin) ⟨⟨?_, hdir.count, ?_, ?_, ?_⟩, rfl, rfl, ?_⟩
          · rw [hcells', Function.update_of_ne hne, hdir.cell]
          · rw [hdir.next, DirExtent.first_congr hmap]
          · refine Store.chained_append.mpr ⟨hdone.update heDone hcells', ?_,
              hrest.update heRest hcells'⟩
            rw [hcells']
            exact Function.update_self ..
          · rw [Directory.addresses, hmap]
            exact hdir.nodup
          · rw [Directory.addresses, Directory.addresses, hmap]
            refine .update (List.mem_cons_of_mem _ ?_) hcells'
            rw [hsplit]
            simp

/-- `fs_directory_remove_reference` leaves the directory without the reference. -/
theorem ensures_removeReference (hdir : S.DirectoryAt address D) (hx : x ≠ fsNull)
    {post : UInt8 → Store g → Prop} (hnone : x ∉ D.refs → post 4 S)
    (hsome : ∀ S' : Store g, x ∈ D.refs → S.Relisted S' address D (D.without x) → post 0 S') :
    (world g n A B).Ensures (fsDirectoryRemoveReference address x) S post := by
  have hrefs : D.refs = D.slots.refs ++ elems (D.extents.map fun e => e.block) := rfl
  rw [hrefs, List.mem_append] at hnone hsome
  rw [fsDirectoryRemoveReference, if_neg hx]
  refine Refine.ensures_bind (ensures_headerRead hdir.cell ?_)
  dsimp only
  rw [hdir.count]
  refine Refine.ensures_bind (ensures_removeFrom (header_cell hdir) (header_base _)
    (fun hout => ?_) fun hmem S₁ hcells₁ => ?_)
  · have hout' : x ∉ D.slots.refs := hout
    have hlimit := hdir.length_lt
    rw [if_neg Bool.false_ne_true, hdir.next]
    refine Refine.ensures_bind (ensures_walkLimit (Nat.zero_lt_of_lt hlimit) ?_)
    exact ensures_removeFromExtents hdir (List.nil_append _).symm
      (fun e he => absurd he List.not_mem_nil) hout' (Nat.le_of_lt hlimit)
      (fun hrestOut => hnone fun hor => hor.elim hout' hrestOut)
      fun S' hin hrelisted => hsome S' (.inr hin) hrelisted
  · have hin : x ∈ D.slots.refs := hmem
    have hcount : UInt32.ofNat D.slots.refs.length - 1 =
        .ofNat (D.slots.take x).refs.length :=
      count_sub_one (e := ⟨D.slots, address⟩) hin
    have hcell₁ : S₁.cells address = some (FSDirectoryHeader.layout.encode D.header ++
        (Layout.words (D.slots.take x).refs ++ (D.slots.take x).slack)) := by
      rw [hcells₁, Function.update_self, List.append_assoc]
      rfl
    rw [if_pos rfl, hcount]
    refine Refine.ensures_bind (ensures_writeStruct hcell₁
      (FSDirectoryHeader.layout.encode_length _) fun S' hcells' => Refine.ensures_ret ?_)
    rw [hcells₁, Function.update_idem] at hcells'
    rw [Directory.without, if_pos hin] at hsome
    exact hsome S' (.inl hin) (relisted_header hdir _ hcells')

/-! ## Listing -/

theorem ensures_countInExtents {walkGuard : Nat} (hchained : S.Chained prev es fsNull)
    (hguard : es.length ≤ walkGuard) {total : UInt32} {post : UInt32 → Store g → Prop}
    (h : post (total + .ofNat (elems (es.map fun e => e.block)).length) S) :
    (world g n A B).Ensures (countInExtents walkGuard (DirExtent.first es fsNull) total) S
      post := by
  induction es generalizing prev walkGuard total with
  | nil =>
      have hsame : total + UInt32.ofNat (elems ([] : List (Block UInt32))).length = total :=
        UInt32.add_zero total
      rw [List.map_nil, hsame] at h
      cases walkGuard with
      | zero => exact Refine.ensures_ret h
      | succ walkGuard =>
          rw [countInExtents, DirExtent.first_nil, if_pos rfl]
          exact Refine.ensures_ret h
  | cons e es ih =>
      obtain ⟨walkGuard, rfl⟩ := obtain_succ (Nat.lt_of_succ_le hguard)
      rw [countInExtents, DirExtent.first_cons, if_neg (S.ne_fsNull hchained.1)]
      refine Refine.ensures_bind (ensures_dirExtentRead hchained.1 ?_)
      refine ih hchained.2 (Nat.le_of_succ_le_succ hguard) ?_
      rw [List.map_cons, elems_cons, List.length_append, UInt32.ofNat_add, ← UInt32.add_assoc] at h
      exact h

/-- The counts of all blocks add up to the number of references. -/
theorem ensures_getReferenceCount (hdir : S.DirectoryAt address D)
    {post : UInt32 → Store g → Prop} (h : post (.ofNat D.refs.length) S) :
    (world g n A B).Ensures (fsDirectoryGetReferenceCount address) S post := by
  have hlimit := hdir.length_lt
  refine Refine.ensures_bind (ensures_headerRead hdir.cell ?_)
  refine Refine.ensures_bind (ensures_walkLimit (Nat.zero_lt_of_lt hlimit) ?_)
  rw [hdir.next]
  refine ensures_countInExtents hdir.chained (Nat.le_of_lt hlimit) ?_
  rw [hdir.count, ← UInt32.ofNat_add, ← List.length_append]
  exact h

theorem ensures_referenceInExtents {walkGuard : Nat} (hchained : S.Chained prev es fsNull)
    (hguard : es.length ≤ walkGuard) {index : UInt32} {post : UInt32 → Store g → Prop}
    (h : post ((elems (es.map fun e => e.block)).getD index.toNat fsNull) S) :
    (world g n A B).Ensures (referenceInExtents walkGuard (DirExtent.first es fsNull) index) S
      post := by
  induction es generalizing prev walkGuard index with
  | nil =>
      cases walkGuard with
      | zero => exact Refine.ensures_ret h
      | succ walkGuard =>
          rw [referenceInExtents, DirExtent.first_nil, if_pos rfl]
          exact Refine.ensures_ret h
  | cons e es ih =>
      obtain ⟨walkGuard, rfl⟩ := obtain_succ (Nat.lt_of_succ_le hguard)
      have hcell := hchained.1
      have hcount := extent_count hcell
      rw [List.map_cons, elems_cons, Slots.block_elems] at h
      rw [referenceInExtents, DirExtent.first_cons, if_neg (S.ne_fsNull hcell)]
      refine Refine.ensures_bind (ensures_dirExtentRead hcell ?_)
      by_cases hlt : index.toNat < e.refs.length
      · have hsplit : e.refs = e.refs.take index.toNat ++ e.refs[index.toNat] ::
            e.refs.drop (index.toNat + 1) := by
          rw [← List.drop_eq_getElem_cons hlt, List.take_append_drop]
        have hindex : index = .ofNat (e.refs.take index.toNat).length := by
          rw [List.length_take_of_le (Nat.le_of_lt hlt), UInt32.ofNat_toNat]
        have hcell' := extent_cell hcell
        rw [List.nil_append, hsplit] at hcell'
        dsimp only
        rw [if_pos (by rwa [UInt32.lt_iff_toNat_lt, hcount])]
        conv in readWord _ => rw [hindex]
        refine ensures_readSlot hcell' extent_base ?_
        rwa [List.getD_append _ _ _ _ hlt, List.getD_eq_getElem _ _ hlt] at h
      · have hle := Nat.le_of_not_lt hlt
        dsimp only
        rw [if_neg (by rwa [UInt32.lt_iff_toNat_lt, hcount])]
        refine ih hchained.2 (Nat.le_of_succ_le_succ hguard) ?_
        rw [List.getD_append_right _ _ _ _ hle] at h
        rw [Mem.toNat_sub_of_le (by rwa [hcount]), hcount]
        exact h

/-- The references are listed in the order of the blocks. -/
theorem ensures_getReference (hdir : S.DirectoryAt address D) {index : UInt32}
    {post : UInt32 → Store g → Prop} (h : post (D.refs.getD index.toNat fsNull) S) :
    (world g n A B).Ensures (fsDirectoryGetReference address index) S post := by
  have hlimit := hdir.length_lt
  have hcount := header_count hdir
  have hrefs : D.refs = D.slots.refs ++ elems (D.extents.map fun e => e.block) := rfl
  rw [hrefs] at h
  refine Refine.ensures_bind (ensures_headerRead hdir.cell ?_)
  by_cases hlt : index.toNat < D.slots.refs.length
  · have hsplit : D.slots.refs = D.slots.refs.take index.toNat ++ D.slots.refs[index.toNat] ::
        D.slots.refs.drop (index.toNat + 1) := by
      rw [← List.drop_eq_getElem_cons hlt, List.take_append_drop]
    have hindex : index = .ofNat (D.slots.refs.take index.toNat).length := by
      rw [List.length_take_of_le (Nat.le_of_lt hlt), UInt32.ofNat_toNat]
    have hcell' := header_cell hdir
    rw [List.nil_append, hsplit] at hcell'
    dsimp only
    rw [if_pos (by rwa [UInt32.lt_iff_toNat_lt, hcount])]
    conv in readWord _ => rw [hindex]
    refine ensures_readSlot hcell' (header_base _) ?_
    rwa [List.getD_append _ _ _ _ hlt, List.getD_eq_getElem _ _ hlt] at h
  · have hle := Nat.le_of_not_lt hlt
    dsimp only
    rw [if_neg (by rwa [UInt32.lt_iff_toNat_lt, hcount]), hdir.next]
    refine Refine.ensures_bind (ensures_walkLimit (Nat.zero_lt_of_lt hlimit) ?_)
    refine ensures_referenceInExtents hdir.chained (Nat.le_of_lt hlimit) ?_
    rw [List.getD_append_right _ _ _ _ hle] at h
    rw [Mem.toNat_sub_of_le (by rwa [hcount]), hcount]
    exact h

/-! ## Names -/

theorem ensures_getName {name : List UInt8} (hname : S.HasName address name)
    {post : Option (List UInt8) → Store g → Prop} (h : post (some name) S) :
    (world g n A B).Ensures (fsFileGetName address) S post := by
  obtain ⟨block, rest, hcell, rfl⟩ := hname
  rw [fsFileGetName, if_neg (S.ne_fsNull hcell)]
  exact Refine.ensures_bind (ensures_readStruct hcell (Refine.ensures_ret h))

end FS

end AvrKernel.BaseFS

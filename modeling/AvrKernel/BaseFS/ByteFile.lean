import AvrKernel.BaseFS.FileContent
import AvrKernel.BaseFS.ReadOnly
import AvrKernel.Lib.Trace

/-!
# Files as byte arrays

A file behaves as an array of bytes with a cursor. The operations on a handle
simulate those of the array, over any sequence of them.
-/

namespace AvrKernel.BaseFS

open Bytes Effect

namespace FS

variable {g : FSGeometry} {n : Nat} {A : FSCall → Device → Prop} {B : UInt32 → Device → Prop}
  {S : Store g}
  {address : UInt32} {file : FSFileHeader} {es : List Extent}

/-! ## Operations on a file -/

theorem ensures_writeFile {S₀ : Store g} (hchain : S₀.ChainAt address file es) {es' : List Extent}
    (file' : FSFileHeader) (hcell : S.cells address = S₀.cells address)
    (hregular : file'.block = file.block) (hnext : file'.extent.next = Extent.link es' fsNull)
    (hlinked : S.Linked es' fsNull) (hnodup : (address :: es'.map Extent.address).Nodup)
    (hsize : file'.totalLogicalSize.toNat ≤ (Extent.content es').length)
    {post : Unit → Store g → Prop}
    (hpost : ∀ S' : Store g, S'.ChainAt address file' es' →
      (∀ a, a ≠ address → S'.cells a = S.cells a) → S'.free = S.free → post () S') :
    (world g n A B).Ensures (writeFile address file') S post := by
  obtain ⟨tail, hold⟩ := hchain.cell
  rw [← hcell] at hold
  refine ensures_writeStruct hold (FSFileHeader.layout.encode_length _) fun S' hcells =>
    hpost S' ⟨⟨tail, by rw [hcells, Function.update_self]⟩, ?_, hnext, ?_, hnodup, hsize⟩ ?_ ?_
  · rw [hregular]
    exact hchain.regular
  · exact hlinked.update (List.nodup_cons.mp hnodup).1 hcells
  · exact fun a hne => by rw [hcells, Function.update_of_ne hne]
  · exact Store.free_update hold (by simp [FSFileHeader.layout.encode_length]) hcells

/-- Shrinking keeps the prefix. -/
theorem ensures_shrink {newSize : UInt32} (hn : 2 ^ 32 ≤ n) (hchain : S.ChainAt address file es)
    (hless : newSize < file.totalLogicalSize) {post : Bool → Store g → Prop}
    (hpost : ∀ (S' : Store g) (file' : FSFileHeader) (es' : List Extent),
      S'.ChainAt address file' es' → file'.block = file.block → file'.totalLogicalSize = newSize →
      Extent.content es' = (Extent.content es).take newSize.toNat →
      S.Reshaped S' address es es' → post true S') :
    (world g n A B).Ensures (shrink address file newSize) S post := by
  have hlength := hchain.length_lt
  have hhigh : newSize.toNat < (Extent.content es).length :=
    Nat.lt_of_lt_of_le (UInt32.lt_iff_toNat_lt.mp hless) hchain.size
  have hcursor : ShrinkCursor.At ⟨0, file.extent.next, address, true⟩ address [] es :=
    ⟨rfl, hchain.next, rfl, rfl⟩
  refine Refine.ensures_bind (Refine.ensures_loop (ensures_shrinkLoop hcursor
    (Nat.lt_of_lt_of_le hlength hn) hchain.linked hchain.nodup_extents hchain.next
    (Nat.zero_le _) hhigh hchain.content_lt (Nat.lt_of_lt_of_le hlength hn) ?_))
  intro S₁ es' hshrunk
  rw [List.nil_append] at hshrunk
  have hout : address ∉ es'.map Extent.address :=
    fun hmem => hchain.not_mem_extents (hshrunk.addresses.subset hmem)
  have hsize : newSize.toNat ≤ (Extent.content es').length := by
    rw [hshrunk.content, List.length_take]
    omega
  let file' : FSFileHeader :=
    { file with extent.next := Extent.link es' fsNull, totalLogicalSize := newSize }
  refine Refine.ensures_bind (ensures_writeFile hchain file' (hshrunk.kept _ hchain.not_mem_extents)
    rfl rfl hshrunk.linked
    (List.nodup_cons.mpr ⟨hout, hshrunk.addresses.sublist.nodup hchain.nodup_extents⟩) hsize
    fun S' hchain' hsame _ =>
      Refine.ensures_ret (hpost S' _ es' hchain' rfl rfl hshrunk.content ?_))
  refine .cons (fun a hne hnot _ => ?_) (fun a hin hnot => ?_) fun a hin hnot => ?_
  · rw [hsame a hne, hshrunk.kept a hnot]
  · rw [hsame a fun heq => hchain.not_mem_extents (heq ▸ hin), hshrunk.dropped a hin hnot]
  · exact absurd (hshrunk.addresses.subset hin) hnot

/-- Growing appends zeros, or ends with a request that is refused. -/
theorem ensures_grow {newSize : UInt32} (hn : 2 ^ 32 ≤ n) (hchain : S.ChainAt address file es)
    (hless : file.totalLogicalSize < newSize)
    (hgrant : ∀ (d : Device) (size : UInt32), A (.alloc size) d → B size d)
    {post : Bool → Store g → Prop}
    (hsome : ∀ (S' : Store g) (file' : FSFileHeader) (added : List Extent),
      S'.ChainAt address file' (es ++ added) → file'.block = file.block →
      file'.totalLogicalSize = newSize →
      Extent.content added = List.replicate (newSize.toNat - file.totalLogicalSize.toNat) 0 →
      S.Reshaped S' address es (es ++ added) →
      fills g n S.free (newSize - file.totalLogicalSize) = (true, added.length) → post true S')
    (hnone : ∀ (S' : Store g) (added : List Extent), Grown S S' address es added →
      (∃ (d : Device) (size : UInt32), A (.alloc size) d ∧ (d.fsAlloc size).1 = fsNull) →
      fills g n S.free (newSize - file.totalLogicalSize) = (false, added.length) →
        post false S') :
    (world g n A B).Ensures (grow address file newSize) S post := by
  have hlow := UInt32.lt_iff_toNat_lt.mp hless
  have hgrowth : (newSize - file.totalLogicalSize).toNat =
      newSize.toNat - file.totalLogicalSize.toNat :=
    Mem.toNat_sub_of_le (Nat.le_of_lt hlow)
  have hfuel := hchain.length_lt
  have hroom := Store.room_lt (S := S)
  have hspare := hchain.size
  rw [grow, hchain.next]
  refine Refine.ensures_bind (Refine.ensures_loop (ensures_tailLoop hchain.linked
    (Nat.lt_of_lt_of_le hfuel hn) ?_))
  rw [Option.or_none]
  refine Refine.ensures_bind (Refine.ensures_loop (ensures_growLoop hn hchain.linked hchain.nodup
    hchain.held hchain.next (Nat.lt_of_lt_of_le hroom hn) hgrant ?_ ?_))
  · intro S₁ added hgrown hzeros hfills
    rw [hgrowth] at hzeros
    have hout := (List.nodup_cons.mp hgrown.nodup).1
    have hsize : newSize.toNat ≤ (Extent.content (es ++ added)).length := by
      rw [Extent.content_append, List.length_append, hzeros, List.length_replicate]
      omega
    let file' : FSFileHeader :=
      { file with extent.next := Extent.link (es ++ added) fsNull, totalLogicalSize := newSize }
    refine Refine.ensures_bind (ensures_writeFile hchain file' (hgrown.kept _ hout) rfl rfl
      hgrown.linked hgrown.nodup hsize fun S' hchain' hsame _ =>
        Refine.ensures_ret (hsome S' _ added hchain' rfl rfl hzeros ?_ hfills))
    refine .cons (fun a hne _ hnot => ?_) (fun a hin hnot => ?_) fun a hin hnot => ?_
    · rw [hsame a hne, hgrown.kept a hnot]
    · exact absurd (by rw [List.map_append]; exact List.mem_append_left _ hin) hnot
    · rw [List.map_append] at hin
      exact hgrown.fresh a ((List.mem_append.mp hin).resolve_left hnot)
  · exact fun S' added hgrown hrefused hfills =>
      Refine.ensures_ret (hnone S' added hgrown hrefused hfills)

/-- Resizing cuts the chain, or appends as many zeros as the size grows by. -/
theorem ensures_resizeChain {newSize : UInt32} (hn : 2 ^ 32 ≤ n)
    (hchain : S.ChainAt address file es)
    (hgrant : ∀ (d : Device) (size : UInt32), A (.alloc size) d → B size d)
    {post : Bool → Store g → Prop}
    (hsome : ∀ (S' : Store g) (file' : FSFileHeader) (es' : List Extent),
      S'.ChainAt address file' es' → file'.block = file.block → file'.totalLogicalSize = newSize →
      Extent.content es' = (if newSize < file.totalLogicalSize
        then (Extent.content es).take newSize.toNat
        else Extent.content es ++
          List.replicate (newSize.toNat - file.totalLogicalSize.toNat) 0) →
      S.Reshaped S' address es es' → post true S')
    (hnone : ∀ (S' : Store g) (added : List Extent), Grown S S' address es added →
      (∃ (d : Device) (size : UInt32), A (.alloc size) d ∧ (d.fsAlloc size).1 = fsNull) →
      fills g n S.free (newSize - file.totalLogicalSize) = (false, added.length) →
        post false S') :
    (world g n A B).Ensures (fsFileResize address newSize) S post := by
  rw [fsFileResize]
  refine Refine.ensures_bind (ensures_check hchain ?_)
  rw [if_pos rfl]
  refine Refine.ensures_bind (ensures_readFile hchain ?_)
  split
  next hsame =>
    refine Refine.ensures_ret (hsome S file es hchain rfl hsame ?_ .refl)
    rw [hsame, if_neg (UInt32.lt_irrefl _), Nat.sub_self, List.replicate_zero, List.append_nil]
  next hdiffers =>
    split
    next hless =>
      refine ensures_shrink hn hchain hless fun S' file' es' hchain' hblock hsize
        hcontent hreshaped =>
        hsome S' file' es' hchain' hblock hsize ?_ hreshaped
      rw [if_pos hless, hcontent]
    next hgreater =>
      have hlow : file.totalLogicalSize < newSize :=
        UInt32.lt_of_le_of_ne (UInt32.not_lt.mp hgreater) hdiffers
      refine ensures_grow hn hchain hlow hgrant
        (fun S' file' added hchain' hblock hsize hzeros hreshaped _ =>
          hsome S' file' _ hchain' hblock hsize ?_ hreshaped) hnone
      rw [if_neg hgreater, Extent.content_append, hzeros]

/-- Resizing keeps the prefix and appends zeros to it. -/
theorem ensures_resize {newSize : UInt32} (hn : 2 ^ 32 ≤ n) (hfile : S.FileAt address file es)
    (hgrant : ∀ (d : Device) (size : UInt32), A (.alloc size) d → B size d)
    {post : Bool → Store g → Prop}
    (hsome : ∀ (S' : Store g) (file' : FSFileHeader) (es' : List Extent),
      S'.FileAt address file' es' → file'.block = file.block →
      Extent.content es' = (Extent.content es).take newSize.toNat ++
        List.replicate (newSize.toNat - (Extent.content es).length) 0 →
      S.Reshaped S' address es es' → post true S')
    (hnone : ∀ (S' : Store g) (added : List Extent), Grown S S' address es added →
      (∃ (d : Device) (size : UInt32), A (.alloc size) d ∧ (d.fsAlloc size).1 = fsNull) →
      fills g n S.free (newSize - file.totalLogicalSize) = (false, added.length) →
        post false S') :
    (world g n A B).Ensures (fsFileResize address newSize) S post := by
  refine ensures_resizeChain hn hfile.chain hgrant
    (fun S' file' es' hchain hblock hsize hcontent hreshaped => ?_) hnone
  simp only [UInt32.lt_iff_toNat_lt, hfile.size] at hcontent
  have hclipped : Extent.content es' = (Extent.content es).take newSize.toNat ++
      List.replicate (newSize.toNat - (Extent.content es).length) 0 := by
    split at hcontent
    next hless =>
      rw [hcontent, Nat.sub_eq_zero_of_le (Nat.le_of_lt hless), List.replicate_zero,
        List.append_nil]
    next hge =>
      rw [hcontent, List.take_of_length_le (Nat.not_lt.mp hge)]
  refine hsome S' file' es' (hchain.file ?_) hblock hclipped hreshaped
  rw [hsize, hclipped, List.length_append, List.length_take, List.length_replicate]
  omega

/-! ## Operations on a handle -/

/-- A handle open for reading and writing the file at `address`. -/
structure OpenAt (handle : FileHandle) (address : UInt32) : Prop where
  address : handle.address = address
  ctx : handle.ctx ≠ 0
  isOpen : handle.isOpen = true
  read : hasFlag handle.mode fsFileModeRead = true
  write : hasFlag handle.mode fsFileModeWrite = true

variable {handle : FileHandle}

theorem ensures_valid (hfile : S.FileAt address file es) (hopen : OpenAt handle address)
    {post : Bool → Store g → Prop} (h : post true S) :
    (world g n A B).Ensures (fsFileStructIsValid handle) S post := by
  rw [fsFileStructIsValid, if_neg (by simp [hopen.ctx, hopen.isOpen]), hopen.address]
  exact ensures_check hfile.chain h

theorem OpenAt.moved (h : OpenAt handle address) (position : UInt32) :
    OpenAt { handle with position } address :=
  ⟨h.address, h.ctx, h.isOpen, h.read, h.write⟩

/-- Reading returns the stored bytes clipped to the size. -/
theorem ensures_read {size : UInt32} (hn : 2 ^ 32 ≤ n) (hfile : S.FileAt address file es)
    (hopen : OpenAt handle address) (hrange : handle.position.toNat + size.toNat < 2 ^ 32)
    {post : UInt32 × List UInt8 × FileHandle → Store g → Prop}
    (hpost : ∀ bytes : List UInt8,
      bytes = ((Extent.content es).drop handle.position.toNat).take size.toNat →
        post (.ofNat bytes.length, bytes,
          { handle with position := handle.position + .ofNat bytes.length }) S) :
    (world g n A B).Ensures (fsFileRead handle size) S post := by
  obtain rfl := hopen.address
  rw [fsFileRead]
  refine Refine.ensures_bind (ensures_valid hfile hopen ?_)
  rw [if_pos rfl, hopen.read, Bool.not_true, if_neg Bool.false_ne_true]
  have hempty : ((Extent.content es).drop handle.position.toNat).take size.toNat = [] →
      post (0, [], handle) S := by
    intro hnil
    have hdone := hpost [] hnil.symm
    rwa [List.length_nil, show UInt32.ofNat 0 = 0 from rfl, UInt32.add_zero] at hdone
  split
  next hzero =>
    exact Refine.ensures_ret (hempty (by rw [hzero, UInt32.toNat_zero, List.take_zero]))
  next hsome =>
    refine Refine.ensures_bind (ensures_getSize hfile.chain ?_)
    split
    next hbehind =>
      rw [ge_iff_le, UInt32.le_iff_toNat_le, hfile.size] at hbehind
      exact Refine.ensures_ret (hempty (by rw [List.drop_of_length_le hbehind, List.take_nil]))
    next hbefore =>
      rw [ge_iff_le, UInt32.le_iff_toNat_le, hfile.size, Nat.not_le] at hbefore
      have hfits := hfile.chain.content_lt
      have hclip : (if handle.position + size > file.totalLogicalSize
          then file.totalLogicalSize - handle.position else size).toNat =
          min size.toNat ((Extent.content es).length - handle.position.toNat) := by
        simp only [gt_iff_lt, UInt32.lt_iff_toNat_lt, Mem.toNat_add_of_lt hrange, hfile.size]
        split
        next hover =>
          rw [Mem.toNat_sub_of_le (by rw [hfile.size]; omega), hfile.size]
          omega
        next hwithin => omega
      generalize (if handle.position + size > file.totalLogicalSize
        then file.totalLogicalSize - handle.position else size) = bytesToRead at hclip ⊢
      refine Refine.ensures_bind (ensures_readFile hfile.chain ?_)
      have hcovered : Transfer.Covered ⟨file.extent.next, 0, handle.position, bytesToRead⟩ es :=
        ⟨hfile.next, by simpa using hfits, .inr ⟨Nat.zero_le _, by
          simp only [UInt32.toNat_zero]
          omega⟩⟩
      refine Refine.ensures_bind (Refine.ensures_loop (ensures_readLoop hfile.linked hcovered
        (Nat.lt_of_lt_of_le hfile.chain.length_lt hn) fun t' hdone => Refine.ensures_ret ?_))
      dsimp only
      rw [List.nil_append, hdone, UInt32.sub_zero]
      simp only [Transfer.pos, UInt32.toNat_zero, Nat.sub_zero]
      have hbytes : ((Extent.content es).drop handle.position.toNat).take bytesToRead.toNat =
          ((Extent.content es).drop handle.position.toNat).take size.toNat := by
        rw [hclip, ← List.length_drop, ← List.take_take, List.take_length]
      have hlength : (((Extent.content es).drop handle.position.toNat).take size.toNat).length =
          bytesToRead.toNat := by
        rw [← hbytes, List.length_take, List.length_drop]
        omega
      have hread := hpost _ rfl
      rw [hlength, UInt32.ofNat_toNat] at hread
      rw [hbytes]
      exact hread

/-- Writing within the file replaces the bytes at the cursor. -/
theorem ensures_writeBytes {source : List UInt8} (hn : 2 ^ 32 ≤ n)
    (hfile : S.FileAt address file es) (hopen : OpenAt handle address)
    (hfit : handle.position.toNat + source.length ≤ (Extent.content es).length)
    {post : UInt32 × FileHandle → Store g → Prop}
    (hpost : ∀ (S' : Store g) (es' : List Extent), S'.FileAt address file es' →
      Extent.content es' = patch (Extent.content es) handle.position.toNat source →
      S.Reshaped S' address es es' →
        post (.ofNat source.length,
          { handle with position := handle.position + .ofNat source.length }) S') :
    (world g n A B).Ensures (writeBytes handle source (.ofNat source.length)) S post := by
  have hfits := hfile.chain.content_lt
  have hlength : (UInt32.ofNat source.length).toNat = source.length := by
    rw [UInt32.toNat_ofNat', Nat.mod_eq_of_lt (by omega)]
  obtain rfl := hopen.address
  rw [writeBytes]
  refine Refine.ensures_bind (ensures_readFile hfile.chain ?_)
  have hcovered : Transfer.Covered
      ⟨file.extent.next, 0, handle.position, .ofNat source.length⟩ es :=
    ⟨hfile.next, by simpa using hfits, .inr ⟨Nat.zero_le _, by
      simp only [UInt32.toNat_zero, hlength]
      omega⟩⟩
  refine Refine.ensures_bind (Refine.ensures_loop (ensures_writeLoop hfile.linked
    hfile.chain.nodup_extents hcovered hlength.symm
      (Nat.lt_of_lt_of_le hfile.chain.length_lt hn) ?_))
  intro t' es' S' hdone hmap hlinked hcontent hframe
  rw [Transfer.pos, UInt32.toNat_zero, Nat.sub_zero] at hcontent
  have hheader := hframe _ hfile.chain.not_mem_extents
  have hfile' : S'.FileAt handle.address file es' := by
    obtain ⟨tail, hcell⟩ := hfile.cell
    refine ⟨⟨tail, hheader.trans hcell⟩, hfile.regular, ?_, hlinked, hmap ▸ hfile.nodup, ?_⟩
    · rw [hfile.next, link_eq_of_map hmap]
    · rw [hcontent, patch_length hfit, hfile.size]
  rw [hdone, UInt32.sub_zero]
  refine Refine.ensures_ret (hpost S' es' hfile' hcontent (.cons ?_ ?_ ?_))
  · exact fun a _ hout _ => hframe a hout
  · exact fun a hin hout => absurd (hmap ▸ hin) hout
  · exact fun a hin hout => absurd (hmap ▸ hin) hout

/-- Writing replaces the bytes at the cursor of the file extended by zeros. -/
theorem ensures_write {source : List UInt8} (hn : 2 ^ 32 ≤ n)
    (hfile : S.FileAt address file es) (hopen : OpenAt handle address)
    (hrange : handle.position.toNat + source.length < 2 ^ 32)
    (hgrant : ∀ (d : Device) (size : UInt32), A (.alloc size) d → B size d)
    {post : UInt32 × FileHandle → Store g → Prop}
    (hsome : ∀ (S' : Store g) (file' : FSFileHeader) (es' : List Extent),
      S'.FileAt address file' es' → file'.block = file.block →
      Extent.content es' = (if source = [] then Extent.content es
        else patch (Extent.content es ++ List.replicate
          (handle.position.toNat + source.length - (Extent.content es).length) 0)
            handle.position.toNat source) →
      S.Reshaped S' address es es' →
        post (.ofNat source.length,
          { handle with position := handle.position + .ofNat source.length }) S')
    (hnone : ∀ (S' : Store g) (added : List Extent), Grown S S' address es added →
      (∃ (d : Device) (size : UInt32), A (.alloc size) d ∧ (d.fsAlloc size).1 = fsNull) →
      fills g n S.free (handle.position + .ofNat source.length - file.totalLogicalSize) =
        (false, added.length) → post (0, handle) S') :
    (world g n A B).Ensures (fsFileWrite handle source (.ofNat source.length)) S post := by
  have hlength : (UInt32.ofNat source.length).toNat = source.length := by
    rw [UInt32.toNat_ofNat', Nat.mod_eq_of_lt (by omega)]
  have hsum : (handle.position + UInt32.ofNat source.length).toNat =
      handle.position.toNat + source.length := Mem.toNat_add_ofNat hrange
  obtain rfl := hopen.address
  rw [fsFileWrite]
  refine Refine.ensures_bind (ensures_valid hfile hopen ?_)
  rw [if_pos rfl, hopen.write, Bool.not_true, if_neg Bool.false_ne_true]
  split
  next hzero =>
    have hnil : source = [] := by
      rw [← List.length_eq_zero_iff, ← hlength, hzero, UInt32.toNat_zero]
    have hdone := hsome S file es hfile rfl (by rw [if_pos hnil]) .refl
    rw [hnil, List.length_nil, show UInt32.ofNat 0 = 0 from rfl, UInt32.add_zero] at hdone
    exact Refine.ensures_ret hdone
  next hpositive =>
    have hne : source ≠ [] := fun hnil => hpositive (by rw [hnil]; rfl)
    refine Refine.ensures_bind (ensures_getSize hfile.chain ?_)
    split
    next hover =>
      rw [gt_iff_lt, UInt32.lt_iff_toNat_lt, hsum, hfile.size] at hover
      refine Refine.ensures_bind (ensures_resize hn hfile hgrant ?_ ?_)
      · intro S₁ file₁ es₁ hfile₁ hblock hcontent₁ hreshaped₁
        rw [hsum, List.take_of_length_le (Nat.le_of_lt hover)] at hcontent₁
        have hlength₁ : (Extent.content es₁).length = handle.position.toNat + source.length := by
          rw [hcontent₁, List.length_append, List.length_replicate]
          omega
        rw [if_pos rfl]
        refine ensures_writeBytes hn hfile₁ hopen (by omega)
          fun S' es' hfile' hcontent' hreshaped' => hsome S' file₁ es' hfile' hblock ?_
            (hreshaped₁.trans hreshaped')
        rw [hcontent', hcontent₁, if_neg hne]
      · intro S' added hgrown hrefused hfills
        rw [if_neg Bool.false_ne_true]
        exact Refine.ensures_ret (hnone S' added hgrown hrefused hfills)
    next hwithin =>
      rw [gt_iff_lt, UInt32.lt_iff_toNat_lt, hsum, hfile.size, Nat.not_lt] at hwithin
      refine ensures_writeBytes hn hfile hopen hwithin fun S' es' hfile' hcontent' hreshaped' =>
        hsome S' file es' hfile' rfl ?_ hreshaped'
      rw [hcontent', if_neg hne, Nat.sub_eq_zero_of_le hwithin, List.replicate_zero,
        List.append_nil]

theorem ensures_seek (hfile : S.FileAt address file es) (hopen : OpenAt handle address)
    (position : UInt32) {post : UInt32 × FileHandle → Store g → Prop}
    (hpost : ∀ position' : UInt32,
      position'.toNat = min position.toNat (Extent.content es).length →
        post (position', { handle with position := position' }) S) :
    (world g n A B).Ensures (fsFileSeek handle position) S post := by
  obtain rfl := hopen.address
  rw [fsFileSeek]
  refine Refine.ensures_bind (ensures_valid hfile hopen ?_)
  rw [if_pos rfl]
  refine Refine.ensures_bind (ensures_getSize hfile.chain (Refine.ensures_ret (hpost _ ?_)))
  simp only [gt_iff_lt, UInt32.lt_iff_toNat_lt, ← hfile.size]
  split <;> omega

/-- Opening a file leaves it alone. -/
theorem ensures_open (hfile : S.FileAt address file es) (ctx : UInt32) (mode : UInt8)
    {post : Option FileHandle → Store g → Prop}
    (hnone : (hasFlag mode fsFileModeRead && !hasFlag file.block.permissions fsPermissionRead) =
        true ∨
      (hasFlag mode fsFileModeWrite && !hasFlag file.block.permissions fsPermissionWrite) = true →
      post none S)
    (hsome : post (some ⟨address,
      if hasFlag mode fsFileModeAppend then file.totalLogicalSize else 0, mode, true, ctx⟩) S) :
    (world g n A B).Ensures (fsFileOpen ctx address mode) S post := by
  rw [fsFileOpen]
  refine Refine.ensures_bind (ensures_check hfile.chain ?_)
  rw [if_pos rfl]
  refine Refine.ensures_bind (ensures_readFile hfile.chain ?_)
  split
  next hread => exact Refine.ensures_ret (hnone (.inl hread))
  next =>
    split
    next hwrite => exact Refine.ensures_ret (hnone (.inr hwrite))
    next =>
      split
      next happend =>
        rw [if_pos happend] at hsome
        exact Refine.ensures_bind (ensures_getSize hfile.chain (Refine.ensures_ret hsome))
      next happend =>
        rw [if_neg happend] at hsome
        exact Refine.ensures_ret hsome

end FS

/-! ## The array of bytes -/

/-- An array of bytes with a cursor. -/
structure ByteFile where
  bytes : List UInt8
  cursor : Nat

inductive FileOp
  | write (source : List UInt8)
  | read (size : UInt32)
  | seek (position : UInt32)
  | resize (newSize : UInt32)

inductive FileAnswer
  | wrote (count : Nat)
  | data (count : Nat) (bytes : List UInt8)
  | position (cursor : Nat)
  | resized (ok : Bool)
  deriving DecidableEq

/-- Writing extends the array by zeros up to the end of what is written. -/
def ByteFile.step (f : ByteFile) : FileOp → FileAnswer × ByteFile
  | .write source =>
      (.wrote source.length,
        { bytes := if source = [] then f.bytes else
            patch (f.bytes ++ List.replicate (f.cursor + source.length - f.bytes.length) 0) f.cursor
              source
          cursor := f.cursor + source.length })
  | .read size =>
      let data := (f.bytes.drop f.cursor).take size.toNat
      (.data data.length data, { f with cursor := f.cursor + data.length })
  | .seek position =>
      let cursor := min position.toNat f.bytes.length
      (.position cursor, { f with cursor })
  | .resize newSize =>
      (.resized true,
        { f with bytes := f.bytes.take newSize.toNat ++
            List.replicate (newSize.toNat - f.bytes.length) 0 })

/-! ## The file -/

/-- A device and a handle on a file of it. -/
structure OpenFile where
  device : Device
  handle : FileHandle

def FileOp.run (handle : FileHandle) : FileOp → FS (FileAnswer × FileHandle)
  | write source => do
      let result ← FS.fsFileWrite handle source (.ofNat source.length)
      return (.wrote result.1.toNat, result.2)
  | read size => do
      let result ← FS.fsFileRead handle size
      return (.data result.1.toNat result.2.1, result.2.2)
  | seek position => do
      let result ← FS.fsFileSeek handle position
      return (.position result.1.toNat, result.2)
  | resize newSize => do
      let ok ← FS.fsFileResize handle.address newSize
      return (.resized ok, handle)

def OpenFile.step (fuel : Nat) (s : OpenFile) (op : FileOp) : Option (FileAnswer × OpenFile) :=
  ((op.run s.handle).run fuel Device.handle s.device).map fun result =>
    (result.1.1, ⟨result.2, result.1.2⟩)

/-- Every allocation of the operation succeeds, and it stays below the largest offset. -/
def FileOp.Allowed (fuel : Nat) (s : OpenFile) (op : FileOp) : Prop :=
  Prog.Calls fuel Device.handle Supplied (op.run s.handle) s.device ∧
    match op with
    | write source => s.handle.position.toNat + source.length < 2 ^ 32
    | read size => s.handle.position.toNat + size.toNat < 2 ^ 32
    | seek _ | resize _ => True

instance FileOp.Allowed.decidable (fuel : Nat) (s : OpenFile) :
    (op : FileOp) → Decidable (op.Allowed fuel s)
  | .write source =>
      inferInstanceAs (Decidable (_ ∧ s.handle.position.toNat + source.length < 2 ^ 32))
  | .read size => inferInstanceAs (Decidable (_ ∧ s.handle.position.toNat + size.toNat < 2 ^ 32))
  | .seek _ | .resize _ => inferInstanceAs (Decidable (_ ∧ True))

/-- The device holds a file with the bytes of `f`, and the handle is at its cursor. -/
def OpenFile.Represents (g : FSGeometry) (address : UInt32) (s : OpenFile) (f : ByteFile) : Prop :=
  ∃ (S : Store g) (file : FSFileHeader) (es : List Extent), s.device.Holds S ∧
    S.FileAt address file es ∧ FS.OpenAt s.handle address ∧ Extent.content es = f.bytes ∧
    s.handle.position.toNat = f.cursor

section Simulation

variable {g : FSGeometry} {n : Nat} {address : UInt32}

/-- An operation on the handle does to the file what it does to the array. -/
theorem FileOp.ensures_run {S : Store g} {file : FSFileHeader} {es : List Extent}
    {handle : FileHandle} (hn : 2 ^ 32 ≤ n) (hfile : S.FileAt address file es)
    (hopen : FS.OpenAt handle address) (op : FileOp)
    (hrange : match op with
      | write source => handle.position.toNat + source.length < 2 ^ 32
      | read size => handle.position.toNat + size.toNat < 2 ^ 32
      | seek _ | resize _ => True) :
    (world g n Supplied fun _ _ => True).Ensures (op.run handle) S fun result S' =>
      result.1 = (ByteFile.step ⟨Extent.content es, handle.position.toNat⟩ op).1 ∧
        ∃ (file' : FSFileHeader) (es' : List Extent), S'.FileAt address file' es' ∧
          FS.OpenAt result.2 address ∧
          ByteFile.mk (Extent.content es') result.2.position.toNat =
            (ByteFile.step ⟨Extent.content es, handle.position.toNat⟩ op).2 := by
  cases op with
  | write source =>
      have hlength : (UInt32.ofNat source.length).toNat = source.length := by
        rw [UInt32.toNat_ofNat', Nat.mod_eq_of_lt (by dsimp only at hrange; omega)]
      refine Refine.ensures_bind (FS.ensures_write hn hfile hopen hrange (fun _ _ _ => trivial)
        (fun S' file' es' hfile' _ hcontent _ => Refine.ensures_ret ?_)
        fun S' added _ hrefused _ => ?_)
      · refine ⟨congrArg FileAnswer.wrote hlength, file', es', hfile', hopen.moved _, ?_⟩
        rw [hcontent, Mem.toNat_add_ofNat hrange]
        rfl
      · obtain ⟨d, size, hsupplied, hnull⟩ := hrefused
        exact absurd hnull hsupplied
  | read size =>
      refine Refine.ensures_bind (FS.ensures_read hn hfile hopen hrange
        fun bytes hbytes => Refine.ensures_ret ?_)
      have hle : bytes.length ≤ size.toNat := by
        rw [hbytes]
        exact List.length_take_le ..
      have hlength : (UInt32.ofNat bytes.length).toNat = bytes.length := by
        rw [UInt32.toNat_ofNat', Nat.mod_eq_of_lt (by dsimp only at hrange; omega)]
      refine ⟨?_, file, es, hfile, hopen.moved _, ?_⟩
      · simp only [hlength, ByteFile.step, ← hbytes]
      · simp only [ByteFile.step, ← hbytes]
        rw [Mem.toNat_add_ofNat (by dsimp only at hrange; omega)]
  | seek position =>
      refine Refine.ensures_bind (FS.ensures_seek hfile hopen position
        fun position' hposition => Refine.ensures_ret ⟨?_, file, es, hfile, hopen.moved _, ?_⟩)
      · simp only [ByteFile.step, hposition]
      · simp only [ByteFile.step, hposition]
  | resize newSize =>
      rw [run, hopen.address]
      refine Refine.ensures_bind (FS.ensures_resize hn hfile (fun _ _ _ => trivial)
        (fun S' file' es' hfile' _ hcontent _ => Refine.ensures_ret ?_)
        fun S' added _ hrefused _ => ?_)
      · refine ⟨rfl, file', es', hfile', hopen, ?_⟩
        rw [hcontent]
        rfl
      · obtain ⟨d, size, hsupplied, hnull⟩ := hrefused
        exact absurd hnull hsupplied

/-- One operation on the handle simulates the one on the array. -/
theorem OpenFile.step_simulates (hn : 2 ^ 32 ≤ n) (s : OpenFile) (f : ByteFile) (op : FileOp)
    (hs : s.Represents g address f) (hallowed : op.Allowed n s) :
    ∃ s', s.step n op = some ((f.step op).1, s') ∧ s'.Represents g address (f.step op).2 := by
  obtain ⟨S, file, es, hd, hfile, hopen, hcontent, hcursor⟩ := hs
  obtain ⟨-, result, d', S', hrun, hd', hanswer, file', es', hfile', hopen', hstep⟩ :=
    FileOp.ensures_run hn hfile hopen op hallowed.2 s.device hd hallowed.1
  have hf : ByteFile.mk (Extent.content es) s.handle.position.toNat = f := by
    rw [hcontent, hcursor]
  rw [hf] at hanswer hstep
  refine ⟨⟨d', result.2⟩, ?_, S', file', es', hd', hfile', hopen', ?_, ?_⟩
  · rw [step, ← hanswer]
    exact congrArg (Option.map _) hrun
  · rw [← hstep]
  · rw [← hstep]

end Simulation

/-- A file behaves as an array of bytes with a cursor: through a handle opened for reading
and writing every sequence of operations returns, with the answers of the array, and leaves a
file with the bytes of the array whose size is the sum of its extents' sizes. -/
theorem file_refines_bytes {g : FSGeometry} {S : Store g} {address ctx : UInt32} {mode : UInt8}
    {file : FSFileHeader} {es : List Extent} {d opened : Device} {handle : FileHandle} {n : Nat}
    (hn : 2 ^ 32 ≤ n) (hd : d.Holds S) (hfile : S.FileAt address file es) (hctx : ctx ≠ 0)
    (hread : hasFlag mode fsFileModeRead = true) (hwrite : hasFlag mode fsFileModeWrite = true)
    (hopen : (FS.fsFileOpen ctx address mode).run n Device.handle d = some (some handle, opened))
    {ops : List FileOp}
    (hallowed : Trace.Permitted (OpenFile.step n) (fun s op => op.Allowed n s) ⟨opened, handle⟩
      ops) :
    ∃ (answers : List FileAnswer) (s : OpenFile) (f : ByteFile),
      Trace.run (OpenFile.step n) ⟨opened, handle⟩ ops = some (answers, s) ∧
      Trace.run (Trace.total ByteFile.step) ⟨Extent.content es, handle.position.toNat⟩ ops =
        some (answers, f) ∧
      s.Represents g address f := by
  have hopened : (world g n (fun _ _ => True) fun _ _ => True).Ensures
    (FS.fsFileOpen ctx address mode) S
      fun result S' => S' = S ∧ ∀ handle, result = some handle →
        ∃ position, handle = ⟨address, position, mode, true, ctx⟩ :=
    FS.ensures_open hfile ctx mode (fun _ => ⟨rfl, fun _ hnone => by cases hnone⟩)
      ⟨rfl, fun _ hsome => ⟨_, (Option.some_inj.mp hsome).symm⟩⟩
  obtain ⟨-, result, d', S', hrun, hd', hresult⟩ :=
    hopened d hd (Prog.Calls.of_forall _ _ (fun _ _ => trivial) _ _)
  have hsame : some (some handle, opened) = some (result, d') := hopen.symm.trans hrun
  rw [Option.some_inj, Prod.mk.injEq] at hsame
  obtain ⟨rfl, rfl⟩ := hsame
  obtain ⟨rfl, hhandle⟩ := hresult
  obtain ⟨position, rfl⟩ := hhandle handle rfl
  have hrepresents : OpenFile.Represents g address ⟨opened, ⟨address, position, mode, true, ctx⟩⟩
      ⟨Extent.content es, position.toNat⟩ :=
    ⟨S', file, es, hd', hfile, ⟨rfl, hctx, rfl, hread, hwrite⟩, rfl, rfl⟩
  exact Trace.run_simulates (OpenFile.step_simulates hn) hrepresents hallowed

/-! ## A file on a formatted device -/

/-- The header of an empty file without a name that may be read and written. -/
def emptyFile : FSFileHeader where
  block := ⟨Device.charArray 16 [], 0, fsPermissionRead ||| fsPermissionWrite,
    Device.charArray 6 [], 0, 0⟩
  totalLogicalSize := 0
  extent := ⟨fsNull, fsNull⟩

abbrev smallGeometry : FSGeometry := .ofPartition .ata (Device.formatPartition 1024 64)

def allocEmptyFile : FS UInt32 := do
  let address ← FS.alloc 44
  FS.writeFile address emptyFile
  return address

/-- A formatted device with sectors of 64 bytes and an empty file behind its reserved blocks. -/
theorem exists_emptyFile_of (capacity : UInt32) {g : FSGeometry}
    (hg : .ofPartition .ata (Device.formatPartition capacity 64) = g)
    (hneed : 0 < (g.blocksFor 44).toNat)
    (hfits : g.reservedBlocks.toNat + (g.blocksFor 44).toNat ≤ g.blockCount.toNat)
    (hsized : Sized g 44) :
    ∃ (d₀ d : Device) (S : Store g) (address : UInt32), freshDevice capacity 64 = some d₀ ∧
      allocEmptyFile.run 0 Device.handle d₀ = some (address, d) ∧
      d.Holds S ∧ S.FileAt address emptyFile [] ∧
      S.free = FirstFit.occupy (fun _ => true) g.reservedBlocks.toNat (g.blocksFor 44).toNat := by
  have hformatted := Store.exists_empty capacity (show 0 < (64 : UInt32).toNat by decide) (by
    have hlt := capacity.toNat_lt
    simp only [UInt32.reduceToNat]
    omega)
  rw [hg] at hformatted
  obtain ⟨d, S, hfresh, hempty, hd⟩ := hformatted
  have hplace := Store.place_empty hempty hneed hfits
  have hmade : (world g 0 (fun _ _ => True) fun _ _ => True).Ensures allocEmptyFile S
      fun address S' => S'.FileAt address emptyFile [] ∧ S'.free =
        FirstFit.occupy (fun _ => true) g.reservedBlocks.toNat (g.blocksFor 44).toNat := by
    refine Refine.ensures_bind (FS.ensures_alloc (.inl hsized) (fun _ _ _ => trivial)
      (fun _ _ _ hnone => by rw [hplace] at hnone; cases hnone) ?_)
    intro S₁ address payload hsized hplace₁ hfresh hlen hcells
    obtain ⟨s, hfit, hfree⟩ := Store.free_alloc hsized hplace₁ hfresh hlen hcells
    obtain rfl := Option.some_inj.mp (hfit.symm.trans (Store.fit_empty hempty hneed hfits))
    have hcell : S₁.cells address = some (payload ++ []) := by
      rw [hcells, Function.update_self, List.append_nil]
    refine Refine.ensures_bind (FS.ensures_writeStruct hcell hlen fun S' hcells' =>
      Refine.ensures_ret ⟨⟨⟨[], ?_⟩, rfl, rfl, trivial, by simp, rfl⟩, ?_⟩)
    · rw [hcells', Function.update_self]
    · rw [Store.free_update hcell ?_ hcells', hfree, Store.free_empty hempty]
      simp [FSFileHeader.layout.encode_length, hlen]
  obtain ⟨-, address, d', S', hrun, hd', hfile, hfree⟩ :=
    hmade d hd (Prog.Calls.of_forall _ _ (fun _ _ => trivial) _ _)
  exact ⟨d, d', S', address, hfresh, hrun, hd', hfile, hfree⟩

/-- An empty file on sixteen blocks of 64 bytes, opened for reading and writing. -/
def openedFile : Option (UInt32 × OpenFile) := do
  let fresh ← freshDevice 1024 64
  let (address, d) ← allocEmptyFile.run 0 Device.handle fresh
  let (opened, d) ← (FS.fsFileOpen 1 address (fsFileModeRead ||| fsFileModeWrite)).run (2 ^ 32)
    Device.handle d
  opened.map fun handle => (address, ⟨d, handle⟩)

/-- A write that starts in one extent and ends in the next, a cut within the second one, growth by
two more, and a read across the cut. -/
def extentOps : List FileOp :=
  [.write (List.replicate 100 0xAA), .seek 90, .write (List.replicate 30 0xBB), .resize 110,
    .resize 174, .seek 80, .read 40]

theorem openedFile_extentOps : openedFile.map (fun opened =>
    (decide (Trace.Permitted (OpenFile.step (2 ^ 32)) (fun s op => op.Allowed (2 ^ 32) s) opened.2
      extentOps),
      (Trace.run (OpenFile.step (2 ^ 32)) opened.2 extentOps).map Prod.fst)) =
    some (true, some [.wrote 100, .position 90, .wrote 30, .resized true, .resized true,
      .position 80, .data 40
        (List.replicate 10 0xAA ++ List.replicate 20 0xBB ++ List.replicate 10 0)]) := by
  decide +kernel

/-- Writing, seeking, resizing and reading over four extents. -/
theorem file_refines_bytes_extents : ∃ (address : UInt32) (opened s : OpenFile) (f : ByteFile),
    openedFile = some (address, opened) ∧
      Trace.run (OpenFile.step (2 ^ 32)) opened extentOps =
        some ([.wrote 100, .position 90, .wrote 30, .resized true, .resized true, .position 80,
          .data 40 (List.replicate 10 0xAA ++ List.replicate 20 0xBB ++ List.replicate 10 0)], s) ∧
      Trace.run (Trace.total ByteFile.step) ⟨[], opened.handle.position.toNat⟩ extentOps =
        some ([.wrote 100, .position 90, .wrote 30, .resized true, .resized true, .position 80,
          .data 40 (List.replicate 10 0xAA ++ List.replicate 20 0xBB ++ List.replicate 10 0)], f) ∧
      s.Represents smallGeometry address f := by
  obtain ⟨fresh, d, S, address, hfresh, hmade, hd, hfile, -⟩ :=
    exists_emptyFile_of 1024 (g := smallGeometry) rfl (by decide) (by decide) ⟨by decide, by decide⟩
  have hopened : (world smallGeometry (2 ^ 32) (fun _ _ => True) fun _ _ => True).Ensures
      (FS.fsFileOpen 1 address (fsFileModeRead ||| fsFileModeWrite)) S
        fun result _ => ∃ handle, result = some handle :=
    FS.ensures_open hfile _ _ (fun hdenied => absurd hdenied (by decide)) ⟨_, rfl⟩
  obtain ⟨-, _, opened, -, hrun, -, handle, rfl⟩ :=
    hopened d hd (Prog.Calls.of_forall _ _ (fun _ _ => trivial) _ _)
  have hopenedFile : openedFile = some (address, ⟨opened, handle⟩) := by
    rw [world] at hrun
    simp only [openedFile, hfresh, hmade, hrun, Option.bind_eq_bind, Option.bind_some,
      Option.map_some]
  have hops := openedFile_extentOps
  rw [hopenedFile, Option.map_some, Option.some_inj, Prod.mk.injEq] at hops
  obtain ⟨answers, s, f, hruns, hbytes, hs⟩ := file_refines_bytes (Nat.le_refl _) hd hfile
    (by decide) (by decide) (by decide) hrun (of_decide_eq_true hops.1)
  have hanswers := hops.2
  rw [hruns, Option.map_some, Option.some_inj] at hanswers
  exact ⟨address, ⟨opened, handle⟩, s, f, hopenedFile, hanswers ▸ hruns, hanswers ▸ hbytes, hs⟩

end AvrKernel.BaseFS

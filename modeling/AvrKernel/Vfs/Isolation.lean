import AvrKernel.Vfs.Contents
import AvrKernel.Vfs.Protection
import AvrKernel.Vfs.Walk

/-!
# Isolation of descriptors

A descriptor holds the address of its file. As long as the file is at the address and
shares no block with another one, a write through the descriptor changes that file and
nothing else.
-/

namespace AvrKernel

open BaseFS Kernel

/-! ## What there is -/

/-- The allocations of a file or a directory at an address. -/
inductive BaseFS.Store.Occupies {g : FSGeometry} (S : Store g) (address : UInt32) :
    List UInt32 → Prop
  | file {header : FSFileHeader} {es : List Extent} (h : S.ChainAt address header es) :
      Occupies S address (fileBlocks address es)
  | directory {D : Directory}
      (h : S.DirectoryAt address D) : Occupies S address (D.addresses address)

/-- What walks from the root directory of a volume come to. -/
inductive BaseFS.Store.InTree {g : FSGeometry} (S : Store g) (root : UInt32) : UInt32 → Prop
  | root : InTree S root root
  | entry {address child : UInt32} {D : Directory} (h : InTree S root address)
      (hdir : S.DirectoryAt address D) (hmem : child ∈ D.refs) : InTree S root child

theorem BaseFS.Store.Occupies.held {g : FSGeometry} {S : Store g} {address a : UInt32}
    {as : List UInt32} (h : S.Occupies address as) (ha : a ∈ as) : S.cells a ≠ none := by
  cases h with
  | file h =>
      rcases List.mem_cons.mp ha with rfl | hmem
      · exact h.held
      · exact h.linked.held hmem
  | directory h =>
      rcases List.mem_cons.mp ha with rfl | hmem
      · exact h.held
      · exact h.chained.held hmem

/-- What walks from the root of the kernel's tree come to. -/
inductive Kernel.KernelState.InTree (k : KernelState) : UInt32 → Prop
  | root : InTree k k.root
  | entry {address child : UInt32} {refs : List UInt32} (h : InTree k address)
      (hlists : k.Lists address refs) (hmem : child ∈ refs) : InTree k child

/-- An extent of a directory of the kernel. -/
inductive Kernel.KernelState.ExtentOf (k : KernelState) (address : UInt32) : UInt32 → Prop
  | first (h : k.IsKnode address) (hend : isEnd (k.directory address).next = false) :
      ExtentOf k address (k.directory address).next
  | next {extent : UInt32} (h : ExtentOf k address extent)
      (hend : isEnd (k.extent extent).next = false) : ExtentOf k address (k.extent extent).next

namespace Vfs

open Effect VfsM

/-- There is a file or a directory at the address on the device: in the tree of the volume, or
open. -/
def VfsState.OnVolume (s : VfsState) (ctx : UInt32) {g : FSGeometry} (S : Store g)
    (address : UInt32) : Prop :=
  S.InTree (partitionOf (s.devices ctx)).rootDirectory address ∨
    ∃ desc ∈ s.openFiles.files, desc.inFileSystem = true ∧ desc.ctx = ctx ∧ desc.address = address

/-- The same for the nodes of the kernel. -/
def VfsState.InKernel (s : VfsState) (node : UInt32) : Prop :=
  s.kernel.InTree node ∨
    ∃ desc ∈ s.openFiles.files, desc.inFileSystem = false ∧ desc.address = node

/-- A byte of a node of the kernel or of one of its extents, with the headers of their blocks. -/
def NodeByte (n : Nat) (k : KernelState) (node x : UInt32) : Prop :=
  ∃ block size : UInt32, (block = node ∨ k.ExtentOf node block) ∧
    (KernelM.kmallocIsValid block).run n KernelState.handle k = some (true, k) ∧
    (KernelM.kmallocGetSize block).run n KernelState.handle k = some (size, k) ∧
    InNode block size x

variable {n : Nat} {s s₁ s₂ : VfsState} {file size : UInt32} {desc : OpenFileDescriptor}

/-! ## Writing to what was opened -/

/-- The file or the node that the descriptor was opened on is there: the device holds allocations
that do not overlap, and a chain of them is the file, or the block of the kernel heap is valid. -/
def OpenFileDescriptor.StillThere (n : Nat) (s : VfsState) (desc : OpenFileDescriptor) : Prop :=
  if desc.inFileSystem = true then
    ∃ (g : FSGeometry) (S : Store g) (header : FSFileHeader) (es : List Extent),
      (s.devices desc.ctx).Holds S ∧ S.ChainAt desc.address header es
  else (KernelM.kmallocIsValid desc.address).run n KernelState.handle s.kernel =
    some (true, s.kernel)

/-- No other file or directory has an allocation of the file, or a byte of the node. -/
def OpenFileDescriptor.Alone (n : Nat) (s : VfsState) (desc : OpenFileDescriptor) : Prop :=
  if desc.inFileSystem = true then
    ∀ (g : FSGeometry) (S : Store g) (header : FSFileHeader) (es : List Extent),
      (s.devices desc.ctx).Holds S → S.ChainAt desc.address header es →
        ∀ (other : UInt32) (as : List UInt32), s.OnVolume desc.ctx S other →
          other ≠ desc.address → S.Occupies other as → as.Disjoint (fileBlocks desc.address es)
  else ∀ other x nodeSize : UInt32, s.InKernel other → other ≠ desc.address →
    NodeByte n s.kernel other x →
      (KernelM.kmallocGetSize desc.address).run n KernelState.handle s.kernel =
        some (nodeSize, s.kernel) → ¬InPayload desc.address nodeSize x

/-- What `file` was opened on is there, and when something is written to it, it is alone and, if
it is a node, the write ends in the address space. -/
def VfsOp.Follows (n : Nat) (file : UInt32) (s : VfsState) (op : VfsOp) : Prop :=
  ∀ desc, s.findOpen file = some desc → desc.StillThere n s ∧
    ∀ (buffer : List UInt8) (size : UInt32), op = .write file buffer size → desc.Alone n s ∧
      (desc.inFileSystem = false → desc.offset.toNat + size.toNat < 2 ^ 32)

section Stocked

variable {g : FSGeometry} {S : Store g}

theorem not_directoryAt {address : UInt32} {payload : List UInt8}
    (hcell : S.cells address = some payload) (hlength : payload.length < 48) {D : Directory} :
    ¬S.DirectoryAt address D := by
  intro hdir
  have hsame := hdir.cell
  rw [hcell, Option.some_inj] at hsame
  rw [hsame, List.length_append, FSDirectoryHeader.layout.encode_length,
    FSDirectoryHeader.layout_size] at hlength
  omega

theorem not_chainAt {address : UInt32} {payload : List UInt8}
    (hcell : S.cells address = some payload)
    (hdir : hasFlag (FSFileHeader.layout.decode (payload.take 44)).block.attributes
      fsAttributeDirectory = true) {file : FSFileHeader} {es : List Extent} :
    ¬S.ChainAt address file es := by
  intro hchain
  obtain ⟨tail, hsame⟩ := hchain.cell
  rw [hcell, Option.some_inj] at hsame
  have hfile : payload.take 44 = FSFileHeader.layout.encode file := by
    rw [hsame, List.take_left'
      (by rw [FSFileHeader.layout.encode_length, FSFileHeader.layout_size])]
  rw [hfile, FSFileHeader.layout.decode_encode_self, hchain.regular] at hdir
  cases hdir

theorem Stocked.not_file (h : Stocked S) {address : UInt32} (hin : address ∈ [(68 : UInt32), 260])
    {file : FSFileHeader} {es : List Extent} : ¬S.ChainAt address file es := by
  simp only [List.mem_cons, List.not_mem_nil, or_false] at hin
  rcases hin with rfl | rfl
  · exact not_chainAt h.root.cell (by decide +kernel)
  · exact not_chainAt h.d.cell (by decide +kernel)

theorem Stocked.not_directory (h : Stocked S) {address : UInt32}
    (hin : address ∈ [(452 : UInt32), 708]) {D : Directory} : ¬S.DirectoryAt address D := by
  simp only [List.mem_cons, List.not_mem_nil, or_false] at hin
  rcases hin with rfl | rfl
  · exact not_directoryAt h.fCell (by decide)
  · exact not_directoryAt h.gCell (by decide)

theorem Stocked.mem_of_inTree (h : Stocked S) {address : UInt32} (hin : S.InTree 68 address) :
    address ∈ [(68 : UInt32), 260, 452, 708] := by
  induction hin with
  | root => exact List.mem_cons_self
  | @entry address child D _ hdir hmem ih =>
      simp only [List.mem_cons, List.not_mem_nil, or_false] at ih
      rcases ih with rfl | rfl | rfl | rfl
      · have hlisted : ∀ child ∈ [(260 : UInt32), 452], child ∈ [(68 : UInt32), 260, 452, 708] := by
          simp
        rw [(h.root.same hdir).1] at hmem
        exact hlisted child hmem
      · have hlisted : ∀ child ∈ [(708 : UInt32)], child ∈ [(68 : UInt32), 260, 452, 708] := by
          simp
        rw [(h.d.same hdir).1] at hmem
        exact hlisted child hmem
      · exact absurd hdir (h.not_directory (by decide))
      · exact absurd hdir (h.not_directory (by decide))

/-- Apart from `f` each of them has one allocation. -/
theorem Stocked.occupies_eq (h : Stocked S) {address : UInt32}
    (hin : address ∈ [(68 : UInt32), 260, 708]) {as : List UInt32}
    (hoccupies : S.Occupies address as) : as = [address] := by
  simp only [List.mem_cons, List.not_mem_nil, or_false] at hin
  cases hoccupies with
  | file hchain =>
      rcases hin with rfl | rfl | rfl
      · exact absurd hchain (h.not_file (by decide))
      · exact absurd hchain (h.not_file (by decide))
      · rw [fileBlocks, h.g.chain.addresses_eq hchain]
        rfl
  | directory hdir =>
      rcases hin with rfl | rfl | rfl
      · exact (h.root.same hdir).2
      · exact (h.d.same hdir).2
      · exact absurd hdir (h.not_directory (by decide))

end Stocked

/-- What a descriptor was opened on, and whether that is on the volume. -/
def OpenFileDescriptor.target (desc : OpenFileDescriptor) : UInt32 × UInt32 × Bool :=
  (desc.id, desc.address, desc.inFileSystem && desc.ctx == 0x5000)

def stockedTargets : List (UInt32 × UInt32 × Bool) := [(1, 452, true), (2, 708, true)]

theorem target_of_mem {s : VfsState}
    (htable : s.openFiles.files.map OpenFileDescriptor.target <+: stockedTargets)
    {desc : OpenFileDescriptor} (hmem : desc ∈ s.openFiles.files) :
    (desc.address = 452 ∧ desc.id = 1 ∨ desc.address = 708 ∧ desc.id = 2) ∧
      desc.inFileSystem = true ∧ desc.ctx = 0x5000 := by
  have hin := htable.subset (List.mem_map_of_mem hmem)
  simp only [stockedTargets, OpenFileDescriptor.target, List.mem_cons, Prod.mk.injEq,
    Bool.and_eq_true, beq_iff_eq, List.not_mem_nil, or_false] at hin
  rcases hin with ⟨hid, haddress, hfs, hctx⟩ | ⟨hid, haddress, hfs, hctx⟩
  · exact ⟨.inl ⟨haddress, hid⟩, hfs, hctx⟩
  · exact ⟨.inr ⟨haddress, hid⟩, hfs, hctx⟩

/-- As long as the volume is as it was, both files are there and alone. -/
theorem Stocked.follows {g : FSGeometry} {S : Store g} (h : Stocked S) {s s₁ : VfsState}
    (hd : (s.devices 0x5000).Holds S) (hroot : (partitionOf (s.devices 0x5000)).rootDirectory = 68)
    (hsame : s.SameContents s₁)
    (htable : s₁.openFiles.files.map OpenFileDescriptor.target <+: stockedTargets) (op : VfsOp) :
    op.Follows n 1 s₁ := by
  intro desc hfind
  obtain ⟨hcoherent, hlogical⟩ := hsame.devices 0x5000 hd.coherent
  have hd₁ := hd.of_logical hcoherent hlogical
  obtain ⟨htarget, hfs, hctx⟩ := target_of_mem htable (VfsState.findOpen_mem hfind)
  have haddress : desc.address = 452 := by
    rcases htarget with ⟨haddress, -⟩ | ⟨-, hid⟩
    · exact haddress
    · rw [VfsState.findOpen_id hfind] at hid
      exact absurd hid (by decide)
  refine ⟨?_, fun buffer size _ => ⟨?_, fun hnot => ?_⟩⟩
  · rw [OpenFileDescriptor.StillThere, if_pos hfs, haddress, hctx]
    exact ⟨g, S, _, _, hd₁, h.f.chain⟩
  · rw [OpenFileDescriptor.Alone, if_pos hfs, haddress, hctx]
    rintro g' S' header es hd' hchain other as hon hne hoccupies
    obtain rfl : g' = g := hd'.1.symm.trans hd₁.1
    obtain rfl := hd₁.unique hd'
    have hin : other ∈ [(68 : UInt32), 260, 452, 708] := by
      rcases hon with htree | ⟨desc', hmem, -, -, rfl⟩
      · rw [show partitionOf (s₁.devices 0x5000) = partitionOf (s.devices 0x5000) by
          rw [partitionOf, partitionOf, Device.image_of_logical hlogical], hroot] at htree
        exact h.mem_of_inTree htree
      · rcases (target_of_mem htable hmem).1 with ⟨heq, -⟩ | ⟨heq, -⟩ <;> rw [heq] <;> decide
    have hother : other ∈ [(68 : UInt32), 260, 708] := by
      simp only [List.mem_cons, List.not_mem_nil, or_false] at hin ⊢
      rcases hin with heq | heq | heq | heq
      · exact .inl heq
      · exact .inr (.inl heq)
      · exact absurd heq hne
      · exact .inr (.inr heq)
    rw [h.occupies_eq hother hoccupies, fileBlocks, h.f.chain.addresses_eq hchain]
    have hapart : ∀ other ∈ [(68 : UInt32), 260, 708],
        other ∉ 452 :: stockedExtents.map Extent.address := by simp [stockedExtents]
    exact List.singleton_disjoint.mpr (hapart other hother)
  · rw [hfs] at hnot
    cases hnot

end Vfs

end AvrKernel

import AvrKernel.Kernel.Listing
import AvrKernel.Vfs.Position
import AvrKernel.Vfs.Protection

/-!
# Transfers on kernel nodes

Which bytes `vfs_read` and `vfs_write` copy on a descriptor of a kernel node, and
how many of them they report.
-/

namespace AvrKernel.Kernel.KernelState

open Effect

variable {k : KernelState} {address : UInt32} {n : Nat}

/-- The permissions and the size that the header of a node tells, 0 if there is none. -/
def permissions (k : KernelState) (address : UInt32) : UInt8 :=
  (((KernelM.kmallocGetPermissions address).run 0 handle k).map Prod.fst).getD 0

def nodeSize (k : KernelState) (address : UInt32) : UInt32 :=
  (((KernelM.kmallocGetSize address).run 0 handle k).map Prod.fst).getD 0

theorem run_kmallocGet {α : Type} [OfNat α 0] (field : KMallocHeader → α) :
    (KernelM.kmallocGet field address).run n handle k =
      some ((((KernelM.kmallocGet field address).run 0 handle k).map Prod.fst).getD 0, k) := by
  obtain ⟨⟨value, k'⟩, hrun⟩ := (KernelM.straight_kmallocGet field address).run handle k
  obtain rfl := (KernelM.readOnly_kmallocGet field address).run (hrun 0)
  rw [hrun n, hrun 0]
  rfl

end AvrKernel.Kernel.KernelState

namespace AvrKernel.Vfs

open BaseFS Kernel Effect VfsM

variable {n : Nat} {s s' : VfsState} {file size : UInt32} {desc : OpenFileDescriptor}

/-- A word as the signed number that `vfs_read` and `vfs_write` return. -/
def asInt32 (word : UInt32) : Int :=
  if word.toNat < 2 ^ 31 then word.toNat else word.toNat - 2 ^ 32

/-! ## What transfers do -/

/-- Where the copy of a transfer starts. -/
def OpenFileDescriptor.start (desc : OpenFileDescriptor) : UInt32 := desc.address + desc.offset

theorem run_node_permissions (address : UInt32) :
    (kernel (KernelM.kmallocGetPermissions address)).run n VfsState.handle s =
      some (s.kernel.permissions address, s) :=
  (run_kernel_readOnly (KernelM.readOnly_getPermissions address)).mpr
    ⟨KernelState.run_kmallocGet _, rfl⟩

theorem run_node_size (address : UInt32) :
    (kernel (KernelM.kmallocGetSize address)).run n VfsState.handle s =
      some (s.kernel.nodeSize address, s) :=
  (run_kernel_readOnly (KernelM.readOnly_getSize address)).mpr ⟨KernelState.run_kmallocGet _, rfl⟩

theorem run_read_node (size : UInt32) (hfind : s.findOpen file = some desc)
    (hkernel : desc.inFileSystem = false) :
    (doRead file size).run n VfsState.handle s =
      if !hasFlag (s.kernel.permissions desc.address) kmallocPermissionRead then
        some ((minusOne, []), s)
      else if desc.offset ≥ s.kernel.nodeSize desc.address then some ((0, []), s)
      else
        let count := clipped desc.offset size (s.kernel.nodeSize desc.address)
        some ((count, s.kernel.memory.read desc.start count.toNat),
          s.setOpen { desc with offset := desc.offset + count }) := by
  rw [doRead, Prog.run_bind, run_findOpen, hfind, Option.bind_some]
  dsimp only
  rw [if_neg (by simp [hkernel]), Prog.run_bind, run_node_permissions, Option.bind_some]
  dsimp only
  split
  · rfl
  · rw [Prog.run_bind, run_node_size, Option.bind_some]
    dsimp only
    split <;> rfl

theorem run_write_to_node (buffer : List UInt8) (size : UInt32)
    (hfind : s.findOpen file = some desc)
    (hkernel : desc.inFileSystem = false) :
    (doWrite file buffer size).run n VfsState.handle s =
      if !hasFlag (s.kernel.permissions desc.address) kmallocPermissionWrite then
        some (minusOne, s)
      else if desc.offset ≥ s.kernel.nodeSize desc.address then some (minusOne, s)
      else
        let count := clipped desc.offset size (s.kernel.nodeSize desc.address)
        some (count, (s.setKernel { s.kernel with
          memory := s.kernel.memory.write desc.start (buffer.take count.toNat) }).setOpen
            { desc with offset := desc.offset + count }) := by
  rw [doWrite, Prog.run_bind, run_findOpen, hfind, Option.bind_some]
  dsimp only
  rw [if_neg (by simp [hkernel]), Prog.run_bind, run_node_permissions, Option.bind_some]
  dsimp only
  split
  · rfl
  · rw [Prog.run_bind, run_node_size, Option.bind_some]
    dsimp only
    split <;> rfl

/-! ## Staying inside of the node -/

/-- The bytes that a copy of `count` bytes touches belong to the node, and it reports how many
they are. A transfer that is refused touches none and reports -1. -/
structure OpenFileDescriptor.Honest (desc : OpenFileDescriptor) (nodeSize result : UInt32)
    (count : Nat) : Prop where
  inside : ∀ i < count, InPayload desc.address nodeSize (desc.start + .ofNat i)
  reported : asInt32 result = count ∨ result = minusOne ∧ count = 0

/-- What `vfs_read` returns was copied from the node, and it changes nothing there. -/
def ReadsInside (n : Nat) (s : VfsState) (file size : UInt32) (desc : OpenFileDescriptor) : Prop :=
  ∃ result bytes s', (doRead file size).run n VfsState.handle s = some ((result, bytes), s') ∧
    bytes = s.kernel.memory.read desc.start bytes.length ∧ s'.kernel = s.kernel ∧
    desc.Honest (s.kernel.nodeSize desc.address) result bytes.length

/-- `vfs_write` copies as many bytes of any buffer to the node. -/
def WritesInside (n : Nat) (s : VfsState) (file size : UInt32) (desc : OpenFileDescriptor) : Prop :=
  ∃ count, ∀ buffer : List UInt8, size.toNat ≤ buffer.length →
    ∃ result s', (doWrite file buffer size).run n VfsState.handle s = some (result, s') ∧
      s'.kernel.memory = s.kernel.memory.write desc.start (buffer.take count) ∧
      desc.Honest (s.kernel.nodeSize desc.address) result count

/-- The sum of the offset and the size does not come out as one that fits the node, and what is
left of the node can be reported. -/
def Clear (offset size nodeSize : UInt32) : Prop :=
  offset < nodeSize →
    (offset.toNat + size.toNat < 2 ^ 32 ∨ nodeSize < offset + size) ∧
      min size.toNat (nodeSize.toNat - offset.toNat) < 2 ^ 31

theorem asInt32_eq_iff (word : UInt32) : asInt32 word = word.toNat ↔ word.toNat < 2 ^ 31 := by
  rw [asInt32]
  split <;> omega

theorem clipped_of_fits {offset size nodeSize : UInt32} (hin : offset < nodeSize)
    (hfits : offset.toNat + size.toNat < 2 ^ 32 ∨ nodeSize < offset + size) :
    (clipped offset size nodeSize).toNat = min size.toNat (nodeSize.toNat - offset.toNat) := by
  rw [UInt32.lt_iff_toNat_lt] at hin
  have hsum := UInt32.toNat_add offset size
  rw [clipped]
  split
  next hover =>
    rw [gt_iff_lt, UInt32.lt_iff_toNat_lt] at hover
    rw [Bytes.Mem.toNat_sub_of_le (Nat.le_of_lt hin)]
    omega
  next hnot =>
    obtain hrange := hfits.resolve_right hnot
    rw [gt_iff_lt, UInt32.lt_iff_toNat_lt] at hnot
    omega

/-- The bytes from the offset on that belong to the node are those that are left of it. -/
theorem inside_iff {count : Nat} {nodeSize : UInt32} (hin : desc.offset < nodeSize)
    (hcount : count ≤ 2 ^ 32) :
    (∀ i < count, InPayload desc.address nodeSize (desc.start + .ofNat i)) ↔
      count ≤ nodeSize.toNat - desc.offset.toNat := by
  rw [UInt32.lt_iff_toNat_lt] at hin
  have hnode := nodeSize.toNat_lt
  have hoffset : ∀ i < count, (desc.start + UInt32.ofNat i - desc.address).toNat =
      (desc.offset.toNat + i) % 2 ^ 32 := by
    intro i hi
    have haddress := desc.address.toNat_lt
    simp only [OpenFileDescriptor.start, UInt32.toNat_sub, UInt32.toNat_add, UInt32.toNat_ofNat']
    omega
  constructor
  · intro hall
    by_contra hover
    -- the byte behind the node
    have hbehind := hall (nodeSize.toNat - desc.offset.toNat) (by omega)
    rw [InPayload, hoffset _ (by omega)] at hbehind
    omega
  · intro hle i hi
    rw [InPayload, hoffset i hi]
    omega

/-- An unclipped sum lets the copy run past the end of the node. -/
theorem honest_clipped_iff {nodeSize : UInt32} (hin : desc.offset < nodeSize) :
    desc.Honest nodeSize (clipped desc.offset size nodeSize)
      (clipped desc.offset size nodeSize).toNat ↔ Clear desc.offset size nodeSize := by
  have hless := (UInt32.lt_iff_toNat_lt ..).mp hin
  constructor
  · rintro ⟨hinside, hreported⟩ -
    rw [inside_iff hin (Nat.le_of_lt (UInt32.toNat_lt _))] at hinside
    have hsmall : (clipped desc.offset size nodeSize).toNat < 2 ^ 31 := by
      rcases hreported with hsame | ⟨hminus, hzero⟩
      · exact (asInt32_eq_iff _).mp hsame
      · omega
    have hfits : desc.offset.toNat + size.toNat < 2 ^ 32 ∨ nodeSize < desc.offset + size := by
      by_contra hnot
      rw [not_or] at hnot
      rw [clipped, if_neg hnot.2] at hinside
      have hnode := nodeSize.toNat_lt
      omega
    rw [clipped_of_fits hin hfits] at hsmall
    exact ⟨hfits, hsmall⟩
  · intro hclear
    obtain ⟨hfits, hsmall⟩ := hclear hin
    have hcount := clipped_of_fits hin hfits
    refine ⟨?_, .inl ?_⟩
    · rw [inside_iff hin (Nat.le_of_lt (UInt32.toNat_lt _)), hcount]
      exact Nat.min_le_right ..
    · rw [asInt32_eq_iff, hcount]
      exact hsmall

theorem honest_refused {nodeSize : UInt32} : desc.Honest nodeSize minusOne 0 :=
  ⟨fun _ hi => absurd hi (Nat.not_lt_zero _), .inr ⟨rfl, rfl⟩⟩

theorem readsInside_iff (hfind : s.findOpen file = some desc)
    (hkernel : desc.inFileSystem = false) :
    ReadsInside n s file size desc ↔
      hasFlag (s.kernel.permissions desc.address) kmallocPermissionRead = false ∨
        Clear desc.offset size (s.kernel.nodeSize desc.address) := by
  have hrun := run_read_node (n := n) size hfind hkernel
  cases hperm : hasFlag (s.kernel.permissions desc.address) kmallocPermissionRead with
  | false =>
      rw [hperm] at hrun
      simp only [Bool.not_false, if_true] at hrun
      exact iff_of_true ⟨minusOne, [], s, hrun, rfl, rfl, honest_refused⟩ (.inl rfl)
  | true =>
      rw [hperm] at hrun
      simp only [Bool.not_true, Bool.false_eq_true, if_false] at hrun
      rw [or_iff_right (by decide)]
      split at hrun
      next hbehind =>
        refine iff_of_true ⟨0, [], s, hrun, rfl, rfl, ?_, .inl rfl⟩ fun hin => ?_
        · exact fun _ hi => absurd hi (Nat.not_lt_zero _)
        · exact absurd hin (UInt32.not_lt.mpr hbehind)
      next hin =>
        rw [ge_iff_le, UInt32.not_le] at hin
        rw [← honest_clipped_iff hin]
        constructor
        · rintro ⟨result, bytes, s', hrun', -, -, hhonest⟩
          rw [hrun] at hrun'
          cases hrun'
          rw [Bytes.Mem.read_length] at hhonest
          exact hhonest
        · intro hhonest
          refine ⟨_, _, _, hrun, ?_, rfl, ?_⟩
          · rw [Bytes.Mem.read_length]
          · rw [Bytes.Mem.read_length]
            exact hhonest

/-- A write that reports -1 and copies something changes the first byte of some buffer's room. -/
theorem exists_buffer_write (m : Bytes.Mem) (a : UInt32) {count : Nat} (hcount : 0 < count)
    (hle : count ≤ 2 ^ 32) (length : Nat) (hlength : count ≤ length) :
    ∃ buffer : List UInt8, buffer.length = length ∧ m.write a (buffer.take count) ≠ m := by
  refine ⟨List.replicate length (m a + 1), List.length_replicate, fun heq => ?_⟩
  have hfirst := congrFun heq a
  have hlengths : ((List.replicate length (m a + 1)).take count).length = count := by
    rw [List.length_take, List.length_replicate, Nat.min_eq_left hlength]
  have hwritten := Bytes.Mem.write_apply_of_lt m a (x := a) (hlengths.trans_le hle)
    (by rw [hlengths, UInt32.sub_self]; exact hcount)
  rw [hfirst, UInt32.sub_self, UInt32.toNat_zero, List.take_replicate, Nat.min_eq_left hlength,
    List.getElem?_replicate_of_lt hcount, Option.some_inj] at hwritten
  have hnat := congrArg UInt8.toNat hwritten
  have hlt := (m a).toNat_lt
  rw [UInt8.toNat_add, UInt8.toNat_one] at hnat
  omega

theorem writesInside_iff (hfind : s.findOpen file = some desc)
    (hkernel : desc.inFileSystem = false) :
    WritesInside n s file size desc ↔
      hasFlag (s.kernel.permissions desc.address) kmallocPermissionWrite = false ∨
        Clear desc.offset size (s.kernel.nodeSize desc.address) := by
  have hrun (buffer : List UInt8) :=
    run_write_to_node (n := n) buffer size hfind hkernel
  have hrefused (hnone : ∀ buffer : List UInt8,
      (doWrite file buffer size).run n VfsState.handle s = some (minusOne, s)) :
      WritesInside n s file size desc :=
    ⟨0, fun buffer _ => ⟨minusOne, s, hnone buffer, rfl, honest_refused⟩⟩
  cases hperm : hasFlag (s.kernel.permissions desc.address) kmallocPermissionWrite with
  | false =>
      rw [hperm] at hrun
      simp only [Bool.not_false, if_true] at hrun
      exact iff_of_true (hrefused hrun) (.inl rfl)
  | true =>
      rw [hperm] at hrun
      simp only [Bool.not_true, Bool.false_eq_true, if_false] at hrun
      rw [or_iff_right (by decide)]
      by_cases hbehind : desc.offset ≥ s.kernel.nodeSize desc.address
      · simp only [if_pos hbehind] at hrun
        exact iff_of_true (hrefused hrun) fun hin => absurd hin (UInt32.not_lt.mpr hbehind)
      · simp only [if_neg hbehind] at hrun
        rw [ge_iff_le, UInt32.not_le] at hbehind
        rw [← honest_clipped_iff hbehind]
        constructor
        · rintro ⟨count, hall⟩
          -- what is reported is what is copied, unless -1 is reported and nothing copied
          by_cases hsame : count = (clipped desc.offset size (s.kernel.nodeSize desc.address)).toNat
          · obtain ⟨result, s', hrun', -, hhonest⟩ :=
              hall (List.replicate size.toNat 0) (by simp)
            rw [hrun] at hrun'
            cases hrun'
            exact hsame ▸ hhonest
          · obtain ⟨result, s', hrun', -, -, hreported⟩ :=
              hall (List.replicate size.toNat 0) (by simp)
            rw [hrun] at hrun'
            cases hrun'
            have hzero : count = 0 ∧
                clipped desc.offset size (s.kernel.nodeSize desc.address) = minusOne := by
              rcases hreported with hcount | ⟨hminus, hzero⟩
              · rw [asInt32] at hcount
                split at hcount
                · exact absurd (by omega) hsame
                · have hlt := (clipped desc.offset size (s.kernel.nodeSize desc.address)).toNat_lt
                  omega
              · exact ⟨hzero, hminus⟩
            have hcopied : (clipped desc.offset size (s.kernel.nodeSize desc.address)).toNat ≤
                size.toNat := by
              rw [clipped]
              split
              next hover =>
                rw [gt_iff_lt, UInt32.lt_iff_toNat_lt, UInt32.toNat_add] at hover
                rw [UInt32.lt_iff_toNat_lt] at hbehind
                rw [Bytes.Mem.toNat_sub_of_le (Nat.le_of_lt hbehind)]
                omega
              next => exact Nat.le_refl _
            have hsome : 0 < (clipped desc.offset size (s.kernel.nodeSize desc.address)).toNat := by
              rw [hzero.2]
              decide
            obtain ⟨buffer, hlength, hchanged⟩ := exists_buffer_write s.kernel.memory desc.start
              hsome (Nat.le_of_lt (UInt32.toNat_lt _)) size.toNat hcopied
            obtain ⟨result, s', hrun', hmemory, -⟩ := hall buffer (Nat.le_of_eq hlength.symm)
            rw [hrun] at hrun'
            cases hrun'
            rw [hzero.1, List.take_zero] at hmemory
            exact absurd hmemory hchanged
        · intro hhonest
          exact ⟨_, fun buffer _ => ⟨_, _, hrun buffer, rfl, hhonest⟩⟩

/-! ## Seeking first -/

/-- A sequence of seeks leaves the offset at the last position. -/
theorem run_seeks (hfind : s.findOpen file = some desc) (hkernel : desc.inFileSystem = false)
    (positions : List UInt32) :
    ∃ s', Trace.run (DescriptorOp.step n file) s (positions.map .seek) = some (positions, s') ∧
      s'.findOpen file = some { desc with offset := positions.getLastD desc.offset } ∧
      s'.kernel = s.kernel := by
  induction positions generalizing s desc with
  | nil => exact ⟨s, rfl, hfind, rfl⟩
  | cons position positions ih =>
      have hseek : (DescriptorOp.seek position).step n file s =
          some (position, s.setOpen { desc with offset := position }) := by
        rw [DescriptorOp.step, DescriptorOp.program, doSeek, Prog.run_bind, run_findOpen, hfind,
          Option.bind_some]
        dsimp only
        rw [if_neg (by simp [hkernel])]
        rfl
      have hfind' : (s.setOpen { desc with offset := position }).findOpen file =
          some { desc with offset := position } :=
        VfsState.findOpen_setOpen hfind (VfsState.findOpen_id hfind :)
      obtain ⟨s', hrun, hfound, hsame⟩ := ih hfind' hkernel
      refine ⟨s', ?_, ?_, hsame⟩
      · exact Trace.run_cons.mpr ⟨position, _, positions, hseek, hrun, rfl⟩
      · rw [hfound, List.getLastD_cons]

/-- After any sequence of seeks on a descriptor of a kernel node, transfers stay inside of the
node and report the bytes they copy exactly if they are refused, or start behind the node, or
the sum of the offset and the size does not wrap to one that fits. -/
theorem transfers_inside_iff (n : Nat) {s : VfsState} {file : UInt32} {desc : OpenFileDescriptor}
    (hfind : s.findOpen file = some desc) (hkernel : desc.inFileSystem = false)
    (positions : List UInt32) (size : UInt32) :
    ∃ s' desc', Trace.run (DescriptorOp.step n file) s (positions.map .seek) =
      some (positions, s') ∧
      s'.findOpen file = some desc' ∧ desc'.address = desc.address ∧
      desc'.offset = positions.getLastD desc.offset ∧ s'.kernel = s.kernel ∧
      (ReadsInside n s' file size desc' ↔
        hasFlag (s.kernel.permissions desc.address) kmallocPermissionRead = false ∨
          Clear (positions.getLastD desc.offset) size (s.kernel.nodeSize desc.address)) ∧
      (WritesInside n s' file size desc' ↔
        hasFlag (s.kernel.permissions desc.address) kmallocPermissionWrite = false ∨
          Clear (positions.getLastD desc.offset) size (s.kernel.nodeSize desc.address)) := by
  obtain ⟨s', hrun, hfound, hsame⟩ := run_seeks (n := n) hfind hkernel positions
  refine ⟨s', _, hrun, hfound, rfl, rfl, hsame, ?_, ?_⟩
  · rw [readsInside_iff hfound hkernel, hsame]
  · rw [writesInside_iff hfound hkernel, hsame]

/-- A kernel with one block on its heap, of 16 bytes that may be read and written. -/
def oneNodeKernel : KernelState where
  memory := Bytes.Mem.write (fun _ => 0) 0x1020 (KMallocHeader.layout.encode
    { size := 16, flags := 0, type := 0, perm := 6, magic := kmallocMagic
      padding := Vector.replicate 8 0 })
  heap := { heapBegin := 0x1000, blockSize := 16, poolSize := 0x100,
            blockCount := 16, bitmapSize := 2
            reservedBlocks := 1, bitmap := 0x1000, dirty := 0x1002 }
  root := 0

/-- A descriptor of that node. -/
def oneNodeDescriptor : OpenFileDescriptor where
  id := 1
  address := 0x1030
  inFileSystem := false
  offset := 0
  handle := FS.fsFileClose
  flags := vfsOpenRead ||| vfsOpenWrite
  ctx := 0

def oneNodeState : VfsState where
  kernel := oneNodeKernel
  devices := fun _ => zeroDevice
  openFiles := { files := [oneNodeDescriptor], nextUniqueId := 2 }
  mallocOk := fun _ => true
  mallocs := 0

theorem oneNode_open : oneNodeState.findOpen 1 = some oneNodeDescriptor := rfl

theorem transfers_inside_oneNode : ∃ s' desc',
    Trace.run (DescriptorOp.step 0 1) oneNodeState [.seek 3, .seek 8] = some ([3, 8], s') ∧
      s'.findOpen 1 = some desc' ∧ desc'.address = 0x1030 ∧ desc'.offset = 8 ∧
      s'.kernel = oneNodeKernel ∧
      (ReadsInside 0 s' 1 8 desc' ↔
        hasFlag (oneNodeKernel.permissions 0x1030) kmallocPermissionRead = false ∨
          Clear 8 8 (oneNodeKernel.nodeSize 0x1030)) ∧
      (WritesInside 0 s' 1 8 desc' ↔
        hasFlag (oneNodeKernel.permissions 0x1030) kmallocPermissionWrite = false ∨
          Clear 8 8 (oneNodeKernel.nodeSize 0x1030)) :=
  transfers_inside_iff 0 oneNode_open rfl [3, 8] 8

/-- Eight bytes into the node, a write of 2^32 - 8 bytes is not clipped. -/
theorem transfer_leaves_node : ¬ ∀ (n : Nat) (s : VfsState) (file : UInt32)
    (desc : OpenFileDescriptor), s.findOpen file = some desc → desc.inFileSystem = false →
    ∀ (positions : List UInt32) (size : UInt32), ∃ s' desc',
      Trace.run (DescriptorOp.step n file) s (positions.map .seek) = some (positions, s') ∧
      s'.findOpen file = some desc' ∧
      ReadsInside n s' file size desc' ∧ WritesInside n s' file size desc' := by
  intro hall
  obtain ⟨s', desc', hrun, hfound, -, hwrites⟩ :=
    hall 0 oneNodeState 1 oneNodeDescriptor rfl rfl [8] 0xFFFFFFF8
  obtain ⟨s₁, hseeks, hfound₁, hsame⟩ := run_seeks (n := 0) oneNode_open rfl [8]
  rw [hseeks] at hrun
  obtain ⟨-, rfl⟩ := Prod.mk.inj (Option.some.inj hrun)
  obtain rfl := Option.some.inj (hfound₁.symm.trans hfound)
  rw [writesInside_iff hfound₁ rfl, hsame] at hwrites
  have hperm : oneNodeKernel.permissions 0x1030 = 6 := by decide +kernel
  have hsize : oneNodeKernel.nodeSize 0x1030 = 16 := by decide +kernel
  have hclear : ¬ Clear 8 0xFFFFFFF8 16 := by
    intro hclear
    exact absurd (hclear (by decide)).1 (by decide)
  rcases hwrites with hlacks | hclear'
  · have hlacks' : hasFlag (oneNodeKernel.permissions 0x1030) kmallocPermissionWrite = false :=
      hlacks
    rw [hperm] at hlacks'
    exact absurd hlacks' (by decide)
  · have hclear'' : Clear 8 0xFFFFFFF8 (oneNodeKernel.nodeSize 0x1030) := hclear'
    rw [hsize] at hclear''
    exact hclear hclear''

end AvrKernel.Vfs

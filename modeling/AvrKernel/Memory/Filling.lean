import AvrKernel.Memory.Slab

/-!
# Memory filled and copied by pages

`memset` and `memcpy` go byte by byte. What they do to the bytes in one page can be done at once,
so that runs of the heap can be evaluated.
-/

namespace AvrKernel.Memory

open Comp

/-- A range of physical memory gets one value. -/
def KernelMemory.fill (s : KernelMemory) (base count : Nat) (value : UInt8) : KernelMemory :=
  { s with
    phys := fun a => if base ≤ a.toNat ∧ a.toNat < base + count then value else s.phys a }

/-- A range of physical memory gets the bytes of another one. -/
def KernelMemory.copy (s : KernelMemory) (base source count : Nat) : KernelMemory :=
  { s with
    phys := fun a => if base ≤ a.toNat ∧ a.toNat < base + count
      then s.phys (.ofNat (source + (a.toNat - base))) else s.phys a }

/-- How many of the bytes lie in the page of the first one. -/
def inPage (address : UInt32) (count : Nat) : Nat := min count (4096 - address.toNat % 4096)

/-- `memset` for bytes in one page. -/
def memsetChunk (str : UInt32) (value : UInt8) (count : Nat) : MemM Unit := do
  let s ← get
  require (s.vmm.tables.Mapped str)
  set (s.fill (s.vmm.tables.vmmGetPhysAddr str).toNat count value)

/-- `memset`, where the first `pages` pages are filled at once. -/
def memsetPages (value : UInt8) : Nat → UInt32 → Nat → MemM Unit
  | 0, str, count => memset str value count
  | pages + 1, str, count =>
      if count = 0 then pure ()
      else do
        memsetChunk str value (inPage str count)
        memsetPages value pages (str + .ofNat (inPage str count)) (count - inPage str count)

/-- `storeBytes`, where each byte is filled. -/
def storePages (address : UInt32) : List UInt8 → MemM Unit
  | [] => pure ()
  | value :: rest => do
      memsetChunk address value 1
      storePages (address + 1) rest

/-- The bytes are mapped, and are not copied to where they are. -/
def Separate (s : KernelMemory) (dest src : UInt32) (count : Nat) : Prop :=
  s.vmm.tables.Mapped dest ∧ s.vmm.tables.Mapped src ∧
    ((s.vmm.tables.vmmGetPhysAddr dest).toNat + count ≤ (s.vmm.tables.vmmGetPhysAddr src).toNat ∨
      (s.vmm.tables.vmmGetPhysAddr src).toNat + count ≤ (s.vmm.tables.vmmGetPhysAddr dest).toNat)

instance (s : KernelMemory) (dest src : UInt32) (count : Nat) :
    Decidable (Separate s dest src count) := inferInstanceAs (Decidable (_ ∧ _ ∧ (_ ∨ _)))

/-- `memcpy` for bytes in one page. -/
def memcpyChunk (dest src : UInt32) (count : Nat) : MemM Unit := do
  let s ← get
  if Separate s dest src count then
    set (s.copy (s.vmm.tables.vmmGetPhysAddr dest).toNat (s.vmm.tables.vmmGetPhysAddr src).toNat
      count)
  else memcpy dest src count

def memcpyPages : Nat → UInt32 → UInt32 → Nat → MemM Unit
  | 0, dest, src, count => memcpy dest src count
  | pages + 1, dest, src, count => do
      let chunk := inPage dest (inPage src count)
      memcpyChunk dest src chunk
      memcpyPages pages (dest + .ofNat chunk) (src + .ofNat chunk) (count - chunk)

variable {str dest src : UInt32} {source : Nat} {value : UInt8} {base count n : Nat}
  {s : KernelMemory}

theorem KernelMemory.phys_fill (a : UInt32) : (s.fill base count value).phys a =
    if base ≤ a.toNat ∧ a.toNat < base + count then value else s.phys a := rfl

theorem KernelMemory.fill_zero : s.fill base 0 value = s := by
  have hnone : (fun a : UInt32 => if base ≤ a.toNat ∧ a.toNat < base + 0 then value
      else s.phys a) = s.phys := by
    funext a
    rw [if_neg (by omega)]
  rw [fill, hnone]

theorem KernelMemory.fill_fill :
    (s.fill base 1 value).fill (base + 1) count value = s.fill base (count + 1) value := by
  simp only [fill]
  congr 1
  funext a
  split_ifs <;> first | rfl | omega

theorem store8_mapped (h : s.vmm.tables.Mapped str) :
    store8 str value n s = .done () (s.fill (s.vmm.tables.vmmGetPhysAddr str).toNat 1 value) := by
  have hupdate : Function.update s.phys (s.vmm.tables.vmmGetPhysAddr str) value =
      (s.fill (s.vmm.tables.vmmGetPhysAddr str).toNat 1 value).phys := by
    funext a
    by_cases ha : a = s.vmm.tables.vmmGetPhysAddr str
    · rw [ha, Function.update_self, KernelMemory.phys_fill, if_pos (by omega)]
    · have hne : a.toNat ≠ (s.vmm.tables.vmmGetPhysAddr str).toNat :=
        fun heq => ha (UInt32.toNat_inj.mp heq)
      rw [Function.update_of_ne ha, KernelMemory.phys_fill, if_neg (by omega)]
  change (require (s.vmm.tables.Mapped str) >>= fun _ => _) n s = _
  rw [require, if_pos h, hupdate]
  rfl

theorem load8_mapped (h : s.vmm.tables.Mapped src) :
    load8 src n s = .done (s.phys (s.vmm.tables.vmmGetPhysAddr src)) s := by
  change (require (s.vmm.tables.Mapped src) >>= fun _ => _) n s = _
  rw [require, if_pos h]
  rfl

theorem storeBytes_eq : storeBytes = storePages := by
  funext address values
  induction values generalizing address with
  | nil => rfl
  | cons value rest ih =>
      have hstore : store8 address value = memsetChunk address value 1 := by
        funext n s
        by_cases hmapped : s.vmm.tables.Mapped address
        · rw [store8_mapped hmapped]
          change _ = (require (s.vmm.tables.Mapped address) >>= fun _ => _) n s
          rw [require, if_pos hmapped]
          rfl
        · change (require (s.vmm.tables.Mapped address) >>= fun _ => _) n s =
            (require (s.vmm.tables.Mapped address) >>= fun _ => _) n s
          rw [require, if_neg hmapped]
          rfl
      rw [storeBytes, storePages, hstore, ih]

/-! ## Ranges -/

/-- The addresses are mapped to a range of physical memory that begins at `base`. -/
def PageTables.MappedTo (t : PageTables) (str : UInt32) (count base : Nat) : Prop :=
  ∀ k < count, t.Mapped (str + .ofNat k) ∧ (t.vmmGetPhysAddr (str + .ofNat k)).toNat = base + k

namespace PageTables

variable {t : PageTables}

theorem MappedTo.head (h : t.MappedTo str (count + 1) base) :
    t.Mapped str ∧ (t.vmmGetPhysAddr str).toNat = base := by
  obtain ⟨hmapped, hphys⟩ := h 0 (Nat.succ_pos count)
  rw [show str + .ofNat 0 = str from UInt32.add_zero str] at hmapped hphys
  exact ⟨hmapped, hphys⟩

theorem MappedTo.tail (h : t.MappedTo str (count + 1) base) :
    t.MappedTo (str + 1) count (base + 1) := by
  intro k hk
  have hnext : str + 1 + .ofNat k = str + .ofNat (k + 1) := by
    rw [Nat.add_comm, UInt32.ofNat_add, ← UInt32.add_assoc]
    rfl
  obtain ⟨hmapped, hphys⟩ := h (k + 1) (by omega)
  rw [hnext]
  exact ⟨hmapped, by omega⟩

theorem MappedTo.of_page (hmapped : t.Mapped str) (hpage : str.toNat % 4096 + count ≤ 4096) :
    t.MappedTo str count (t.vmmGetPhysAddr str).toNat := by
  intro k hk
  have hnat : (UInt32.ofNat k).toNat = k := by
    rw [UInt32.toNat_ofNat']
    omega
  have hlt := str.toNat_lt
  have hsame : (str + .ofNat k).toNat / 4096 = str.toNat / 4096 := by
    rw [UInt32.toNat_add, hnat]
    omega
  exact ⟨(t.pte_congr hsame).2.mpr hmapped, toNat_vmmGetPhysAddr_add hmapped (by omega)⟩

end PageTables

open PageTables (MappedTo)

theorem memset_range (h : s.vmm.tables.MappedTo str count base) :
    memset str value count n s = .done () (s.fill base count value) := by
  induction count generalizing str base s with
  | zero =>
      rw [KernelMemory.fill_zero]
      rfl
  | succ count ih =>
      obtain ⟨hmapped, rfl⟩ := h.head
      have hrest := ih (s := s.fill (s.vmm.tables.vmmGetPhysAddr str).toNat 1 value) h.tail
      rw [memset, bind_of_done (store8_mapped hmapped), hrest, KernelMemory.fill_fill]

theorem KernelMemory.copy_zero : s.copy base source 0 = s := by
  have hnone : (fun a : UInt32 => if base ≤ a.toNat ∧ a.toNat < base + 0
      then s.phys (.ofNat (source + (a.toNat - base))) else s.phys a) = s.phys := by
    funext a
    rw [if_neg (by omega)]
  rw [copy, hnone]

theorem KernelMemory.fill_copy (hsource : source + count < 2 ^ 32)
    (hapart : base + (count + 1) ≤ source ∨ source + (count + 1) ≤ base) :
    (s.fill base 1 (s.phys (.ofNat source))).copy (base + 1) (source + 1) count =
      s.copy base source (count + 1) := by
  simp only [copy]
  congr 1
  funext a
  simp only [phys_fill]
  by_cases hfirst : a.toNat = base
  · rw [if_neg (by omega), if_pos (by omega), if_pos (by omega), hfirst, Nat.sub_self, Nat.add_zero]
  · by_cases hin : base ≤ a.toNat ∧ a.toNat < base + (count + 1)
    · have hnat : (UInt32.ofNat (source + 1 + (a.toNat - (base + 1)))).toNat =
          source + (a.toNat - base) := by
        rw [UInt32.toNat_ofNat']
        omega
      rw [if_pos (by omega), if_pos hin, hnat, if_neg (by omega)]
      congr 2
      omega
    · rw [if_neg (by omega), if_neg (by omega), if_neg hin]

theorem memcpy_range (hdest : s.vmm.tables.MappedTo dest count base)
    (hsrc : s.vmm.tables.MappedTo src count source)
    (hapart : base + count ≤ source ∨ source + count ≤ base) :
    memcpy dest src count n s = .done () (s.copy base source count) := by
  induction count generalizing dest src base source s with
  | zero =>
      rw [KernelMemory.copy_zero]
      rfl
  | succ count ih =>
      obtain ⟨hmapped, rfl⟩ := hdest.head
      obtain ⟨hmapped', rfl⟩ := hsrc.head
      obtain ⟨-, hlast⟩ := hsrc count (Nat.lt_succ_self count)
      have hlt := (s.vmm.tables.vmmGetPhysAddr (src + .ofNat count)).toNat_lt
      have hrest := ih (s := s.fill (s.vmm.tables.vmmGetPhysAddr dest).toNat 1
        (s.phys (s.vmm.tables.vmmGetPhysAddr src))) hdest.tail hsrc.tail (by omega)
      have hcopy := KernelMemory.fill_copy (s := s) (hlast ▸ hlt) hapart
      rw [UInt32.ofNat_toNat] at hcopy
      rw [memcpy, bind_of_done (load8_mapped hmapped'), bind_of_done (store8_mapped hmapped), hrest,
        hcopy]

theorem memset_add (str : UInt32) (value : UInt8) (first rest : Nat) :
    memset str value (first + rest) =
      (memset str value first >>= fun _ => memset (str + .ofNat first) value rest) := by
  induction first generalizing str with
  | zero =>
      rw [Nat.zero_add, show str + .ofNat 0 = str from UInt32.add_zero str]
      rfl
  | succ first ih =>
      have hnext : str + 1 + .ofNat first = str + .ofNat (first + 1) := by
        rw [Nat.add_comm first, UInt32.ofNat_add, ← UInt32.add_assoc]
        rfl
      rw [Nat.add_right_comm, memset, memset, bind_assoc, ih, hnext]

theorem memcpy_add (dest src : UInt32) (first rest : Nat) :
    memcpy dest src (first + rest) =
      (memcpy dest src first >>= fun _ =>
        memcpy (dest + .ofNat first) (src + .ofNat first) rest) := by
  induction first generalizing dest src with
  | zero =>
      rw [Nat.zero_add, show dest + .ofNat 0 = dest from UInt32.add_zero dest,
        show src + .ofNat 0 = src from UInt32.add_zero src]
      rfl
  | succ first ih =>
      have hnext (a : UInt32) : a + 1 + .ofNat first = a + .ofNat (first + 1) := by
        rw [Nat.add_comm first, UInt32.ofNat_add, ← UInt32.add_assoc]
        rfl
      simp only [Nat.add_right_comm first 1 rest, memcpy, bind_assoc, ih, hnext]

/-! ## Whole pages -/

theorem memsetChunk_eq (hpos : 0 < count) (hpage : str.toNat % 4096 + count ≤ 4096) :
    memsetChunk str value count = memset str value count := by
  funext n s
  change (require (s.vmm.tables.Mapped str) >>= fun _ => _) n s = _
  by_cases hmapped : s.vmm.tables.Mapped str
  · rw [memset_range (.of_page hmapped hpage), require, if_pos hmapped]
    rfl
  · have hstore : store8 str value n s = .fault := by
      change (require (s.vmm.tables.Mapped str) >>= fun _ => _) n s = _
      rw [require, if_neg hmapped]
      rfl
    obtain ⟨count, rfl⟩ := Nat.exists_eq_succ_of_ne_zero (Nat.ne_of_gt hpos)
    rw [memset, bind_of_fault hstore, require, if_neg hmapped]
    rfl

theorem memsetPages_eq (value : UInt8) (pages : Nat) (str : UInt32) (count : Nat) :
    memsetPages value pages str count = memset str value count := by
  induction pages generalizing str count with
  | zero => rfl
  | succ pages ih =>
      rw [memsetPages]
      split
      · next hzero =>
        rw [hzero]
        rfl
      · next hne =>
        have hle : inPage str count ≤ count := Nat.min_le_left _ _
        have hpos : 0 < inPage str count := by
          rw [inPage]
          omega
        have hpage : str.toNat % 4096 + inPage str count ≤ 4096 := by
          rw [inPage]
          omega
        rw [memsetChunk_eq hpos hpage, ih, ← memset_add, Nat.add_sub_cancel' hle]

theorem memcpyChunk_eq (hdest : dest.toNat % 4096 + count ≤ 4096)
    (hsrc : src.toNat % 4096 + count ≤ 4096) :
    memcpyChunk dest src count = memcpy dest src count := by
  funext n s
  change (if Separate s dest src count then _ else memcpy dest src count) n s = _
  by_cases h : Separate s dest src count
  · obtain ⟨hmapped, hmapped', hapart⟩ := id h
    rw [memcpy_range (.of_page hmapped hdest) (.of_page hmapped' hsrc) hapart, if_pos h]
    rfl
  · rw [if_neg h]

theorem memcpyPages_eq (pages : Nat) (dest src : UInt32) (count : Nat) :
    memcpyPages pages dest src count = memcpy dest src count := by
  induction pages generalizing dest src count with
  | zero => rfl
  | succ pages ih =>
      have hle : inPage dest (inPage src count) ≤ count :=
        Nat.le_trans (Nat.min_le_left _ _) (Nat.min_le_left _ _)
      have hdest : dest.toNat % 4096 + inPage dest (inPage src count) ≤ 4096 := by
        simp only [inPage]
        omega
      have hsrc : src.toNat % 4096 + inPage dest (inPage src count) ≤ 4096 := by
        simp only [inPage]
        omega
      rw [memcpyPages, memcpyChunk_eq hdest hsrc, ih, ← memcpy_add, Nat.add_sub_cancel' hle]

/-- Nothing is lost when `memset` fills pages. -/
theorem memset_eq (pages : Nat) :
    memset = fun str value count => memsetPages value pages str count := by
  funext str value count
  rw [memsetPages_eq]

theorem memcpy_eq (pages : Nat) :
    memcpy = fun dest src count => memcpyPages pages dest src count := by
  funext dest src count
  rw [memcpyPages_eq]

/-! ## Slots -/

/-- `chainSlots` with slots that are filled at once. -/
def chainSlotsPages (objectSize : UInt32) : Nat → UInt32 → MemM UInt32
  | 0, current => return current
  | left + 1, current => do
      let nextNode := current + objectSize
      storePages current (Bytes.Layout.u32.encode nextNode)
      memsetPages poisonByte 1 (current + 4) (objectSize - 4).toNat
      chainSlotsPages objectSize left nextNode

theorem chainSlots_eq : chainSlots = chainSlotsPages := by
  funext objectSize left current
  induction left generalizing current with
  | zero => rfl
  | succ left ih =>
      rw [chainSlots, chainSlotsPages]
      simp only [store32, storeBytes_eq, memsetPages_eq, ih]

end AvrKernel.Memory

import AvrKernel.Kernel.HeapRun

/-!
# Addresses that callers pass to the heap

`kmalloc_is_valid` decides whether an address is that of an allocation by the bytes in front of it,
which may also be part of a payload, or have been left behind.
-/

namespace AvrKernel.Kernel

open Bytes Effect KernelM

variable {n : Nat} {k k' : KernelState} {live : List Allocation}

/-- The bitmap, the headers and the payloads are as they were. -/
structure KernelState.Untouched (k : KernelState) (live : List Allocation) (k' : KernelState) :
    Prop where
  bits : ∀ i < k.heap.blockCount.toNat, k'.bit i = k.bit i
  keeps : ∀ a ∈ live, k.Keeps k' a

theorem KernelState.Untouched.refl (k : KernelState) (live : List Allocation) :
    k.Untouched live k := ⟨fun _ _ => rfl, fun _ _ _ _ => rfl⟩

/-- An address is valid if it belongs to an allocation, and nothing happens through any other
one. -/
structure HandleExact (n : Nat) (k : KernelState) (live : List Allocation) (address : UInt32) :
    Prop where
  valid : (kmallocIsValid address).run n KernelState.handle k =
    some (decide (IsLive live address), k)
  kfree : ¬IsLive live address →
    ∃ k', (KernelM.kfree address).run n KernelState.handle k = some ((), k') ∧ k.Untouched live k'
  setFlags : ¬IsLive live address → ∀ flags,
    ∃ k', (kmallocSetFlags address flags).run n KernelState.handle k = some ((), k') ∧
      k.Untouched live k'
  setPermissions : ¬IsLive live address → ∀ permissions,
    ∃ k', (kmallocSetPermissions address permissions).run n KernelState.handle k = some ((), k') ∧
      k.Untouched live k'

theorem KernelState.Allocated.handleExact_iff (hall : k.Allocated live) (address : UInt32) :
    HandleExact n k live address ↔
      (IsLive live address ∨ ¬k.SpellsHeader (headerOf k.heap address)) := by
  obtain ⟨valid, hvalid, hspells⟩ := run_isValid (n := n) hall.placed address
  have hlive : IsLive live address → valid = true := by
    rintro ⟨a, ha, rfl⟩
    exact hspells.mpr (hall.spellsHeader ha)
  constructor
  · intro h
    by_cases hin : IsLive live address
    · exact .inl hin
    · have hanswer := h.valid
      rw [hvalid, decide_eq_false hin] at hanswer
      cases hanswer
      exact .inr fun hstray => Bool.false_ne_true (hspells.mpr hstray)
  · intro h
    have hstray : ¬IsLive live address → ¬k.SpellsHeader (headerOf k.heap address) :=
      fun hnot => h.resolve_left hnot
    constructor
    · rw [hvalid]
      by_cases hin : IsLive live address
      · rw [hlive hin, decide_eq_true hin]
      · have hfalse : ¬valid = true := fun htrue => hstray hin (hspells.mp htrue)
        rw [Bool.eq_false_iff.mpr hfalse, decide_eq_false hin]
    · exact fun hin => ⟨k, run_kfree_of_not_spells hall.placed (hstray hin), .refl k live⟩
    · exact fun hin flags =>
        ⟨k, run_kmallocSet_of_not_spells hall.placed (hstray hin) _, .refl k live⟩
    · exact fun hin permissions =>
        ⟨k, run_kmallocSet_of_not_spells hall.placed (hstray hin) _, .refl k live⟩

/-! ## The byte that headers are known by -/

/-- A header in which that byte stands in its own place only. -/
structure KMallocHeader.Quiet (header : KMallocHeader) : Prop where
  size : kmallocMagic ∉ Layout.u32.encode header.size
  flags : header.flags ≠ kmallocMagic
  type : header.type ≠ kmallocMagic
  perm : header.perm ≠ kmallocMagic
  padding : kmallocMagic ∉ header.padding.toList

theorem KMallocHeader.Quiet.eq_seven {header : KMallocHeader} (h : header.Quiet) {i : Nat}
    (hi : (KMallocHeader.layout.encode header)[i]? = some kmallocMagic) : i = 7 := by
  have hbytes : KMallocHeader.layout.encode header = Layout.u32.encode header.size ++
      (header.flags :: header.type :: header.perm :: header.magic :: header.padding.toList) := rfl
  have hlength : (Layout.u32.encode header.size).length = 4 := Layout.u32.encode_length _
  rw [hbytes] at hi
  by_cases hsize : i < 4
  · rw [List.getElem?_append_left (by omega)] at hi
    exact absurd (List.mem_of_getElem? hi) h.size
  · rw [List.getElem?_append_right (by omega), hlength] at hi
    obtain ⟨j, rfl⟩ := Nat.exists_eq_add_of_le (Nat.le_of_not_lt hsize)
    rw [Nat.add_sub_cancel_left] at hi
    rcases j with - | - | - | - | j
    · exact absurd (Option.some.inj hi) h.flags
    · exact absurd (Option.some.inj hi) h.type
    · exact absurd (Option.some.inj hi) h.perm
    · rfl
    · have hi : header.padding.toList[j]? = some kmallocMagic := hi
      exact absurd (List.mem_of_getElem? hi) h.padding

theorem quiet_newHeader {size : UInt32} (hsize : kmallocMagic ∉ Layout.u32.encode size) :
    (newHeader size).Quiet :=
  ⟨hsize, show (0 : UInt8) ≠ 0x55 by decide, show (0 : UInt8) ≠ 0x55 by decide,
    show (0 : UInt8) ≠ 0x55 by decide, show (0x55 : UInt8) ∉ (Vector.replicate 8 (0 : UInt8)).toList
      by decide⟩

namespace KernelState

/-- The byte stands at a place of the data area. -/
structure MagicAt (k : KernelState) (place : UInt32) : Prop where
  above : k.heap.reservedBlocks.toNat * k.heap.blockSize.toNat ≤ place.toNat
  below : place.toNat < k.heap.poolSize.toNat
  magic : k.memory (k.heap.heapBegin + place) = kmallocMagic

/-- In the data area the byte stands in the headers of the allocations only. -/
structure MagicInHeaders (k : KernelState) (live : List Allocation) : Prop where
  allocated : k.Allocated live
  magic : ∀ place, k.MagicAt place → ∃ a ∈ live, place = a.place k.heap + 7
  quiet : ∀ a ∈ live, (k.header (a.place k.heap)).Quiet

theorem Marked.magicAt (hmarked : k.Marked k') (h : k.heap.Placed) {place : UInt32}
    (hmagic : k'.MagicAt place) : k.MagicAt place := by
  have hbitmaps := h.bitmaps
  obtain ⟨habove, hbelow, hbyte⟩ := hmagic
  rw [hmarked.heap] at habove hbelow hbyte
  refine ⟨habove, hbelow, ?_⟩
  rw [← hmarked.outside _ ?_]
  · exact hbyte
  · rw [UInt32.add_comm, UInt32.add_sub_cancel]
    omega

/-- The byte was there before other bytes were written, or is one of them. -/
theorem magicAt_write {place : UInt32} {bytes : List UInt8} (hlength : bytes.length ≤ 2 ^ 32)
    {start : UInt32} (hmagic : (k.write start bytes).MagicAt place) :
    bytes[(place - start).toNat]? = some kmallocMagic ∨
      (bytes.length ≤ (place - start).toNat ∧ k.MagicAt place) := by
  obtain ⟨habove, hbelow, hbyte⟩ := hmagic
  have hdistance : k.heap.heapBegin + place - (k.heap.heapBegin + start) = place - start := by
    apply UInt32.toNat_inj.mp
    have hfirst := k.heap.heapBegin.toNat_lt
    have hsecond := place.toNat_lt
    have hthird := start.toNat_lt
    simp only [UInt32.toNat_sub, UInt32.toNat_add]
    omega
  by_cases hin : (place - start).toNat < bytes.length
  · left
    have hwritten := Mem.write_apply_of_lt k.memory (k.heap.heapBegin + start) hlength
      (x := k.heap.heapBegin + place) (by rwa [hdistance])
    rw [hdistance] at hwritten
    rw [← hwritten]
    exact congrArg some hbyte
  · refine .inr ⟨Nat.le_of_not_lt hin, habove, hbelow, ?_⟩
    rw [← Mem.write_apply_of_ge k.memory (k.heap.heapBegin + start) hlength
      (by rw [hdistance]; exact Nat.le_of_not_lt hin)]
    exact hbyte

theorem place_of_byte {header : KMallocHeader} (hheader : header.Quiet) {place start : UInt32}
    (hbyte : (KMallocHeader.layout.encode header)[(place - start).toNat]? = some kmallocMagic) :
    place = start + 7 := by
  have hseven : place - start = 7 := UInt32.toNat_inj.mp (hheader.eq_seven hbyte)
  rw [← hseven, UInt32.add_comm, UInt32.sub_add_cancel]

/-- Addresses that belong to no allocation are not taken for one. -/
theorem MagicInHeaders.not_spells (h : k.MagicInHeaders live) {address : UInt32}
    (hlive : ¬IsLive live address) : ¬k.SpellsHeader (headerOf k.heap address) := by
  intro hspells
  have hpool := hspells.below
  have hinside := h.allocated.placed.inside
  have hseven : (headerOf k.heap address + 7).toNat = (headerOf k.heap address).toNat + 7 :=
    Mem.toNat_add_of_lt (by simp only [UInt32.reduceToNat]; omega)
  have hmagic : k.MagicAt (headerOf k.heap address + 7) := by
    refine ⟨?_, ?_, ?_⟩
    · have habove := hspells.above
      omega
    · omega
    · exact hspells.byte
  obtain ⟨a, ha, hplace⟩ := h.magic _ hmagic
  refine hlive ⟨a, ha, ?_⟩
  have hsame : headerOf k.heap address = headerOf k.heap a.address :=
    (UInt32.add_left_inj 7).mp hplace
  rw [← add_headerOf k.heap address, hsame, add_headerOf]

theorem MagicInHeaders.writeHeader (h : k.MagicInHeaders live) {a : Allocation} (ha : a ∈ live)
    {header : KMallocHeader} (hheader : header.Quiet)
    (hall : (k.write (a.place k.heap) (KMallocHeader.layout.encode header)).Allocated live) :
    (k.write (a.place k.heap) (KMallocHeader.layout.encode header)).MagicInHeaders live := by
  have hlength : (KMallocHeader.layout.encode header).length = 16 :=
    KMallocHeader.layout.encode_length _
  refine ⟨hall, fun place hmagic => ?_, fun b hb => ?_⟩
  · rcases magicAt_write (by omega) hmagic with hbyte | ⟨-, hold⟩
    · exact ⟨a, ha, place_of_byte hheader hbyte⟩
    · exact h.magic place hold
  · by_cases hne : a = b
    · subst hne
      rw [write_heap, header_write]
      exact hheader
    · have hkeeps := keeps_writeHeader (h.allocated.apart_of_ne ha hb hne) h.allocated.placed
        (h.allocated.holds a ha).lies (h.allocated.holds b hb).lies (h.allocated.fits a ha)
        (h.allocated.fits b hb) header
      rw [write_heap, hkeeps.header_eq rfl]
      exact h.quiet b hb

/-- `kmalloc` has written the header of a new allocation. -/
theorem MagicInHeaders.gives (h : k.MagicInHeaders live) {a : Allocation} (hgives : k.Gives a k')
    (hfits : a.size.toNat + 16 < 2 ^ 32) (hsize : kmallocMagic ∉ Layout.u32.encode a.size) :
    k'.MagicInHeaders (a :: live) := by
  have hlength : (KMallocHeader.layout.encode (newHeader a.size)).length = 16 :=
    KMallocHeader.layout.encode_length _
  refine ⟨hgives.allocated h.allocated hfits, fun place hmagic => ?_, fun b hb => ?_⟩
  · rw [hgives.heap]
    obtain ⟨k₁, hmarked₁, hmarked₂⟩ := hgives.written
    have hplaced₁ : k₁.heap.Placed := hmarked₁.heap.symm ▸ h.allocated.placed
    rcases magicAt_write (by omega) (hmarked₂.magicAt hplaced₁ hmagic) with hbyte | ⟨-, hold⟩
    · exact ⟨a, List.mem_cons_self, place_of_byte (quiet_newHeader hsize) hbyte⟩
    · obtain ⟨b, hb, hplace⟩ := h.magic place (hmarked₁.magicAt h.allocated.placed hold)
      exact ⟨b, List.mem_cons_of_mem a hb, hplace⟩
  · rw [hgives.heap]
    rcases List.mem_cons.mp hb with rfl | hb
    · rw [hgives.header]
      exact quiet_newHeader hsize
    · rw [(hgives.keeps h.allocated hfits hb).header_eq hgives.heap]
      exact h.quiet b hb

/-- `kfree` has cleared the header of an allocation. -/
theorem MagicInHeaders.takes (h : k.MagicInHeaders live) {a : Allocation} (ha : a ∈ live)
    (htakes : k.Takes a k') : k'.MagicInHeaders (without live a.address) := by
  have hlength : (KMallocHeader.layout.encode freeHeader).length = 16 :=
    KMallocHeader.layout.encode_length _
  refine ⟨htakes.allocated h.allocated ha, fun place hmagic => ?_, fun b hb => ?_⟩
  · rw [htakes.heap]
    rcases magicAt_write (by omega) (htakes.written.magicAt h.allocated.placed hmagic) with
      hbyte | ⟨hbeside, hold⟩
    · have hnone : kmallocMagic ∉ KMallocHeader.layout.encode freeHeader := by decide
      exact absurd (List.mem_of_getElem? hbyte) hnone
    · obtain ⟨b, hb, rfl⟩ := h.magic place hold
      refine ⟨b, mem_without.mpr ⟨hb, fun haddress => ?_⟩, rfl⟩
      rw [h.allocated.eq_of_address hb ha haddress, UInt32.add_comm, UInt32.add_sub_cancel,
        hlength] at hbeside
      exact absurd hbeside (by decide)
  · obtain ⟨hmem, hne⟩ := mem_without.mp hb
    have hkeeps := htakes.keeps h.allocated ha hmem fun heq => hne (congrArg _ heq.symm)
    rw [htakes.heap, hkeeps.header_eq htakes.heap]
    exact h.quiet b hmem

/-- A caller has written other bytes. -/
theorem MagicInHeaders.write (h : k.MagicInHeaders live) {a : Allocation} (ha : a ∈ live)
    {offset : Nat} {source : List UInt8} (hinside : offset + source.length ≤ a.size.toNat)
    (hsource : kmallocMagic ∉ source) :
    (k.write (a.place k.heap + kmallocHeaderSize + .ofNat offset) source).MagicInHeaders live := by
  have hsize := a.size.toNat_lt
  obtain ⟨hall, hheader⟩ := h.allocated.write ha hinside
  refine ⟨hall, fun place hmagic => ?_, fun b hb => ?_⟩
  · rcases magicAt_write (by omega) hmagic with hbyte | ⟨-, hold⟩
    · exact absurd (List.mem_of_getElem? hbyte) hsource
    · exact h.magic place hold
  · by_cases hne : a = b
    · subst hne
      rw [write_heap, hheader]
      exact h.quiet a ha
    · rw [write_heap, (h.allocated.write_keeps ha hb hne hinside).header_eq rfl]
      exact h.quiet b hb

end KernelState

/-! ## Runs without that byte -/

/-- Sizes do not wrap, callers write into their own allocations, and none of what is written
holds the byte that headers are known by. Any address may be passed. -/
def HeapCall.Magicless (call : HeapCall) (_k : KernelState) (live : List Allocation) : Prop :=
  match call with
  | kmalloc size => size.toNat + 16 < 2 ^ 32 ∧ kmallocMagic ∉ Layout.u32.encode size
  | kfree _ => True
  | setFlags _ flags => flags ≠ kmallocMagic
  | setType _ type => type ≠ kmallocMagic
  | setPermissions _ permissions => permissions ≠ kmallocMagic
  | write destination source => InPayload live destination source.length ∧ kmallocMagic ∉ source

instance (call : HeapCall) (k : KernelState) (live : List Allocation) :
    Decidable (call.Magicless k live) :=
  match call with
  | .kmalloc _ => inferInstanceAs (Decidable (_ ∧ _))
  | .kfree _ => inferInstanceAs (Decidable True)
  | .setFlags _ flags => inferInstanceAs (Decidable (flags ≠ kmallocMagic))
  | .setType _ type => inferInstanceAs (Decidable (type ≠ kmallocMagic))
  | .setPermissions _ permissions => inferInstanceAs (Decidable (permissions ≠ kmallocMagic))
  | .write destination source =>
      inferInstanceAs (Decidable (InPayload live destination source.length ∧ kmallocMagic ∉ source))

namespace KernelState.MagicInHeaders

variable {address : UInt32}

theorem harmless (h : k.MagicInHeaders live) (address : UInt32) :
    IsLive live address ∨ ¬k.SpellsHeader (headerOf k.heap address) := by
  by_cases hlive : IsLive live address
  · exact .inl hlive
  · exact .inr (h.not_spells hlive)

theorem setHeader (h : k.MagicInHeaders live) (change : KMallocHeader → KMallocHeader)
    (hquiet : ∀ header : KMallocHeader, header.Quiet → (change header).Quiet)
    (hchange : KeepsExtent change)
    (hrun : ((kmallocSet change address).run n KernelState.handle k).map (fun r => (r.2, live)) =
      some (k', live')) : k'.MagicInHeaders live' := by
  have hall := h.allocated.setHeader change hchange (h.harmless address) hrun
  by_cases hlive : IsLive live address
  · obtain ⟨a, ha, rfl⟩ := hlive
    rw [run_kmallocSet h.allocated ha] at hrun
    cases hrun
    exact h.writeHeader ha (hquiet _ (h.quiet a ha)) hall
  · rw [run_kmallocSet_of_not_spells h.allocated.placed (h.not_spells hlive)] at hrun
    cases hrun
    exact h

theorem step (h : k.MagicInHeaders live) {call : HeapCall} (hcall : call.Magicless k live)
    (hstep : call.step n k live = some (k', live')) : k'.MagicInHeaders live' := by
  cases call with
  | kmalloc size =>
      obtain ⟨hfits, hsize⟩ := hcall
      rcases run_kmalloc (n := n) h.allocated.placed hfits with hrun | hrun |
        ⟨address, k₁, hrun, hgives⟩
      · rw [HeapCall.step, hrun] at hstep
        cases hstep
      · rw [HeapCall.step, hrun] at hstep
        cases hstep
        exact h
      · have hnull : address ≠ kmallocNull := hgives.notNull
        simp only [HeapCall.step, hrun, Option.map_some, if_neg hnull] at hstep
        cases hstep
        exact h.gives hgives hfits hsize
  | kfree address =>
      by_cases hlive : IsLive live address
      · obtain ⟨a, ha, rfl⟩ := hlive
        obtain ⟨k₁, hrun, htakes⟩ := run_kfree (n := n) h.allocated ha
        rw [HeapCall.step, hrun] at hstep
        cases hstep
        exact h.takes ha htakes
      · rw [HeapCall.step, run_kfree_of_not_spells h.allocated.placed (h.not_spells hlive)] at hstep
        cases hstep
        rwa [without_of_not_isLive hlive]
  | setFlags address flags =>
      exact h.setHeader (fun header => { header with flags })
        (fun _ hq => ⟨hq.size, hcall, hq.type, hq.perm, hq.padding⟩) (fun _ => ⟨rfl, rfl⟩) hstep
  | setType address type =>
      exact h.setHeader (fun header => { header with type })
        (fun _ hq => ⟨hq.size, hq.flags, hcall, hq.perm, hq.padding⟩) (fun _ => ⟨rfl, rfl⟩) hstep
  | setPermissions address permissions =>
      exact h.setHeader (fun header => { header with perm := permissions })
        (fun _ hq => ⟨hq.size, hq.flags, hq.type, hcall, hq.padding⟩) (fun _ => ⟨rfl, rfl⟩) hstep
  | write destination source =>
      obtain ⟨⟨a, ha, offset, rfl, hinside⟩, hsource⟩ := hcall
      rw [HeapCall.step, write_payload] at hstep
      cases hstep
      exact h.write ha hinside hsource

theorem of_run {k₀ : KernelState} (h₀ : k₀.MagicInHeaders [])
    (hrun : HeapRun n HeapCall.Magicless k₀ k live) : k.MagicInHeaders live := by
  induction hrun with
  | start => exact h₀
  | step _ hcall hstep ih => exact ih.step hcall hstep

end KernelState.MagicInHeaders

/-- In a heap that has been used without harm an address is taken for what it is unless it belongs
to no allocation and has the bytes of a header in front of it. They come from what callers write: in
a heap where only the headers hold the byte that they are known by, every address is taken for what
it is. -/
theorem handles_exact_iff (n : Nat) {start k₀ : KernelState} {blockSize totalMemory : UInt32}
    (hblock : 0 < blockSize.toNat) (htotal : 0 < totalMemory.toNat)
    (hinside : start.heap.heapBegin.toNat + totalMemory.toNat + 32 ≤ 2 ^ 32)
    (hinit : start.heapInit n blockSize totalMemory = some k₀) :
    (∀ k live, HeapRun n HeapCall.Harmless k₀ k live → ∀ address,
      (HandleExact n k live address ↔
        (IsLive live address ∨ ¬k.SpellsHeader (headerOf k.heap address)))) ∧
    ((∀ x : UInt32, (x - start.heap.heapBegin).toNat < totalMemory.toNat →
        start.memory x ≠ kmallocMagic) →
      ∀ k live, HeapRun n HeapCall.Magicless k₀ k live → ∀ address,
        HandleExact n k live address) := by
  obtain ⟨fresh, hfresh, hempty, hheap, hdata⟩ :=
    KernelState.heapInit_allocated (n := n) hblock htotal hinside
  rw [hinit] at hfresh
  cases hfresh
  constructor
  · intro k live hrun address
    exact (hrun.allocated (fun _ _ _ h => h) hempty).handleExact_iff address
  · intro hclean k live hrun address
    have hnone : ∀ place, ¬k₀.MagicAt place := by
      rintro place ⟨habove, hbelow, hmagic⟩
      have hbitmaps := hempty.placed.bitmaps
      have hplace : k₀.heap.heapBegin + place - k₀.heap.heapBegin = place := by
        rw [UInt32.add_comm, UInt32.add_sub_cancel]
      rw [hdata _ (by rw [hplace]; omega)] at hmagic
      have hnonzero : ¬(blockSize = 0 ∨ totalMemory = 0) := by
        rw [← toNat_eq_zero_iff, ← toNat_eq_zero_iff]
        omega
      rw [hheap, KernelHeap.init, if_neg hnonzero] at hplace hmagic hbelow
      exact hclean _ (by rw [hplace]; exact hbelow) hmagic
    have hmagic : k₀.MagicInHeaders [] :=
      ⟨hempty, fun place hat => absurd hat (hnone place), fun a ha => absurd ha List.not_mem_nil⟩
    have hfinal := hmagic.of_run hrun
    exact (hfinal.allocated.handleExact_iff address).mpr (hfinal.harmless address)

/-! ## A forged header -/

/-- The header of an allocation of 16 bytes. -/
def forgedHeader : List UInt8 := KMallocHeader.layout.encode (newHeader 16)

theorem heapRun_forged : HeapRun 0 HeapCall.Harmless .small
    { KernelState.smallWith 64 with
      memory := (KernelState.smallWith 64).memory.write 0x1020 forgedHeader }
    [⟨0x1020, 64⟩] := by
  have hsize : (HeapCall.kmalloc 64).Harmless .small [] :=
    show (64 : UInt32).toNat + 16 < _ by decide
  have hpayload : (HeapCall.write 0x1020 forgedHeader).Harmless (.smallWith 64) [⟨0x1020, 64⟩] :=
    ⟨⟨0x1020, 64⟩, List.mem_singleton_self _, 0, rfl, by decide⟩
  exact (HeapRun.start.step hsize step_kmalloc_small).step hpayload rfl

theorem handles_exact_iff_small :
    (HandleExact 0
        { KernelState.smallWith 64 with
          memory := (KernelState.smallWith 64).memory.write 0x1020 forgedHeader }
        [⟨0x1020, 64⟩] 0x1040 ↔
      (IsLive [⟨0x1020, 64⟩] 0x1040 ∨
        ¬KernelState.SpellsHeader
          { KernelState.smallWith 64 with
            memory := (KernelState.smallWith 64).memory.write 0x1020 forgedHeader }
          (headerOf (KernelState.smallWith 64).heap 0x1040))) ∧
    ∃ k, HeapRun 0 HeapCall.Magicless .small k [⟨0x1070, 16⟩, ⟨0x1020, 64⟩] ∧
      HandleExact 0 k [⟨0x1070, 16⟩, ⟨0x1020, 64⟩] 0x1030 := by
  -- `0x1030` lies in a payload, and has been passed to `kfree` before
  have hlive : (HeapCall.steps HeapCall.Magicless 0 .small [] [.kmalloc 64,
      .write 0x1020 [16, 0, 0, 0, 0, 0, 0, 0x54], .setFlags 0x1020 3, .kmalloc 16, .kfree 0x1030,
      .setPermissions 0x1030 7]).map Prod.snd = some [⟨0x1070, 16⟩, ⟨0x1020, 64⟩] := by
    decide +kernel
  obtain ⟨⟨k, live⟩, hsteps, rfl⟩ := Option.map_eq_some_iff.mp hlive
  have hrun := HeapRun.start.steps hsteps
  obtain ⟨hiff, hexact⟩ := handles_exact_iff 0 (by decide) (by decide) (by decide)
    KernelState.heapInit_blank
  exact ⟨hiff _ _ heapRun_forged 0x1040, k, hrun,
    hexact (fun _ _ => show (0 : UInt8) ≠ 0x55 by decide) k _ hrun 0x1030⟩

/-- A payload that begins with the bytes of a header makes the address behind them a valid one. -/
theorem forged_handle_valid :
    ¬∀ (start k₀ k : KernelState) (live : List Allocation),
      start.heap.heapBegin.toNat + 256 + 32 ≤ 2 ^ 32 → start.heapInit 0 16 256 = some k₀ →
        HeapRun 0 HeapCall.Harmless k₀ k live → ∀ address, HandleExact 0 k live address := by
  intro h
  have hexact := (h .blank .small _ _ (by decide) KernelState.heapInit_blank heapRun_forged
    0x1030).valid
  have hanswer := congrArg (Option.map Prod.fst) hexact
  have hvalid : ((kmallocIsValid 0x1030).run 0 KernelState.handle
      { KernelState.smallWith 64 with
        memory := (KernelState.smallWith 64).memory.write 0x1020 forgedHeader }).map
      Prod.fst = some true := by decide +kernel
  rw [hvalid] at hanswer
  exact absurd hanswer (by decide)

end AvrKernel.Kernel

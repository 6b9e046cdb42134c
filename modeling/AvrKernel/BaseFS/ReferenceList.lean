import AvrKernel.BaseFS.Directory
import AvrKernel.BaseFS.Rules
import AvrKernel.Lib.BlockList

/-!
# Reference lists

The references of a directory are a collection in blocks: the first block lies
behind the header, the others are a doubly linked chain of extents.
-/

namespace AvrKernel.BaseFS

open Bytes Effect BlockList

/-- References, and the allocated bytes behind them. -/
structure Slots where
  refs : List UInt32
  slack : List UInt8

namespace Slots

def block (s : Slots) : Block UInt32 := ⟨s.refs, s.slack.length / 4⟩

@[simp] theorem block_elems (s : Slots) : s.block.elems = s.refs := rfl

/-- The slots with `x` in the first free one. -/
def put (s : Slots) (x : UInt32) : Slots := ⟨s.refs ++ [x], s.slack.drop 4⟩

/-- The slots without the first `x`, whose slot becomes a free one. -/
def take (s : Slots) (x : UInt32) : Slots := ⟨s.refs.erase x, Layout.u32.encode fsNull ++ s.slack⟩

theorem block_put (s : Slots) (x : UInt32) :
    (s.put x).block = ⟨s.block.elems ++ [x], s.block.room - 1⟩ := by
  simp only [block, put, List.length_drop, Block.mk.injEq, true_and]
  omega

theorem block_take (s : Slots) (x : UInt32) :
    (s.take x).block = ⟨s.block.elems.erase x, s.block.room + 1⟩ := by
  have hlen : (Layout.u32.encode fsNull).length = 4 := Layout.u32.encode_length _
  simp only [block, take, List.length_append, hlen, Block.mk.injEq, true_and]
  omega

theorem room_pos {s : Slots} : 0 < s.block.room ↔ 4 ≤ s.slack.length := by
  simp only [block]
  omega

end Slots

structure DirExtent extends Slots where
  address : UInt32

namespace DirExtent

def header (e : DirExtent) (prev next : UInt32) : FSDirectoryExtent :=
  ⟨⟨next, prev⟩, .ofNat e.refs.length⟩

@[simp] theorem header_next (e : DirExtent) (prev next : UInt32) :
    (e.header prev next).extent.next = next := rfl

/-- The extent with `x` in the first free slot. -/
def put (e : DirExtent) (x : UInt32) : DirExtent := { e with toSlots := e.toSlots.put x }

/-- The extent without the first `x`. -/
def take (e : DirExtent) (x : UInt32) : DirExtent := { e with toSlots := e.toSlots.take x }

/-- The allocated bytes of an extent between the ones at `prev` and `next`. -/
def bytes (e : DirExtent) (prev next : UInt32) : List UInt8 :=
  FSDirectoryExtent.layout.encode (e.header prev next) ++ (Layout.words e.refs ++ e.slack)

@[simp] theorem bytes_length (e : DirExtent) (prev next : UInt32) :
    (e.bytes prev next).length = 12 + 4 * e.refs.length + e.slack.length := by
  simp [bytes, FSDirectoryExtent.layout.encode_length, Nat.add_assoc]

/-- The address of the first extent of a chain in front of `next`. -/
def first (es : List DirExtent) (next : UInt32) : UInt32 := (es.head?.map address).getD next

/-- The address of the last extent of a chain behind `prev`. -/
def last (prev : UInt32) (es : List DirExtent) : UInt32 := (es.getLast?.map address).getD prev

@[simp] theorem first_nil (next : UInt32) : first [] next = next := rfl

@[simp] theorem first_cons (e : DirExtent) (es : List DirExtent) (next : UInt32) :
    first (e :: es) next = e.address := rfl

@[simp] theorem last_nil (prev : UInt32) : last prev [] = prev := rfl

@[simp] theorem last_cons (e : DirExtent) (es : List DirExtent) (prev : UInt32) :
    last prev (e :: es) = last e.address es := by
  rw [last, last, List.getLast?_cons]
  cases es.getLast? <;> rfl

theorem first_append (es fs : List DirExtent) (next : UInt32) :
    first (es ++ fs) next = first es (first fs next) := by
  cases es <;> rfl

/-- The extents without the first `x`; one that has nothing else is dropped. -/
def withdraw (x : UInt32) : List DirExtent → List DirExtent
  | [] => []
  | e :: es =>
      if x ∈ e.refs then if e.refs.erase x = [] then es else e.take x :: es
      else e :: withdraw x es

/-- Extents in front that do not have the reference are passed by. -/
theorem withdraw_append {x : UInt32} {done rest : List DirExtent}
    (hout : ∀ e ∈ done, x ∉ e.refs) : withdraw x (done ++ rest) = done ++ withdraw x rest := by
  induction done with
  | nil => rfl
  | cons e done ih =>
      rw [List.cons_append, withdraw, if_neg (hout e List.mem_cons_self),
        ih fun f hf => hout f (List.mem_cons_of_mem _ hf), List.cons_append]

theorem withdraw_blocks (x : UInt32) (es : List DirExtent) :
    ((withdraw x es).map fun e => e.block) = BlockList.withdraw x (es.map fun e => e.block) := by
  induction es with
  | nil => rfl
  | cons e es ih =>
      have htake : (e.take x).block = ⟨e.block.elems.erase x, e.block.room + 1⟩ :=
        Slots.block_take _ _
      rw [withdraw, List.map_cons, BlockList.withdraw, Slots.block_elems]
      by_cases hin : x ∈ e.refs
      · rw [if_pos hin, if_pos hin]
        by_cases hlast : e.refs.erase x = []
        · rw [if_pos hlast, if_pos hlast]
        · rw [if_neg hlast, if_neg hlast, List.map_cons, htake, Slots.block_elems]
      · rw [if_neg hin, if_neg hin, List.map_cons, ih]

/-- The ends of a chain depend on its addresses only. -/
theorem first_congr {es fs : List DirExtent} (h : fs.map address = es.map address)
    (next : UInt32) : first fs next = first es next := by
  rw [first, first, ← List.head?_map, ← List.head?_map, h]

end DirExtent

namespace Store

variable {g : FSGeometry} {S S' : Store g} {es fs : List DirExtent} {prev next : UInt32}

/-- The store holds the extents, linked to each other between `prev` and `next`. -/
def Chained (S : Store g) : UInt32 → List DirExtent → UInt32 → Prop
  | _, [], _ => True
  | prev, e :: es, next =>
      S.cells e.address = some (e.bytes prev (DirExtent.first es next)) ∧
        Chained S e.address es next

theorem chained_append : S.Chained prev (es ++ fs) next ↔
    S.Chained prev es (DirExtent.first fs next) ∧ S.Chained (DirExtent.last prev es) fs next := by
  induction es generalizing prev with
  | nil => simp [Chained]
  | cons e es ih =>
      simp only [List.cons_append, Chained, ih, DirExtent.first_append, DirExtent.last_cons,
        and_assoc]

/-- Chains depend on their own allocations only. -/
theorem Chained.frame (h : S.Chained prev es next)
    (hsame : ∀ e ∈ es, S'.cells e.address = S.cells e.address) : S'.Chained prev es next := by
  induction es generalizing prev with
  | nil => trivial
  | cons e es ih =>
      exact ⟨(hsame e List.mem_cons_self).trans h.1,
        ih h.2 fun e' he' => hsame e' (List.mem_cons_of_mem _ he')⟩

theorem Chained.update (h : S.Chained prev es next) {a : UInt32} {cell : Option (List UInt8)}
    (ha : a ∉ es.map DirExtent.address) (hcells : S'.cells = Function.update S.cells a cell) :
    S'.Chained prev es next :=
  h.frame fun e he => by
    rw [hcells, Function.update_of_ne]
    exact fun heq => ha (heq ▸ List.mem_map_of_mem he)

theorem Chained.held (h : S.Chained prev es next) {a : UInt32}
    (ha : a ∈ es.map DirExtent.address) : S.cells a ≠ none := by
  induction es generalizing prev with
  | nil => cases ha
  | cons e es ih =>
      rw [List.map_cons, List.mem_cons] at ha
      rcases ha with rfl | hmem
      · simp [h.1]
      · exact ih h.2 hmem

theorem Chained.refs_length_le (h : S.Chained prev es next) :
    (elems (es.map fun e => e.block)).length ≤
      ((es.map DirExtent.address).map fun a => ((S.cells a).getD []).length).sum := by
  induction es generalizing prev with
  | nil => exact Nat.zero_le _
  | cons e es ih =>
      have hlength := e.bytes_length prev (DirExtent.first es next)
      have hrest := ih h.2
      rw [List.map_cons, elems_cons, List.length_append, Slots.block_elems, List.map_cons,
        List.map_cons, List.sum_cons, h.1, Option.getD_some]
      omega

/-- The link in front of a chain is null only if the chain is empty. -/
theorem Chained.first_eq_fsNull (h : S.Chained prev es fsNull) :
    DirExtent.first es fsNull = fsNull ↔ es = [] := by
  cases es with
  | nil => simp
  | cons e es => simpa using S.ne_fsNull h.1

/-- The number of references in an allocation tells which they are. -/
theorem words_refs_eq {refs refs' : List UInt32} {slack slack' : List UInt8}
    (h : Layout.words refs ++ slack = Layout.words refs' ++ slack')
    (hcount : UInt32.ofNat refs.length = .ofNat refs'.length)
    (hlt : refs.length < 2 ^ 32) (hlt' : refs'.length < 2 ^ 32) : refs' = refs := by
  have hlength : refs.length = refs'.length := by
    have hnat := congrArg UInt32.toNat hcount
    simp only [UInt32.toNat_ofNat'] at hnat
    omega
  exact (Layout.words_injective (List.append_inj h (by simp [hlength])).1).symm

theorem Chained.refs_lt {prev next : UInt32} {e : DirExtent} {es : List DirExtent}
    (h : S.Chained prev (e :: es) next) : e.refs.length < 2 ^ 32 := by
  have hlt := S.length_lt h.1
  rw [DirExtent.bytes_length] at hlt
  omega

/-- The first extent of a directory tells where the others are and what they list. -/
theorem Chained.extents_eq {prev prev' : UInt32} {es es' : List DirExtent}
    (h : S.Chained prev es fsNull) (h' : S.Chained prev' es' fsNull)
    (hfirst : DirExtent.first es' fsNull = DirExtent.first es fsNull) :
    es'.map DirExtent.address = es.map DirExtent.address ∧
      es'.map (fun e => e.refs) = es.map fun e => e.refs := by
  induction es generalizing prev prev' es' with
  | nil =>
      rw [DirExtent.first_nil, h'.first_eq_fsNull] at hfirst
      subst hfirst
      exact ⟨rfl, rfl⟩
  | cons e es ih =>
      cases es' with
      | nil => exact absurd hfirst.symm (S.ne_fsNull h.1)
      | cons e' es' =>
          have haddress : e'.address = e.address := hfirst
          have hcell := h'.1
          rw [haddress, h.1, Option.some_inj, DirExtent.bytes, DirExtent.bytes] at hcell
          obtain ⟨hheader, hslots⟩ :=
            List.append_inj hcell (by simp only [FSDirectoryExtent.layout.encode_length])
          have hsame := congrArg FSDirectoryExtent.layout.decode hheader
          rw [FSDirectoryExtent.layout.decode_encode_self,
            FSDirectoryExtent.layout.decode_encode_self] at hsame
          have hnext : DirExtent.first es' fsNull = DirExtent.first es fsNull :=
            (congrArg (fun header => header.extent.next) hsame).symm
          have hrefs := words_refs_eq hslots
            (congrArg (fun header => header.referenceCount) hsame) h.refs_lt h'.refs_lt
          obtain ⟨haddresses, hlists⟩ := ih h.2 h'.2 hnext
          simp only [List.map_cons, haddress, haddresses, hrefs, hlists, and_self]

end Store

/-- A directory as stored: its header, the slots behind it, and the extents. -/
structure Directory where
  header : FSDirectoryHeader
  slots : Slots
  extents : List DirExtent

namespace Directory

/-- The blocks in which the references are collected. -/
def blocks (D : Directory) : List (Block UInt32) :=
  D.slots.block :: D.extents.map fun e => e.block

/-- All references. -/
def refs (D : Directory) : List UInt32 := elems D.blocks

/-- The directory without the first `x`. -/
def without (D : Directory) (x : UInt32) : Directory :=
  if x ∈ D.slots.refs then
    { D with
      header.referenceCount := .ofNat (D.slots.take x).refs.length
      slots := D.slots.take x }
  else
    { D with
      header.extent.next := DirExtent.first (DirExtent.withdraw x D.extents) fsNull
      extents := DirExtent.withdraw x D.extents }

theorem without_blocks (D : Directory) (x : UInt32) : (D.without x).blocks = remove x D.blocks := by
  have hblocks : D.blocks = D.slots.block :: D.extents.map fun e => e.block := rfl
  have htake : (D.slots.take x).block = ⟨D.slots.refs.erase x, D.slots.block.room + 1⟩ :=
    Slots.block_take _ _
  rw [without, hblocks, remove, Slots.block_elems]
  split
  next hin =>
    rw [← htake]
    rfl
  next hout =>
    rw [← DirExtent.withdraw_blocks]
    rfl

/-- The allocations of the directory at `address`. -/
def addresses (D : Directory) (address : UInt32) : List UInt32 :=
  address :: D.extents.map DirExtent.address

end Directory

/-- The store holds a directory at `address`. -/
structure Store.DirectoryAt {g : FSGeometry} (S : Store g) (address : UInt32) (D : Directory) :
    Prop where
  cell : S.cells address = some
    (FSDirectoryHeader.layout.encode D.header ++ (Layout.words D.slots.refs ++ D.slots.slack))
  count : D.header.referenceCount = .ofNat D.slots.refs.length
  next : D.header.extent.next = DirExtent.first D.extents fsNull
  chained : S.Chained address D.extents fsNull
  nodup : (D.addresses address).Nodup

namespace Store.DirectoryAt

variable {g : FSGeometry} {S : Store g} {address : UInt32} {D : Directory}

theorem held (h : S.DirectoryAt address D) : S.cells address ≠ none := by
  simp [h.cell]

theorem nodup_extents (h : S.DirectoryAt address D) :
    (D.extents.map DirExtent.address).Nodup :=
  (List.nodup_cons.mp h.nodup).2

theorem not_mem_extents (h : S.DirectoryAt address D) :
    address ∉ D.extents.map DirExtent.address :=
  (List.nodup_cons.mp h.nodup).1

/-- No walk along the extents is longer than the device has blocks. -/
theorem length_lt (h : S.DirectoryAt address D) : D.extents.length < g.blockCount.toNat := by
  have hle := Store.length_le (S := S) h.nodup fun a ha =>
    (List.mem_cons.mp ha).elim (fun heq => heq ▸ h.held) h.chained.held
  simp only [Directory.addresses, List.length_cons, List.length_map] at hle
  omega

theorem refs_lt (h : S.DirectoryAt address D) : 48 + 4 * D.slots.refs.length < 2 ^ 32 := by
  have hlt := S.length_lt h.cell
  simp only [List.length_append, FSDirectoryHeader.layout.encode_length,
    FSDirectoryHeader.layout_size, Layout.words_length] at hlt
  omega

/-- An address holds one directory. -/
theorem same (h : S.DirectoryAt address D) {D' : Directory} (h' : S.DirectoryAt address D') :
    D'.refs = D.refs ∧ D'.addresses address = D.addresses address := by
  have hcell := h'.cell
  rw [h.cell, Option.some_inj] at hcell
  obtain ⟨hheader, hslots⟩ :=
    List.append_inj hcell (by simp only [FSDirectoryHeader.layout.encode_length])
  have hsame := congrArg FSDirectoryHeader.layout.decode hheader
  rw [FSDirectoryHeader.layout.decode_encode_self, FSDirectoryHeader.layout.decode_encode_self]
    at hsame
  have hcount : UInt32.ofNat D.slots.refs.length = .ofNat D'.slots.refs.length := by
    rw [← h.count, ← h'.count, hsame]
  have hlt := h.refs_lt
  have hlt' := h'.refs_lt
  have hrefs := words_refs_eq hslots hcount (by omega) (by omega)
  obtain ⟨haddresses, hlists⟩ :=
    h.chained.extents_eq h'.chained (by rw [← h.next, ← h'.next, hsame])
  refine ⟨?_, by rw [Directory.addresses, Directory.addresses, haddresses]⟩
  have helems : ∀ D : Directory,
      D.refs = D.slots.refs ++ (D.extents.map fun e => e.refs).flatten := by
    intro D
    simp [Directory.refs, Directory.blocks, BlockList.elems, List.flatMap, Function.comp_def]
  rw [helems, helems, hrefs, hlists]

/-- The references of a directory fit into the address space. -/
theorem refs_length_lt (h : S.DirectoryAt address D) : D.refs.length < 2 ^ 32 := by
  have hsum := Store.length_sum_lt h.nodup fun a ha =>
    (List.mem_cons.mp ha).elim (fun heq => heq ▸ h.held) h.chained.held
  refine lt_of_le_of_lt ?_ hsum
  rw [Directory.addresses, List.map_cons, List.sum_cons, h.cell, Option.getD_some, Directory.refs,
    Directory.blocks, elems_cons, List.length_append, Slots.block_elems]
  refine Nat.add_le_add ?_ h.chained.refs_length_le
  simp only [List.length_append, Layout.words_length]
  omega

end Store.DirectoryAt

namespace FS

variable {g : FSGeometry} {n : Nat} {A : FSCall → Device → Prop} {B : UInt32 → Device → Prop}
  {S : Store g} {a base x : UInt32} {before after payload : List UInt8} {refs : List UInt32}

/-! ## Headers -/

theorem ensures_allocHeaderRead {post : Option FSAllocHeader → Store g → Prop}
    (hcell : S.cells a = some payload) (h : post (some ⟨.ofNat payload.length⟩) S) :
    (world g n A B).Ensures (fsFileAllocHeaderRead a) S post := by
  have hfour := S.four_le hcell
  have hpos := (S.placed hcell).sized.1
  rw [fsFileAllocHeaderRead, if_neg (S.ne_fsNull hcell), if_neg]
  · refine Refine.ensures_bind (ensures_readHeader hcell (Refine.ensures_ret ?_))
    rwa [if_neg]
    intro hzero
    dsimp only at hpos hzero
    rw [hzero] at hpos
    exact absurd hpos (by decide)
  · rw [UInt32.lt_iff_toNat_lt]
    exact Nat.not_lt.mpr hfour

theorem ensures_walkLimit {post : UInt32 → Store g → Prop} (hpos : 0 < g.blockCount.toNat)
    (h : post g.blockCount S) : (world g n A B).Ensures fsDirectoryWalkLimit S post := by
  refine Refine.ensures_bind (ensures_context (Refine.ensures_ret ?_))
  rwa [if_neg]
  intro hzero
  rw [hzero] at hpos
  exact absurd hpos (by decide)

theorem ensures_maxRefs {post : UInt32 → Store g → Prop} {size : UInt32}
    (hcell : S.cells a = some payload) (hsize : size.toNat ≤ payload.length)
    (h : ∀ max : UInt32, max.toNat = (payload.length - size.toNat) / 4 → post max S) :
    (world g n A B).Ensures (maxRefs size a) S post := by
  have hlen : (UInt32.ofNat payload.length).toNat = payload.length := by
    rw [UInt32.toNat_ofNat', Nat.mod_eq_of_lt (S.length_lt hcell)]
  refine Refine.ensures_bind (ensures_allocHeaderRead hcell (Refine.ensures_ret (h _ ?_)))
  dsimp only
  split
  next hle =>
    rw [UInt32.le_iff_toNat_le, hlen] at hle
    rw [Nat.sub_eq_zero_of_le hle]
    rfl
  next hlt =>
    rw [UInt32.toNat_div, Mem.toNat_sub_of_le (by rwa [hlen]), hlen]
    rfl

theorem ensures_headerRead {header : FSDirectoryHeader}
    {post : Option FSDirectoryHeader → Store g → Prop}
    (hcell : S.cells a = some (FSDirectoryHeader.layout.encode header ++ after))
    (h : post (some header) S) : (world g n A B).Ensures (fsDirectoryHeaderRead a) S post := by
  refine Refine.ensures_bind (ensures_allocHeaderRead hcell ?_)
  have hlt := S.length_lt hcell
  dsimp only
  rw [if_neg]
  · exact Refine.ensures_bind (ensures_readStruct hcell (Refine.ensures_ret h))
  · rw [UInt32.lt_iff_toNat_lt, UInt32.toNat_ofNat', Nat.mod_eq_of_lt hlt]
    simp only [List.length_append, FSDirectoryHeader.layout.encode_length,
      FSDirectoryHeader.layout_size, UInt32.reduceToNat]
    omega

theorem headerRead_null : fsDirectoryHeaderRead fsNull = return none := by
  rw [fsDirectoryHeaderRead, fsFileAllocHeaderRead, if_pos rfl]
  rfl

/-- What is too small for a directory is not read as one. -/
theorem ensures_headerRead_small {post : Option FSDirectoryHeader → Store g → Prop}
    (hcell : S.cells a = some payload) (hsmall : payload.length < 48) (h : post none S) :
    (world g n A B).Ensures (fsDirectoryHeaderRead a) S post := by
  refine Refine.ensures_bind (ensures_allocHeaderRead hcell ?_)
  dsimp only
  rw [if_pos]
  · exact Refine.ensures_ret h
  · rw [UInt32.lt_iff_toNat_lt, UInt32.toNat_ofNat', Nat.mod_eq_of_lt (S.length_lt hcell)]
    exact hsmall

theorem ensures_dirExtentRead {extent : FSDirectoryExtent}
    {post : Option FSDirectoryExtent → Store g → Prop}
    (hcell : S.cells a = some (FSDirectoryExtent.layout.encode extent ++ after))
    (h : post (some extent) S) : (world g n A B).Ensures (fsDirectoryExtentRead a) S post := by
  refine Refine.ensures_bind (ensures_allocHeaderRead hcell ?_)
  have hlt := S.length_lt hcell
  dsimp only
  rw [if_neg]
  · exact Refine.ensures_bind (ensures_readStruct hcell (Refine.ensures_ret h))
  · rw [UInt32.lt_iff_toNat_lt, UInt32.toNat_ofNat', Nat.mod_eq_of_lt hlt]
    simp only [List.length_append, FSDirectoryExtent.layout.encode_length,
      FSDirectoryExtent.layout_size, UInt32.reduceToNat]
    omega

/-! ## Slots -/

theorem slot_address (hbase : base = a + .ofNat before.length) (done : List UInt32) :
    base + .ofNat done.length * 4 = a + .ofNat (before ++ Layout.words done).length := by
  rw [List.length_append, Layout.words_length, UInt32.ofNat_add, UInt32.ofNat_mul, hbase,
    UInt32.add_assoc, UInt32.mul_comm]
  rfl

theorem ensures_readSlot {done rest : List UInt32} {post : UInt32 → Store g → Prop}
    (hcell : S.cells a = some (before ++ Layout.words (done ++ x :: rest) ++ after))
    (hbase : base = a + .ofNat before.length) (h : post x S) :
    (world g n A B).Ensures (readWord (base + .ofNat done.length * 4)) S post := by
  have hslot : S.cells a = some ((before ++ Layout.words done) ++ Layout.u32.encode x ++
      (Layout.words rest ++ after)) := by
    rw [hcell, Layout.words_append, Layout.words_cons]
    simp only [List.append_assoc]
  exact ensures_readStruct_at hslot (slot_address hbase done) h

theorem ensures_writeSlot {done rest : List UInt32} {old : UInt32} {post : Unit → Store g → Prop}
    (hcell : S.cells a = some (before ++ Layout.words (done ++ old :: rest) ++ after))
    (hbase : base = a + .ofNat before.length)
    (h : ∀ S' : Store g, S'.cells = Function.update S.cells a
      (some (before ++ Layout.words (done ++ x :: rest) ++ after)) → post () S') :
    (world g n A B).Ensures (writeWord (base + .ofNat done.length * 4) x) S post := by
  have hslot : S.cells a = some ((before ++ Layout.words done) ++ Layout.u32.encode old ++
      (Layout.words rest ++ after)) := by
    rw [hcell, Layout.words_append, Layout.words_cons]
    simp only [List.append_assoc]
  refine ensures_writeStruct_at hslot (slot_address hbase done) (Layout.u32.encode_length _)
    fun S' hcells => h S' ?_
  rw [hcells, Layout.words_append, Layout.words_cons]
  simp only [List.append_assoc]

theorem ensures_writeFree (hcell : S.cells a = some (before ++ Layout.words refs ++ after))
    (hbase : base = a + .ofNat before.length) (hroom : 4 ≤ after.length)
    {post : Unit → Store g → Prop}
    (h : ∀ S' : Store g, S'.cells = Function.update S.cells a
      (some (before ++ Layout.words (refs ++ [x]) ++ after.drop 4)) → post () S') :
    (world g n A B).Ensures (writeWord (base + .ofNat refs.length * 4) x) S post := by
  rw [← List.take_append_drop 4 after, ← List.append_assoc] at hcell
  refine ensures_writeStruct_at hcell (slot_address hbase refs) (List.length_take_of_le hroom)
    fun S' hcells => h S' ?_
  rw [hcells, Layout.words_append, Layout.words_cons, Layout.words_nil, List.append_nil]
  simp only [List.append_assoc]

/-- The search among references finds the first one. -/
theorem ensures_findReference {done rest : List UInt32}
    (hcell : S.cells a = some (before ++ Layout.words (done ++ rest) ++ after))
    (hbase : base = a + .ofNat before.length) {post : Option UInt32 → Store g → Prop}
    (hnone : x ∉ rest → post none S)
    (hsome : ∀ front back : List UInt32, rest = front ++ x :: back → x ∉ front →
      post (some (.ofNat (done.length + front.length))) S) :
    (world g n A B).Ensures (findReference base x rest.length (.ofNat done.length)) S post := by
  induction rest generalizing done with
  | nil => exact Refine.ensures_ret (hnone List.not_mem_nil)
  | cons r rest ih =>
      rw [List.length_cons, findReference]
      refine Refine.ensures_bind (ensures_readSlot hcell hbase ?_)
      by_cases heq : r = x
      · rw [if_pos heq]
        exact Refine.ensures_ret (hsome [] rest (by rw [heq]; rfl) List.not_mem_nil)
      · rw [if_neg heq]
        have hstep : UInt32.ofNat done.length + 1 = .ofNat (done ++ [r]).length := by
          rw [List.length_append, UInt32.ofNat_add]
          rfl
        rw [List.append_cons] at hcell
        rw [hstep]
        refine ih hcell (fun hout => hnone ?_) fun front back hsplit hout => ?_
        · rw [List.mem_cons, not_or]
          exact ⟨Ne.symm heq, hout⟩
        · have hfound := hsome (r :: front) back (by rw [hsplit]; rfl) (by
            rw [List.mem_cons, not_or]
            exact ⟨Ne.symm heq, hout⟩)
          rwa [show (done ++ [r]).length + front.length = done.length + (r :: front).length by
            simp only [List.length_append, List.length_cons, List.length_nil]
            omega]

/-- Moving references to the front leaves the last slot as it was. -/
theorem ensures_shiftReferences {done rest : List UInt32} {r : UInt32}
    (hcell : S.cells a = some (before ++ Layout.words (done ++ r :: rest) ++ after))
    (hbase : base = a + .ofNat before.length) {post : Unit → Store g → Prop}
    (h : ∀ (S' : Store g) (old : UInt32), S'.cells = Function.update S.cells a
      (some (before ++ Layout.words (done ++ rest ++ [old]) ++ after)) → post () S') :
    (world g n A B).Ensures (shiftReferences base rest.length (.ofNat done.length)) S post := by
  induction rest generalizing S done r with
  | nil =>
      refine Refine.ensures_ret (h S r ?_)
      rw [List.append_nil, ← hcell, Function.update_eq_self]
  | cons next rest ih =>
      rw [List.length_cons, shiftReferences]
      have hstep : UInt32.ofNat done.length + 1 = .ofNat (done ++ [r]).length := by
        rw [List.length_append, UInt32.ofNat_add]
        rfl
      have hstep' : UInt32.ofNat done.length + 1 = .ofNat (done ++ [next]).length := by
        rw [List.length_append, UInt32.ofNat_add]
        rfl
      have hcell' := hcell
      rw [List.append_cons] at hcell'
      refine Refine.ensures_bind ?_
      rw [hstep]
      refine ensures_readSlot hcell' hbase (Refine.ensures_bind ?_)
      refine ensures_writeSlot hcell hbase fun S₁ hcells => ?_
      rw [← hstep, hstep']
      refine ih (r := next) ?_ fun S' old hcells' => h S' old ?_
      · rw [hcells, Function.update_self, List.append_cons]
      · rw [hcells', hcells, Function.update_idem, ← List.append_cons]

/-- Removing a reference closes the gap and nulls the slot that becomes free. -/
theorem ensures_removeFrom (hcell : S.cells a = some (before ++ Layout.words refs ++ after))
    (hbase : base = a + .ofNat before.length) {post : Bool → Store g → Prop}
    (hnone : x ∉ refs → post false S)
    (hsome : x ∈ refs → ∀ S' : Store g, S'.cells = Function.update S.cells a
      (some (before ++ Layout.words (refs.erase x) ++ (Layout.u32.encode fsNull ++ after))) →
        post true S') :
    (world g n A B).Ensures (removeFrom base x (.ofNat refs.length)) S post := by
  have hlt := S.length_lt hcell
  simp only [List.length_append, Layout.words_length] at hlt
  have hcount : (UInt32.ofNat refs.length).toNat = refs.length := by
    rw [UInt32.toNat_ofNat', Nat.mod_eq_of_lt (by omega)]
  rw [removeFrom, hcount]
  have hslots : S.cells a = some (before ++ Layout.words ([] ++ refs) ++ after) := hcell
  refine Refine.ensures_bind (ensures_findReference hslots hbase
    (fun hout => Refine.ensures_ret (hnone hout)) ?_)
  rintro front back rfl hout
  rw [List.length_append, List.length_cons] at hlt
  have hindex : (UInt32.ofNat front.length).toNat = front.length := by
    rw [UInt32.toNat_ofNat', Nat.mod_eq_of_lt (by omega)]
  have hbehind : (front ++ x :: back).length - (front.length + 1) = back.length := by
    simp only [List.length_append, List.length_cons]
    omega
  rw [List.length_nil, Nat.zero_add]
  dsimp only
  rw [hindex, hbehind]
  refine Refine.ensures_bind (ensures_shiftReferences hcell hbase fun S₁ old hcells₁ => ?_)
  have hlast : UInt32.ofNat (front ++ x :: back).length - 1 = .ofNat (front ++ back).length := by
    simp only [List.length_append, List.length_cons, ← Nat.add_assoc, UInt32.ofNat_add]
    exact UInt32.add_sub_cancel _ _
  rw [hlast]
  have hcell₁ : S₁.cells a =
    some (before ++ Layout.words (front ++ back ++ old :: []) ++ after) := by
    rw [hcells₁, Function.update_self]
  refine Refine.ensures_bind (ensures_writeSlot hcell₁ hbase fun S' hcells' =>
    Refine.ensures_ret (hsome (by simp) S' ?_))
  rw [hcells', hcells₁, Function.update_idem, List.erase_append_right _ hout,
    List.erase_cons_head, Layout.words_append, Layout.words_cons, Layout.words_nil,
    List.append_nil]
  simp only [List.append_assoc]

end FS

end AvrKernel.BaseFS

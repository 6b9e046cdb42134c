import AvrKernel.BaseFS.File
import AvrKernel.BaseFS.Rules
import AvrKernel.Lib.Counters

/-!
# File contents

A file on a store is its header and a chain of extents; its content is the data
of the extents one after the other.
-/

namespace AvrKernel.BaseFS

open Bytes Effect

/-- An extent of a file: its data, and the allocated bytes behind the data. -/
structure Extent where
  address : UInt32
  prev : UInt32
  data : List UInt8
  slack : List UInt8

namespace Extent

def header (e : Extent) (next : UInt32) : FSFileExtent :=
  ⟨⟨next, e.prev⟩, .ofNat e.data.length⟩

/-- The allocated bytes of an extent that is followed by the one at `next`. -/
def bytes (e : Extent) (next : UInt32) : List UInt8 :=
  FSFileExtent.layout.encode (e.header next) ++ e.data ++ e.slack

@[simp] theorem bytes_length (e : Extent) (next : UInt32) :
    (e.bytes next).length = 12 + e.data.length + e.slack.length := by
  simp [bytes, FSFileExtent.layout.encode_length, Nat.add_assoc]

/-- The address of the first extent of a chain that ends in a link to `last`. -/
def link (es : List Extent) (last : UInt32) : UInt32 := (es.head?.map address).getD last

@[simp] theorem link_nil (last : UInt32) : link [] last = last := rfl

@[simp] theorem link_cons (e : Extent) (es : List Extent) (last : UInt32) :
    link (e :: es) last = e.address := rfl

/-- The data of a chain. -/
def content (es : List Extent) : List UInt8 := es.flatMap data

@[simp] theorem content_nil : content [] = [] := rfl

@[simp] theorem content_cons (e : Extent) (es : List Extent) :
    content (e :: es) = e.data ++ content es := rfl

@[simp] theorem content_append (es fs : List Extent) :
    content (es ++ fs) = content es ++ content fs := List.flatMap_append

end Extent

namespace Store

variable {g : FSGeometry} {S S' : Store g} {es fs : List Extent} {last : UInt32}

/-- The store holds the extents, each linked to the next one and the last to `last`. -/
def Linked (S : Store g) : List Extent → UInt32 → Prop
  | [], _ => True
  | e :: es, last => S.cells e.address = some (e.bytes (Extent.link es last)) ∧ Linked S es last

theorem linked_append : S.Linked (es ++ fs) last ↔
    S.Linked es (Extent.link fs last) ∧ S.Linked fs last := by
  induction es with
  | nil => simp [Linked]
  | cons e es ih =>
      have hlink : Extent.link (es ++ fs) last = Extent.link es (Extent.link fs last) := by
        cases es <;> rfl
      simp only [List.cons_append, Linked, ih, hlink, and_assoc]

/-- Chains depend on their own allocations only. -/
theorem Linked.frame (h : S.Linked es last)
    (hsame : ∀ e ∈ es, S'.cells e.address = S.cells e.address) : S'.Linked es last := by
  induction es with
  | nil => trivial
  | cons e es ih =>
      exact ⟨(hsame e List.mem_cons_self).trans h.1,
        ih h.2 fun e' he' => hsame e' (List.mem_cons_of_mem _ he')⟩

theorem Linked.update (h : S.Linked es last) {a : UInt32} {cell : Option (List UInt8)}
    (ha : a ∉ es.map Extent.address) (hcells : S'.cells = Function.update S.cells a cell) :
    S'.Linked es last :=
  h.frame fun e he => by
    rw [hcells, Function.update_of_ne]
    exact fun heq => ha (heq ▸ List.mem_map_of_mem he)

theorem Linked.held (h : S.Linked es last) {a : UInt32} (ha : a ∈ es.map Extent.address) :
    S.cells a ≠ none := by
  induction es with
  | nil => cases ha
  | cons e es ih =>
      rw [List.map_cons, List.mem_cons] at ha
      obtain rfl | hmem := ha
      · simp [h.1]
      · exact ih h.2 hmem

/-- The first extent tells where the others are. -/
theorem Linked.addresses_eq {es es' : List Extent} (h : S.Linked es fsNull)
    (h' : S.Linked es' fsNull) (hlink : Extent.link es' fsNull = Extent.link es fsNull) :
    es'.map Extent.address = es.map Extent.address := by
  induction es generalizing es' with
  | nil =>
      cases es' with
      | nil => rfl
      | cons e' es' => exact absurd hlink (S.ne_fsNull h'.1)
  | cons e es ih =>
      cases es' with
      | nil => exact absurd hlink.symm (S.ne_fsNull h.1)
      | cons e' es' =>
          have haddress : e'.address = e.address := hlink
          have hcell := h'.1
          rw [haddress, h.1, Option.some_inj, Extent.bytes, Extent.bytes, List.append_assoc,
            List.append_assoc] at hcell
          have hheader := (List.append_inj hcell
            (by simp only [FSFileExtent.layout.encode_length])).1
          have hnext : Extent.link es' fsNull = Extent.link es fsNull := by
            have hdecoded := congrArg FSFileExtent.layout.decode hheader
            rw [FSFileExtent.layout.decode_encode_self, FSFileExtent.layout.decode_encode_self]
              at hdecoded
            exact (congrArg (fun header => header.extent.next) hdecoded).symm
          rw [List.map_cons, List.map_cons, haddress, ih h.2 h'.2 hnext]

/-- The data of a chain fits into the address space. -/
theorem Linked.content_lt (h : S.Linked es last) (hnodup : (es.map Extent.address).Nodup) :
    (Extent.content es).length < 2 ^ 32 := by
  have hsum := length_sum_lt hnodup fun a ha => h.held ha
  refine lt_of_le_of_lt ?_ hsum
  clear hnodup hsum
  induction es with
  | nil => exact Nat.zero_le _
  | cons e es ih =>
      have hlength := e.bytes_length (Extent.link es last)
      have hrest := ih h.2
      rw [Extent.content_cons, List.length_append, List.map_cons, List.map_cons, List.sum_cons, h.1,
        Option.getD_some]
      omega

end Store

namespace FS

variable {g : FSGeometry} {n : Nat} {A : FSCall → Device → Prop} {B : UInt32 → Device → Prop}
  {S : Store g}

theorem ensures_extentRead {e : Extent} {next : UInt32}
    {post : Option FSFileExtent → Store g → Prop}
    (hcell : S.cells e.address = some (e.bytes next)) (h : post (some (e.header next)) S) :
    (world g n A B).Ensures (fsFileExtentRead e.address) S post := by
  have hlt := S.length_lt hcell
  rw [Extent.bytes_length] at hlt
  rw [fsFileExtentRead, if_neg (S.ne_fsNull hcell)]
  refine Refine.ensures_bind (ensures_readHeader hcell ?_)
  rw [if_neg]
  · rw [Extent.bytes, List.append_assoc] at hcell
    exact Refine.ensures_bind (ensures_readStruct hcell (Refine.ensures_ret h))
  · simp only [Extent.bytes_length, UInt32.lt_iff_toNat_lt, UInt32.toNat_ofNat',
      UInt32.reduceToNat]
    omega

/-- Writing the header of an extent. The new extent has the same bytes behind it, of which
another part may be data. -/
theorem ensures_extentWrite {e : Extent} {next : UInt32} (e' : Extent) (next' : UInt32)
    {post : Unit → Store g → Prop}
    (hcell : S.cells e.address = some (e.bytes next))
    (hbody : e'.data ++ e'.slack = e.data ++ e.slack)
    (h : ∀ S' : Store g, S'.cells = Function.update S.cells e.address (some (e'.bytes next')) →
      post () S') :
    (world g n A B).Ensures (fsFileExtentWrite e.address (e'.header next')) S post := by
  rw [Extent.bytes, List.append_assoc] at hcell
  refine ensures_writeStruct hcell (FSFileExtent.layout.encode_length _) fun S' hcells => h S' ?_
  rw [hcells, Extent.bytes, List.append_assoc, hbody]

/-! ## Transfers -/

theorem Transfer.chunk_spec (t : Transfer) (size : UInt32) (hle : t.boundary.toNat ≤ t.offset.toNat)
    (hfit : t.boundary.toNat + size.toNat < 2 ^ 32) :
    match t.chunk size with
    | none => t.boundary.toNat + size.toNat ≤ t.offset.toNat
    | some (internal, count) => internal.toNat = t.offset.toNat - t.boundary.toNat ∧
        internal.toNat + count.toNat ≤ size.toNat ∧ count.toNat ≤ t.remaining.toNat ∧
        (count.toNat = t.remaining.toNat ∨ internal.toNat + count.toNat = size.toNat) := by
  have hsum := Mem.toNat_add_of_lt hfit
  have hinternal : (t.offset - t.boundary).toNat = t.offset.toNat - t.boundary.toNat :=
    Mem.toNat_sub_of_le hle
  simp only [chunk, ge_iff_le, UInt32.le_iff_toNat_le, UInt32.lt_iff_toNat_lt, hsum, hle, true_and,
    gt_iff_lt]
  split
  next hchunk =>
    split at hchunk
    · cases hchunk
    · omega
  next internal count hchunk =>
    split at hchunk
    next hlt =>
      have havailable : (size - (t.offset - t.boundary)).toNat =
          size.toNat - (t.offset.toNat - t.boundary.toNat) := by
        rw [Mem.toNat_sub_of_le (by omega), hinternal]
      simp only [Option.some.injEq, Prod.mk.injEq, havailable] at hchunk
      obtain ⟨rfl, rfl⟩ := hchunk
      rw [hinternal]
      split <;> omega
    next hge => cases hchunk

/-- The transfer stands in front of a chain that has the bytes it still needs. -/
structure Transfer.Covered (t : Transfer) (es : List Extent) : Prop where
  current : t.current = Extent.link es fsNull
  fits : t.boundary.toNat + (Extent.content es).length < 2 ^ 32
  covered : t.remaining = 0 ∨ t.boundary.toNat ≤ t.offset.toNat ∧
    t.offset.toNat - t.boundary.toNat + t.remaining.toNat ≤ (Extent.content es).length

theorem Transfer.Covered.remaining_nil {t : Transfer} (h : t.Covered []) : t.remaining = 0 := by
  refine h.covered.elim id fun hcov => ?_
  have hnone := hcov.2
  rw [Extent.content_nil, List.length_nil] at hnone
  exact UInt32.toNat_inj.mp (by simp only [UInt32.reduceToNat]; omega)

/-- Where in the chain the next byte of the transfer lies. -/
def Transfer.pos (t : Transfer) : Nat := t.offset.toNat - t.boundary.toNat

theorem Transfer.Covered.step {t : Transfer} {e : Extent} {es : List Extent}
    (h : t.Covered (e :: es)) (hpending : t.remaining ≠ 0) :
    match t.chunk (e.header (Extent.link es fsNull)).extentDataSize with
    | none => (t.next (e.header (Extent.link es fsNull)) 0).Covered es ∧
        e.data.length ≤ t.pos ∧
        (t.next (e.header (Extent.link es fsNull)) 0).pos = t.pos - e.data.length ∧
        (t.next (e.header (Extent.link es fsNull)) 0).remaining = t.remaining
    | some (internal, count) =>
        (t.next (e.header (Extent.link es fsNull)) count).Covered es ∧ internal.toNat = t.pos ∧
        t.pos + count.toNat ≤ e.data.length ∧
        (t.next (e.header (Extent.link es fsNull)) count).remaining.toNat + count.toNat =
          t.remaining.toNat ∧
        ((t.next (e.header (Extent.link es fsNull)) count).remaining = 0 ∨
          t.pos + count.toNat = e.data.length ∧
            (t.next (e.header (Extent.link es fsNull)) count).pos = 0) := by
  obtain ⟨-, hfits, hcovered⟩ := h
  obtain ⟨hle, hrange⟩ := hcovered.resolve_left hpending
  rw [Extent.content_cons, List.length_append] at hfits hrange
  have hsize : (e.header (Extent.link es fsNull)).extentDataSize.toNat = e.data.length := by
    rw [Extent.header, UInt32.toNat_ofNat', Nat.mod_eq_of_lt (by omega)]
  have hoffset := t.offset.toNat_lt
  have hboundary : (t.boundary + (e.header (Extent.link es fsNull)).extentDataSize).toNat =
      t.boundary.toNat + e.data.length := by
    rw [Mem.toNat_add_of_lt (by omega), hsize]
  have hspec := t.chunk_spec (e.header (Extent.link es fsNull)).extentDataSize hle
    (by omega)
  cases hchunk : t.chunk (e.header (Extent.link es fsNull)).extentDataSize with
  | none =>
      rw [hchunk] at hspec
      dsimp only at hspec ⊢
      refine ⟨⟨rfl, ?_, .inr ?_⟩, ?_, ?_, ?_⟩
      · simp only [next, hboundary]
        omega
      · simp only [next, hboundary, UInt32.add_zero, UInt32.sub_zero]
        omega
      · simp only [pos]
        omega
      · simp only [pos, next, hboundary, UInt32.add_zero]
        omega
      · simp only [next, UInt32.sub_zero]
  | some chunk =>
      obtain ⟨internal, count⟩ := chunk
      rw [hchunk] at hspec
      dsimp only at hspec ⊢
      obtain ⟨hinternal, hwithin, hcount, hwhole⟩ := hspec
      have hnext : (t.offset + count).toNat = t.offset.toNat + count.toNat :=
        Mem.toNat_add_of_lt (by omega)
      have hleft : (t.remaining - count).toNat = t.remaining.toNat - count.toNat :=
        Mem.toNat_sub_of_le hcount
      have hzero : t.remaining - count = 0 ↔ count.toNat = t.remaining.toNat := by
        rw [← UInt32.toNat_inj, hleft]
        simp only [UInt32.reduceToNat]
        omega
      refine ⟨⟨rfl, ?_, ?_⟩, hinternal, ?_, ?_, ?_⟩
      · simp only [next, hboundary]
        omega
      · simp only [next, hboundary, hnext, hleft, hzero]
        omega
      · simp only [pos]
        omega
      · simp only [next, hleft]
        omega
      · simp only [pos, next, hboundary, hnext, hzero]
        omega

/-- Cutting the data of an extent into what precedes a segment, the segment, and
what follows it. -/
theorem split_data (e : Extent) (next : UInt32) (off count : Nat) :
    e.bytes next = (FSFileExtent.layout.encode (e.header next) ++ e.data.take off) ++
      (e.data.drop off).take count ++ (e.data.drop (off + count) ++ e.slack) := by
  have hdata : e.data = e.data.take off ++ ((e.data.drop off).take count ++
      e.data.drop (off + count)) := by
    rw [← List.drop_drop, List.take_append_drop, List.take_append_drop]
  rw [Extent.bytes]
  conv_lhs => rw [hdata]
  simp only [List.append_assoc]

theorem data_address (e : Extent) (next : UInt32) {off : UInt32}
    (h : off.toNat ≤ e.data.length) :
    e.address + 12 + off = e.address + .ofNat
      (FSFileExtent.layout.encode (e.header next) ++ e.data.take off.toNat).length := by
  rw [List.length_append, FSFileExtent.layout.encode_length, List.length_take,
    Nat.min_eq_left h, FSFileExtent.layout_size, UInt32.ofNat_add, UInt32.ofNat_toNat,
    UInt32.add_assoc]
  rfl

/-- The loop of `fs_file_read` returns the bytes at the position of the transfer. -/
theorem ensures_readLoop {es : List Extent} (hlinked : S.Linked es fsNull) {t : Transfer}
    {bytes : List UInt8} (hcovered : t.Covered es) {rounds : Nat} (hrounds : es.length < rounds)
    {post : Transfer × List UInt8 → Store g → Prop}
    (hpost : ∀ t' : Transfer, t'.remaining = 0 →
      post (t', bytes ++ ((Extent.content es).drop t.pos).take t.remaining.toNat) S) :
    (world g n A B).Ensures (Prog.iterate readRound rounds (t, bytes)) S post := by
  induction es generalizing t bytes rounds with
  | nil =>
      obtain ⟨rounds, rfl⟩ := Nat.exists_eq_succ_of_ne_zero (Nat.ne_of_gt hrounds)
      have hnone := hcovered.remaining_nil
      refine Refine.ensures_iterate ?_
      rw [readRound, if_pos (.inl hcovered.current)]
      have hdone := hpost t hnone
      rw [Extent.content_nil, List.drop_nil, List.take_nil, List.append_nil] at hdone
      exact Refine.ensures_ret hdone
  | cons e es ih =>
      obtain ⟨rounds, rfl⟩ := Nat.exists_eq_succ_of_ne_zero
        (Nat.ne_of_gt (Nat.zero_lt_of_lt hrounds))
      refine Refine.ensures_iterate ?_
      by_cases hpending : t.remaining = 0
      · rw [readRound, if_pos (.inr hpending)]
        have hdone := hpost t hpending
        rw [hpending, UInt32.toNat_zero, List.take_zero, List.append_nil] at hdone
        exact Refine.ensures_ret hdone
      · have hne : t.current ≠ fsNull := by
          rw [hcovered.current]
          exact S.ne_fsNull hlinked.1
        rw [readRound, if_neg (not_or.mpr ⟨hne, hpending⟩), hcovered.current]
        refine Refine.ensures_bind (ensures_extentRead hlinked.1 ?_)
        have hstep := hcovered.step hpending
        dsimp only
        cases hchunk : t.chunk (e.header (Extent.link es fsNull)).extentDataSize with
        | none =>
            rw [hchunk] at hstep
            obtain ⟨hnext, hskip, hpos, hsame⟩ := hstep
            refine Refine.ensures_ret (ih hlinked.2 hnext (by simpa using hrounds) fun t' ht' => ?_)
            have hdone := hpost t' ht'
            rw [Extent.content_cons, List.drop_append, List.drop_of_length_le hskip,
              List.nil_append] at hdone
            rwa [hpos, hsame]
        | some chunk =>
            obtain ⟨internal, count⟩ := chunk
            rw [hchunk] at hstep
            obtain ⟨hnext, hinternal, hwithin, hleft, hrest⟩ := hstep
            rw [← hinternal] at hwithin
            have hcell := hlinked.1
            rw [split_data e _ internal.toNat count.toNat] at hcell
            refine Refine.ensures_bind (ensures_memRead hcell (data_address e _ (by omega)) ?_ ?_)
            · rw [List.length_take, List.length_drop]
              omega
            · refine Refine.ensures_ret
                (ih hlinked.2 hnext (by simpa using hrounds) fun t' ht' => ?_)
              have hdone := hpost t' ht'
              rw [Extent.content_cons, List.drop_append_of_le_length (by omega), List.take_append,
                ← hinternal] at hdone
              have hhere : (e.data.drop internal.toNat).take t.remaining.toNat =
                  (e.data.drop internal.toNat).take count.toNat := by
                obtain hdone | ⟨hend, -⟩ := hrest
                · rw [hdone, UInt32.toNat_zero, Nat.zero_add] at hleft
                  rw [hleft]
                · rw [List.take_of_length_le (by rw [List.length_drop]; omega),
                    List.take_of_length_le (by rw [List.length_drop]; omega)]
              have hthere : (Extent.content es).take
                    (t.remaining.toNat - (e.data.drop internal.toNat).length) =
                  ((Extent.content es).drop
                    (t.next (e.header (Extent.link es fsNull)) count).pos).take
                    (t.next (e.header (Extent.link es fsNull)) count).remaining.toNat := by
                rw [List.length_drop]
                obtain hdone | ⟨hend, hpos⟩ := hrest
                · rw [hdone, UInt32.toNat_zero, Nat.zero_add] at hleft
                  rw [hdone, UInt32.toNat_zero, List.take_zero,
                    show t.remaining.toNat - (e.data.length - internal.toNat) = 0 by omega,
                    List.take_zero]
                · rw [hpos, List.drop_zero]
                  congr 1
                  omega
              rwa [hhere, hthere, ← List.append_assoc] at hdone

/-- A link to the first extent depends on the addresses only. -/
theorem link_eq_of_map {es fs : List Extent} {last : UInt32}
    (h : fs.map Extent.address = es.map Extent.address) :
    Extent.link fs last = Extent.link es last := by
  rw [Extent.link, Extent.link, ← List.head?_map, ← List.head?_map, h]

/-- The loop of `fs_file_write` replaces the bytes at the position of the transfer. -/
theorem ensures_writeLoop {es : List Extent} (hlinked : S.Linked es fsNull)
    (hnodup : (es.map Extent.address).Nodup) {t : Transfer} {source : List UInt8}
    (hcovered : t.Covered es) (hlen : source.length = t.remaining.toNat) {rounds : Nat}
    (hrounds : es.length < rounds) {post : Transfer → Store g → Prop}
    (hpost : ∀ (t' : Transfer) (es' : List Extent) (S' : Store g), t'.remaining = 0 →
      es'.map Extent.address = es.map Extent.address → S'.Linked es' fsNull →
      Extent.content es' = patch (Extent.content es) t.pos source →
      (∀ a ∉ es.map Extent.address, S'.cells a = S.cells a) → post t' S') :
    (world g n A B).Ensures (Prog.iterate writeRound rounds (t, source)) S post := by
  induction es generalizing S t source rounds with
  | nil =>
      obtain ⟨rounds, rfl⟩ := Nat.exists_eq_succ_of_ne_zero (Nat.ne_of_gt hrounds)
      have hnone := hcovered.remaining_nil
      rw [hnone, UInt32.toNat_zero, List.length_eq_zero_iff] at hlen
      refine Refine.ensures_iterate ?_
      rw [writeRound, if_pos (.inl hcovered.current)]
      exact Refine.ensures_ret
        (hpost t [] S hnone rfl trivial (by rw [hlen, patch_nil]) fun _ _ => rfl)
  | cons e es ih =>
      obtain ⟨rounds, rfl⟩ := Nat.exists_eq_succ_of_ne_zero
        (Nat.ne_of_gt (Nat.zero_lt_of_lt hrounds))
      obtain ⟨hfresh, hnodup'⟩ := List.nodup_cons.mp hnodup
      refine Refine.ensures_iterate ?_
      by_cases hpending : t.remaining = 0
      · rw [hpending, UInt32.toNat_zero, List.length_eq_zero_iff] at hlen
        rw [writeRound, if_pos (.inr hpending)]
        exact Refine.ensures_ret
          (hpost t (e :: es) S hpending rfl hlinked (by rw [hlen, patch_nil]) fun _ _ => rfl)
      · have hne : t.current ≠ fsNull := by
          rw [hcovered.current]
          exact S.ne_fsNull hlinked.1
        rw [writeRound, if_neg (not_or.mpr ⟨hne, hpending⟩), hcovered.current]
        refine Refine.ensures_bind (ensures_extentRead hlinked.1 ?_)
        have hstep := hcovered.step hpending
        dsimp only
        cases hchunk : t.chunk (e.header (Extent.link es fsNull)).extentDataSize with
        | none =>
            rw [hchunk] at hstep
            obtain ⟨hnext, hskip, hpos, hsame⟩ := hstep
            refine Refine.ensures_ret (ih hlinked.2 hnodup' hnext (hlen.trans (by rw [hsame]))
              (by simpa using hrounds) ?_)
            intro t' es' S' ht' hmap hlinked' hcontent hframe
            refine hpost t' (e :: es') S' ht' (by simp [hmap]) ⟨?_, hlinked'⟩ ?_ ?_
            · rw [hframe _ hfresh, link_eq_of_map hmap]
              exact hlinked.1
            · rw [Extent.content_cons, Extent.content_cons, hcontent, hpos,
                patch_append_right hskip]
            · exact fun a ha => hframe a fun hmem => ha (List.mem_cons_of_mem _ hmem)
        | some chunk =>
            obtain ⟨internal, count⟩ := chunk
            rw [hchunk] at hstep
            obtain ⟨hnext, hinternal, hwithin, hleft, hrest⟩ := hstep
            rw [← hinternal] at hwithin
            have hcount : (source.take count.toNat).length = count.toNat :=
              List.length_take_of_le (by omega)
            have hcell := hlinked.1
            rw [split_data e _ internal.toNat count.toNat] at hcell
            refine Refine.ensures_bind (ensures_memWrite hcell (data_address e _ (by omega)) ?_ ?_)
            · rw [hcount, List.length_take, List.length_drop]
              omega
            · intro S₁ hcells
              let e' : Extent :=
                { e with data := patch e.data internal.toNat (source.take count.toNat) }
              have hlength : e'.data.length = e.data.length := patch_length (by omega)
              have hbytes : S₁.cells e.address = some (e'.bytes (Extent.link es fsNull)) := by
                rw [hcells, Function.update_self, Extent.bytes]
                simp only [Extent.header, hlength]
                simp only [e', patch, hcount, List.append_assoc]
              refine Refine.ensures_ret
                (ih (hlinked.2.update hfresh hcells) hnodup' hnext (by rw [List.length_drop]; omega)
                (by simpa using hrounds) ?_)
              intro t' es' S' ht' hmap hlinked' hcontent hframe
              refine hpost t' (e' :: es') S' ht' (by simp [hmap, e']) ⟨?_, hlinked'⟩ ?_ ?_
              · rw [link_eq_of_map hmap, ← hbytes]
                exact hframe _ hfresh
              · rw [Extent.content_cons, Extent.content_cons, hcontent, ← hinternal]
                obtain hdone | ⟨hend, hpos⟩ := hrest
                · rw [hdone, UInt32.toNat_zero, Nat.zero_add] at hleft
                  have hall : source.take count.toNat = source := List.take_of_length_le (by omega)
                  have hnone : source.drop count.toNat = [] := List.drop_of_length_le (by omega)
                  simp only [e', hall, hnone, patch_nil]
                  rw [patch_append_left (by omega)]
                · rw [hpos, patch_append_across (show internal.toNat + count.toNat =
                    e.data.length by omega)
                    (by omega)]
              · intro a ha
                rw [List.map_cons, List.mem_cons, not_or] at ha
                rw [hframe a ha.2, hcells, Function.update_of_ne ha.1]

/-! ## Walking, freeing and filling -/

theorem obtain_succ {k rounds : Nat} (h : k < rounds) : ∃ m, rounds = m + 1 :=
  Nat.exists_eq_succ_of_ne_zero (Nat.ne_of_gt (Nat.zero_lt_of_lt h))

/-- Freeing a chain frees its extents. -/
theorem ensures_freeLoop {es : List Extent} (hlinked : S.Linked es fsNull)
    (hnodup : (es.map Extent.address).Nodup) {rounds : Nat} (hrounds : es.length < rounds)
    {post : Unit → Store g → Prop}
    (hpost : ∀ S' : Store g, (∀ a ∈ es.map Extent.address, S'.cells a = none) →
      (∀ a ∉ es.map Extent.address, S'.cells a = S.cells a) → post () S') :
    (world g n A B).Ensures (Prog.iterate freeRound rounds (Extent.link es fsNull)) S post := by
  induction es generalizing S rounds with
  | nil =>
      obtain ⟨rounds, rfl⟩ := obtain_succ hrounds
      refine Refine.ensures_iterate ?_
      rw [freeRound, Extent.link_nil, if_pos rfl]
      exact Refine.ensures_ret (hpost S (by simp) fun _ _ => rfl)
  | cons e es ih =>
      obtain ⟨rounds, rfl⟩ := obtain_succ hrounds
      obtain ⟨hfresh, hnodup'⟩ := List.nodup_cons.mp hnodup
      refine Refine.ensures_iterate ?_
      rw [freeRound, Extent.link_cons, if_neg (S.ne_fsNull hlinked.1)]
      refine Refine.ensures_bind (ensures_extentRead hlinked.1 ?_)
      refine Refine.ensures_bind (ensures_free hlinked.1 fun S₁ hcells => Refine.ensures_ret ?_)
      refine ih (hlinked.2.update hfresh hcells) hnodup' (by simpa using hrounds) fun S' hnone
        hframe => hpost S' ?_ ?_
      · simp only [List.map_cons, List.forall_mem_cons]
        exact ⟨by rw [hframe _ hfresh, hcells, Function.update_self], hnone⟩
      · intro a ha
        rw [List.map_cons, List.mem_cons, not_or] at ha
        rw [hframe a ha.2, hcells, Function.update_of_ne ha.1]

/-- The last extent of a chain with its address. -/
def tailOf (es : List Extent) : Option (UInt32 × FSFileExtent) :=
  es.getLast?.map fun e => (e.address, e.header fsNull)

/-- The walk to the end of a chain finds its last extent. -/
theorem ensures_tailLoop {es : List Extent} (hlinked : S.Linked es fsNull) {rounds : Nat}
    (hrounds : es.length < rounds) {tail : Option (UInt32 × FSFileExtent)}
    {post : Option (Option (UInt32 × FSFileExtent)) → Store g → Prop}
    (hpost : post (some ((tailOf es).or tail)) S) :
    (world g n A B).Ensures (Prog.iterate tailRound rounds (Extent.link es fsNull, tail)) S
      post := by
  induction es generalizing rounds tail with
  | nil =>
      obtain ⟨rounds, rfl⟩ := obtain_succ hrounds
      refine Refine.ensures_iterate ?_
      rw [tailRound, Extent.link_nil, if_pos rfl]
      exact Refine.ensures_ret hpost
  | cons e es ih =>
      obtain ⟨rounds, rfl⟩ := obtain_succ hrounds
      refine Refine.ensures_iterate ?_
      rw [tailRound, Extent.link_cons, if_neg (S.ne_fsNull hlinked.1)]
      refine Refine.ensures_bind (ensures_extentRead hlinked.1 (Refine.ensures_ret ?_))
      refine ih hlinked.2 (by simpa using hrounds) ?_
      cases es with
      | nil => exact hpost
      | cons f fs =>
          have hlast : (tailOf (f :: fs)).isSome := by simp [tailOf]
          rw [tailOf, List.getLast?_cons_cons, ← tailOf] at hpost
          rw [Option.or_of_isSome hlast] at hpost ⊢
          exact hpost

theorem ensures_zeroLoop {a pointer count : UInt32} {before middle after : List UInt8}
    (hcell : S.cells a = some (before ++ middle ++ after))
    (hpointer : pointer = a + .ofNat before.length) (hcount : count.toNat = middle.length)
    {rounds : Nat} (hrounds : count.toNat < rounds) {post : Unit → Store g → Prop}
    (hpost : ∀ S' : Store g, S'.cells = Function.update S.cells a
      (some (before ++ List.replicate middle.length 0 ++ after)) → post () S') :
    (world g n A B).Ensures (Prog.iterate zeroRound rounds (pointer, count)) S post := by
  induction rounds generalizing S pointer count before middle with
  | zero => omega
  | succ rounds ih =>
      refine Refine.ensures_iterate ?_
      rw [zeroRound]
      by_cases hzero : count = 0
      · rw [if_pos hzero]
        rw [hzero, UInt32.toNat_zero] at hcount
        rw [List.length_eq_zero_iff.mp hcount.symm] at hcell hpost
        exact Refine.ensures_ret (hpost S (by
          rw [List.length_nil, List.replicate_zero, ← hcell, Function.update_eq_self]))
      · rw [if_neg hzero]
        have hpos : 0 < count.toNat := Nat.pos_of_ne_zero fun h => hzero (UInt32.toNat_inj.mp h)
        have hchunk : 0 < (if 16 > count then count else 16).toNat ∧
            (if 16 > count then count else 16).toNat ≤ count.toNat := by
          simp only [gt_iff_lt, UInt32.lt_iff_toNat_lt, UInt32.reduceToNat]
          split <;> simp <;> omega
        generalize (if 16 > count then count else 16) = chunk at hchunk
        have hsplit : before ++ middle ++ after = before ++ middle.take chunk.toNat ++
            (middle.drop chunk.toNat ++ after) := by
          rw [List.append_assoc, List.append_assoc, ← List.append_assoc (middle.take _),
            List.take_append_drop]
        have hlen : (middle.take chunk.toNat).length = chunk.toNat :=
          List.length_take_of_le (by omega)
        have hbound := S.end_lt hcell
        simp only [List.length_append] at hbound
        refine Refine.ensures_bind (ensures_memWrite (hsplit ▸ hcell) hpointer (by simp [hlen]) ?_)
        intro S₁ hcells
        have hcell₁ : S₁.cells a = some ((before ++ List.replicate chunk.toNat 0) ++
            middle.drop chunk.toNat ++ after) := by
          rw [hcells, Function.update_self]
          simp only [List.append_assoc]
        refine Refine.ensures_ret (ih hcell₁ ?_ ?_ ?_ ?_)
        · rw [hpointer, List.length_append, List.length_replicate, UInt32.ofNat_add,
            UInt32.ofNat_toNat, UInt32.add_assoc]
        · rw [Mem.toNat_sub_of_le hchunk.2, List.length_drop, hcount]
        · rw [Mem.toNat_sub_of_le hchunk.2]
          omega
        · intro S' hcells'
          refine hpost S' ?_
          rw [hcells', hcells, Function.update_idem, List.append_assoc before,
            List.replicate_append_replicate,
            List.length_drop, Nat.add_sub_cancel' (by omega)]

/-! ## Files -/

end FS

/-- The store holds a file header at `address` with a chain of extents that have the bytes of
the file, and maybe more. -/
structure Store.ChainAt {g : FSGeometry} (S : Store g) (address : UInt32) (file : FSFileHeader)
    (es : List Extent) : Prop where
  cell : ∃ tail, S.cells address = some (FSFileHeader.layout.encode file ++ tail)
  regular : hasFlag file.block.attributes fsAttributeDirectory = false
  next : file.extent.next = Extent.link es fsNull
  linked : S.Linked es fsNull
  nodup : (address :: es.map Extent.address).Nodup
  size : file.totalLogicalSize.toNat ≤ (Extent.content es).length

/-- The store holds a file at `address`. -/
structure Store.FileAt {g : FSGeometry} (S : Store g) (address : UInt32) (file : FSFileHeader)
    (es : List Extent) : Prop where
  cell : ∃ tail, S.cells address = some (FSFileHeader.layout.encode file ++ tail)
  regular : hasFlag file.block.attributes fsAttributeDirectory = false
  next : file.extent.next = Extent.link es fsNull
  linked : S.Linked es fsNull
  nodup : (address :: es.map Extent.address).Nodup
  size : file.totalLogicalSize.toNat = (Extent.content es).length

/-- `S'` is `S` after an operation on the file at `address` with the extents `es`, which now
has the extents `es'`. -/
abbrev Store.Reshaped {g : FSGeometry} (S S' : Store g) (address : UInt32)
    (es es' : List Extent) : Prop :=
  S.Changed S' (address :: es.map Extent.address) (address :: es'.map Extent.address)

namespace Store.ChainAt

variable {g : FSGeometry} {S S' : Store g} {address : UInt32} {file : FSFileHeader}
  {es : List Extent}

theorem length_lt (h : S.ChainAt address file es) : es.length < 2 ^ 32 := by
  have hle := Counter.length_le_of_nodup h.nodup
  rw [List.length_cons, List.length_map] at hle
  exact hle

theorem held (h : S.ChainAt address file es) : S.cells address ≠ none := by
  obtain ⟨tail, hcell⟩ := h.cell
  simp [hcell]

theorem nodup_extents (h : S.ChainAt address file es) : (es.map Extent.address).Nodup :=
  (List.nodup_cons.mp h.nodup).2

theorem not_mem_extents (h : S.ChainAt address file es) : address ∉ es.map Extent.address :=
  (List.nodup_cons.mp h.nodup).1

/-- An address holds one header. -/
theorem header_eq (h : S.ChainAt address file es) {file' : FSFileHeader} {es' : List Extent}
    (h' : S.ChainAt address file' es') : file' = file := by
  obtain ⟨tail, hcell⟩ := h.cell
  obtain ⟨tail', hcell'⟩ := h'.cell
  rw [hcell, Option.some_inj] at hcell'
  have hencoded : FSFileHeader.layout.encode file = FSFileHeader.layout.encode file' :=
    (List.append_inj hcell' (by simp only [FSFileHeader.layout.encode_length])).1
  rw [← FSFileHeader.layout.decode_encode_self file, hencoded,
    FSFileHeader.layout.decode_encode_self]

/-- An address holds one chain. -/
theorem addresses_eq (h : S.ChainAt address file es) {file' : FSFileHeader} {es' : List Extent}
    (h' : S.ChainAt address file' es') : es'.map Extent.address = es.map Extent.address :=
  h.linked.addresses_eq h'.linked (by rw [← h.next, ← h'.next, h.header_eq h'])

theorem content_lt (h : S.ChainAt address file es) : (Extent.content es).length < 2 ^ 32 :=
  h.linked.content_lt h.nodup_extents

end Store.ChainAt

theorem Store.FileAt.chain {g : FSGeometry} {S : Store g} {address : UInt32} {file : FSFileHeader}
    {es : List Extent} (h : S.FileAt address file es) : S.ChainAt address file es :=
  ⟨h.cell, h.regular, h.next, h.linked, h.nodup, h.size.le⟩

/-- A chain without spare bytes is a file. -/
theorem Store.ChainAt.file {g : FSGeometry} {S : Store g} {address : UInt32} {file : FSFileHeader}
    {es : List Extent} (h : S.ChainAt address file es)
    (hsize : file.totalLogicalSize.toNat = (Extent.content es).length) : S.FileAt address file es :=
  ⟨h.cell, h.regular, h.next, h.linked, h.nodup, hsize⟩

namespace FS

variable {g : FSGeometry} {n : Nat} {A : FSCall → Device → Prop} {B : UInt32 → Device → Prop}
  {S : Store g}
  {address : UInt32} {file : FSFileHeader} {es : List Extent} {tail : List UInt8}

/-- `fs_file_check` tells files from directories. -/
theorem ensures_fileCheck {post : Bool → Store g → Prop}
    (hcell : S.cells address = some (FSFileHeader.layout.encode file ++ tail))
    (h : post (!hasFlag file.block.attributes fsAttributeDirectory) S) :
    (world g n A B).Ensures (fsFileCheck address) S post := by
  have hlt := S.length_lt hcell
  rw [List.length_append, FSFileHeader.layout.encode_length, FSFileHeader.layout_size] at hlt
  rw [fsFileCheck, if_neg (S.ne_fsNull hcell)]
  refine Refine.ensures_bind (ensures_readHeader hcell ?_)
  rw [if_neg]
  · exact Refine.ensures_bind (ensures_readStruct hcell (Refine.ensures_ret h))
  · simp only [List.length_append, FSFileHeader.layout.encode_length, FSFileHeader.layout_size,
      UInt32.lt_iff_toNat_lt, UInt32.toNat_ofNat', UInt32.reduceToNat]
    omega

theorem ensures_check {post : Bool → Store g → Prop} (hfile : S.ChainAt address file es)
    (h : post true S) : (world g n A B).Ensures (fsFileCheck address) S post := by
  obtain ⟨tail, hcell⟩ := hfile.cell
  exact ensures_fileCheck hcell (by rwa [hfile.regular])

theorem ensures_readFile {post : FSFileHeader → Store g → Prop}
    (hfile : S.ChainAt address file es) (h : post file S) :
    (world g n A B).Ensures (readFile address) S post := by
  obtain ⟨tail, hcell⟩ := hfile.cell
  exact ensures_readStruct hcell h

theorem ensures_getSize {post : UInt32 → Store g → Prop} (hfile : S.ChainAt address file es)
    (h : post file.totalLogicalSize S) :
    (world g n A B).Ensures (fsFileGetSize address) S post := by
  rw [fsFileGetSize]
  refine Refine.ensures_bind (ensures_check hfile ?_)
  rw [if_pos rfl]
  exact Refine.ensures_bind (ensures_readFile hfile (Refine.ensures_ret h))

/-! ## Shrinking -/

/-- The search for the extent to cut, behind the extents `done`. -/
structure ShrinkCursor.At (cursor : ShrinkCursor) (address : UInt32) (done rest : List Extent) :
    Prop where
  accumulated : cursor.accumulated.toNat = (Extent.content done).length
  current : cursor.current = Extent.link rest fsNull
  previous : cursor.previous = (done.getLast?.map Extent.address).getD address
  isFirst : cursor.isFirst = done.isEmpty

/-- What shrinking leaves of the extents `es`. -/
structure Shrunk (S S' : Store g) (es es' : List Extent) (newSize : Nat) : Prop where
  linked : S'.Linked es' fsNull
  content : Extent.content es' = (Extent.content es).take newSize
  addresses : es'.map Extent.address <+: es.map Extent.address
  dropped : ∀ a ∈ es.map Extent.address, a ∉ es'.map Extent.address → S'.cells a = none
  kept : ∀ a ∉ es.map Extent.address, S'.cells a = S.cells a

theorem ensures_cut {kept rest : List Extent} (hn : rest.length < n)
    (hkept : S.Linked kept fsNull) (hrest : S.Linked rest fsNull)
    (hnodup : (rest.map Extent.address).Nodup)
    (hdisjoint : List.Disjoint (kept.map Extent.address) (rest.map Extent.address))
    {post : Unit → Store g → Prop}
    (hpost : ∀ S' : Store g, S'.Linked kept fsNull →
      (∀ a ∈ rest.map Extent.address, S'.cells a = none) →
      (∀ a ∉ rest.map Extent.address, S'.cells a = S.cells a) → post () S') :
    (world g n A B).Ensures (Prog.loop freeRound (Extent.link rest fsNull)) S post := by
  refine Refine.ensures_loop (ensures_freeLoop hrest hnodup hn fun S' hnone hframe => ?_)
  exact hpost S' (hkept.frame fun e he => hframe _ (hdisjoint (List.mem_map_of_mem he))) hnone
    hframe

theorem ensures_cutBefore {cursor : ShrinkCursor} {done rest : List Extent}
    (hn : rest.length < n) (hcursor : cursor.At address done rest)
    (hlinked : S.Linked (done ++ rest) fsNull)
    (hnodup : ((done ++ rest).map Extent.address).Nodup)
    (hnext : file.extent.next = Extent.link (done ++ rest) fsNull)
    {post : FSFileHeader → Store g → Prop}
    (hpost : ∀ S' : Store g, Shrunk S S' (done ++ rest) done (Extent.content done).length →
      post { file with extent.next := Extent.link done fsNull } S') :
    (world g n A B).Ensures (cutBefore file cursor) S post := by
  obtain ⟨hdone, hrest⟩ := Store.linked_append.mp hlinked
  obtain ⟨hnodupDone, hnodupRest, hdisjoint⟩ : (done.map Extent.address).Nodup ∧
      (rest.map Extent.address).Nodup ∧
      List.Disjoint (done.map Extent.address) (rest.map Extent.address) := by
    rwa [List.map_append, List.nodup_append'] at hnodup
  have hshrunk : ∀ S' : Store g, S'.Linked done fsNull →
      (∀ a ∈ rest.map Extent.address, S'.cells a = none) →
      (∀ a ∉ (done ++ rest).map Extent.address, S'.cells a = S.cells a) →
        Shrunk S S' (done ++ rest) done (Extent.content done).length := by
    intro S' hlinked' hnone hkept
    refine ⟨hlinked', by rw [Extent.content_append, List.take_left], ?_, ?_, hkept⟩
    · rw [List.map_append]
      exact List.prefix_append _ _
    · intro a hin hout
      rw [List.map_append, List.mem_append] at hin
      exact hnone a (hin.resolve_left hout)
  rw [cutBefore, hcursor.isFirst, hcursor.current, hcursor.previous]
  rcases List.eq_nil_or_concat done with rfl | ⟨init, last, rfl⟩
  · rw [if_pos List.isEmpty_nil]
    refine Refine.ensures_bind (ensures_cut hn hdone hrest hnodupRest hdisjoint ?_)
    exact fun S' hlinked' hnone hframe =>
      Refine.ensures_ret (hpost S' (hshrunk S' hlinked' hnone hframe))
  · have hfile : { file with extent.next := Extent.link (init ++ [last]) fsNull } = file := by
      have hlink : Extent.link (init ++ [last]) fsNull = file.extent.next := by
        rw [hnext]
        cases init <;> rfl
      rw [hlink]
    rw [List.concat_eq_append] at *
    rw [hfile] at hpost
    obtain ⟨hinit, hlast, -⟩ := Store.linked_append.mp hdone
    rw [if_neg (by simp), List.getLast?_concat, Option.map_some, Option.getD_some]
    refine Refine.ensures_bind (ensures_extentRead hlast ?_)
    refine Refine.ensures_bind (ensures_extentWrite last fsNull hlast rfl
      fun S₁ hcells => ?_)
    rw [List.map_append, List.map_cons, List.map_nil] at hdisjoint hnodupDone
    obtain ⟨hdisjointInit, hlastFresh⟩ := List.disjoint_append_left.mp hdisjoint
    have hdone₁ : S₁.Linked (init ++ [last]) fsNull := by
      refine Store.linked_append.mpr ⟨hinit.update ?_ hcells, ?_, trivial⟩
      · exact fun hmem => (List.nodup_append'.mp hnodupDone).2.2 hmem List.mem_cons_self
      · rw [hcells]
        exact Function.update_self ..
    have hrest₁ : S₁.Linked rest fsNull := hrest.update (by simpa using hlastFresh) hcells
    refine Refine.ensures_bind
      (ensures_cut hn hdone₁ hrest₁ hnodupRest (by simpa using hdisjoint) ?_)
    refine fun S' hlinked' hnone hframe =>
      Refine.ensures_ret (hpost S' (hshrunk S' hlinked' hnone ?_))
    intro a ha
    simp only [List.map_append, List.map_cons, List.map_nil, List.mem_append, List.mem_singleton,
      not_or] at ha
    rw [hframe a ha.2, hcells, Function.update_of_ne ha.1.2]

theorem ensures_cutWithin {cursor : ShrinkCursor} {e : Extent} {done rest : List Extent}
    {keepBytes : UInt32} (hn : rest.length < n) (hcurrent : cursor.current = e.address)
    (hlinked : S.Linked (done ++ e :: rest) fsNull)
    (hnodup : ((done ++ e :: rest).map Extent.address).Nodup)
    (hkeep : keepBytes.toNat ≤ e.data.length) {post : Unit → Store g → Prop}
    (hpost : ∀ (S' : Store g) (e' : Extent), e'.address = e.address →
      Shrunk S S' (done ++ e :: rest) (done ++ [e'])
        ((Extent.content done).length + keepBytes.toNat) → post () S') :
    (world g n A B).Ensures (cutWithin cursor (e.header (Extent.link rest fsNull)) keepBytes) S
      post := by
  obtain ⟨hdone, hrest⟩ := Store.linked_append.mp hlinked
  let e' : Extent :=
    { e with
      data := e.data.take keepBytes.toNat
      slack := e.data.drop keepBytes.toNat ++ e.slack }
  have hlength : e'.data.length = keepBytes.toNat := List.length_take_of_le hkeep
  have hheader : ({ e.header (Extent.link rest fsNull) with
      extent.next := fsNull, extentDataSize := keepBytes } : FSFileExtent) = e'.header fsNull := by
    rw [Extent.header, Extent.header, hlength, UInt32.ofNat_toNat]
  rw [cutWithin, hcurrent, hheader]
  have hbody : e'.data ++ e'.slack = e.data ++ e.slack := by
    rw [← List.append_assoc, List.take_append_drop]
  simp only [List.map_append, List.map_cons, List.nodup_append', List.nodup_cons,
    List.disjoint_cons_right] at hnodup
  obtain ⟨-, ⟨hrestFresh, hnodupRest⟩, hdoneFresh, hdisjoint⟩ := hnodup
  refine Refine.ensures_bind (ensures_extentWrite e' fsNull hrest.1 hbody fun S₁ hcells => ?_)
  have hdone₁ : S₁.Linked (done ++ [e']) fsNull := by
    refine Store.linked_append.mpr ⟨hdone.update hdoneFresh hcells, ?_, trivial⟩
    rw [hcells]
    exact Function.update_self ..
  refine ensures_cut hn hdone₁ (hrest.2.update hrestFresh hcells) hnodupRest ?_
    fun S' hlinked' hnone
    hframe => hpost S' e' rfl ⟨hlinked', ?_, ?_, ?_, ?_⟩
  · rw [List.map_append, List.disjoint_append_left]
    exact ⟨hdisjoint, by simpa [e'] using hrestFresh⟩
  · simp only [Extent.content_append, Extent.content_cons, Extent.content_nil, List.append_nil]
    rw [List.take_length_add_append, List.take_append_of_le_length hkeep]
  · simp [e']
  · intro a hin hout
    simp only [List.map_append, List.map_cons, List.map_nil, List.mem_append, List.mem_cons,
      List.not_mem_nil, or_false, not_or] at hin hout
    exact hnone a ((hin.resolve_left hout.1).resolve_left hout.2)
  · intro a ha
    simp only [List.map_append, List.map_cons, List.mem_append, List.mem_cons, not_or] at ha
    rw [hframe a ha.2.2, hcells, Function.update_of_ne ha.2.1]

/-- The loop of `fs_file_resize` that cuts the chain. -/
theorem ensures_shrinkLoop {newSize : UInt32} {cursor : ShrinkCursor} {done rest : List Extent}
    (hcursor : cursor.At address done rest) (hn : (done ++ rest).length < n)
    (hlinked : S.Linked (done ++ rest) fsNull)
    (hnodup : ((done ++ rest).map Extent.address).Nodup)
    (hnext : file.extent.next = Extent.link (done ++ rest) fsNull)
    (hlow : (Extent.content done).length ≤ newSize.toNat)
    (hhigh : newSize.toNat < (Extent.content (done ++ rest)).length)
    (hfits : (Extent.content (done ++ rest)).length < 2 ^ 32)
    {rounds : Nat} (hrounds : rest.length < rounds) {post : FSFileHeader → Store g → Prop}
    (hpost : ∀ (S' : Store g) (es' : List Extent),
      Shrunk S S' (done ++ rest) es' newSize.toNat →
        post { file with extent.next := Extent.link es' fsNull } S') :
    (world g n A B).Ensures (Prog.iterate (shrinkRound file newSize) rounds cursor) S post := by
  induction rest generalizing done cursor rounds with
  | nil =>
      rw [List.append_nil] at hhigh
      omega
  | cons e rest ih =>
      obtain ⟨rounds, rfl⟩ := obtain_succ hrounds
      obtain ⟨hdone, hrest⟩ := Store.linked_append.mp hlinked
      rw [Extent.content_append, List.length_append, Extent.content_cons,
        List.length_append] at hfits
      have hsize : (e.header (Extent.link rest fsNull)).extentDataSize.toNat = e.data.length := by
        rw [Extent.header, UInt32.toNat_ofNat', Nat.mod_eq_of_lt (by omega)]
      have hsum : (cursor.accumulated + (e.header (Extent.link rest fsNull)).extentDataSize).toNat =
          (Extent.content done).length + e.data.length := by
        rw [Mem.toNat_add_of_lt (by rw [hsize, hcursor.accumulated]; omega), hsize,
          hcursor.accumulated]
      have hrestLength : (e :: rest).length < n := by
        rw [List.length_append] at hn
        omega
      refine Refine.ensures_iterate ?_
      have hcurrent : cursor.current = e.address := hcursor.current
      rw [shrinkRound, hcurrent, if_neg (S.ne_fsNull hrest.1)]
      refine Refine.ensures_bind (ensures_extentRead hrest.1 ?_)
      dsimp only
      by_cases hcut : newSize.toNat < (Extent.content done).length + e.data.length
      · rw [if_pos (by rw [gt_iff_lt, UInt32.lt_iff_toNat_lt, hsum]; exact hcut)]
        have hkeep : (newSize - cursor.accumulated).toNat =
            newSize.toNat - (Extent.content done).length := by
          rw [Mem.toNat_sub_of_le (by rw [hcursor.accumulated]; exact hlow), hcursor.accumulated]
        split
        next hzero =>
          rw [hzero, UInt32.toNat_zero] at hkeep
          refine Refine.ensures_bind (ensures_cutBefore hrestLength hcursor hlinked hnodup hnext
            fun S' hshrunk => Refine.ensures_ret (hpost S' done ?_))
          rwa [show newSize.toNat = (Extent.content done).length by omega]
        next hsome =>
          refine Refine.ensures_bind
            (ensures_cutWithin (Nat.lt_of_succ_lt hrestLength) hcurrent hlinked
            hnodup (by omega) fun S' e' haddress hshrunk => Refine.ensures_ret ?_)
          rw [hkeep, Nat.add_sub_cancel' hlow] at hshrunk
          have hlink : Extent.link (done ++ [e']) fsNull = file.extent.next := by
            rw [hnext]
            cases done
            · exact haddress
            · rfl
          have hdone := hpost S' (done ++ [e']) hshrunk
          rwa [hlink] at hdone
      · rw [if_neg (by rw [gt_iff_lt, UInt32.lt_iff_toNat_lt, hsum]; exact hcut)]
        refine Refine.ensures_ret ?_
        have happend : done ++ e :: rest = (done ++ [e]) ++ rest := by simp
        rw [happend] at hn hlinked hnodup hnext hhigh hpost
        have hcontent : (Extent.content (done ++ [e])).length =
            (Extent.content done).length + e.data.length := by simp
        refine ih ⟨hsum.trans hcontent.symm, rfl, by simp, by simp⟩ hn hlinked hnodup
          hnext (by omega) hhigh ?_ (by simpa using hrounds) hpost
        rw [Extent.content_append, List.length_append]
        omega

/-! ## Growing -/

theorem chunkAllocation_le (sectorSize growth : UInt32) :
    (chunkAllocation sectorSize growth).toNat ≤ growth.toNat ∧
      (chunkAllocation sectorSize growth).toNat ≤ 4096 := by
  have hchunk : (if growth > 4096 then 4096 else growth).toNat ≤ growth.toNat ∧
      (if growth > 4096 then 4096 else growth).toNat ≤ 4096 := by
    by_cases hlarge : growth > 4096
    · rw [if_pos hlarge]
      exact ⟨Nat.le_of_lt (UInt32.lt_iff_toNat_lt.mp hlarge), Nat.le_refl _⟩
    · rw [if_neg hlarge]
      exact ⟨Nat.le_refl _, Nat.le_of_not_lt fun h => hlarge (UInt32.lt_iff_toNat_lt.mpr h)⟩
  simp only [chunkAllocation]
  generalize (if growth > 4096 then 4096 else growth) = chunk at hchunk ⊢
  split
  next hlarge =>
    rw [Mem.toNat_sub_of_le (UInt32.le_iff_toNat_le.mp hlarge.1)]
    omega
  next => exact hchunk

/-- How growing by `growth` bytes fares when the blocks in `free` are free: whether every
request is met, and how many are. -/
def fills (g : FSGeometry) : Nat → (Nat → Bool) → UInt32 → Bool × Nat
  | 0, _, _ => (false, 0)
  | rounds + 1, free, growth =>
      if growth = 0 then (true, 0)
      else
        let chunk := chunkAllocation g.sectorSize growth
        let need := (g.blocksFor (12 + chunk)).toNat
        match FirstFit.firstFit free need g.reservedBlocks.toNat g.blockCount.toNat with
        | none => (false, 0)
        | some s =>
            let rest := fills g rounds (FirstFit.occupy free s need) (growth - chunk)
            (rest.1, rest.2 + 1)

/-- `S'` is `S` with the extents `added` appended to the chain `es`. -/
structure Grown (S S' : Store g) (address : UInt32) (es added : List Extent) : Prop where
  linked : S'.Linked (es ++ added) fsNull
  fresh : ∀ a ∈ added.map Extent.address, S.cells a = none
  nodup : (address :: (es ++ added).map Extent.address).Nodup
  kept : ∀ a ∉ (es ++ added).map Extent.address, S'.cells a = S.cells a

theorem ensures_initExtent {x : Extent} {chunk : UInt32} {payload : List UInt8}
    (hn : 2 ^ 32 ≤ n) (hdata : x.data = List.replicate chunk.toNat 0) (hslack : x.slack = [])
    (hcell : S.cells x.address = some payload) (hlen : payload.length = 12 + chunk.toNat)
    {post : Unit → Store g → Prop}
    (hpost : ∀ S' : Store g, S'.cells =
      Function.update S.cells x.address (some (x.bytes fsNull)) → post () S') :
    (world g n A B).Ensures (initExtent x.address (x.header fsNull)) S post := by
  have hheader : (x.header fsNull).extentDataSize = chunk := by
    rw [Extent.header, hdata, List.length_replicate, UInt32.ofNat_toNat]
  have htake : (payload.take 12).length = 12 := List.length_take_of_le (by omega)
  have hdrop : (payload.drop 12).length = chunk.toNat := by
    rw [List.length_drop]
    omega
  rw [← List.take_append_drop 12 payload] at hcell
  refine Refine.ensures_bind (ensures_writeStruct hcell htake fun S₁ hcells₁ => ?_)
  have hcell₁ : S₁.cells x.address = some (FSFileExtent.layout.encode (x.header fsNull) ++
      payload.drop 12 ++ []) := by
    rw [hcells₁, Function.update_self, List.append_nil]
  have hfuel := chunk.toNat_lt
  rw [hheader]
  refine Refine.ensures_loop (ensures_zeroLoop hcell₁ ?_ hdrop.symm (Nat.lt_of_lt_of_le hfuel hn)
    fun S' hcells' => hpost S' ?_)
  · rw [FSFileExtent.layout.encode_length]
    rfl
  · rw [hcells', hcells₁, Function.update_idem, Extent.bytes, hdata, hslack, hdrop]

theorem ensures_linkTail {x : Extent} (hlinked : S.Linked es fsNull)
    (hcell : S.cells x.address = some (x.bytes fsNull))
    (hnodup : ((es ++ [x]).map Extent.address).Nodup)
    (hnext : file.extent.next = Extent.link es fsNull)
    {post : FSFileHeader → Store g → Prop}
    (hpost : ∀ S' : Store g, S'.Linked (es ++ [x]) fsNull → S'.free = S.free →
      (∀ a ∉ es.map Extent.address, S'.cells a = S.cells a) →
        post { file with extent.next := Extent.link (es ++ [x]) fsNull } S') :
    (world g n A B).Ensures (linkTail file x.address (tailOf es)) S post := by
  rcases List.eq_nil_or_concat es with rfl | ⟨init, last, rfl⟩
  · exact Refine.ensures_ret (hpost S ⟨hcell, trivial⟩ rfl fun _ _ => rfl)
  · rw [List.concat_eq_append] at *
    obtain ⟨hinit, hlast, -⟩ := Store.linked_append.mp hlinked
    have hfile : { file with extent.next := Extent.link (init ++ [last] ++ [x]) fsNull } =
      file := by
      have hlink : Extent.link (init ++ [last] ++ [x]) fsNull = file.extent.next := by
        rw [hnext]
        cases init <;> rfl
      rw [hlink]
    rw [hfile] at hpost
    rw [tailOf, List.getLast?_concat, Option.map_some]
    have hdistinct : last.address ∉ init.map Extent.address ∧ x.address ≠ last.address := by
      simp only [List.append_assoc, List.cons_append, List.nil_append, List.map_append,
        List.map_cons, List.map_nil, List.nodup_append', List.nodup_cons, List.mem_singleton,
        List.disjoint_cons_right] at hnodup
      exact ⟨hnodup.2.2.1, Ne.symm hnodup.2.1.1⟩
    refine Refine.ensures_bind (ensures_extentWrite last x.address hlast rfl
      fun S' hcells => Refine.ensures_ret (hpost S' ?_ ?_ ?_))
    · rw [List.append_assoc]
      refine Store.linked_append.mpr ⟨hinit.update hdistinct.1 hcells, ?_, ?_, trivial⟩
      · rw [hcells]
        exact Function.update_self ..
      · rw [hcells, Function.update_of_ne hdistinct.2]
        exact hcell
    · exact Store.free_update hlast (by simp) hcells
    · intro a ha
      rw [hcells, Function.update_of_ne]
      rintro rfl
      exact ha (by simp)

/-- The loop of `fs_file_resize` that appends extents ends with the growth or with a request
that is refused. -/
theorem ensures_growLoop {growth : UInt32} {rounds : Nat} (hn : 2 ^ 32 ≤ n)
    (hlinked : S.Linked es fsNull) (hnodup : (address :: es.map Extent.address).Nodup)
    (hheld : S.cells address ≠ none) (hnext : file.extent.next = Extent.link es fsNull)
    (hrounds : S.room < rounds)
    (hgrant : ∀ (d : Device) (size : UInt32), A (.alloc size) d → B size d)
    {post : Option FSFileHeader → Store g → Prop}
    (hsome : ∀ (S' : Store g) (added : List Extent), Grown S S' address es added →
      Extent.content added = List.replicate growth.toNat 0 →
      fills g rounds S.free growth = (true, added.length) →
        post (some { file with extent.next := Extent.link (es ++ added) fsNull }) S')
    (hnone : ∀ (S' : Store g) (added : List Extent), Grown S S' address es added →
      (∃ (d : Device) (size : UInt32), A (.alloc size) d ∧ (d.fsAlloc size).1 = fsNull) →
      fills g rounds S.free growth = (false, added.length) → post none S') :
    (world g n A B).Ensures (Prog.iterate (growRound address) rounds (growth, file, tailOf es)) S
      post := by
  induction rounds generalizing S es file growth with
  | zero => omega
  | succ rounds ih =>
      refine Refine.ensures_iterate ?_
      rw [growRound]
      by_cases hzero : growth = 0
      · rw [if_pos hzero]
        have hdone := hsome S [] ⟨by rwa [List.append_nil], by simp, by rwa [List.append_nil],
          fun _ _ => rfl⟩ (by rw [hzero]; rfl) (by rw [fills, if_pos hzero]; rfl)
        rw [List.append_nil, ← hnext] at hdone
        exact Refine.ensures_ret hdone
      · rw [if_neg hzero]
        refine Refine.ensures_bind (ensures_context ?_)
        obtain ⟨hle, hsmall⟩ := chunkAllocation_le g.sectorSize growth
        have hfills : fills g (rounds + 1) S.free growth =
            match S.fit (12 + chunkAllocation g.sectorSize growth) with
            | none => (false, 0)
            | some s =>
                let rest := fills g rounds (FirstFit.occupy S.free s
                  (g.blocksFor (12 + chunkAllocation g.sectorSize growth)).toNat)
                  (growth - chunkAllocation g.sectorSize growth)
                (rest.1, rest.2 + 1) := by
          rw [fills, if_neg hzero]
          rfl
        generalize chunkAllocation g.sectorSize growth = chunk at hle hsmall hfills ⊢
        have hsize : (12 + chunk).toNat = 12 + chunk.toNat :=
          Mem.toNat_add_of_lt (by simp only [UInt32.reduceToNat]; omega)
        refine Refine.ensures_bind (ensures_alloc
          (Store.serves_of_held hheld (by omega) (by omega)) (fun d _ => hgrant d _) ?_ ?_)
        · intro d hassume hnull hplace
          rw [if_pos rfl]
          refine Refine.ensures_ret (hnone S [] ⟨by rwa [List.append_nil], by simp,
            by rwa [List.append_nil], fun _ _ => rfl⟩ ⟨d, _, hassume, hnull⟩ ?_)
          rw [hfills, Option.map_eq_none_iff.mp hplace]
          rfl
        · intro S₁ newAddr payload hsized' hplace hfresh hlen hcells₁
          have hcell₁ : S₁.cells newAddr = some payload := by rw [hcells₁, Function.update_self]
          rw [if_neg (S₁.ne_fsNull hcell₁)]
          let x : Extent :=
            { address := newAddr
              prev := ((tailOf es).map Prod.fst).getD address
              data := List.replicate chunk.toNat 0
              slack := [] }
          have hheader : (⟨⟨fsNull, ((tailOf es).map Prod.fst).getD address⟩, chunk⟩ :
              FSFileExtent) = x.header fsNull := by
            simp only [Extent.header, x, List.length_replicate, UInt32.ofNat_toNat]
          rw [hheader]
          rw [hsize] at hlen
          refine Refine.ensures_bind (ensures_initExtent (x := x) hn rfl rfl hcell₁ hlen
            fun S₂ hcells₂ => ?_)
          have hcells : S₂.cells = Function.update S.cells newAddr (some (x.bytes fsNull)) := by
            rw [hcells₂, hcells₁, Function.update_idem]
          have hout : newAddr ∉ es.map Extent.address := fun hmem => hlinked.held hmem hfresh
          have hne : newAddr ≠ address := fun heq => hheld (heq ▸ hfresh)
          have hnodup' : (address :: (es ++ [x]).map Extent.address).Nodup := by
            rw [List.map_append, ← List.cons_append]
            exact List.nodup_append'.mpr ⟨hnodup, List.nodup_singleton _, by
              simpa [x, hne] using hout⟩
          have hcell₂ : S₂.cells x.address = some (x.bytes fsNull) := by
            rw [hcells, Function.update_self]
          refine Refine.ensures_bind (ensures_linkTail (hlinked.update hout hcells) hcell₂
            (List.nodup_cons.mp hnodup').2 hnext fun S₃ hlinked₃ hfree₃ hkept₃ => ?_)
          have htail : some (newAddr, x.header fsNull) = tailOf (es ++ [x]) := by
            simp [tailOf, x]
          have hkept : ∀ a ∉ (es ++ [x]).map Extent.address, S₃.cells a = S.cells a := by
            intro a ha
            simp only [List.map_append, List.map_cons, List.map_nil, List.mem_append,
              List.mem_singleton, not_or] at ha
            rw [hkept₃ a ha.1, hcells, Function.update_of_ne ha.2]
          have hgrown : ∀ (S' : Store g) (added : List Extent),
              Grown S₃ S' address (es ++ [x]) added → Grown S S' address es (x :: added) := by
            intro S' added h
            have happend : es ++ x :: added = (es ++ [x]) ++ added := by simp
            refine ⟨happend ▸ h.linked, ?_, happend ▸ h.nodup, fun a ha => ?_⟩
            · rw [List.map_cons, List.forall_mem_cons]
              refine ⟨hfresh, fun a ha => ?_⟩
              have hnone₃ := h.fresh a ha
              rw [← hkept a fun hmem => hlinked₃.held hmem hnone₃, hnone₃]
            · rw [happend] at ha
              have hout' : a ∉ (es ++ [x]).map Extent.address := fun hmem => ha (by
                rw [List.map_append]
                exact List.mem_append_left _ hmem)
              rw [h.kept a ha, hkept a hout']
          have hbytes : (x.bytes fsNull).length = (12 + chunk).toNat := by
            simp [hsize, x]
          obtain ⟨s, hfit, hfree⟩ := Store.free_alloc hsized' hplace hfresh hbytes hcells
          have hroom : S₃.room = S₂.room := by rw [Store.room, Store.room, hfree₃]
          simp only [hfit, ← hfree, ← hfree₃] at hfills
          have hleft : (growth - chunk).toNat = growth.toNat - chunk.toNat :=
            Mem.toNat_sub_of_le hle
          rw [htail]
          refine Refine.ensures_ret (ih hlinked₃ hnodup' ?_ rfl ?_ ?_ ?_)
          · rw [hkept address (List.nodup_cons.mp hnodup').1]
            exact hheld
          · have hless := Store.room_alloc hsized' hplace hfresh hbytes hcells
            omega
          · intro S' added h hzeros hserved
            have hdone := hsome S' (x :: added) (hgrown S' added h) ?_ ?_
            · rwa [show es ++ x :: added = es ++ [x] ++ added by simp] at hdone
            · rw [Extent.content_cons, hzeros, hleft, List.replicate_append_replicate,
                Nat.add_sub_cancel' hle]
            · rw [hfills, hserved]
              rfl
          · intro S' added h hrefused hserved
            refine hnone S' (x :: added) (hgrown S' added h) hrefused ?_
            rw [hfills, hserved]
            rfl

end FS

end AvrKernel.BaseFS

import AvrKernel.BaseFS.Isolation
import AvrKernel.BaseFS.ReferenceSet

/-!
# Removing and listing references

What is left of a directory without one of its references: every block keeps the
other ones in their order, and an extent that had nothing else is gone.
-/

namespace AvrKernel.BaseFS

open Bytes Effect BlockList

theorem erase_eq_filter {refs : List UInt32} (hset : refs.Nodup) (x : UInt32) :
    refs.erase x = refs.filter (· ≠ x) := by
  rw [hset.erase_eq_filter]
  exact List.filter_congr fun r _ => by rw [Bool.eq_iff_iff, bne_iff_ne, decide_eq_true_iff]

namespace DirExtent

theorem withdraw_of_not_mem {x : UInt32} {es : List DirExtent} (hout : ∀ e ∈ es, x ∉ e.refs) :
    withdraw x es = es := by
  have happend : withdraw x (es ++ []) = es ++ withdraw x [] := withdraw_append hout
  rwa [List.append_nil, withdraw, List.append_nil] at happend

/-- Where the extent lies and what it refers to. -/
def content (e : DirExtent) : UInt32 × List UInt32 := (e.address, e.refs)

/-- Among references that are all different, only the extent with `x` alone is dropped, and the
others lose `x`. -/
theorem withdraw_content {x : UInt32} {es : List DirExtent}
    (hset : (elems (es.map fun e => e.block)).Nodup) :
    (withdraw x es).map content =
      (es.filter fun e => e.refs ≠ [x]).map fun e => (e.address, e.refs.filter (· ≠ x)) := by
  have hkept : ∀ {fs : List DirExtent}, (∀ f ∈ fs, x ∉ f.refs) → fs.map content =
      (fs.filter fun e => e.refs ≠ [x]).map fun e => (e.address, e.refs.filter (· ≠ x)) := by
    intro fs hout
    rw [List.filter_eq_self.mpr fun f hf => ?_]
    · refine List.map_congr_left fun f hf => ?_
      have hsame : f.refs.filter (· ≠ x) = f.refs :=
        List.filter_eq_self.mpr fun r hr => decide_eq_true fun heq => hout f hf (heq ▸ hr)
      rw [hsame, content]
    · exact decide_eq_true fun heq => hout f hf (heq ▸ List.mem_singleton_self x)
  induction es with
  | nil => rfl
  | cons e es ih =>
      rw [List.map_cons, elems_cons, Slots.block_elems, List.nodup_append'] at hset
      obtain ⟨hhere, hrest, hapart⟩ := hset
      have herase : e.refs.erase x = e.refs.filter (· ≠ x) := erase_eq_filter hhere x
      rw [withdraw]
      by_cases hin : x ∈ e.refs
      · -- no extent behind this one has the reference
        have hout : ∀ f ∈ es, x ∉ f.refs := fun f hf hmem =>
          hapart hin (List.mem_flatMap.mpr ⟨f.block, List.mem_map_of_mem hf, hmem⟩)
        rw [if_pos hin]
        by_cases hlast : e.refs.erase x = []
        · have halone : e.refs = [x] := by
            have hlength := List.length_erase_of_mem hin
            rw [hlast, List.length_nil] at hlength
            have hpos := List.length_pos_of_mem hin
            obtain ⟨r, hr⟩ := List.length_eq_one_iff.mp (show e.refs.length = 1 by omega)
            rw [hr, List.mem_singleton] at hin
            rw [hr, hin]
          rw [if_pos hlast, List.filter_cons_of_neg (by simp [halone])]
          exact hkept hout
        · have hmore : e.refs ≠ [x] := fun halone => hlast (by simp [halone])
          rw [if_neg hlast, List.filter_cons_of_pos (by simp [hmore]), List.map_cons, List.map_cons,
            hkept hout, ← herase]
          rfl
      · have hmore : e.refs ≠ [x] := fun halone => hin (by simp [halone])
        have hsame : e.refs.filter (· ≠ x) = e.refs := by rw [← herase, List.erase_of_not_mem hin]
        rw [if_neg hin, List.filter_cons_of_pos (by simp [hmore]), List.map_cons, List.map_cons,
          ih hrest, hsame]
        rfl

end DirExtent

section

variable {g : FSGeometry} {S S' : Store g} {address x : UInt32} {D : Directory}

/-- `S'` is `S` after the removal of `x`: the directory without it, in the same order, and of
the allocations those of the extents that had nothing else gone. -/
structure Store.Removed (S S' : Store g) (address x : UInt32) (D D' : Directory) : Prop where
  directory : S'.DirectoryAt address D'
  refs : D'.refs = D.refs.filter (· ≠ x)
  slots : D'.slots.refs = D.slots.refs.filter (· ≠ x)
  extents : D'.extents.map DirExtent.content =
    (D.extents.filter fun e => e.refs ≠ [x]).map fun e => (e.address, e.refs.filter (· ≠ x))
  freed : ∀ e ∈ D.extents, S'.cells e.address = none ↔ e.refs = [x]
  outside : ∀ a ∉ D.addresses address, S'.cells a = S.cells a
  block : D'.header.block = D.header.block
  parent : D'.header.parent = D.header.parent

namespace Directory

theorem without_refs (hset : D.refs.Nodup) (x : UInt32) :
    (D.without x).refs = D.refs.filter (· ≠ x) := by
  rw [refs, without_blocks, elems_remove]
  exact erase_eq_filter hset x

theorem without_slots (hset : D.refs.Nodup) (x : UInt32) :
    (D.without x).slots.refs = D.slots.refs.filter (· ≠ x) := by
  have hrefs : D.refs = D.slots.refs ++ elems (D.extents.map fun e => e.block) := rfl
  rw [hrefs, List.nodup_append'] at hset
  rw [← erase_eq_filter hset.1, without]
  split
  next hin => rfl
  next hout => exact (List.erase_of_not_mem hout).symm

theorem without_extents (hset : D.refs.Nodup) (x : UInt32) :
    (D.without x).extents.map DirExtent.content =
      (D.extents.filter fun e => e.refs ≠ [x]).map fun e => (e.address, e.refs.filter (· ≠ x)) := by
  have hrefs : D.refs = D.slots.refs ++ elems (D.extents.map fun e => e.block) := rfl
  rw [hrefs, List.nodup_append'] at hset
  rw [← DirExtent.withdraw_content hset.2.1, without]
  split
  next hin =>
    rw [DirExtent.withdraw_of_not_mem fun e he hmem => hset.2.2 hin
      (List.mem_flatMap.mpr ⟨e.block, List.mem_map_of_mem he, hmem⟩)]
  next hout => rfl

theorem without_addresses (hset : D.refs.Nodup) (x : UInt32) :
    (D.without x).extents.map DirExtent.address =
      (D.extents.filter fun e => e.refs ≠ [x]).map DirExtent.address := by
  have hcontent := congrArg (List.map Prod.fst) (without_extents hset x)
  rw [List.map_map, List.map_map] at hcontent
  exact hcontent

end Directory

/-- Removing a reference leaves the allocations that are still part of the directory. -/
theorem Store.Relisted.removed (hdir : S.DirectoryAt address D) (hset : D.refs.Nodup)
    (h : S.Relisted S' address D (D.without x)) : S.Removed S' address x D (D.without x) := by
  have haddresses := D.without_addresses hset x
  refine ⟨h.directory, D.without_refs hset x, D.without_slots hset x, D.without_extents hset x,
    fun e he => ⟨fun hnone => ?_, fun halone => ?_⟩, fun a ha => ?_, h.block, h.parent⟩
  · by_contra hmore
    refine h.directory.chained.held ?_ hnone
    rw [haddresses]
    exact List.mem_map_of_mem (List.mem_filter.mpr ⟨he, decide_eq_true hmore⟩)
  · have hmem : e.address ∈ D.extents.map DirExtent.address := List.mem_map_of_mem he
    refine h.changed.dropped _ (List.mem_cons_of_mem _ hmem) fun hin => ?_
    rw [Directory.addresses, haddresses] at hin
    rcases List.mem_cons.mp hin with heq | hin
    · exact hdir.not_mem_extents (heq ▸ hmem)
    · obtain ⟨f, hf, heq⟩ := List.mem_map.mp hin
      obtain ⟨hf, hmore⟩ := List.mem_filter.mp hf
      have hsame : f = e := List.inj_on_of_nodup_map hdir.nodup_extents hf he heq
      rw [hsame] at hmore
      exact of_decide_eq_true hmore halone
  · refine h.changed.outside a ha fun hin => ha ?_
    rw [Directory.addresses, haddresses] at hin
    rw [Directory.addresses, List.mem_cons]
    exact (List.mem_cons.mp hin).imp_right fun hin =>
      (List.filter_sublist.map DirExtent.address).subset hin

/-- Removing a reference that is there removes it alone, and frees an extent that had nothing
else; removing one that is not there is refused and changes nothing. The indices below the
number of references list each of them once. -/
theorem directory_lists {d : Device} (hd : d.Holds S) (hdir : S.DirectoryAt address D)
    (hset : D.refs.Nodup) (hnull : fsNull ∉ D.refs) (n : Nat) :
    (∀ x ∈ D.refs, ∃ (d' : Device) (S' : Store g) (D' : Directory),
      (FS.fsDirectoryRemoveReference address x).run n Device.handle d = some (0, d') ∧
      d'.Holds S' ∧ S.Removed S' address x D D' ∧
      ((FS.fsDirectoryGetReferenceCount address).run n Device.handle d).map Prod.fst =
        some (.ofNat D.refs.length) ∧
      ((FS.fsDirectoryGetReferenceCount address).run n Device.handle d').map Prod.fst =
        some (.ofNat (D.refs.length - 1))) ∧
    (∀ x ∉ D.refs, ∃ (status : UInt8) (d' : Device),
      (FS.fsDirectoryRemoveReference address x).run n Device.handle d = some (status, d') ∧
      status ≠ 0 ∧ d'.Holds S) ∧
    D.refs.length < 2 ^ 32 ∧
    ∀ (i : Nat) (hi : i < D.refs.length),
      ((FS.fsDirectoryGetReference address (.ofNat i)).run n Device.handle d).map Prod.fst =
        some D.refs[i] := by
  have hcount : ∀ {d : Device} {S : Store g} {D : Directory}, d.Holds S →
      S.DirectoryAt address D →
      ((FS.fsDirectoryGetReferenceCount address).run n Device.handle d).map Prod.fst =
        some (.ofNat D.refs.length) := fun hd hdir => by
    rw [← hd.sound.run_view (FS.readOnly_getReferenceCount address)]
    exact hd.view_of_ensures (FS.readOnly_getReferenceCount address)
      (FS.ensures_getReferenceCount hdir rfl)
  refine ⟨fun x hx => ?_, fun x hx => ?_, hdir.refs_length_lt, fun i hi => ?_⟩
  · have hne : x ≠ fsNull := fun heq => hnull (heq ▸ hx)
    have hremoved : (world g n (fun _ _ => True) fun _ _ => True).Ensures
        (FS.fsDirectoryRemoveReference address x) S fun status S' =>
          status = 0 ∧ S.Removed S' address x D (D.without x) :=
      FS.ensures_removeReference hdir hne (fun hout => absurd hx hout)
        fun S' _ hrelisted => ⟨rfl, hrelisted.removed hdir hset⟩
    obtain ⟨status, d', S', hrun, hd', rfl, hremoved⟩ := hd.run_of_ensures hremoved
    have hlength : (D.without x).refs.length = D.refs.length - 1 := by
      rw [D.without_refs hset, ← erase_eq_filter hset, List.length_erase_of_mem hx]
    refine ⟨d', S', D.without x, hrun, hd', hremoved, hcount hd hdir, ?_⟩
    rw [hcount hd' hremoved.directory, hlength]
  · by_cases hnone : x = fsNull
    · rw [FS.fsDirectoryRemoveReference, if_pos hnone]
      exact ⟨1, d, rfl, by decide, hd⟩
    · have hrefused : (world g n (fun _ _ => True) fun _ _ => True).Ensures
          (FS.fsDirectoryRemoveReference address x) S fun status S' => status = 4 ∧ S' = S :=
        FS.ensures_removeReference hdir hnone (fun _ => ⟨rfl, rfl⟩)
          fun _ hin _ => absurd hin hx
      obtain ⟨status, d', S', hrun, hd', rfl, rfl⟩ := hd.run_of_ensures hrefused
      exact ⟨4, d', hrun, by decide, hd'⟩
  · rw [← hd.sound.run_view (FS.readOnly_getReference address _)]
    refine hd.view_of_ensures (FS.readOnly_getReference address _)
      (FS.ensures_getReference hdir ?_)
    have hindex : (UInt32.ofNat i).toNat = i := by
      rw [UInt32.toNat_ofNat', Nat.mod_eq_of_lt (lt_trans hi hdir.refs_length_lt)]
    rw [hindex, List.getD_eq_getElem _ _ hi]

/-- Removing 25 frees the extent. -/
theorem directory_lists_full : ∃ (n : Nat) (address : UInt32) (d d' : Device)
    (S S' : Store smallGeometry) (D D' : Directory), D.blocks = fullBlocks ∧
    (FS.fsDirectoryRemoveReference address 25).run n Device.handle d = some (0, d') ∧
      d'.Holds S' ∧ S.Removed S' address 25 D D' := by
  obtain ⟨d, S, address, D, hd, hdir, hblocks⟩ := exists_fullDirectory
  have hset : D.refs.Nodup := by
    rw [Directory.refs, hblocks]
    decide
  have hnull : fsNull ∉ D.refs := by
    rw [Directory.refs, hblocks]
    decide
  have hin : (25 : UInt32) ∈ D.refs := by
    rw [Directory.refs, hblocks]
    decide
  obtain ⟨d', S', D', hrun, hd', hremoved, -⟩ := (directory_lists hd hdir hset hnull 0).1 25 hin
  exact ⟨0, address, d, d', S, S', D, D', hblocks, hrun, hd', hremoved⟩

end

end AvrKernel.BaseFS

import AvrKernel.Dwm.Family
import AvrKernel.Lib.Acyclic
import AvrKernel.Lib.Counters

/-!
# The forest of windows

Parents and children agree after every operation. `dwm_window_set_parent` takes any
parent, also the window itself or one below it, and closes a cycle then. Without a cycle
every walk along parents or children ends.
-/

namespace AvrKernel.Dwm

open Relation

/-- The operation leaves the windows as they are. -/
def DesktopOp.Aside : DesktopOp → Prop
  | createWindow .. | destroyWindow _ | setParent .. | setFocus _ => False
  | _ => True

namespace Desktop

variable {s s' : Desktop} {orphans : List Address} {a b p q : Address} {w : WindowObject}

/-! ## Parents and children agree -/

/-- An id that no window has. -/
def Unused (ids : List UInt32) (id : UInt32) : Prop := id ∉ ids ∧ id ≠ 0

/-- The search takes the first id from the counter on that is not in use. -/
theorem first_of_freeId {ids : List UInt32} {fuel : Nat} {next id next' : UInt32}
    (h : freeId ids fuel next = some (id, next')) : Counter.First (· + 1) (Unused ids) next id := by
  induction fuel generalizing next with
  | zero => cases h
  | succ fuel ih =>
      rw [freeId] at h
      by_cases hzero : next = 0
      · simp only [hzero, if_true] at h
        rw [hzero]
        refine .skip (fun hunused => hunused.2 rfl) ?_
        split at h
        next hused => exact .skip (fun hunused => hunused.1 hused) (ih h)
        next hfree =>
          cases h
          exact .here ⟨hfree, by decide⟩
      · simp only [hzero, if_false] at h
        split at h
        next hused => exact .skip (fun hunused => hunused.1 hused) (ih h)
        next hfree =>
          cases h
          exact .here ⟨hfree, hzero⟩

/-- A new window is alone, and has an address and an id of its own. -/
theorem kin_allocateWindow {wclass : WindowClass} {style : UInt16} {memory : WindowMemory}
    (h : s.allocateWindow wclass style memory = some s') :
    s'.pointers = s.pointers ∧ (s'.kin = s.kin ∨ ∃ address id,
      s'.kin = s.kin ++ [⟨address, id, none, []⟩] ∧ ¬s.Live address ∧ id ∉ s.kin.map Kin.id ∧
        id ≠ 0) := by
  rw [allocateWindow] at h
  split at h
  · cases h
    exact ⟨rfl, .inl rfl⟩
  next address _ =>
    split at h
    · cases h
    next hfree =>
      dsimp only at h
      split at h
      · cases h
        exact ⟨rfl, .inl rfl⟩
      · simp only [Option.bind_eq_bind, Option.bind_eq_some_iff] at h
        obtain ⟨⟨id, nextWindowId⟩, hid, buttons, -, h⟩ := h
        obtain ⟨hnew, hne⟩ := (first_of_freeId hid).isFree
        split at h
        · cases h
          refine ⟨rfl, .inr ⟨address, id, List.map_append, fun hlive => ?_, ?_, hne⟩⟩
          · obtain ⟨w, hw⟩ := exists_window hlive
            exact hfree (Option.isSome_of_eq_some hw)
          · rwa [kin, List.map_map]
        · cases h
          exact ⟨rfl, .inl rfl⟩

theorem linked_allocateWindow {wclass : WindowClass} {style : UInt16} {memory : WindowMemory}
    (hs : Linked orphans s) (h : s.allocateWindow wclass style memory = some s') :
    Linked orphans s' ∧ ∀ a p, s'.Up a p ↔ s.Up a p := by
  rcases (kin_allocateWindow h).2 with hsame | ⟨address, id, hkin, haddress, hid, hne⟩
  · rw [Linked, hsame]
    exact ⟨hs, fun a p => by rw [Up, Up, hsame]⟩
  · simp only [Linked, Up, hkin]
    exact ⟨Kin.Linked.fresh hs haddress hid hne rfl rfl, fun a p => Kin.up_fresh rfl⟩

/-- The old parent has struck the child off. -/
theorem linked_removeChild {c : WindowObject} (hs : Linked [] s) (hc : c ∈ s.windows) :
    Linked [c.address] (s.removeChild c) ∧ (∀ b q, (s.removeChild c).Up b q ↔ s.Up b q) ∧
      ∀ a, (s.removeChild c).Live a ↔ s.Live a := by
  rw [removeChild]
  split
  next hnone =>
    refine ⟨Kin.Linked.orphan hs fun q hup => ?_, fun b q => Iff.rfl, fun a => Iff.rfl⟩
    have hparent := (hs.up_iff hc).mp hup
    rw [hnone] at hparent
    cases hparent
  next old hold =>
    have hup : s.Up c.address old := (hs.up_iff hc).mpr hold
    have hkin : (s.modifyWindow old fun o =>
      { o with children := o.children.erase c.address }).kin =
        Kin.modify old (Kin.disown c.address) s.kin := kin_modifyWindow fun _ => rfl
    simp only [Linked, Up, Live, hkin]
    refine ⟨Kin.Linked.detach hs hup List.not_mem_nil, fun b q => ?_, fun a => ?_⟩
    · exact Kin.up_modify_children (Kin.mild_disown c.address) fun _ => rfl
    · rw [Kin.map_modify (Kin.mild_disown c.address).address]

theorem kin_appendChild (parent child : Address) (node : Bool) :
    (s.appendChild parent child node).kin =
      if node then Kin.modify parent (Kin.adopt child) s.kin else s.kin := by
  rw [appendChild]
  split
  · exact kin_modifyWindow fun _ => rfl
  · rfl

/-- The child gets the parent, and nothing else changes. In the list of the parent it is only if
there was memory. -/
theorem windowSetParent_spec {child parent : WindowHandle} {c p : WindowObject} (hs : Linked [] s)
    (hc : s.getWindowById child = some c) (hp : s.getWindowById parent = some p) (node : Bool) :
    Linked (if node then [] else [c.address]) (s.windowSetParent child parent node) ∧ ∀ b q,
      (s.windowSetParent child parent node).Up b q ↔
        b = c.address ∧ q = p.address ∨ b ≠ c.address ∧ s.Up b q := by
  obtain ⟨hcmem, -⟩ := getWindowById_some hc
  obtain ⟨hpmem, -⟩ := getWindowById_some hp
  obtain ⟨hlinked, hups, hlive⟩ := linked_removeChild hs hcmem
  generalize hks : (s.removeChild c).kin = ks at hlinked hups hlive
  simp only [Linked, Up, Live, hks] at hlinked hups hlive
  have hcks : c.address ∈ ks.map Kin.address := (hlive _).mpr (live_of_mem hcmem)
  have hpks : p.address ∈ ks.map Kin.address := (hlive _).mpr (live_of_mem hpmem)
  have hmoved := Kin.Linked.moveTo hlinked hcks p.address
  have hup : Kin.Up (Kin.modify c.address (Kin.moveTo p.address) ks) c.address p.address :=
    (Kin.up_moveTo hcks).mpr (.inl ⟨rfl, rfl⟩)
  have hkin : (s.windowSetParent child parent node).kin = Kin.modify c.address
      (Kin.moveTo p.address) ((s.removeChild c).appendChild p.address c.address node).kin := by
    rw [windowSetParent, hp, hc]
    exact kin_modifyWindow fun _ => rfl
  rw [kin_appendChild, hks] at hkin
  cases node with
  | false =>
      simp only [Linked, Up, hkin, Bool.false_eq_true, if_false]
      exact ⟨hmoved, fun b q => by rw [Kin.up_moveTo hcks, hups]⟩
  | true =>
      simp only [Linked, Up, hkin, if_true]
      rw [← Kin.modify_comm (Kin.mild_adopt _) (Kin.mild_moveTo _) fun _ => rfl]
      refine ⟨Kin.Linked.adopt hmoved hup List.not_mem_nil ?_, fun b q => ?_⟩
      · exact (Kin.map_modify (Kin.mild_moveTo p.address).address).symm ▸ hpks
      · rw [Kin.up_modify_children (Kin.mild_adopt c.address) fun _ => rfl,
          Kin.up_moveTo hcks, hups]

theorem windowSetParent_none {child parent : WindowHandle}
    (h : s.getWindowById child = none ∨ s.getWindowById parent = none) (node : Bool) :
    s.windowSetParent child parent node = s := by
  rw [windowSetParent]
  split
  next hp hc => simp [hp, hc] at h
  · rfl

theorem kin_raise (w : WindowObject) : (s.raise w).kin.Perm s.kin := by
  have hsplit := List.filter_append_perm (fun v : WindowObject => decide (v.address ≠ w.address))
    s.windows
  refine List.Perm.map WindowObject.kin (List.Perm.trans (List.Perm.of_eq ?_) hsplit)
  simp only [raise, decide_not, Bool.not_not, ne_eq]

theorem linked_setFocus (hs : Linked orphans s) (w : WindowObject) :
    Linked orphans (s.setFocus w) ∧ ∀ a p, (s.setFocus w).Up a p ↔ s.Up a p :=
  ⟨Kin.Linked.perm hs (kin_raise w), fun _ _ => Kin.up_perm (kin_raise w)⟩

/-! ## Walks end -/

/-- How many windows there are above a window. -/
noncomputable def height (s : Desktop) (a : Address) : Nat :=
  Acyclic.rank s.Up (s.kin.map Kin.address).toFinset a

/-- Nothing is above itself, and every parent is there. -/
structure Grounded (s : Desktop) : Prop where
  acyclic : Acyclic s.Up
  closed : ∀ a p, s.Up a p → s.Live p

namespace Grounded

theorem height_lt (h : s.Grounded) (hup : s.Up a p) : s.height p < s.height a :=
  h.acyclic.rank_lt hup (List.mem_toFinset.mpr (h.closed a p hup))

theorem height_lt_length (h : s.Grounded) (ha : s.Live a) : s.height a < s.windows.length := by
  have hlt : s.height a < (s.kin.map Kin.address).toFinset.card :=
    h.acyclic.rank_lt_card (List.mem_toFinset.mpr ha)
  have hle := List.toFinset_card_le (s.kin.map Kin.address)
  rw [List.length_map, kin, List.length_map] at hle
  exact hlt.trans_le hle

theorem exists_surfaceSum (h : s.Grounded) (ha : s.Live a) {fuel : Nat}
    (hfuel : s.height a + 1 < fuel) : ∃ sum, surfaceSum s.window fuel (some a) = some sum := by
  induction fuel generalizing a with
  | zero => exact absurd hfuel (Nat.not_lt_zero _)
  | succ fuel ih =>
      obtain ⟨w, hw⟩ := exists_window ha
      obtain ⟨hmem, haddress⟩ := window_some hw
      simp only [surfaceSum, hw, Option.bind_eq_bind, Option.bind_some]
      cases hparent : w.parent with
      | none =>
          obtain ⟨fuel, rfl⟩ := Nat.exists_eq_add_of_lt (Nat.lt_of_add_lt_add_right hfuel)
          exact ⟨_, rfl⟩
      | some parent =>
          have hup : s.Up a parent := ⟨w.kin, kin_mem hmem, haddress, hparent⟩
          have hlt := h.height_lt hup
          obtain ⟨sum, hsum⟩ := ih (h.closed a parent hup) (by omega)
          exact ⟨_, by rw [hsum]; rfl⟩

theorem exists_getAbsolutePosition (h : s.Grounded) (hw : w ∈ s.windows) :
    ∃ position, s.getAbsolutePosition w = some position := by
  rw [getAbsolutePosition, absolutePosition]
  cases hparent : w.parent with
  | none => exact ⟨_, rfl⟩
  | some parent =>
      have hlive := h.closed w.address parent ⟨w.kin, kin_mem hw, rfl, hparent⟩
      have hlt := h.height_lt_length hlive
      obtain ⟨sum, hsum⟩ :
          ∃ sum, surfaceSum s.window (s.windows.length + 2) (some parent) = some sum :=
        h.exists_surfaceSum hlive (by omega)
      exact ⟨_, Option.map_eq_some_iff.mpr ⟨sum, hsum, rfl⟩⟩

/-- `dwm_get_root_parent` comes to a window without a parent. -/
theorem exists_rootOf (h : s.Grounded) (hw : w ∈ s.windows) {fuel : Nat}
    (hfuel : s.height w.address < fuel) :
    ∃ root, s.rootOf fuel w = some root ∧ root ∈ s.windows ∧ root.parent = none := by
  induction fuel generalizing w with
  | zero => exact absurd hfuel (Nat.not_lt_zero _)
  | succ fuel ih =>
      rw [rootOf, rootParent]
      cases hparent : w.parent with
      | none => exact ⟨w, rfl, hw, hparent⟩
      | some parent =>
          have hup : s.Up w.address parent := ⟨w.kin, kin_mem hw, rfl, hparent⟩
          obtain ⟨v, hv⟩ := exists_window (h.closed _ _ hup)
          obtain ⟨hmem, haddress⟩ := window_some hv
          have hlt := haddress ▸ h.height_lt hup
          obtain ⟨root, hroot, hrest⟩ := ih hmem (by omega)
          exact ⟨root, Option.bind_eq_some_iff.mpr ⟨v, hv, hroot⟩, hrest⟩

end Grounded

theorem Linked.grounded (h : Linked [] s) (hacyclic : Acyclic s.Up) : s.Grounded :=
  ⟨hacyclic, fun _ _ hup => Kin.Linked.parent_mem h hup List.not_mem_nil⟩

/-- A loop whose rounds return and keep an invariant returns. -/
theorem exists_foldlM {α : Type} {f : Desktop → α → Option Desktop}
    {I : Desktop → Prop} {xs : List α}
    (hround : ∀ x ∈ xs, ∀ s, I s → ∃ s', f s x = some s' ∧ I s') (hs : I s) :
    ∃ s', xs.foldlM f s = some s' ∧ I s' := by
  induction xs generalizing s with
  | nil => exact ⟨s, rfl, hs⟩
  | cons x xs ih =>
      obtain ⟨s₁, hfirst, hs₁⟩ := hround x List.mem_cons_self s hs
      obtain ⟨s', hrest, hs'⟩ := ih (fun y hy => hround y (List.mem_cons_of_mem x hy)) hs₁
      exact ⟨s', by rw [List.foldlM_cons, hfirst]; exact hrest, hs'⟩

/-- No way along parents leads from the window back to it. -/
def Rooted (ks : List Kin) (a : Address) : Prop := ¬TransGen (Kin.Up ks) a a

/-- A window is on a cycle only with its parent. -/
theorem Rooted.of_up {ks : List Kin} (h : Kin.Linked orphans ks) (hup : Kin.Up ks a p)
    (hp : Rooted ks p) : Rooted ks a := by
  intro hback
  obtain ⟨q, hq, hway⟩ := TransGen.head'_iff.mp hback
  cases h.up_unique hup hq
  exact hp (TransGen.tail' hway hup)

theorem Rooted.of_none {ks : List Kin} (hroot : ∀ p, ¬Kin.Up ks a p) : Rooted ks a := by
  intro hback
  obtain ⟨q, hq, -⟩ := TransGen.head'_iff.mp hback
  exact hroot q hq

/-- How many windows there are below a window, apart from cycles. -/
noncomputable def depth (ks : List Kin) (a : Address) : Nat :=
  Acyclic.rank (fun p c => Kin.Up ks c p ∧ Rooted ks c) (ks.map Kin.address).toFinset a

theorem depth_lt {ks : List Kin} (hup : Kin.Up ks a p) (ha : Rooted ks a) :
    depth ks a < depth ks p :=
  (Acyclic.restrict (Kin.Up ks)).swap.rank_lt ⟨hup, ha⟩ (List.mem_toFinset.mpr hup.mem)

theorem depth_lt_length {ks : List Kin} (ha : a ∈ ks.map Kin.address) : depth ks a < ks.length := by
  refine ((Acyclic.restrict (Kin.Up ks)).swap.rank_lt_card (List.mem_toFinset.mpr ha)).trans_le ?_
  exact (List.toFinset_card_le _).trans_eq (List.length_map _)

/-- `dwm_sync_child_positions` of a window that is on no cycle comes to windows without children,
and changes places only. -/
theorem exists_syncChildPositions {ks : List Kin} (hlinked : Kin.Linked [] ks)
    (hrooted : Rooted ks a) (hs : s.kin = ks) (ha : s.Live a) {fuel : Nat}
    (hfuel : depth ks a < fuel) : ∃ s', s.syncChildPositions fuel a = some s' ∧ s'.kin = ks := by
  induction fuel generalizing s a with
  | zero => exact absurd hfuel (Nat.not_lt_zero _)
  | succ fuel ih =>
      obtain ⟨w, hw⟩ := exists_window ha
      obtain ⟨hmem, rfl⟩ := window_some hw
      rw [syncChildPositions, hw, Option.bind_eq_bind, Option.bind_some]
      refine exists_foldlM (fun c hc s₁ hs₁ => ?_) hs
      have hdown : Kin.Down ks w.address c := ⟨w.kin, hs ▸ kin_mem hmem, rfl, hc⟩
      have hup := ((hlinked.links _ _).mp hdown).1
      have hlive : ∀ b ∈ ks.map Kin.address, s₁.Live b := fun b hb => by rwa [Live, hs₁]
      obtain ⟨p, hp⟩ := exists_window (hlive _ hdown.mem)
      obtain ⟨v, hv⟩ := exists_window (hlive _ hup.mem)
      simp only [hp, hv, Option.bind_some]
      have hchild : Rooted ks c := .of_up hlinked hup hrooted
      have hlt := depth_lt hup hchild
      refine ih hchild ?_ ?_ (by omega)
      · refine (kin_modifyWindow_same ?_).trans hs₁
        exact fun _ => rfl
      · refine (live_modifyWindow ?_).mpr (hlive c hup.mem)
        exact fun _ => rfl

/-! ## Destroying windows ends -/

/-- While windows are dying: their children are the orphans, and they are roots. -/
structure Dying (orphans : List Address) (dying : List WindowObject) (s : Desktop) : Prop where
  linked : Linked orphans s
  acyclic : Acyclic s.Up
  orphaned : ∀ a ∈ orphans, ∀ p, s.Up a p → p ∈ dying.map WindowObject.address
  roots : ∀ w ∈ dying, w.parent = none

namespace Dying

variable {dying : List WindowObject}

/-- Every window has a position. -/
theorem exists_position (h : Dying orphans dying s) (hw : w ∈ s.windows) :
    ∃ position, (s.holding dying).getAbsolutePosition w = some position := by
  have hups : ∀ a p, (s.holding dying).Up a p → s.Up a p := by
    rintro a p ⟨k, hk, haddress, hparent⟩
    simp only [kin, holding, List.map_append, List.mem_append] at hk
    rcases hk with hk | hk
    · obtain ⟨v, hv, rfl⟩ := List.mem_map.mp hk
      have := h.roots v hv
      rw [WindowObject.kin, this] at hparent
      cases hparent
    · exact ⟨k, hk, haddress, hparent⟩
  have hgrounded : (s.holding dying).Grounded := by
    refine ⟨h.acyclic.mono hups, fun a p hup => ?_⟩
    have hup := hups a p hup
    rw [live_iff]
    by_cases ha : a ∈ orphans
    · obtain ⟨v, hv, rfl⟩ := List.mem_map.mp (h.orphaned a ha p hup)
      exact ⟨v, List.mem_append_left _ hv, rfl⟩
    · obtain ⟨v, hv, rfl⟩ := live_iff.mp (Kin.Linked.parent_mem h.linked hup ha)
      exact ⟨v, List.mem_append_right _ hv, rfl⟩
  exact hgrounded.exists_getAbsolutePosition (List.mem_append_right _ hw)

/-- A window is taken out of the lists and dies, and its children are orphans. -/
theorem remove (h : Dying orphans dying s) (hw : w ∈ s.windows) (hout : w.address ∉ orphans)
    {w' : WindowObject} (hw' : (s.unlinkChild w).window w.address = some w') :
    Dying (w'.children ++ orphans) (w' :: dying) ((s.unlinkChild w).withoutWindow w') := by
  have hremoved := removed h.linked hw hout hw'
  have hprunes := prunes_remove h.linked hw hout hw'
  obtain ⟨hunlinked, hups⟩ := h.linked.unlinkChild hw hout
  obtain ⟨hmem, haddress⟩ := window_some hw'
  refine ⟨hremoved.linked, h.acyclic.mono fun _ _ => hprunes.up_mono, fun a ha p hup => ?_,
    fun v hv => ?_⟩
  · have hup := hprunes.up_mono hup
    rcases List.mem_append.mp ha with ha | ha
    · have hdown := (hremoved.children a ha).1
      have hup' := ((Kin.Linked.links h.linked _ _).mp hdown).1
      rw [Kin.Linked.up_unique h.linked hup hup', ← haddress]
      exact List.mem_cons_self
    · exact List.mem_cons_of_mem _ (h.orphaned a ha p hup)
  · rcases List.mem_cons.mp hv with rfl | hv
    · -- otherwise it would still have a parent
      by_contra hparent
      obtain ⟨p, hp⟩ := Option.ne_none_iff_exists'.mp hparent
      exact ((hups _ p).mp ((hunlinked.up_iff hmem).mpr hp)).1 haddress
    · exact h.roots v hv

/-- Other windows are dying as before when windows are gone. -/
theorem of_prunes {orphans' : List Address} (h : Dying orphans dying s) (hprunes : Prunes s s')
    (hlinked : Linked orphans' s') (hsub : orphans' ⊆ orphans) : Dying orphans' dying s' where
  linked := hlinked
  acyclic := h.acyclic.mono fun _ _ => hprunes.up_mono
  orphaned a ha p hup := h.orphaned a (hsub ha) p (hprunes.up_mono hup)
  roots := h.roots

end Dying

/-- `destroy` destroys any window of a small enough desktop. -/
def DestroysUpTo (length : Nat) (dying : List WindowObject)
    (destroy : Desktop → WindowHandle → Option Desktop) : Prop :=
  ∀ orphans s handle w, Dying orphans dying s → s.getWindowById handle = some w →
    w.address ∉ orphans → s.windows.length < length → ∃ s', destroy s handle = some s'

theorem exists_destroyChildren {length : Nat} {dying : List WindowObject}
    {destroy : Desktop → WindowHandle → Option Desktop} (hdestroy : DestroysAll destroy)
    (hends : DestroysUpTo length dying destroy) {children : List Address} {s : Desktop}
    (h : Dying (children ++ orphans) dying s) (hnodup : children.Nodup)
    (hout : ∀ c ∈ children, c ∉ orphans) (hlive : ∀ c ∈ children, s.Live c)
    (hlength : s.windows.length < length) :
    ∃ s', children.foldlM (destroyChild destroy) s = some s' ∧ Dying orphans dying s' := by
  induction children generalizing s with
  | nil => exact ⟨s, rfl, h⟩
  | cons c children ih =>
      obtain ⟨hnew, hnodup'⟩ := List.nodup_cons.mp hnodup
      have hout' : c ∉ children ++ orphans := by
        rw [List.mem_append, not_or]
        exact ⟨hnew, hout c List.mem_cons_self⟩
      obtain ⟨w, hw⟩ := exists_window (hlive c List.mem_cons_self)
      obtain ⟨hfreed, hup, -, -, w', hw', rfl⟩ := leave_child h.linked hw
      have hdying : Dying (children ++ orphans) dying
          (s.modifyWindow w'.address fun c => { c with parent := none }) :=
        ⟨hfreed, h.acyclic.mono fun a p hup' => ((hup a p).mp hup').2,
          fun a ha p hup' => h.orphaned a (List.mem_cons_of_mem _ ha) p ((hup a p).mp hup').2,
          h.roots⟩
      obtain ⟨s₁, hs₁⟩ := hends _ _ _ _ hdying hw' hout' (length_modifyWindow.trans_lt hlength)
      have hfirst : destroyChild destroy s w'.address = some s₁ := by
        simp only [destroyChild, hw, Option.bind_eq_bind, Option.bind_some, hs₁]
      have hspec := destroyChild_spec hdestroy h.linked hout' hfirst
      have hdying₁ := h.of_prunes hspec.prunes hspec.linked (List.subset_cons_self ..)
      have hlive₁ : ∀ c ∈ children, s₁.Live c := by
        intro c hc
        refine hspec.survive c (hlive c (List.mem_cons_of_mem _ hc))
          (not_below_orphan h.linked ?_ ?_)
        · exact List.mem_cons_of_mem _ (List.mem_append_left _ hc)
        · rintro rfl
          exact hnew hc
      obtain ⟨s', hrest, hs'⟩ := ih hdying₁ hnodup' (fun c hc => hout c (List.mem_cons_of_mem _ hc))
        hlive₁ (hspec.prunes.length.trans_lt hlength)
      exact ⟨s', by rw [List.foldlM_cons, hfirst]; exact hrest, hs'⟩

theorem length_withoutWindow (hw : w ∈ s.windows) :
    (s.withoutWindow w).windows.length < s.windows.length := by
  refine List.length_filter_lt_length_iff_exists.mpr ⟨w, hw, ?_⟩
  simp

/-- `dwm_destroy_window_internal` goes no deeper than there are windows. -/
theorem exists_destroyWindowInternal (fuel : Nat) (dying : List WindowObject) :
    DestroysUpTo fuel dying (destroyWindowInternal fuel dying) := by
  induction fuel generalizing dying with
  | zero =>
      intro orphans s handle w _ _ _ hlength
      exact absurd hlength (Nat.not_lt_zero _)
  | succ fuel ih =>
      intro orphans s handle w h hw hout hlength
      obtain ⟨hmem, -⟩ := getWindowById_some hw
      obtain ⟨position, hposition⟩ := h.exists_position hmem
      obtain ⟨w', hw'⟩ := exists_window (live_unlinkChild.mpr (live_of_mem hmem) :
        (s.unlinkChild w).Live w.address)
      have hremoved := removed h.linked hmem hout hw'
      have hshort : ((s.unlinkChild w).withoutWindow w').windows.length < fuel := by
        have hlt := length_withoutWindow (window_some hw').1
        rw [length_unlinkChild] at hlt
        omega
      obtain ⟨s', hfold, hs'⟩ :=
        exists_destroyChildren (destroyWindowInternal_spec fuel (w' :: dying))
        (ih (w' :: dying)) (h.remove hmem hout hw') hremoved.nodup
        (fun c hc => (hremoved.children c hc).2.2) (fun c hc => (hremoved.children c hc).2.1) hshort
      simp only [destroyWindowInternal, hw, hposition, hw', hfold, Option.bind_eq_bind,
        Option.bind_some]
      cases htail : s'.windows.getLast? with
      | none => exact ⟨s', rfl⟩
      | some tail =>
          obtain ⟨last, hlast⟩ := hs'.exists_position (List.mem_of_getLast? htail)
          exact ⟨s', Option.map_eq_some_iff.mpr ⟨last, hlast, rfl⟩⟩

theorem exists_destroyWindow (h : Linked [] s) (hacyclic : Acyclic s.Up) (handle : WindowHandle) :
    ∃ s', s.destroyWindow handle = some s' := by
  rw [destroyWindow]
  cases hw : s.getWindowById handle with
  | none => exact ⟨s, by rw [destroyWindowInternal, hw]⟩
  | some w =>
      have hdying : Dying [] [] s :=
        ⟨h, hacyclic, fun _ ha => absurd ha List.not_mem_nil,
          fun _ hw => absurd hw List.not_mem_nil⟩
      exact exists_destroyWindowInternal _ _ _ _ _ _ hdying hw List.not_mem_nil (Nat.lt_succ_self _)

/-! ## Runs -/

theorem windows_createContextMenu (x y : Int) (directive : UInt16) (itemCount : Int) :
    (s.createContextMenu x y directive itemCount).windows = s.windows := by
  rw [createContextMenu]
  split <;> rfl

theorem windows_summonContextMenu (handle : WindowHandle) (x y numberOfItems : UInt16) :
    (s.summonContextMenu handle x y numberOfItems).windows = s.windows := by
  rw [summonContextMenu]
  split
  · rfl
  · dsimp only
    split
    · rfl
    · exact windows_createContextMenu ..

theorem windows_perform {op : DesktopOp} (hop : op.Aside) (h : s.perform op = some s') :
    s'.windows = s.windows := by
  cases op with
  | createWindow | destroyWindow | setParent | setFocus => exact hop.elim
  | createIcon x y width height address =>
      cases address with
      | none =>
          cases h
          rfl
      | some address =>
          rw [perform, createIcon] at h
          split at h
          · cases h
          · cases h
            rfl
  | destroyIcon icon =>
      cases h
      rw [destroyIcon]
      split <;> rfl
  | summonContextMenu handle x y numberOfItems =>
      cases h
      exact windows_summonContextMenu handle x y numberOfItems
  | moveIcon | setIconBounds | renameBegin | renameText | renameEnd =>
      cases h
      rfl

/-- There is memory to put a child in the list of its parent. -/
def Granted (s : Desktop) : DesktopOp → Prop
  | .setParent child parent node => ∀ c p, s.getWindowById child = some c →
      s.getWindowById parent = some p → node = true
  | _ => True

/-- No window gets itself or a window below it as its parent, and it is put in its list. -/
def Orderly (s : Desktop) : DesktopOp → Prop
  | .setParent child parent node => ∀ c p, s.getWindowById child = some c →
      s.getWindowById parent = some p → node = true ∧ ¬s.Below c.address p.address
  | _ => True

theorem Orderly.granted {op : DesktopOp} (h : s.Orderly op) : s.Granted op := by
  cases op with
  | setParent child parent node => exact fun c p hc hp => (h c p hc hp).1
  | _ => trivial

/-- The windows below another are those whose parents lead up to it. -/
theorem Linked.below_iff (h : Linked [] s) : s.Below a b ↔ ReflTransGen s.Up b a := by
  have hswap : s.Down = Function.swap s.Up := by
    ext p a
    exact (Kin.Linked.links h p a).trans (and_iff_left List.not_mem_nil)
  rw [Below, hswap, reflTransGen_swap]

/-- Parents and children agree after every operation, and no cycle is closed by orderly ones. -/
theorem linked_perform {op : DesktopOp} (hs : Linked [] s) (hmemory : s.Granted op)
    (h : s.perform op = some s') :
    Linked [] s' ∧ (Acyclic s.Up → s.Orderly op → Acyclic s'.Up) := by
  have hsame : ∀ {s' : Desktop}, (∀ a p, s'.Up a p ↔ s.Up a p) → Acyclic s.Up →
    s.Orderly op → Acyclic s'.Up :=
    fun hups hacyclic _ => hacyclic.mono fun a p => (hups a p).mp
  cases op with
  | createWindow wclass style memory =>
      obtain ⟨hlinked, hups⟩ := linked_allocateWindow hs h
      exact ⟨hlinked, hsame hups⟩
  | destroyWindow handle =>
      rcases destroyWindow_spec hs h with ⟨-, rfl⟩ | ⟨w, -, hdestroys⟩
      · exact ⟨hs, fun hacyclic _ => hacyclic⟩
      · exact ⟨hdestroys.linked, fun hacyclic _ => hacyclic.mono fun _ _ =>
          hdestroys.prunes.up_mono⟩
  | setParent child parent node =>
      cases h
      cases hc : s.getWindowById child with
      | none =>
          rw [windowSetParent_none (.inl hc)]
          exact ⟨hs, fun hacyclic _ => hacyclic⟩
      | some c =>
          cases hp : s.getWindowById parent with
          | none =>
              rw [windowSetParent_none (.inr hp)]
              exact ⟨hs, fun hacyclic _ => hacyclic⟩
          | some p =>
              obtain ⟨hlinked, hups⟩ := windowSetParent_spec hs hc hp node
              rw [if_pos (hmemory c p hc hp)] at hlinked
              refine ⟨hlinked, fun hacyclic horderly => ?_⟩
              have hback : ¬ReflTransGen s.Up p.address c.address :=
                fun hway => (horderly c p hc hp).2 (hs.below_iff.mpr hway)
              refine hacyclic.insert hback fun a b hup => ?_
              rcases (hups a b).mp hup with hnew | ⟨-, hold⟩
              · exact .inr hnew
              · exact .inl hold
  | setFocus handle =>
      rw [perform, windowSetFocus] at h
      split at h
      · cases h
        exact ⟨hs, fun hacyclic _ => hacyclic⟩
      · split at h
        · cases h
          exact ⟨(linked_setFocus hs _).1, hsame (linked_setFocus hs _).2⟩
        · obtain ⟨w, -, rfl⟩ := Option.map_eq_some_iff.mp h
          exact ⟨(linked_setFocus hs w).1, hsame (linked_setFocus hs w).2⟩
  | createIcon | destroyIcon | moveIcon | setIconBounds | summonContextMenu
      | renameBegin | renameText
  | renameEnd =>
      have hkin : s'.kin = s.kin := congrArg (List.map _) (windows_perform (by exact trivial) h)
      rw [Linked, hkin]
      exact ⟨hs, hsame fun a p => by rw [Up, Up, hkin]⟩

/-- A parent below its child closes a cycle. -/
theorem cycle_of_below {child parent : WindowHandle} {c p : WindowObject} (hs : Linked [] s)
    (hc : s.getWindowById child = some c) (hp : s.getWindowById parent = some p)
    (hbelow : s.Below c.address p.address) (node : Bool) :
    ¬Acyclic (s.windowSetParent child parent node).Up := by
  obtain ⟨-, hups⟩ := windowSetParent_spec hs hc hp node
  intro hacyclic
  have hfirst : (s.windowSetParent child parent node).Up c.address p.address :=
    (hups _ _).mpr (.inl ⟨rfl, rfl⟩)
  -- up to the child, the way is the old one
  have hway : ReflTransGen (s.windowSetParent child parent node).Up p.address c.address := by
    have hold := hs.below_iff.mp hbelow
    generalize p.address = q at hold
    induction hold using ReflTransGen.head_induction_on with
    | refl => exact .refl
    | @head a b hup _ ih =>
        by_cases ha : a = c.address
        · rw [ha]
        · exact .head ((hups a b).mpr (.inr ⟨ha, hup⟩)) ih
  exact hacyclic c.address (TransGen.head' hfirst hway)

/-- The windows are a forest, in which every window is listed once by its parent and by no
other window. -/
structure Forest (s : Desktop) : Prop where
  acyclic : Acyclic s.Up
  listed : ∀ v ∈ s.windows, ∀ w ∈ s.windows,
    v.children.count w.address = if w.parent = some v.address then 1 else 0
  parents : ∀ w ∈ s.windows, ∀ p, w.parent = some p → s.Live p
  children : ∀ v ∈ s.windows, ∀ a ∈ v.children, s.Live a

/-- A child that was not put in the list of its parent is missing there. -/
theorem not_forest_of_append {child parent : WindowHandle} {c p : WindowObject} (hs : Linked [] s)
    (hc : s.getWindowById child = some c) (hp : s.getWindowById parent = some p) :
    ¬(s.windowSetParent child parent false).Forest := by
  obtain ⟨hlinked, hups⟩ := windowSetParent_spec hs hc hp false
  have hup := (hups c.address p.address).mpr (.inl ⟨rfl, rfl⟩)
  intro hforest
  obtain ⟨k, hk, haddress, hparent⟩ := hup
  obtain ⟨w, hw, rfl⟩ := List.mem_map.mp hk
  have hparent : w.parent = some p.address := hparent
  obtain ⟨v, hv⟩ := exists_window (hforest.parents w hw _ hparent)
  obtain ⟨hvmem, hvaddress⟩ := window_some hv
  have hcount := hforest.listed v hvmem w hw
  rw [hvaddress, if_pos hparent] at hcount
  have hchild : w.address ∈ v.children := List.count_pos_iff.mp (by omega)
  have hlink := ((Kin.Linked.links hlinked _ _).mp ((hlinked.down_iff hvmem).mpr hchild)).2
  exact hlink (List.mem_singleton.mpr haddress)

/-- Walks along parents and children end. -/
structure WalksEnd (s : Desktop) : Prop where
  position : ∀ w ∈ s.windows, (s.getAbsolutePosition w).isSome
  root : ∀ w ∈ s.windows, (s.rootOf (s.windows.length + 1) w).isSome
  sync : ∀ w ∈ s.windows, (s.syncChildPositions (s.windows.length + 1) w.address).isSome
  destroy : ∀ handle, (s.destroyWindow handle).isSome

theorem Linked.forest (h : Linked [] s) (hacyclic : Acyclic s.Up) : s.Forest where
  acyclic := hacyclic
  listed v hv w hw := by
    have hchild : w.address ∈ v.children ↔ w.parent = some v.address := by
      rw [← h.down_iff hv, ← h.up_iff hw]
      exact (Kin.Linked.links h _ _).trans (and_iff_left List.not_mem_nil)
    have honce : v.children.Nodup := Kin.Linked.once h v.kin (kin_mem hv)
    simp only [honce.count, hchild]
  parents w hw p hp := Kin.Linked.parent_mem h ((h.up_iff hw).mpr hp) List.not_mem_nil
  children v hv a ha := Kin.Linked.child_mem h ((h.down_iff hv).mpr ha)

theorem Linked.walksEnd (h : Linked [] s) (hacyclic : Acyclic s.Up) : s.WalksEnd where
  position w hw := Option.isSome_iff_exists.mpr
    ((h.grounded hacyclic).exists_getAbsolutePosition hw)
  root w hw := by
    have hlt := (h.grounded hacyclic).height_lt_length (live_of_mem hw)
    obtain ⟨root, hroot, -⟩ := (h.grounded hacyclic).exists_rootOf hw (Nat.lt_succ_of_lt hlt)
    exact Option.isSome_of_eq_some hroot
  sync w hw := by
    have hlt : depth s.kin w.address < s.windows.length := by
      have := depth_lt_length (live_of_mem hw)
      rwa [kin, List.length_map] at this
    obtain ⟨s', hs', -⟩ :=
      exists_syncChildPositions h (hacyclic w.address) rfl (live_of_mem hw) (Nat.lt_succ_of_lt hlt)
    exact Option.isSome_of_eq_some hs'
  destroy handle := Option.isSome_iff_exists.mpr (exists_destroyWindow h hacyclic handle)

/-- One operation after the other. -/
def obey (s : Desktop) (op : DesktopOp) : Option (Unit × Desktop) := (s.perform op).map ((), ·)

theorem linked_init (displayWidth displayHeight : Int) :
    Linked [] (init displayWidth displayHeight) ∧ Acyclic (init displayWidth displayHeight).Up := by
  have hnone : ∀ a p, ¬(init displayWidth displayHeight).Up a p := by
    rintro a p ⟨k, hk, -⟩
    cases hk
  refine ⟨⟨List.nodup_nil, List.nodup_nil, nofun, nofun, fun p a => ⟨?_, ?_⟩⟩, .of_empty hnone⟩
  · rintro ⟨k, hk, -⟩
    cases hk
  · exact fun h => absurd h.1 (hnone a p)

/-- A forest stays one as long as the operations are orderly, and no longer. -/
theorem forest_run {ops : List DesktopOp} (hs : Linked [] s) (hacyclic : Acyclic s.Up) :
    (∀ first rest, first ++ rest = ops → ∀ answers s', Trace.run obey s first = some (answers, s') →
      s'.Forest ∧ s'.WalksEnd) ↔ Trace.Permitted obey Orderly s ops := by
  constructor
  · intro hforest
    induction ops generalizing s with
    | nil => trivial
    | cons op ops ih =>
        have horderly : s.Orderly op := by
          cases op with
          | setParent child parent node =>
              intro c p hc hp
              have hrun : Trace.run obey s [.setParent child parent node] =
                  some ([()], s.windowSetParent child parent node) := rfl
              have hafter := (hforest [_] ops rfl _ _ hrun).1
              refine ⟨?_, fun hbelow => cycle_of_below hs hc hp hbelow node hafter.acyclic⟩
              cases node with
              | true => rfl
              | false => exact absurd hafter (not_forest_of_append hs hc hp)
          | _ => trivial
        refine ⟨horderly, fun answer s₁ hop => ?_⟩
        have hrun : Trace.run obey s [op] = some ([answer], s₁) :=
          Trace.run_cons.mpr ⟨answer, s₁, [], hop, rfl, rfl⟩
        obtain ⟨s₂, hperform, heq⟩ := Option.map_eq_some_iff.mp hop
        cases heq
        have hlinked := (linked_perform hs horderly.granted hperform).1
        refine ih hlinked (hforest [op] ops rfl _ _ hrun).1.acyclic ?_
        intro first rest hops answers s' hrest
        refine hforest (op :: first) rest (by rw [List.cons_append, hops]) (() :: answers) s' ?_
        exact Trace.run_cons.mpr ⟨(), s₁, answers, hop, hrest, rfl⟩
  · rintro hok first rest rfl answers s' hrun
    have hstep : ∀ s op answer s₁, Linked [] s ∧ Acyclic s.Up → s.Orderly op →
        obey s op = some (answer, s₁) → Linked [] s₁ ∧ Acyclic s₁.Up := by
      rintro s op answer s₁ ⟨hlinked, hacyclic⟩ hok hop
      obtain ⟨s₂, hperform, heq⟩ := Option.map_eq_some_iff.mp hop
      cases heq
      obtain ⟨hlinked', hkeeps⟩ := linked_perform hlinked hok.granted hperform
      exact ⟨hlinked', hkeeps hacyclic hok⟩
    have hinv : Linked [] s' ∧ Acyclic s'.Up :=
      Trace.run_preserves hstep ⟨hs, hacyclic⟩ hok.append.1 hrun
    exact ⟨hinv.1.forest hinv.2, hinv.1.walksEnd hinv.2⟩

end Desktop

/-- In every state of a run the windows are a forest whose walks end, if and only if no window
was ever given itself or a window below it as its parent, or a parent in whose list there was no
memory to put it. -/
theorem windows_forest_iff (displayWidth displayHeight : Int) (ops : List DesktopOp) :
    (∀ first rest, first ++ rest = ops → ∀ answers s,
      Trace.run Desktop.obey (.init displayWidth displayHeight) first = some (answers, s) →
        s.Forest ∧ s.WalksEnd) ↔
      Trace.Permitted Desktop.obey Desktop.Orderly (.init displayWidth displayHeight) ops :=
  Desktop.forest_run (Desktop.linked_init ..).1 (Desktop.linked_init ..).2

/-- A window becomes its own parent, and destroying it does not end. -/
theorem windows_not_forest : ∃ answers s,
    Trace.run Desktop.obey (.init 800 600) [.create 0, .setParent 1 1 true] = some (answers, s) ∧
      ¬s.Forest ∧ s.destroyWindow 1 = none := by
  have hrun : (Trace.run Desktop.obey (.init 800 600) [.create 0, .setParent 1 1 true]).map
      (fun r => (r.2.windows.map fun w => (w.address, w.parent), r.2.destroyWindow 1)) =
        some ([(0x1000, some 0x1000)], none) := by
    decide +kernel
  obtain ⟨⟨answers, s⟩, hrun, hsome⟩ := Option.map_eq_some_iff.mp hrun
  obtain ⟨hwindows, hdestroy⟩ := Prod.mk.inj hsome
  refine ⟨answers, s, hrun, fun hforest => ?_, hdestroy⟩
  have hmem : ((0x1000 : Address), some (0x1000 : Address)) ∈
      s.windows.map fun w => (w.address, w.parent) := by
    rw [hwindows]
    exact List.mem_singleton_self _
  obtain ⟨w, hw, heq⟩ := List.mem_map.mp hmem
  obtain ⟨haddress, hparent⟩ := Prod.mk.inj heq
  exact hforest.acyclic 0x1000 (.single ⟨w.kin, Desktop.kin_mem hw, haddress, hparent⟩)

end AvrKernel.Dwm

import AvrKernel.Dwm.Interactions
import AvrKernel.Dwm.Kin

/-!
# Destroying a family

`dwm_destroy_window` takes a window away with everything below it. The windows that are
left have the relatives they had.
-/

namespace AvrKernel.Dwm

open Relation

/-- A key that no two elements share finds the element. -/
theorem find?_key {α β : Type} [DecidableEq β] {key : α → β} {xs : List α} {x : α}
    (hnodup : (xs.map key).Nodup) (hx : x ∈ xs) : xs.find? (fun y => key y = key x) = some x := by
  have hsome : (xs.find? fun y => key y = key x).isSome := by
    rw [List.find?_isSome]
    exact ⟨x, hx, decide_eq_true rfl⟩
  obtain ⟨y, hy⟩ := Option.isSome_iff_exists.mp hsome
  have hkey : key y = key x := by simpa using List.find?_some hy
  rw [hy, List.inj_on_of_nodup_map hnodup (List.mem_of_find?_eq_some hy) hx hkey]

def WindowObject.kin (w : WindowObject) : Kin := ⟨w.address, w.id, w.parent, w.children⟩

namespace Desktop

def kin (s : Desktop) : List Kin := s.windows.map WindowObject.kin

/-- There is a window at the address. -/
def Live (s : Desktop) (a : Address) : Prop := a ∈ s.kin.map Kin.address

/-- Every window but the orphans is listed once by its parent, and by no other window. -/
def Linked (orphans : List Address) (s : Desktop) : Prop := Kin.Linked orphans s.kin

/-- `p` is the parent of `a`. -/
def Up (s : Desktop) (a p : Address) : Prop := Kin.Up s.kin a p

/-- `p` lists `a` as a child. -/
def Down (s : Desktop) (p a : Address) : Prop := Kin.Down s.kin p a

variable {s s' s'' : Desktop} {orphans : List Address} {a b c p : Address} {w w' : WindowObject}

theorem live_iff : s.Live a ↔ ∃ w ∈ s.windows, w.address = a := by
  simp only [Live, kin, List.map_map, List.mem_map, Function.comp_apply, WindowObject.kin]

theorem live_of_mem (hw : w ∈ s.windows) : s.Live w.address := live_iff.mpr ⟨w, hw, rfl⟩

theorem live_of_window (hw : s.window a = some w) : s.Live a :=
  live_iff.mpr ⟨w, window_some hw⟩

theorem exists_window (h : s.Live a) : ∃ w, s.window a = some w := by
  obtain ⟨w, hw, haddress⟩ := live_iff.mp h
  exact Option.isSome_iff_exists.mp (List.find?_isSome.mpr ⟨w, hw, by simpa using haddress⟩)

theorem kin_mem (hw : w ∈ s.windows) : w.kin ∈ s.kin := List.mem_map_of_mem hw

theorem getWindowById_some {handle : WindowHandle} (h : s.getWindowById handle = some w) :
    w ∈ s.windows ∧ w.id = handle := by
  rw [getWindowById] at h
  split at h
  · cases h
  · exact ⟨List.mem_of_find?_eq_some h, by simpa using List.find?_some h⟩

namespace Linked

/-- The window with the address is the one that is looked up. -/
theorem window_eq (h : Linked orphans s) (hw : w ∈ s.windows) : s.window w.address = some w := by
  have hnodup : (s.windows.map WindowObject.address).Nodup := by
    have := h.addresses
    rwa [kin, List.map_map] at this
  exact find?_key hnodup hw

theorem getWindowById_eq (h : Linked orphans s) (hw : w ∈ s.windows) :
    s.getWindowById w.id = some w := by
  have hnodup : (s.windows.map WindowObject.id).Nodup := by
    have := h.ids
    rwa [kin, List.map_map] at this
  have hne : w.id ≠ 0 := h.id_ne w.kin (kin_mem hw)
  rw [getWindowById, if_neg hne]
  exact find?_key hnodup hw

theorem up_iff (h : Linked orphans s) (hw : w ∈ s.windows) :
    s.Up w.address p ↔ w.parent = some p :=
  Kin.Linked.up_iff h (kin_mem hw)

theorem down_iff (h : Linked orphans s) (hw : w ∈ s.windows) :
    s.Down w.address a ↔ a ∈ w.children :=
  Kin.Linked.down_iff h (kin_mem hw)

end Linked

theorem Up.live (h : s.Up a p) : s.Live a := Kin.Up.mem h

theorem Down.live (h : s.Down p a) : s.Live p := Kin.Down.mem h

/-! ## Operations and kin -/

theorem kin_modifyWindow {f : WindowObject → WindowObject} {g : Kin → Kin}
    (hf : ∀ w, (f w).kin = g w.kin) : (s.modifyWindow a f).kin = Kin.modify a g s.kin := by
  simp only [kin, modifyWindow, Kin.modify, List.map_map]
  refine List.map_congr_left fun w _ => ?_
  simp only [Function.comp_apply, apply_ite WindowObject.kin, hf]
  rfl

/-- Places, sizes and buttons are no matter of kin. -/
theorem kin_modifyWindow_same {f : WindowObject → WindowObject} (hf : ∀ w, (f w).kin = w.kin) :
    (s.modifyWindow a f).kin = s.kin := by
  rw [kin_modifyWindow (g := fun k => k) hf, Kin.modify]
  simp only [ite_self, List.map_id']

theorem live_modifyWindow {f : WindowObject → WindowObject} (hf : ∀ w, (f w).address = w.address) :
    (s.modifyWindow a f).Live b ↔ s.Live b := by
  simp only [live_iff, modifyWindow, List.mem_map, exists_exists_and_eq_and,
    apply_ite WindowObject.address, hf, ite_self]

theorem kin_withoutWindow : (s.withoutWindow w).kin = Kin.without w.address s.kin := by
  simp only [kin, withoutWindow, Kin.without, List.filter_map]
  rfl

theorem live_withoutWindow : (s.withoutWindow w).Live a ↔ s.Live a ∧ a ≠ w.address := by
  rw [Live, kin_withoutWindow, Kin.mem_address_without]
  rfl

theorem live_unlinkChild : (s.unlinkChild w).Live a ↔ s.Live a := by
  rw [unlinkChild]
  split
  · rfl
  · refine (live_modifyWindow ?_).trans (live_modifyWindow ?_)
    · exact fun _ => rfl
    · exact fun _ => rfl

theorem length_modifyWindow {f : WindowObject → WindowObject} :
    (s.modifyWindow a f).windows.length = s.windows.length :=
  List.length_map ..

theorem length_unlinkChild : (s.unlinkChild w).windows.length = s.windows.length := by
  rw [unlinkChild]
  split
  · rfl
  · rw [length_modifyWindow, length_modifyWindow]

/-- The pointers to windows outside the lists of windows. -/
def pointers (s : Desktop) : (Option Address × Option Address) × UInt16 × Option Address :=
  ((s.dragdrop.draggedWindow, s.dragdrop.draggedResizing), s.menuDirective, s.menuHandle)

theorem pointers_unlinkChild : (s.unlinkChild w).pointers = s.pointers := by
  rw [unlinkChild]
  split <;> rfl

/-- A window without a parent is nobody's child. -/
theorem Linked.unlinkChild (h : Linked orphans s) (hw : w ∈ s.windows)
    (hout : w.address ∉ orphans) :
    Linked orphans (s.unlinkChild w) ∧
      ∀ a p, (s.unlinkChild w).Up a p ↔ a ≠ w.address ∧ s.Up a p := by
  cases hparent : w.parent with
  | none =>
      have hsame : s.unlinkChild w = s := by rw [Desktop.unlinkChild, hparent]
      rw [hsame]
      refine ⟨h, fun a p => ⟨fun hup => ⟨?_, hup⟩, And.right⟩⟩
      rintro rfl
      rw [h.up_iff hw, hparent] at hup
      cases hup
  | some parent =>
      have hkin : (s.unlinkChild w).kin = Kin.modify w.address Kin.leave
          (Kin.modify parent (Kin.disown w.address) s.kin) := by
        rw [Desktop.unlinkChild, hparent]
        dsimp only
        rw [kin_modifyWindow (g := Kin.leave), kin_modifyWindow (g := Kin.disown w.address)]
        · exact fun _ => rfl
        · exact fun _ => rfl
      have hup : s.Up w.address parent := (h.up_iff hw).mpr hparent
      refine ⟨?_, fun a p => ?_⟩
      · rw [Linked, hkin]
        exact (Kin.Linked.detach h hup hout).leave
      · rw [Up, hkin, Kin.up_leave, Kin.up_modify_children (Kin.mild_disown w.address) fun _ => rfl]
        rfl

/-! ## What is left -/

/-- Windows are gone. The others have the parents they had, and no drag or resizing goes on
with one that is gone. -/
structure Prunes (s s' : Desktop) : Prop where
  live : ∀ a, s'.Live a → s.Live a
  up : ∀ a p, s'.Live a → (s'.Up a p ↔ s.Up a p)
  dragged : ∀ a, s'.dragdrop.draggedWindow = some a →
    s.dragdrop.draggedWindow = some a ∧ (s.Live a → s'.Live a)
  resizing : ∀ a, s'.dragdrop.draggedResizing = some a →
    s.dragdrop.draggedResizing = some a ∧ (s.Live a → s'.Live a)
  menu : s'.menuDirective = s.menuDirective ∧ s'.menuHandle = s.menuHandle
  length : s'.windows.length ≤ s.windows.length

namespace Prunes

theorem refl (s : Desktop) : Prunes s s where
  live _ h := h
  up _ _ _ := Iff.rfl
  dragged _ h := ⟨h, fun hlive => hlive⟩
  resizing _ h := ⟨h, fun hlive => hlive⟩
  menu := ⟨rfl, rfl⟩
  length := Nat.le_refl _

theorem trans (h : Prunes s s') (h' : Prunes s' s'') : Prunes s s'' where
  live a hlive := h.live a (h'.live a hlive)
  up a p hlive := (h'.up a p hlive).trans (h.up a p (h'.live a hlive))
  dragged a hdragged := by
    obtain ⟨hdragged', hlive'⟩ := h'.dragged a hdragged
    obtain ⟨hdragged, hlive⟩ := h.dragged a hdragged'
    exact ⟨hdragged, fun ha => hlive' (hlive ha)⟩
  resizing a hresizing := by
    obtain ⟨hresizing', hlive'⟩ := h'.resizing a hresizing
    obtain ⟨hresizing, hlive⟩ := h.resizing a hresizing'
    exact ⟨hresizing, fun ha => hlive' (hlive ha)⟩
  menu := ⟨h'.menu.1.trans h.menu.1, h'.menu.2.trans h.menu.2⟩
  length := Nat.le_trans h'.length h.length

theorem up_mono (h : Prunes s s') (hup : s'.Up a p) : s.Up a p := (h.up a p hup.live).mp hup

/-- A window that is left is listed by nobody who did not list it. -/
theorem down_mono (h : Prunes s s') (hlinked : Linked orphans s) {orphans' : List Address}
    (hlinked' : Linked orphans' s') (hsub : orphans ⊆ orphans') (hdown : s'.Down p a) :
    s.Down p a := by
  obtain ⟨hup, hout⟩ := (Kin.Linked.links hlinked' p a).mp hdown
  exact (Kin.Linked.links hlinked p a).mpr ⟨h.up_mono hup, fun hmem => hout (hsub hmem)⟩

end Prunes

/-- The windows that can be reached from the window at `a` along lists of children. -/
def Below (s : Desktop) : Address → Address → Prop := ReflTransGen s.Down

theorem Below.mono (h : s.Below a b) (hsub : ∀ p a, s.Down p a → s'.Down p a) : s'.Below a b :=
  ReflTransGen.mono hsub a b h

/-- The window is gone, and the windows that are not below it are left. -/
structure Destroys (orphans : List Address) (a : Address) (s s' : Desktop) : Prop where
  linked : Linked orphans s'
  prunes : Prunes s s'
  dead : ¬s'.Live a
  survive : ∀ b, s.Live b → ¬s.Below a b → s'.Live b

/-- The windows below the one that is destroyed are gone as well. -/
theorem Destroys.dead_below (h : Destroys orphans a s s') (hlinked : Linked orphans s)
    (hbelow : s.Below a b) : ¬s'.Live b := by
  induction hbelow with
  | refl => exact h.dead
  | tail _ hdown ih =>
      intro hlive
      obtain ⟨hup, hout⟩ := (Kin.Linked.links hlinked _ _).mp hdown
      exact ih (Kin.Linked.parent_mem h.linked ((h.prunes.up _ _ hlive).mpr hup) hout)

/-- Before its children are destroyed, the window is taken out of the lists. -/
theorem prunes_remove (h : Linked orphans s) (hw : w ∈ s.windows) (hout : w.address ∉ orphans)
    (hw' : (s.unlinkChild w).window w.address = some w') :
    Prunes s ((s.unlinkChild w).withoutWindow w') := by
  obtain ⟨-, hups⟩ := h.unlinkChild hw hout
  obtain ⟨-, haddress⟩ := window_some hw'
  have hlive : ∀ a, ((s.unlinkChild w).withoutWindow w').Live a ↔ s.Live a ∧ a ≠ w.address := by
    intro a
    rw [live_withoutWindow, live_unlinkChild, haddress]
  have hpointers : (s.unlinkChild w).pointers = s.pointers := pointers_unlinkChild
  simp only [pointers, Prod.mk.injEq] at hpointers
  obtain ⟨⟨hdragged, hresizing⟩, hmenu⟩ := hpointers
  refine ⟨fun a ha => ((hlive a).mp ha).1, fun a p ha => ?_, fun a ha => ?_, fun a ha => ?_,
    hmenu, ?_⟩
  · have hne := ((hlive a).mp ha).2
    rw [Up, kin_withoutWindow, Kin.up_without, haddress]
    exact (and_iff_left hne).trans ((hups a p).trans (and_iff_right hne))
  · simp only [withoutWindow, hdragged, haddress] at ha
    split at ha
    · cases ha
    next hne =>
      refine ⟨ha, fun hlive' => (hlive a).mpr ⟨hlive', ?_⟩⟩
      rintro rfl
      exact hne ha
  · simp only [withoutWindow, hresizing, haddress] at ha
    split at ha
    · cases ha
    next hne =>
      refine ⟨ha, fun hlive' => (hlive a).mpr ⟨hlive', ?_⟩⟩
      rintro rfl
      exact hne ha
  · exact (List.length_filter_le ..).trans_eq length_unlinkChild

/-- What the removal leaves of the family. -/
structure Removed (orphans : List Address) (w w' : WindowObject) (s s' : Desktop) : Prop where
  linked : Linked (w'.children ++ orphans) s'
  nodup : w'.children.Nodup
  children : ∀ c ∈ w'.children, s.Down w.address c ∧ s'.Live c ∧ c ∉ orphans
  live : ∀ a, s'.Live a ↔ s.Live a ∧ a ≠ w.address

theorem removed (h : Linked orphans s) (hw : w ∈ s.windows) (hout : w.address ∉ orphans)
    (hw' : (s.unlinkChild w).window w.address = some w') :
    Removed orphans w w' s ((s.unlinkChild w).withoutWindow w') := by
  obtain ⟨hunlinked, hups⟩ := h.unlinkChild hw hout
  obtain ⟨hmem, haddress⟩ := window_some hw'
  have hlive : ∀ a, ((s.unlinkChild w).withoutWindow w').Live a ↔ s.Live a ∧ a ≠ w.address := by
    intro a
    rw [live_withoutWindow, live_unlinkChild, haddress]
  have hroot : ∀ p, ¬Kin.Down (s.unlinkChild w).kin p w'.kin.address := by
    intro p hdown
    have hup := ((Kin.Linked.links hunlinked p _).mp hdown).1
    exact ((hups _ p).mp hup).1 haddress
  refine ⟨?_, Kin.Linked.once hunlinked _ (kin_mem hmem), fun c hc => ?_, hlive⟩
  · rw [Linked, kin_withoutWindow]
    exact Kin.Linked.without hunlinked (kin_mem hmem) hroot
  · have hdown : (s.unlinkChild w).Down w.address c := haddress ▸ (hunlinked.down_iff hmem).mpr hc
    obtain ⟨hup, hout'⟩ := (Kin.Linked.links hunlinked _ _).mp hdown
    obtain ⟨hne, hup⟩ := (hups c w.address).mp hup
    exact ⟨(Kin.Linked.links h _ _).mpr ⟨hup, hout'⟩, (hlive c).mpr ⟨hup.live, hne⟩, hout'⟩

/-! ## Destroying the children -/

/-- A child that its parent has struck off its list is destroyed as a root. -/
theorem leave_child (h : Linked (c :: orphans) s) (hw : s.window c = some w) :
    let freed := s.modifyWindow c fun c => { c with parent := none }
    Linked orphans freed ∧ (∀ a p, freed.Up a p ↔ a ≠ c ∧ s.Up a p) ∧
      (∀ p a, freed.Down p a ↔ s.Down p a) ∧ (∀ a, freed.Live a ↔ s.Live a) ∧
      ∃ w', freed.getWindowById w.id = some w' ∧ w'.address = c := by
  intro freed
  have hkin : freed.kin = Kin.modify c Kin.leave s.kin := kin_modifyWindow fun _ => rfl
  have hlinked : Linked orphans freed := by
    rw [Linked, hkin]
    exact Kin.Linked.leave h
  obtain ⟨hmem, haddress⟩ := window_some hw
  refine ⟨hlinked, fun a p => ?_, fun p a => ?_, fun a => live_modifyWindow fun _ => rfl, ?_⟩
  · rw [Up, hkin, Kin.up_leave]
    rfl
  · rw [Down, hkin, Kin.down_modify_parent Kin.mild_leave fun _ => rfl]
    rfl
  · refine ⟨{ w with parent := none }, hlinked.getWindowById_eq (w := { w with parent := none }) ?_,
      haddress⟩
    exact List.mem_map.mpr ⟨w, hmem, if_pos haddress⟩

/-- `destroy` destroys windows that are no orphans. -/
def DestroysAll (destroy : Desktop → WindowHandle → Option Desktop) : Prop :=
  ∀ orphans s handle w s', Linked orphans s → s.getWindowById handle = some w →
    w.address ∉ orphans → destroy s handle = some s' → Destroys orphans w.address s s'

variable {destroy : Desktop → WindowHandle → Option Desktop}

theorem destroyChild_spec (hdestroy : DestroysAll destroy) (h : Linked (c :: orphans) s)
    (hout : c ∉ orphans) (hchild : destroyChild destroy s c = some s') :
    Destroys orphans c s s' := by
  simp only [destroyChild, Option.bind_eq_bind, Option.bind_eq_some_iff] at hchild
  obtain ⟨w, hw, hchild⟩ := hchild
  obtain ⟨hfreed, hup, hdown, hlive, w', hw', rfl⟩ := leave_child h hw
  have hdestroys := hdestroy _ _ _ _ _ hfreed hw' hout hchild
  have hbelow : ∀ b,
      (s.modifyWindow w'.address fun c => { c with parent := none }).Below w'.address b ↔
      s.Below w'.address b := by
    intro b
    constructor
    · exact fun hway => hway.mono fun p a => (hdown p a).mp
    · exact fun hway => hway.mono fun p a => (hdown p a).mpr
  refine ⟨hdestroys.linked,
    ⟨fun a ha => ?_, fun a p ha => ?_, fun a ha => ?_, fun a ha => ?_, ?_, ?_⟩,
    hdestroys.dead, fun b hb hnot => ?_⟩
  · exact (hlive a).mp (hdestroys.prunes.live a ha)
  · have hne : a ≠ w'.address := by
      rintro rfl
      exact hdestroys.dead ha
    exact (hdestroys.prunes.up a p ha).trans ((hup a p).trans (and_iff_right hne))
  · obtain ⟨hdragged, hleft⟩ := hdestroys.prunes.dragged a ha
    exact ⟨hdragged, fun hlive' => hleft ((hlive a).mpr hlive')⟩
  · obtain ⟨hresizing, hleft⟩ := hdestroys.prunes.resizing a ha
    exact ⟨hresizing, fun hlive' => hleft ((hlive a).mpr hlive')⟩
  · exact hdestroys.prunes.menu
  · exact hdestroys.prunes.length.trans_eq length_modifyWindow
  · exact hdestroys.survive b ((hlive b).mpr hb) fun hway => hnot ((hbelow b).mp hway)

/-- Nobody lists an orphan. -/
theorem not_below_orphan (h : Linked orphans s) (hb : b ∈ orphans) (hne : b ≠ a) :
    ¬s.Below a b := by
  intro hbelow
  rcases ReflTransGen.cases_tail hbelow with heq | ⟨p, -, hdown⟩
  · exact hne heq
  · exact ((Kin.Linked.links h p b).mp hdown).2 hb

/-- The children are destroyed one after the other. -/
theorem destroyChildren_spec (hdestroy : DestroysAll destroy) {children : List Address}
    {s s' : Desktop} (h : Linked (children ++ orphans) s) (hnodup : children.Nodup)
    (hout : ∀ c ∈ children, c ∉ orphans)
    (hfold : children.foldlM (destroyChild destroy) s = some s') :
    Linked orphans s' ∧ Prunes s s' ∧
      ∀ b, s.Live b → (∀ c ∈ children, ¬s.Below c b) → s'.Live b := by
  induction children generalizing s with
  | nil =>
      cases hfold
      exact ⟨h, .refl s', fun b hb _ => hb⟩
  | cons c children ih =>
      rw [List.foldlM_cons, Option.bind_eq_bind, Option.bind_eq_some_iff] at hfold
      obtain ⟨s₁, hfirst, hrest⟩ := hfold
      obtain ⟨hnew, hnodup⟩ := List.nodup_cons.mp hnodup
      have hout' : c ∉ children ++ orphans := by
        rw [List.mem_append, not_or]
        exact ⟨hnew, hout c List.mem_cons_self⟩
      have hdestroys := destroyChild_spec hdestroy h hout' hfirst
      obtain ⟨hlinked, hprunes, hleft⟩ := ih hdestroys.linked hnodup
        (fun c hc => hout c (List.mem_cons_of_mem _ hc)) hrest
      refine ⟨hlinked, hdestroys.prunes.trans hprunes, fun b hb hnot => ?_⟩
      have hb₁ := hdestroys.survive b hb (hnot c List.mem_cons_self)
      refine hleft b hb₁ fun c' hc' hbelow => hnot c' (List.mem_cons_of_mem _ hc') ?_
      -- what is listed after the first child is gone was listed before
      refine hbelow.mono fun p a hdown => ?_
      obtain ⟨hup, hout⟩ := (Kin.Linked.links hdestroys.linked p a).mp hdown
      refine (Kin.Linked.links h p a).mpr ⟨hdestroys.prunes.up_mono hup, fun hmem => ?_⟩
      rcases List.mem_cons.mp hmem with rfl | hmem
      · exact hdestroys.dead (Up.live hup)
      · exact hout hmem

/-- `dwm_destroy_window_internal` leaves the windows that are not below the one it destroys. -/
theorem destroyWindowInternal_spec (fuel : Nat) (dying : List WindowObject) :
    DestroysAll (destroyWindowInternal fuel dying) := by
  induction fuel generalizing dying with
  | zero =>
      intro orphans s handle w s' _ _ _ hdestroy
      cases hdestroy
  | succ fuel ih =>
      intro orphans s handle w s' h hw hout hdestroy
      rcases destroyWindowInternal_cases hdestroy with ⟨hnone, -⟩ | ⟨v, w', hv, hw', hfold⟩
      · rw [hw] at hnone
        cases hnone
      · rw [hw] at hv
        cases hv
        obtain ⟨hmem, -⟩ := getWindowById_some hw
        have hremoved := removed h hmem hout hw'
        have hprunes := prunes_remove h hmem hout hw'
        obtain ⟨hlinked, hprunes', hleft⟩ := destroyChildren_spec (ih (w' :: dying))
          hremoved.linked hremoved.nodup (fun c hc => (hremoved.children c hc).2.2) hfold
        refine ⟨hlinked, hprunes.trans hprunes', fun hlive => ?_, fun b hb hnot => ?_⟩
        · exact ((hremoved.live _).mp (hprunes'.live _ hlive)).2 rfl
        · refine hleft b ((hremoved.live b).mpr ⟨hb, ?_⟩) fun c hc hbelow => hnot ?_
          · rintro rfl
            exact hnot .refl
          · refine ReflTransGen.head (hremoved.children c hc).1 (hbelow.mono fun p a => ?_)
            exact hprunes.down_mono h hremoved.linked (List.subset_append_right ..)

theorem destroyWindow_spec {handle : WindowHandle} (h : Linked [] s)
    (hdestroy : s.destroyWindow handle = some s') :
    s.getWindowById handle = none ∧ s' = s ∨
      ∃ w, s.getWindowById handle = some w ∧ Destroys [] w.address s s' := by
  cases hw : s.getWindowById handle with
  | none =>
      rcases destroyWindowInternal_cases hdestroy with ⟨-, rfl⟩ | ⟨w, -, hw', -⟩
      · exact .inl ⟨rfl, rfl⟩
      · rw [hw] at hw'
        cases hw'
  | some w =>
      exact .inr ⟨w, rfl, destroyWindowInternal_spec _ _ _ _ _ _ _ h hw List.not_mem_nil hdestroy⟩

end Desktop

end AvrKernel.Dwm

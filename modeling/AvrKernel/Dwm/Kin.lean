import AvrKernel.Dwm.Desktop
import AvrKernel.Lib.Acyclic

/-!
# Families of windows

What ties windows to each other: a window knows its parent and lists its children.
While a window is destroyed its children are orphans, whose parents do not list them
any more.
-/

namespace AvrKernel.Dwm

/-- What the family knows of a window. -/
structure Kin where
  address : Address
  id : WindowHandle
  parent : Option Address
  children : List Address
  deriving DecidableEq

namespace Kin

variable {ks ks' : List Kin} {orphans : List Address} {a b c p q : Address}

/-- `p` is the parent of `a`. -/
def Up (ks : List Kin) (a p : Address) : Prop := ∃ k ∈ ks, k.address = a ∧ k.parent = some p

/-- `p` lists `a` as a child. -/
def Down (ks : List Kin) (p a : Address) : Prop := ∃ k ∈ ks, k.address = p ∧ a ∈ k.children

/-- Every window but the orphans is listed once by its parent, and by no other window. -/
structure Linked (orphans : List Address) (ks : List Kin) : Prop where
  addresses : (ks.map address).Nodup
  ids : (ks.map id).Nodup
  id_ne : ∀ k ∈ ks, k.id ≠ 0
  once : ∀ k ∈ ks, k.children.Nodup
  links : ∀ p a, Down ks p a ↔ Up ks a p ∧ a ∉ orphans

theorem Up.mem (h : Up ks a p) : a ∈ ks.map address := by
  obtain ⟨k, hk, rfl, -⟩ := h
  exact List.mem_map_of_mem hk

theorem Down.mem (h : Down ks p a) : p ∈ ks.map address := by
  obtain ⟨k, hk, rfl, -⟩ := h
  exact List.mem_map_of_mem hk

namespace Linked

theorem eq_of_address (h : Linked orphans ks) {k k' : Kin} (hk : k ∈ ks) (hk' : k' ∈ ks)
    (heq : k.address = k'.address) : k = k' :=
  List.inj_on_of_nodup_map h.addresses hk hk' heq

theorem up_iff (h : Linked orphans ks) {k : Kin} (hk : k ∈ ks) :
    Up ks k.address p ↔ k.parent = some p := by
  constructor
  · rintro ⟨k', hk', heq, hparent⟩
    rwa [h.eq_of_address hk hk' heq.symm]
  · exact fun hparent => ⟨k, hk, rfl, hparent⟩

theorem down_iff (h : Linked orphans ks) {k : Kin} (hk : k ∈ ks) :
    Down ks k.address a ↔ a ∈ k.children := by
  constructor
  · rintro ⟨k', hk', heq, hmem⟩
    rwa [h.eq_of_address hk hk' heq.symm]
  · exact fun hmem => ⟨k, hk, rfl, hmem⟩

theorem up_unique (h : Linked orphans ks) (hp : Up ks a p) (hq : Up ks a q) : p = q := by
  obtain ⟨k, hk, rfl, hparent⟩ := hp
  rw [h.up_iff hk, hparent] at hq
  exact Option.some_inj.mp hq

/-- The parent of a window that is no orphan is there. -/
theorem parent_mem (h : Linked orphans ks) (hup : Up ks a p) (hout : a ∉ orphans) :
    p ∈ ks.map address :=
  ((h.links p a).mpr ⟨hup, hout⟩).mem

theorem child_mem (h : Linked orphans ks) (hdown : Down ks p a) : a ∈ ks.map address :=
  ((h.links p a).mp hdown).1.mem

end Linked

/-! ## Rearranging -/

theorem up_perm (hperm : ks'.Perm ks) : Up ks' a p ↔ Up ks a p := by
  simp only [Up, hperm.mem_iff]

theorem down_perm (hperm : ks'.Perm ks) : Down ks' p a ↔ Down ks p a := by
  simp only [Down, hperm.mem_iff]

theorem Linked.perm (h : Linked orphans ks) (hperm : ks'.Perm ks) : Linked orphans ks' where
  addresses := (hperm.map address).nodup_iff.mpr h.addresses
  ids := (hperm.map id).nodup_iff.mpr h.ids
  id_ne k hk := h.id_ne k (hperm.mem_iff.mp hk)
  once k hk := h.once k (hperm.mem_iff.mp hk)
  links p a := by rw [up_perm hperm, down_perm hperm, h.links]

/-! ## Changing one window -/

def modify (a : Address) (f : Kin → Kin) (ks : List Kin) : List Kin :=
  ks.map fun k => if k.address = a then f k else k

theorem mem_modify {f : Kin → Kin} {k' : Kin} :
    k' ∈ modify a f ks ↔ ∃ k ∈ ks, (if k.address = a then f k else k) = k' :=
  List.mem_map

/-- A change that leaves addresses and ids. -/
structure Mild (f : Kin → Kin) : Prop where
  address : ∀ k, (f k).address = k.address
  id : ∀ k, (f k).id = k.id

theorem map_modify {α : Type} {f : Kin → Kin} {g : Kin → α} (hf : ∀ k, g (f k) = g k) :
    (modify a f ks).map g = ks.map g := by
  rw [modify, List.map_map]
  refine List.map_congr_left fun k _ => ?_
  rw [Function.comp_apply]
  split
  · exact hf k
  · rfl

theorem up_modify {f : Kin → Kin} (hf : Mild f) :
    Up (modify a f ks) b p ↔ ∃ k ∈ ks, k.address = b ∧
      (if b = a then (f k).parent else k.parent) = some p := by
  constructor
  · rintro ⟨_, hk', haddress, hparent⟩
    obtain ⟨k, hk, rfl⟩ := mem_modify.mp hk'
    split at haddress
    next heq =>
      rw [if_pos heq] at hparent
      rw [hf.address] at haddress
      exact ⟨k, hk, haddress, by rwa [if_pos (haddress.symm.trans heq)]⟩
    next hne =>
      rw [if_neg hne] at hparent
      exact ⟨k, hk, haddress, by rwa [if_neg (haddress ▸ hne)]⟩
  · rintro ⟨k, hk, rfl, hparent⟩
    refine ⟨_, mem_modify.mpr ⟨k, hk, rfl⟩, ?_, ?_⟩
    · split
      · exact hf.address k
      · rfl
    · split
      next heq => rwa [if_pos heq] at hparent
      next hne => rwa [if_neg hne] at hparent

theorem down_modify {f : Kin → Kin} (hf : Mild f) :
    Down (modify a f ks) p b ↔ ∃ k ∈ ks, k.address = p ∧
      b ∈ if p = a then (f k).children else k.children := by
  constructor
  · rintro ⟨_, hk', haddress, hmem⟩
    obtain ⟨k, hk, rfl⟩ := mem_modify.mp hk'
    split at haddress
    next heq =>
      rw [if_pos heq] at hmem
      rw [hf.address] at haddress
      exact ⟨k, hk, haddress, by rwa [if_pos (haddress.symm.trans heq)]⟩
    next hne =>
      rw [if_neg hne] at hmem
      exact ⟨k, hk, haddress, by rwa [if_neg (haddress ▸ hne)]⟩
  · rintro ⟨k, hk, rfl, hmem⟩
    refine ⟨_, mem_modify.mpr ⟨k, hk, rfl⟩, ?_, ?_⟩
    · split
      · exact hf.address k
      · rfl
    · split
      next heq => rwa [if_pos heq] at hmem
      next hne => rwa [if_neg hne] at hmem

/-- A change of one window that leaves it and its children apart keeps the rest. -/
theorem Linked.modify {f : Kin → Kin} (h : Linked orphans ks) (hf : Mild f)
    (honce : ∀ k ∈ ks, k.address = a → (f k).children.Nodup) {orphans' : List Address}
    (hlinks : ∀ p b, Down (Kin.modify a f ks) p b ↔ Up (Kin.modify a f ks) b p ∧ b ∉ orphans') :
    Linked orphans' (Kin.modify a f ks) where
  addresses := by
    rw [map_modify hf.address]
    exact h.addresses
  ids := by
    rw [map_modify hf.id]
    exact h.ids
  id_ne k' hk' := by
    obtain ⟨k, hk, rfl⟩ := mem_modify.mp hk'
    split
    · rw [hf.id]
      exact h.id_ne k hk
    · exact h.id_ne k hk
  once k' hk' := by
    obtain ⟨k, hk, rfl⟩ := mem_modify.mp hk'
    split
    next heq => exact honce k hk heq
    next => exact h.once k hk
  links := hlinks

theorem up_modify_children {f : Kin → Kin} (hf : Mild f) (hparent : ∀ k, (f k).parent = k.parent) :
    Up (modify a f ks) b p ↔ Up ks b p := by
  rw [up_modify hf]
  simp only [hparent, ite_self]
  rfl

theorem down_modify_parent {f : Kin → Kin} (hf : Mild f)
    (hchildren : ∀ k, (f k).children = k.children) :
    Down (modify a f ks) p b ↔ Down ks p b := by
  rw [down_modify hf]
  simp only [hchildren, ite_self]
  rfl

/-- Changes of different fields can be made in either order. -/
theorem modify_comm {f g : Kin → Kin} (hf : Mild f) (hg : Mild g) (hcomm : ∀ k, f (g k) = g (f k)) :
    modify a f (modify b g ks) = modify b g (modify a f ks) := by
  have haddress : ∀ {c : Address} {h : Kin → Kin}, Mild h → ∀ k : Kin,
      (if k.address = c then h k else k).address = k.address := by
    intro c h hh k
    split
    · exact hh.address k
    · rfl
  simp only [modify, List.map_map]
  refine List.map_congr_left fun k _ => ?_
  simp only [Function.comp_apply, haddress hf, haddress hg]
  split <;> split
  · exact hcomm k
  all_goals rfl

/-! ## Leaving a parent and getting one -/

def disown (a : Address) (k : Kin) : Kin := { k with children := k.children.erase a }

def adopt (a : Address) (k : Kin) : Kin := { k with children := k.children ++ [a] }

def leave (k : Kin) : Kin := { k with parent := none }

def moveTo (p : Address) (k : Kin) : Kin := { k with parent := some p }

theorem mild_disown (a : Address) : Mild (disown a) := ⟨fun _ => rfl, fun _ => rfl⟩

theorem mild_adopt (a : Address) : Mild (adopt a) := ⟨fun _ => rfl, fun _ => rfl⟩

theorem mild_leave : Mild leave := ⟨fun _ => rfl, fun _ => rfl⟩

theorem mild_moveTo (p : Address) : Mild (moveTo p) := ⟨fun _ => rfl, fun _ => rfl⟩

theorem up_leave : Up (modify a leave ks) b p ↔ b ≠ a ∧ Up ks b p := by
  rw [up_modify mild_leave]
  by_cases hb : b = a
  · simp [hb, leave]
  · simp [hb, Up]

theorem up_moveTo (ha : a ∈ ks.map address) :
    Up (modify a (moveTo p) ks) b q ↔ b = a ∧ q = p ∨ b ≠ a ∧ Up ks b q := by
  rw [up_modify (mild_moveTo p)]
  by_cases hb : b = a
  · obtain ⟨k, hk, haddress⟩ := List.mem_map.mp ha
    simp only [hb, moveTo, if_true, true_and, ne_eq, not_true_eq_false, false_and, or_false]
    constructor
    · rintro ⟨-, -, -, hq⟩
      exact (Option.some_inj.mp hq).symm
    · rintro rfl
      exact ⟨k, hk, haddress, rfl⟩
  · simp [hb, Up]

namespace Linked

/-- A parent strikes a child off its list. -/
theorem detach (h : Linked orphans ks) (hup : Up ks a p) (hout : a ∉ orphans) :
    Linked (a :: orphans) (Kin.modify p (disown a) ks) := by
  refine h.modify (mild_disown a) (fun k hk _ => (h.once k hk).erase a) fun q b => ?_
  rw [up_modify_children (mild_disown a) fun _ => rfl, down_modify (mild_disown a),
    List.mem_cons, not_or]
  constructor
  · rintro ⟨k, hk, rfl, hmem⟩
    -- nobody else lists the child
    have hdown : Down ks k.address b := by
      refine ⟨k, hk, rfl, ?_⟩
      split at hmem
      · exact List.mem_of_mem_erase hmem
      · exact hmem
    obtain ⟨hup', hout'⟩ := (h.links _ b).mp hdown
    refine ⟨hup', ?_, hout'⟩
    rintro rfl
    rw [if_pos (h.up_unique hup' hup), disown, (h.once k hk).mem_erase_iff] at hmem
    exact hmem.1 rfl
  · rintro ⟨hup', hne, hout'⟩
    obtain ⟨k, hk, rfl, hmem⟩ := (h.links q b).mpr ⟨hup', hout'⟩
    refine ⟨k, hk, rfl, ?_⟩
    split
    · exact (h.once k hk).mem_erase_iff.mpr ⟨hne, hmem⟩
    · exact hmem

/-- An orphan without a parent is a root. -/
theorem leave (h : Linked (a :: orphans) ks) : Linked orphans (Kin.modify a Kin.leave ks) := by
  refine h.modify mild_leave (fun k hk _ => h.once k hk) fun q b => ?_
  rw [up_leave, down_modify_parent mild_leave fun _ => rfl, h.links, List.mem_cons, not_or]
  constructor
  · rintro ⟨hup, hne, hout⟩
    exact ⟨⟨hne, hup⟩, hout⟩
  · rintro ⟨⟨hne, hup⟩, hout⟩
    exact ⟨hup, hne, hout⟩

/-- A root may count as an orphan. -/
theorem orphan (h : Linked orphans ks) (hroot : ∀ p, ¬Up ks a p) : Linked (a :: orphans) ks where
  addresses := h.addresses
  ids := h.ids
  id_ne := h.id_ne
  once := h.once
  links p b := by
    rw [h.links, List.mem_cons, not_or]
    constructor
    · rintro ⟨hup, hout⟩
      refine ⟨hup, ?_, hout⟩
      rintro rfl
      exact hroot p hup
    · rintro ⟨hup, -, hout⟩
      exact ⟨hup, hout⟩

/-- An orphan may get any parent. -/
theorem moveTo (h : Linked (a :: orphans) ks) (ha : a ∈ ks.map address) (p : Address) :
    Linked (a :: orphans) (Kin.modify a (Kin.moveTo p) ks) := by
  refine h.modify (mild_moveTo p) (fun k hk _ => h.once k hk) fun q b => ?_
  rw [up_moveTo ha, down_modify_parent (mild_moveTo p) fun _ => rfl, h.links, List.mem_cons, not_or]
  constructor
  · rintro ⟨hup, hne, hout⟩
    exact ⟨.inr ⟨hne, hup⟩, hne, hout⟩
  · rintro ⟨⟨heq, -⟩ | ⟨-, hup⟩, hne, hout⟩
    · exact absurd heq hne
    · exact ⟨hup, hne, hout⟩

/-- The parent of an orphan puts it on its list. -/
theorem adopt (h : Linked (a :: orphans) ks) (hup : Up ks a p) (hout : a ∉ orphans)
    (hp : p ∈ ks.map address) : Linked orphans (Kin.modify p (Kin.adopt a) ks) := by
  have hnew : ∀ q, ¬Down ks q a := fun q hdown =>
    ((h.links q a).mp hdown).2 List.mem_cons_self
  refine h.modify (mild_adopt a) (fun k hk _ => ?_) fun q b => ?_
  · refine List.nodup_append.mpr ⟨h.once k hk, List.nodup_singleton a, ?_⟩
    rintro x hx y hy rfl
    rw [List.mem_singleton.mp hy] at hx
    exact hnew k.address ⟨k, hk, rfl, hx⟩
  · rw [up_modify_children (mild_adopt a) fun _ => rfl, down_modify (mild_adopt a)]
    constructor
    · rintro ⟨k, hk, rfl, hmem⟩
      have hor : Down ks k.address b ∨ k.address = p ∧ b = a := by
        split at hmem
        next heq =>
          rcases List.mem_append.mp hmem with hmem | hmem
          · exact .inl ⟨k, hk, rfl, hmem⟩
          · exact .inr ⟨heq, List.mem_singleton.mp hmem⟩
        · exact .inl ⟨k, hk, rfl, hmem⟩
      rcases hor with hdown | ⟨heq, rfl⟩
      · obtain ⟨hup', hout'⟩ := (h.links _ b).mp hdown
        exact ⟨hup', fun hmem => hout' (List.mem_cons_of_mem a hmem)⟩
      · exact ⟨heq ▸ hup, hout⟩
    · rintro ⟨hup', hout'⟩
      by_cases hb : b = a
      · obtain ⟨k, hk, heq⟩ := List.mem_map.mp hp
        have hq : q = p := h.up_unique (hb ▸ hup') hup
        refine ⟨k, hk, heq.trans hq.symm, ?_⟩
        rw [if_pos hq, hb]
        exact List.mem_append_right _ (List.mem_singleton_self a)
      · obtain ⟨k, hk, rfl, hmem⟩ := (h.links q b).mpr ⟨hup', by simp [hb, hout']⟩
        refine ⟨k, hk, rfl, ?_⟩
        split
        · exact List.mem_append_left _ hmem
        · exact hmem

end Linked

/-! ## Windows that come and go -/

def without (a : Address) (ks : List Kin) : List Kin := ks.filter (·.address ≠ a)

theorem mem_without {k : Kin} : k ∈ without a ks ↔ k ∈ ks ∧ k.address ≠ a := by
  rw [without, List.mem_filter, decide_eq_true_eq]

theorem up_without : Up (without a ks) b p ↔ Up ks b p ∧ b ≠ a := by
  simp only [Up, mem_without]
  constructor
  · rintro ⟨k, ⟨hk, hne⟩, rfl, hparent⟩
    exact ⟨⟨k, hk, rfl, hparent⟩, hne⟩
  · rintro ⟨⟨k, hk, rfl, hparent⟩, hne⟩
    exact ⟨k, ⟨hk, hne⟩, rfl, hparent⟩

theorem down_without : Down (without a ks) p b ↔ Down ks p b ∧ p ≠ a := by
  simp only [Down, mem_without]
  constructor
  · rintro ⟨k, ⟨hk, hne⟩, rfl, hmem⟩
    exact ⟨⟨k, hk, rfl, hmem⟩, hne⟩
  · rintro ⟨⟨k, hk, rfl, hmem⟩, hne⟩
    exact ⟨k, ⟨hk, hne⟩, rfl, hmem⟩

theorem mem_address_without : b ∈ (without a ks).map address ↔ b ∈ ks.map address ∧ b ≠ a := by
  simp only [List.mem_map, mem_without]
  constructor
  · rintro ⟨k, ⟨hk, hne⟩, rfl⟩
    exact ⟨⟨k, hk, rfl⟩, hne⟩
  · rintro ⟨⟨k, hk, rfl⟩, hne⟩
    exact ⟨k, ⟨hk, hne⟩, rfl⟩

/-- The children of a window that nobody lists are orphans when it is gone. -/
theorem Linked.without (h : Linked orphans ks) {k : Kin} (hk : k ∈ ks)
    (hroot : ∀ p, ¬Down ks p k.address) :
    Linked (k.children ++ orphans) (Kin.without k.address ks) where
  addresses := h.addresses.sublist (List.filter_sublist.map address)
  ids := h.ids.sublist (List.filter_sublist.map id)
  id_ne k' hk' := h.id_ne k' (mem_without.mp hk').1
  once k' hk' := h.once k' (mem_without.mp hk').1
  links p b := by
    rw [up_without, down_without, List.mem_append, not_or]
    constructor
    · rintro ⟨hdown, hne⟩
      obtain ⟨hup, hout⟩ := (h.links p b).mp hdown
      refine ⟨⟨hup, ?_⟩, fun hchild => ?_, hout⟩
      · rintro rfl
        exact hroot p hdown
      · have hup' := ((h.links k.address b).mp ((h.down_iff hk).mpr hchild)).1
        exact hne (h.up_unique hup hup')
    · rintro ⟨⟨hup, -⟩, hchild, hout⟩
      have hdown := (h.links p b).mpr ⟨hup, hout⟩
      refine ⟨hdown, ?_⟩
      rintro rfl
      exact hchild ((h.down_iff hk).mp hdown)

/-- A new window has no relatives. -/
theorem up_fresh {k : Kin} (hparent : k.parent = none) : Up (ks ++ [k]) a p ↔ Up ks a p := by
  simp only [Up, List.mem_append, List.mem_singleton, or_and_right, exists_or, exists_eq_left,
    hparent, reduceCtorEq, and_false, or_false]

theorem down_fresh {k : Kin} (hchildren : k.children = []) :
    Down (ks ++ [k]) p a ↔ Down ks p a := by
  simp only [Down, List.mem_append, List.mem_singleton, or_and_right, exists_or, exists_eq_left,
    hchildren, List.not_mem_nil, and_false, or_false]

theorem Linked.fresh (h : Linked orphans ks) {k : Kin} (haddress : k.address ∉ ks.map address)
    (hid : k.id ∉ ks.map Kin.id) (hid_ne : k.id ≠ 0) (hparent : k.parent = none)
    (hchildren : k.children = []) : Linked orphans (ks ++ [k]) where
  addresses := by
    rw [List.map_append, List.map_singleton, ← List.concat_eq_append]
    exact h.addresses.concat haddress
  ids := by
    rw [List.map_append, List.map_singleton, ← List.concat_eq_append]
    exact h.ids.concat hid
  id_ne k' hk' := by
    rcases List.mem_append.mp hk' with hk' | hk'
    · exact h.id_ne k' hk'
    · exact List.mem_singleton.mp hk' ▸ hid_ne
  once k' hk' := by
    rcases List.mem_append.mp hk' with hk' | hk'
    · exact h.once k' hk'
    · rw [List.mem_singleton.mp hk', hchildren]
      exact List.nodup_nil
  links p b := by rw [up_fresh hparent, down_fresh hchildren, h.links]

end Kin

end AvrKernel.Dwm

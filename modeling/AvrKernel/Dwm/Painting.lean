import AvrKernel.Dwm.Steps

/-!
# Painting and clicking

`dwm_draw_desktop` paints the families of ordinary windows and then those of the windows on
top, each window before its children. `dwm_find_clicked_window` walks the list of all windows
and lists of children backwards, with a rectangle of its own.
-/

namespace AvrKernel.Dwm

open Relation

/-- The rectangle that the window is painted in, with its border. -/
def WindowObject.Covers (w : WindowObject) (p : Point) : Prop :=
  let border : Int := w.borderWidth.toNat
  w.x.toNat - border ≤ p.x ∧ p.x < w.x.toNat + w.w.toNat + border ∧
    w.y.toNat - border ≤ p.y ∧ p.y < w.y.toNat + w.h.toNat + border

instance (w : WindowObject) (p : Point) : Decidable (w.Covers p) :=
  inferInstanceAs (Decidable (_ ∧ _))

namespace Desktop

variable (s : Desktop)

/-- `dwm_render_window_recursive`: the windows in the order in which they are painted. -/
def renderWindowRecursive : Nat → Address → Option (List WindowObject)
  | 0, _ => none
  | fuel + 1, a => do
      let w ← s.window a
      let children ← w.children.mapM (renderWindowRecursive fuel)
      return w :: children.flatten

/-- The windows that are painted with their children, the ordinary ones or those on top. -/
def roots (topmost : Bool) : List WindowObject :=
  s.windows.filter fun w => decide (w.style &&& dwmWstyleTopmost ≠ 0) = topmost ∧
    w.parent = none ∧ w.style &&& dwmWstyleChild = 0

/-- `dwm_draw_desktop`: the desktop with the positions of children up to date, and its windows
in the order in which they are painted. -/
def drawDesktop : Option (Desktop × List WindowObject) := do
  let s ← s.windows.foldlM (fun s w =>
    if w.parent = none then s.syncChildPositions (s.windows.length + 1) w.address else some s) s
  let families ← (s.roots false ++ s.roots true).mapM fun w =>
    s.renderWindowRecursive (s.windows.length + 1) w.address
  return (s, families.flatten)

end Desktop

/-- What happens to the desktop, and that it is drawn. -/
inductive ScreenOp
  | dwm (op : DwmOp)
  | draw

def Desktop.screenStep (s : Desktop) : ScreenOp → Option (Unit × Desktop)
  | .dwm op => (s.step op).map fun r => ((), r.2)
  | .draw => s.drawDesktop.map fun r => ((), r.1)

/-- With memory for the lists of children. -/
def ScreenOp.Granted : ScreenOp → Prop
  | dwm op => op.Granted
  | draw => True

/-- The window that is painted last at the pixel. -/
def paintedLast (painted : List WindowObject) (p : Point) : Option WindowObject :=
  painted.findRev? (·.Covers p)

namespace Desktop

variable {s s' : Desktop} {p : Point} {a b c : Address} {w v t : WindowObject}

/-! ## The desktop is drawn -/

theorem exists_mapM {α β : Type} {f : α → Option β} {xs : List α}
    (h : ∀ x ∈ xs, ∃ y, f x = some y) :
    ∃ ys, xs.mapM f = some ys := by
  induction xs with
  | nil => exact ⟨_, List.mapM_nil⟩
  | cons x xs ih =>
      obtain ⟨first, hfirst⟩ := h x List.mem_cons_self
      obtain ⟨rest, hrest⟩ := ih fun x' hx' => h x' (List.mem_cons_of_mem x hx')
      rw [List.mapM_cons, hfirst, hrest]
      exact ⟨first :: rest, rfl⟩

theorem exists_render (hs : Linked [] s) (hrooted : Rooted s.kin a) (ha : s.Live a) {fuel : Nat}
    (hfuel : depth s.kin a < fuel) : ∃ painted, s.renderWindowRecursive fuel a = some painted := by
  induction fuel generalizing a with
  | zero => exact absurd hfuel (Nat.not_lt_zero _)
  | succ fuel ih =>
      obtain ⟨w, hw⟩ := exists_window ha
      obtain ⟨hmem, rfl⟩ := window_some hw
      have hchildren : ∀ c ∈ w.children, ∃ painted, s.renderWindowRecursive fuel c =
        some painted := by
        intro c hc
        have hup := ((Kin.Linked.links hs _ _).mp ((hs.down_iff hmem).mpr hc)).1
        have hchild : Rooted s.kin c := .of_up hs hup hrooted
        have hlt := depth_lt hup hchild
        exact ih hchild (Up.live hup) (by omega)
      obtain ⟨painted, hpainted⟩ := exists_mapM hchildren
      exact ⟨w :: painted.flatten, by simp [renderWindowRecursive, hw, hpainted]⟩

theorem rooted_of_root (hs : Linked [] s) (hw : w ∈ s.windows) (hroot : w.parent = none) :
    Rooted s.kin w.address := by
  refine .of_none fun p hup => ?_
  rw [(hs.up_iff hw).mp hup] at hroot
  cases hroot

theorem exists_drawDesktop (hs : Linked [] s) :
    ∃ s' painted, s.drawDesktop = some (s', painted) ∧ s'.kin = s.kin := by
  have hround : ∀ w ∈ s.windows, ∀ s₁ : Desktop, s₁.kin = s.kin → ∃ s₂,
      (if w.parent = none then s₁.syncChildPositions (s₁.windows.length + 1) w.address
        else some s₁) = some s₂ ∧ s₂.kin = s.kin := by
    intro w hw s₁ hs₁
    split
    next hroot =>
      have hlive : s₁.Live w.address := by
        rw [Live, hs₁]
        exact live_of_mem hw
      refine exists_syncChildPositions hs (rooted_of_root hs hw hroot) hs₁ hlive ?_
      have hlt : depth s.kin w.address < s.kin.length := depth_lt_length (live_of_mem hw)
      rw [← hs₁, kin, List.length_map] at hlt
      rw [← hs₁]
      exact Nat.lt_succ_of_lt hlt
    · exact ⟨s₁, rfl, hs₁⟩
  obtain ⟨s', hsync, hs'⟩ := exists_foldlM hround rfl
  have hlinked : Linked [] s' := by rwa [Linked, hs']
  have hfamilies : ∀ w ∈ s'.roots false ++ s'.roots true, ∃ painted,
      s'.renderWindowRecursive (s'.windows.length + 1) w.address = some painted := by
    intro w hw
    have hroot : w ∈ s'.windows ∧ w.parent = none := by
      rcases List.mem_append.mp hw with hw | hw <;>
        exact ⟨(List.mem_filter.mp hw).1, (of_decide_eq_true (List.mem_filter.mp hw).2).2.1⟩
    refine exists_render hlinked (rooted_of_root hlinked hroot.1 hroot.2) (live_of_mem hroot.1) ?_
    have hlt : depth s'.kin w.address < s'.kin.length := depth_lt_length (live_of_mem hroot.1)
    rw [kin, List.length_map] at hlt
    exact Nat.lt_succ_of_lt hlt
  obtain ⟨painted, hpainted⟩ := exists_mapM hfamilies
  refine ⟨s', painted.flatten, ?_, hs'⟩
  simp only [drawDesktop, hsync, hpainted, Option.bind_eq_bind, Option.bind_some]
  rfl

/-! ## What a click finds -/

/-- The pixel is in the window or on its border, around its absolute position. -/
def Hit (s : Desktop) (p : Point) (w : WindowObject) : Prop :=
  ∃ position, s.getAbsolutePosition w = some position ∧
    inside p (position.x - w.borderWidth.toNat) (position.x + w.w.toNat + w.borderWidth.toNat)
      (position.y - w.borderWidth.toNat) (position.y + w.h.toNat + w.borderWidth.toNat)

/-- The pixel is outside the window at the address. -/
def Missed (s : Desktop) (p : Point) (a : Address) : Prop :=
  ∃ w position, s.window a = some w ∧ s.getAbsolutePosition w = some position ∧
    ¬inside p (position.x - w.borderWidth.toNat) (position.x + w.w.toNat + w.borderWidth.toNat)
      (position.y - w.borderWidth.toNat) (position.y + w.h.toNat + w.borderWidth.toNat)

/-- The window is the last one of the level that is hit. -/
def LastHit (s : Desktop) (p : Point) (level : List Address) (w : WindowObject) : Prop :=
  ∃ below a above, level = below ++ a :: above ∧ s.window a = some w ∧ s.Hit p w ∧
    ∀ b ∈ above, s.Missed p b

/-- No child of the window is hit, and the click comes to it: from the last window of the whole list
that is hit, it goes to the last child that is hit, and so on. -/
def ComesTo (s : Desktop) (p : Point) (level : List Address) (t : WindowObject) : Prop :=
  ∃ top, s.LastHit p level top ∧ ReflTransGen (fun w c => s.LastHit p w.children c) top t ∧
    ∀ c ∈ t.children, s.Missed p c

/-- Whether the pixel is in the window, if it has a position. -/
def hits (s : Desktop) (p : Point) (w : WindowObject) : Option Bool :=
  (s.getAbsolutePosition w).map fun position =>
    inside p (position.x - w.borderWidth.toNat) (position.x + w.w.toNat + w.borderWidth.toNat)
      (position.y - w.borderWidth.toNat) (position.y + w.h.toNat + w.borderWidth.toNat)

theorem hit_of_hits {s : Desktop} {p : Point} {w : WindowObject} (h : s.hits p w = some true) :
    s.Hit p w := by
  obtain ⟨position, hposition, hin⟩ := Option.map_eq_some_iff.mp h
  exact ⟨position, hposition, of_decide_eq_true hin⟩

theorem missed_of_hits {s : Desktop} {p : Point} {w : WindowObject}
    (hw : s.window w.address = some w)
    (h : s.hits p w = some false) : s.Missed p w.address := by
  obtain ⟨position, hposition, hout⟩ := Option.map_eq_some_iff.mp h
  exact ⟨w, position, hw, hposition, of_decide_eq_false hout⟩

theorem windowAt_of_missed {rest : List Address} (h : s.Missed p a) :
    s.windowAt p (a :: rest) = s.windowAt p rest := by
  obtain ⟨w, position, hw, hposition, hout⟩ := h
  simp only [windowAt, hw, hposition, Option.bind_eq_bind, Option.bind_some, if_neg hout]

theorem windowAt_of_hit {rest : List Address} (hw : s.window a = some w) (h : s.Hit p w) :
    s.windowAt p (a :: rest) = some (some w) := by
  obtain ⟨position, hposition, hin⟩ := h
  simp only [windowAt, hw, hposition, Option.bind_eq_bind, Option.bind_some, if_pos hin]
  rfl

theorem windowAt_cases {rest : List Address} {found : Option WindowObject}
    (h : s.windowAt p (a :: rest) = some found) :
    (∃ w, s.window a = some w ∧ s.Hit p w ∧ found = some w) ∨
      s.Missed p a ∧ s.windowAt p rest = some found := by
  simp only [windowAt, Option.bind_eq_bind, Option.bind_eq_some_iff] at h
  obtain ⟨w, hw, position, hposition, h⟩ := h
  split at h
  next hin =>
    cases h
    exact .inl ⟨w, hw, ⟨position, hposition, hin⟩, rfl⟩
  next hout => exact .inr ⟨⟨w, position, hw, hposition, hout⟩, h⟩

theorem windowAt_none_iff {level : List Address} :
    s.windowAt p level = some none ↔ ∀ a ∈ level, s.Missed p a := by
  induction level with
  | nil => exact ⟨fun _ _ ha => absurd ha List.not_mem_nil, fun _ => rfl⟩
  | cons a rest ih =>
      constructor
      · intro h
        rcases windowAt_cases h with ⟨w, -, -, hfound⟩ | ⟨hmissed, hrest⟩
        · cases hfound
        · exact List.forall_mem_cons.mpr ⟨hmissed, ih.mp hrest⟩
      · intro h
        obtain ⟨hmissed, hrest⟩ := List.forall_mem_cons.mp h
        rw [windowAt_of_missed hmissed]
        exact ih.mpr hrest

theorem windowAt_first {level : List Address} :
    s.windowAt p level = some (some w) ↔ ∃ before a after, level = before ++ a :: after ∧
      s.window a = some w ∧ s.Hit p w ∧ ∀ b ∈ before, s.Missed p b := by
  induction level with
  | nil => simp [windowAt]
  | cons a rest ih =>
      constructor
      · intro h
        rcases windowAt_cases h with ⟨v, hv, hhit, hfound⟩ | ⟨hmissed, hrest⟩
        · cases hfound
          exact ⟨[], a, rest, rfl, hv, hhit, fun _ hb => absurd hb List.not_mem_nil⟩
        · obtain ⟨before, b, after, rfl, hw, hhit, hbefore⟩ := ih.mp hrest
          exact ⟨a :: before, b, after, rfl, hw, hhit, List.forall_mem_cons.mpr ⟨hmissed, hbefore⟩⟩
      · rintro ⟨before, b, after, hlevel, hw, hhit, hbefore⟩
        cases before with
        | nil =>
            cases hlevel
            exact windowAt_of_hit hw hhit
        | cons c before =>
            cases hlevel
            obtain ⟨hmissed, hbefore⟩ := List.forall_mem_cons.mp hbefore
            rw [windowAt_of_missed hmissed]
            exact ih.mpr ⟨before, b, after, rfl, hw, hhit, hbefore⟩

/-- Levels are walked from their end. -/
theorem windowAt_some_iff {level : List Address} :
    s.windowAt p level.reverse = some (some w) ↔ s.LastHit p level w := by
  rw [windowAt_first]
  constructor
  · rintro ⟨before, a, after, hlevel, hw, hhit, hbefore⟩
    refine ⟨after.reverse, a, before.reverse, ?_, hw, hhit,
      fun b hb => hbefore b (List.mem_reverse.mp hb)⟩
    rw [← List.reverse_reverse level, hlevel]
    simp
  · rintro ⟨below, a, above, rfl, hw, hhit, habove⟩
    refine ⟨above.reverse, a, below.reverse, by simp, hw, hhit, fun b hb => ?_⟩
    exact habove b (List.mem_reverse.mp hb)

theorem LastHit.window {level : List Address} (h : s.LastHit p level w) :
    w.address ∈ level ∧ s.window w.address = some w ∧ s.Hit p w := by
  obtain ⟨below, a, above, rfl, hw, hhit, -⟩ := h
  obtain ⟨-, rfl⟩ := window_some hw
  exact ⟨List.mem_append_right _ List.mem_cons_self, hw, hhit⟩

/-- What `dwm_find_clicked_window` returns is where the click comes to. -/
theorem findClickedWindow_sound {fuel : Nat} {level : List Address} {found : Option WindowObject}
    (h : s.findClickedWindow p fuel level = some found) :
    found = none ∧ (∀ a ∈ level, s.Missed p a) ∨ ∃ t, found = some t ∧ s.ComesTo p level t := by
  induction fuel generalizing level found with
  | zero => cases h
  | succ fuel ih =>
      rw [findClickedWindow, Option.bind_eq_bind, Option.bind_eq_some_iff] at h
      obtain ⟨first, hfirst, h⟩ := h
      cases first with
      | none =>
          cases h
          rw [windowAt_none_iff] at hfirst
          exact .inl ⟨rfl, fun a ha => hfirst a (List.mem_reverse.mpr ha)⟩
      | some w =>
          have hlast := windowAt_some_iff.mp hfirst
          dsimp only at h
          split at h
          next hempty =>
            cases h
            rw [List.isEmpty_iff] at hempty
            refine .inr ⟨w, rfl, w, hlast, .refl, fun c hc => ?_⟩
            rw [hempty] at hc
            exact absurd hc List.not_mem_nil
          · obtain ⟨inner, hinner, h⟩ := Option.bind_eq_some_iff.mp h
            cases h
            rcases ih hinner with ⟨rfl, hmissed⟩ | ⟨t, rfl, c, hc, hway, hchildren⟩
            · exact .inr ⟨w, rfl, w, hlast, .refl, hmissed⟩
            · exact .inr ⟨t, rfl, w, hlast, .head hc hway, hchildren⟩

/-- A window whose position is known is on no cycle. -/
theorem rooted_of_surfaceSum (hs : Linked [] s) {fuel : Nat} {sum : Point}
    (h : surfaceSum s.window fuel (some a) = some sum) : Rooted s.kin a := by
  induction fuel generalizing a sum with
  | zero => cases h
  | succ fuel ih =>
      simp only [surfaceSum, Option.bind_eq_bind, Option.bind_eq_some_iff] at h
      obtain ⟨w, hw, above, habove, -⟩ := h
      obtain ⟨hmem, rfl⟩ := window_some hw
      cases hparent : w.parent with
      | none => exact rooted_of_root hs hmem hparent
      | some parent =>
          rw [hparent] at habove
          exact .of_up hs ((hs.up_iff hmem).mpr hparent) (ih habove)

theorem Hit.rooted (hs : Linked [] s) (hw : w ∈ s.windows) (h : s.Hit p w) :
    Rooted s.kin w.address := by
  obtain ⟨position, hposition, -⟩ := h
  rw [getAbsolutePosition, absolutePosition] at hposition
  split at hposition
  next hparent => exact rooted_of_root hs hw hparent
  next parent hparent =>
    obtain ⟨sum, hsum, -⟩ := Option.map_eq_some_iff.mp hposition
    exact .of_up hs ((hs.up_iff hw).mpr hparent) (rooted_of_surfaceSum hs hsum)

theorem findClickedWindow_none {level : List Address} {fuel : Nat} (h : ∀ a ∈ level, s.Missed p a) :
    s.findClickedWindow p (fuel + 1) level = some none := by
  have hfirst : s.windowAt p level.reverse = some none :=
    windowAt_none_iff.mpr fun a ha => h a (List.mem_reverse.mp ha)
  rw [findClickedWindow, hfirst]
  rfl

/-- The children of a window that is hit are not as deep. -/
theorem depth_child (hs : Linked [] s) (hw : w ∈ s.windows) (hhit : s.Hit p w)
    (hc : c ∈ w.children) :
    depth s.kin c < depth s.kin w.address := by
  have hup := ((Kin.Linked.links hs _ _).mp ((hs.down_iff hw).mpr hc)).1
  exact depth_lt hup (.of_up hs hup (hhit.rooted hs hw))

/-- The click gets to the window before the walk is over. -/
theorem findClickedWindow_complete (hs : Linked [] s) {top : WindowObject}
    (hway : ReflTransGen (fun w c => s.LastHit p w.children c) top t)
    (hchildren : ∀ c ∈ t.children, s.Missed p c) {level : List Address} {fuel : Nat}
    (htop : s.LastHit p level top) (hfuel : depth s.kin top.address < fuel) :
    s.findClickedWindow p fuel level = some (some t) := by
  induction hway using ReflTransGen.head_induction_on generalizing level fuel with
  | refl =>
      obtain ⟨fuel, rfl⟩ := Nat.exists_eq_add_of_lt hfuel
      obtain ⟨-, hwindow, hhit⟩ := htop.window
      rw [findClickedWindow, windowAt_some_iff.mpr htop, Option.bind_eq_bind, Option.bind_some]
      dsimp only
      split
      · rfl
      next hempty =>
        obtain ⟨c, hc⟩ := List.exists_mem_of_ne_nil _ (mt List.isEmpty_iff.mpr hempty)
        have hlt := depth_child hs (window_some hwindow).1 hhit hc
        obtain ⟨rest, hrest⟩ := Nat.exists_eq_add_of_lt (Nat.zero_lt_of_lt hlt)
        rw [hrest, Nat.zero_add, Nat.add_right_comm, findClickedWindow_none hchildren]
        rfl
  | @head w c hlast _ ih =>
      obtain ⟨fuel, rfl⟩ := Nat.exists_eq_add_of_lt hfuel
      obtain ⟨-, hwindow, hhit⟩ := htop.window
      obtain ⟨hmem, -, -⟩ := hlast.window
      have hlt := depth_child hs (window_some hwindow).1 hhit hmem
      rw [findClickedWindow, windowAt_some_iff.mpr htop, Option.bind_eq_bind, Option.bind_some]
      dsimp only
      rw [if_neg (fun hempty => ?_), ih hlast (by omega)]
      · rfl
      · rw [List.isEmpty_iff] at hempty
        rw [hempty] at hmem
        exact absurd hmem List.not_mem_nil

/-! ## What is painted where a click goes -/

theorem mem_of_mapM {α β : Type} {f : α → Option β} {xs : List α} {ys : List β} {x : α}
    (h : xs.mapM f = some ys) (hx : x ∈ xs) : ∃ y ∈ ys, f x = some y := by
  induction xs generalizing ys with
  | nil => exact absurd hx List.not_mem_nil
  | cons x' xs ih =>
      simp only [List.mapM_cons, Option.bind_eq_bind, Option.bind_eq_some_iff, Option.pure_def,
        Option.some.injEq] at h
      obtain ⟨y, hy, ys, hys, rfl⟩ := h
      rcases List.mem_cons.mp hx with rfl | hx
      · exact ⟨y, List.mem_cons_self, hy⟩
      · obtain ⟨y', hy', hxy⟩ := ih hys hx
        exact ⟨y', List.mem_cons_of_mem y hy', hxy⟩

/-- One of the families has the element, and those after it follow. -/
theorem split_of_mapM {α β : Type} {f : α → Option (List β)} {xs : List α} {yss : List (List β)}
    {before after : List β} {t : β} (h : xs.mapM f = some yss)
    (hsplit : yss.flatten = before ++ t :: after) :
    ∃ below x above first last, xs = below ++ x :: above ∧ f x = some (first ++ t :: last) ∧
      last ⊆ after ∧ ∀ x' ∈ above, ∃ ys, f x' = some ys ∧ ys ⊆ after := by
  induction xs generalizing yss before with
  | nil =>
      cases Option.some.inj h
      simp at hsplit
  | cons x xs ih =>
      simp only [List.mapM_cons, Option.bind_eq_bind, Option.bind_eq_some_iff, Option.pure_def,
        Option.some.injEq] at h
      obtain ⟨ys, hys, yss, hyss, rfl⟩ := h
      rw [List.flatten_cons, List.append_eq_append_iff] at hsplit
      rcases hsplit with ⟨middle, rfl, hrest⟩ | ⟨middle, rfl, hrest⟩
      · -- it is in a family after the first
        obtain ⟨below, x', above, first, last, rfl, hx', hlast, habove⟩ := ih hyss hrest
        exact ⟨x :: below, x', above, first, last, rfl, hx', hlast, habove⟩
      · cases middle with
        | nil =>
            have hrest' : yss.flatten = [] ++ t :: after := by simpa using hrest.symm
            obtain ⟨below, x', above, first, last, rfl, hx', hlast, habove⟩ := ih hyss hrest'
            exact ⟨x :: below, x', above, first, last, rfl, hx', hlast, habove⟩
        | cons t' middle =>
            rw [List.cons_append] at hrest
            obtain ⟨rfl, rfl⟩ := List.cons.inj hrest
            refine ⟨[], x, xs, before, middle, rfl, hys, fun y hy => List.mem_append_left _ hy, ?_⟩
            intro x' hx'
            obtain ⟨ys', hmem, hys'⟩ := mem_of_mapM hyss hx'
            exact ⟨ys', hys', fun y hy => List.mem_append_right _ (List.mem_flatten_of_mem hmem hy)⟩

/-- From the window at the address down to `t`, the windows above in the lists of children are
painted after it, and so are its own children. -/
inductive PaintedDown (s : Desktop) (after : List WindowObject) (t : WindowObject) : Address → Prop
  | here {a : Address} : s.window a = some t →
      (∀ c ∈ t.children, ∃ v ∈ after, s.window c = some v) → PaintedDown s after t a
  | down {a c : Address} {w : WindowObject} {below above : List Address} : s.window a = some w →
      w.children = below ++ c :: above → (∀ d ∈ above, ∃ v ∈ after, s.window d = some v) →
        PaintedDown s after t c → PaintedDown s after t a

theorem PaintedDown.mono {after after' : List WindowObject} (h : s.PaintedDown after t a)
    (hsub : after ⊆ after') : s.PaintedDown after' t a := by
  have hmem : ∀ d, (∃ v ∈ after, s.window d = some v) → ∃ v ∈ after', s.window d = some v :=
    fun d ⟨v, hv, hd⟩ => ⟨v, hsub hv, hd⟩
  induction h with
  | here ht hchildren => exact .here ht fun c hc => hmem c (hchildren c hc)
  | down hw hsplit habove _ ih => exact .down hw hsplit (fun d hd => hmem d (habove d hd)) ih

/-- A family begins with its own window. -/
theorem render_head {fuel : Nat} {painted : List WindowObject}
    (h : s.renderWindowRecursive fuel a = some painted) : ∃ v ∈ painted, s.window a = some v := by
  cases fuel with
  | zero => cases h
  | succ fuel =>
      simp only [renderWindowRecursive, Option.bind_eq_bind,
        Option.bind_eq_some_iff, Option.pure_def,
        Option.some.injEq] at h
      obtain ⟨w, hw, families, -, rfl⟩ := h
      exact ⟨w, List.mem_cons_self, hw⟩

theorem paintedDown_of_render {fuel : Nat} {before after : List WindowObject}
    (h : s.renderWindowRecursive fuel a = some (before ++ t :: after)) :
      s.PaintedDown after t a := by
  induction fuel generalizing a before after with
  | zero => cases h
  | succ fuel ih =>
      simp only [renderWindowRecursive, Option.bind_eq_bind,
        Option.bind_eq_some_iff, Option.pure_def,
        Option.some.injEq] at h
      obtain ⟨w, hw, families, hfamilies, hsplit⟩ := h
      cases before with
      | nil =>
          obtain ⟨rfl, rfl⟩ := List.cons.inj hsplit
          refine .here hw fun c hc => ?_
          obtain ⟨family, hfamily, hrender⟩ := mem_of_mapM hfamilies hc
          obtain ⟨v, hv, hwindow⟩ := render_head hrender
          exact ⟨v, List.mem_flatten_of_mem hfamily hv, hwindow⟩
      | cons first before =>
          have hsplit := (List.cons.inj hsplit).2
          obtain ⟨below, c, above, first, last, hchildren, hrender, hlast, habove⟩ :=
            split_of_mapM hfamilies hsplit
          refine .down hw hchildren (fun d hd => ?_) ((ih hrender).mono hlast)
          obtain ⟨family, hfamily, hsub⟩ := habove d hd
          obtain ⟨v, hv, hwindow⟩ := render_head hfamily
          exact ⟨v, hsub hv, hwindow⟩

/-- What is painted belongs to the family of a window without a parent. -/
theorem exists_paintedDown {painted before after : List WindowObject}
    (hdraw : s.drawDesktop = some (s', painted)) (hsplit : painted = before ++ t :: after) :
    ∃ root ∈ s'.windows, root.parent = none ∧ s'.PaintedDown after t root.address := by
  simp only [drawDesktop, Option.bind_eq_bind, Option.bind_eq_some_iff, Option.pure_def,
    Option.some.injEq, Prod.mk.injEq] at hdraw
  obtain ⟨s₁, -, families, hfamilies, rfl, rfl⟩ := hdraw
  obtain ⟨below, root, above, first, last, hroots, hrender, hlast, -⟩ :=
    split_of_mapM hfamilies hsplit
  have hmem : root ∈ s₁.roots false ++ s₁.roots true := by
    rw [hroots]
    exact List.mem_append_right _ List.mem_cons_self
  have hroot : root ∈ s₁.windows ∧ root.parent = none := by
    rcases List.mem_append.mp hmem with hmem | hmem <;>
      exact ⟨(List.mem_filter.mp hmem).1, (of_decide_eq_true (List.mem_filter.mp hmem).2).2.1⟩
  exact ⟨root, hroot.1, hroot.2, (paintedDown_of_render hrender).mono hlast⟩

/-- Of the other windows those that are hit are listed before it or one above it. -/
def NoneInFront (s : Desktop) (p : Point) (t : WindowObject) : Prop :=
  ∀ a ∈ s.windows.map (·.address), ¬s.Below a t.address → s.Missed p a ∨
    ∃ b, s.Below b t.address ∧ [a, b].Sublist (s.windows.map (·.address))

/-- Nothing comes between the window that is painted last at the pixel and a click there. The
windows from it up to its root are hit, what is painted after it is not, and none is in front of
it. -/
structure Unobstructed (s : Desktop) (p : Point) (painted : List WindowObject) (t : WindowObject) :
    Prop where
  line : ∀ w ∈ s.windows, s.Below w.address t.address → s.Hit p w
  covered : ∀ before after, painted = before ++ t :: after → (∀ w ∈ after, ¬w.Covers p) →
    ∀ w ∈ after, s.Missed p w.address
  listed : s.NoneInFront p t

/-- Painting and clicking agree on the pixel: nothing comes between, or there is nothing. -/
def Agrees (s : Desktop) (p : Point) (painted : List WindowObject) : Prop :=
  match paintedLast painted p with
  | none => ∀ w ∈ s.windows, s.Missed p w.address
  | some t => s.Unobstructed p painted t

/-- What a click finds is hit, and none is in front of it. -/
def Foremost (s : Desktop) (p : Point) : Option WindowObject → Prop
  | none => ∀ w ∈ s.windows, s.Missed p w.address
  | some t => s.Hit p t ∧ s.NoneInFront p t

/-- On the way down from the root every window is the last one hit. -/
structure Reached (s : Desktop) (p : Point) (t : WindowObject) (a : Address) : Prop where
  below : s.Below a t.address
  window : s.window t.address = some t
  children : ∀ c ∈ t.children, s.Missed p c
  way : ∀ w, s.window a = some w → ReflTransGen (fun w c => s.LastHit p w.children c) w t
  line : ∀ e, s.window e.address = some e → s.Below e.address t.address →
    s.Below e.address a ∨ ReflTransGen (fun w c => s.LastHit p w.children c) e t

theorem PaintedDown.reached {after : List WindowObject} (hs : Linked [] s)
    (h : s.PaintedDown after t a) (hline : ∀ w ∈ s.windows, s.Below w.address t.address → s.Hit p w)
    (hafter : ∀ w ∈ after, s.Missed p w.address) : s.Reached p t a := by
  have hmissed : ∀ d, (∃ v ∈ after, s.window d = some v) → s.Missed p d := by
    rintro d ⟨v, hv, hd⟩
    rw [← (window_some hd).2]
    exact hafter v hv
  induction h with
  | here ht hchildren =>
      obtain ⟨-, rfl⟩ := window_some ht
      refine ⟨.refl, ht, fun c hc => hmissed c (hchildren c hc), fun w hw => ?_,
        fun e _ hbelow => .inl hbelow⟩
      rw [Option.some.inj (hw.symm.trans ht)]
  | @down a c w below above hw hsplit habove _ ih =>
      obtain ⟨hmem, rfl⟩ := window_some hw
      have hdown : s.Down w.address c := (hs.down_iff hmem).mpr (by simp [hsplit])
      have hup : s.Up c w.address := ((Kin.Linked.links hs _ _).mp hdown).1
      obtain ⟨v, hv⟩ := exists_window (Up.live hup)
      have hchild : ReflTransGen (fun w c => s.LastHit p w.children c) w t := by
        obtain ⟨hvmem, rfl⟩ := window_some hv
        exact .head ⟨below, v.address, above, hsplit, hv, hline v hvmem ih.below,
          fun d hd => hmissed d (habove d hd)⟩ (ih.way v hv)
      refine ⟨.head hdown ih.below, ih.window, ih.children, fun w' hw' => ?_, fun e he hbelow => ?_⟩
      · rw [Option.some.inj (hw'.symm.trans hw)]
        exact hchild
      · rcases ih.line e he hbelow with habovec | hway
        · rcases habovec.cases_tail with rfl | ⟨q, hq, hlast⟩
          · exact .inr (ih.way e he)
          · -- a window has one parent
            have hqup := ((Kin.Linked.links hs _ _).mp hlast).1
            obtain ⟨hvmem, rfl⟩ := window_some hv
            have hq' := (hs.up_iff hvmem).mp hqup
            rw [(hs.up_iff hvmem).mp hup] at hq'
            cases hq'
            exact .inl hq
        · exact .inr hway

theorem exists_last {α : Type} {P : α → Prop} {xs : List α} (h : ∃ x ∈ xs, P x) :
    ∃ below x above, xs = below ++ x :: above ∧ P x ∧ ∀ y ∈ above, ¬P y := by
  induction xs with
  | nil => simp at h
  | cons x xs ih =>
      by_cases hlater : ∃ y ∈ xs, P y
      · obtain ⟨below, y, above, rfl, hy, habove⟩ := ih hlater
        exact ⟨x :: below, y, above, rfl, hy, habove⟩
      · obtain ⟨y, hy, hP⟩ := h
        rcases List.mem_cons.mp hy with rfl | hy
        · exact ⟨[], y, xs, rfl, hP, fun z hz hPz => hlater ⟨z, hz, hPz⟩⟩
        · exact absurd ⟨y, hy, hP⟩ hlater

/-- What is listed after another is behind it. -/
theorem mem_of_sublist {α : Type} {first second : List α} {x y : α}
    (hnodup : (first ++ x :: second).Nodup)
    (h : [x, y].Sublist (first ++ x :: second)) : y ∈ second := by
  obtain ⟨front, back, hsplit, hfront, hback⟩ := List.sublist_append_iff.mp h
  cases front with
  | nil =>
      rw [List.nil_append] at hsplit
      rw [← hsplit, List.cons_sublist_cons] at hback
      exact List.singleton_sublist.mp hback
  | cons z front =>
      obtain ⟨rfl, -⟩ := List.cons.inj hsplit
      have hin := hfront.subset List.mem_cons_self
      exact absurd List.mem_cons_self (List.disjoint_of_nodup_append hnodup hin)

/-- The click comes to what is painted last if nothing comes between. -/
theorem Unobstructed.comesTo {painted before after : List WindowObject} (hs : Linked [] s')
    (h : s'.Unobstructed p painted t) (hdraw : s.drawDesktop = some (s', painted))
    (hsplit : painted = before ++ t :: after) (hcovers : ∀ w ∈ after, ¬w.Covers p) :
    s'.ComesTo p (s'.windows.map (·.address)) t := by
  obtain ⟨root, hroot, hparent, hpainted⟩ := exists_paintedDown hdraw hsplit
  have hreached := hpainted.reached hs h.line (h.covered before after hsplit hcovers)
  obtain ⟨htmem, -⟩ := window_some hreached.window
  -- the last window of the list from `t` up to its root
  obtain ⟨below, e, above, hwindows, hebelow, hlast⟩ : ∃ below e above,
      s'.windows = below ++ e :: above ∧ s'.Below e.address t.address ∧
        ∀ w ∈ above, ¬s'.Below w.address t.address := exists_last ⟨t, htmem, .refl⟩
  have hemem : e ∈ s'.windows := by
    rw [hwindows]
    exact List.mem_append_right _ List.mem_cons_self
  have he := hs.window_eq hemem
  have htop : s'.LastHit p (s'.windows.map (·.address)) e := by
    refine ⟨below.map (·.address), e.address, above.map (·.address), by simp [hwindows], he,
      h.line e hemem hebelow, fun a ha => ?_⟩
    obtain ⟨w, hw, rfl⟩ := List.mem_map.mp ha
    have hwmem : w ∈ s'.windows := by
      rw [hwindows]
      exact List.mem_append_right _ (List.mem_cons_of_mem e hw)
    rcases h.listed w.address (List.mem_map_of_mem hwmem) (hlast w hw) with hmissed | ⟨b, hb, hsub⟩
    · exact hmissed
    · obtain ⟨front, back, rfl⟩ := List.append_of_mem hw
      have hnodup : (s'.windows.map (·.address)).Nodup := by
        have hkin := Kin.Linked.addresses hs
        rwa [kin, List.map_map] at hkin
      have haddresses : s'.windows.map (·.address) =
          (below ++ e :: front).map (·.address) ++ w.address :: back.map (·.address) := by
        rw [hwindows]
        simp
      rw [haddresses] at hsub hnodup
      obtain ⟨v, hv, rfl⟩ := List.mem_map.mp (mem_of_sublist hnodup hsub)
      exact absurd hb (hlast v (List.mem_append_right _ (List.mem_cons_of_mem w hv)))
  have hway : ReflTransGen (fun w c => s'.LastHit p w.children c) e t := by
    rcases hreached.line e he hebelow with habove | hway
    · rcases habove.cases_tail with heq | ⟨q, -, hq⟩
      · exact hreached.way e (heq ▸ he)
      · have hup := ((Kin.Linked.links hs _ _).mp hq).1
        rw [(hs.up_iff hroot).mp hup] at hparent
        cases hparent
    · exact hway
  exact ⟨e, htop, hway, hreached.children⟩

theorem ComesTo.foremost (hs : Linked [] s) (h : s.ComesTo p (s.windows.map (·.address)) t) :
    s.Foremost p (some t) := by
  obtain ⟨e, htop, hway, -⟩ := h
  have hdown : ∀ w c, s.LastHit p w.children c → w ∈ s.windows → s.Down w.address c.address ∧
      c ∈ s.windows ∧ s.Hit p c := by
    intro w c hlast hw
    obtain ⟨hmem, hwindow, hhit⟩ := hlast.window
    exact ⟨(hs.down_iff hw).mpr hmem, (window_some hwindow).1, hhit⟩
  obtain ⟨-, hewindow, hehit⟩ := htop.window
  have hreach : s.Below e.address t.address ∧ t ∈ s.windows ∧ s.Hit p t := by
    induction hway with
    | refl => exact ⟨.refl, (window_some hewindow).1, hehit⟩
    | tail _ hlast ih =>
        obtain ⟨hstep, hmem, hhit⟩ := hdown _ _ hlast ih.2.1
        exact ⟨ih.1.tail hstep, hmem, hhit⟩
  refine ⟨hreach.2.2, fun a ha hout => ?_⟩
  obtain ⟨below, a', above, hlevel, ha', -, habove⟩ := htop
  obtain ⟨-, rfl⟩ := window_some ha'
  rw [hlevel] at ha ⊢
  rcases List.mem_append.mp ha with ha | ha
  · refine .inr ⟨e.address, hreach.1, ?_⟩
    exact (List.singleton_sublist.mpr ha).append (List.singleton_sublist.mpr List.mem_cons_self)
  · rcases List.mem_cons.mp ha with rfl | ha
    · exact absurd hreach.1 hout
    · exact .inl (habove a ha)

theorem linked_screenRun {ops : List ScreenOp} {answers : List Unit} (hs : Linked [] s)
    (hmemory : ∀ op ∈ ops, op.Granted) (h : Trace.run screenStep s ops = some (answers, s')) :
    Linked [] s' := by
  induction ops generalizing s answers with
  | nil =>
      cases h
      exact hs
  | cons op ops ih =>
      obtain ⟨answer, s₁, answers, hstep, hrest, -⟩ := Trace.run_cons.mp h
      have hop := hmemory op List.mem_cons_self
      refine ih ?_ (fun o ho => hmemory o (List.mem_cons_of_mem op ho)) hrest
      cases op with
      | dwm op =>
          obtain ⟨⟨clicks, s₂⟩, hrun, heq⟩ := Option.map_eq_some_iff.mp hstep
          cases heq
          exact linked_step hop hs hrun
      | draw =>
          obtain ⟨s₂, painted, hdraw, hkin⟩ := exists_drawDesktop hs
          rw [screenStep, hdraw] at hstep
          cases hstep
          rwa [Linked, hkin]

end Desktop

/-- On the drawn desktop a click finds what is painted last at the pixel if painting and clicking
agree there. What it finds then is hit, and none is in front of it. -/
theorem click_finds_paintedLast {displayWidth displayHeight : Int} {ops : List ScreenOp}
    {answers : List Unit} {s : Desktop} (hmemory : ∀ op ∈ ops, op.Granted)
    (hrun : Trace.run Desktop.screenStep (.init displayWidth displayHeight) ops = some (answers, s))
    (p : Point) : ∃ s' painted, s.drawDesktop = some (s', painted) ∧
      (s'.Agrees p painted →
        s'.findClickedWindow p (s'.windows.length + 1) (s'.windows.map (·.address)) =
          some (paintedLast painted p)) ∧
      (s'.findClickedWindow p (s'.windows.length + 1) (s'.windows.map (·.address)) =
          some (paintedLast painted p) → s'.Foremost p (paintedLast painted p)) := by
  have hs := Desktop.linked_screenRun (Desktop.linked_init ..).1 hmemory hrun
  obtain ⟨s', painted, hdraw, hkin⟩ := Desktop.exists_drawDesktop hs
  have hs' : Desktop.Linked [] s' := by rwa [Desktop.Linked, hkin]
  have hlevel : ∀ {P : Address → Prop}, (∀ w ∈ s'.windows, P w.address) →
      ∀ a ∈ s'.windows.map (·.address), P a := by
    intro P h a ha
    obtain ⟨w, hw, rfl⟩ := List.mem_map.mp ha
    exact h w hw
  refine ⟨s', painted, hdraw, fun hagrees => ?_, fun hfound => ?_⟩
  · rw [Desktop.Agrees] at hagrees
    cases hlast : paintedLast painted p with
    | none =>
        rw [hlast] at hagrees
        exact Desktop.findClickedWindow_none (hlevel hagrees)
    | some t =>
        rw [hlast] at hagrees
        rw [paintedLast, List.findRev?_eq_find?_reverse] at hlast
        obtain ⟨-, after, before, hreverse, hafter⟩ := List.find?_eq_some_iff_append.mp hlast
        have hsplit : painted = before.reverse ++ t :: after.reverse := by
          rw [← List.reverse_reverse painted, hreverse]
          simp
        obtain ⟨top, htop, hway, hchildren⟩ := hagrees.comesTo hs' hdraw hsplit fun w hw => by
          simpa using hafter w (List.mem_reverse.mp hw)
        refine Desktop.findClickedWindow_complete hs' hway hchildren htop ?_
        have hlt : Desktop.depth s'.kin top.address < s'.kin.length :=
          Desktop.depth_lt_length (Desktop.live_of_window htop.window.2.1)
        rw [Desktop.kin, List.length_map] at hlt
        exact Nat.lt_succ_of_lt hlt
  · rcases Desktop.findClickedWindow_sound hfound with ⟨hnone, hmissed⟩ | ⟨t, hsome, hcomes⟩
    · rw [hnone]
      exact fun w hw => hmissed w.address (List.mem_map_of_mem hw)
    · rw [hsome]
      exact hcomes.foremost hs'

/-- A window of 200 by 100 pixels at (50, 50), at the given address. -/
def DesktopOp.createAt (address : Address) (style : UInt16) : DesktopOp :=
  .createWindow ⟨50, 50, 200, 100, 0, 0⟩ style ⟨some address, true, true, true,
    true, true, none, none⟩

/-- A window with a child, raised over one that is kept on top elsewhere. -/
def nestedOps : List ScreenOp :=
  [.dwm (.perform (.createAt 0x1000 0)), .dwm (.perform (.createAt 0x2000 0)),
    .dwm (.perform (.setParent 2 1 true)),
    .dwm (.perform (.createWindow ⟨400, 300, 50, 50, 0, 0⟩ dwmWstyleTopmost
      ⟨some 0x3000, true, true, true, true, true, none, none⟩)),
    .dwm (.perform (.setFocus 1)), .draw]

/-- A click on the child, which is painted before the window on top and listed before its parent. -/
theorem click_finds_paintedLast_nested : ∃ answers s s' painted,
    Trace.run Desktop.screenStep (.init 800 600) nestedOps = some (answers, s) ∧
      s.drawDesktop = some (s', painted) ∧
      (paintedLast painted ⟨150, 140⟩).map (·.address) = some 0x2000 ∧
      s'.findClickedWindow ⟨150, 140⟩ (s'.windows.length + 1) (s'.windows.map (·.address)) =
        some (paintedLast painted ⟨150, 140⟩) := by
  have hfacts : ((Trace.run Desktop.screenStep (.init 800 600) nestedOps).bind fun r =>
      r.2.drawDesktop.map fun drawn => (drawn.1.kin,
        drawn.1.windows.map fun w => (w.address, drawn.1.hits ⟨150, 140⟩ w),
        drawn.2.map (·.address), (paintedLast drawn.2 ⟨150, 140⟩).map (·.address))) =
      some ([⟨0x2000, 2, some 0x1000, []⟩, ⟨0x3000, 3, none, []⟩, ⟨0x1000, 1, none, [0x2000]⟩],
        [(0x2000, some true), (0x3000, some false), (0x1000, some true)],
        [0x1000, 0x2000, 0x3000], some 0x2000) := by
    decide +kernel
  obtain ⟨⟨answers, s⟩, hrun, hdrawn⟩ := Option.bind_eq_some_iff.mp hfacts
  have hmemory : ∀ op ∈ nestedOps, op.Granted := by
    simp only [nestedOps, List.mem_cons, List.not_mem_nil, or_false, forall_eq_or_imp, forall_eq]
    exact ⟨trivial, trivial, rfl, trivial, trivial, trivial⟩
  obtain ⟨s', painted, hdraw, hfinds, -⟩ := click_finds_paintedLast hmemory hrun ⟨150, 140⟩
  simp only [hdraw, Option.map_some, Option.some.injEq, Prod.mk.injEq] at hdrawn
  obtain ⟨hkin, hhits, hpainted, hlast⟩ := hdrawn
  refine ⟨answers, s, s', painted, hrun, hdraw, hlast, hfinds ?_⟩
  obtain ⟨t, ht, htaddress⟩ := Option.map_eq_some_iff.mp hlast
  have hmem : ∀ w ∈ s'.windows, (w.address, s'.hits ⟨150, 140⟩ w) ∈
      [((0x2000 : Address), some true), (0x3000, some false), (0x1000, some true)] := by
    intro w hw
    rw [← hhits]
    exact List.mem_map_of_mem hw
  have hdown : ∀ a c, s'.Down a c ↔ a = 0x1000 ∧ c = 0x2000 := by
    intro a c
    rw [Desktop.Down, Kin.Down, hkin]
    simp [eq_comm]
  have hmissed : s'.Missed ⟨150, 140⟩ 0x3000 := by
    obtain ⟨v, hv⟩ : ∃ v, s'.window 0x3000 = some v := by
      apply Desktop.exists_window
      rw [Desktop.Live, hkin]
      decide
    obtain ⟨hvmem, haddress⟩ := Desktop.window_some hv
    have hv' := hmem v hvmem
    rw [haddress] at hv'
    have hfalse : s'.hits ⟨150, 140⟩ v = some false := by simpa using hv'
    rw [← haddress] at hv ⊢
    exact Desktop.missed_of_hits hv hfalse
  rw [Desktop.Agrees, ht]
  refine ⟨fun w hw hbelow => ?_, fun before after hsplit _ w hw => ?_, fun a ha hout => ?_⟩
  · rw [htaddress] at hbelow
    have hw := hmem w hw
    simp only [List.mem_cons, List.not_mem_nil, or_false, Prod.mk.injEq] at hw
    rcases hw with ⟨-, hhit⟩ | ⟨haddress, -⟩ | ⟨-, hhit⟩
    · exact Desktop.hit_of_hits hhit
    · rw [haddress] at hbelow
      rcases hbelow.cases_head with heq | ⟨c, hstep, -⟩
      · exact absurd heq (by decide)
      · exact absurd ((hdown _ _).mp hstep).1 (by decide)
    · exact Desktop.hit_of_hits hhit
  · rw [hsplit, List.map_append, List.map_cons, htaddress] at hpainted
    have haddress : w.address = 0x3000 := by
      have hlater : w.address ∈ after.map (·.address) := List.mem_map_of_mem hw
      generalize before.map (·.address) = first at hpainted
      rcases first with - | ⟨a, - | ⟨b, - | ⟨c, first⟩⟩⟩
      · cases hpainted
      · rw [(List.cons.inj (List.cons.inj hpainted).2).2] at hlater
        exact List.mem_singleton.mp hlater
      · cases hpainted
      · simp at hpainted
    rw [haddress]
    exact hmissed
  · have haddresses : s'.windows.map (·.address) = [0x2000, 0x3000, 0x1000] := by
      rw [Desktop.kin] at hkin
      have hall := congrArg (List.map Kin.address) hkin
      rwa [List.map_map] at hall
    rw [haddresses] at ha
    simp only [List.mem_cons, List.not_mem_nil, or_false] at ha
    rw [htaddress] at hout
    rcases ha with rfl | rfl | rfl
    · exact absurd .refl hout
    · exact .inl hmissed
    · exact absurd (.single ((hdown _ _).mpr ⟨rfl, rfl⟩)) hout

/-- A window on top of all others is painted last, and the window below it is clicked. -/
theorem click_not_finds_paintedLast : ∃ answers s s' painted,
    Trace.run Desktop.screenStep (.init 800 600)
        [.dwm (.perform (.createAt 0x1000 dwmWstyleTopmost)),
          .dwm (.perform (.createAt 0x2000 0))] =
          some (answers, s) ∧ s.drawDesktop = some (s', painted) ∧
      (paintedLast painted ⟨100, 100⟩).map (·.address) = some 0x1000 ∧
      (s'.findClickedWindow ⟨100, 100⟩ (s'.windows.length + 1) (s'.windows.map (·.address))).map
        (·.map (·.address)) = some (some 0x2000) := by
  have hrun : ((Trace.run Desktop.screenStep (.init 800 600)
      [.dwm (.perform (.createAt 0x1000 dwmWstyleTopmost)),
        .dwm (.perform (.createAt 0x2000 0))]).bind fun r => r.2.drawDesktop.map fun drawn =>
          ((paintedLast drawn.2 ⟨100, 100⟩).map (·.address),
            (drawn.1.findClickedWindow ⟨100, 100⟩ (drawn.1.windows.length + 1)
              (drawn.1.windows.map (·.address))).map (·.map (·.address)))) =
        some (some 0x1000, some (some 0x2000)) := by
    decide +kernel
  obtain ⟨⟨answers, s⟩, hrun, hdrawn⟩ := Option.bind_eq_some_iff.mp hrun
  obtain ⟨⟨s', painted⟩, hdraw, hfound⟩ := Option.map_eq_some_iff.mp hdrawn
  obtain ⟨hlast, hfound⟩ := Prod.mk.inj hfound
  exact ⟨answers, s, s', painted, hrun, hdraw, hlast, hfound⟩

end AvrKernel.Dwm

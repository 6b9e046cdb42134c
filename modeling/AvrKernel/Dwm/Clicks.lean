import AvrKernel.Dwm.Interactions
import Mathlib.Data.List.Induction

/-!
# Clicks

An event is taken for a click if its button is down and was up at the end of the last
frame. This is its press only if the button is still what it was at the end of that frame.
-/

namespace AvrKernel.Dwm

/-- The events of an operation on the desktop. -/
def DwmOp.events : DwmOp → List MouseInput
  | perform _ => []
  | update frame => frame.events

/-- The buttons in the last one of some events; before the first event they are up. -/
def lastButtons (events : List MouseInput) : Bool × Bool :=
  (events.getLast?.map fun input => (input.leftButton, input.rightButton)).getD (false, false)

@[simp] theorem lastButtons_concat (events : List MouseInput) (input : MouseInput) :
    lastButtons (events ++ [input]) = (input.leftButton, input.rightButton) := by
  rw [lastButtons, List.getLast?_concat]
  rfl

namespace Desktop

variable {s s' : Desktop} {around : Surroundings} {clicks : Clicks}

/-- The buttons that are down and were not at the end of the last frame. -/
def newClicks (s : Desktop) : Clicks :=
  ⟨s.leftButtonPressed && !s.lastLeftButtonPressed,
    s.rightButtonPressed && !s.lastRightButtonPressed⟩

/-! ## The handlers of clicks -/

theorem buttons_clickWindow (w : WindowObject) (position : Point) (clicks : Clicks) :
    (s.clickWindow w position clicks).buttons = s.buttons := by
  rw [clickWindow]
  split
  · split <;> rfl
  · split
    · rfl
    · split <;> rfl

theorem buttons_handleWindowClicks {taken : Bool}
    (h : s.handleWindowClicks clicks = some (taken, s')) : s'.buttons = s.buttons := by
  rw [handleWindowClicks, Option.bind_eq_bind, Option.bind_eq_some_iff] at h
  obtain ⟨clicked, -, h⟩ := h
  cases clicked with
  | none =>
      cases h
      rfl
  | some w =>
      simp only [Option.bind_eq_bind, Option.bind_eq_some_iff] at h
      obtain ⟨root, -, position, -, h⟩ := h
      cases h
      rw [buttons_clickWindow]
      exact Keeps.buttons (keeps_focusRoot root : Keeps True s _)

theorem buttons_handleIconClicks : (s.handleIconClicks clicks around).buttons = s.buttons := by
  have hmenu : ∀ (s : Desktop) (x y : Int) (directive : UInt16) (itemCount : Int),
      (s.createContextMenu x y directive itemCount).buttons = s.buttons :=
    fun _ x y directive itemCount =>
      Keeps.buttons (keeps_createContextMenu x y directive itemCount : Keeps True _ _)
  rw [handleIconClicks]
  split
  · split
    · rfl
    · split
      · exact hmenu ..
      · rfl
  · dsimp only
    split
    · rw [clickIcon]
      split <;> rfl
    · split
      · exact hmenu ..
      · rfl

theorem updateMouse_spec (h : s.updateMouse around = some (clicks, s')) :
    clicks = s.newClicks ∧ s'.buttons = s.buttons := by
  rw [updateMouse] at h
  dsimp only at h
  split at h
  · cases h
    exact ⟨rfl, rfl⟩
  · rw [Option.bind_eq_bind, Option.bind_eq_some_iff] at h
    obtain ⟨⟨taken, s₁⟩, hmenu, h⟩ := h
    have hmenu := (keeps_handleContextMenuClicks hmenu).buttons
    dsimp only at h
    split at h
    · cases h
      exact ⟨rfl, hmenu⟩
    · rw [Option.bind_eq_some_iff] at h
      obtain ⟨⟨taken₂, s₂⟩, hrename, h⟩ := h
      have hrename := (keeps_renameHandleClick hrename).buttons.trans hmenu
      dsimp only at h
      split at h
      · cases h
        exact ⟨rfl, hrename⟩
      · rw [Option.bind_eq_some_iff] at h
        obtain ⟨⟨taken₃, s₃⟩, hwindows, h⟩ := h
        have hwindows := (buttons_handleWindowClicks hwindows).trans hrename
        dsimp only at h
        split at h
        · cases h
          exact ⟨rfl, hwindows⟩
        · cases h
          exact ⟨rfl, buttons_handleIconClicks.trans hwindows⟩

/-- Events are clicks only while nothing goes on. -/
theorem applyMouseState_spec (h : s.applyMouseState around = some (clicks, s')) :
    clicks = (if s.Dragging then .none else s.newClicks) ∧ s'.buttons = s.buttons := by
  have hhandled : ∀ {p : Option Desktop}, (∀ t, p = some t → Keeps True s t) →
      p.map (Clicks.none, ·) = some (clicks, s') → clicks = .none ∧ s'.buttons = s.buttons := by
    intro p hkeeps hp
    obtain ⟨t, ht, hresult⟩ := Option.map_eq_some_iff.mp hp
    cases hresult
    exact ⟨rfl, (hkeeps _ ht).buttons⟩
  rw [applyMouseState] at h
  split at h
  next hwindow =>
    rw [if_pos (.inl hwindow)]
    exact hhandled (fun _ => keeps_updateWindowDragging) h
  next hwindow =>
    split at h
    next hresizing =>
      rw [if_pos (.inr (.inl hresizing))]
      exact hhandled (fun _ => keeps_updateWindowResizing) h
    next hresizing =>
      split at h
      next hicon =>
        rw [if_pos (.inr (.inr (.inl hicon)))]
        exact hhandled (fun _ => keeps_updateIconDragging) h
      next hicon =>
        split at h
        next hcaptured =>
          rw [if_pos (.inr (.inr (.inr hcaptured)))]
          cases h
          exact ⟨rfl, Keeps.buttons (keeps_updateWindowCapture : Keeps True s _)⟩
        next hcaptured =>
          rw [if_neg (by simp [Dragging, hwindow, hresizing, hicon, hcaptured])]
          exact updateMouse_spec h

end Desktop

/-! ## Events -/

namespace Frame

variable {past saved : List MouseInput} {f g f' : Frame} {input : MouseInput}

/-- The events `past` have been handled, of which `saved` are those of earlier frames. -/
structure Follows (past saved : List MouseInput) (f : Frame) : Prop where
  buttons : f.desktop.buttons = (lastButtons past, lastButtons saved)
  pending : f.dragPending = true → f.desktop.Dragging

theorem Follows.flush {clicks : Clicks} (h : f.Follows past saved)
    (hflush : f.flush input = some (clicks, g)) :
    clicks = .none ∧ g.Follows past saved ∧ (¬f.ButtonsChanged input → g = f) ∧
      (g.dragPending = true → ¬f.ButtonsChanged input) := by
  rw [Frame.flush] at hflush
  split at hflush
  next hpending =>
    rw [Option.map_eq_some_iff] at hflush
    obtain ⟨⟨clicks, s⟩, happly, hflush⟩ := hflush
    cases hflush
    obtain ⟨rfl, hbuttons⟩ := Desktop.applyMouseState_spec happly
    rw [if_pos (h.pending hpending.1)]
    exact ⟨rfl, ⟨hbuttons.trans h.buttons, by rintro ⟨⟩⟩,
      fun hsame => (hsame hpending.2).elim, by rintro ⟨⟩⟩
  next hpending =>
    cases hflush
    exact ⟨rfl, h, fun _ => rfl, fun hdrag hchanged => hpending ⟨hdrag, hchanged⟩⟩

/-- The clicks of an event. -/
def clicksOf (saved : List MouseInput) (input : MouseInput) : Clicks :=
  ⟨input.leftButton && !(lastButtons saved).1, input.rightButton && !(lastButtons saved).2⟩

theorem Follows.event {flushed own : Clicks} (h : f.Follows past saved)
    (hflush : f.flush input = some (flushed, g))
    (hevent : f.event input = some ((flushed, own), f')) :
    f'.Follows (past ++ [input]) saved ∧ flushed = .none ∧
      own = if g.desktop.Dragging then .none else clicksOf saved input := by
  simp only [Frame.event, hflush, Option.bind_eq_bind, Option.bind_some,
    Option.bind_eq_some_iff] at hevent
  obtain ⟨⟨own, g₁⟩, htake, hresult⟩ := hevent
  cases hresult
  obtain ⟨hnone, hg, hsame, hpending⟩ := h.flush hflush
  have hsnapshot : (g.desktop.snapshot input).buttons =
      (lastButtons (past ++ [input]), lastButtons saved) := by
    rw [lastButtons_concat]
    exact congrArg (Prod.mk _) (congrArg Prod.snd hg.buttons)
  rw [take] at htake
  dsimp only at htake
  split at htake
  next hdeferred =>
    cases htake
    simp only [Bool.and_eq_true, decide_eq_true_eq, Bool.not_eq_true', decide_eq_false_iff_not]
      at hdeferred
    have hdragging : g.desktop.Dragging := hsame hdeferred.2 ▸ hdeferred.1
    exact ⟨⟨hsnapshot, fun _ => hdragging⟩, hnone, (if_pos hdragging).symm⟩
  next happlied =>
    rw [Option.map_eq_some_iff] at htake
    obtain ⟨⟨clicks, s⟩, happly, htake⟩ := htake
    cases htake
    obtain ⟨rfl, hbuttons⟩ := Desktop.applyMouseState_spec happly
    refine ⟨⟨hbuttons.trans hsnapshot, fun hdrag => (happlied ?_).elim⟩, hnone, ?_⟩
    · have hunchanged := hpending hdrag
      have hdragging := h.pending (hsame hunchanged ▸ hdrag)
      simp [hunchanged, hdragging]
    · have hsaved : ((g.desktop.snapshot input).lastLeftButtonPressed,
          (g.desktop.snapshot input).lastRightButtonPressed) = lastButtons saved :=
        congrArg Prod.snd hsnapshot
      rw [Desktop.newClicks, clicksOf, ← hsaved]
      rfl

theorem Follows.run {events : List MouseInput} {clicks : List (Clicks × Clicks)}
    (h : f.Follows past saved) (hrun : Trace.run Frame.event f events = some (clicks, f')) :
    f'.Follows (past ++ events) saved := by
  induction events generalizing f past clicks with
  | nil =>
      cases hrun
      rwa [List.append_nil]
  | cons input events ih =>
      obtain ⟨answer, f₁, answers, hevent, hrest, -⟩ := Trace.run_cons.mp hrun
      have hevent' := hevent
      simp only [Frame.event, Option.bind_eq_bind, Option.bind_eq_some_iff] at hevent'
      obtain ⟨⟨flushed, g⟩, hflush, ⟨own, g'⟩, -, hanswer⟩ := hevent'
      cases hanswer
      rw [List.append_cons]
      exact ih (h.event hflush hevent).1 hrest

theorem Follows.finish {around : Surroundings} {clicks : Clicks} {s : Desktop}
    (h : f.Follows past saved) (hfinish : f.finish around = some (clicks, s)) :
    clicks = .none ∧ s.buttons = (lastButtons past, lastButtons past) := by
  rw [Frame.finish, Option.map_eq_some_iff] at hfinish
  obtain ⟨⟨clicks, s₁⟩, hpending, hresult⟩ := hfinish
  cases hresult
  have happlied : clicks = .none ∧ s₁.buttons = f.desktop.buttons := by
    rw [Frame.pending] at hpending
    split at hpending
    next hdrag =>
      obtain ⟨hclicks, hbuttons⟩ := Desktop.applyMouseState_spec hpending
      rw [if_pos (h.pending hdrag)] at hclicks
      exact ⟨hclicks, hbuttons⟩
    next =>
      cases hpending
      exact ⟨rfl, rfl⟩
  refine ⟨happlied.1, ?_⟩
  have hcurrent := congrArg Prod.fst (happlied.2.trans h.buttons)
  exact congrArg₂ Prod.mk hcurrent hcurrent

end Frame

/-! ## Runs -/

theorem Desktop.buttons_run {displayWidth displayHeight : Int} {ops : List DwmOp} {s : Desktop}
    {clicks : List (List (Clicks × Clicks))}
    (h : Trace.run step (init displayWidth displayHeight) ops = some (clicks, s)) :
    s.buttons = (lastButtons (ops.flatMap DwmOp.events),
      lastButtons (ops.flatMap DwmOp.events)) := by
  induction ops using List.reverseRecOn generalizing s clicks with
  | nil =>
      cases h
      rfl
  | append_singleton ops op ih =>
      obtain ⟨answers, s₁, answers', hrun, hop, -⟩ := Trace.run_append.mp h
      obtain ⟨answer, s₂, rest, hstep, hnil, -⟩ := Trace.run_cons.mp hop
      cases hnil
      rw [List.flatMap_append, List.flatMap_singleton]
      have hbuttons := ih hrun
      cases op with
      | perform op =>
          obtain ⟨s₃, hop, hresult⟩ := Option.map_eq_some_iff.mp hstep
          cases hresult
          rw [DwmOp.events, List.append_nil]
          exact (keeps_perform hop).buttons.trans hbuttons
      | update frame =>
          simp only [step, update, Option.bind_eq_bind, Option.bind_eq_some_iff] at hstep
          obtain ⟨⟨clicks, f⟩, hevents, ⟨last, s₃⟩, hfinish, hresult⟩ := hstep
          cases hresult
          have hstart : Frame.Follows (ops.flatMap DwmOp.events) (ops.flatMap DwmOp.events)
              ⟨s₁, false⟩ := ⟨hbuttons, nofun⟩
          exact ((hstart.run hevents).finish hfinish).2

/-- An event is taken for a new click if and only if it is a press outside of an interaction,
provided that outside of interactions its button was up at the end of the last frame just in
case it was up in the event before. Deferred motion is never taken for a click. -/
theorem clicks_are_presses {displayWidth displayHeight : Int} {ops : List DwmOp}
    {clicks : List (List (Clicks × Clicks))} {s : Desktop}
    (hrun : Trace.run Desktop.step (.init displayWidth displayHeight) ops = some (clicks, s))
    {events : List MouseInput} {answers : List (Clicks × Clicks)} {f : Frame}
    (hevents : Trace.run Frame.event ⟨s, false⟩ events = some (answers, f))
    {input : MouseInput} {flushed own : Clicks} {g f' : Frame}
    (hflush : f.flush input = some (flushed, g))
    (hevent : f.event input = some ((flushed, own), f')) :
    let saved := lastButtons (ops.flatMap DwmOp.events)
    let previous := lastButtons (ops.flatMap DwmOp.events ++ events)
    let idle := ¬g.desktop.Dragging
    ((own.left = true ↔ input.leftButton = true ∧ previous.1 = false ∧ idle) ↔
        (input.leftButton = true → idle → saved.1 = previous.1)) ∧
      ((own.right = true ↔ input.rightButton = true ∧ previous.2 = false ∧ idle) ↔
        (input.rightButton = true → idle → saved.2 = previous.2)) ∧
      flushed = .none ∧ ∀ around last s', f'.finish around = some (last, s') → last = .none := by
  intro saved previous idle
  have hstart : Frame.Follows (ops.flatMap DwmOp.events) (ops.flatMap DwmOp.events) ⟨s, false⟩ :=
    ⟨Desktop.buttons_run hrun, nofun⟩
  obtain ⟨hnext, hnone, hown⟩ := (hstart.run hevents).event hflush hevent
  have hedge : ∀ (clicked down before last : Bool),
    (clicked = true ↔ idle ∧ (down && !last) = true) →
      ((clicked = true ↔ down = true ∧ before = false ∧ idle) ↔
        (down = true → idle → last = before)) := by
    intro clicked down before last hclicked
    rw [hclicked]
    cases down <;> cases before <;> cases last <;> simp
  have hleft : own.left = true ↔ idle ∧ (input.leftButton && !saved.1) = true := by
    change own = _ at hown
    rw [hown]
    split
    next hdragging => simp [idle, hdragging, Clicks.none]
    next hidle => exact ⟨fun h => ⟨hidle, h⟩, And.right⟩
  have hright : own.right = true ↔ idle ∧ (input.rightButton && !saved.2) = true := by
    change own = _ at hown
    rw [hown]
    split
    next hdragging => simp [idle, hdragging, Clicks.none]
    next hidle => exact ⟨fun h => ⟨hidle, h⟩, And.right⟩
  exact ⟨hedge _ _ _ _ hleft, hedge _ _ _ _ hright, hnone,
    fun around last s' hfinish => (hnext.finish hfinish).1⟩

/-- Two frames in which the left button is pressed beside a window, and released. -/
def pressedBefore : List DwmOp :=
  [.perform (.create 0), .update ⟨[.left 390 300 false, .left 400 300 true], .quiet⟩,
    .update ⟨[.left 410 300 true, .left 410 310 false], .quiet⟩]

/-- A further press after some motion is a click. -/
theorem clicks_are_presses_first : ∃ clicks s answers f g f',
    Trace.run Desktop.step (.init 800 600) pressedBefore = some (clicks, s) ∧
      Trace.run Frame.event ⟨s, false⟩ [.left 400 320 false] = some (answers, f) ∧
      f.flush (.left 400 300 true) = some (.none, g) ∧
      f.event (.left 400 300 true) = some ((.none, ⟨true, false⟩), f') ∧
      (true = true ↔ true = true ∧
        (lastButtons (pressedBefore.flatMap DwmOp.events ++ [.left 400 320 false])).1 = false ∧
        ¬g.desktop.Dragging) ∧
      ∀ around last s', f'.finish around = some (last, s') → last = .none := by
  have hrun : ((Trace.run Desktop.step (.init 800 600) pressedBefore).bind fun r =>
      (Trace.run Frame.event ⟨r.2, false⟩ [.left 400 320 false]).bind fun q =>
        (q.2.flush (.left 400 300 true)).bind fun p =>
          (q.2.event (.left 400 300 true)).map fun e => (p.1, e.1)) =
      some (.none, .none, ⟨true, false⟩) := by
    decide +kernel
  simp only [Option.bind_eq_some_iff, Option.map_eq_some_iff, Prod.mk.injEq] at hrun
  obtain ⟨⟨clicks, s⟩, hops, ⟨answers, f⟩, hevents, ⟨flushed, g⟩, hflush, ⟨own, f'⟩, hevent, rfl,
    rfl⟩ := hrun
  obtain ⟨hleft, -, -, hfinish⟩ := clicks_are_presses hops hevents hflush hevent
  exact ⟨clicks, s, answers, f, g, f', hops, hevents, hflush, hevent,
    hleft.mpr fun _ _ => by decide, hfinish⟩

/-- The button is still down in the second event of a frame, and the motion is taken for another
click. -/
theorem motion_is_click : ∃ (f f' : Frame) (answers : List (Clicks × Clicks)) (own : Clicks),
    Trace.run Frame.event ⟨.init 800 600, false⟩ [.left 400 300 true] = some (answers, f) ∧
      f.event (.left 401 300 true) = some ((.none, own), f') ∧ own.left = true ∧
      (lastButtons [.left 400 300 true]).1 = true ∧ ¬f.desktop.Dragging := by
  have hrun : ((Trace.run Frame.event ⟨.init 800 600, false⟩ [.left 400 300 true]).bind fun r =>
      (r.2.event (.left 401 300 true)).map fun q => (q.1, decide r.2.desktop.Dragging)) =
        some ((.none, ⟨true, false⟩), false) := by
    decide +kernel
  simp only [Option.bind_eq_some_iff, Option.map_eq_some_iff, Prod.mk.injEq] at hrun
  obtain ⟨⟨answers, f⟩, hfirst, ⟨clicks, f'⟩, hsecond, rfl, hidle⟩ := hrun
  exact ⟨f, f', answers, ⟨true, false⟩, hfirst, hsecond, rfl, rfl, of_decide_eq_false hidle⟩

end AvrKernel.Dwm

import AvrKernel.Lib.Boxes
import AvrKernel.Lib.Signed
import AvrKernel.Lib.Trace
import Mathlib.Data.List.Induction

/-!
# Dirty regions

`dwm_invalidate_region` of `dwm_aux.c`: the rectangles of the screen that the next
frame has to paint. A new one takes over rectangles that it meets, and when the list
is full, one box around all of them is left.
-/

namespace AvrKernel.Dwm

open Boxes Signed

def maxDirtyRects : Nat := 32

structure Rect where
  x : Int
  y : Int
  w : Int
  h : Int
  deriving DecidableEq

namespace Rect

/-- The corners of a rectangle. -/
def box (r : Rect) : Box := ⟨r.x, r.y, r.x + r.w, r.y + r.h⟩

/-- The rectangle with these corners. -/
def ofBox (b : Box) : Rect := ⟨b.left, b.top, b.right - b.left, b.bottom - b.top⟩

@[simp] theorem box_ofBox (b : Box) : (ofBox b).box = b := by
  ext <;> simp [box, ofBox]

end Rect

/-- The number of pixels in a box, as an `int`. -/
def area (b : Box) : Int := int32 ((b.right - b.left) * (b.bottom - b.top))

/-- Whether a new box takes over an old one: they overlap or share an edge, and their
hull is no larger than both of them. -/
def absorbs (new old : Box) : Bool :=
  if old.left > new.right ∨ new.left > old.right ∨ old.top > new.bottom ∨
      new.top > old.bottom then false
  else ¬area (old.hull new) > int32 (area new + area old)

/-- Remove the item at an index; the last one takes its place. -/
def swapRemove (index : Nat) (regions : List Rect) : List Rect :=
  match regions.getLast? with
  | none => []
  | some last => (regions.set index last).dropLast

/-- The `while (merged)` loop. -/
def mergeRegions : Nat → List Rect → Box → Option (List Rect × Box)
  | 0, _, _ => none
  | n + 1, regions, new =>
      match regions.findIdx? fun r => absorbs new r.box with
      | none => some (regions, new)
      | some index =>
          match regions[index]? with
          | none => some (regions, new)
          | some r => mergeRegions n (swapRemove index regions) (r.box.hull new)

/-- The list with a new box; a full one becomes one box around everything. -/
def addRegion (regions : List Rect) (new : Box) : List Rect :=
  if regions.length < maxDirtyRects then regions ++ [.ofBox new]
  else [.ofBox (regions.foldl (fun bounds r => bounds.hull r.box) new)]

/-- The arguments of a call. -/
structure Region where
  x : Int16
  y : Int16
  w : Int16
  h : Int16

def Region.box (region : Region) : Box :=
  ⟨region.x.toInt, region.y.toInt, region.x.toInt + region.w.toInt,
    region.y.toInt + region.h.toInt⟩

/-- The screen. -/
def displayBox (displayW displayH : Int) : Box := ⟨0, 0, displayW, displayH⟩

/-- A call; `n` bounds the rounds of its loop. -/
def dwmInvalidateRegion (displayW displayH : Int) (n : Nat) (regions : List Rect)
    (region : Region) : Option (Unit × List Rect) :=
  if region.w.toInt ≤ 0 ∨ region.h.toInt ≤ 0 then some ((), regions)
  else
    let new := region.box.inter (displayBox displayW displayH)
    if new.right ≤ new.left ∨ new.bottom ≤ new.top then some ((), regions)
    else (mergeRegions n regions new).map fun (regions, new) => ((), addRegion regions new)

/-! ## Lists of regions -/

/-- A point belongs to one of the regions. -/
def Covers (regions : List Rect) (x y : Int) : Prop := ∃ r ∈ regions, r.box.Contains x y

/-- A list that the calls can make on a screen. -/
structure Tidy (display : Box) (regions : List Rect) : Prop where
  length : regions.length ≤ maxDirtyRects
  proper : ∀ r ∈ regions, r.box.Proper
  within : ∀ r ∈ regions, r.box.Within display

variable {display new : Box} {regions regions' : List Rect} {r : Rect} {index n : Nat} {x y : Int}

theorem tidy_nil (display : Box) : Tidy display [] :=
  ⟨by simp, by simp, by simp⟩

theorem swapRemove_concat (last : Rect) :
    swapRemove index (regions ++ [last]) = ((regions ++ [last]).set index last).dropLast := by
  simp [swapRemove]

theorem length_swapRemove (hr : regions[index]? = some r) :
    (swapRemove index regions).length + 1 = regions.length := by
  have hindex : index < regions.length := List.getElem?_eq_some_iff.mp hr |>.1
  cases regions using List.reverseRecOn with
  | nil => simp at hindex
  | append_singleton regions last => simp [swapRemove_concat]

theorem mem_of_mem_swapRemove (h : r ∈ swapRemove index regions) : r ∈ regions := by
  cases regions using List.reverseRecOn with
  | nil => simp [swapRemove] at h
  | append_singleton regions last =>
      rw [swapRemove_concat] at h
      rcases List.mem_or_eq_of_mem_set (List.dropLast_subset _ h) with hmem | rfl
      · exact hmem
      · simp

/-- Nothing but the removed item is lost. -/
theorem mem_swapRemove {removed : Rect} (hremoved : regions[index]? = some removed)
    (hr : r ∈ regions) : r = removed ∨ r ∈ swapRemove index regions := by
  cases regions using List.reverseRecOn with
  | nil => simp at hr
  | append_singleton regions last =>
      rw [swapRemove_concat]
      obtain ⟨i, hi, rfl⟩ := List.mem_iff_getElem.mp hr
      obtain ⟨hindex, hremoved⟩ := List.getElem?_eq_some_iff.mp hremoved
      by_cases heq : i = index
      · subst heq
        exact .inl hremoved
      · right
        simp only [List.length_append, List.length_singleton] at hi hindex
        by_cases hlast : i = regions.length
        · -- the last item has moved to `index`
          rw [List.mem_iff_getElem]
          refine ⟨index, by simp; omega, ?_⟩
          simp [List.getElem_dropLast, hlast]
        · rw [List.mem_iff_getElem]
          refine ⟨i, by simp; omega, ?_⟩
          rw [List.getElem_dropLast, List.getElem_set_ne (Ne.symm heq)]

/-! ## A call -/

/-- The loop ends, since every round removes a region, and loses no point. -/
theorem mergeRegions_spec (hn : regions.length < n) (hproper : new.Proper)
    (hwithin : new.Within display) (hregions : ∀ r ∈ regions, r.box.Proper ∧ r.box.Within display) :
    ∃ regions' new', mergeRegions n regions new = some (regions', new') ∧
      regions'.length ≤ regions.length ∧ regions' ⊆ regions ∧
      new'.Proper ∧ new'.Within display ∧
      ∀ x y, Covers regions x y ∨ new.Contains x y → Covers regions' x y ∨ new'.Contains x y := by
  induction n generalizing regions new with
  | zero => omega
  | succ n ih =>
      rw [mergeRegions]
      split
      · exact ⟨regions, new, rfl, Nat.le_refl _, List.Subset.refl _, hproper, hwithin,
          fun x y h => h⟩
      · next index hfound =>
        cases hr : regions[index]? with
        | none => exact ⟨regions, new, rfl, Nat.le_refl _, List.Subset.refl _, hproper, hwithin,
            fun x y h => h⟩
        | some r =>
            have hlength := length_swapRemove hr
            have hmem : r ∈ regions := List.mem_of_getElem? hr
            have hshorter : (swapRemove index regions).length < n := by omega
            obtain ⟨regions', new', hrun, hshort, hsub, hproper', hwithin', hcovers⟩ :=
              ih hshorter ((hregions r hmem).1.hull new) ((hregions r hmem).2.hull hwithin)
                fun r hr => hregions r (mem_of_mem_swapRemove hr)
            refine ⟨regions', new', hrun, by omega,
              fun r hr => mem_of_mem_swapRemove (hsub hr), hproper', hwithin', ?_⟩
            intro x y h
            apply hcovers
            rcases h with ⟨other, hother, hcontains⟩ | hcontains
            · rcases mem_swapRemove hr hother with rfl | hother
              · exact .inr (hcontains.mono (Box.within_hull_left _ _))
              · exact .inl ⟨other, hother, hcontains⟩
            · exact .inr (hcontains.mono (Box.within_hull_right _ _))

theorem within_foldl_hull (regions : List Rect) (new : Box) :
    let bounds := regions.foldl (fun bounds r => bounds.hull r.box) new
    new.Within bounds ∧ ∀ r ∈ regions, r.box.Within bounds := by
  induction regions generalizing new with
  | nil => exact ⟨.refl new, by simp⟩
  | cons r regions ih =>
      obtain ⟨hfirst, hrest⟩ := ih (new.hull r.box)
      refine ⟨(Box.within_hull_left _ _).trans hfirst, ?_⟩
      intro other hother
      rcases List.mem_cons.mp hother with rfl | hother
      · exact (Box.within_hull_right _ _).trans hfirst
      · exact hrest other hother

theorem foldl_hull_within (hnew : new.Within display)
    (hregions : ∀ r ∈ regions, r.box.Within display) :
    (regions.foldl (fun bounds r => bounds.hull r.box) new).Within display := by
  induction regions generalizing new with
  | nil => exact hnew
  | cons r regions ih =>
      apply ih (hnew.hull (hregions r (by simp)))
      intro r hr
      exact hregions r (by simp [hr])

theorem Tidy.addRegion (h : Tidy display regions) (hproper : new.Proper)
    (hwithin : new.Within display) : Tidy display (addRegion regions new) := by
  rw [Dwm.addRegion]
  split
  · next hroom =>
    constructor
    · simp only [List.length_append, List.length_singleton]
      omega
    · intro r hr
      rcases List.mem_append.mp hr with hr | hr
      · exact h.proper r hr
      · simpa [List.mem_singleton.mp hr] using hproper
    · intro r hr
      rcases List.mem_append.mp hr with hr | hr
      · exact h.within r hr
      · simpa [List.mem_singleton.mp hr] using hwithin
  · obtain ⟨x, y, hxy⟩ := Box.proper_iff.mp hproper
    constructor
    · simp [maxDirtyRects]
    · simpa using (hxy.mono (within_foldl_hull regions new).1).proper
    · simpa using foldl_hull_within hwithin h.within

/-- An added region and all the old ones are covered. -/
theorem covers_addRegion (h : Covers regions x y ∨ new.Contains x y) :
    Covers (addRegion regions new) x y := by
  rw [addRegion]
  split
  · rcases h with ⟨r, hr, hcontains⟩ | hcontains
    · exact ⟨r, by simp [hr], hcontains⟩
    · exact ⟨.ofBox new, by simp, by simpa using hcontains⟩
  · obtain ⟨hnew, hold⟩ := within_foldl_hull regions new
    refine ⟨_, List.mem_singleton.mpr rfl, ?_⟩
    rw [Rect.box_ofBox]
    rcases h with ⟨r, hr, hcontains⟩ | hcontains
    · exact hcontains.mono (hold r hr)
    · exact hcontains.mono hnew

/-- A call keeps the list tidy and adds the part of its region that is on the screen. -/
theorem invalidateRegion_spec (displayW displayH : Int) (region : Region)
    (h : Tidy (displayBox displayW displayH) regions) (hn : maxDirtyRects < n) :
    ∃ regions', dwmInvalidateRegion displayW displayH n regions region = some ((), regions') ∧
      Tidy (displayBox displayW displayH) regions' ∧
      ∀ x y, Covers regions x y ∨
        region.box.Contains x y ∧ (displayBox displayW displayH).Contains x y →
          Covers regions' x y := by
  have hlength := h.length
  rw [dwmInvalidateRegion]
  split
  · next hempty =>
    refine ⟨regions, rfl, h, ?_⟩
    rintro x y (hcovers | ⟨hcontains, -⟩)
    · exact hcovers
    · obtain ⟨hx, hy⟩ := hcontains.proper
      simp only [Region.box] at hx hy
      omega
  · dsimp only
    split
    · next hempty =>
      refine ⟨regions, rfl, h, ?_⟩
      rintro x y (hcovers | hcontains)
      · exact hcovers
      · obtain ⟨hx, hy⟩ := (Box.contains_inter.mpr hcontains).proper
        omega
    · next hproper =>
      have hn : regions.length < n := by omega
      have hnew : (region.box.inter (displayBox displayW displayH)).Proper := ⟨by omega, by omega⟩
      obtain ⟨regions', new', hrun, hshort, hsub, hproper', hwithin', hcovers⟩ :=
        mergeRegions_spec hn hnew (Box.inter_within_right _ _) fun r hr =>
          ⟨h.proper r hr, h.within r hr⟩
      have htidy : Tidy (displayBox displayW displayH) regions' :=
        ⟨by omega, fun r hr => h.proper r (hsub hr), fun r hr => h.within r (hsub hr)⟩
      refine ⟨Dwm.addRegion regions' new', by rw [hrun]; rfl,
        htidy.addRegion hproper' hwithin', ?_⟩
      intro x y hxy
      apply covers_addRegion
      apply hcovers
      exact hxy.imp_right Box.contains_inter.mpr

/-- After any sequence of calls there are at most `MAX_DIRTY_RECTS` regions; they have
points and lie on the screen, and every part of the screen that was invalidated is in them. -/
theorem invalidations_cover (displayW displayH : Int) (requests : List Region) (n : Nat)
    (hn : maxDirtyRects < n) :
    ∃ answers regions,
      Trace.run (dwmInvalidateRegion displayW displayH n) [] requests = some (answers, regions) ∧
      Tidy (displayBox displayW displayH) regions ∧
      ∀ region ∈ requests, ∀ x y, region.box.Contains x y →
        (displayBox displayW displayH).Contains x y → Covers regions x y := by
  suffices hrun : ∀ regions, Tidy (displayBox displayW displayH) regions →
      ∃ answers regions',
        Trace.run (dwmInvalidateRegion displayW displayH n) regions requests =
          some (answers, regions') ∧
        Tidy (displayBox displayW displayH) regions' ∧
        (∀ x y, Covers regions x y → Covers regions' x y) ∧
        ∀ region ∈ requests, ∀ x y, region.box.Contains x y →
          (displayBox displayW displayH).Contains x y → Covers regions' x y by
    obtain ⟨answers, regions, hrun, htidy, -, hcovers⟩ := hrun [] (tidy_nil _)
    exact ⟨answers, regions, hrun, htidy, hcovers⟩
  induction requests with
  | nil => exact fun regions h => ⟨[], regions, rfl, h, fun x y hxy => hxy, by simp⟩
  | cons region requests ih =>
      intro regions h
      obtain ⟨middle, hstep, hmiddle, hkeeps⟩ :=
        invalidateRegion_spec displayW displayH region h hn
      obtain ⟨answers, regions', hrest, htidy, hlater, hcovers⟩ := ih middle hmiddle
      refine ⟨() :: answers, regions', ?_, htidy, ?_, ?_⟩
      · exact Trace.run_cons.mpr ⟨(), middle, answers, hstep, hrest, rfl⟩
      · intro x y hxy
        exact hlater x y (hkeeps x y (.inl hxy))
      · intro other hother x y hbox hdisplay
        rcases List.mem_cons.mp hother with rfl | hother
        · exact hlater x y (hkeeps x y (.inr ⟨hbox, hdisplay⟩))
        · exact hcovers other hother x y hbox hdisplay

theorem invalidations_cover_two : ∃ answers regions,
    Trace.run (dwmInvalidateRegion 640 480 33) [] [⟨-10, -10, 30, 30⟩, ⟨15, 15, 20, 20⟩] =
      some (answers, regions) ∧
    Tidy (displayBox 640 480) regions ∧
    ∀ region ∈ [(⟨-10, -10, 30, 30⟩ : Region), ⟨15, 15, 20, 20⟩], ∀ x y,
      region.box.Contains x y → (displayBox 640 480).Contains x y → Covers regions x y :=
  invalidations_cover 640 480 _ 33 (by decide)

/-- A region inside of an old one leaves the old one. -/
example : Trace.run (dwmInvalidateRegion 640 480 33) []
    [⟨-10, -10, 60, 60⟩, ⟨15, 15, 20, 20⟩] = some ([(), ()], [⟨0, 0, 50, 50⟩]) := by decide

end AvrKernel.Dwm

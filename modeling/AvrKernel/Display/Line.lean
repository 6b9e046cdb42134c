import AvrKernel.Lib.Boxes
import Mathlib.Tactic.Ring

/-!
# Lines

`draw_line` of `draw.c`: a line is cut to the clip rectangle end by end, and what is left
of it is drawn pixel by pixel. Coordinates are integers, since their sums and products
are supposed to fit in an `int`.
-/

namespace AvrKernel.Display

open Boxes

def drawClipLeft : UInt8 := 1
def drawClipRight : UInt8 := 2
def drawClipBottom : UInt8 := 4
def drawClipTop : UInt8 := 8

/-- On which sides of the clip rectangle a point lies. -/
def renderClipComputeOutcode (clip : Box) (x y : Int) : UInt8 :=
  (if x < clip.left then drawClipLeft else if x ≥ clip.right then drawClipRight else 0) |||
    (if y < clip.top then drawClipTop else if y ≥ clip.bottom then drawClipBottom else 0)

structure Segment where
  x0 : Int
  y0 : Int
  x1 : Int
  y1 : Int
  deriving DecidableEq

/-- A division of integers; by zero it is a fault. -/
def quotient (a b : Int) : Option Int := if b = 0 then none else some (a.tdiv b)

/-- The point of a segment on the side of the clip rectangle that an outcode names. -/
def clipPoint (clip : Box) (s : Segment) (outcodeOut : UInt8) : Option (Int × Int) :=
  if outcodeOut &&& drawClipTop ≠ 0 then
    (quotient ((s.x1 - s.x0) * (clip.top - s.y0)) (s.y1 - s.y0)).map fun q => (s.x0 + q, clip.top)
  else if outcodeOut &&& drawClipBottom ≠ 0 then
    (quotient ((s.x1 - s.x0) * (clip.bottom - 1 - s.y0)) (s.y1 - s.y0)).map fun q =>
      (s.x0 + q, clip.bottom - 1)
  else if outcodeOut &&& drawClipRight ≠ 0 then
    (quotient ((s.y1 - s.y0) * (clip.right - 1 - s.x0)) (s.x1 - s.x0)).map fun q =>
      (clip.right - 1, s.y0 + q)
  else if outcodeOut &&& drawClipLeft ≠ 0 then
    (quotient ((s.y1 - s.y0) * (clip.left - s.x0)) (s.x1 - s.x0)).map fun q =>
      (clip.left, s.y0 + q)
  else none

/-- The clipping loop; nothing may be left of the segment. -/
def clipSegment (clip : Box) : Nat → Segment → Option (Option Segment)
  | 0, _ => none
  | n + 1, s =>
      let code0 := renderClipComputeOutcode clip s.x0 s.y0
      let code1 := renderClipComputeOutcode clip s.x1 s.y1
      if code0 ||| code1 = 0 then some (some s)
      else if code0 &&& code1 ≠ 0 then some none
      else
        let outcodeOut := if code0 ≠ 0 then code0 else code1
        (clipPoint clip s outcodeOut).bind fun (x, y) =>
          if outcodeOut = code0 then clipSegment clip n { s with x0 := x, y0 := y }
          else clipSegment clip n { s with x1 := x, y1 := y }

/-- The values that the drawing loop does not change. -/
structure Slope where
  dx : Int
  dy : Int
  sx : Int
  sy : Int

def Segment.slope (s : Segment) : Slope where
  dx := |s.x1 - s.x0|
  dy := |s.y1 - s.y0|
  sx := if s.x0 < s.x1 then 1 else -1
  sy := if s.y0 < s.y1 then 1 else -1

/-- The drawing loop: the pixels from the first endpoint on. -/
def linePixels (slope : Slope) (x1 y1 : Int) : Nat → Int → Int → Int → Option (List (Int × Int))
  | 0, _, _, _ => none
  | n + 1, x0, y0, err =>
      if x0 = x1 ∧ y0 = y1 then some [(x0, y0)]
      else
        let e2 := 2 * err
        let alongX := e2 > -slope.dy
        let alongY := e2 < slope.dx
        (linePixels slope x1 y1 n (if alongX then x0 + slope.sx else x0)
          (if alongY then y0 + slope.sy else y0)
          (err - (if alongX then slope.dy else 0) + (if alongY then slope.dx else 0))).map
            ((x0, y0) :: ·)

/-- The pixels that `draw_line` writes, in this order. -/
def drawLine (clip : Box) (displayBaseX displayBaseY : Int) (n : Nat) (x0 y0 x1 y1 : Int) :
    Option (List (Int × Int)) := do
  let clipped ← clipSegment clip n
    ⟨x0 + displayBaseX, y0 + displayBaseY, x1 + displayBaseX, y1 + displayBaseY⟩
  match clipped with
  | none => return []
  | some s =>
      let slope := s.slope
      linePixels slope s.x1 s.y1 n s.x0 s.y0 (slope.dx - slope.dy)

/-! ## Sides -/

variable {clip : Box} {x y x' y' : Int} {s : Segment} {n : Nat}

theorem outcode_top : renderClipComputeOutcode clip x y &&& drawClipTop =
    if y < clip.top then drawClipTop else 0 := by
  rw [renderClipComputeOutcode]
  split_ifs <;> decide

theorem outcode_bottom : renderClipComputeOutcode clip x y &&& drawClipBottom =
    if ¬y < clip.top ∧ y ≥ clip.bottom then drawClipBottom else 0 := by
  rw [renderClipComputeOutcode]
  split_ifs <;> first | decide | omega

theorem outcode_right : renderClipComputeOutcode clip x y &&& drawClipRight =
    if ¬x < clip.left ∧ x ≥ clip.right then drawClipRight else 0 := by
  rw [renderClipComputeOutcode]
  split_ifs <;> first | decide | omega

theorem outcode_left : renderClipComputeOutcode clip x y &&& drawClipLeft =
    if x < clip.left then drawClipLeft else 0 := by
  rw [renderClipComputeOutcode]
  split_ifs <;> decide

theorem outcode_ne_zero (mask : UInt8) {h : Prop} [Decidable h] (hmask : mask ≠ 0)
    (hcode : renderClipComputeOutcode clip x y &&& mask = if h then mask else 0) :
    renderClipComputeOutcode clip x y &&& mask ≠ 0 ↔ h := by
  rw [hcode]
  split_ifs <;> simp_all

theorem outcode_eq_zero : renderClipComputeOutcode clip x y = 0 ↔ clip.Contains x y := by
  rw [renderClipComputeOutcode, Box.Contains]
  split_ifs <;> first | exact iff_of_true (by decide) (by omega)
                      | exact iff_of_false (by decide) (by omega)

/-- Two coordinates lie on one side of the range from `lo` to `hi`. -/
def SameSide (lo hi v w : Int) : Prop := v < lo ∧ w < lo ∨ (¬v < lo ∧ v ≥ hi) ∧ (¬w < lo ∧ w ≥ hi)

/-- Two points lie on one side of the clip rectangle. -/
def Share (clip : Box) (x y x' y' : Int) : Prop :=
  SameSide clip.left clip.right x x' ∨ SameSide clip.top clip.bottom y y'

theorem SameSide.symm {lo hi v w : Int} (h : SameSide lo hi v w) : SameSide lo hi w v := by
  rw [SameSide] at h ⊢
  omega

theorem Share.symm (h : Share clip x y x' y') : Share clip x' y' x y := by
  exact h.imp SameSide.symm SameSide.symm

theorem and_ne_zero_of_mask {c d : UInt8} (mask : UInt8) (hc : c &&& mask = mask)
    (hd : d &&& mask = mask)
    (hmask : mask ≠ 0) : c &&& d ≠ 0 := by
  intro hzero
  have hboth : c &&& d &&& mask = mask := by rw [UInt8.and_assoc, hd, hc]
  rw [hzero, UInt8.zero_and] at hboth
  exact hmask hboth.symm

theorem Share.and_ne_zero (h : Share clip x y x' y') :
    renderClipComputeOutcode clip x y &&& renderClipComputeOutcode clip x' y' ≠ 0 := by
  rcases h with (⟨h, h'⟩ | ⟨h, h'⟩) | ⟨h, h'⟩ | ⟨h, h'⟩
  · apply and_ne_zero_of_mask drawClipLeft _ _ (by decide) <;>
      rw [outcode_left, if_pos (by assumption)]
  · apply and_ne_zero_of_mask drawClipRight _ _ (by decide) <;>
      rw [outcode_right, if_pos (by assumption)]
  · apply and_ne_zero_of_mask drawClipTop _ _ (by decide) <;>
      rw [outcode_top, if_pos (by assumption)]
  · apply and_ne_zero_of_mask drawClipBottom _ _ (by decide) <;>
      rw [outcode_bottom, if_pos (by assumption)]

/-! ## Moving an end -/

/-- `v` lies between two coordinates. -/
def Between (a b v : Int) : Prop := min a b ≤ v ∧ v ≤ max a b

/-- A truncated part of a difference lies between nothing and the whole. -/
theorem tdiv_between {e k d : Int} (hd : d ≠ 0) (hk : 0 ≤ k ∧ k ≤ d ∨ d ≤ k ∧ k ≤ 0) (v : Int) :
    Between v (v + e) (v + (e * k).tdiv d) := by
  -- the signs of both sides of the quotient can be changed
  have hpos : ∀ e k d : Int, 0 < d → 0 ≤ k → k ≤ d → 0 ≤ e →
      0 ≤ (e * k).tdiv d ∧ (e * k).tdiv d ≤ e := by
    intro e k d hd hk hkd he
    have hle : (e * k).tdiv d ≤ (e * d).tdiv d :=
      Int.tdiv_le_tdiv hd (Int.mul_le_mul_of_nonneg_left hkd he)
    rw [Int.mul_tdiv_cancel e hd.ne'] at hle
    exact ⟨Int.tdiv_nonneg (Int.mul_nonneg he hk) hd.le, hle⟩
  have hdiv : ∀ e : Int, 0 ≤ e → 0 ≤ (e * k).tdiv d ∧ (e * k).tdiv d ≤ e := by
    intro e he
    rcases hk with ⟨hk, hkd⟩ | ⟨hdk, hk⟩
    · exact hpos e k d (by omega) hk hkd he
    · rw [← Int.neg_tdiv_neg, ← Int.mul_neg]
      exact hpos e (-k) (-d) (by omega) (by omega) (by omega) he
  rw [Between]
  rcases Int.le_total 0 e with he | he
  · have := hdiv e he
    omega
  · have := hdiv (-e) (by omega)
    rw [Int.neg_mul, Int.neg_tdiv] at this
    omega

/-- Move a coordinate to the next one in the range. -/
def Clips (lo hi v v₁ : Int) : Prop := v < lo ∧ v₁ = lo ∨ (¬v < lo ∧ v ≥ hi) ∧ v₁ = hi - 1

/-- How an end at `(x, y)` moves to `(x₁, y₁)` towards the other end. -/
def Moves (clip : Box) (x y x' y' x₁ y₁ : Int) : Prop :=
  Clips clip.top clip.bottom y y₁ ∧ (clip.top < clip.bottom → Between x x' x₁) ∨
    (clip.top ≤ y ∧ y < clip.bottom) ∧ Clips clip.left clip.right x x₁ ∧
      (clip.left < clip.right → Between y y' y₁)

/-- Whether a coordinate lies outside of a range, as a number. -/
def out (lo hi v : Int) : Nat := if lo ≤ v ∧ v < hi then 0 else 1

/-- The number of coordinates outside of the clip rectangle. -/
def outs (clip : Box) (x y : Int) : Nat := out clip.left clip.right x + out clip.top clip.bottom y

section Coordinates

variable {lo hi v w v₁ : Int}

theorem out_le (lo hi v : Int) : out lo hi v ≤ 1 := by
  rw [out]
  split <;> omega

/-- In an empty range the coordinate comes to the side of the other one. -/
theorem Clips.inside (h : Clips lo hi v v₁) (hnot : ¬SameSide lo hi v w) :
    lo < hi ∧ out lo hi v₁ < out lo hi v ∨ SameSide lo hi v₁ w := by
  rw [Clips] at h
  rw [SameSide] at hnot ⊢
  by_cases hrange : lo < hi
  · left
    rw [out, out, if_pos (by omega), if_neg (by omega)]
    omega
  · right
    omega

/-- A coordinate moved towards another one gets outside only where that one is. -/
theorem Between.inside (h : Between v w v₁) (hnot : ¬SameSide lo hi v w) :
    out lo hi v₁ ≤ out lo hi v ∨ SameSide lo hi v₁ w := by
  rw [Between] at h
  rw [SameSide] at hnot ⊢
  by_cases hinside : lo ≤ v₁ ∧ v₁ < hi
  · left
    rw [out, if_pos hinside]
    omega
  · by_cases hbefore : lo ≤ v ∧ v < hi
    · right
      omega
    · left
      rw [out, out, if_neg hinside, if_neg hbefore]

end Coordinates

/-- A moved end is on one side with the other end, or it has one coordinate less outside. -/
theorem Moves.shares_or_closer {x₁ y₁ : Int} (h : Moves clip x y x' y' x₁ y₁)
    (hnot : ¬Share clip x y x' y') :
    Share clip x₁ y₁ x' y' ∨ outs clip x₁ y₁ < outs clip x y := by
  obtain ⟨hnotx, hnoty⟩ := not_or.mp hnot
  rcases h with ⟨hclip, hbetween⟩ | ⟨hinside, hclip, hbetween⟩
  · rcases hclip.inside hnoty with ⟨hrange, hcloser⟩ | hside
    · rcases (hbetween hrange).inside hnotx with hkept | hside
      · exact .inr (Nat.add_lt_add_of_le_of_lt hkept hcloser)
      · exact .inl (.inl hside)
    · exact .inl (.inr hside)
  · rcases hclip.inside hnotx with ⟨hrange, hcloser⟩ | hside
    · rcases (hbetween hrange).inside hnoty with hkept | hside
      · exact .inr (Nat.add_lt_add_of_lt_of_le hcloser hkept)
      · exact .inl (.inr hside)
    · exact .inl (.inl hside)

/-- The part of the way to a bound is a part of the way to the other end. -/
theorem interpolate (v e k d : Int) (hd : d ≠ 0) :
    ∃ q, quotient (e * k) d = some q ∧
      ((0 ≤ k ∧ k ≤ d ∨ d ≤ k ∧ k ≤ 0) → Between v (v + e) (v + q)) :=
  ⟨(e * k).tdiv d, if_neg hd, fun hk => tdiv_between hd hk v⟩

/-- An end of a segment, and the other one; the second end is moved when the first one is
inside. -/
def IsEnd (clip : Box) (s : Segment) (x y x' y' : Int) : Prop :=
  (x = s.x0 ∧ y = s.y0 ∧ x' = s.x1 ∧ y' = s.y1) ∨
    (x = s.x1 ∧ y = s.y1 ∧ x' = s.x0 ∧ y' = s.y0) ∧ clip.Contains s.x0 s.y0

theorem IsEnd.between (h : IsEnd clip s x y x' y') {v : Int} :
    (Between s.y0 (s.y0 + (s.y1 - s.y0)) v → Between y y' v) ∧
      (Between s.x0 (s.x0 + (s.x1 - s.x0)) v → Between x x' v) := by
  simp only [Between]
  rcases h with ⟨rfl, rfl, rfl, rfl⟩ | ⟨⟨rfl, rfl, rfl, rfl⟩, -⟩
  · omega
  · omega

/-- An end outside of the clip rectangle moves; nothing is divided by zero. -/
theorem clipPoint_moves (hend : IsEnd clip s x y x' y') (hnot : ¬Share clip x y x' y')
    (hout : ¬clip.Contains x y) :
    ∃ x₁ y₁, clipPoint clip s (renderClipComputeOutcode clip x y) = some (x₁, y₁) ∧
      Moves clip x y x' y' x₁ y₁ := by
  have hends (v : Int) := hend.between (v := v)
  obtain ⟨hnotx, hnoty⟩ := not_or.mp hnot
  simp only [SameSide] at hnotx hnoty
  simp only [Box.Contains] at hout
  simp only [IsEnd, Box.Contains] at hend
  rw [clipPoint]
  simp only [outcode_ne_zero drawClipTop (by decide) outcode_top,
    outcode_ne_zero drawClipBottom (by decide) outcode_bottom,
    outcode_ne_zero drawClipRight (by decide) outcode_right,
    outcode_ne_zero drawClipLeft (by decide) outcode_left]
  split_ifs with htop hbottom hright hleft
  · clear hnotx hout
    obtain ⟨q, hq, hbetween⟩ :=
      interpolate s.x0 (s.x1 - s.x0) (clip.top - s.y0) (s.y1 - s.y0) (by omega)
    refine ⟨s.x0 + q, clip.top, by rw [hq]; rfl, .inl ⟨.inl ⟨htop, rfl⟩, fun hrange => ?_⟩⟩
    exact (hends _).2 (hbetween (by omega))
  · clear hnotx hout
    obtain ⟨q, hq, hbetween⟩ :=
      interpolate s.x0 (s.x1 - s.x0) (clip.bottom - 1 - s.y0) (s.y1 - s.y0) (by omega)
    refine ⟨s.x0 + q, clip.bottom - 1, by rw [hq]; rfl, .inl ⟨.inr ⟨hbottom, rfl⟩,
      fun hrange => ?_⟩⟩
    exact (hends _).2 (hbetween (by omega))
  · clear hnoty hout
    obtain ⟨q, hq, hbetween⟩ :=
      interpolate s.y0 (s.y1 - s.y0) (clip.right - 1 - s.x0) (s.x1 - s.x0) (by omega)
    refine ⟨clip.right - 1, s.y0 + q, by rw [hq]; rfl, .inr ⟨by omega, .inr ⟨hright, rfl⟩,
      fun hrange => ?_⟩⟩
    exact (hends _).1 (hbetween (by omega))
  · clear hnoty hout
    obtain ⟨q, hq, hbetween⟩ :=
      interpolate s.y0 (s.y1 - s.y0) (clip.left - s.x0) (s.x1 - s.x0) (by omega)
    refine ⟨clip.left, s.y0 + q, by rw [hq]; rfl, .inr ⟨by omega, .inl ⟨hleft, rfl⟩,
      fun hrange => ?_⟩⟩
    exact (hends _).1 (hbetween (by omega))
  · omega

/-! ## The clipping loop -/

/-- The rounds that the clipping loop still makes at most. -/
def Enough (clip : Box) (s : Segment) (n : Nat) : Prop :=
  1 ≤ n ∧ (¬Share clip s.x0 s.y0 s.x1 s.y1 →
    outs clip s.x0 s.y0 + outs clip s.x1 s.y1 + 2 ≤ n)

theorem outs_le (clip : Box) (x y : Int) : outs clip x y ≤ 2 :=
  Nat.add_le_add (out_le ..) (out_le ..)

/-- The loop ends, and ends that are accepted lie inside. -/
theorem clipSegment_spec (s : Segment) (h : Enough clip s n) :
    ∃ result, clipSegment clip n s = some result ∧
      ∀ s', result = some s' → clip.Contains s'.x0 s'.y0 ∧ clip.Contains s'.x1 s'.y1 := by
  induction n generalizing s with
  | zero => exact absurd h.1 (by omega)
  | succ n ih =>
      obtain ⟨-, henough⟩ := h
      rw [clipSegment]
      dsimp only
      split
      · next haccept =>
        rw [UInt8.or_eq_zero_iff, outcode_eq_zero, outcode_eq_zero] at haccept
        refine ⟨some s, rfl, fun s' hs' => ?_⟩
        cases hs'
        exact haccept
      · split
        · exact ⟨none, rfl, nofun⟩
        · next haccept hreject =>
          have hnot : ¬Share clip s.x0 s.y0 s.x1 s.y1 := fun h => hreject h.and_ne_zero
          have hrounds := henough hnot
          by_cases hfirst : renderClipComputeOutcode clip s.x0 s.y0 = 0
          · -- the second end moves
            have hinside := outcode_eq_zero.mp hfirst
            have hsecond : renderClipComputeOutcode clip s.x1 s.y1 ≠ 0 := by
              intro hzero
              exact haccept (by rw [hfirst, hzero]; rfl)
            have hnot' : ¬Share clip s.x1 s.y1 s.x0 s.y0 := fun h => hnot h.symm
            obtain ⟨x, y, hpoint, hmoves⟩ := clipPoint_moves (.inr ⟨⟨rfl, rfl, rfl, rfl⟩, hinside⟩)
              hnot' (fun h => hsecond (outcode_eq_zero.mpr h))
            rw [if_neg (not_not.mpr hfirst), hpoint, Option.bind_some, hfirst, if_neg hsecond]
            apply ih
            refine ⟨by omega, fun hshare => ?_⟩
            rcases hmoves.shares_or_closer hnot' with hside | hcloser
            · exact absurd hside.symm hshare
            · dsimp only
              omega
          · obtain ⟨x, y, hpoint, hmoves⟩ := clipPoint_moves (.inl ⟨rfl, rfl, rfl, rfl⟩) hnot
              (fun h => hfirst (outcode_eq_zero.mpr h))
            rw [if_pos hfirst, hpoint, Option.bind_some, if_pos rfl]
            apply ih
            refine ⟨by omega, fun hshare => ?_⟩
            rcases hmoves.shares_or_closer hnot with hside | hcloser
            · exact absurd hside hshare
            · dsimp only
              omega

/-! ## The drawing loop -/

/-- The error term, when `u` steps along x and `v` along y are left. -/
def errorTerm (slope : Slope) (u v : Int) : Int :=
  slope.dx - slope.dy - slope.dx * v + slope.dy * u

/-- Where the drawing loop is: so many steps before its end. -/
structure Along (slope : Slope) (x1 y1 x0 y0 : Int) (u v : Nat) : Prop where
  signX : slope.sx = 1 ∨ slope.sx = -1
  signY : slope.sy = 1 ∨ slope.sy = -1
  endX : x1 = x0 + slope.sx * u
  endY : y1 = y0 + slope.sy * v
  leX : u ≤ slope.dx
  leY : v ≤ slope.dy

theorem Segment.along (s : Segment) :
    Along s.slope s.x1 s.y1 s.x0 s.y0 (s.x1 - s.x0).natAbs (s.y1 - s.y0).natAbs := by
  constructor <;> simp only [Segment.slope]
  · split <;> simp
  · split <;> simp
  · split <;> omega
  · split <;> omega
  · exact (Int.natCast_natAbs _).le
  · exact (Int.natCast_natAbs _).le

section Steps

variable {slope : Slope} {x1 y1 x0 y0 : Int} {u v : Nat}

theorem Along.nonneg (h : Along slope x1 y1 x0 y0 u v) : 0 ≤ slope.dx ∧ 0 ≤ slope.dy := by
  have hx := h.leX
  have hy := h.leY
  omega

/-- No step goes beyond the second end. -/
theorem Along.not_alongX (h : Along slope x1 y1 x0 y0 0 v) (hv : v ≠ 0) :
    ¬2 * errorTerm slope (0 : Nat) v > -slope.dy := by
  obtain ⟨hdx, hdy⟩ := h.nonneg
  have hmul : slope.dx * 1 ≤ slope.dx * v := Int.mul_le_mul_of_nonneg_left (by omega) hdx
  simp only [errorTerm, Int.natCast_zero, Int.mul_zero, Int.mul_one] at hmul ⊢
  omega

theorem Along.not_alongY (h : Along slope x1 y1 x0 y0 u 0) (hu : u ≠ 0) :
    ¬2 * errorTerm slope u (0 : Nat) < slope.dx := by
  obtain ⟨hdx, hdy⟩ := h.nonneg
  have hmul : slope.dy * 1 ≤ slope.dy * u := Int.mul_le_mul_of_nonneg_left (by omega) hdy
  simp only [errorTerm, Int.natCast_zero, Int.mul_zero, Int.mul_one] at hmul ⊢
  omega

/-- Before the second end there is a step. -/
theorem Along.steps (h : Along slope x1 y1 x0 y0 u v) (hne : u ≠ 0 ∨ v ≠ 0) (err : Int) :
    2 * err > -slope.dy ∨ 2 * err < slope.dx := by
  have hx := h.leX
  have hy := h.leY
  omega

theorem Along.alongX (h : Along slope x1 y1 x0 y0 (u + 1) v) :
    Along slope x1 y1 (x0 + slope.sx) y0 u v where
  signX := h.signX
  signY := h.signY
  endX := by
    rw [h.endX]
    push_cast
    ring
  endY := h.endY
  leX := by have := h.leX; omega
  leY := h.leY

theorem Along.alongY (h : Along slope x1 y1 x0 y0 u (v + 1)) :
    Along slope x1 y1 x0 (y0 + slope.sy) u v where
  signX := h.signX
  signY := h.signY
  endX := h.endX
  endY := by
    rw [h.endY]
    push_cast
    ring
  leX := h.leX
  leY := by have := h.leY; omega

theorem Along.contains_alongX (h : Along slope x1 y1 x0 y0 (u + 1) v)
    (hfirst : clip.Contains x0 y0) (hlast : clip.Contains x1 y1) :
    clip.Contains (x0 + slope.sx) y0 := by
  have hend := h.endX
  simp only [Box.Contains] at *
  rcases h.signX with hsign | hsign <;> rw [hsign] at hend ⊢ <;> omega

theorem Along.contains_alongY (h : Along slope x1 y1 x0 y0 u (v + 1))
    (hfirst : clip.Contains x0 y0) (hlast : clip.Contains x1 y1) :
    clip.Contains x0 (y0 + slope.sy) := by
  have hend := h.endY
  simp only [Box.Contains] at *
  rcases h.signY with hsign | hsign <;> rw [hsign] at hend ⊢ <;> omega

theorem errorTerm_alongX (slope : Slope) (u v : Nat) :
    errorTerm slope (u + 1 : Nat) v - slope.dy = errorTerm slope u v := by
  simp only [errorTerm]
  push_cast
  ring

theorem errorTerm_alongY (slope : Slope) (u v : Nat) :
    errorTerm slope u (v + 1 : Nat) + slope.dx = errorTerm slope u v := by
  simp only [errorTerm]
  push_cast
  ring

/-- Nothing is left exactly at the second end. -/
theorem Along.at_end (h : Along slope x1 y1 x0 y0 u v) :
    (x0 = x1 ∧ y0 = y1) ↔ u = 0 ∧ v = 0 := by
  have hx := h.endX
  have hy := h.endY
  rcases h.signX with hsx | hsx <;> rcases h.signY with hsy | hsy <;> rw [hsx] at hx <;>
    rw [hsy] at hy <;> omega

end Steps

/-- The loop ends at the second end; all pixels lie in every box with both ends. -/
theorem linePixels_spec {slope : Slope} {x1 y1 x0 y0 : Int} {u v : Nat} (n : Nat)
    (h : Along slope x1 y1 x0 y0 u v) (hn : u + v < n) (hfirst : clip.Contains x0 y0)
    (hlast : clip.Contains x1 y1) :
    ∃ pixels, linePixels slope x1 y1 n x0 y0 (errorTerm slope u v) = some pixels ∧
      pixels.getLast? = some (x1, y1) ∧ ∀ p ∈ pixels, clip.Contains p.1 p.2 := by
  induction n generalizing x0 y0 u v with
  | zero => omega
  | succ n ih =>
      -- what a step from here leads to
      have hstep : ∀ {x0' y0' err' : Int} {u' v' : Nat}, Along slope x1 y1 x0' y0' u' v' →
          u' + v' < n → clip.Contains x0' y0' → err' = errorTerm slope u' v' →
          ∃ pixels, (linePixels slope x1 y1 n x0' y0' err').map ((x0, y0) :: ·) = some pixels ∧
            pixels.getLast? = some (x1, y1) ∧ ∀ p ∈ pixels, clip.Contains p.1 p.2 := by
        intro x0' y0' err' u' v' halong hn hinside herr
        obtain ⟨pixels, hrun, hend, hpixels⟩ := ih halong hn hinside
        refine ⟨(x0, y0) :: pixels, by rw [herr, hrun]; rfl, ?_, ?_⟩
        · rw [List.getLast?_cons, hend]
          rfl
        · intro p hp
          rcases List.mem_cons.mp hp with rfl | hp
          · exact hfirst
          · exact hpixels p hp
      rw [linePixels]
      split
      · next hend =>
        exact ⟨[(x0, y0)], rfl, by simp [hend], by simp [hfirst]⟩
      · next hend =>
        have hne : u ≠ 0 ∨ v ≠ 0 := by
          have := mt h.at_end.mpr hend
          omega
        dsimp only
        by_cases hx : 2 * errorTerm slope u v > -slope.dy
        · obtain ⟨u, rfl⟩ : ∃ u', u = u' + 1 := by
            apply Nat.exists_eq_succ_of_ne_zero
            rintro rfl
            exact h.not_alongX (by omega) hx
          by_cases hy : 2 * errorTerm slope (u + 1 : Nat) v < slope.dx
          · obtain ⟨v, rfl⟩ : ∃ v', v = v' + 1 := by
              apply Nat.exists_eq_succ_of_ne_zero
              rintro rfl
              exact h.not_alongY (by omega) hy
            simp only [if_pos hx, if_pos hy]
            refine hstep h.alongX.alongY (by omega) (h.alongX.contains_alongY
              (h.contains_alongX hfirst hlast) hlast) ?_
            rw [errorTerm_alongX, errorTerm_alongY]
          · simp only [if_pos hx, if_neg hy]
            refine hstep h.alongX (by omega) (h.contains_alongX hfirst hlast) ?_
            rw [errorTerm_alongX, Int.add_zero]
        · have hy := (h.steps hne _).resolve_left hx
          obtain ⟨v, rfl⟩ : ∃ v', v = v' + 1 := by
            apply Nat.exists_eq_succ_of_ne_zero
            rintro rfl
            exact h.not_alongY (by omega) hy
          simp only [if_neg hx, if_pos hy]
          refine hstep h.alongY (by omega) (h.contains_alongY hfirst hlast) ?_
          rw [Int.sub_zero, errorTerm_alongY]

/-- `draw_line` ends: either it writes nothing, or from what is left of the line it writes
pixels inside of the clip rectangle up to the second end. -/
theorem drawLine_ends (clip : Box) (displayBaseX displayBaseY x0 y0 x1 y1 : Int) :
    ∃ enough, ∀ n ≥ enough, ∃ clipped pixels,
      clipSegment clip n ⟨x0 + displayBaseX, y0 + displayBaseY, x1 + displayBaseX,
        y1 + displayBaseY⟩ = some clipped ∧
      drawLine clip displayBaseX displayBaseY n x0 y0 x1 y1 = some pixels ∧
      pixels.getLast? = clipped.map (fun s => (s.x1, s.y1)) ∧
      ∀ p ∈ pixels, clip.Contains p.1 p.2 := by
  refine ⟨6 + (clip.right - clip.left).toNat + (clip.bottom - clip.top).toNat, fun n hn => ?_⟩
  have henough : Enough clip
      ⟨x0 + displayBaseX, y0 + displayBaseY, x1 + displayBaseX, y1 + displayBaseY⟩ n := by
    refine ⟨by omega, fun _ => ?_⟩
    dsimp only
    have hfirst := outs_le clip (x0 + displayBaseX) (y0 + displayBaseY)
    have hsecond := outs_le clip (x1 + displayBaseX) (y1 + displayBaseY)
    omega
  obtain ⟨clipped, hclip, hinside⟩ := clipSegment_spec
    ⟨x0 + displayBaseX, y0 + displayBaseY, x1 + displayBaseX, y1 + displayBaseY⟩ henough
  rw [drawLine, hclip]
  cases clipped with
  | none => exact ⟨none, [], rfl, rfl, rfl, nofun⟩
  | some s =>
      obtain ⟨hfirst, hlast⟩ := hinside s rfl
      have hrounds : (s.x1 - s.x0).natAbs + (s.y1 - s.y0).natAbs < n := by
        simp only [Box.Contains] at hfirst hlast
        omega
      obtain ⟨pixels, hrun, hend, hpixels⟩ := linePixels_spec n s.along hrounds hfirst hlast
      refine ⟨some s, pixels, rfl, ?_, hend, hpixels⟩
      have herr : s.slope.dx - s.slope.dy =
          errorTerm s.slope (s.x1 - s.x0).natAbs (s.y1 - s.y0).natAbs := by
        rw [errorTerm, Int.natCast_natAbs, Int.natCast_natAbs]
        simp only [Segment.slope]
        ring
      simp only [Option.bind_eq_bind, Option.bind_some, herr]
      exact hrun

example : drawLine ⟨0, 0, 4, 4⟩ 0 0 9 (-2) 1 2 1 = some [(0, 1), (1, 1), (2, 1)] := by decide

end AvrKernel.Display

import KmsDrm.Lib.Int32

/-!
# Rectangles

Rotation and clipping of rectangles, from `drm_rect.c`. The coordinates are integers; a difference
of two coordinates is stored to an `int` where the source does so.

## Main results

* `rotate_inv_rotate` — `drm_rect_rotate_inv` undoes `drm_rect_rotate`.
* `clip_scaled_spec` — what `drm_rect_clip_scaled` does to the two rectangles.
-/

namespace KmsDrm

open Lib (toInt32 toInt32_eq)

/-- `struct drm_rect`. -/
@[ext]
structure Rect where
  x1 : ℤ
  y1 : ℤ
  x2 : ℤ
  y2 : ℤ
  deriving DecidableEq

namespace Rect

/-! ## Rotation -/

/-- The rotation in `DRM_MODE_ROTATE_MASK`; a value that is none of the four is as the first. -/
inductive Angle
  | rotate0
  | rotate90
  | rotate180
  | rotate270

/-- The case that the switches take. -/
def angle (rotation : BitVec 32) : Angle :=
  match (rotation &&& 0xf).toNat with
  | 2 => .rotate90
  | 4 => .rotate180
  | 8 => .rotate270
  | _ => .rotate0

section Rotation

variable (r : Rect) (width height : ℤ) (rotation : BitVec 32)

/-- The reflections `DRM_MODE_REFLECT_X` and `DRM_MODE_REFLECT_Y`. -/
def reflect : Rect :=
  let r := if rotation.getLsbD 4 then { r with x1 := width - r.x2, x2 := width - r.x1 } else r
  if rotation.getLsbD 5 then { r with y1 := height - r.y2, y2 := height - r.y1 } else r

/-- `drm_rect_rotate`. -/
def rotate : Rect :=
  let r := r.reflect width height rotation
  match angle rotation with
  | .rotate0 => r
  | .rotate90 => ⟨r.y1, width - r.x2, r.y2, width - r.x1⟩
  | .rotate180 => ⟨width - r.x2, height - r.y2, width - r.x1, height - r.y1⟩
  | .rotate270 => ⟨height - r.y2, r.x1, height - r.y1, r.x2⟩

/-- `drm_rect_rotate_inv`. -/
def rotateInv : Rect :=
  let r : Rect := match angle rotation with
    | .rotate0 => r
    | .rotate90 => ⟨width - r.y2, r.x1, width - r.y1, r.x2⟩
    | .rotate180 => ⟨width - r.x2, height - r.y2, width - r.x1, height - r.y1⟩
    | .rotate270 => ⟨r.y1, height - r.x2, r.y2, height - r.x1⟩
  r.reflect width height rotation

lemma reflect_reflect : (r.reflect width height rotation).reflect width height rotation = r := by
  unfold reflect
  split_ifs <;> simp

/-- **The inverse of a rotation.** -/
theorem rotate_inv_rotate :
    (r.rotate width height rotation).rotateInv width height rotation = r := by
  unfold rotate rotateInv
  refine Eq.trans ?_ (reflect_reflect r width height rotation)
  cases angle rotation <;> ext <;> simp

end Rotation

/-! ## Clipping -/

/-- `drm_rect_visible`. -/
def visible (r : Rect) : Bool := decide (0 < toInt32 (r.x2 - r.x1) ∧ 0 < toInt32 (r.y2 - r.y1))

/-- `drm_rect_intersect`. -/
def intersect (r1 r2 : Rect) : Rect × Bool :=
  let r : Rect := ⟨max r1.x1 r2.x1, max r1.y1 r2.y1, min r1.x2 r2.x2, min r1.y2 r2.y2⟩
  (r, r.visible)

/-- `clamp_t` to the values of type `int`. -/
def clampInt (x : ℤ) : ℤ := max (-2 ^ 31) (min (2 ^ 31 - 1) x)

/-- An edge of the source, `diff` having been clipped from the edge of the destination. -/
def moveEdge (x diff scale : ℤ) : ℤ :=
  if 0 < toInt32 diff then clampInt (x + toInt32 diff * scale) else x

/-- `drm_rect_clip_scaled`. -/
def clipScaled (src dst clip : Rect) (hscale vscale : ℤ) : Rect × Rect × Bool :=
  (⟨moveEdge src.x1 (clip.x1 - dst.x1) hscale, moveEdge src.y1 (clip.y1 - dst.y1) vscale,
    moveEdge src.x2 (dst.x2 - clip.x2) (-hscale), moveEdge src.y2 (dst.y2 - clip.y2) (-vscale)⟩,
    dst.intersect clip)

/-- The coordinates are values of type `int`. -/
def InRange (r : Rect) : Prop := ∀ x ∈ [r.x1, r.y1, r.x2, r.y2], -2 ^ 31 ≤ x ∧ x < 2 ^ 31

/-- Two rectangles of positive size in a window of less than `2 ^ 31`. -/
structure Near (r1 r2 : Rect) : Prop where
  pos : r1.x1 < r1.x2 ∧ r1.y1 < r1.y2 ∧ r2.x1 < r2.x2 ∧ r2.y1 < r2.y2
  width : max r1.x2 r2.x2 - min r1.x1 r2.x1 < 2 ^ 31
  height : max r1.y2 r2.y2 - min r1.y1 r2.y1 < 2 ^ 31

lemma moveEdge_eq {x diff scale : ℤ} (hlo : -2 ^ 31 ≤ diff) (hhi : diff < 2 ^ 31)
    (hx : -2 ^ 31 ≤ x ∧ x < 2 ^ 31) :
    moveEdge x diff scale = clampInt (x + max 0 diff * scale) := by
  rw [moveEdge, toInt32_eq hlo hhi]
  split_ifs with hpos
  · rw [max_eq_right hpos.le]
  · rw [max_eq_left (not_lt.1 hpos), clampInt]
    omega

/-- The edges of the source on one axis, if what is left of the destination is visible. -/
lemma clampInt_lt {s1 s2 d1 d2 c1 c2 scale : ℤ} (h1 : -2 ^ 31 ≤ s1) (h2 : s2 < 2 ^ 31)
    (hscale : 0 < scale) (hvis : max d1 c1 < min d2 c2) (hfit : scale * (d2 - d1) ≤ s2 - s1) :
    clampInt (s1 + max 0 (c1 - d1) * scale) < clampInt (s2 + max 0 (d2 - c2) * -scale) := by
  have hlt : max 0 (c1 - d1) + max 0 (d2 - c2) < d2 - d1 := by omega
  have hmul := mul_lt_mul_of_pos_right hlt hscale
  have hleft := mul_nonneg (le_max_left 0 (c1 - d1)) hscale.le
  have hright := mul_nonneg (le_max_left 0 (d2 - c2)) hscale.le
  rw [add_mul, mul_comm (d2 - d1)] at hmul
  rw [mul_neg, clampInt, clampInt]
  omega

/-- **Clipping with a scale.** The destination becomes the intersection, and the result says whether
it is visible. Each edge of the source moves by what is clipped from the edge of the destination,
times the scale, and is clamped. The edges do not meet while the destination is visible, if the
scale is at most that of the two rectangles. -/
theorem clip_scaled_spec (src dst clip : Rect) (hscale vscale : ℤ) (hsrc : src.InRange)
    (hnear : dst.Near clip) (hh : 0 < hscale) (hv : 0 < vscale) :
    ∃ src' dst' vis, clipScaled src dst clip hscale vscale = (src', dst', vis) ∧
      dst' = ⟨max dst.x1 clip.x1, max dst.y1 clip.y1, min dst.x2 clip.x2, min dst.y2 clip.y2⟩ ∧
      (vis = true ↔ dst'.x1 < dst'.x2 ∧ dst'.y1 < dst'.y2) ∧
      src' = ⟨clampInt (src.x1 + max 0 (clip.x1 - dst.x1) * hscale),
        clampInt (src.y1 + max 0 (clip.y1 - dst.y1) * vscale),
        clampInt (src.x2 + max 0 (dst.x2 - clip.x2) * -hscale),
        clampInt (src.y2 + max 0 (dst.y2 - clip.y2) * -vscale)⟩ ∧
      (vis = true → hscale * (dst.x2 - dst.x1) ≤ src.x2 - src.x1 →
        vscale * (dst.y2 - dst.y1) ≤ src.y2 - src.y1 →
        src'.x1 < src'.x2 ∧ src'.y1 < src'.y2) := by
  obtain ⟨hpos, hwidth, hheight⟩ := hnear
  simp only [InRange, List.forall_mem_cons] at hsrc
  obtain ⟨hx1, hy1, hx2, hy2, -⟩ := hsrc
  have hvis : (dst.intersect clip).2 = true ↔
      max dst.x1 clip.x1 < min dst.x2 clip.x2 ∧ max dst.y1 clip.y1 < min dst.y2 clip.y2 := by
    simp only [intersect, visible, decide_eq_true_eq]
    rw [toInt32_eq (by omega) (by omega), toInt32_eq (by omega) (by omega)]
    omega
  rw [clipScaled, moveEdge_eq (by omega) (by omega) hx1, moveEdge_eq (by omega) (by omega) hy1,
    moveEdge_eq (by omega) (by omega) hx2, moveEdge_eq (by omega) (by omega) hy2]
  refine ⟨_, _, _, rfl, rfl, hvis, rfl, fun h hwfit hhfit => ?_⟩
  obtain ⟨hx, hy⟩ := hvis.1 h
  exact ⟨clampInt_lt hx1.1 hx2.2 hh hx hwfit, clampInt_lt hy1.1 hy2.2 hv hy hhfit⟩

theorem clip_scaled_spec_half : ∃ src' dst' vis,
    clipScaled ⟨0, 0, 4, 4⟩ ⟨0, 0, 4, 4⟩ ⟨2, 0, 4, 4⟩ 1 1 = (src', dst', vis) ∧ vis = true ∧
      src'.x1 < src'.x2 := by
  obtain ⟨src', dst', vis, heq, rfl, hvis, -, hlt⟩ := clip_scaled_spec ⟨0, 0, 4, 4⟩ ⟨0, 0, 4, 4⟩
    ⟨2, 0, 4, 4⟩ 1 1 (by simp [InRange]) ⟨by simp, by simp, by simp⟩ one_pos one_pos
  have h := hvis.2 (by simp)
  exact ⟨src', _, vis, heq, h, (hlt h (by simp) (by simp)).1⟩

/-- **Where clipping fails.** A scale that is larger than that of the rectangles turns the source
over, and the width of an empty intersection can be a positive `int`. -/
theorem clip_scaled_inverted :
    clipScaled ⟨0, 0, 1, 1⟩ ⟨0, 0, 4, 4⟩ ⟨2, 0, 4, 4⟩ 1 1 = (⟨2, 0, 1, 1⟩, ⟨2, 0, 4, 4⟩, true) ∧
    (clipScaled ⟨0, 0, 1, 1⟩ ⟨-2 ^ 31, 0, 1 - 2 ^ 31, 1⟩ ⟨2 ^ 31 - 2, 0, 2 ^ 31 - 1, 1⟩ 1 1).2 =
      (⟨2 ^ 31 - 2, 0, 1 - 2 ^ 31, 1⟩, true) := by
  decide

end Rect

end KmsDrm

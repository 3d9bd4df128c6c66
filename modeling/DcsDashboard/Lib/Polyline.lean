/-
# Polylines

A polyline is the list of its vertices, in a normed space.  `Travelled points d q` says that who
walks along it from its first vertex is at `q` after the distance `d`; vertices may repeat, and the
polyline may cross itself.  The distance determines the point (`Travelled.unique`), whatever the
walk is divided into.

The point of a segment closest to a given one is its projection, clamped to the segment
(`isLeast_dist_segment`).
-/
import Mathlib.Analysis.InnerProductSpace.Basic
import Mathlib.Analysis.Normed.Group.AddTorsor
import Mathlib.Analysis.Convex.Segment

namespace DcsDashboard.Lib

open AffineMap

/-! ## 1. Legs -/

/-- The legs of a polyline: each vertex with the next one. -/
def legs {α : Type*} : List α → List (α × α)
  | a :: b :: rest => (a, b) :: legs (b :: rest)
  | _ => []

/-! ## 2. Travelling -/

section Travelling

variable {V : Type*} [NormedAddCommGroup V]

/-- The length of a polyline. -/
noncomputable def polylineLength : List V → ℝ
  | a :: b :: rest => dist a b + polylineLength (b :: rest)
  | _ => 0

theorem polylineLength_nonneg (points : List V) : 0 ≤ polylineLength points := by
  induction points with
  | nil => exact le_rfl
  | cons a rest ih =>
    cases rest with
    | nil => exact le_rfl
    | cons b rest => exact add_nonneg dist_nonneg ih

variable [NormedSpace ℝ V]

/-- After a distance, travelled from the first vertex on, one is at a point. -/
inductive Travelled : List V → ℝ → V → Prop
  | start (a : V) (rest : List V) : Travelled (a :: rest) 0 a
  | within {a b : V} {rest : List V} {t : ℝ} : 0 ≤ t → t ≤ 1 →
      Travelled (a :: b :: rest) (t * dist a b) (lineMap a b t)
  | beyond {a b q : V} {rest : List V} {d : ℝ} : Travelled (b :: rest) d q →
      Travelled (a :: b :: rest) (dist a b + d) q

variable {points rest : List V} {a b q q' : V} {d : ℝ}

theorem Travelled.nonneg (h : Travelled points d q) : 0 ≤ d := by
  induction h with
  | start => exact le_rfl
  | within h0 => exact mul_nonneg h0 dist_nonneg
  | beyond _ ih => exact add_nonneg dist_nonneg ih

/-- Who has not travelled is at the first vertex. -/
theorem Travelled.eq_head (h : Travelled (a :: rest) d q) (hd : d = 0) : q = a := by
  generalize hpoints : a :: rest = points at h
  induction h generalizing a rest with
  | start a' rest' =>
    obtain ⟨rfl, -⟩ := List.cons.inj hpoints
    rfl
  | @within a' b' rest' t _ _ =>
    obtain ⟨rfl, -⟩ := List.cons.inj hpoints
    rcases mul_eq_zero.mp hd with rfl | hsame
    · exact lineMap_apply_zero _ _
    · rw [← dist_eq_zero.mp hsame, lineMap_same_apply]
  | @beyond a' b' q rest' d htravelled ih =>
    obtain ⟨rfl, -⟩ := List.cons.inj hpoints
    obtain ⟨hleg, hzero⟩ := (add_eq_zero_iff_of_nonneg dist_nonneg htravelled.nonneg).mp hd
    rw [ih hzero rfl, dist_eq_zero.mp hleg]

/-- A point of the first leg, or one beyond it. -/
theorem Travelled.leg_or_beyond (h : Travelled (a :: b :: rest) d q) :
    (∃ t, 0 ≤ t ∧ t ≤ 1 ∧ d = t * dist a b ∧ q = lineMap a b t) ∨
      ∃ e, Travelled (b :: rest) e q ∧ d = dist a b + e := by
  cases h with
  | start =>
    exact .inl ⟨0, le_rfl, zero_le_one, (zero_mul _).symm, (lineMap_apply_zero _ _).symm⟩
  | within h0 h1 => exact .inl ⟨_, h0, h1, rfl, rfl⟩
  | beyond h => exact .inr ⟨_, h, rfl⟩

/-- Where a leg has been travelled and nothing beyond it, one is at its end. -/
theorem lineMap_eq_right {t e : ℝ} (h1 : t ≤ 1) (he : 0 ≤ e) (h : t * dist a b = dist a b + e) :
    e = 0 ∧ lineMap a b t = b := by
  have hle : t * dist a b ≤ dist a b := mul_le_of_le_one_left dist_nonneg h1
  have hzero : e = 0 := le_antisymm (by linarith) he
  refine ⟨hzero, ?_⟩
  rw [hzero, add_zero] at h
  rcases mul_left_eq_self₀.mp h with rfl | hsame
  · exact lineMap_apply_one _ _
  · rw [← dist_eq_zero.mp hsame, lineMap_same_apply]

/-- **The distance determines the point.** -/
theorem Travelled.unique (h : Travelled points d q) (h' : Travelled points d q') : q = q' := by
  induction points generalizing d with
  | nil => cases h
  | cons a rest ih =>
    cases rest with
    | nil =>
      cases h
      exact (h'.eq_head rfl).symm
    | cons b rest =>
      rcases h.leg_or_beyond with ⟨t, -, h1, rfl, rfl⟩ | ⟨e, he, rfl⟩ <;>
        rcases h'.leg_or_beyond with ⟨t', -, h1', hd, rfl⟩ | ⟨e', he', hd⟩
      · rcases mul_eq_mul_right_iff.mp hd with rfl | hsame
        · rfl
        · rw [dist_eq_zero.mp hsame, lineMap_same_apply, lineMap_same_apply]
      · obtain ⟨hzero, hend⟩ := lineMap_eq_right h1 he'.nonneg hd
        rw [hend, he'.eq_head hzero]
      · obtain ⟨hzero, hend⟩ := lineMap_eq_right h1' he.nonneg hd.symm
        rw [hend, he.eq_head hzero]
      · rw [add_left_cancel hd] at he
        exact ih he he'

/-- The whole length leads to the last vertex. -/
theorem travelled_length (hne : points ≠ []) :
    Travelled points (polylineLength points) (points.getLast hne) := by
  induction points with
  | nil => exact absurd rfl hne
  | cons a rest ih =>
    cases rest with
    | nil => exact .start a []
    | cons b rest => exact .beyond (ih (by simp))

end Travelling

/-! ## 3. The closest point of a segment -/

section Closest

variable {V : Type*} [NormedAddCommGroup V] [InnerProductSpace ℝ V]

/-- Where on the line through `a` and `b` a point projects to, clamped to the segment. -/
noncomputable def clampedProjection (p a b : V) : ℝ :=
  min 1 (max 0 (inner ℝ (p - a) (b - a) / ‖b - a‖ ^ 2))

/-- Of the numbers between 0 and 1 the clamped one is closest. -/
theorem abs_clamp_sub_le {s : ℝ} (h0 : 0 ≤ s) (h1 : s ≤ 1) (x : ℝ) :
    |min 1 (max 0 x) - x| ≤ |s - x| := by
  rcases le_total x 0 with hx | hx
  · rw [max_eq_left hx, min_eq_right zero_le_one, abs_of_nonneg (by linarith),
      abs_of_nonneg (by linarith)]
    linarith
  · rw [max_eq_right hx]
    rcases le_total x 1 with hx1 | hx1
    · rw [min_eq_right hx1, sub_self, abs_zero]
      exact abs_nonneg _
    · rw [min_eq_left hx1, abs_of_nonpos (by linarith), abs_of_nonpos (by linarith)]
      linarith

/-- The square of the distance to a point of the line, completed. -/
theorem dist_lineMap_sq (p a b : V) (hne : a ≠ b) (s : ℝ) :
    dist p (lineMap a b s) ^ 2 =
      ‖b - a‖ ^ 2 * (s - inner ℝ (p - a) (b - a) / ‖b - a‖ ^ 2) ^ 2 +
        (‖p - a‖ ^ 2 - inner ℝ (p - a) (b - a) ^ 2 / ‖b - a‖ ^ 2) := by
  have hnorm : ‖b - a‖ ^ 2 ≠ 0 := pow_ne_zero 2 (norm_ne_zero_iff.mpr (sub_ne_zero.mpr hne.symm))
  have hsplit : p - lineMap a b s = (p - a) - s • (b - a) := by
    rw [lineMap_apply_module', sub_add_eq_sub_sub, sub_right_comm]
  rw [dist_eq_norm, hsplit, norm_sub_sq_real, real_inner_smul_right, norm_smul, mul_pow,
    Real.norm_eq_abs, sq_abs]
  generalize ‖b - a‖ ^ 2 = length at hnorm ⊢
  field_simp
  ring

/-- **The clamped projection is the closest point** of the segment. -/
theorem isLeast_dist_segment (p a b : V) :
    IsLeast (dist p '' segment ℝ a b) (dist p (lineMap a b (clampedProjection p a b))) := by
  have hclamped : 0 ≤ clampedProjection p a b ∧ clampedProjection p a b ≤ 1 :=
    ⟨le_min zero_le_one (le_max_left _ _), min_le_left _ _⟩
  rw [segment_eq_image_lineMap]
  refine ⟨⟨_, ⟨_, hclamped, rfl⟩, rfl⟩, ?_⟩
  rintro _ ⟨_, ⟨s, ⟨h0, h1⟩, rfl⟩, rfl⟩
  rcases eq_or_ne a b with rfl | hne
  · rw [lineMap_same_apply, lineMap_same_apply]
  · refine le_of_sq_le_sq ?_ dist_nonneg
    rw [dist_lineMap_sq p a b hne, dist_lineMap_sq p a b hne]
    have hclose := sq_le_sq.mpr (abs_clamp_sub_le h0 h1 (inner ℝ (p - a) (b - a) / ‖b - a‖ ^ 2))
    exact add_le_add_left (mul_le_mul_of_nonneg_left hclose (sq_nonneg _)) _

end Closest

end DcsDashboard.Lib

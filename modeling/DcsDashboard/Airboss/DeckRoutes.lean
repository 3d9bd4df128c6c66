/-
# Taxi routes

`deckRoutes.ts`: a launch route is a polyline on the deck.  The page moves a light along it
(`deckRoutePointAtProgress`) and finds the route an aircraft is closest to (`nearestLaunchRoute`).

In exact arithmetic the light is where a walk along the route is after its share of the length
(`deckRoutePointAtProgress_travels`), also where points of the route repeat.  JavaScript does not
stop at a division by zero; here it is a fault, and there is none.
-/
import DcsDashboard.Airboss.DeckPosition
import DcsDashboard.Lib.Polyline
import Mathlib.Analysis.CStarAlgebra.Classes

namespace DcsDashboard.Airboss.DeckRoutes

open Lib DeckTracking AffineMap

/-! ## 1. Routes -/

/-- `DeckLaunchRoute`. -/
structure DeckLaunchRoute (R : Type*) where
  id : String
  startTermIndex : ℤ
  launchTermIndex : ℤ
  label : String
  points : List (DeckPosition R)

/-- What must not happen to a number. -/
inductive Fault
  | divisionByZero

section Routes

variable {R : Type*} [Field R] [LinearOrder R] [LuaMath R]

omit [LinearOrder R] in
/-- `Math.hypot(a, b)`. -/
def hypot (a b : R) : R := LuaMath.sqrt (a ^ 2 + b ^ 2)

omit [LuaMath R] in
/-- `a / b`. -/
def divide (a b : R) : Except Fault R :=
  if b = 0 then .error .divisionByZero else .ok (a / b)

omit [LuaMath R] in
/-- `Math.min(1, Math.max(0, x))`. -/
def clamped (x : R) : R := min 1 (max 0 x)

omit [LinearOrder R] in
/-- The length of a segment. -/
def segmentLength (segment : DeckPosition R × DeckPosition R) : R :=
  hypot (segment.2.fwd - segment.1.fwd) (segment.2.right - segment.1.right)

omit [LinearOrder R] in
/-- The loop that measures the segments: `segmentLengths` and `totalLength`. -/
def measured (points : List (DeckPosition R)) : List R × R :=
  (legs points).foldl (fun (segmentLengths, totalLength) segment =>
    (segmentLengths ++ [segmentLength segment], totalLength + segmentLength segment)) ([], 0)

omit [LuaMath R] in
/-- `segmentProgress`, of what is travelled of a segment. -/
def segmentProgress (travelled segmentLength : R) : Except Fault R :=
  if segmentLength = 0 then return 0 else divide travelled segmentLength

omit [LuaMath R] in
/-- The loop that finds the segment of a distance, from the segments and their lengths that are
left. -/
def pointAlong (targetDistance : R) (last : Option (DeckPosition R)) :
    List (DeckPosition R × DeckPosition R) → List R → R → Except Fault (Option (DeckPosition R))
  | (start, stop) :: segments, segmentLength :: segmentLengths, traversedDistance =>
    if targetDistance ≤ traversedDistance + segmentLength ∨ segmentLengths.length = 0 then do
      let segmentProgress ← segmentProgress (targetDistance - traversedDistance) segmentLength
      return some
        { fwd := start.fwd + (stop.fwd - start.fwd) * segmentProgress
          right := start.right + (stop.right - start.right) * segmentProgress }
    else pointAlong targetDistance last segments segmentLengths (traversedDistance + segmentLength)
  | _, _, _ => return last

/-- `deckRoutePointAtProgress`. -/
def deckRoutePointAtProgress (route : DeckLaunchRoute R) (progress : R) :
    Except Fault (Option (DeckPosition R)) :=
  match route.points with
  | [] => return none
  | [point] => return some point
  | first :: second :: rest =>
    let points := first :: second :: rest
    let (segmentLengths, totalLength) := measured points
    if totalLength = 0 then return some first
    else pointAlong (clamped progress * totalLength) points.getLast? (legs points) segmentLengths 0

/-- `distanceToSegment`. -/
def distanceToSegment (point start stop : DeckPosition R) : R :=
  let segmentFwd := stop.fwd - start.fwd
  let segmentRight := stop.right - start.right
  let lengthSquared := segmentFwd ^ 2 + segmentRight ^ 2
  if lengthSquared = 0 then hypot (point.fwd - start.fwd) (point.right - start.right)
  else
    let projection := clamped (((point.fwd - start.fwd) * segmentFwd +
      (point.right - start.right) * segmentRight) / lengthSquared)
    hypot (point.fwd - (start.fwd + projection * segmentFwd))
      (point.right - (start.right + projection * segmentRight))

/-- One round of the search: `nearestRoute` and `nearestDistance` after a segment of a route. -/
def nearer (position : DeckPosition R) (candidate : DeckLaunchRoute R)
    (nearest : Option (DeckLaunchRoute R) × R) (segment : DeckPosition R × DeckPosition R) :
    Option (DeckLaunchRoute R) × R :=
  let distance := distanceToSegment position segment.1 segment.2
  if distance < nearest.2 then (some candidate, distance) else nearest

/-- `nearestLaunchRoute`. -/
def nearestLaunchRoute (routes : List (DeckLaunchRoute R)) (position : DeckPosition R)
    (maximumDistanceMeters : R) : Option (DeckLaunchRoute R) :=
  (routes.foldl (fun nearest candidate =>
    (legs candidate.points).foldl (nearer position candidate) nearest)
    (none, maximumDistanceMeters)).1

end Routes

/-! ## 2. The deck as a plane -/

/-- A position as a point of the plane. -/
def toPlane (position : DeckPosition ℝ) : ℂ := ⟨position.fwd, position.right⟩

theorem toPlane_injective : Function.Injective toPlane := by
  rintro ⟨fwd, right⟩ ⟨fwd', right'⟩ h
  obtain ⟨hfwd, hright⟩ := Complex.ext_iff.mp h
  exact DeckPosition.mk.injEq _ _ _ _ ▸ ⟨hfwd, hright⟩

/-- A distance on the deck. -/
theorem hypot_eq_dist (p q : DeckPosition ℝ) :
    hypot (p.fwd - q.fwd) (p.right - q.right) = dist (toPlane p) (toPlane q) :=
  (Complex.dist_eq_re_im (toPlane p) (toPlane q)).symm

theorem segmentLength_eq_dist (segment : DeckPosition ℝ × DeckPosition ℝ) :
    segmentLength segment = dist (toPlane segment.1) (toPlane segment.2) := by
  rw [segmentLength, hypot_eq_dist, dist_comm]

/-- A point between two positions. -/
theorem toPlane_between (start stop : DeckPosition ℝ) (t : ℝ) :
    toPlane { fwd := start.fwd + (stop.fwd - start.fwd) * t
              right := start.right + (stop.right - start.right) * t } =
      lineMap (toPlane start) (toPlane stop) t := by
  rw [lineMap_apply_module']
  refine Complex.ext ?_ ?_
  · simp [toPlane]
    ring
  · simp [toPlane]
    ring

/-! ## 3. The light on a route -/

theorem foldl_measured (points : List (DeckPosition ℝ)) (segmentLengths : List ℝ)
    (totalLength : ℝ) :
    (legs points).foldl (fun (segmentLengths, totalLength) segment =>
        (segmentLengths ++ [segmentLength segment], totalLength + segmentLength segment))
        (segmentLengths, totalLength) =
      (segmentLengths ++ (legs points).map segmentLength,
        totalLength + polylineLength (points.map toPlane)) := by
  induction points generalizing segmentLengths totalLength with
  | nil => simp [legs, polylineLength]
  | cons a rest ih =>
    cases rest with
    | nil => simp [legs, polylineLength]
    | cons b rest =>
      rw [legs, List.foldl_cons, ih, segmentLength_eq_dist]
      simp [polylineLength, segmentLength_eq_dist, add_assoc]

/-- The loop measures the segments and the whole route. -/
theorem measured_eq (points : List (DeckPosition ℝ)) :
    measured points = ((legs points).map segmentLength, polylineLength (points.map toPlane)) := by
  rw [measured, foldl_measured, List.nil_append, zero_add]

/-- **A point of the first segment that is left.** -/
theorem travelled_within {a b : DeckPosition ℝ} (rest : List (DeckPosition ℝ)) {distance : ℝ}
    (h0 : 0 ≤ distance) (h1 : distance ≤ segmentLength (a, b)) :
    ∃ t, segmentProgress distance (segmentLength (a, b)) = .ok t ∧
      Travelled ((a :: b :: rest).map toPlane) distance
        (lineMap (toPlane a) (toPlane b) t) := by
  by_cases hzero : segmentLength (a, b) = 0
  · -- nothing has been travelled, and nothing can be on a segment without length
    have hstart : distance = 0 := le_antisymm (hzero ▸ h1) h0
    refine ⟨0, if_pos hzero, ?_⟩
    rw [hstart, lineMap_apply_zero]
    exact .start _ _
  · have hpos : 0 < segmentLength (a, b) := lt_of_le_of_ne (h0.trans h1) (Ne.symm hzero)
    refine ⟨distance / segmentLength (a, b), ?_, ?_⟩
    · rw [segmentProgress, if_neg hzero, divide, if_neg hzero]
    · have htravelled : Travelled (toPlane a :: toPlane b :: rest.map toPlane)
          (distance / segmentLength (a, b) * dist (toPlane a) (toPlane b))
          (lineMap (toPlane a) (toPlane b) (distance / segmentLength (a, b))) :=
        .within (div_nonneg h0 hpos.le) ((div_le_one hpos).mpr h1)
      rwa [← segmentLength_eq_dist (a, b), div_mul_cancel₀ _ hzero] at htravelled

/-- **The loop walks along what is left of the route.** -/
theorem pointAlong_travels {a b : DeckPosition ℝ} {rest : List (DeckPosition ℝ)}
    {target traversed : ℝ} (last : Option (DeckPosition ℝ)) (h0 : traversed ≤ target)
    (h1 : target ≤ traversed + polylineLength ((a :: b :: rest).map toPlane)) :
    ∃ point, pointAlong target last (legs (a :: b :: rest))
        ((legs (a :: b :: rest)).map segmentLength) traversed = .ok (some point) ∧
      Travelled ((a :: b :: rest).map toPlane) (target - traversed) (toPlane point) := by
  induction rest generalizing a b traversed with
  | nil =>
    have hwithin : target - traversed ≤ segmentLength (a, b) := by
      rw [segmentLength_eq_dist]
      simpa [polylineLength, add_comm] using h1
    obtain ⟨t, ht, htravelled⟩ := travelled_within [] (sub_nonneg.mpr h0) hwithin
    refine ⟨_, ?_, toPlane_between a b t ▸ htravelled⟩
    simp only [legs, List.map_cons, List.map_nil, pointAlong, List.length_nil, or_true, if_true, ht]
    rfl
  | cons c rest ih =>
    by_cases hwithin : target ≤ traversed + segmentLength (a, b)
    · obtain ⟨t, ht, htravelled⟩ := travelled_within (c :: rest) (sub_nonneg.mpr h0)
        (sub_le_iff_le_add'.mpr hwithin)
      refine ⟨_, ?_, toPlane_between a b t ▸ htravelled⟩
      simp only [legs, List.map_cons, pointAlong, hwithin, true_or, if_true, ht]
      rfl
    · have hrest : target ≤ traversed + segmentLength (a, b) +
          polylineLength ((b :: c :: rest).map toPlane) := by
        rw [segmentLength_eq_dist, add_assoc]
        exact h1
      obtain ⟨point, hpoint, htravelled⟩ := ih (not_le.mp hwithin).le hrest
      refine ⟨point, ?_, ?_⟩
      · rw [legs, List.map_cons, pointAlong, if_neg (by simp [hwithin, legs])]
        exact hpoint
      · have hbeyond := Travelled.beyond (a := toPlane a) htravelled
        rw [segmentLength_eq_dist] at hbeyond
        rwa [show target - traversed = dist (toPlane a) (toPlane b) +
          (target - (traversed + dist (toPlane a) (toPlane b))) by ring]

theorem clamped_nonneg (x : ℝ) : 0 ≤ clamped x := le_min zero_le_one (le_max_left _ _)

theorem clamped_le_one (x : ℝ) : clamped x ≤ 1 := min_le_left _ _

/-- **The light is where a walk along the route is.** -/
theorem deckRoutePointAtProgress_travelled {route : DeckLaunchRoute ℝ} (hne : route.points ≠ [])
    (progress : ℝ) :
    ∃ point, deckRoutePointAtProgress route progress = .ok (some point) ∧
      Travelled (route.points.map toPlane)
        (clamped progress * polylineLength (route.points.map toPlane)) (toPlane point) := by
  obtain ⟨id, start, launch, label, points⟩ := route
  simp only at hne ⊢
  rcases points with _ | ⟨a, _ | ⟨b, rest⟩⟩
  · exact absurd rfl hne
  · refine ⟨a, rfl, ?_⟩
    simp only [List.map_cons, List.map_nil, polylineLength, mul_zero]
    exact .start _ _
  · simp only [deckRoutePointAtProgress, measured_eq]
    by_cases hzero : polylineLength ((a :: b :: rest).map toPlane) = 0
    · refine ⟨a, if_pos hzero, ?_⟩
      rw [hzero, mul_zero]
      exact .start _ _
    · have hlength := polylineLength_nonneg ((a :: b :: rest).map toPlane)
      have hend : clamped progress * polylineLength ((a :: b :: rest).map toPlane) ≤
          0 + polylineLength ((a :: b :: rest).map toPlane) := by
        simpa using mul_le_of_le_one_left hlength (clamped_le_one progress)
      obtain ⟨point, hpoint, htravelled⟩ := pointAlong_travels (a :: b :: rest).getLast?
        (mul_nonneg (clamped_nonneg progress) hlength) hend
      refine ⟨point, (if_neg hzero).trans hpoint, ?_⟩
      rwa [sub_zero] at htravelled

/-- Nothing else is there. -/
theorem deckRoutePointAtProgress_eq {route : DeckLaunchRoute ℝ} (hne : route.points ≠ [])
    {progress : ℝ} {point : DeckPosition ℝ}
    (h : Travelled (route.points.map toPlane)
      (clamped progress * polylineLength (route.points.map toPlane)) (toPlane point)) :
    deckRoutePointAtProgress route progress = .ok (some point) := by
  obtain ⟨point', hpoint, htravelled⟩ := deckRoutePointAtProgress_travelled hne progress
  rw [hpoint, toPlane_injective (htravelled.unique h)]

/-- **The light moves by distance.**  Whatever the progress, the light is, without a division by
zero, at the one point that a walk along the route reaches after its share of the length: at the
first point before the start, at the last one after the end, and never earlier with more progress. -/
theorem deckRoutePointAtProgress_travels {route : DeckLaunchRoute ℝ} (hne : route.points ≠ []) :
    (∀ progress, ∃ point, deckRoutePointAtProgress route progress = .ok (some point) ∧
      ∀ q, Travelled (route.points.map toPlane)
        (min 1 (max 0 progress) * polylineLength (route.points.map toPlane)) q ↔
          q = toPlane point) ∧
    (∀ progress ≤ 0, deckRoutePointAtProgress route progress = .ok (some (route.points.head hne))) ∧
    (∀ progress ≥ 1,
      deckRoutePointAtProgress route progress = .ok (some (route.points.getLast hne))) ∧
    ∀ progress progress', progress ≤ progress' → ∃ point point' further,
      deckRoutePointAtProgress route progress = .ok (some point) ∧
        deckRoutePointAtProgress route progress' = .ok (some point') ∧ 0 ≤ further ∧
        Travelled (route.points.map toPlane)
          (min 1 (max 0 progress) * polylineLength (route.points.map toPlane)) (toPlane point) ∧
        Travelled (route.points.map toPlane)
          (min 1 (max 0 progress) * polylineLength (route.points.map toPlane) + further)
          (toPlane point') := by
  refine ⟨?_, ?_, ?_, ?_⟩
  · intro progress
    obtain ⟨point, hpoint, htravelled⟩ := deckRoutePointAtProgress_travelled hne progress
    refine ⟨point, hpoint, ?_⟩
    intro q
    constructor
    · intro h
      exact h.unique htravelled
    · rintro rfl
      exact htravelled
  · intro progress hprogress
    refine deckRoutePointAtProgress_eq hne ?_
    have hclamped : clamped progress = 0 := by
      rw [clamped, max_eq_left hprogress, min_eq_right zero_le_one]
    obtain ⟨id, start, launch, label, points⟩ := route
    obtain ⟨a, rest, rfl⟩ := List.exists_cons_of_ne_nil hne
    rw [hclamped, zero_mul]
    exact .start _ _
  · intro progress hprogress
    refine deckRoutePointAtProgress_eq hne ?_
    have hclamped : clamped progress = 1 := by
      rw [clamped, max_eq_right (zero_le_one.trans hprogress), min_eq_left hprogress]
    have hwalk : route.points.map toPlane ≠ [] := by simpa using hne
    have hlast := travelled_length hwalk
    rw [List.getLast_map] at hlast
    rwa [hclamped, one_mul]
  · intro progress progress' hprogress
    obtain ⟨point, hpoint, htravelled⟩ := deckRoutePointAtProgress_travelled hne progress
    obtain ⟨point', hpoint', htravelled'⟩ := deckRoutePointAtProgress_travelled hne progress'
    have hshare : clamped progress * polylineLength (route.points.map toPlane) ≤
        clamped progress' * polylineLength (route.points.map toPlane) :=
      mul_le_mul_of_nonneg_right (min_le_min_left _ (max_le_max_left _ hprogress))
        (polylineLength_nonneg _)
    refine ⟨point, point', _, hpoint, hpoint', sub_nonneg.mpr hshare, htravelled, ?_⟩
    rw [clamped, clamped, add_sub_cancel]
    exact htravelled'

/-- A route ahead and then to starboard, with a point twice. -/
noncomputable def cornerRoute : DeckLaunchRoute ℝ where
  id := "test-route"
  startTermIndex := 1
  launchTermIndex := 2
  label := "Test route"
  points := [⟨0, 0⟩, ⟨10, 0⟩, ⟨10, 0⟩, ⟨10, 10⟩]

/-- The light before the start, on the way and after the end. -/
theorem deckRoutePointAtProgress_travels_corner :
    deckRoutePointAtProgress cornerRoute (-1) = .ok (some ⟨0, 0⟩) ∧
      deckRoutePointAtProgress cornerRoute 1 = .ok (some ⟨10, 10⟩) ∧
      ∃ quarter half further, deckRoutePointAtProgress cornerRoute (1 / 4) = .ok (some quarter) ∧
        deckRoutePointAtProgress cornerRoute (1 / 2) = .ok (some half) ∧ 0 ≤ further ∧
        (∀ q, Travelled (cornerRoute.points.map toPlane)
          (min 1 (max 0 (1 / 4)) * polylineLength (cornerRoute.points.map toPlane)) q ↔
            q = toPlane quarter) ∧
        Travelled (cornerRoute.points.map toPlane)
          (min 1 (max 0 (1 / 4)) * polylineLength (cornerRoute.points.map toPlane) + further)
          (toPlane half) := by
  have hne : cornerRoute.points ≠ [] := by simp [cornerRoute]
  obtain ⟨hat, hbefore, hafter, hon⟩ := deckRoutePointAtProgress_travels hne
  obtain ⟨quarter, hquarter, hthere⟩ := hat (1 / 4)
  obtain ⟨quarter', half, further, hquarter', hhalf, hfurther, -, htravelled⟩ :=
    hon (1 / 4) (1 / 2) (by norm_num)
  exact ⟨hbefore (-1) (neg_nonpos.mpr zero_le_one), hafter 1 le_rfl, quarter, half, further,
    hquarter, hhalf, hfurther, hthere, htravelled⟩

end DcsDashboard.Airboss.DeckRoutes

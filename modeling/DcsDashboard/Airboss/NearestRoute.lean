/-
# The nearest taxi route

`nearestLaunchRoute` goes through the segments of all routes and keeps the route of a strictly
closer one, so it ends with the first route that comes closest, if any comes closer than the limit
(`nearestLaunchRoute_nearest`).  The distance to a segment is that to its closest point, which is
the clamped projection (`distanceToSegment_isLeast`).
-/
import DcsDashboard.Airboss.DeckRoutes
import DcsDashboard.Lib.FirstLeast

namespace DcsDashboard.Airboss.DeckRoutes

open Lib DeckTracking AffineMap

/-! ## 1. The distance to a segment -/

theorem lengthSquared_eq (start stop : DeckPosition ℝ) :
    (stop.fwd - start.fwd) ^ 2 + (stop.right - start.right) ^ 2 =
      ‖toPlane stop - toPlane start‖ ^ 2 := by
  rw [Complex.sq_norm, Complex.normSq_apply, sq, sq]
  rfl

theorem projection_eq (point start stop : DeckPosition ℝ) :
    (point.fwd - start.fwd) * (stop.fwd - start.fwd) +
        (point.right - start.right) * (stop.right - start.right) =
      inner ℝ (toPlane point - toPlane start) (toPlane stop - toPlane start) := by
  rw [Complex.inner]
  simp [toPlane]
  ring

/-- It is the distance to the clamped projection. -/
theorem distanceToSegment_eq (point start stop : DeckPosition ℝ) :
    distanceToSegment point start stop =
      dist (toPlane point) (lineMap (toPlane start) (toPlane stop)
        (clampedProjection (toPlane point) (toPlane start) (toPlane stop))) := by
  simp only [distanceToSegment, lengthSquared_eq, projection_eq]
  split
  · rename_i hzero
    have hsame : toPlane stop = toPlane start :=
      sub_eq_zero.mp (norm_eq_zero.mp (pow_eq_zero_iff two_ne_zero |>.mp hzero))
    rw [hypot_eq_dist, hsame, lineMap_same_apply]
  · rw [← toPlane_between, ← hypot_eq_dist]
    simp only [clampedProjection, clamped, mul_comm]

/-- **The distance to a segment** is the least distance to one of its points. -/
theorem distanceToSegment_isLeast (point start stop : DeckPosition ℝ) :
    IsLeast (dist (toPlane point) '' segment ℝ (toPlane start) (toPlane stop))
      (distanceToSegment point start stop) := by
  rw [distanceToSegment_eq]
  exact isLeast_dist_segment _ _ _

/-! ## 2. The search -/

section Search

variable {R : Type*} [Field R] [LinearOrder R] [LuaMath R]

/-- A segment of a route. -/
abbrev RouteSegment (R : Type*) := DeckLaunchRoute R × DeckPosition R × DeckPosition R

omit [Field R] [LinearOrder R] [LuaMath R] in
/-- The segments of all routes, as the search goes through them. -/
def routeSegments (routes : List (DeckLaunchRoute R)) : List (RouteSegment R) :=
  routes.flatMap fun route => (legs route.points).map fun segment => (route, segment)

/-- How far a segment is. -/
def segmentDistance (position : DeckPosition R) (s : RouteSegment R) : R :=
  distanceToSegment position s.2.1 s.2.2

/-- What the search keeps: nothing, as long as nothing is closer than the limit; then the route of
the first of the closest segments seen, and how far it is. -/
inductive Nearest (position : DeckPosition R) (limit : R) (seen : List (RouteSegment R)) :
    Option (DeckLaunchRoute R) × R → Prop
  | nothing : (∀ s ∈ seen, limit ≤ segmentDistance position s) →
      Nearest position limit seen (none, limit)
  | closest {pre post : List (RouteSegment R)} {s : RouteSegment R} : seen = pre ++ s :: post →
      FirstLeast (segmentDistance position) pre s post → segmentDistance position s < limit →
      Nearest position limit seen (some s.1, segmentDistance position s)

variable {position : DeckPosition R} {limit : R} {seen : List (RouteSegment R)}
  {nearest : Option (DeckLaunchRoute R) × R}

/-- **One round of the search.** -/
theorem Nearest.nearer (h : Nearest position limit seen nearest) (s : RouteSegment R) :
    Nearest position limit (seen ++ [s]) (nearer position s.1 nearest s.2) := by
  cases h with
  | nothing hseen =>
    by_cases hcloser : segmentDistance position s < limit
    · have hfirst : FirstLeast (segmentDistance position) seen s [] :=
        ⟨fun s' hs' => hcloser.trans_le (hseen s' hs'), by simp⟩
      have hnearer : DeckRoutes.nearer position s.1 (none, limit) s.2 =
          (some s.1, segmentDistance position s) := if_pos hcloser
      rw [hnearer]
      exact .closest rfl hfirst hcloser
    · have hnearer : DeckRoutes.nearer position s.1 (none, limit) s.2 = (none, limit) :=
        if_neg hcloser
      rw [hnearer]
      refine .nothing ?_
      intro s' hs'
      rcases List.mem_append.mp hs' with hs' | hs'
      · exact hseen s' hs'
      · rw [List.mem_singleton.mp hs']
        exact not_lt.mp hcloser
  | @closest pre post best hseen hleast hlimit =>
    by_cases hcloser : segmentDistance position s < segmentDistance position best
    · have hnearer : DeckRoutes.nearer position s.1 (some best.1, segmentDistance position best) s.2 =
          (some s.1, segmentDistance position s) := if_pos hcloser
      rw [hnearer]
      exact .closest (by rw [hseen]) (hleast.replace hcloser) (hcloser.trans hlimit)
    · have hnearer : DeckRoutes.nearer position s.1 (some best.1, segmentDistance position best) s.2 =
          (some best.1, segmentDistance position best) := if_neg hcloser
      rw [hnearer]
      exact .closest (by simp [hseen]) (hleast.keep (not_lt.mp hcloser)) hlimit

/-- **The search**, over whatever comes after what it has seen. -/
theorem Nearest.foldl (h : Nearest position limit seen nearest) (rest : List (RouteSegment R)) :
    Nearest position limit (seen ++ rest)
      (rest.foldl (fun nearest s => DeckRoutes.nearer position s.1 nearest s.2) nearest) := by
  induction rest generalizing seen nearest with
  | nil => simpa using h
  | cons s rest ih =>
    have hrest := ih (h.nearer s)
    rwa [List.append_assoc, List.singleton_append] at hrest

/-- Both loops are one over all segments. -/
theorem foldl_routes (routes : List (DeckLaunchRoute R)) (position : DeckPosition R)
    (nearest : Option (DeckLaunchRoute R) × R) :
    routes.foldl (fun nearest candidate =>
        (legs candidate.points).foldl (DeckRoutes.nearer position candidate) nearest) nearest =
      (routeSegments routes).foldl
        (fun nearest s => DeckRoutes.nearer position s.1 nearest s.2) nearest := by
  rw [routeSegments, List.foldl_flatMap]
  simp only [List.foldl_map]

omit [Field R] [LinearOrder R] [LuaMath R] in
theorem mem_routeSegments {routes : List (DeckLaunchRoute R)} {s : RouteSegment R} :
    s ∈ routeSegments routes ↔ s.1 ∈ routes ∧ s.2 ∈ legs s.1.points := by
  simp only [routeSegments, List.mem_flatMap, List.mem_map]
  constructor
  · rintro ⟨route, hroute, segment, hsegment, rfl⟩
    exact ⟨hroute, hsegment⟩
  · rintro ⟨hroute, hsegment⟩
    exact ⟨s.1, hroute, s.2, hsegment, rfl⟩

/-- The search finds nothing, or the route of the first of the closest segments. -/
theorem nearest_routeSegments (routes : List (DeckLaunchRoute R)) (position : DeckPosition R)
    (limit : R) : ∃ nearest, Nearest position limit (routeSegments routes) nearest ∧
      nearestLaunchRoute routes position limit = nearest.1 := by
  have hstart : Nearest position limit [] (none, limit) := .nothing (by simp)
  refine ⟨_, hstart.foldl (routeSegments routes), ?_⟩
  rw [nearestLaunchRoute, foldl_routes]

/-- `route` is the first of those with a segment as close as any, and that one is closer than the
limit. -/
structure FirstClosest (routes : List (DeckLaunchRoute R)) (position : DeckPosition R) (limit : R)
    (route : DeckLaunchRoute R) (segment : DeckPosition R × DeckPosition R) : Prop where
  segment_mem : segment ∈ legs route.points
  closer : distanceToSegment position segment.1 segment.2 < limit
  least : ∀ r ∈ routes, ∀ s ∈ legs r.points,
    distanceToSegment position segment.1 segment.2 ≤ distanceToSegment position s.1 s.2
  first : ∃ before after, routes = before ++ route :: after ∧ ∀ r ∈ before, ∀ s ∈ legs r.points,
    distanceToSegment position segment.1 segment.2 < distanceToSegment position s.1 s.2

/-- There is one such route. -/
theorem FirstClosest.unique {routes : List (DeckLaunchRoute R)} {route route' : DeckLaunchRoute R}
    {segment segment' : DeckPosition R × DeckPosition R}
    (h : FirstClosest routes position limit route segment)
    (h' : FirstClosest routes position limit route' segment') : route = route' := by
  obtain ⟨before, after, hroutes, hbefore⟩ := h.first
  obtain ⟨before', after', hroutes', hbefore'⟩ := h'.first
  have hmem : route ∈ routes := by rw [hroutes]; simp
  have hmem' : route' ∈ routes := by rw [hroutes']; simp
  -- neither stands before the other
  have hnot : route ∉ before' := fun hin =>
    absurd (hbefore' route hin segment h.segment_mem)
      (not_lt.mpr (h.least route' hmem' segment' h'.segment_mem))
  have hnot' : route' ∉ before := fun hin =>
    absurd (hbefore route' hin segment' h'.segment_mem)
      (not_lt.mpr (h'.least route hmem segment h.segment_mem))
  rcases List.append_eq_append_iff.mp (hroutes.symm.trans hroutes') with
    ⟨rest, rfl, hrest⟩ | ⟨rest, rfl, hrest⟩
  · cases rest with
    | nil => exact (List.cons.inj hrest).1
    | cons r rest =>
      obtain ⟨rfl, -⟩ := List.cons.inj hrest
      simp at hnot
  · cases rest with
    | nil => exact (List.cons.inj hrest).1.symm
    | cons r rest =>
      obtain ⟨rfl, -⟩ := List.cons.inj hrest
      simp at hnot'

/-- The route that the search has kept at the end. -/
theorem Nearest.firstClosest {routes : List (DeckLaunchRoute R)} {route : DeckLaunchRoute R}
    (h : Nearest position limit (routeSegments routes) nearest) (hroute : nearest.1 = some route) :
    ∃ segment, FirstClosest routes position limit route segment := by
  cases h with
  | nothing => cases hroute
  | @closest pre post s hseen hleast hlimit =>
    obtain rfl : s.1 = route := Option.some.inj hroute
    obtain ⟨before, r, after, hroutes, hs, hbefore⟩ := hleast.exists_group hseen
    obtain ⟨segment, hsegment, rfl⟩ := List.mem_map.mp hs
    refine ⟨segment, hsegment, hlimit, ?_, before, after, hroutes, ?_⟩
    · intro r' hr' s' hs'
      have hmem : (r', s') ∈ pre ++ (r, segment) :: post :=
        hseen ▸ mem_routeSegments.mpr ⟨hr', hs'⟩
      exact hleast.le hmem
    · intro r' hr' s' hs'
      exact hbefore r' hr' _ (List.mem_map_of_mem hs')

/-- No segment is closer than the limit. -/
theorem Nearest.eq_none_iff {routes : List (DeckLaunchRoute R)}
    (h : Nearest position limit (routeSegments routes) nearest) :
    nearest.1 = none ↔ ∀ route ∈ routes, ∀ segment ∈ legs route.points,
      limit ≤ distanceToSegment position segment.1 segment.2 := by
  cases h with
  | nothing hseen =>
    refine iff_of_true rfl ?_
    intro route hroute segment hsegment
    exact hseen (route, segment) (mem_routeSegments.mpr ⟨hroute, hsegment⟩)
  | @closest pre post s hseen _ hlimit =>
    refine iff_of_false (by simp) ?_
    intro hall
    obtain ⟨hroute, hsegment⟩ := mem_routeSegments.mp (hseen ▸ List.mem_append_cons_self)
    exact absurd hlimit (not_lt.mpr (hall s.1 hroute s.2 hsegment))

/-- **The first of the closest routes**, if there is one. -/
theorem nearestLaunchRoute_eq_some_iff {routes : List (DeckLaunchRoute R)}
    {route : DeckLaunchRoute R} :
    nearestLaunchRoute routes position limit = some route ↔
      ∃ segment, FirstClosest routes position limit route segment := by
  obtain ⟨nearest, hnearest, heq⟩ := nearest_routeSegments routes position limit
  rw [heq]
  constructor
  · exact hnearest.firstClosest
  · rintro ⟨segment, h⟩
    cases hroute : nearest.1 with
    | none =>
      obtain ⟨before, after, hroutes, -⟩ := h.first
      have hmem : route ∈ routes := by rw [hroutes]; simp
      exact absurd h.closer
        (not_lt.mpr (hnearest.eq_none_iff.mp hroute route hmem segment h.segment_mem))
    | some route' =>
      obtain ⟨segment', h'⟩ := hnearest.firstClosest hroute
      rw [h.unique h']

/-- **Nothing is found** when no segment is closer than the limit. -/
theorem nearestLaunchRoute_eq_none_iff {routes : List (DeckLaunchRoute R)} :
    nearestLaunchRoute routes position limit = none ↔ ∀ route ∈ routes,
      ∀ segment ∈ legs route.points, limit ≤ distanceToSegment position segment.1 segment.2 := by
  obtain ⟨nearest, hnearest, heq⟩ := nearest_routeSegments routes position limit
  rw [heq]
  exact hnearest.eq_none_iff

end Search

/-- **The nearest route.**  The distance to a segment is the least distance to one of its points;
the route found is the first with a segment as close as any, where that one is closer than the
limit, and there is none exactly when no segment is. -/
theorem nearestLaunchRoute_nearest :
    (∀ point start stop : DeckPosition ℝ,
      IsLeast (dist (toPlane point) '' segment ℝ (toPlane start) (toPlane stop))
        (distanceToSegment point start stop)) ∧
    ∀ (routes : List (DeckLaunchRoute ℝ)) (position : DeckPosition ℝ) (limit : ℝ),
      (∀ route, nearestLaunchRoute routes position limit = some route ↔
        ∃ segment, FirstClosest routes position limit route segment) ∧
      (nearestLaunchRoute routes position limit = none ↔ ∀ route ∈ routes,
        ∀ segment ∈ legs route.points,
          limit ≤ distanceToSegment position segment.1 segment.2) := by
  refine ⟨distanceToSegment_isLeast, ?_⟩
  intro routes position limit
  exact ⟨fun route => nearestLaunchRoute_eq_some_iff, nearestLaunchRoute_eq_none_iff⟩

end DcsDashboard.Airboss.DeckRoutes

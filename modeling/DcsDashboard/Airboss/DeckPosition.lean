/-
# Positions on a moving deck

`deckTracking.ts` places a unit on the chart of a ship: the older of two samples is projected to
the time of the newer one along the velocity it reports (`projectSamplePosition`), and the
difference of the two positions is turned into the ship's frame (`worldToDeck`).

In exact arithmetic the motion cancels (`synchronizedDeckPosition_cancels`): while the ship and
the unit keep their velocities and the ship its heading, two samples that are not too far apart
give the unit's position on the deck at the later time.
-/
import DcsDashboard.Airboss.DeckTracking
import DcsDashboard.Lib.Bearing

namespace DcsDashboard.Airboss.DeckTracking

open Lib LuaMath

/-! ## 1. Samples -/

/-- A number in exact arithmetic, or one for which `Number.isFinite` fails. -/
inductive MaybeFinite (R : Type*)
  | finite (r : R)
  | notFinite

/-- `Number.isFinite` of an optional field, with the number where it holds. -/
def MaybeFinite.finite? {R : Type*} : Option (MaybeFinite R) → Option R
  | some (.finite r) => some r
  | _ => none

/-- `u` is the easting and `v` the northing. -/
@[ext] structure WorldPosition (R : Type*) where
  u : R
  v : R

/-- `Partial<Vector>`: `x` is the component to the north and `z` the one to the east. -/
structure PartialVector (R : Type*) where
  x : Option (MaybeFinite R)
  z : Option (MaybeFinite R)

/-- `RadarUnit['velocity']`. -/
structure UnitVelocity (R : Type*) where
  heading : Option (MaybeFinite R)
  speed : Option (MaybeFinite R)
  velocity : Option (PartialVector R)

/-- The fields of a unit that place it on a deck. -/
structure UnitFields (R : Type*) where
  position : Option (WorldPosition R)
  velocity : Option (UnitVelocity R)

structure HorizontalVector (R : Type*) where
  north : R
  east : R

structure DeckPosition (R : Type*) where
  fwd : R
  right : R

section Tracking

variable {R : Type*} [Field R] [LinearOrder R] [LuaMath R]

/-- `MAX_SAMPLE_PROJECTION_SECONDS`. -/
def maxSampleProjectionSeconds : R := 2

/-- `degrees * Math.PI / 180`. -/
def headingRadians (degrees : R) : R := degrees * pi / 180

omit [Field R] [LinearOrder R] [LuaMath R] in
/-- `hasHorizontalComponents`, with the components `x` and `z` where it holds. -/
def horizontalComponents? (vector : Option (PartialVector R)) : Option (R × R) := do
  let vector ← vector
  return (← MaybeFinite.finite? vector.x, ← MaybeFinite.finite? vector.z)

omit [LinearOrder R] in
/-- `horizontalVectorFromHeading`. -/
def horizontalVectorFromHeading (velocity : Option (UnitVelocity R)) :
    Option (HorizontalVector R) := do
  let velocity ← velocity
  let heading ← MaybeFinite.finite? velocity.heading
  let speed ← MaybeFinite.finite? velocity.speed
  return { north := speed * cos (headingRadians heading)
           east := speed * sin (headingRadians heading) }

omit [LinearOrder R] in
/-- `horizontalVelocityVector`. -/
def horizontalVelocityVector (unit : UnitFields R) : Option (HorizontalVector R) :=
  match horizontalComponents? (unit.velocity.bind (·.velocity)) with
  | some (x, z) => some { north := x, east := z }
  | none => horizontalVectorFromHeading unit.velocity

omit [Field R] [LuaMath R] in
/-- `latestSampleTime`. -/
def latestSampleTime : Option R → Option R → Option R
  | none, second => second
  | some first, none => some first
  | some first, some second => some (max first second)

/-- `projectSamplePosition`. -/
def projectSamplePosition (sample : RadarUnitSample R (UnitFields R)) (targetTime : Option R) :
    Option (WorldPosition R) := do
  let position ← sample.unit.fields.position
  match sample.time, targetTime with
  | some time, some targetTime =>
    let elapsedSeconds := min (max (targetTime - time) 0) maxSampleProjectionSeconds
    match horizontalVelocityVector sample.unit.fields with
    | some vector =>
      if elapsedSeconds = 0 then return position
      return { u := position.u + vector.east * elapsedSeconds
               v := position.v + vector.north * elapsedSeconds }
    | none => return position
  | _, _ => return position

omit [LinearOrder R] in
/-- `worldToDeck`. -/
def worldToDeck (position shipPosition : WorldPosition R) (shipHeadingDegrees : R) :
    DeckPosition R :=
  let headingRadians := headingRadians shipHeadingDegrees
  let north := position.v - shipPosition.v
  let east := position.u - shipPosition.u
  { fwd := north * cos headingRadians + east * sin headingRadians
    right := -north * sin headingRadians + east * cos headingRadians }

/-- `synchronizedDeckPosition`. -/
def synchronizedDeckPosition (unitSample shipSample : RadarUnitSample R (UnitFields R))
    (shipHeadingDegrees : R) : Option (DeckPosition R) := do
  let targetTime := latestSampleTime unitSample.time shipSample.time
  let unitPosition ← projectSamplePosition unitSample targetTime
  let shipPosition ← projectSamplePosition shipSample targetTime
  return worldToDeck unitPosition shipPosition shipHeadingDegrees

end Tracking

/-! ## 2. What the samples are of -/

/-- A course of constant velocity: where it starts and its velocity to the east and north. -/
structure Course where
  start : WorldPosition ℝ
  velocity : ℝ × ℝ

namespace Course

/-- The position at a time. -/
def position (course : Course) (time : ℝ) : WorldPosition ℝ :=
  { u := course.start.u + course.velocity.1 * time
    v := course.start.v + course.velocity.2 * time }

/-- The velocity is reported as a vector, or there is no whole vector and it is reported as a
heading and a speed. -/
def ReportedBy (course : Course) (velocity : UnitVelocity ℝ) : Prop :=
  velocity.velocity =
      some ⟨some (.finite course.velocity.2), some (.finite course.velocity.1)⟩ ∨
    horizontalComponents? velocity.velocity = none ∧
      ∃ heading speed, velocity.heading = some (.finite heading) ∧
        velocity.speed = some (.finite speed) ∧ course.velocity = polar speed (luaRad heading)

/-- A sample of the course at a time. -/
structure SampledBy (course : Course) (sample : RadarUnitSample ℝ (UnitFields ℝ)) (time : ℝ) :
    Prop where
  time_eq : sample.time = some time
  position_eq : sample.unit.fields.position = some (course.position time)
  velocity_eq : ∃ velocity, sample.unit.fields.velocity = some velocity ∧ course.ReportedBy velocity

end Course

/-- The point of the world that lies so far ahead of a ship and so far to its starboard side. -/
noncomputable def deckPoint (ship : WorldPosition ℝ) (headingDegrees : ℝ)
    (deck : DeckPosition ℝ) : WorldPosition ℝ :=
  let offset := polar deck.fwd (luaRad headingDegrees) +
    polar deck.right (luaRad (headingDegrees + 90))
  { u := ship.u + offset.1, v := ship.v + offset.2 }

/-! ## 3. The deck frame -/

theorem headingRadians_eq (degrees : ℝ) : headingRadians degrees = luaRad degrees := by
  rw [headingRadians, luaRad, mul_div_assoc]

theorem luaRad_add_90 (degrees : ℝ) : luaRad (degrees + 90) = luaRad degrees + Real.pi / 2 := by
  have hpi : (LuaMath.pi : ℝ) = Real.pi := rfl
  simp only [luaRad, hpi]
  ring

/-- The components of the offset along and across the heading. -/
theorem worldToDeck_eq (position ship : WorldPosition ℝ) (headingDegrees : ℝ) :
    worldToDeck position ship headingDegrees =
      { fwd := along (position.u - ship.u, position.v - ship.v) (luaRad headingDegrees)
        right := across (position.u - ship.u, position.v - ship.v) (luaRad headingDegrees) } := by
  have hsin : ∀ a : ℝ, LuaMath.sin a = Real.sin a := fun _ => rfl
  have hcos : ∀ a : ℝ, LuaMath.cos a = Real.cos a := fun _ => rfl
  simp only [worldToDeck, headingRadians_eq, along, across, hsin, hcos, DeckPosition.mk.injEq]
  constructor
  · ring
  · ring

/-- **The deck frame**: `worldToDeck` is where a point lies on the deck. -/
theorem deckPoint_eq_iff {position ship : WorldPosition ℝ} {headingDegrees : ℝ}
    {deck : DeckPosition ℝ} :
    deckPoint ship headingDegrees deck = position ↔
      deck = worldToDeck position ship headingDegrees := by
  have hoffset : deckPoint ship headingDegrees deck = position ↔
      (position.u - ship.u, position.v - ship.v) =
        polar deck.fwd (luaRad headingDegrees) +
          polar deck.right (luaRad headingDegrees + Real.pi / 2) := by
    rw [deckPoint, WorldPosition.ext_iff, luaRad_add_90, Prod.ext_iff]
    constructor
    · rintro ⟨hu, hv⟩
      exact ⟨sub_eq_of_eq_add' hu.symm, sub_eq_of_eq_add' hv.symm⟩
    · rintro ⟨hu, hv⟩
      exact ⟨(eq_add_of_sub_eq' hu).symm, (eq_add_of_sub_eq' hv).symm⟩
  obtain ⟨fwd, right⟩ := deck
  rw [hoffset, eq_polar_add_polar_iff, worldToDeck_eq, DeckPosition.mk.injEq, eq_comm,
    @eq_comm _ (across _ _)]

/-- `worldToDeck` keeps distances. -/
theorem worldToDeck_dist (position position' ship : WorldPosition ℝ) (headingDegrees : ℝ) :
    ((worldToDeck position ship headingDegrees).fwd -
          (worldToDeck position' ship headingDegrees).fwd) ^ 2 +
        ((worldToDeck position ship headingDegrees).right -
          (worldToDeck position' ship headingDegrees).right) ^ 2 =
      (position.u - position'.u) ^ 2 + (position.v - position'.v) ^ 2 := by
  have hlength := along_sq_add_across_sq (position.u - position'.u, position.v - position'.v)
    (luaRad headingDegrees)
  rw [← hlength]
  simp only [worldToDeck_eq, along, across]
  ring

/-! ## 4. Projected samples -/

section Projection

variable {course : Course} {sample : RadarUnitSample ℝ (UnitFields ℝ)} {time : ℝ}

theorem Course.ReportedBy.vector {velocity : UnitVelocity ℝ} (h : course.ReportedBy velocity)
    (position : Option (WorldPosition ℝ)) :
    horizontalVelocityVector { position, velocity := some velocity } =
      some { north := course.velocity.2, east := course.velocity.1 } := by
  rcases h with hvector | ⟨hnone, heading, speed, hheading, hspeed, hpolar⟩
  · simp [horizontalVelocityVector, hvector, horizontalComponents?, MaybeFinite.finite?]
  · have hsin : ∀ a : ℝ, LuaMath.sin a = Real.sin a := fun _ => rfl
    have hcos : ∀ a : ℝ, LuaMath.cos a = Real.cos a := fun _ => rfl
    simp [horizontalVelocityVector, hnone, horizontalVectorFromHeading, hheading, hspeed,
      MaybeFinite.finite?, hpolar, polar, headingRadians_eq, hsin, hcos]

/-- **A projected sample** is where its course is at that time. -/
theorem Course.SampledBy.project (h : course.SampledBy sample time) {target : ℝ}
    (hle : time ≤ target) (hlimit : target - time ≤ maxSampleProjectionSeconds) :
    projectSamplePosition sample (some target) = some (course.position target) := by
  obtain ⟨velocity, hvelocity, hreported⟩ := h.velocity_eq
  have hvector : horizontalVelocityVector sample.unit.fields =
      some { north := course.velocity.2, east := course.velocity.1 } := by
    have hfields : sample.unit.fields =
        { position := sample.unit.fields.position, velocity := some velocity } := by
      rw [← hvelocity]
    rw [hfields]
    exact hreported.vector _
  have helapsed : min (max (target - time) 0) maxSampleProjectionSeconds = target - time := by
    rw [max_eq_left (sub_nonneg.mpr hle), min_eq_left hlimit]
  simp only [projectSamplePosition, h.position_eq, h.time_eq, hvector, helapsed,
    Option.bind_eq_bind, Option.bind_some]
  split
  · rename_i hzero
    rw [sub_eq_zero.mp hzero]
    rfl
  · simp only [Course.position]
    refine congrArg some (WorldPosition.ext ?_ ?_)
    · ring
    · ring

end Projection

/-- Either sample may be the older one. -/
theorem synchronizedDeckPosition_eq {ship unit : Course}
    {unitSample shipSample : RadarUnitSample ℝ (UnitFields ℝ)} {unitTime shipTime : ℝ}
    (hunit : unit.SampledBy unitSample unitTime) (hship : ship.SampledBy shipSample shipTime)
    (hclose : |unitTime - shipTime| ≤ maxSampleProjectionSeconds) (headingDegrees : ℝ) :
    synchronizedDeckPosition unitSample shipSample headingDegrees =
      some (worldToDeck (unit.position (max unitTime shipTime))
        (ship.position (max unitTime shipTime)) headingDegrees) := by
  obtain ⟨hlow, hhigh⟩ := abs_le.mp hclose
  have hnonneg : (0 : ℝ) ≤ maxSampleProjectionSeconds := by norm_num [maxSampleProjectionSeconds]
  have hunitLimit : max unitTime shipTime - unitTime ≤ maxSampleProjectionSeconds := by
    rw [sub_le_iff_le_add]
    exact max_le (by linarith) (by linarith)
  have hshipLimit : max unitTime shipTime - shipTime ≤ maxSampleProjectionSeconds := by
    rw [sub_le_iff_le_add]
    exact max_le (by linarith) (by linarith)
  simp only [synchronizedDeckPosition, hunit.time_eq, hship.time_eq, latestSampleTime,
    hunit.project (le_max_left _ _) hunitLimit, hship.project (le_max_right _ _) hshipLimit,
    Option.bind_eq_bind, Option.bind_some]
  rfl

/-- **The ship's motion cancels.**  Two samples of constant velocities, at most two seconds apart
and in either order, give the one position on the deck at which the unit is at the later time; a
unit at rest on the deck gets the same position from any two samples.  The deck frame keeps
distances. -/
theorem synchronizedDeckPosition_cancels :
    (∀ (headingDegrees : ℝ) (ship unit : Course) (unitTime shipTime : ℝ)
        (unitSample shipSample : RadarUnitSample ℝ (UnitFields ℝ)),
      unit.SampledBy unitSample unitTime → ship.SampledBy shipSample shipTime →
      |unitTime - shipTime| ≤ 2 →
        ∃ deck, synchronizedDeckPosition unitSample shipSample headingDegrees = some deck ∧
          ∀ d, deckPoint (ship.position (max unitTime shipTime)) headingDegrees d =
            unit.position (max unitTime shipTime) ↔ d = deck) ∧
    (∀ (headingDegrees : ℝ) (ship unit : Course) (deck : DeckPosition ℝ),
      (∀ time, deckPoint (ship.position time) headingDegrees deck = unit.position time) →
      ∀ (unitTime shipTime : ℝ) (unitSample shipSample : RadarUnitSample ℝ (UnitFields ℝ)),
        unit.SampledBy unitSample unitTime → ship.SampledBy shipSample shipTime →
        |unitTime - shipTime| ≤ 2 →
          synchronizedDeckPosition unitSample shipSample headingDegrees = some deck) ∧
    ∀ (headingDegrees : ℝ) (ship position position' : WorldPosition ℝ),
      √(((worldToDeck position ship headingDegrees).fwd -
            (worldToDeck position' ship headingDegrees).fwd) ^ 2 +
          ((worldToDeck position ship headingDegrees).right -
            (worldToDeck position' ship headingDegrees).right) ^ 2) =
        √((position.u - position'.u) ^ 2 + (position.v - position'.v) ^ 2) := by
  refine ⟨?_, ?_, ?_⟩
  · intro headingDegrees ship unit unitTime shipTime unitSample shipSample hunit hship hclose
    exact ⟨_, synchronizedDeckPosition_eq hunit hship hclose headingDegrees,
      fun d => deckPoint_eq_iff⟩
  · intro headingDegrees ship unit deck hrest unitTime shipTime unitSample shipSample hunit hship
      hclose
    rw [synchronizedDeckPosition_eq hunit hship hclose headingDegrees,
      deckPoint_eq_iff.mp (hrest _)]
  · intro headingDegrees ship position position'
    rw [worldToDeck_dist]

/-- A carrier on course 090 whose sample reports heading and speed. -/
noncomputable def carrierSample : RadarUnitSample ℝ (UnitFields ℝ) where
  time := some 100
  unit :=
    { id := none
      fields :=
        { position := some ⟨1000, 2000⟩
          velocity := some ⟨some (.finite 90), some (.finite 10), none⟩ } }

/-- An aircraft ten metres ahead of the carrier's reference point, sampled a second later. -/
noncomputable def aircraftSample : RadarUnitSample ℝ (UnitFields ℝ) where
  time := some 101
  unit :=
    { id := none
      fields :=
        { position := some ⟨1020, 2000⟩
          velocity := some ⟨none, none, some ⟨some (.finite 0), some (.finite 10)⟩⟩ } }

theorem luaRad_90 : luaRad (90 : ℝ) = Real.pi / 2 := by
  rw [← zero_add (90 : ℝ), luaRad_add_90, luaRad, zero_mul, zero_add]

theorem carrierSample_sampled :
    (⟨⟨0, 2000⟩, (10, 0)⟩ : Course).SampledBy carrierSample 100 := by
  refine ⟨rfl, ?_, _, rfl, .inr ⟨rfl, 90, 10, rfl, rfl, ?_⟩⟩
  · norm_num [carrierSample, Course.position]
  · simp [polar, luaRad_90]

theorem aircraftSample_sampled :
    (⟨⟨10, 2000⟩, (10, 0)⟩ : Course).SampledBy aircraftSample 101 := by
  refine ⟨rfl, ?_, _, rfl, .inl rfl⟩
  norm_num [aircraftSample, Course.position]

theorem synchronizedDeckPosition_cancels_parked :
    (∃ deck, synchronizedDeckPosition aircraftSample carrierSample 90 = some deck) ∧
      synchronizedDeckPosition aircraftSample carrierSample 90 = some ⟨10, 0⟩ := by
  have hclose : |(101 : ℝ) - 100| ≤ 2 := by norm_num
  constructor
  · obtain ⟨deck, hdeck, -⟩ := synchronizedDeckPosition_cancels.1 90 _ _ 101 100 _ _
      aircraftSample_sampled carrierSample_sampled hclose
    exact ⟨deck, hdeck⟩
  · refine synchronizedDeckPosition_cancels.2.1 90 _ _ _ (fun time => ?_) 101 100 _ _
      aircraftSample_sampled carrierSample_sampled hclose
    ext
    · simp [deckPoint, Course.position, polar, luaRad_90]
      ring
    · simp [deckPoint, Course.position, polar, luaRad_90]

end DcsDashboard.Airboss.DeckTracking

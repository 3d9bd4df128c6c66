/-
# The telemetry report

`M.windReport` is `M.windData` as plain data: what the dashboard shows of a ship, and what the
page plans with.  For a ship on a level keel the reported headwind is the wind speed times the
cosine of the angle between the reported wind direction and the course, unless the wind is so
light that its direction is not reported (`headwind_of_windFrom`).
-/
import DcsDashboard.Carrier.Controller
import DcsDashboard.Lib.Bearing

namespace DcsDashboard.Carrier

open Lib LuaMath

/-! ## 1. The report -/

/-- What `M.windReport` returns. -/
structure WindReport (R : Type*) where
  carrierName : String
  typeName : String
  deckClass : Option DeckClass
  coalition : Nat
  recoveryPhase : String
  carrierU : R
  carrierV : R
  brc : R
  shipSpd : R
  twDir : R
  twSpd : R
  headwind : R
  wod : R
  targetWod : Option (Value R)
  recoveryHeading : R
  recoverySpeed : R
  regime : Regime
  deckOffset : R
  minSpeed : Option (Value R)
  maxSpeed : Option (Value R)
  angledDeckMinWind : Option (Value R)
  backend : Backend

/-- The text of a phase. -/
def Phase.text : Phase → String
  | .pending => "pending"
  | .aligning => "aligning"
  | .active => "active"

/-- `M.phase`.  For a group Foothold manages the phase is its own: the member `phase` of its state
table, where there is one. -/
def State.phase {R : Type*} (s : State R) (footholdState : Option (Option String))
    (groupName : String) : String :=
  match s.setup.backend groupName with
  | .foothold => (footholdState.map fun phase => phase.getD "active").getD "normal"
  | .standalone => ((s.active groupName).map fun recovery => recovery.phase.text).getD "normal"

section Report

variable {R : Type*} [Field R] [LinearOrder R] [FloorRing R] [LuaMath R]

/-- `M.windReport`. -/
def State.windReport (s : State R) (w : World R) (footholdState : Option (Option String))
    (groupName : String) : Except (Message R) (WindReport R) :=
  match windData w (s.setup.config (some groupName)) groupName with
  | none => .error (.groupUnavailable groupName)
  | some data => .ok {
      carrierName := groupName
      typeName := data.typeName
      deckClass := data.deckClass
      coalition := data.coalition
      recoveryPhase := s.phase footholdState groupName
      carrierU := data.point.x
      carrierV := data.point.z
      brc := data.headingDeg
      shipSpd := data.shipSpeedKt
      twDir := data.windFromDeg
      twSpd := data.windSpeedKt
      headwind := data.naturalHeadwindKt
      wod := data.windOnDeckKt
      targetWod := data.targetWodKt
      recoveryHeading := data.recoveryHeadingDeg
      recoverySpeed := data.recoverySpeedKt
      regime := data.regime
      deckOffset := data.deckOffsetDeg
      minSpeed := data.minSpeedKt
      maxSpeed := data.maxSpeedKt
      angledDeckMinWind := data.angledDeckMinWindKt
      backend := s.setup.backend groupName }

end Report

/-! ## 2. Wind and course -/

/-- A ship on a level keel: its axis is horizontal and of length one. -/
structure Level (forward : Vec3 ℝ) : Prop where
  flat : forward.y = 0
  unit : forward.x ^ 2 + forward.z ^ 2 = 1

/-- `naturalHeadwindKt` of `M.windData`. -/
noncomputable def headwindKt (wind forward : Vec3 ℝ) : ℝ :=
  (-wind.x * forward.x - wind.z * forward.z) * knotsPerMps

/-- `windFromDeg` of `M.windData`, where the wind is strong enough to have a direction. -/
noncomputable def measuredFromDeg (wind : Vec3 ℝ) : ℝ :=
  normalizeHeadingDeg (luaDeg (atan2 (-wind.z) (-wind.x)))

theorem knotsPerMps_pos : (0 : ℝ) < knotsPerMps := by
  norm_num [knotsPerMps]

/-- The second test of `M.normalizeHeadingDeg` never holds. -/
theorem normalizeHeadingDeg_eq (heading : ℝ) :
    normalizeHeadingDeg heading = luaMod heading 360 := by
  have hnonneg : 0 ≤ luaMod heading 360 := luaMod_nonneg (by norm_num)
  simp [normalizeHeadingDeg, hnonneg.not_gt]

/-- A heading is normalized once. -/
@[simp] theorem normalizeHeadingDeg_idem (heading : ℝ) :
    normalizeHeadingDeg (normalizeHeadingDeg heading) = normalizeHeadingDeg heading := by
  have hsub : luaMod heading 360 = heading + ((-⌊heading / 360⌋ : ℤ) : ℝ) * 360 := by
    rw [luaMod]
    push_cast
    ring
  rw [normalizeHeadingDeg_eq, normalizeHeadingDeg_eq]
  conv_lhs => rw [hsub]
  exact luaMod_add_int_mul heading _ (by norm_num)

/-- **The headwind from direction and speed.**  On a level keel the measured headwind is the wind
speed times the cosine of the angle between wind and course. -/
theorem headwind_of_windFrom {wind forward : Vec3 ℝ} (hlevel : Level forward) :
    headwindKt wind forward =
      horizontalKt wind *
        Real.cos (luaRad (measuredFromDeg wind - headingFromUnit forward)) := by
  have hdot := dot_eq_sqrt_mul_cos (x := -wind.x) (y := -wind.z) hlevel.unit
  have hangle : Real.cos (luaRad (measuredFromDeg wind - headingFromUnit forward)) =
      Real.cos (atan2 (-wind.z) (-wind.x) - atan2 forward.z forward.x) := by
    rw [measuredFromDeg, headingFromUnit, normalizeHeadingDeg_eq, normalizeHeadingDeg_eq,
      cos_luaRad_luaMod_sub]
  have hlength : horizontalKt wind = √((-wind.x) ^ 2 + (-wind.z) ^ 2) * knotsPerMps := by
    simp [horizontalKt, LuaMath.sqrt]
  rw [hangle, hlength, headwindKt]
  linear_combination knotsPerMps * hdot

/-- No headwind is stronger than the wind. -/
theorem headwindKt_le {wind forward : Vec3 ℝ} (hlevel : Level forward) :
    headwindKt wind forward ≤ horizontalKt wind := by
  have hspeed : 0 ≤ horizontalKt wind :=
    mul_nonneg (Real.sqrt_nonneg _) knotsPerMps_pos.le
  rw [headwind_of_windFrom hlevel]
  exact mul_le_of_le_one_right hspeed (Real.cos_le_one _)

end DcsDashboard.Carrier

/-
# The turn-into-wind solver

`M.solve` and the heading arithmetic it rests on, in exact arithmetic.

Floating point gives a straight deck the right answer through an infinite `C`: both arcsines
are then of zero.  A field has no infinity, so `limitedAngle` names that case.
-/
import DcsDashboard.Carrier.Config
import DcsDashboard.Lib.LuaMath

namespace DcsDashboard.Carrier

open Lib

/-- `tonumber(value) or default`. -/
def Value.numberOr {R : Type*} [Field R] (value : Option (Value R)) (default : R) : R :=
  (value.bind Value.tonumber).getD default

/-! ## 1. Headings -/

section Headings

variable {R : Type*} [Field R] [LinearOrder R] [FloorRing R]

/-- `M.normalizeHeadingDeg` of a number. -/
def normalizeHeadingDeg (heading : R) : R :=
  let h := luaMod heading 360
  if h < 0 then h + 360 else h

/-- `M.headingDiff`; no commanded heading counts as a full turn away. -/
def headingDiff (a : R) : Option R → R
  | none => 360
  | some b => luaAbs (luaMod (a - b + 180) 360 - 180)

end Headings

/-! ## 2. The solver -/

/-- The `params` of `M.solve`. -/
structure SolveParams (R : Type*) where
  windFromDeg : R
  windSpeedKt : R
  targetWodKt : Option (Value R)
  deckOffsetDeg : R
  minSpeedKt : Option (Value R)
  maxSpeedKt : Option (Value R)
  angledDeckMinWindKt : Option (Value R)
  headingDeg : R
  naturalHeadwindKt : R

/-- The `regime` of a solution. -/
inductive Regime
  | optimal
  | vmax_limited
  | vmin_limited
  | low_wind
  | weak_wind
  deriving DecidableEq

/-- What `M.solve` returns. -/
structure Solution (R : Type*) where
  headingDeg : R
  speedKt : R
  regime : Regime

section Solve

variable {R : Type*} [Field R] [LinearOrder R] [LuaMath R]

open LuaMath

/-- `v / d` kept within `[-1, 1]`; a quotient by zero is beyond them. -/
def limitedArg (v d : R) : R :=
  if d = 0 then (if v < 0 then -1 else 1)
  else
    let arg := v / d
    if arg > 1 then 1 else if arg < -1 then -1 else arg

/-- `theta` of the two speed-limited branches. -/
def limitedAngle (v windSpeedKt alpha : R) : R :=
  if sin alpha = 0 then 0
  else
    let C := sqrt (cos alpha ^ 2 / sin alpha ^ 2 + 1)
    asin (limitedArg v (windSpeedKt * C)) - asin (-1 / C)

/-- `theta`, `v` and `regime` when the wind is strong enough to be brought down the deck. -/
def solveAngled (windSpeedKt targetWod minSpeed maxSpeed alpha : R) : R × R × Regime :=
  let vdeckMax := windSpeedKt + cos alpha * maxSpeed
  let vdeckMin := windSpeedKt + cos alpha * minSpeed
  if targetWod > vdeckMax then
    (limitedAngle maxSpeed windSpeedKt alpha, maxSpeed, .vmax_limited)
  else if targetWod < vdeckMin then
    (limitedAngle minSpeed windSpeedKt alpha, minSpeed, .vmin_limited)
  else if targetWod * sin alpha > windSpeedKt then
    let sq := targetWod ^ 2 - windSpeedKt ^ 2
    (pi / 2, sqrt (if sq > 0 then sq else 0), .low_wind)
  else
    let theta := asin (targetWod * sin alpha / windSpeedKt)
    (theta, targetWod * cos alpha - windSpeedKt * cos theta, .optimal)

/-- The two closing tests on the speed, the lower bound first. -/
def limitSpeed (speed minSpeed maxSpeed : R) : R :=
  let speed := if speed < minSpeed then minSpeed else speed
  if speed > maxSpeed then maxSpeed else speed

omit [Field R] [LuaMath R] in
/-- The two closing tests bring the speed between the limits. -/
theorem limitSpeed_eq {speed lo hi : R} (hle : lo ≤ hi) :
    limitSpeed speed lo hi = min hi (max lo speed) := by
  unfold limitSpeed
  by_cases hlo : speed < lo
  · simp [hlo, hlo.le, hle, hle.not_gt]
  · have hspeed : lo ≤ speed := not_lt.mp hlo
    by_cases hhi : speed > hi
    · simp [hlo, hspeed, hhi, le_of_lt hhi]
    · simp [hlo, hspeed, hhi, not_lt.mp hhi]

variable [FloorRing R]

/-- `M.solve`. -/
def solve (params : SolveParams R) : Solution R :=
  let windFromDeg := normalizeHeadingDeg params.windFromDeg
  let windSpeedKt := params.windSpeedKt
  let targetWod := Value.numberOr params.targetWodKt 24
  let minSpeed := Value.numberOr params.minSpeedKt 10
  let maxSpeed := Value.numberOr params.maxSpeedKt 30
  let angledDeckMinWindKt := Value.numberOr params.angledDeckMinWindKt 3
  let headingDeg := normalizeHeadingDeg params.headingDeg
  if windSpeedKt ≥ angledDeckMinWindKt then
    let windto := luaMod (windFromDeg + 180) 360
    let (theta, v, regime) :=
      solveAngled windSpeedKt targetWod minSpeed maxSpeed (luaRad params.deckOffsetDeg)
    { headingDeg := normalizeHeadingDeg (luaMod (540 + windto + luaDeg theta) 360)
      speedKt := limitSpeed v minSpeed maxSpeed
      regime := regime }
  else
    -- weak wind: the course is kept, and only the speed makes up for the headwind
    { headingDeg := normalizeHeadingDeg headingDeg
      speedKt := limitSpeed (targetWod - params.naturalHeadwindKt) minSpeed maxSpeed
      regime := .weak_wind }

/-- In a weak wind the course is kept. -/
theorem solve_weak {params : SolveParams R}
    (h : params.windSpeedKt < Value.numberOr params.angledDeckMinWindKt 3) :
    solve params = ⟨normalizeHeadingDeg (normalizeHeadingDeg params.headingDeg),
      limitSpeed (Value.numberOr params.targetWodKt 24 - params.naturalHeadwindKt)
        (Value.numberOr params.minSpeedKt 10) (Value.numberOr params.maxSpeedKt 30),
      .weak_wind⟩ := by
  simp only [solve, if_neg h.not_ge]

end Solve

end DcsDashboard.Carrier

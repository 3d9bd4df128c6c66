/-
# Live data, navigation safety and routing

What the controller reads of the mission at one call is a `World`: the ships, the wind, the
surface of the sea and land, the Mission Editor routes, and which DCS calls raise.  On it stand
`M.windData`, `M.straightCourseIsSafe`, `M.buildRoute` and the capture and rejoining of the
normal circuit.

Of a waypoint only what varies is kept: its place, speed and task.
-/
import DcsDashboard.Carrier.Deck
import DcsDashboard.Carrier.Solver

namespace DcsDashboard.Carrier

open Lib

/-! ## 1. The mission at one call -/

/-- A vector of DCS: `x` north, `z` east, `y` up. -/
structure Vec3 (R : Type*) where
  x : R
  y : R
  z : R

/-- A point of the sea. -/
structure Point (R : Type*) where
  x : R
  z : R

/-- What the scripting engine says of a unit.  `active` is `unitIsActive`, `forward` the first
axis of `getPosition`, `attributes` the names its description carries. -/
structure ShipUnit (R : Type*) where
  isExist : Bool
  active : Bool
  point : Option (Vec3 R)
  forward : Option (Vec3 R)
  velocity : Option (Vec3 R)
  typeName : String
  attributes : List String

/-- What the scripting engine says of a ship group; `lead` is `getUnit(1)`. -/
structure ShipGroup (R : Type*) where
  isExist : Bool
  size : Nat
  lead : Option (ShipUnit R)
  coalition : Option Nat

/-- `land.SurfaceType`. -/
inductive Surface
  | LAND
  | SHALLOW_WATER
  | WATER
  | ROAD
  | RUNWAY
  deriving DecidableEq

/-- A point of a route: where, how fast (m/s), and its task, an opaque table. -/
structure Waypoint (R : Type*) where
  x : R
  z : R
  speed : R
  task : Option String

/-- A ship group of `env.mission`, in the order in which `pairs` gives them. -/
structure EditorGroup (R : Type*) where
  name : String
  points : List (Waypoint R)

/-- The calls of `M.setRoute`. -/
inductive RouteSite
  | turn
  | retarget
  | openWindow
  | circuit
  deriving DecidableEq

/-- The mission as one call of the controller finds it. -/
structure World (R : Type*) where
  time : R
  group : String → Option (ShipGroup R)
  wind : Vec3 R → Option (Vec3 R)
  surface : R → R → Surface
  mission : List (EditorGroup R)
  /-- whether `setTask` raises there -/
  setTaskRaises : RouteSite → Bool
  /-- what a call delegated to Foothold returns, and the text it captured -/
  foothold : Bool × Option String

/-- What `M.windData` returns. -/
structure WindData (R : Type*) where
  point : Vec3 R
  typeName : String
  deckClass : Option DeckClass
  coalition : Nat
  headingDeg : R
  windFromDeg : R
  windSpeedKt : R
  naturalHeadwindKt : R
  windOnDeckKt : R
  shipSpeedKt : R
  recoveryHeadingDeg : R
  recoverySpeedKt : R
  regime : Regime
  deckOffsetDeg : R
  targetWodKt : Option (Value R)
  minSpeedKt : Option (Value R)
  maxSpeedKt : Option (Value R)
  angledDeckMinWindKt : Option (Value R)

/-- `leadUnit`. -/
def World.leadUnit {R : Type*} (w : World R) (groupName : String) :
    Option (ShipGroup R × ShipUnit R) :=
  (w.group groupName).bind fun group =>
    if !group.isExist || group.size = 0 then none
    else group.lead.bind fun lead =>
      if !lead.isExist || !lead.active then none else some (group, lead)

section Constants

variable {R : Type*} [Field R]

/-- `KNOTS_PER_MPS`. -/
def knotsPerMps : R := 194384449 / 100000000

/-- `MPS_PER_KNOT`. -/
def mpsPerKnot : R := 514444 / 1000000

/-- `METERS_PER_NM`. -/
def metersPerNm : R := 1852

/-- `requiredSeconds`. -/
def requiredSeconds (cfg : Config R) : R :=
  Value.numberOr (cfg.value "durationSec") 1800 +
    Value.numberOr (cfg.value "safetyReserveSec") 300

end Constants

/-! ## 2. Ship, wind and solution -/

section Navigation

variable {R : Type*} [Field R] [LinearOrder R] [FloorRing R] [LuaMath R]

open LuaMath

/-- Horizontal length in knots of a velocity in m/s. -/
def horizontalKt (v : Vec3 R) : R := sqrt (v.x ^ 2 + v.z ^ 2) * knotsPerMps

/-- `M.headingFromUnit`. -/
def headingFromUnit (forward : Vec3 R) : R :=
  normalizeHeadingDeg (luaDeg (atan2 forward.z forward.x))

/-- `M.windData`, for the group's effective configuration. -/
def windData (w : World R) (cfg : Config R) (groupName : String) : Option (WindData R) := do
  let (group, lead) ← w.leadUnit groupName
  let point ← lead.point
  let forward ← lead.forward
  let wind := (w.wind ⟨point.x, point.y + 18, point.z⟩).getD ⟨0, 0, 0⟩
  let headingDeg := headingFromUnit forward
  let windSpeedKt := horizontalKt wind
  let windFromDeg :=
    if windSpeedKt ≥ 1 / 2 then normalizeHeadingDeg (luaDeg (atan2 (-wind.z) (-wind.x)))
    else headingDeg
  let shipSpeedKt := horizontalKt (lead.velocity.getD ⟨0, 0, 0⟩)
  let naturalHeadwindKt := (-wind.x * forward.x - wind.z * forward.z) * knotsPerMps
  let deckClass := (classifyDeck lead.attributes lead.typeName).1
  let deckOffsetDeg := deckOffsetForType lead.typeName cfg deckClass
  let solved := solve {
    windFromDeg := windFromDeg
    windSpeedKt := windSpeedKt
    targetWodKt := cfg.value "targetWodKt"
    deckOffsetDeg := deckOffsetDeg
    minSpeedKt := cfg.value "minSpeedKt"
    maxSpeedKt := cfg.value "maxSpeedKt"
    angledDeckMinWindKt := cfg.value "angledDeckMinWindKt"
    headingDeg := headingDeg
    naturalHeadwindKt := naturalHeadwindKt }
  return {
    point := point
    typeName := lead.typeName
    deckClass := deckClass
    coalition := group.coalition.getD 2
    headingDeg := headingDeg
    windFromDeg := windFromDeg
    windSpeedKt := windSpeedKt
    naturalHeadwindKt := naturalHeadwindKt
    windOnDeckKt := shipSpeedKt + naturalHeadwindKt
    shipSpeedKt := shipSpeedKt
    recoveryHeadingDeg := solved.headingDeg
    recoverySpeedKt := luaFloor (solved.speedKt + 1 / 2)
    regime := solved.regime
    deckOffsetDeg := deckOffsetDeg
    targetWodKt := cfg.value "targetWodKt"
    minSpeedKt := cfg.value "minSpeedKt"
    maxSpeedKt := cfg.value "maxSpeedKt"
    angledDeckMinWindKt := cfg.value "angledDeckMinWindKt" }

/-! ## 3. Safety of a leg -/

/-- One point of the corridor is water or shallow water. -/
def isWater (w : World R) (x z : R) : Bool :=
  w.surface x z = .WATER || w.surface x z = .SHALLOW_WATER

/-- `crossSectionIsWater`: from port to starboard, one lateral step after the other. -/
def crossSectionIsWater (w : World R) (startPoint : Point R) (headingRad clearance : R)
    (travelled : R) : Bool :=
  let cx := startPoint.x + cos headingRad * travelled
  let cz := startPoint.z + sin headingRad * travelled
  let lateralStep := min (1 / 2 * metersPerNm) (max 100 (clearance / 4))
  whileSteps (fun lateral => lateral ≤ clearance)
    (fun lateral => isWater w (cx + -sin headingRad * lateral) (cz + cos headingRad * lateral))
    lateralStep (stepRounds lateralStep clearance (-clearance)) (-clearance)

/-- `M.straightCourseIsSafe`. -/
def straightCourseIsSafe (w : World R) (startPoint : Point R) (headingDeg distanceMeters : R)
    (cfg : Config R) : Bool :=
  if distanceMeters ≤ 0 then false
  else
    let clearance := Value.numberOr (cfg.value "landClearanceNm") 2 * metersPerNm
    let step := min 500 (max 100 (clearance / 4))
    let isSection := crossSectionIsWater w startPoint (luaRad headingDeg) clearance
    whileSteps (fun travelled => travelled < distanceMeters) isSection step
      (stepRounds step distanceMeters 0) 0 && isSection distanceMeters

/-- On open water every leg that leads somewhere is safe. -/
theorem straightCourseIsSafe_of_water {w : World R} (h : ∀ x z, isWater w x z = true)
    (startPoint : Point R) (headingDeg : R) {distanceMeters : R} (hd : 0 < distanceMeters)
    (cfg : Config R) :
    straightCourseIsSafe w startPoint headingDeg distanceMeters cfg = true := by
  have hsection : ∀ clearance x,
      crossSectionIsWater w startPoint (luaRad headingDeg) clearance x = true :=
    fun _ _ => whileSteps_of_test (fun _ => h _ _) _ _ _
  simp only [straightCourseIsSafe, if_neg hd.not_ge, hsection, Bool.and_true]
  exact whileSteps_of_test (hsection _) _ _ _

/-! ## 4. Routes -/

/-- `M.buildRoute`: a straight leg on the recovery heading, if it is safe. -/
def buildRoute (w : World R) (data : WindData R) (requiredSec : R) (cfg : Config R) :
    Option (List (Waypoint R)) :=
  let speedMps := data.recoverySpeedKt * mpsPerKnot
  let distance := speedMps * requiredSec
  let headingRad := luaRad data.recoveryHeadingDeg
  let startPoint : Point R := ⟨data.point.x, data.point.z⟩
  if straightCourseIsSafe w startPoint data.recoveryHeadingDeg distance cfg then
    some [⟨startPoint.x, startPoint.z, speedMps, none⟩,
      ⟨startPoint.x + cos headingRad * distance, startPoint.z + sin headingRad * distance,
        speedMps, none⟩]
  else none

theorem buildRoute_of_water {w : World R} (h : ∀ x z, isWater w x z = true) {data : WindData R}
    {requiredSec : R} (hd : 0 < data.recoverySpeedKt * mpsPerKnot * requiredSec)
    (cfg : Config R) : (buildRoute w data requiredSec cfg).isSome := by
  simp only [buildRoute, straightCourseIsSafe_of_water h _ _ hd, if_true, Option.isSome_some]

/-- How a ship goes back to its normal circuit. -/
inductive Strategy
  | editorRoute
  | returnToStart
  deriving DecidableEq

/-- What the ship was doing before a recovery. -/
structure Circuit (R : Type*) where
  startPoint : Point R
  headingDeg : R
  speedKt : R
  editorRoute : Option (List (Waypoint R))
  strategy : Strategy

/-- `M.editorRoute`. -/
def editorRoute (w : World R) (groupName : String) : Option (List (Waypoint R)) :=
  (w.mission.find? fun group => group.name = groupName).map EditorGroup.points

/-- `M.captureNormalCircuit`. -/
def captureNormalCircuit (w : World R) (groupName : String) (data : WindData R) : Circuit R where
  startPoint := ⟨data.point.x, data.point.z⟩
  headingDeg := data.headingDeg
  speedKt := data.shipSpeedKt
  editorRoute := editorRoute w groupName
  strategy :=
    if 2 ≤ ((editorRoute w groupName).getD []).length then .editorRoute else .returnToStart

/-- `distance2D`. -/
def distance2D (a b : Point R) : R :=
  sqrt ((b.x - a.x) * (b.x - a.x) + (b.z - a.z) * (b.z - a.z))

/-- One round of the search for the closest waypoint; no distance yet is `math.huge`. -/
def closer (current : Point R) (best : Nat × Option R) (p : Waypoint R × Nat) : Nat × Option R :=
  let d := distance2D current ⟨p.1.x, p.1.z⟩
  match best.2 with
  | none => (p.2, some d)
  | some bestDistance => if d < bestDistance then (p.2, some d) else best

/-- `bestIndex`: the closest waypoint after the first, counted from 1. -/
def bestIndex (current : Point R) (points : List (Waypoint R)) : Nat :=
  (((points.zipIdx 1).drop 1).foldl (closer current) (2, none)).1

/-- `M.normalCircuitRoute`. -/
def normalCircuitRoute (snapshot : Circuit R) (current : Point R) (cfg : Config R) :
    List (Waypoint R) :=
  let minMps := Value.numberOr (cfg.value "minSpeedKt") 10 * mpsPerKnot
  let points := snapshot.editorRoute.getD []
  if snapshot.strategy = .editorRoute ∧ 2 ≤ points.length then
    let rest := points.drop (bestIndex current points - 1)
    let rejoinSpeed := max ((rest.head?.map Waypoint.speed).getD 0) minMps
    ⟨current.x, current.z, rejoinSpeed, none⟩ ::
      rest.map fun wp => { wp with speed := max wp.speed minMps }
  else
    let speedMps := max (snapshot.speedKt * mpsPerKnot) minMps
    [⟨current.x, current.z, speedMps, none⟩,
      ⟨snapshot.startPoint.x, snapshot.startPoint.z, speedMps, none⟩]

end Navigation

end DcsDashboard.Carrier

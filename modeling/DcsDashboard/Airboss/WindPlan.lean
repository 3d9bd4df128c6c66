/-
# The page's plan and the controller's course

`windSolver.ts` is a port of `M.solve`, and `CarrierPanel.tsx` feeds it from the telemetry report.
The port is exact (`solveIntoWind_eq_solve`).  The panel does not pass the reported headwind on,
so the solver rebuilds it from the reported wind direction; and below half a knot the controller
reports the ship's own heading as that direction.  Whenever the weak-wind rule applies there, page
and controller aim for speeds that differ by the wind speed less the headwind, and the plan is
what the controller steers unless the two round apart (`plan_is_steered_iff`).
-/
import DcsDashboard.Carrier.WindReport
import DcsDashboard.Carrier.CalmSea

namespace DcsDashboard.Airboss

open Lib Carrier LuaMath

/-! ## 1. The page's solver -/

section Solver

variable {R : Type*} [Field R] [LinearOrder R] [FloorRing R]

/-- `Math.trunc`. -/
def trunc (a : R) : R := if a < 0 then -⌊-a⌋ else ⌊a⌋

/-- `a % b` of JavaScript, which takes the sign of `a`. -/
def jsRem (a b : R) : R := a - trunc (a / b) * b

/-- `mod`. -/
def mod (value divisor : R) : R := jsRem (jsRem value divisor + divisor) divisor

/-- `normalizeHeadingDeg` of the page. -/
def pageHeadingDeg (heading : R) : R := mod heading 360

/-- `SolverInput`. -/
structure SolverInput (R : Type*) where
  windFromDeg : R
  windSpeedKt : R
  targetWodKt : R
  deckOffsetDeg : R
  minSpeedKt : R
  maxSpeedKt : R
  angledDeckMinWindKt : R
  headingDeg : Option R
  naturalHeadwindKt : Option R

variable [LuaMath R]

/-- `toRad`. -/
def toRad (deg : R) : R := deg * pi / 180

/-- `toDeg`. -/
def toDeg (rad : R) : R := rad * 180 / pi

/-- `naturalHeadwindKt` of `solveIntoWind`: as given, else rebuilt from the wind direction. -/
def SolverInput.headwind (input : SolverInput R) : R :=
  let windFromDeg := pageHeadingDeg input.windFromDeg
  let headingDeg := (input.headingDeg.map pageHeadingDeg).getD windFromDeg
  input.naturalHeadwindKt.getD (input.windSpeedKt * cos (toRad (windFromDeg - headingDeg)))

/-- The branches of `solveIntoWind` that turn the ship: `v`, `theta` and `regime`.  The names of
`SolverRegime` are those of `Regime`, and the quotient of a limited branch is kept within bounds
by the expression `M.solve` has. -/
def planAngled (windSpeedKt targetWod minSpeed maxSpeed alpha : R) : R × R × Regime :=
  let vdeckMax := windSpeedKt + cos alpha * maxSpeed
  let vdeckMin := windSpeedKt + cos alpha * minSpeed
  if targetWod > vdeckMax then
    (maxSpeed, limitedAngle maxSpeed windSpeedKt alpha, .vmax_limited)
  else if targetWod < vdeckMin then
    (minSpeed, limitedAngle minSpeed windSpeedKt alpha, .vmin_limited)
  else if targetWod * sin alpha > windSpeedKt then
    let sq := targetWod * targetWod - windSpeedKt * windSpeedKt
    (sqrt (if sq > 0 then sq else 0), pi / 2, .low_wind)
  else
    let theta := asin (targetWod * sin alpha / windSpeedKt)
    (targetWod * cos alpha - windSpeedKt * cos theta, theta, .optimal)

/-- `solveIntoWind`. -/
def solveIntoWind (input : SolverInput R) : Solution R :=
  let windFromDeg := pageHeadingDeg input.windFromDeg
  let windSpeedKt := input.windSpeedKt
  let targetWod := input.targetWodKt
  let headingDeg := (input.headingDeg.map pageHeadingDeg).getD windFromDeg
  let (recoveryHeadingDeg, recoverySpeedKt, regime) :=
    if windSpeedKt ≥ input.angledDeckMinWindKt then
      let windto := mod (windFromDeg + 180) 360
      let (v, theta, regime) := planAngled windSpeedKt targetWod input.minSpeedKt input.maxSpeedKt
        (toRad input.deckOffsetDeg)
      (mod (540 + windto + toDeg theta) 360, v, regime)
    else (headingDeg, targetWod - input.headwind, Regime.weak_wind)
  let recoverySpeedKt :=
    if recoverySpeedKt < input.minSpeedKt then input.minSpeedKt else recoverySpeedKt
  let recoverySpeedKt :=
    if recoverySpeedKt > input.maxSpeedKt then input.maxSpeedKt else recoverySpeedKt
  { headingDeg := pageHeadingDeg recoveryHeadingDeg, speedKt := recoverySpeedKt, regime := regime }

end Solver

/-! ## 2. The port is exact -/

section Port

/-- **The page's `mod` is Lua's `%`.** -/
theorem mod_eq_luaMod (value : ℝ) {divisor : ℝ} (hd : 0 < divisor) :
    mod value divisor = luaMod value divisor := by
  obtain ⟨n, hn⟩ : ∃ n : ℤ, trunc (value / divisor) = n := by
    unfold trunc
    split
    · exact ⟨-⌊-(value / divisor)⌋, by push_cast; ring⟩
    · exact ⟨_, rfl⟩
  have hrem : -divisor < jsRem value divisor := by
    have htrunc : trunc (value / divisor) < value / divisor + 1 := by
      unfold trunc
      split
      · have := Int.lt_floor_add_one (-(value / divisor))
        linarith
      · have := Int.floor_le (value / divisor)
        linarith
    have hmul : trunc (value / divisor) * divisor < value + divisor := by
      calc
        trunc (value / divisor) * divisor < (value / divisor + 1) * divisor := by
          exact mul_lt_mul_of_pos_right htrunc hd
        _ = value + divisor := by field_simp
    unfold jsRem
    linarith
  have hpos : ¬ (jsRem value divisor + divisor) / divisor < 0 := by
    have : 0 ≤ (jsRem value divisor + divisor) / divisor := div_nonneg (by linarith) hd.le
    exact this.not_gt
  have houter : mod value divisor = luaMod (jsRem value divisor + divisor) divisor := by
    rw [mod, jsRem, trunc, if_neg hpos, luaMod]
  have hshift : jsRem value divisor + divisor = value + ((1 - n : ℤ) : ℝ) * divisor := by
    rw [jsRem, hn]
    push_cast
    ring
  rw [houter, hshift, luaMod_add_int_mul value _ hd]

theorem pageHeadingDeg_eq (heading : ℝ) : pageHeadingDeg heading = normalizeHeadingDeg heading := by
  rw [pageHeadingDeg, mod_eq_luaMod heading (by norm_num), normalizeHeadingDeg_eq]

theorem toRad_eq_luaRad (deg : ℝ) : toRad deg = luaRad deg := by
  simp only [toRad, luaRad]
  ring

theorem toDeg_eq_luaDeg (rad : ℝ) : toDeg rad = luaDeg rad := by
  simp only [toDeg, luaDeg]
  ring

/-- The turning branches are those of `M.solve`, in another order of the results. -/
theorem planAngled_eq (windSpeedKt targetWod minSpeed maxSpeed alpha : ℝ) :
    planAngled windSpeedKt targetWod minSpeed maxSpeed alpha =
      ((solveAngled windSpeedKt targetWod minSpeed maxSpeed alpha).2.1,
        (solveAngled windSpeedKt targetWod minSpeed maxSpeed alpha).1,
        (solveAngled windSpeedKt targetWod minSpeed maxSpeed alpha).2.2) := by
  simp only [planAngled, solveAngled, ← sq]
  split_ifs <;> rfl

/-- The parameters of `M.solve` that an input of the page stands for. -/
noncomputable def SolverInput.params (input : SolverInput ℝ) : SolveParams ℝ where
  windFromDeg := input.windFromDeg
  windSpeedKt := input.windSpeedKt
  targetWodKt := some (.number input.targetWodKt)
  deckOffsetDeg := input.deckOffsetDeg
  minSpeedKt := some (.number input.minSpeedKt)
  maxSpeedKt := some (.number input.maxSpeedKt)
  angledDeckMinWindKt := some (.number input.angledDeckMinWindKt)
  headingDeg := input.headingDeg.getD input.windFromDeg
  naturalHeadwindKt := input.headwind

/-- **The port is exact.** -/
theorem solveIntoWind_eq_solve (input : SolverInput ℝ) :
    solveIntoWind input = solve input.params := by
  have hheading : (input.headingDeg.map pageHeadingDeg).getD (pageHeadingDeg input.windFromDeg) =
      normalizeHeadingDeg (input.headingDeg.getD input.windFromDeg) := by
    cases input.headingDeg <;> simp [pageHeadingDeg_eq]
  have hmod : ∀ a : ℝ, mod a 360 = luaMod a 360 := fun a => mod_eq_luaMod a (by norm_num)
  have hnumber : ∀ n d : ℝ, Value.numberOr (some (.number n)) d = n := fun _ _ => rfl
  by_cases hwind : input.windSpeedKt ≥ input.angledDeckMinWindKt
  · simp only [solveIntoWind, solve, SolverInput.params, hnumber, if_pos hwind, pageHeadingDeg_eq,
      hmod, toRad_eq_luaRad, toDeg_eq_luaDeg, planAngled_eq, limitSpeed]
  · simp only [solveIntoWind, solve, SolverInput.params, hnumber, if_neg hwind, limitSpeed,
      hheading]
    rw [pageHeadingDeg_eq]

end Port

/-! ## 3. The panel -/

/-- A number of a report. -/
def numeric {R : Type*} : Option (Value R) → Option R
  | some (.number n) => some n
  | _ => none

/-- The members of `AirbossReport` that the plan is made of or compared with. -/
structure AirbossReport (R : Type*) where
  brc : R
  twDir : R
  twSpd : R
  targetWod : R
  recoveryHeading : R
  recoverySpeed : R
  regime : Regime
  deckOffset : R
  minSpeed : R
  maxSpeed : R
  angledDeckMinWind : R

/-- A report with the types the page gives it. -/
def AirbossReport.ofReport {R : Type*} (report : WindReport R) : Option (AirbossReport R) := do
  let targetWod ← numeric report.targetWod
  let minSpeed ← numeric report.minSpeed
  let maxSpeed ← numeric report.maxSpeed
  let angledDeckMinWind ← numeric report.angledDeckMinWind
  return {
    brc := report.brc
    twDir := report.twDir
    twSpd := report.twSpd
    targetWod := targetWod
    recoveryHeading := report.recoveryHeading
    recoverySpeed := report.recoverySpeed
    regime := report.regime
    deckOffset := report.deckOffset
    minSpeed := minSpeed
    maxSpeed := maxSpeed
    angledDeckMinWind := angledDeckMinWind }

/-- `planned` of `CarrierPanel.tsx`. -/
def planned {R : Type*} [Field R] [LinearOrder R] [FloorRing R] [LuaMath R]
    (report : Option (AirbossReport R)) (carrierDeckOffset : Option R) (profileDeckOffset : R)
    (targetWod : R) (actualHeading : Option R) : Solution R :=
  solveIntoWind {
    windFromDeg := (report.map AirbossReport.twDir).getD 0
    windSpeedKt := (report.map AirbossReport.twSpd).getD 0
    targetWodKt := targetWod
    deckOffsetDeg :=
      ((report.map AirbossReport.deckOffset).or carrierDeckOffset).getD profileDeckOffset
    minSpeedKt := (report.map AirbossReport.minSpeed).getD 10
    maxSpeedKt := (report.map AirbossReport.maxSpeed).getD 30
    angledDeckMinWindKt := (report.map AirbossReport.angledDeckMinWind).getD 3
    headingDeg := actualHeading
    naturalHeadwindKt := none }

/-- The plan is what the report says the controller would steer. -/
def Steered (report : AirbossReport ℝ) (plan : Solution ℝ) : Prop :=
  plan.headingDeg = report.recoveryHeading ∧ plan.regime = report.regime ∧
    luaFloor (plan.speedKt + 1 / 2) = report.recoverySpeed

/-! ## 4. What the controller reports -/

/-- The tunables the solver reads, for a ship with an angled deck. -/
structure Tunables where
  targetWodKt : ℝ
  minSpeedKt : ℝ
  maxSpeedKt : ℝ
  angledDeckMinWindKt : ℝ
  angledDeckOffsetDeg : ℝ
  minSpeedKt_pos : 0 < minSpeedKt
  min_le_max : minSpeedKt ≤ maxSpeedKt
  angledDeckMinWindKt_pos : 0 < angledDeckMinWindKt
  angledDeckOffsetDeg_pos : 0 < angledDeckOffsetDeg
  angledDeckOffsetDeg_lt : angledDeckOffsetDeg < 90

/-- A configuration holds these numbers. -/
structure Configured (cfg : Config ℝ) (t : Tunables) : Prop where
  target : cfg.value "targetWodKt" = some (.number t.targetWodKt)
  minSpeed : cfg.value "minSpeedKt" = some (.number t.minSpeedKt)
  maxSpeed : cfg.value "maxSpeedKt" = some (.number t.maxSpeedKt)
  minWind : cfg.value "angledDeckMinWindKt" = some (.number t.angledDeckMinWindKt)
  offset : cfg.value "angledDeckOffsetDeg" = some (.number t.angledDeckOffsetDeg)

/-- Neither the deck class nor a configured type name makes the deck straight. -/
structure AngledDeck (cfg : Config ℝ) (lead : ShipUnit ℝ) : Prop where
  notVstol : (classifyDeck lead.attributes lead.typeName).1 ≠ some .vstol
  notStraight : (cfg.straightDeckTypes.getD []).any (findPlain lead.typeName) = false

/-- A ship on a level keel in a natural wind. -/
structure Underway (w : World ℝ) (g : String) (lead : ShipUnit ℝ) (wind forward : Vec3 ℝ) :
    Prop where
  ship : ∃ group, w.leadUnit g = some (group, lead)
  axis : lead.forward = some forward
  level : Level forward
  wind : ∃ point, lead.point = some point ∧
    (w.wind ⟨point.x, point.y + 18, point.z⟩).getD ⟨0, 0, 0⟩ = wind

/-- `windFromDeg` of `M.windData`. -/
noncomputable def reportedFromDeg (wind forward : Vec3 ℝ) : ℝ :=
  if horizontalKt wind ≥ 1 / 2 then measuredFromDeg wind else headingFromUnit forward

/-- What `M.windData` hands to `M.solve`. -/
noncomputable def Tunables.params (t : Tunables) (wind forward : Vec3 ℝ) : SolveParams ℝ where
  windFromDeg := reportedFromDeg wind forward
  windSpeedKt := horizontalKt wind
  targetWodKt := some (.number t.targetWodKt)
  deckOffsetDeg := t.angledDeckOffsetDeg
  minSpeedKt := some (.number t.minSpeedKt)
  maxSpeedKt := some (.number t.maxSpeedKt)
  angledDeckMinWindKt := some (.number t.angledDeckMinWindKt)
  headingDeg := headingFromUnit forward
  naturalHeadwindKt := headwindKt wind forward

/-- The report of a ship under way. -/
noncomputable def Tunables.report (t : Tunables) (wind forward : Vec3 ℝ) : AirbossReport ℝ where
  brc := headingFromUnit forward
  twDir := reportedFromDeg wind forward
  twSpd := horizontalKt wind
  targetWod := t.targetWodKt
  recoveryHeading := (solve (t.params wind forward)).headingDeg
  recoverySpeed := luaFloor ((solve (t.params wind forward)).speedKt + 1 / 2)
  regime := (solve (t.params wind forward)).regime
  deckOffset := t.angledDeckOffsetDeg
  minSpeed := t.minSpeedKt
  maxSpeed := t.maxSpeedKt
  angledDeckMinWind := t.angledDeckMinWindKt

section Reported

variable {cfg : Config ℝ} {t : Tunables} {lead : ShipUnit ℝ} {wind forward : Vec3 ℝ}

theorem AngledDeck.offset (hdeck : AngledDeck cfg lead) (hcfg : Configured cfg t) :
    deckOffsetForType lead.typeName cfg (classifyDeck lead.attributes lead.typeName).1 =
      t.angledDeckOffsetDeg := by
  have hnot : ((cfg.straightDeckTypes.getD []).any fun pattern =>
      findPlain lead.typeName pattern) = false := hdeck.notStraight
  simp [deckOffsetForType, hdeck.notVstol, hnot, hcfg.offset, Value.tonumber]

/-- **The report** of a ship under way, from the wind and the axis of the ship. -/
theorem windReport_underway {s : State ℝ} {w : World ℝ} {g : String}
    (hship : Underway w g lead wind forward) (hcfg : Configured (s.setup.config (some g)) t)
    (hdeck : AngledDeck (s.setup.config (some g)) lead) (footholdState : Option (Option String)) :
    (s.windReport w footholdState g).toOption.bind AirbossReport.ofReport =
      some (t.report wind forward) := by
  obtain ⟨group, hlead⟩ := hship.ship
  obtain ⟨point, hpoint, hwind⟩ := hship.wind
  have hoffset := hdeck.offset hcfg
  simp only [State.windReport, windData, hlead, hpoint, hship.axis, hwind, hoffset, hcfg.target,
    hcfg.minSpeed, hcfg.maxSpeed, hcfg.minWind, Option.bind_eq_bind, Option.bind_some,
    Option.pure_def]
  rfl

end Reported

/-! ## 5. Page against controller -/

/-- **When the plan is what the controller steers**: the wind has a direction, or it is strong
enough to turn into, or no half between the speed limits lies between the two speeds aimed for. -/
def PlanHolds (t : Tunables) (wind forward : Vec3 ℝ) : Prop :=
  1 / 2 ≤ horizontalKt wind ∨ t.angledDeckMinWindKt ≤ horizontalKt wind ∨
    ¬ ∃ k : ℤ, t.minSpeedKt < k - 1 / 2 ∧ k - 1 / 2 ≤ t.maxSpeedKt ∧
      headwindKt wind forward ≤ t.targetWodKt - (k - 1 / 2) ∧
      t.targetWodKt - (k - 1 / 2) < horizontalKt wind

section Limits

variable {speed speed' lo hi : ℝ}

/-- **Two limited speeds round apart** when a half between the limits lies between them. -/
theorem floor_limitSpeed_ne_iff (hle : lo ≤ hi) (h : speed ≤ speed') :
    ⌊limitSpeed speed lo hi + 1 / 2⌋ ≠ ⌊limitSpeed speed' lo hi + 1 / 2⌋ ↔
      ∃ k : ℤ, lo < k - 1 / 2 ∧ (k : ℝ) - 1 / 2 ≤ hi ∧ speed < k - 1 / 2 ∧ k - 1 / 2 ≤ speed' := by
  have hmono : min hi (max lo speed) ≤ min hi (max lo speed') :=
    min_le_min_left _ (max_le_max_left _ h)
  rw [limitSpeed_eq hle, limitSpeed_eq hle, floor_add_half_ne_iff hmono]
  refine exists_congr ?_
  intro k
  rw [min_lt_iff, max_lt_iff, le_min_iff, le_max_iff]
  constructor
  · rintro ⟨hbelow, hhi, habove⟩
    obtain ⟨hlo, hspeed⟩ := hbelow.resolve_left hhi.not_gt
    exact ⟨hlo, hhi, hspeed, habove.resolve_left hlo.not_ge⟩
  · rintro ⟨hlo, hhi, hspeed, hspeed'⟩
    exact ⟨.inr ⟨hlo, hspeed⟩, hhi, .inr hspeed'⟩

end Limits

section Plan

variable {t : Tunables} {wind forward : Vec3 ℝ}

/-- The headwind the page rebuilds: the measured one, or in a wind without direction all of it. -/
noncomputable def rebuiltHeadwindKt (wind forward : Vec3 ℝ) : ℝ :=
  if 1 / 2 ≤ horizontalKt wind then headwindKt wind forward else horizontalKt wind

theorem rebuiltHeadwind_eq (hlevel : Level forward) :
    horizontalKt wind * cos (luaRad (reportedFromDeg wind forward - headingFromUnit forward)) =
      rebuiltHeadwindKt wind forward := by
  unfold reportedFromDeg rebuiltHeadwindKt
  by_cases hwind : 1 / 2 ≤ horizontalKt wind
  · rw [if_pos hwind, if_pos hwind, headwind_of_windFrom hlevel]
    rfl
  · have hzero : (cos (luaRad (0 : ℝ)) : ℝ) = 1 := by
      simp [luaRad, LuaMath.cos]
    rw [if_neg hwind, if_neg hwind, sub_self, hzero, mul_one]

theorem headwindKt_le_rebuilt (hlevel : Level forward) :
    headwindKt wind forward ≤ rebuiltHeadwindKt wind forward := by
  unfold rebuiltHeadwindKt
  split
  · exact le_rfl
  · exact headwindKt_le hlevel

/-- A reported direction is normalized. -/
theorem normalizeHeadingDeg_reported :
    normalizeHeadingDeg (reportedFromDeg wind forward) = reportedFromDeg wind forward := by
  unfold reportedFromDeg
  split
  · exact normalizeHeadingDeg_idem _
  · exact normalizeHeadingDeg_idem _

/-- **What the page solves**: the controller's parameters with the rebuilt headwind. -/
theorem planned_eq_solve (hlevel : Level forward) (carrierDeckOffset : Option ℝ)
    (profileDeckOffset : ℝ) :
    planned (some (t.report wind forward)) carrierDeckOffset profileDeckOffset
        (t.report wind forward).targetWod (some (t.report wind forward).brc) =
      solve { t.params wind forward with naturalHeadwindKt := rebuiltHeadwindKt wind forward } := by
  have hbrc : normalizeHeadingDeg (headingFromUnit forward) = headingFromUnit forward :=
    normalizeHeadingDeg_idem _
  rw [planned, solveIntoWind_eq_solve]
  congr 1
  simp only [SolverInput.params, SolverInput.headwind, Tunables.params, Tunables.report,
    Option.map_some, Option.getD_some, Option.getD_none, Option.some_or, pageHeadingDeg_eq,
    toRad_eq_luaRad, normalizeHeadingDeg_reported, hbrc, rebuiltHeadwind_eq hlevel]

/-- The headwind only matters in a weak wind. -/
theorem solve_strong {p : SolveParams ℝ} (n : ℝ)
    (h : Value.numberOr p.angledDeckMinWindKt 3 ≤ p.windSpeedKt) :
    solve { p with naturalHeadwindKt := n } = solve p := by
  simp only [solve, ge_iff_le, if_pos h]

/-- In a weak wind the course is kept, and the speed makes up for the headwind. -/
theorem solve_weak_params (hweak : horizontalKt wind < t.angledDeckMinWindKt) (n : ℝ) :
    solve { t.params wind forward with naturalHeadwindKt := n } =
      ⟨headingFromUnit forward, limitSpeed (t.targetWodKt - n) t.minSpeedKt t.maxSpeedKt,
        .weak_wind⟩ := by
  have hheading : normalizeHeadingDeg (normalizeHeadingDeg (headingFromUnit forward)) =
      headingFromUnit forward := by
    rw [normalizeHeadingDeg_idem]
    exact normalizeHeadingDeg_idem _
  rw [solve_weak (by exact hweak)]
  simp only [Tunables.params, Value.numberOr, Value.tonumber, Option.bind_some, Option.getD_some,
    hheading]

/-- In a weak wind the plan is steered when the two speeds round to the same. -/
theorem steered_weak_iff (hlevel : Level forward)
    (hweak : horizontalKt wind < t.angledDeckMinWindKt) :
    Steered (t.report wind forward)
        (solve { t.params wind forward with
          naturalHeadwindKt := rebuiltHeadwindKt wind forward }) ↔
      ¬ ∃ k : ℤ, t.minSpeedKt < k - 1 / 2 ∧ k - 1 / 2 ≤ t.maxSpeedKt ∧
        headwindKt wind forward ≤ t.targetWodKt - (k - 1 / 2) ∧
        t.targetWodKt - (k - 1 / 2) < rebuiltHeadwindKt wind forward := by
  have hle : t.targetWodKt - rebuiltHeadwindKt wind forward ≤
      t.targetWodKt - headwindKt wind forward :=
    sub_le_sub_left (headwindKt_le_rebuilt hlevel) _
  have hmeasured : solve (t.params wind forward) =
      ⟨headingFromUnit forward,
        limitSpeed (t.targetWodKt - headwindKt wind forward) t.minSpeedKt t.maxSpeedKt,
        .weak_wind⟩ :=
    solve_weak_params hweak (headwindKt wind forward)
  have hrounded := floor_limitSpeed_ne_iff t.min_le_max hle
  rw [solve_weak_params hweak]
  simp only [Steered, Tunables.report, hmeasured, true_and, luaFloor, Int.cast_inj]
  rw [← not_iff_not, not_not, ← ne_eq, hrounded]
  refine exists_congr ?_
  intro k
  constructor
  · rintro ⟨hlo, hhi, hplan, hreport⟩
    exact ⟨hlo, hhi, by linarith, by linarith⟩
  · rintro ⟨hlo, hhi, hreport, hplan⟩
    exact ⟨hlo, hhi, by linarith, by linarith⟩

/-- **The plan against the report.** -/
theorem steered_iff (hlevel : Level forward) (carrierDeckOffset : Option ℝ)
    (profileDeckOffset : ℝ) :
    Steered (t.report wind forward)
        (planned (some (t.report wind forward)) carrierDeckOffset profileDeckOffset
          (t.report wind forward).targetWod (some (t.report wind forward).brc)) ↔
      PlanHolds t wind forward := by
  rw [planned_eq_solve hlevel]
  by_cases hstrong : t.angledDeckMinWindKt ≤ horizontalKt wind
  · rw [solve_strong _ (by exact hstrong)]
    exact iff_of_true ⟨rfl, rfl, rfl⟩ (.inr (.inl hstrong))
  · rw [steered_weak_iff hlevel (not_le.mp hstrong)]
    by_cases hwind : 1 / 2 ≤ horizontalKt wind
    · -- the wind has a direction: the rebuilt headwind is the measured one
      have hrebuilt : rebuiltHeadwindKt wind forward = headwindKt wind forward := if_pos hwind
      rw [hrebuilt]
      refine iff_of_true ?_ (.inl hwind)
      rintro ⟨k, -, -, hreport, hplan⟩
      exact absurd hplan hreport.not_gt
    · have hrebuilt : rebuiltHeadwindKt wind forward = horizontalKt wind := if_neg hwind
      rw [hrebuilt]
      simp only [PlanHolds, hwind, hstrong, false_or]

/-- **The page plan.**  From the report of a ship under way, the page plans the recovery heading,
the regime and the speed of the report exactly when the wind has a direction or is strong enough to
turn into, or no rounding half lies between the two speeds aimed for. -/
theorem plan_is_steered_iff {s : State ℝ} {w : World ℝ} {g : String} {lead : ShipUnit ℝ}
    (hship : Underway w g lead wind forward) (hcfg : Configured (s.setup.config (some g)) t)
    (hdeck : AngledDeck (s.setup.config (some g)) lead) (footholdState : Option (Option String))
    (carrierDeckOffset : Option ℝ) (profileDeckOffset : ℝ) :
    ∃ report : AirbossReport ℝ,
      (s.windReport w footholdState g).toOption.bind AirbossReport.ofReport = some report ∧
      (Steered report
          (planned (some report) carrierDeckOffset profileDeckOffset report.targetWod
            (some report.brc)) ↔
        PlanHolds t wind forward) :=
  ⟨_, windReport_underway hship hcfg hdeck footholdState,
    steered_iff hship.level carrierDeckOffset profileDeckOffset⟩

end Plan

/-! ## 6. A breeze from astern -/

/-- A carrier steering north in a wind from astern. -/
noncomputable def asternBreeze (mps : ℝ) : World ℝ :=
  { calmSea 0 with wind := fun _ => some ⟨mps, 0, 0⟩ }

/-- A mission in which nothing is configured but the target of one group. -/
noncomputable def targetMission (target : ℝ) (g : String) : State ℝ :=
  .injected (bareMission.setGroupOverrides g ⟨some (.number target), false⟩).1

/-- The default tunables, with a target. -/
noncomputable def standardTunables (target : ℝ) : Tunables where
  targetWodKt := target
  minSpeedKt := 10
  maxSpeedKt := 30
  angledDeckMinWindKt := 3
  angledDeckOffsetDeg := 914 / 100
  minSpeedKt_pos := by norm_num
  min_le_max := by norm_num
  angledDeckMinWindKt_pos := by norm_num
  angledDeckOffsetDeg_pos := by norm_num
  angledDeckOffsetDeg_lt := by norm_num

theorem asternBreeze_underway (mps : ℝ) (g : String) :
    Underway (asternBreeze mps) g calmShip ⟨mps, 0, 0⟩ ⟨1, 0, 0⟩ where
  ship := ⟨_, rfl⟩
  axis := rfl
  level := ⟨rfl, by norm_num⟩
  wind := ⟨_, rfl, rfl⟩

theorem targetMission_configured (target : ℝ) (hlow : 10 ≤ target) (hhigh : target ≤ 45) {g : String}
    (hg : g ≠ "") :
    Configured ((targetMission target g).setup.config (some g)) (standardTunables target) := by
  have hplain : Plain ((targetMission target g).setup.config (some g)) target :=
    (bareMission_plain g).setGroupOverrides hg hlow hhigh
  have hdefault : ∀ {key : String} {n : ℝ}, key ≠ "targetWodKt" →
      (defaults : Config ℝ).value key = some (.number n) →
      ((targetMission target g).setup.config (some g)).value key = some (.number n) :=
    fun hkey hn => (hplain.other _ hkey).trans hn
  exact {
    target := hplain.target
    minSpeed := hdefault (by decide)
      (by simp [defaults, defaultValues, List.lookup_cons, standardTunables])
    maxSpeed := hdefault (by decide)
      (by simp [defaults, defaultValues, List.lookup_cons, standardTunables])
    minWind := hdefault (by decide)
      (by simp [defaults, defaultValues, List.lookup_cons, standardTunables])
    offset := hdefault (by decide)
      (by simp [defaults, defaultValues, List.lookup_cons, standardTunables]) }

/-- No override touches the list of straight decks. -/
theorem targetMission_straightDeckTypes (target : ℝ) {g : String} (hg : g ≠ "") :
    ((targetMission target g).setup.config (some g)).straightDeckTypes =
      some ["Tarawa", "LHA", "Type_071", "Juan_Carlos", "L61", "Essex"] := by
  have hbackend : bareMission.backend g = .standalone := rfl
  have hstored : ∀ current : Overrides ℝ, current.straightDeckTypes = none →
      ((bareMission.storeOverrides g current).config (some g)).straightDeckTypes =
        bareMission.sharedConfig.straightDeckTypes := by
    intro current hcurrent
    simp only [Setup.storeOverrides, Setup.config, Config.override, Option.bind_some,
      Function.update_self]
    split <;> simp [Setup.sharedConfig, Setup.withGlobals, Config.override, Overrides.empty,
      hcurrent]
  simp only [targetMission, State.injected, Setup.setGroupOverrides, if_neg hg, Value.tonumber,
    hbackend, reduceCtorEq, if_false]
  rw [hstored _ rfl]
  rfl

theorem targetMission_angledDeck (target : ℝ) {g : String} (hg : g ≠ "") :
    AngledDeck ((targetMission target g).setup.config (some g)) calmShip where
  notVstol := by
    have hclass : (classifyDeck ["catapult"] "CVN_71").1 = some .catobar := by decide +kernel
    simp [calmShip, hclass]
  notStraight := by
    rw [targetMission_straightDeckTypes target hg]
    decide +kernel

theorem horizontalKt_astern {mps : ℝ} (h : 0 ≤ mps) :
    horizontalKt (⟨mps, 0, 0⟩ : Vec3 ℝ) = mps * knotsPerMps := by
  simp [horizontalKt, LuaMath.sqrt, Real.sqrt_sq h]

theorem headwindKt_astern (mps : ℝ) :
    headwindKt ⟨mps, 0, 0⟩ ⟨1, 0, 0⟩ = -(mps * knotsPerMps) := by
  simp [headwindKt]

/-- Five meters per second from astern: the page plans what the controller steers. -/
theorem plan_is_steered_iff_freshBreeze :
    ∃ report : AirbossReport ℝ,
      ((targetMission 24 "CVN-71").windReport (asternBreeze 5) none "CVN-71").toOption.bind
        AirbossReport.ofReport = some report ∧
      Steered report (planned (some report) none 0 report.targetWod (some report.brc)) := by
  have hwind : PlanHolds (standardTunables 24) ⟨5, 0, 0⟩ ⟨1, 0, 0⟩ := by
    left
    rw [horizontalKt_astern (by norm_num)]
    norm_num [knotsPerMps]
  obtain ⟨report, hreport, hiff⟩ := plan_is_steered_iff (asternBreeze_underway 5 "CVN-71")
    (targetMission_configured 24 (by norm_num) (by norm_num) (by decide))
    (targetMission_angledDeck 24 (by decide)) none none 0
  exact ⟨report, hreport, hiff.mpr hwind⟩

/-- **The plan is a knot slower** than what the controller steers, in a wind of 0.4 knots from
astern and with a target of 24.5 knots. -/
theorem plan_slower_than_steered :
    ∃ report : AirbossReport ℝ,
      ((targetMission (49 / 2) "CVN-71").windReport (asternBreeze (1 / 5)) none "CVN-71").toOption.bind
        AirbossReport.ofReport = some report ∧
      ¬ Steered report (planned (some report) none 0 report.targetWod (some report.brc)) := by
  have hship := asternBreeze_underway (1 / 5) "CVN-71"
  refine ⟨_, windReport_underway hship (targetMission_configured (49 / 2) (by norm_num)
    (by norm_num) (by decide)) (targetMission_angledDeck _ (by decide)) none, ?_⟩
  rw [steered_iff hship.level]
  simp only [PlanHolds, horizontalKt_astern (show (0 : ℝ) ≤ 1 / 5 by norm_num), headwindKt_astern,
    standardTunables, not_or, not_not]
  refine ⟨?_, ?_, 25, ?_⟩
  · norm_num [knotsPerMps]
  · norm_num [knotsPerMps]
  · norm_num [knotsPerMps]

end DcsDashboard.Airboss

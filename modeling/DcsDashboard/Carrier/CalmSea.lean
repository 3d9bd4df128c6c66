/-
# A calm sea

The plainest mission there is: no wind, open water, and every ship lying still and heading
north.  Without wind the solver keeps the course and makes up the target by speed alone
(`calm_windData`), and every leg is safe.  So what the controller does there follows from the
configuration, and with all but the target left at its default (`Plain`) it is the same whatever the
target: keep the course, at the target (`Plain.windData`).
-/
import DcsDashboard.Carrier.Navigation
import DcsDashboard.Carrier.Overrides

namespace DcsDashboard.Carrier

open Lib

/-! ## 1. Ship, wind and solution -/

/-- A carrier at the origin, heading north. -/
noncomputable def calmShip : ShipUnit ℝ where
  isExist := true
  active := true
  point := some ⟨0, 0, 0⟩
  forward := some ⟨1, 0, 0⟩
  velocity := none
  typeName := "CVN_71"
  attributes := ["catapult"]

/-- A mission without wind and land, at a time. -/
noncomputable def calmSea (time : ℝ) : World ℝ where
  time := time
  group _ := some ⟨true, 1, some calmShip, none⟩
  wind _ := none
  surface _ _ := .WATER
  mission := []
  setTaskRaises _ := false
  foothold := (false, none)

theorem calm_isWater (time x z : ℝ) : isWater (calmSea time) x z = true := rfl

theorem normalizeHeadingDeg_zero : normalizeHeadingDeg (0 : ℝ) = 0 := by
  simp [normalizeHeadingDeg, luaMod]

theorem calm_horizontalKt : horizontalKt (⟨0, 0, 0⟩ : Vec3 ℝ) = 0 := by
  simp [horizontalKt, LuaMath.sqrt]

theorem calm_headingFromUnit : headingFromUnit (⟨1, 0, 0⟩ : Vec3 ℝ) = 0 := by
  have harg : LuaMath.atan2 (0 : ℝ) 1 = 0 := Complex.arg_one
  simp [headingFromUnit, harg, luaDeg, normalizeHeadingDeg_zero]

/-- **In a calm the ship keeps its course, and its speed is the target.** -/
theorem calm_windData (time : ℝ) (cfg : Config ℝ) (g : String)
    (hweak : 0 < Value.numberOr (cfg.value "angledDeckMinWindKt") 3) :
    ∃ data, windData (calmSea time) cfg g = some data ∧
      data.headingDeg = 0 ∧ data.recoveryHeadingDeg = 0 ∧
      data.recoverySpeedKt = luaFloor (limitSpeed (Value.numberOr (cfg.value "targetWodKt") 24)
        (Value.numberOr (cfg.value "minSpeedKt") 10)
        (Value.numberOr (cfg.value "maxSpeedKt") 30) + 1 / 2) := by
  have hwind : ∀ p, (calmSea time).wind p = none := fun _ => rfl
  refine ⟨_, rfl, calm_headingFromUnit, ?_, ?_⟩ <;>
    simp only [hwind, Option.getD_none, calm_horizontalKt, calm_headingFromUnit] <;>
    rw [solve_weak (by exact hweak)]
  · simp only [normalizeHeadingDeg_zero]
  · simp

/-! ## 2. Plain configurations -/

/-- Nothing is configured. -/
def bareMission : Setup ℝ := ⟨fun _ => none, none, .empty, fun _ => none, none, fun _ => none⟩

/-- All but the target is at its default. -/
structure Plain (cfg : Config ℝ) (target : ℝ) : Prop where
  target : cfg.value "targetWodKt" = some (.number target)
  other : ∀ key, key ≠ "targetWodKt" → cfg.value key = (defaults : Config ℝ).value key

theorem bareMission_config (g : String) : bareMission.config (some g) = defaults := by
  ext1
  · funext key
    cases footholdGlobals.lookup key <;>
      simp [Setup.config, Setup.sharedConfig, Setup.withGlobals, bareMission, readGlobal]
  · simp [Setup.config, Setup.sharedConfig, Setup.withGlobals, bareMission]

theorem bareMission_plain (g : String) : Plain (bareMission.config (some g)) 24 := by
  rw [bareMission_config]
  exact ⟨by simp [defaults, defaultValues, List.lookup_cons], fun _ _ => rfl⟩

/-- Setting a target keeps a configuration plain. -/
theorem Plain.setGroupOverrides {s : Setup ℝ} {g : String} {target n : ℝ}
    (h : Plain (s.config (some g)) target) (hg : g ≠ "") (hlow : 10 ≤ n) (hhigh : n ≤ 45) :
    Plain ((s.setGroupOverrides g ⟨some (.number n), false⟩).1.config (some g)) n where
  target := by
    rw [Setup.config_setGroupOverrides_self hg rfl]
    simp [clamp, targetWodMinKt, targetWodMaxKt, hlow.not_gt, hhigh.not_gt]
  other key hkey := (Setup.config_setGroupOverrides_other hg rfl hkey).trans (h.other key hkey)

section Plain

variable {cfg : Config ℝ} {target : ℝ} (h : Plain cfg target)

include h

/-- A tunable at its default, whatever stands in for it where it is not configured. -/
theorem Plain.numberOr {key : String} {n : ℝ} (hkey : key ≠ "targetWodKt")
    (hn : (defaults : Config ℝ).value key = some (.number n)) (d : ℝ) :
    Value.numberOr (cfg.value key) d = n := by
  rw [h.other key hkey, hn]; rfl

theorem Plain.requiredSeconds_pos : 0 < requiredSeconds cfg := by
  have hduration : Value.numberOr (cfg.value "durationSec") 1800 = 1800 :=
    h.numberOr (by decide) (by simp [defaults, defaultValues, List.lookup_cons]) _
  have hreserve : Value.numberOr (cfg.value "safetyReserveSec") 300 = 300 :=
    h.numberOr (by decide) (by simp [defaults, defaultValues, List.lookup_cons]) _
  rw [requiredSeconds, hduration, hreserve]
  norm_num

/-- **What a ship in a calm is told.**  Keep the course; the target, rounded, is the speed; and
the leg is safe. -/
theorem Plain.windData (hlow : 10 ≤ target) (hhigh : target ≤ 30) (time : ℝ) (g : String) :
    ∃ data route, Carrier.windData (calmSea time) cfg g = some data ∧
      buildRoute (calmSea time) data (requiredSeconds cfg) cfg = some route ∧
      data.headingDeg = 0 ∧ data.recoveryHeadingDeg = 0 ∧
      data.recoverySpeedKt = luaFloor (target + 1 / 2) := by
  have hmin : Value.numberOr (cfg.value "minSpeedKt") 10 = 10 :=
    h.numberOr (by decide) (by simp [defaults, defaultValues, List.lookup_cons]) _
  have hmax : Value.numberOr (cfg.value "maxSpeedKt") 30 = 30 :=
    h.numberOr (by decide) (by simp [defaults, defaultValues, List.lookup_cons]) _
  have htarget : Value.numberOr (cfg.value "targetWodKt") 24 = target := by rw [h.target]; rfl
  have hweak : Value.numberOr (cfg.value "angledDeckMinWindKt") 3 = 3 :=
    h.numberOr (by decide) (by simp [defaults, defaultValues, List.lookup_cons]) _
  obtain ⟨data, hdata, hheading, hcourse, hspeed⟩ :=
    calm_windData time cfg g (by rw [hweak]; norm_num)
  rw [htarget, hmin, hmax] at hspeed
  have hlimit : limitSpeed target 10 30 = target := by
    simp [limitSpeed, hlow.not_gt, hhigh.not_gt]
  rw [hlimit] at hspeed
  have hpos : 0 < data.recoverySpeedKt * mpsPerKnot * requiredSeconds cfg := by
    have hfloor : (0 : ℝ) < luaFloor (target + 1 / 2) := by
      have : (10 : ℤ) ≤ ⌊target + 1 / 2⌋ := Int.le_floor.mpr (by push_cast; linarith)
      rw [luaFloor]
      exact_mod_cast (by omega : (0 : ℤ) < ⌊target + 1 / 2⌋)
    rw [hspeed]
    exact mul_pos (mul_pos hfloor (by norm_num [mpsPerKnot])) h.requiredSeconds_pos
  obtain ⟨route, hroute⟩ := Option.isSome_iff_exists.mp
    (buildRoute_of_water (calm_isWater time) hpos cfg)
  exact ⟨data, route, hdata, hroute, hheading, hcourse, hspeed⟩

end Plain

end DcsDashboard.Carrier

/-
# The wind down the deck

What `M.solve` is for: on the course and at the speed it returns, the natural wind and the ship's
own way together blow straight down the angled deck.  Along and across the deck the two vectors
have simple components (`along_deck`, `across_deck`), and each branch of the solver is a way to
make the second one zero.

The speed is limited after the branch has been chosen.  The bound that separates `optimal` from
`vmax_limited` takes the wind and the ship's way to add up as if the wind came from ahead, which it
does not: just below it the speed that `optimal` needs is above the maximum (`wayWithin_iff`).
-/
import DcsDashboard.Carrier.WindReport

namespace DcsDashboard.Carrier

open Lib LuaMath

/-! ## 1. The apparent wind -/

section ApparentWind

variable {R : Type*} [Field R] [LuaMath R]

/-- A wind, or a ship's way, as `M.apparentWind` adds them: its components east and north. -/
def windVector (fromDeg speedKt : R) : R × R :=
  (speedKt * sin (luaRad fromDeg), speedKt * cos (luaRad fromDeg))

/-- What `M.apparentWind` returns. -/
structure ApparentWind (R : Type*) where
  fromDeg : R
  speedKt : R
  deckAngleDeg : R

variable [LinearOrder R] [FloorRing R]

/-- `M.apparentWind`. -/
def apparentWind (windFromDeg windSpeedKt shipHeadingDeg shipSpeedKt deckOffsetDeg : R) :
    ApparentWind R :=
  let (ax, ay) := windVector windFromDeg windSpeedKt + windVector shipHeadingDeg shipSpeedKt
  let fromDeg := normalizeHeadingDeg (luaDeg (atan2 ax ay))
  let deckHeading := normalizeHeadingDeg (shipHeadingDeg - deckOffsetDeg)
  { fromDeg := fromDeg
    speedKt := sqrt (ax * ax + ay * ay)
    deckAngleDeg := luaMod (fromDeg - deckHeading + 540) 360 - 180 }

end ApparentWind

theorem windVector_eq_polar (fromDeg speedKt : ℝ) :
    windVector fromDeg speedKt = polar speedKt (luaRad fromDeg) := rfl

/-! ## 2. What the solver is asked -/

section Params

variable {R : Type*} [Field R]

/-- `targetWod` of `M.solve`. -/
def SolveParams.targetWod (params : SolveParams R) : R := Value.numberOr params.targetWodKt 24

/-- `minSpeed` of `M.solve`. -/
def SolveParams.minSpeed (params : SolveParams R) : R := Value.numberOr params.minSpeedKt 10

/-- `maxSpeed` of `M.solve`. -/
def SolveParams.maxSpeed (params : SolveParams R) : R := Value.numberOr params.maxSpeedKt 30

/-- `angledDeckMinWindKt` of `M.solve`. -/
def SolveParams.angledWind (params : SolveParams R) : R :=
  Value.numberOr params.angledDeckMinWindKt 3

/-- `alpha` of `M.solve`. -/
def SolveParams.alpha [LuaMath R] (params : SolveParams R) : R := luaRad params.deckOffsetDeg

/-- `theta`, `v` and `regime` of `M.solve`. -/
def SolveParams.angled [LinearOrder R] [LuaMath R] (params : SolveParams R) : R × R × Regime :=
  solveAngled params.windSpeedKt params.targetWod params.minSpeed params.maxSpeed params.alpha

end Params

/-- An angled deck, sensible speed limits, and wind enough to turn into. -/
structure Windy (params : SolveParams ℝ) : Prop where
  offset_pos : 0 < params.deckOffsetDeg
  offset_lt : params.deckOffsetDeg < 90
  minSpeed_pos : 0 < params.minSpeed
  minSpeed_le : params.minSpeed ≤ params.maxSpeed
  angledWind_pos : 0 < params.angledWind
  wind : params.angledWind ≤ params.windSpeedKt

variable {params : SolveParams ℝ}

theorem Windy.windSpeed_pos (h : Windy params) : 0 < params.windSpeedKt :=
  h.angledWind_pos.trans_le h.wind

theorem Windy.alpha_pos (h : Windy params) : 0 < params.alpha :=
  mul_pos h.offset_pos (div_pos Real.pi_pos (by norm_num))

theorem Windy.alpha_lt (h : Windy params) : params.alpha < Real.pi / 2 := by
  have hpi : (LuaMath.pi : ℝ) = Real.pi := rfl
  have hoffset := h.offset_lt
  have hpos := Real.pi_pos
  simp only [SolveParams.alpha, luaRad, hpi]
  nlinarith

theorem Windy.sin_pos (h : Windy params) : 0 < Real.sin params.alpha :=
  Real.sin_pos_of_pos_of_lt_pi h.alpha_pos (by linarith [h.alpha_lt, Real.pi_pos])

theorem Windy.cos_pos (h : Windy params) : 0 < Real.cos params.alpha :=
  Real.cos_pos_of_mem_Ioo ⟨by linarith [h.alpha_pos, Real.pi_pos], h.alpha_lt⟩

/-- With wind enough the ship turns. -/
theorem Windy.solve_eq (h : Windy params) :
    solve params =
      { headingDeg := normalizeHeadingDeg (luaMod
          (540 + luaMod (normalizeHeadingDeg params.windFromDeg + 180) 360 +
            luaDeg params.angled.1) 360)
        speedKt := limitSpeed params.angled.2.1 params.minSpeed params.maxSpeed
        regime := params.angled.2.2 } := by
  simp only [solve]
  rw [if_pos (by exact h.wind)]
  rfl

/-- The course lies `theta` off the wind. -/
theorem Windy.exists_heading (h : Windy params) : ∃ n : ℤ,
    (solve params).headingDeg = params.windFromDeg + luaDeg params.angled.1 + n * 360 := by
  obtain ⟨i, hi⟩ := exists_luaMod_eq params.windFromDeg 360
  obtain ⟨j, hj⟩ := exists_luaMod_eq (params.windFromDeg + i * 360 + 180) 360
  obtain ⟨k, hk⟩ := exists_luaMod_eq
    (540 + (params.windFromDeg + i * 360 + 180 + j * 360) + luaDeg params.angled.1) 360
  obtain ⟨l, hl⟩ := exists_luaMod_eq
    (540 + (params.windFromDeg + i * 360 + 180 + j * 360) + luaDeg params.angled.1 + k * 360) 360
  refine ⟨i + j + k + l + 2, ?_⟩
  simp only [h.solve_eq, normalizeHeadingDeg_eq, hi, hj, hk, hl]
  push_cast
  ring

theorem Windy.heading_luaRad (h : Windy params) : ∃ n : ℤ,
    luaRad (solve params).headingDeg =
      luaRad params.windFromDeg + params.angled.1 + n * (2 * Real.pi) := by
  obtain ⟨n, hn⟩ := h.exists_heading
  refine ⟨n, ?_⟩
  rw [hn, luaRad_add_turns]
  congr 1
  calc
    luaRad (params.windFromDeg + luaDeg params.angled.1)
        = luaRad params.windFromDeg + luaRad (luaDeg params.angled.1) := by
          simp only [luaRad]
          ring
    _ = luaRad params.windFromDeg + params.angled.1 := by rw [luaRad_luaDeg]

/-! ## 3. Along and across the deck -/

/-- The natural wind and the ship's way on the course and at the speed `M.solve` returns. -/
noncomputable def SolveParams.windOverDeck (params : SolveParams ℝ) : ℝ × ℝ :=
  windVector params.windFromDeg params.windSpeedKt +
    windVector (solve params).headingDeg (solve params).speedKt

/-- The bearing of the angled deck, in degrees. -/
noncomputable def SolveParams.deckAxisDeg (params : SolveParams ℝ) : ℝ :=
  (solve params).headingDeg - params.deckOffsetDeg

/-- The angle from the deck to the wind, up to whole turns. -/
theorem Windy.wind_sub_axis (h : Windy params) : ∃ n : ℤ,
    luaRad params.windFromDeg - luaRad params.deckAxisDeg =
      params.alpha - params.angled.1 - n * (2 * Real.pi) := by
  obtain ⟨n, hn⟩ := h.heading_luaRad
  refine ⟨n, ?_⟩
  rw [SolveParams.deckAxisDeg, luaRad_sub, hn, SolveParams.alpha]
  ring

theorem heading_sub_axis (params : SolveParams ℝ) :
    luaRad (solve params).headingDeg - luaRad params.deckAxisDeg = params.alpha := by
  rw [SolveParams.deckAxisDeg, luaRad_sub, SolveParams.alpha]
  ring

/-- **Along the deck.** -/
theorem Windy.along_deck (h : Windy params) :
    along params.windOverDeck (luaRad params.deckAxisDeg) =
      params.windSpeedKt * Real.cos (params.alpha - params.angled.1) +
        (solve params).speedKt * Real.cos params.alpha := by
  obtain ⟨n, hn⟩ := h.wind_sub_axis
  rw [SolveParams.windOverDeck, windVector_eq_polar, windVector_eq_polar, along_polar_add_polar, hn,
    heading_sub_axis, Real.cos_sub_int_mul_two_pi]

/-- **Across the deck.** -/
theorem Windy.across_deck (h : Windy params) :
    across params.windOverDeck (luaRad params.deckAxisDeg) =
      params.windSpeedKt * Real.sin (params.alpha - params.angled.1) +
        (solve params).speedKt * Real.sin params.alpha := by
  obtain ⟨n, hn⟩ := h.wind_sub_axis
  rw [SolveParams.windOverDeck, windVector_eq_polar, windVector_eq_polar, across_polar_add_polar,
    hn, heading_sub_axis, Real.sin_sub_int_mul_two_pi]

/-- A deck at thirty degrees, a ship of 10 to 20 kt, and 20 kt of wind from the north. -/
noncomputable def northWind (target : ℝ) : SolveParams ℝ where
  windFromDeg := 0
  windSpeedKt := 20
  targetWodKt := some (.number target)
  deckOffsetDeg := 30
  minSpeedKt := some (.number 10)
  maxSpeedKt := some (.number 20)
  angledDeckMinWindKt := some (.number 3)
  headingDeg := 0
  naturalHeadwindKt := 0

theorem northWind_windy (target : ℝ) : Windy (northWind target) where
  offset_pos := show (0 : ℝ) < 30 by norm_num
  offset_lt := show (30 : ℝ) < 90 by norm_num
  minSpeed_pos := show (0 : ℝ) < 10 by norm_num
  minSpeed_le := show (10 : ℝ) ≤ 20 by norm_num
  angledWind_pos := show (0 : ℝ) < 3 by norm_num
  wind := show (3 : ℝ) ≤ 20 by norm_num

theorem northWind_alpha (target : ℝ) : (northWind target).alpha = Real.pi / 6 := by
  have hpi : (LuaMath.pi : ℝ) = Real.pi := rfl
  simp only [SolveParams.alpha, northWind, luaRad, hpi]
  ring

theorem northWind_angled (target : ℝ) :
    (northWind target).angled = solveAngled 20 target 10 20 (Real.pi / 6) := by
  rw [SolveParams.angled, northWind_alpha]
  rfl

/-- The bounds between which the course is optimal there. -/
theorem sqrt_three_mem : (17 : ℝ) / 10 < √3 ∧ √3 < 18 / 10 := by
  constructor
  · exact Real.lt_sqrt_of_sq_lt (by norm_num)
  · exact (Real.sqrt_lt' (by norm_num)).mpr (by norm_num)

theorem northWind_optimal {target : ℝ} (hlow : 29 ≤ target) (hhigh : target ≤ 37) :
    (solve (northWind target)).regime = .optimal := by
  obtain ⟨h17, h18⟩ := sqrt_three_mem
  have hcos : LuaMath.cos (Real.pi / 6) = √3 / 2 := Real.cos_pi_div_six
  have hsin : LuaMath.sin (Real.pi / 6) = (1 / 2 : ℝ) := Real.sin_pi_div_six
  rw [(northWind_windy target).solve_eq, northWind_angled]
  simp only [solveAngled, hcos, hsin]
  rw [if_neg (by linarith), if_neg (by linarith), if_neg (by linarith)]

/-! ## 4. The optimal course -/

/-- The wind over the deck is the target, straight down the angled deck. -/
def DownDeck (params : SolveParams ℝ) : Prop :=
  params.windOverDeck = windVector params.deckAxisDeg params.targetWod

/-- **The maximum speed is enough**: the part of the target the ship has to make up along its own
course is within it, or the wind is as strong as what is left of the target when the ship makes its
maximum speed. -/
def WayWithin (params : SolveParams ℝ) : Prop :=
  params.targetWod * Real.cos params.alpha ≤ params.maxSpeed ∨
    params.targetWod ^ 2 + params.maxSpeed ^ 2 -
      2 * params.targetWod * params.maxSpeed * Real.cos params.alpha ≤ params.windSpeedKt ^ 2

/-- The speed the optimal course needs. -/
noncomputable def SolveParams.optimalSpeed (params : SolveParams ℝ) : ℝ :=
  params.targetWod * Real.cos params.alpha -
    params.windSpeedKt *
      Real.cos (Real.arcsin (params.targetWod * Real.sin params.alpha / params.windSpeedKt))

/-- What stands behind the regime `optimal`. -/
theorem angled_of_optimal (hregime : params.angled.2.2 = .optimal) :
    params.targetWod ≤ params.windSpeedKt + Real.cos params.alpha * params.maxSpeed ∧
      params.windSpeedKt + Real.cos params.alpha * params.minSpeed ≤ params.targetWod ∧
      params.targetWod * Real.sin params.alpha ≤ params.windSpeedKt ∧
      params.angled = (Real.arcsin (params.targetWod * Real.sin params.alpha / params.windSpeedKt),
        params.optimalSpeed, .optimal) := by
  simp only [SolveParams.angled, solveAngled] at hregime ⊢
  split at hregime
  · cases hregime
  · rename_i hmax
    split at hregime
    · cases hregime
    · rename_i hmin
      split at hregime
      · cases hregime
      · rename_i hlow
        refine ⟨not_lt.mp hmax, not_lt.mp hmin, not_lt.mp hlow, ?_⟩
        rw [if_neg hmax, if_neg hmin, if_neg hlow]
        rfl

section Optimal

variable (h : Windy params) (htarget : 0 < params.targetWod)
  (hsin : params.targetWod * Real.sin params.alpha ≤ params.windSpeedKt)

include h htarget hsin

/-- The wind across the course makes up for the target across it. -/
theorem Windy.windSpeed_mul_sin :
    params.windSpeedKt *
        Real.sin (Real.arcsin (params.targetWod * Real.sin params.alpha / params.windSpeedKt)) =
      params.targetWod * Real.sin params.alpha := by
  have hW := h.windSpeed_pos
  have hpos : 0 ≤ params.targetWod * Real.sin params.alpha / params.windSpeedKt :=
    div_nonneg (mul_nonneg htarget.le h.sin_pos.le) hW.le
  rw [Real.sin_arcsin (by linarith) ((div_le_one hW).mpr hsin)]
  field_simp

/-- The wind along the course, squared. -/
theorem Windy.windSpeed_mul_cos_sq :
    (params.windSpeedKt * Real.cos
        (Real.arcsin (params.targetWod * Real.sin params.alpha / params.windSpeedKt))) ^ 2 =
      params.windSpeedKt ^ 2 - (params.targetWod * Real.sin params.alpha) ^ 2 := by
  have hcross := congrArg (· ^ 2) (h.windSpeed_mul_sin htarget hsin)
  simp only [mul_pow] at hcross ⊢
  rw [Real.cos_sq']
  linear_combination -hcross

/-- The speed the optimal course needs is at least the minimum. -/
theorem Windy.minSpeed_le_optimalSpeed
    (hmin : params.windSpeedKt + Real.cos params.alpha * params.minSpeed ≤ params.targetWod) :
    params.minSpeed ≤ params.optimalSpeed := by
  have hW := h.windSpeed_pos
  have hm := h.minSpeed_pos
  have hs := h.sin_pos
  have hc := h.cos_pos
  have hone := Real.sin_sq_add_cos_sq params.alpha
  have hsq := h.windSpeed_mul_cos_sq htarget hsin
  set s := Real.sin params.alpha
  set c := Real.cos params.alpha
  have hs_le : s ≤ 1 := Real.sin_le_one _
  -- the part of the target along the course is more than the minimum speed
  have hslack : c * params.minSpeed * s ≤ params.windSpeedKt * (1 - s) := by nlinarith
  have hwork : params.minSpeed ≤ params.targetWod * c := by
    have hcross : params.minSpeed * s ^ 2 * c ≤ params.windSpeedKt * c * c := by
      calc
        params.minSpeed * s ^ 2 * c = c * params.minSpeed * s * s := by ring
        _ ≤ params.windSpeedKt * (1 - s) * s := mul_le_mul_of_nonneg_right hslack hs.le
        _ ≤ params.windSpeedKt * c * c := by nlinarith
    have hcancel : params.minSpeed * s ^ 2 ≤ params.windSpeedKt * c :=
      le_of_mul_le_mul_right hcross hc
    nlinarith
  have hroot : params.windSpeedKt *
      Real.cos (Real.arcsin (params.targetWod * s / params.windSpeedKt))
        ≤ params.targetWod * c - params.minSpeed := by
    refine abs_le_of_sq_le_sq' ?_ (sub_nonneg.mpr hwork) |>.2
    rw [hsq]
    have hsum : (params.targetWod * c - params.minSpeed) ^ 2 + (params.targetWod * s) ^ 2 =
        (params.targetWod - c * params.minSpeed) ^ 2 + (s * params.minSpeed) ^ 2 := by
      linear_combination (params.targetWod ^ 2 - params.minSpeed ^ 2) * hone
    nlinarith [sq_nonneg (s * params.minSpeed)]
  have hdef : params.optimalSpeed = params.targetWod * c - params.windSpeedKt *
      Real.cos (Real.arcsin (params.targetWod * s / params.windSpeedKt)) := rfl
  linarith

/-- **When the speed the optimal course needs is within the maximum.** -/
theorem Windy.optimalSpeed_le_iff : params.optimalSpeed ≤ params.maxSpeed ↔ WayWithin params := by
  have hone := Real.sin_sq_add_cos_sq params.alpha
  have hsq := h.windSpeed_mul_cos_sq htarget hsin
  have hnonneg : 0 ≤ params.windSpeedKt * Real.cos
      (Real.arcsin (params.targetWod * Real.sin params.alpha / params.windSpeedKt)) :=
    mul_nonneg h.windSpeed_pos.le (Real.cos_arcsin_nonneg _)
  have hdef : params.optimalSpeed = params.targetWod * Real.cos params.alpha -
      params.windSpeedKt * Real.cos
        (Real.arcsin (params.targetWod * Real.sin params.alpha / params.windSpeedKt)) := rfl
  set along := params.windSpeedKt * Real.cos
    (Real.arcsin (params.targetWod * Real.sin params.alpha / params.windSpeedKt))
  have hexpand : (params.targetWod * Real.cos params.alpha - params.maxSpeed) ^ 2 ≤ along ^ 2 ↔
      params.targetWod ^ 2 + params.maxSpeed ^ 2 -
        2 * params.targetWod * params.maxSpeed * Real.cos params.alpha ≤ params.windSpeedKt ^ 2 := by
    have hcos : (params.targetWod * Real.sin params.alpha) ^ 2 =
        params.targetWod ^ 2 - params.targetWod ^ 2 * Real.cos params.alpha ^ 2 := by
      linear_combination params.targetWod ^ 2 * hone
    rw [hsq, hcos]
    constructor <;> intro hle <;> nlinarith
  rw [WayWithin, ← hexpand, hdef]
  constructor
  · intro hle
    by_cases hwork : params.targetWod * Real.cos params.alpha ≤ params.maxSpeed
    · exact .inl hwork
    · refine .inr (pow_le_pow_left₀ (by linarith) (by linarith) 2)
  · rintro (hwork | hle)
    · linarith
    · have := abs_le_of_sq_le_sq' hle hnonneg
      linarith

end Optimal

/-- On the optimal course, nothing else than the speed it needs will do. -/
theorem Windy.downDeck_iff_speed (h : Windy params) (htarget : 0 < params.targetWod)
    (hregime : (solve params).regime = .optimal) :
    DownDeck params ↔ (solve params).speedKt = params.optimalSpeed := by
  obtain ⟨-, -, hsin, hangled⟩ := angled_of_optimal (by rwa [h.solve_eq] at hregime)
  have hcross := h.windSpeed_mul_sin htarget hsin
  have hone := Real.sin_sq_add_cos_sq params.alpha
  have hdef : params.optimalSpeed = params.targetWod * Real.cos params.alpha -
      params.windSpeedKt * Real.cos
        (Real.arcsin (params.targetWod * Real.sin params.alpha / params.windSpeedKt)) := rfl
  have hacross : across params.windOverDeck (luaRad params.deckAxisDeg) =
      Real.sin params.alpha * ((solve params).speedKt - params.optimalSpeed) := by
    rw [h.across_deck, hangled, Real.sin_sub, hdef]
    linear_combination (-Real.cos params.alpha) * hcross
  have halong : along params.windOverDeck (luaRad params.deckAxisDeg) - params.targetWod =
      Real.cos params.alpha * ((solve params).speedKt - params.optimalSpeed) := by
    rw [h.along_deck, hangled, Real.cos_sub, hdef]
    linear_combination Real.sin params.alpha * hcross + params.targetWod * hone
  rw [DownDeck, windVector_eq_polar, eq_polar_iff, hacross]
  constructor
  · rintro ⟨-, hzero⟩
    exact sub_eq_zero.mp ((mul_eq_zero.mp hzero).resolve_left h.sin_pos.ne')
  · intro hspeed
    rw [hspeed, sub_self, mul_zero] at halong ⊢
    exact ⟨sub_eq_zero.mp halong, rfl⟩

/-- The speed returned is the one needed, or the maximum. -/
theorem Windy.speed_of_optimal (h : Windy params) (htarget : 0 < params.targetWod)
    (hregime : (solve params).regime = .optimal) :
    (solve params).speedKt = min params.maxSpeed params.optimalSpeed := by
  obtain ⟨-, hmin, hsin, hangled⟩ := angled_of_optimal (by rwa [h.solve_eq] at hregime)
  rw [h.solve_eq, hangled, limitSpeed_eq h.minSpeed_le,
    max_eq_right (h.minSpeed_le_optimalSpeed htarget hsin hmin)]

/-- **When the optimal course is optimal.**  In the regime `optimal` the target wind blows straight
down the angled deck exactly when the maximum speed is enough. -/
theorem optimal_downDeck_iff (h : Windy params) (htarget : 0 < params.targetWod)
    (hregime : (solve params).regime = .optimal) : DownDeck params ↔ WayWithin params := by
  obtain ⟨-, -, hsin, -⟩ := angled_of_optimal (by rwa [h.solve_eq] at hregime)
  rw [h.downDeck_iff_speed htarget hregime, h.speed_of_optimal htarget hregime, min_eq_right_iff,
    h.optimalSpeed_le_iff htarget hsin]

/-- **Just below the bound it is not.**  In 20 kt of wind the course is called optimal for a target
of 37 kt, and the ship would have to make more than its maximum. -/
theorem northWind_not_downDeck :
    Windy (northWind 37) ∧ 0 < (northWind 37).targetWod ∧
      (solve (northWind 37)).regime = .optimal ∧ ¬ DownDeck (northWind 37) := by
  have htarget : (0 : ℝ) < (northWind 37).targetWod := show (0 : ℝ) < 37 by norm_num
  have hregime := @northWind_optimal 37 (by norm_num) le_rfl
  have h := northWind_windy 37
  refine ⟨h, htarget, hregime, ?_⟩
  intro hdown
  obtain ⟨-, -, hsin, -⟩ := angled_of_optimal (by rwa [h.solve_eq] at hregime)
  have hspeed := (h.downDeck_iff_speed htarget hregime).mp hdown
  rw [h.speed_of_optimal htarget hregime, min_eq_right_iff,
    h.optimalSpeed_le_iff htarget hsin] at hspeed
  obtain ⟨h17, h18⟩ := sqrt_three_mem
  simp only [WayWithin, northWind_alpha, Real.cos_pi_div_six] at hspeed
  rcases hspeed with hwork | hwind
  · have hwork' : (37 : ℝ) * (√3 / 2) ≤ 20 := hwork
    linarith
  · have hwind' : (37 : ℝ) ^ 2 + 20 ^ 2 - 2 * 37 * 20 * (√3 / 2) ≤ 20 ^ 2 := hwind
    linarith

theorem optimal_downDeck_iff_northWind : DownDeck (northWind 33) := by
  have hwithin : WayWithin (northWind 33) := by
    obtain ⟨h17, -⟩ := sqrt_three_mem
    simp only [WayWithin, northWind_alpha, Real.cos_pi_div_six]
    have hwind : (33 : ℝ) ^ 2 + 20 ^ 2 - 2 * 33 * 20 * (√3 / 2) ≤ 20 ^ 2 := by linarith
    exact .inr hwind
  exact (optimal_downDeck_iff (northWind_windy 33) (show (0 : ℝ) < 33 by norm_num)
    (northWind_optimal (by norm_num) (by norm_num))).mpr hwithin

/-- What `M.apparentWind` makes of the target wind straight down the deck. -/
theorem DownDeck.apparentWind_eq (h : DownDeck params) (htarget : 0 < params.targetWod) :
    apparentWind params.windFromDeg params.windSpeedKt (solve params).headingDeg
        (solve params).speedKt params.deckOffsetDeg =
      ⟨normalizeHeadingDeg params.deckAxisDeg, params.targetWod, 0⟩ := by
  have hvector : windVector params.windFromDeg params.windSpeedKt +
      windVector (solve params).headingDeg (solve params).speedKt =
        polar params.targetWod (luaRad params.deckAxisDeg) := h
  have hfrom : normalizeHeadingDeg (luaDeg (atan2
      (polar params.targetWod (luaRad params.deckAxisDeg)).1
      (polar params.targetWod (luaRad params.deckAxisDeg)).2)) =
        normalizeHeadingDeg params.deckAxisDeg := by
    rw [normalizeHeadingDeg_eq, luaMod_luaDeg_atan2_polar htarget, luaDeg_luaRad,
      normalizeHeadingDeg_eq]
  have hdiff : luaMod (540 : ℝ) 360 - 180 = 0 := by
    have hfloor : ⌊(540 : ℝ) / 360⌋ = 1 := by norm_num
    rw [luaMod, hfloor]
    norm_num
  unfold apparentWind
  rw [hvector]
  dsimp only
  rw [hfrom, ← SolveParams.deckAxisDeg, sub_self, zero_add, hdiff]
  congr 1
  exact sqrt_polar htarget.le _

/-! ## 5. The limited courses -/

/-- The speed limit a regime stands for. -/
def SolveParams.limit {R : Type*} [Field R] (params : SolveParams R) : Regime → Option R
  | .vmax_limited => some params.maxSpeed
  | .vmin_limited => some params.minSpeed
  | .optimal | .low_wind | .weak_wind => none

/-- What stands behind the two limited regimes. -/
theorem angled_of_limited {limit : ℝ} (hlimit : params.limit params.angled.2.2 = some limit) :
    params.angled.1 = limitedAngle limit params.windSpeedKt params.alpha ∧
      params.angled.2.1 = limit := by
  simp only [SolveParams.angled, solveAngled] at hlimit ⊢
  split at hlimit
  · rename_i hmax
    obtain rfl : params.maxSpeed = limit := Option.some.inj hlimit
    rw [if_pos hmax]
    exact ⟨rfl, rfl⟩
  · rename_i hmax
    split at hlimit
    · rename_i hmin
      obtain rfl : params.minSpeed = limit := Option.some.inj hlimit
      rw [if_neg hmax, if_pos hmin]
      exact ⟨rfl, rfl⟩
    · split at hlimit <;> cases hlimit

/-- The regime `vmax_limited` is that of a target out of reach. -/
theorem target_of_vmax_limited (hregime : params.angled.2.2 = .vmax_limited) :
    params.windSpeedKt + Real.cos params.alpha * params.maxSpeed < params.targetWod := by
  simp only [SolveParams.angled, solveAngled] at hregime
  split at hregime
  · assumption
  · split at hregime
    · cases hregime
    · split at hregime <;> cases hregime

theorem Windy.limit_mem (h : Windy params) {regime : Regime} {limit : ℝ}
    (hlimit : params.limit regime = some limit) :
    params.minSpeed ≤ limit ∧ limit ≤ params.maxSpeed := by
  cases regime <;> cases hlimit
  · exact ⟨h.minSpeed_le, le_rfl⟩
  · exact ⟨le_rfl, h.minSpeed_le⟩

/-- `C` of `M.solve` is one over the sine. -/
theorem sqrt_cot_sq {alpha : ℝ} (hsin : 0 < Real.sin alpha) :
    √(Real.cos alpha ^ 2 / Real.sin alpha ^ 2 + 1) = 1 / Real.sin alpha := by
  have hone := Real.sin_sq_add_cos_sq alpha
  have hsq : Real.cos alpha ^ 2 / Real.sin alpha ^ 2 + 1 = (1 / Real.sin alpha) ^ 2 := by
    field_simp
    linarith
  rw [hsq, Real.sqrt_sq (by positivity)]

/-- **The two arcsines.**  When the ship's way across the deck is within the wind, the course is
off the wind by the angle that cancels it and the deck offset. -/
theorem Windy.limitedAngle_eq (h : Windy params) {limit : ℝ} (hpos : 0 < limit)
    (hway : limit * Real.sin params.alpha ≤ params.windSpeedKt) :
    limitedAngle limit params.windSpeedKt params.alpha =
      Real.arcsin (limit * Real.sin params.alpha / params.windSpeedKt) + params.alpha := by
  have hW := h.windSpeed_pos
  have hs := h.sin_pos
  have hC := sqrt_cot_sq hs
  have hsin : LuaMath.sin params.alpha ≠ 0 := hs.ne'
  have hproduct : params.windSpeedKt * (1 / Real.sin params.alpha) ≠ 0 := by positivity
  have hquotient : limit / (params.windSpeedKt * (1 / Real.sin params.alpha)) =
      limit * Real.sin params.alpha / params.windSpeedKt := by
    field_simp
  have hlow : 0 ≤ limit * Real.sin params.alpha / params.windSpeedKt :=
    div_nonneg (mul_nonneg hpos.le hs.le) hW.le
  have hhigh : limit * Real.sin params.alpha / params.windSpeedKt ≤ 1 := (div_le_one hW).mpr hway
  have harg : limitedArg limit (params.windSpeedKt * (1 / Real.sin params.alpha)) =
      limit * Real.sin params.alpha / params.windSpeedKt := by
    rw [limitedArg, if_neg hproduct]
    dsimp only
    rw [hquotient, if_neg hhigh.not_gt, if_neg (by linarith)]
  have hoffset : Real.arcsin (-1 / (1 / Real.sin params.alpha)) = -params.alpha := by
    have hinv : -1 / (1 / Real.sin params.alpha) = -Real.sin params.alpha := by
      field_simp
    rw [hinv, Real.arcsin_neg, Real.arcsin_sin (by linarith [h.alpha_pos, Real.pi_pos])
      h.alpha_lt.le]
  rw [limitedAngle, if_neg hsin]
  change Real.arcsin (limitedArg limit (params.windSpeedKt *
      √(Real.cos params.alpha ^ 2 / Real.sin params.alpha ^ 2 + 1))) -
    Real.arcsin (-1 / √(Real.cos params.alpha ^ 2 / Real.sin params.alpha ^ 2 + 1)) = _
  rw [hC, harg, hoffset, sub_neg_eq_add]

/-- The speed returned is the limit. -/
theorem Windy.speed_of_limited (h : Windy params) {limit : ℝ}
    (hlimit : params.limit (solve params).regime = some limit) :
    (solve params).speedKt = limit := by
  have hangled : params.limit params.angled.2.2 = some limit := by rwa [h.solve_eq] at hlimit
  obtain ⟨hlow, hhigh⟩ := h.limit_mem hlimit
  have hspeed : (solve params).speedKt =
      limitSpeed params.angled.2.1 params.minSpeed params.maxSpeed := by rw [h.solve_eq]
  rw [hspeed, (angled_of_limited hangled).2, limitSpeed_eq h.minSpeed_le, max_eq_right hlow,
    min_eq_right hhigh]

/-- **Nothing across the deck**, and along it at most the wind and the ship's way. -/
theorem Windy.deck_of_limited (h : Windy params) {limit : ℝ}
    (hlimit : params.limit (solve params).regime = some limit)
    (hway : limit * Real.sin params.alpha ≤ params.windSpeedKt) :
    across params.windOverDeck (luaRad params.deckAxisDeg) = 0 ∧
      along params.windOverDeck (luaRad params.deckAxisDeg) ≤
        params.windSpeedKt + Real.cos params.alpha * limit := by
  have hW := h.windSpeed_pos
  have hpos : 0 < limit := h.minSpeed_pos.trans_le (h.limit_mem hlimit).1
  have hangled : params.limit params.angled.2.2 = some limit := by rwa [h.solve_eq] at hlimit
  have htheta : params.angled.1 =
      Real.arcsin (limit * Real.sin params.alpha / params.windSpeedKt) + params.alpha := by
    rw [(angled_of_limited hangled).1, h.limitedAngle_eq hpos hway]
  have hturn : params.alpha - params.angled.1 =
      -Real.arcsin (limit * Real.sin params.alpha / params.windSpeedKt) := by
    rw [htheta]
    ring
  have hlow : 0 ≤ limit * Real.sin params.alpha / params.windSpeedKt :=
    div_nonneg (mul_nonneg hpos.le h.sin_pos.le) hW.le
  rw [h.across_deck, h.along_deck, h.speed_of_limited hlimit, hturn]
  refine ⟨?_, ?_⟩
  · rw [Real.sin_neg, Real.sin_arcsin (by linarith) ((div_le_one hW).mpr hway)]
    field_simp
    ring
  · have hcos : params.windSpeedKt *
        Real.cos (-Real.arcsin (limit * Real.sin params.alpha / params.windSpeedKt)) ≤
          params.windSpeedKt := mul_le_of_le_one_right hW.le (Real.cos_le_one _)
    linarith

/-- The course returned is a heading. -/
theorem solve_heading_mem (params : SolveParams ℝ) :
    0 ≤ (solve params).headingDeg ∧ (solve params).headingDeg < 360 := by
  have hmem : ∀ a : ℝ, 0 ≤ normalizeHeadingDeg a ∧ normalizeHeadingDeg a < 360 := fun a => by
    rw [normalizeHeadingDeg_eq]
    exact ⟨luaMod_nonneg (by norm_num), luaMod_lt (by norm_num)⟩
  simp only [solve]
  split
  · exact hmem _
  · exact hmem _

/-- The speed returned is within its limits. -/
theorem solve_speed_mem (hle : params.minSpeed ≤ params.maxSpeed) :
    params.minSpeed ≤ (solve params).speedKt ∧ (solve params).speedKt ≤ params.maxSpeed := by
  have hmem : ∀ v : ℝ, params.minSpeed ≤ limitSpeed v params.minSpeed params.maxSpeed ∧
      limitSpeed v params.minSpeed params.maxSpeed ≤ params.maxSpeed := fun v => by
    rw [limitSpeed_eq hle]
    exact ⟨le_min hle (le_max_left _ _), min_le_left _ _⟩
  simp only [solve]
  split
  · exact hmem _
  · exact hmem _

/-- **The limited courses.**  Whatever the regime, the speed is within its limits and the course is
a heading.  A limited regime returns its limit; and when the ship's way across the deck is then
within the wind, nothing of the apparent wind is across the deck, and along it there is at most the
wind and the ship's way, which at the maximum speed is less than the target. -/
theorem limited_course (hle : params.minSpeed ≤ params.maxSpeed) :
    (params.minSpeed ≤ (solve params).speedKt ∧ (solve params).speedKt ≤ params.maxSpeed ∧
      0 ≤ (solve params).headingDeg ∧ (solve params).headingDeg < 360) ∧
    (Windy params → ∀ limit, params.limit (solve params).regime = some limit →
      (solve params).speedKt = limit ∧
      (limit * Real.sin params.alpha ≤ params.windSpeedKt →
        across params.windOverDeck (luaRad params.deckAxisDeg) = 0 ∧
        along params.windOverDeck (luaRad params.deckAxisDeg) ≤
          params.windSpeedKt + Real.cos params.alpha * limit ∧
        ((solve params).regime = .vmax_limited →
          along params.windOverDeck (luaRad params.deckAxisDeg) < params.targetWod))) := by
  obtain ⟨hlow, hhigh⟩ := solve_speed_mem hle
  obtain ⟨hnonneg, hlt⟩ := solve_heading_mem params
  refine ⟨⟨hlow, hhigh, hnonneg, hlt⟩, ?_⟩
  intro h limit hlimit
  refine ⟨h.speed_of_limited hlimit, ?_⟩
  intro hway
  obtain ⟨hacross, halong⟩ := h.deck_of_limited hlimit hway
  refine ⟨hacross, halong, fun hregime => halong.trans_lt ?_⟩
  have htarget := @target_of_vmax_limited params (by rwa [h.solve_eq] at hregime)
  rw [hregime] at hlimit
  obtain rfl : params.maxSpeed = limit := Option.some.inj hlimit
  exact htarget

/-- A target of 45 kt is out of reach there. -/
theorem limited_course_northWind :
    (solve (northWind 45)).speedKt = 20 ∧
      across (northWind 45).windOverDeck (luaRad (northWind 45).deckAxisDeg) = 0 ∧
      along (northWind 45).windOverDeck (luaRad (northWind 45).deckAxisDeg) < 45 := by
  have hregime : (solve (northWind 45)).regime = .vmax_limited := by
    obtain ⟨-, h18⟩ := sqrt_three_mem
    have hcos : LuaMath.cos (Real.pi / 6) = √3 / 2 := Real.cos_pi_div_six
    rw [(northWind_windy 45).solve_eq, northWind_angled]
    simp only [solveAngled, hcos]
    rw [if_pos (by linarith)]
  have hway : (20 : ℝ) * Real.sin (northWind 45).alpha ≤ 20 := by
    rw [northWind_alpha, Real.sin_pi_div_six]
    norm_num
  obtain ⟨-, hlimited⟩ := limited_course (northWind_windy 45).minSpeed_le
  obtain ⟨hspeed, hdeck⟩ := hlimited (northWind_windy 45) 20 (by rw [hregime]; rfl)
  obtain ⟨hacross, -, halong⟩ := hdeck hway
  exact ⟨hspeed, hacross, halong hregime⟩

end DcsDashboard.Carrier

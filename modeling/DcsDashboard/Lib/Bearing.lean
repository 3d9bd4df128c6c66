/-
# Bearings and rounding

Headings are degrees kept in `[0, 360)` by `%`, and directions come from `atan2`.  In exact
arithmetic the turns that `%` takes away do not matter to a cosine, and the component of a vector
along a unit vector is its length times the cosine of the angle between the two.

Two numbers round half up to the same integer unless a half lies between them.
-/
import DcsDashboard.Lib.LuaMath
import Mathlib.Tactic.Linarith
import Mathlib.Tactic.Ring
import Mathlib.Tactic.FieldSimp

namespace DcsDashboard.Lib

open LuaMath

/-! ## 1. Directions -/

/-- The length of a vector times the cosine of its direction. -/
theorem sqrt_mul_cos_atan2 (y x : ℝ) : √(x ^ 2 + y ^ 2) * Real.cos (atan2 y x) = x := by
  have hnorm : ‖(⟨x, y⟩ : ℂ)‖ = √(x ^ 2 + y ^ 2) := Complex.norm_eq_sqrt_sq_add_sq _
  have hcos := Complex.norm_mul_cos_arg ⟨x, y⟩
  rwa [hnorm] at hcos

/-- The length of a vector times the sine of its direction. -/
theorem sqrt_mul_sin_atan2 (y x : ℝ) : √(x ^ 2 + y ^ 2) * Real.sin (atan2 y x) = y := by
  have hnorm : ‖(⟨x, y⟩ : ℂ)‖ = √(x ^ 2 + y ^ 2) := Complex.norm_eq_sqrt_sq_add_sq _
  have hsin := Complex.norm_mul_sin_arg ⟨x, y⟩
  rwa [hnorm] at hsin

/-- **The component along a unit vector**: the length times the cosine of the angle between. -/
theorem dot_eq_sqrt_mul_cos {x y u v : ℝ} (hunit : u ^ 2 + v ^ 2 = 1) :
    x * u + y * v = √(x ^ 2 + y ^ 2) * Real.cos (atan2 y x - atan2 v u) := by
  have hcos : Real.cos (atan2 v u) = u := by
    simpa [hunit] using sqrt_mul_cos_atan2 v u
  have hsin : Real.sin (atan2 v u) = v := by
    simpa [hunit] using sqrt_mul_sin_atan2 v u
  calc
    x * u + y * v
        = √(x ^ 2 + y ^ 2) * Real.cos (atan2 y x) * u +
            √(x ^ 2 + y ^ 2) * Real.sin (atan2 y x) * v := by
          rw [sqrt_mul_cos_atan2, sqrt_mul_sin_atan2]
    _ = √(x ^ 2 + y ^ 2) * Real.cos (atan2 y x - atan2 v u) := by
          rw [Real.cos_sub, hcos, hsin]
          ring

/-! ## 2. Degrees -/

theorem luaRad_luaDeg (a : ℝ) : luaRad (luaDeg a) = a := by
  have hpi : (LuaMath.pi : ℝ) = Real.pi := rfl
  simp only [luaRad, luaDeg, hpi]
  field_simp

theorem luaDeg_luaRad (a : ℝ) : luaDeg (luaRad a) = a := by
  have hpi : (LuaMath.pi : ℝ) = Real.pi := rfl
  simp only [luaRad, luaDeg, hpi]
  field_simp

/-- Whole turns do not change a cosine. -/
theorem cos_luaRad_luaMod_sub (a b : ℝ) :
    Real.cos (luaRad (luaMod (luaDeg a) 360 - luaMod (luaDeg b) 360)) = Real.cos (a - b) := by
  have hsplit : luaRad (luaMod (luaDeg a) 360 - luaMod (luaDeg b) 360) =
      a - b + ((⌊luaDeg b / 360⌋ - ⌊luaDeg a / 360⌋ : ℤ) : ℝ) * (2 * Real.pi) := by
    have ha := luaRad_luaDeg a
    have hb := luaRad_luaDeg b
    have hpi : (LuaMath.pi : ℝ) = Real.pi := rfl
    simp only [luaRad, hpi] at ha hb
    simp only [luaRad, luaMod, hpi]
    push_cast
    linear_combination ha - hb
  rw [hsplit, Real.cos_add_int_mul_two_pi]

theorem luaMod_nonneg {a b : ℝ} (hb : 0 < b) : 0 ≤ luaMod a b := by
  have hfloor : ⌊a / b⌋ * b ≤ a := by
    rw [← le_div_iff₀ hb]
    exact Int.floor_le _
  exact sub_nonneg.mpr hfloor

theorem luaMod_lt {a b : ℝ} (hb : 0 < b) : luaMod a b < b := by
  have hfloor : a < (⌊a / b⌋ + 1) * b := by
    rw [← div_lt_iff₀ hb]
    exact Int.lt_floor_add_one _
  unfold luaMod
  linarith

/-- A whole number of divisors more leaves the same remainder. -/
theorem luaMod_add_int_mul (a : ℝ) {b : ℝ} (n : ℤ) (hb : 0 < b) :
    luaMod (a + n * b) b = luaMod a b := by
  have hdiv : (a + n * b) / b = a / b + n := by
    field_simp
  rw [luaMod, luaMod, hdiv, Int.floor_add_intCast]
  push_cast
  ring

/-- A remainder differs by whole divisors. -/
theorem exists_luaMod_eq (a b : ℝ) : ∃ n : ℤ, luaMod a b = a + n * b :=
  ⟨-⌊a / b⌋, by rw [luaMod]; push_cast; ring⟩

theorem luaRad_sub (a b : ℝ) : luaRad (a - b) = luaRad a - luaRad b := by
  simp only [luaRad]
  ring

/-- Whole turns in degrees are whole turns. -/
theorem luaRad_add_turns (a : ℝ) (n : ℤ) : luaRad (a + n * 360) = luaRad a + n * (2 * Real.pi) := by
  have hpi : (LuaMath.pi : ℝ) = Real.pi := rfl
  simp only [luaRad, hpi]
  ring

/-! ## 3. Vectors by bearing -/

/-- A vector of a length and a bearing: its components to the east and to the north. -/
noncomputable def polar (r b : ℝ) : ℝ × ℝ := (r * Real.sin b, r * Real.cos b)

/-- The component of a vector along a bearing. -/
noncomputable def along (v : ℝ × ℝ) (b : ℝ) : ℝ := v.1 * Real.sin b + v.2 * Real.cos b

/-- The component of a vector across a bearing. -/
noncomputable def across (v : ℝ × ℝ) (b : ℝ) : ℝ := v.1 * Real.cos b - v.2 * Real.sin b

theorem along_polar_add_polar (r a s c b : ℝ) :
    along (polar r a + polar s c) b = r * Real.cos (a - b) + s * Real.cos (c - b) := by
  simp only [along, polar, Prod.fst_add, Prod.snd_add, Real.cos_sub]
  ring

theorem across_polar_add_polar (r a s c b : ℝ) :
    across (polar r a + polar s c) b = r * Real.sin (a - b) + s * Real.sin (c - b) := by
  simp only [across, polar, Prod.fst_add, Prod.snd_add, Real.sin_sub]
  ring

/-- **A vector by its components** along and across a bearing. -/
theorem eq_polar_add_polar_iff {v : ℝ × ℝ} {f r b : ℝ} :
    v = polar f b + polar r (b + Real.pi / 2) ↔ along v b = f ∧ across v b = r := by
  have hone : Real.sin b ^ 2 + Real.cos b ^ 2 = 1 := Real.sin_sq_add_cos_sq b
  constructor
  · rintro rfl
    simp only [along, across, polar, Prod.fst_add, Prod.snd_add, Real.sin_add_pi_div_two,
      Real.cos_add_pi_div_two]
    refine ⟨?_, ?_⟩
    · linear_combination f * hone
    · linear_combination r * hone
  · rintro ⟨hf, hr⟩
    simp only [along] at hf
    simp only [across] at hr
    refine Prod.ext ?_ ?_
    · simp only [polar, Prod.fst_add, Real.sin_add_pi_div_two]
      linear_combination (-v.1) * hone + Real.sin b * hf + Real.cos b * hr
    · simp only [polar, Prod.snd_add, Real.cos_add_pi_div_two]
      linear_combination (-v.2) * hone + Real.cos b * hf - Real.sin b * hr

/-- **A vector is along a bearing** when nothing of it is across. -/
theorem eq_polar_iff {v : ℝ × ℝ} {r b : ℝ} :
    v = polar r b ↔ along v b = r ∧ across v b = 0 := by
  have hzero : polar 0 (b + Real.pi / 2) = 0 := by simp [polar]
  rw [← eq_polar_add_polar_iff, hzero, add_zero]

/-- The components have the length of the vector. -/
theorem along_sq_add_across_sq (v : ℝ × ℝ) (b : ℝ) :
    along v b ^ 2 + across v b ^ 2 = v.1 ^ 2 + v.2 ^ 2 := by
  simp only [along, across]
  linear_combination (v.1 ^ 2 + v.2 ^ 2) * Real.sin_sq_add_cos_sq b

/-- The length of a vector given by its length. -/
theorem sqrt_polar {r : ℝ} (hr : 0 ≤ r) (b : ℝ) :
    √((polar r b).1 * (polar r b).1 + (polar r b).2 * (polar r b).2) = r := by
  have hsq : (polar r b).1 * (polar r b).1 + (polar r b).2 * (polar r b).2 = r ^ 2 := by
    simp only [polar]
    linear_combination r ^ 2 * Real.sin_sq_add_cos_sq b
  rw [hsq, Real.sqrt_sq hr]

/-- The direction of a vector given by its bearing, up to whole turns. -/
theorem luaMod_luaDeg_atan2_polar {r : ℝ} (hr : 0 < r) (b : ℝ) :
    luaMod (luaDeg (atan2 (polar r b).1 (polar r b).2)) 360 = luaMod (luaDeg b) 360 := by
  have hexp : (⟨r * Real.cos b, r * Real.sin b⟩ : ℂ) = r * Complex.exp (b * Complex.I) := by
    apply Complex.ext
    · simp [Complex.exp_ofReal_mul_I_re]
    · simp [Complex.exp_ofReal_mul_I_im]
  have harg : atan2 (polar r b).1 (polar r b).2 =
      b - toIocDiv Real.two_pi_pos (-Real.pi) b • (2 * Real.pi) := by
    calc
      atan2 (polar r b).1 (polar r b).2 = Complex.arg (r * Complex.exp (b * Complex.I)) := by
        rw [← hexp]
        rfl
      _ = b - toIocDiv Real.two_pi_pos (-Real.pi) b • (2 * Real.pi) := by
        rw [Complex.arg_real_mul _ hr, Complex.arg_exp_mul_I, toIocMod]
  have hdeg : luaDeg (atan2 (polar r b).1 (polar r b).2) =
      luaDeg b + ((-toIocDiv Real.two_pi_pos (-Real.pi) b : ℤ) : ℝ) * 360 := by
    have hpi : (LuaMath.pi : ℝ) = Real.pi := rfl
    rw [harg, zsmul_eq_mul]
    simp only [luaDeg, hpi]
    push_cast
    field_simp
    ring
  rw [hdeg, luaMod_add_int_mul _ _ (by norm_num)]

/-! ## 4. Rounding half up -/

/-- **When two numbers round apart**: a half lies between them. -/
theorem floor_add_half_ne_iff {a b : ℝ} (hab : a ≤ b) :
    ⌊a + 1 / 2⌋ ≠ ⌊b + 1 / 2⌋ ↔ ∃ k : ℤ, a < k - 1 / 2 ∧ k - 1 / 2 ≤ b := by
  constructor
  · intro hne
    have hle : ⌊a + 1 / 2⌋ ≤ ⌊b + 1 / 2⌋ := Int.floor_mono (by linarith)
    refine ⟨⌊b + 1 / 2⌋, ?_, ?_⟩
    · have hlt := Int.floor_lt.mp (lt_of_le_of_ne hle hne)
      linarith
    · have hfloor := Int.floor_le (b + 1 / 2)
      linarith
  · rintro ⟨k, ha, hb⟩ heq
    have hlow : ⌊a + 1 / 2⌋ < k := Int.floor_lt.mpr (by linarith)
    have hhigh : k ≤ ⌊b + 1 / 2⌋ := Int.le_floor.mpr (by linarith)
    omega

end DcsDashboard.Lib

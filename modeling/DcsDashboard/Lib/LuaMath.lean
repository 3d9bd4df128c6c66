/-
# Arithmetic of Lua scripts

What a script computes with numbers, in exact arithmetic over an ordered field: `%`, which
takes the sign of its divisor, and the functions of `math`.  `LuaMath R` names the functions
that leave the rationals; the real numbers are the instance.
-/
import Mathlib.Algebra.Order.Floor.Ring
import Mathlib.Analysis.SpecialFunctions.Complex.Arg
import Mathlib.Analysis.SpecialFunctions.Trigonometric.Inverse

namespace DcsDashboard.Lib

/-! ## 1. Numerals

The numbers that several modules write out.  That they are numerals is proved here, so that they
are the same term in every module. -/

instance numeral2 : Nat.AtLeastTwo 2 := inferInstance
instance numeral3 : Nat.AtLeastTwo 3 := inferInstance
instance numeral4 : Nat.AtLeastTwo 4 := inferInstance
instance numeral5 : Nat.AtLeastTwo 5 := inferInstance
instance numeral10 : Nat.AtLeastTwo 10 := inferInstance
instance numeral15 : Nat.AtLeastTwo 15 := inferInstance
instance numeral24 : Nat.AtLeastTwo 24 := inferInstance
instance numeral30 : Nat.AtLeastTwo 30 := inferInstance
instance numeral60 : Nat.AtLeastTwo 60 := inferInstance
instance numeral90 : Nat.AtLeastTwo 90 := inferInstance
instance numeral100 : Nat.AtLeastTwo 100 := inferInstance
instance numeral180 : Nat.AtLeastTwo 180 := inferInstance
instance numeral300 : Nat.AtLeastTwo 300 := inferInstance
instance numeral360 : Nat.AtLeastTwo 360 := inferInstance
instance numeral500 : Nat.AtLeastTwo 500 := inferInstance
instance numeral540 : Nat.AtLeastTwo 540 := inferInstance
instance numeral914 : Nat.AtLeastTwo 914 := inferInstance
instance numeral1800 : Nat.AtLeastTwo 1800 := inferInstance

/-! ## 2. Functions of `math` -/

/-- The functions of `math` a script may call. -/
class LuaMath (R : Type*) where
  pi : R
  sqrt : R → R
  sin : R → R
  cos : R → R
  asin : R → R
  atan2 : R → R → R

noncomputable instance : LuaMath ℝ where
  pi := Real.pi
  sqrt := Real.sqrt
  sin := Real.sin
  cos := Real.cos
  asin := Real.arcsin
  atan2 y x := Complex.arg ⟨x, y⟩

/-! ## 3. Operators and conversions -/

section

variable {R : Type*} [Field R] [LinearOrder R] [FloorRing R]

/-- `a % b`. -/
def luaMod (a b : R) : R := a - ⌊a / b⌋ * b

/-- `math.floor(a)`. -/
def luaFloor (a : R) : R := ⌊a⌋

omit [FloorRing R] in
/-- `math.abs(a)`. -/
def luaAbs (a : R) : R := if a < 0 then -a else a

end

section

variable {R : Type*} [Field R] [LuaMath R]

/-- `math.rad`. -/
def luaRad (a : R) : R := a * (LuaMath.pi / 180)

/-- `math.deg`. -/
def luaDeg (a : R) : R := a * (180 / LuaMath.pi)

end

/-! ## 4. Counted loops -/

section

variable {R : Type*} [Field R] [LinearOrder R] [FloorRing R]

/-- `while cond(x) do if not test(x) then return false end; x = x + step end; return true`, for
at most so many rounds. -/
def whileSteps (cond test : R → Bool) (step : R) : Nat → R → Bool
  | 0, _ => true
  | n + 1, x => if cond x then test x && whileSteps cond test step n (x + step) else true

/-- Rounds enough for a loop that ends once `x` has passed `hi`. -/
def stepRounds (step hi x : R) : Nat := ⌊(hi - x) / step⌋.toNat + 1

omit [LinearOrder R] [FloorRing R] in
/-- A loop whose test never fails ends in `true`. -/
theorem whileSteps_of_test {cond test : R → Bool} (h : ∀ x, test x = true) (step : R) (n : Nat)
    (x : R) : whileSteps cond test step n x = true := by
  induction n generalizing x with
  | zero => rfl
  | succ n ih => simp [whileSteps, h, ih]

/-- **The rounds are enough.**  With a positive step the counted loop unrolls as the loop
does. -/
theorem whileSteps_unroll [IsStrictOrderedRing R] {cond test : R → Bool} {step hi x : R}
    (hstep : 0 < step) (hcond : ∀ y, cond y = true → y ≤ hi) :
    whileSteps cond test step (stepRounds step hi x) x =
      if cond x then test x && whileSteps cond test step (stepRounds step hi (x + step)) (x + step)
      else true := by
  by_cases hx : cond x = true
  · have hfloor : ⌊(hi - (x + step)) / step⌋ = ⌊(hi - x) / step⌋ - 1 := by
      rw [← Int.floor_sub_one, ← sub_sub, sub_div (hi - x), div_self hstep.ne']
    have hnonneg : 0 ≤ ⌊(hi - x) / step⌋ :=
      Int.floor_nonneg.mpr (div_nonneg (sub_nonneg.mpr (hcond x hx)) hstep.le)
    rw [stepRounds, whileSteps, if_pos hx]
    rcases hnonneg.eq_or_lt with h0 | hpos
    · -- the next value has passed `hi`, so the loop ends there
      have hpast : cond (x + step) = false := by
        by_contra hne
        have hle := hcond _ (by simpa using hne)
        have hge : (1 : R) ≤ (hi - x) / step := by
          rw [le_div_iff₀ hstep]; linarith
        have := Int.le_floor.mpr (by simpa using hge : ((1 : ℤ) : R) ≤ (hi - x) / step)
        omega
      rw [← h0, if_pos hx]
      simp [whileSteps, stepRounds, hpast]
    · have hn : ⌊(hi - x) / step⌋.toNat = stepRounds step hi (x + step) := by
        rw [stepRounds, hfloor]; omega
      rw [hn, if_pos hx]
  · rw [stepRounds, whileSteps, if_neg hx, if_neg hx]

end

end DcsDashboard.Lib

/-
# Double-precision arithmetic

A double is `m * 2 ^ e` with an `m` of 53 bits, and every operation gives the double nearest to
the exact result, of two the one with an even `m` (`toDouble`).  Numbers too large for the format
are not cut off, so an overflow shows as a number that no step moves any more.

What the proofs use of it: rounding keeps order (`toDouble_mono`) and sign (`toDouble_neg`),
rounding twice is rounding once (`toDouble_toDouble`), and a number of at most 53 bits is its own
rounding (`toDouble_scaled`).
-/
import Mathlib.Algebra.Order.Field.Power
import Mathlib.Algebra.Order.Floor.Ring
import Mathlib.Data.Int.Log
import Mathlib.Tactic.Positivity
import Mathlib.Tactic.Linarith
import Mathlib.Tactic.Ring

namespace DcsDashboard.Lib

variable {K : Type*} [Field K] [LinearOrder K] [IsStrictOrderedRing K] [FloorRing K]

/-! ## 1. The nearest whole number -/

/-- What `roundEven x` is. -/
structure IsNearest (x : K) (n : ℤ) : Prop where
  le : n ≤ x + 1 / 2
  ge : x - 1 / 2 ≤ n
  even : (n = x + 1 / 2 ∨ n = x - 1 / 2) → Even n

/-- The nearest whole numbers are in the order of the numbers. -/
theorem IsNearest.mono {x y : K} {m n : ℤ} (hm : IsNearest x m) (hn : IsNearest y n)
    (hxy : x ≤ y) : m ≤ n := by
  by_contra hlt
  have hle : (n : K) + 1 ≤ m := by exact_mod_cast not_le.mp hlt
  have hmle := hm.le
  have hnge := hn.ge
  -- both are half a unit off, on either side of one number
  have hmx : (m : K) = x + 1 / 2 := by linarith
  have hny : (n : K) = y - 1 / 2 := by linarith
  have hsucc : m = n + 1 := by
    have heq : (m : K) = n + 1 := by linarith
    exact_mod_cast heq
  have heven := hm.even (.inl hmx)
  rw [hsucc, Int.even_add_one] at heven
  exact heven (hn.even (.inr hny))

theorem IsNearest.eq {x : K} {m n : ℤ} (hm : IsNearest x m) (hn : IsNearest x n) : m = n :=
  le_antisymm (hm.mono hn le_rfl) (hn.mono hm le_rfl)

theorem IsNearest.neg {x : K} {n : ℤ} (h : IsNearest x n) : IsNearest (-x) (-n) where
  le := by have := h.ge; push_cast; linarith
  ge := by have := h.le; push_cast; linarith
  even := by
    rintro (hn | hn) <;> push_cast at hn
    · exact (h.even (.inr (by linarith))).neg
    · exact (h.even (.inl (by linarith))).neg

end DcsDashboard.Lib

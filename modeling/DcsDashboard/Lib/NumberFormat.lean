/-
# Numbers and their texts

What a program relies on when it prints a floating-point number and lets Lua read it back.
Rounding and printing are given as they are (`NumberFormat`); `Lawful` states what is documented
of them: integers up to `2 ^ 53` are exact, and the text of a double is a numeral, possibly with
a minus, that is read as that double again.
-/
import DcsDashboard.Lib.LuaWriting
import Mathlib.Data.Rat.Floor

namespace DcsDashboard.Lib

open Lua

/-- The floating-point numbers of Lua and of the program that reads and writes its files. -/
structure NumberFormat where
  /-- the double nearest to a number -/
  round : ℚ → Double
  /-- the integer that a Lua number is handed over as, if it is -/
  integer : Double → Option ℤ
  /-- `str::parse::<f64>` -/
  parse : List Char → Option Double
  /-- `format!` of an `f64` -/
  display : ℚ → List Char
  /-- the text of a number in JSON -/
  serialize : ℚ → List Char

namespace NumberFormat

/-- The text is a numeral, possibly with a minus, whose double is `n`. -/
def IsPrinted (F : NumberFormat) (text : List Char) (n : ℚ) : Prop :=
  ∃ body q, IsNumeral body ∧ str2d body = some q ∧
    (text = body ∧ F.round q = .finite n ∨ text = '-' :: body ∧ (F.round q).neg = .finite n)

/-- What is documented of the numbers. -/
structure Lawful (F : NumberFormat) : Prop where
  round_nat : ∀ n : Nat, n ≤ 2 ^ 53 → F.round n = .finite n
  printed_display : ∀ n, F.round n = .finite n → F.IsPrinted (F.display n) n
  printed_serialize : ∀ n, F.round n = .finite n → F.IsPrinted (F.serialize n) n

/-- A double that is handed over unchanged. -/
def Kept (F : NumberFormat) (n : ℚ) : Prop :=
  F.round n = .finite n ∧ ∀ i, F.integer (.finite n) = some i → (i : ℚ) = n

/-- Lua reads a printed number back. -/
theorem IsPrinted.written {F : NumberFormat} {text : List Char} {n : ℚ}
    (h : F.IsPrinted text n) : Written F.round text (.number (.finite n)) := by
  obtain ⟨body, q, hbody, hq, ⟨rfl, hround⟩ | ⟨rfl, hround⟩⟩ := h
  · exact hround ▸ written_numeral hbody hq
  · exact hround ▸ written_minus hbody hq

end NumberFormat

/-- The text of an integer. -/
def intText (i : ℤ) : List Char :=
  if i < 0 then '-' :: Nat.toDigits 10 i.natAbs else Nat.toDigits 10 i.natAbs

/-- Integers that are doubles are read back. -/
theorem printed_intText {F : NumberFormat} {i : ℤ}
    (hi : F.round (i.natAbs : ℚ) = .finite i.natAbs) : F.IsPrinted (intText i) i := by
  refine ⟨Nat.toDigits 10 i.natAbs, i.natAbs, isNumeral_repr _, str2d_repr _, ?_⟩
  rw [hi, intText]
  rcases lt_or_ge i 0 with hneg | hpos
  · right
    have habs : ((i.natAbs : ℤ) : ℚ) = ((-i : ℤ) : ℚ) := by
      rw [Int.ofNat_natAbs_of_nonpos hneg.le]
    have hcast : -(i.natAbs : ℚ) = i := by
      rw [← Int.cast_natCast, habs, Int.cast_neg, neg_neg]
    exact ⟨if_pos hneg, congrArg Double.finite hcast⟩
  · left
    have hcast : (i.natAbs : ℚ) = i := by
      rw [← Int.cast_natCast, Int.natAbs_of_nonneg hpos]
    exact ⟨if_neg hpos.not_gt, congrArg Double.finite hcast⟩

/-- The number format cut down to integers. -/
def integers : NumberFormat where
  round q := .finite ⌊q⌋
  integer
    | .finite q => if q.den = 1 then some q.num else none
    | _ => none
  parse _ := none
  display q := intText ⌊q⌋
  serialize q := intText ⌊q⌋

theorem integers_round (n : Nat) : integers.round n = .finite n := by simp [integers]

theorem integers_printed {n : ℚ} (h : integers.round n = .finite n) :
    integers.IsPrinted (intText ⌊n⌋) n := by
  have hn : (⌊n⌋ : ℚ) = n := Double.finite.inj h
  have hprinted : integers.IsPrinted (intText ⌊n⌋) (⌊n⌋ : ℚ) := printed_intText (integers_round _)
  rwa [hn] at hprinted

theorem integers_lawful : integers.Lawful where
  round_nat n _ := integers_round n
  printed_display _ := integers_printed
  printed_serialize _ := integers_printed

theorem integers_kept (i : ℤ) : integers.Kept i := by
  refine ⟨by simp [integers], ?_⟩
  intro j hj
  obtain rfl : i = j := by simpa [integers] using hj
  rfl

end DcsDashboard.Lib

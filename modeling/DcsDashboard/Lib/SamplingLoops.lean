/-
# Loops that sample an interval

`while cond(x) do if not test(x) then return false end; x = next(x) end; return true` by its own
rules, without a bound on the rounds (`LoopYields`): such a loop need not end.  The values it takes
are the iterates of `next`, and where `cond` once false stays false along them the loop ends in
`true` exactly when they get past `cond` and pass the test on the way (`LoopYields.true_iff`).

The second half is what the iterates leave unsampled: as long as each lies above the last, they and
the upper end span the interval without a gap (`spanned_of_climbs`).
-/
import DcsDashboard.Lib.LuaMath

namespace DcsDashboard.Lib

/-! ## 1. The rules of the loop -/

section Rules

variable {R : Type*} {cond : R → Prop} {test : R → Bool → Prop} {next : R → R} {x : R} {b c : Bool}

/-- `LoopYields cond test next x b`: the loop, from `x` on, ends with `b`. -/
inductive LoopYields (cond : R → Prop) (test : R → Bool → Prop) (next : R → R) : R → Bool → Prop
  | ended {x : R} : ¬cond x → LoopYields cond test next x true
  | failed {x : R} : cond x → test x false → LoopYields cond test next x false
  | again {x : R} {b : Bool} : cond x → test x true → LoopYields cond test next (next x) b →
      LoopYields cond test next x b

/-- A loop whose values get past the condition, and whose tests succeed before that. -/
theorem LoopYields.of_samples {n : ℕ} (hend : ¬cond (next^[n] x))
    (htest : ∀ k, cond (next^[k] x) → test (next^[k] x) true) : LoopYields cond test next x true := by
  induction n generalizing x with
  | zero => exact .ended hend
  | succ n ih =>
    by_cases hx : cond x
    · exact .again hx (htest 0 hx) (ih hend fun k => htest (k + 1))
    · exact .ended hx

/-- A loop whose values get past the condition ends, if its tests do. -/
theorem LoopYields.total {n : ℕ} (hend : ¬cond (next^[n] x)) (htest : ∀ y, ∃ b, test y b) :
    ∃ b, LoopYields cond test next x b := by
  induction n generalizing x with
  | zero => exact ⟨true, .ended hend⟩
  | succ n ih =>
    by_cases hx : cond x
    · obtain ⟨b, hb⟩ := htest x
      cases b with
      | false => exact ⟨false, .failed hx hb⟩
      | true =>
        obtain ⟨b, hloop⟩ := ih hend
        exact ⟨b, .again hx hb hloop⟩
    · exact ⟨true, .ended hx⟩

/-- A loop that ends in `true` has got past the condition, every test before that succeeding. -/
theorem LoopYields.true_inv (h : LoopYields cond test next x true) :
    ∃ n, ¬cond (next^[n] x) ∧ ∀ k < n, test (next^[k] x) true := by
  generalize hb : true = b at h
  induction h with
  | ended hx => exact ⟨0, hx, fun k hk => absurd hk (Nat.not_lt_zero k)⟩
  | failed _ _ => cases hb
  | again _ htest _ ih =>
    obtain ⟨n, hend, hall⟩ := ih hb
    refine ⟨n + 1, hend, ?_⟩
    intro k hk
    cases k with
    | zero => exact hb ▸ htest
    | succ k => exact hall k (Nat.lt_of_succ_lt_succ hk)

/-- A loop that ends in `false` has come upon a test that fails. -/
theorem LoopYields.false_inv (h : LoopYields cond test next x false) :
    ∃ n, cond (next^[n] x) ∧ test (next^[n] x) false := by
  generalize hb : false = b at h
  induction h with
  | ended _ => cases hb
  | failed hx htest => exact ⟨0, hx, htest⟩
  | again _ _ _ ih =>
    obtain ⟨n, hn⟩ := ih hb
    exact ⟨n + 1, hn⟩

/-- A loop with fewer rules for its test. -/
theorem LoopYields.mono {test' : R → Bool → Prop} (htest : ∀ y b, test y b → test' y b)
    (h : LoopYields cond test next x b) : LoopYields cond test' next x b := by
  induction h with
  | ended hx => exact .ended hx
  | failed hx hfail => exact .failed hx (htest _ _ hfail)
  | again hx hgood _ ih => exact .again hx (htest _ _ hgood) ih

/-- A loop ends in one way, if its tests do. -/
theorem LoopYields.unique (htest : ∀ y b c, test y b → test y c → b = c)
    (hb : LoopYields cond test next x b) (hc : LoopYields cond test next x c) : b = c := by
  induction hb with
  | ended hx =>
    cases hc with
    | ended _ => rfl
    | failed hx' _ => exact absurd hx' hx
    | again hx' _ _ => exact absurd hx' hx
  | failed hx hfail =>
    cases hc with
    | ended hx' => exact absurd hx hx'
    | failed _ _ => rfl
    | again _ hgood _ => exact absurd (htest _ _ _ hfail hgood) (by decide)
  | again hx hgood _ ih =>
    cases hc with
    | ended hx' => exact absurd hx hx'
    | failed _ hfail => exact absurd (htest _ _ _ hfail hgood) (by decide)
    | again _ _ hc => exact ih hc

/-- **When the loop ends in `true`.** -/
theorem LoopYields.true_iff (hdown : Antitone fun k => cond (next^[k] x)) :
    LoopYields cond test next x true ↔
      (∃ n, ¬cond (next^[n] x)) ∧ ∀ k, cond (next^[k] x) → test (next^[k] x) true := by
  constructor
  · intro h
    obtain ⟨n, hend, hall⟩ := h.true_inv
    refine ⟨⟨n, hend⟩, fun k hk => hall k ?_⟩
    by_contra hnk
    exact hend (hdown (not_lt.mp hnk) hk)
  · rintro ⟨⟨n, hend⟩, htest⟩
    exact .of_samples hend htest

end Rules

/-- **The counted loop** is what the loop ends with. -/
theorem loopYields_whileSteps {R : Type*} [Field R] [LinearOrder R] [FloorRing R]
    [IsStrictOrderedRing R] {cond test : R → Bool} {step hi : R} (hstep : 0 < step)
    (hcond : ∀ y, cond y = true → y ≤ hi) (x : R) :
    LoopYields (fun y => cond y = true) (fun y b => test y = b) (fun y => y + step) x
      (whileSteps cond test step (stepRounds step hi x) x) := by
  induction hn : stepRounds step hi x generalizing x with
  | zero => simp [stepRounds] at hn
  | succ n ih =>
    rw [← hn, whileSteps_unroll hstep hcond]
    by_cases hx : cond x = true
    · rw [if_pos hx]
      cases htest : test x with
      | false => exact .failed hx htest
      | true =>
        refine .again hx htest ?_
        by_cases hnext : cond (x + step) = true
        · -- both rounds are within `hi`, so one is left less
          have hfloor : ⌊(hi - (x + step)) / step⌋ = ⌊(hi - x) / step⌋ - 1 := by
            rw [← Int.floor_sub_one, ← sub_sub, sub_div (hi - x), div_self hstep.ne']
          have hnonneg : 0 ≤ ⌊(hi - (x + step)) / step⌋ :=
            Int.floor_nonneg.mpr (div_nonneg (sub_nonneg.mpr (hcond _ hnext)) hstep.le)
          have hless : stepRounds step hi (x + step) = n := by
            simp only [stepRounds] at hn ⊢
            omega
          rw [Bool.true_and, hless]
          exact ih (x + step) hless
        · have hfalse : cond (x + step) = false := by simpa using hnext
          rw [whileSteps_unroll hstep hcond, hfalse]
          exact .ended hnext
    · rw [if_neg hx]
      exact .ended hx

/-! ## 2. What lies between the samples -/

section Spanned

variable {R : Type*} [LinearOrder R]

/-- Points from `lo` to `hi`, none beyond the reach of the one before, all of which have a
property. -/
def Spanned (P : R → Prop) (reach : R → R) (lo hi : R) : Prop :=
  ∃ (n : ℕ) (p : ℕ → R), p 0 = lo ∧ p n = hi ∧
    (∀ i < n, p i < p (i + 1) ∧ p (i + 1) ≤ reach (p i)) ∧ ∀ i ≤ n, P (p i)

variable {next reach : R → R} {lo hi : R}

/-- Iterates that climb and get as far as `hi` climb strictly before that. -/
theorem lt_iterate_succ (hclimb : Monotone fun k => next^[k] lo) {n k : ℕ} (hn : hi ≤ next^[n] lo)
    (hk : next^[k] lo < hi) : next^[k] lo < next^[k + 1] lo := by
  refine lt_of_le_of_ne (hclimb (Nat.le_succ k)) ?_
  intro hfixed
  have hstuck : next^[n] (next^[k] lo) = next^[k] lo := by
    refine Function.iterate_fixed ?_ n
    rw [← Function.iterate_succ_apply' next k lo]
    exact hfixed.symm
  have hle : next^[n] lo ≤ next^[n + k] lo := hclimb (Nat.le_add_right n k)
  rw [Function.iterate_add_apply, hstuck] at hle
  exact absurd (hn.trans hle) (not_le.mpr hk)

/-- **Climbing samples leave no gap.** -/
theorem spanned_of_climbs {P : R → Prop} (hlo : lo ≤ hi)
    (hclimb : Monotone fun k => next^[k] lo) (hend : ∃ n, hi ≤ next^[n] lo)
    (hreach : ∀ y, next y ≤ reach y) (hP : ∀ k, next^[k] lo < hi → P (next^[k] lo))
    (hhi : P hi) : Spanned P reach lo hi := by
  classical
  have hn := Nat.find_spec hend
  have hbefore : ∀ i < Nat.find hend, next^[i] lo < hi := fun i hi =>
    not_le.mp (Nat.find_min hend hi)
  refine ⟨Nat.find hend, fun i => min (next^[i] lo) hi, min_eq_left hlo, min_eq_right hn,
    fun i hi => ?_, fun i _ => ?_⟩
  · have hlt := hbefore i hi
    simp only [min_eq_left hlt.le]
    refine ⟨lt_min (lt_iterate_succ hclimb hn hlt) hlt, (min_le_left _ _).trans ?_⟩
    rw [Function.iterate_succ_apply']
    exact hreach _
  · rcases lt_or_ge (next^[i] lo) hi with hlt | hge
    · simp only [min_eq_left hlt.le]
      exact hP i hlt
    · simp only [min_eq_right hge]
      exact hhi

end Spanned

end DcsDashboard.Lib

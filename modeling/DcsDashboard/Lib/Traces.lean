/-
# Logs of runs

A system that keeps a log only adds to it: `Appends step log added` says what each step adds.
Whatever stands in the log of a run was then added by one of its steps, which splits the run, and
what had been logged before that step stands earlier in the log (`Run.exists_step_of_log`).
-/
import DcsDashboard.Lib.Runs

namespace DcsDashboard.Lib

variable {σ α ε : Type*} {step : σ → α → Option σ} {C : σ → α → Prop} {log : σ → List ε}
  {added : σ → α → List ε}

/-- Each step adds to the log. -/
def Appends (step : σ → α → Option σ) (log : σ → List ε) (added : σ → α → List ε) : Prop :=
  ∀ s a t, step s a = some t → log t = log s ++ added s a

/-- What is logged stays. -/
theorem Run.log_prefix (hlog : Appends step log added) {s t : σ} {as : List α}
    (h : Run step C s as t) : log s <+: log t := by
  induction h with
  | nil => exact List.prefix_refl _
  | snoc _ _ hs ih =>
    rw [hlog _ _ _ hs]
    exact ih.trans (List.prefix_append _ _)

/-- An entry of two parts of a log is one of the first part, or of the second behind the first. -/
theorem split_append {xs ys before after : List ε} {x : ε}
    (h : xs ++ ys = before ++ x :: after) :
    (∃ rest, xs = before ++ x :: rest) ∨ xs <+: before ∧ x ∈ ys := by
  rcases List.append_eq_append_iff.mp h with ⟨front, rfl, hys⟩ | ⟨back, hxs, hback⟩
  · exact .inr ⟨List.prefix_append xs front, by simp [hys]⟩
  · cases back with
    | nil =>
      rw [List.append_nil] at hxs
      rw [List.nil_append] at hback
      subst hxs hback
      exact .inr ⟨List.prefix_refl _, List.mem_cons_self⟩
    | cons y back =>
      obtain ⟨rfl, -⟩ := List.cons.inj hback
      exact .inl ⟨back, hxs⟩

/-- **What is logged was added by a step**, in a state whose log stands before it. -/
theorem Run.exists_step_of_log (hlog : Appends step log added) {s t : σ} {as : List α}
    (h : Run step C s as t) (hstart : log s = []) {before after : List ε} {x : ε}
    (hx : log t = before ++ x :: after) :
    ∃ earlier a later u v, as = earlier ++ a :: later ∧ Run step C s earlier u ∧ C u a ∧
      step u a = some v ∧ Run step C v later t ∧ log u <+: before ∧ x ∈ added u a := by
  induction h generalizing after with
  | nil => simp [hstart] at hx
  | @snoc t' u' as a hrun hC hs ih =>
    rw [hlog _ _ _ hs] at hx
    rcases split_append hx with ⟨rest, hfirst⟩ | ⟨hbefore, hadded⟩
    · obtain ⟨earlier, b, later, u, v, rfl, hearlier, hCb, hstep, hlater, hprefix, hmem⟩ := ih hfirst
      exact ⟨earlier, b, later ++ [a], u, v, by simp, hearlier, hCb, hstep, hlater.snoc hC hs,
        hprefix, hmem⟩
    · exact ⟨as, a, [], t', u', rfl, hrun, hC, hs, .nil _, hbefore, hadded⟩

end DcsDashboard.Lib

/-
# Runs of a partial step function

A system is a partial function `step : σ → α → Option σ`: in a state, an action is either
not enabled or leads to one state.  Whatever the environment decides (which party moves,
what a sensor reads, whether a call fails) is carried by the action, so a RUN is a list of
actions and every interleaving is one such list.

`Run step C s as t` restricts the runs to those each of whose steps meets a condition `C`
in the state it is taken in.  The unrestricted runs are those with `C := Always`.  What a
step preserves, a run preserves (`Run.invariant`); and a run can be executed
(`run_iff_exec`), which is how a concrete run is exhibited.
-/
import Mathlib.Data.List.Basic

namespace DcsDashboard.Lib

variable {σ α : Type*}

/-! ## 1. Runs -/

/-- The condition that restricts nothing. -/
def Always (_ : σ) (_ : α) : Prop := True

instance (s : σ) (a : α) : Decidable (Always s a) := inferInstanceAs (Decidable True)

/-- `Run step C s as t`: from `s` the actions `as` are enabled one after the other, each
meets `C` in the state it is taken in, and they lead to `t`. -/
inductive Run (step : σ → α → Option σ) (C : σ → α → Prop) : σ → List α → σ → Prop
  | nil (s : σ) : Run step C s [] s
  | snoc {s t u : σ} {as : List α} {a : α} :
      Run step C s as t → C t a → step t a = some u → Run step C s (as ++ [a]) u

variable {step : σ → α → Option σ} {C D : σ → α → Prop}

/-- One step is a run. -/
theorem Run.single {s t : σ} {a : α} (hC : C s a) (h : step s a = some t) :
    Run step C s [a] t :=
  Run.snoc (Run.nil s) hC h

/-- Runs compose. -/
theorem Run.append {s t u : σ} {as bs : List α} (h₁ : Run step C s as t)
    (h₂ : Run step C t bs u) : Run step C s (as ++ bs) u := by
  induction h₂ with
  | nil => rwa [List.append_nil]
  | snoc _ hC hs ih =>
    rw [← List.append_assoc]
    exact Run.snoc ih hC hs

/-- A run may be extended at the front. -/
theorem Run.cons {s t u : σ} {a : α} {as : List α} (hC : C s a) (hs : step s a = some t)
    (h : Run step C t as u) : Run step C s (a :: as) u :=
  (Run.single hC hs).append h

/-- Weakening the condition keeps the run. -/
theorem Run.mono {s t : σ} {as : List α} (h : Run step C s as t)
    (hCD : ∀ t a, C t a → D t a) : Run step D s as t := by
  induction h with
  | nil => exact Run.nil _
  | snoc _ hC hs ih => exact Run.snoc ih (hCD _ _ hC) hs

/-- **The invariant rule.**  What holds at the start and is preserved by every step that
meets the condition holds in every state a run reaches. -/
theorem Run.invariant {I : σ → Prop} {s t : σ} {as : List α} (h : Run step C s as t)
    (h0 : I s) (hstep : ∀ t a u, I t → C t a → step t a = some u → I u) : I t := by
  induction h with
  | nil => exact h0
  | snoc _ hC hs ih => exact hstep _ _ _ ih hC hs

/-- The invariant rule for what is said of a state and the actions that have led to it. -/
theorem Run.history {I : List α → σ → Prop} {s t : σ} {as : List α} (h : Run step C s as t)
    (h0 : I [] s)
    (hstep : ∀ as t a u, I as t → C t a → step t a = some u → I (as ++ [a]) u) : I as t := by
  induction h with
  | nil => exact h0
  | snoc _ hC hs ih => exact hstep _ _ _ _ ih hC hs

/-! ## 2. Executing a run -/

/-- The state a list of actions leads to, `none` as soon as one is not enabled. -/
def exec (step : σ → α → Option σ) : σ → List α → Option σ
  | s, [] => some s
  | s, a :: as => (step s a).bind fun t => exec step t as

theorem exec_cons {s u : σ} {a : α} {as : List α} :
    exec step s (a :: as) = some u ↔ ∃ t, step s a = some t ∧ exec step t as = some u := by
  simp [exec, Option.bind_eq_some_iff]

theorem exec_append {s u : σ} {as bs : List α} :
    exec step s (as ++ bs) = some u ↔ ∃ t, exec step s as = some t ∧ exec step t bs = some u := by
  induction as generalizing s with
  | nil => simp [exec]
  | cons a as ih =>
    simp only [List.cons_append, exec_cons, ih]
    constructor
    · rintro ⟨t, hs, v, h1, h2⟩; exact ⟨v, ⟨t, hs, h1⟩, h2⟩
    · rintro ⟨v, ⟨t, hs, h1⟩, h2⟩; exact ⟨t, hs, v, h1, h2⟩

/-- The unrestricted runs are the executions. -/
theorem run_iff_exec {s t : σ} {as : List α} :
    Run step Always s as t ↔ exec step s as = some t := by
  constructor
  · intro h
    induction h with
    | nil => rfl
    | snoc _ _ hs ih => exact exec_append.mpr ⟨_, ih, by simp [exec, hs]⟩
  · intro h
    induction as generalizing s with
    | nil => cases h; exact Run.nil _
    | cons a as ih =>
      obtain ⟨t', hs, h'⟩ := (exec_cons).mp h
      exact Run.cons trivial hs (ih h')

/-- An execution of actions that meet the condition in every state is a restricted run. -/
theorem run_of_exec {s t : σ} {as : List α} (hC : ∀ a ∈ as, ∀ u, C u a)
    (h : exec step s as = some t) : Run step C s as t := by
  induction as generalizing s with
  | nil => cases h; exact Run.nil _
  | cons a as ih =>
    obtain ⟨t', hs, h'⟩ := exec_cons.mp h
    exact Run.cons (hC a (by simp) s) hs (ih (fun b hb => hC b (List.mem_cons_of_mem a hb)) h')

/-- Executes a list of actions, checking the condition before each. -/
def execMeeting (step : σ → α → Option σ) (C : σ → α → Prop) [∀ s a, Decidable (C s a)] :
    σ → List α → Option σ
  | s, [] => some s
  | s, a :: as => if C s a then (step s a).bind fun t => execMeeting step C t as else none

/-- A checked execution is a restricted run. -/
theorem run_of_execMeeting [∀ s a, Decidable (C s a)] {s t : σ} {as : List α}
    (h : execMeeting step C s as = some t) : Run step C s as t := by
  induction as generalizing s with
  | nil => cases h; exact Run.nil _
  | cons a as ih =>
    by_cases hC : C s a
    · simp only [execMeeting, if_pos hC, Option.bind_eq_some_iff] at h
      obtain ⟨t', hs, h'⟩ := h
      exact Run.cons hC hs (ih h')
    · simp [execMeeting, hC] at h

/-- The state a checked execution reaches, with what is decided about it. -/
theorem exists_run_of_execMeeting [∀ s a, Decidable (C s a)] {P : σ → Prop} [DecidablePred P]
    {s : σ} {as : List α} (h : (execMeeting step C s as).any fun t => P t) :
    ∃ t, Run step C s as t ∧ P t := by
  obtain ⟨t, ht, hP⟩ := (Option.any_eq_true _ _).mp h
  exact ⟨t, run_of_execMeeting ht, of_decide_eq_true hP⟩

end DcsDashboard.Lib

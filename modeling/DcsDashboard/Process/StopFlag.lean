/-
# Dashboard, watchdog and the stop flag

The dashboard (`routes/system.rs`) stops, starts and restarts the two host processes; the
watchdog (`Watchdog-DCS-SRS.ps1`) restarts whichever of them is not running.  They share two
things and no lock: whether the process exists, and the flag file that means "stopped on
purpose, leave it".

A request is the list of steps it still has to take (`stopTarget`, `startTarget`,
`processAction`), the watchdog is its position in the loop (`Watch`), and `step` lets either
of them, or the operating system, move.  Any number of requests may be under way at once.

`stop_target` kills FIRST and writes the flag LAST, so between the two the watchdog can find
the process gone and no flag.
-/
import DcsDashboard.Lib.Runs
import Mathlib.Data.List.Infix
import Mathlib.Logic.Function.Basic

namespace DcsDashboard.Process

open Lib

/-! ## 1. The two parties -/

/-- The controllable host processes, `ProcessTarget::dcs` and `ProcessTarget::srs`. -/
inductive Target
  | dcs
  | srs
  deriving DecidableEq

/-- The `action` of `POST /api/server/{dcs,srs}-process`. -/
inductive ProcessAction
  | start
  | stop
  | restart
  deriving DecidableEq

/-- What the host knows of a process.  A killed process stays listed for a moment. -/
inductive Status
  | running
  | dying
  | gone
  deriving DecidableEq

/-- One step of a dashboard request. -/
inductive DashStep
  /-- `Stop-Process -Force` -/
  | kill
  /-- `Wait-Process -Timeout STOP_WAIT_SECS`, which gives up after the timeout -/
  | waitGone
  /-- `tokio::fs::write(&target.stop_flag, ..)` -/
  | writeFlag
  /-- `tokio::fs::remove_file(&target.stop_flag)` -/
  | removeFlag
  /-- `start_via_task` or `start_via_command` -/
  | launch
  deriving DecidableEq

/-- `stop_target`: kill the process, wait for it to be gone, leave the flag. -/
def stopTarget : List DashStep := [.kill, .waitGone, .writeFlag]

/-- `start_target`: remove the flag, then start. -/
def startTarget : List DashStep := [.removeFlag, .launch]

/-- `process_action`: the steps of a request. -/
def processAction (action : ProcessAction) : List DashStep :=
  (if action = .stop ∨ action = .restart then stopTarget else []) ++
    (if action = .start ∨ action = .restart then startTarget else [])

/-- A request under way: what is still to do is the rest of its action. -/
structure Request where
  target : Target
  action : ProcessAction
  todo : List DashStep
  todo_suffix : todo <:+ processAction action

/-- A request that has just arrived. -/
def Request.new (target : Target) (action : ProcessAction) : Request :=
  ⟨target, action, processAction action, List.suffix_refl _⟩

/-- The request after its next step. -/
def Request.advance (r : Request) : Request :=
  { r with todo := r.todo.tail, todo_suffix := (List.tail_suffix r.todo).trans r.todo_suffix }

/-- A stop request that has killed the process and not yet written the flag. -/
def Request.Unflagged (r : Request) : Prop :=
  r.action = .stop ∧ DashStep.writeFlag ∈ r.todo ∧ DashStep.kill ∉ r.todo

instance (r : Request) : Decidable r.Unflagged := inferInstanceAs (Decidable (_ ∧ _ ∧ _))

/-- Where the watchdog is.  `Ensure-Running` tests the process, then the flag, then runs the
start script; the loop does DCS, then SRS, then sleeps. -/
inductive Watch
  | sleep
  | ensureRunning (t : Target)
  | testFlag (t : Target)
  | startScript (t : Target)
  deriving DecidableEq

/-- The target whose flag is tested next. -/
def Watch.testing? : Watch → Option Target
  | .testFlag t => some t
  | _ => none

/-- Where the loop goes after `Ensure-Running` has returned. -/
def Watch.next : Target → Watch
  | .dcs => .ensureRunning .srs
  | .srs => .sleep

/-! ## 2. The system -/

/-- One host process.  `deliberate` is a ghost: a stop request has killed the process and no
later dashboard start or restart has taken a step. -/
structure Host where
  status : Status
  stopFlag : Bool
  deliberate : Bool
  deriving DecidableEq

structure State where
  host : Target → Host
  requests : List Request
  watch : Watch

/-- What can happen next.  `up` is whether a launch brought the process up. -/
inductive Event
  | request (t : Target) (action : ProcessAction)
  | dashboard (i : Nat) (up : Bool)
  | watchdog (up : Bool)
  /-- a killed process disappears, or a running one crashes -/
  | exits (t : Target)
  deriving DecidableEq

/-- A launch of the process; one that is already there is left alone. -/
def Host.launch (h : Host) (up : Bool) : Host :=
  if h.status = .gone ∧ up = false then h else { h with status := .running }

/-- What a dashboard step of a request with this action does to the host. -/
def Host.dashStep (h : Host) (action : ProcessAction) (up : Bool) : DashStep → Host
  | .kill =>
    { h with
      status := if h.status = .running then .dying else h.status
      deliberate := action = .stop }
  | .waitGone => h
  | .writeFlag => { h with stopFlag := true }
  | .removeFlag => { h with stopFlag := false, deliberate := false }
  | .launch => h.launch up

/-- The watchdog's next step. -/
def watchStep (s : State) (up : Bool) : State :=
  match s.watch with
  | .sleep => { s with watch := .ensureRunning .dcs }
  | .ensureRunning t =>
    if (s.host t).status = .gone then { s with watch := .testFlag t }
    else { s with watch := Watch.next t }
  | .testFlag t =>
    if (s.host t).stopFlag then { s with watch := Watch.next t }
    else { s with watch := .startScript t }
  | .startScript t =>
    { s with
      host := Function.update s.host t ((s.host t).launch up)
      watch := Watch.next t }

/-- One step of the whole system. -/
def step (s : State) : Event → Option State
  | .request t action => some { s with requests := s.requests ++ [Request.new t action] }
  | .dashboard i up =>
    match s.requests[i]? with
    | none => none
    | some r =>
      match r.todo with
      | [] => none
      | d :: _ =>
        some { s with
          host := Function.update s.host r.target ((s.host r.target).dashStep r.action up d)
          requests := s.requests.set i r.advance }
  | .watchdog up => some (watchStep s up)
  | .exits t =>
    some { s with host := Function.update s.host t { s.host t with status := .gone } }

/-- Nothing is under way and no stop is in force. -/
def Initial (s : State) : Prop := s.requests = [] ∧ ∀ t, (s.host t).deliberate = false

/-- The watchdog is about to run the start script of a process that was stopped on purpose. -/
def Undoes (s : State) (e : Event) : Prop :=
  ∃ t up, e = .watchdog up ∧ s.watch = .startScript t ∧ (s.host t).deliberate = true

/-! ## 3. The condition on the interleaving -/

/-- The watchdog does not look for the flag, and miss it, while a stop request stands between
its kill and its flag; and no stop request kills while the watchdog, past both of its tests,
is about to run the start script. -/
def OutsideWindow (s : State) : Event → Prop
  | .watchdog _ => ∀ t ∈ s.watch.testing?, (s.host t).stopFlag = false →
      ∀ r ∈ s.requests, r.target = t → ¬ r.Unflagged
  | .dashboard i _ => ∀ r ∈ s.requests[i]?, r.action = .stop →
      r.todo.head? = some .kill → s.watch ≠ .startScript r.target
  | _ => True

instance (s : State) : (e : Event) → Decidable (OutsideWindow s e)
  | .watchdog _ => inferInstanceAs (Decidable (∀ t ∈ s.watch.testing?, _ → ∀ r ∈ s.requests, _))
  | .dashboard i _ => inferInstanceAs (Decidable (∀ r ∈ s.requests[i]?, _ → _ → _))
  | .request _ _ => inferInstanceAs (Decidable True)
  | .exits _ => inferInstanceAs (Decidable True)

/-- A stop in force is backed by the flag or by a request that will write it, and the
watchdog is not about to undo it. -/
structure Respected (s : State) : Prop where
  backed : ∀ t, (s.host t).deliberate = true → (s.host t).stopFlag = true ∨
    ∃ r ∈ s.requests, r.target = t ∧ r.Unflagged
  not_starting : ∀ t, (s.host t).deliberate = true → s.watch ≠ .startScript t

theorem Initial.respected {s : State} (h : Initial s) : Respected s :=
  ⟨fun t ht => absurd ht (by simp [h.2 t]), fun t ht => absurd ht (by simp [h.2 t])⟩

/-! ## 4. What one step does -/

/-- A stop request that has just killed the process has not written the flag. -/
theorem Request.unflagged_advance_of_kill {r : Request} {rest : List DashStep}
    (ha : r.action = .stop) (hd : r.todo = .kill :: rest) : r.advance.Unflagged := by
  have hsuf : DashStep.kill :: rest <:+ stopTarget := by
    simpa [hd, ha, processAction] using r.todo_suffix
  have hrest : rest = [.waitGone, .writeFlag] := by
    simpa [stopTarget, List.suffix_cons_iff] using hsuf
  simp [Request.Unflagged, Request.advance, ha, hd, hrest]

/-- Only the flag write itself ends the window. -/
theorem Request.Unflagged.advance {r : Request} {d : DashStep} {rest : List DashStep}
    (h : r.Unflagged) (hd : r.todo = d :: rest) (hne : d ≠ .writeFlag) :
    r.advance.Unflagged := by
  obtain ⟨ha, hw, hk⟩ := h
  rw [hd] at hw hk
  have hw' : DashStep.writeFlag ∈ rest := (List.mem_cons.mp hw).resolve_left (Ne.symm hne)
  have hk' : DashStep.kill ∉ rest := fun hm => hk (List.mem_cons_of_mem _ hm)
  simpa [Request.Unflagged, Request.advance, ha, hd] using ⟨hw', hk'⟩

/-- A request other than the one that moved is still under way. -/
theorem mem_set_of_ne {rs : List Request} {i : Nat} {r q : Request} (r' : Request)
    (hi : rs[i]? = some r) (hq : q ∈ rs) (hne : q ≠ r) : q ∈ rs.set i r' := by
  obtain ⟨j, hj, rfl⟩ := List.mem_iff_getElem.mp hq
  have hji : i ≠ j := by
    rintro rfl
    exact hne (by simpa [List.getElem?_eq_getElem hj] using hi)
  exact List.mem_iff_getElem.mpr ⟨j, by simpa using hj, by simp [hji]⟩

/-- The request that moved is under way with one step less to do. -/
theorem mem_set_self {rs : List Request} {i : Nat} {r : Request} (r' : Request)
    (hi : rs[i]? = some r) : r' ∈ rs.set i r' := by
  obtain ⟨hlt, -⟩ := List.getElem?_eq_some_iff.mp hi
  exact List.mem_iff_getElem.mpr ⟨i, by simpa using hlt, by simp⟩

/-- Everything a step can do. -/
theorem step_cases {s u : State} {e : Event} (h : step s e = some u) :
    (∃ t a, e = .request t a ∧ u = { s with requests := s.requests ++ [Request.new t a] }) ∨
    (∃ i up r d rest, e = .dashboard i up ∧ s.requests[i]? = some r ∧ r.todo = d :: rest ∧
      u = { s with
        host := Function.update s.host r.target ((s.host r.target).dashStep r.action up d)
        requests := s.requests.set i r.advance }) ∨
    (∃ up, e = .watchdog up ∧ u = watchStep s up) ∨
    (∃ t, e = .exits t ∧
      u = { s with host := Function.update s.host t { s.host t with status := .gone } }) := by
  cases e with
  | request t a => exact .inl ⟨t, a, rfl, by simpa [step] using h.symm⟩
  | dashboard i up =>
    cases hi : s.requests[i]? with
    | none => simp [step, hi] at h
    | some r =>
      cases hd : r.todo with
      | nil => simp [step, hi, hd] at h
      | cons d rest =>
        exact .inr (.inl ⟨i, up, r, d, rest, rfl, hi, hd, by simpa [step, hi, hd] using h.symm⟩)
  | watchdog up => exact .inr (.inr (.inl ⟨up, rfl, by simpa [step] using h.symm⟩))
  | exits t => exact .inr (.inr (.inr ⟨t, rfl, by simpa [step] using h.symm⟩))

@[simp] theorem Host.launch_deliberate (h : Host) (up : Bool) :
    (h.launch up).deliberate = h.deliberate := by
  unfold Host.launch; split <;> rfl

@[simp] theorem Host.launch_stopFlag (h : Host) (up : Bool) :
    (h.launch up).stopFlag = h.stopFlag := by
  unfold Host.launch; split <;> rfl

/-- The watchdog never touches the flag, nor whether a stop is in force. -/
theorem watchStep_host (s : State) (up : Bool) (t : Target) :
    (((watchStep s up).host t).deliberate = (s.host t).deliberate) ∧
      (((watchStep s up).host t).stopFlag = (s.host t).stopFlag) := by
  unfold watchStep
  split
  · exact ⟨rfl, rfl⟩
  · split <;> exact ⟨rfl, rfl⟩
  · split <;> exact ⟨rfl, rfl⟩
  · rename_i t' _
    by_cases ht : t = t'
    · subst ht; simp
    · simp [Function.update_of_ne ht]

/-- The watchdog comes to run the start script of `t` only from a flag test that missed. -/
theorem watchStep_startScript {s : State} {up : Bool} {t : Target}
    (h : (watchStep s up).watch = .startScript t) :
    s.watch = .testFlag t ∧ (s.host t).stopFlag = false := by
  have hnext : ∀ t', Watch.next t' ≠ .startScript t := by intro t'; cases t' <;> simp [Watch.next]
  unfold watchStep at h
  split at h
  · cases h
  · split at h
    · cases h
    · exact absurd h (hnext _)
  · rename_i t' hw
    split at h
    · exact absurd h (hnext _)
    · rename_i hf
      cases h
      exact ⟨hw, by simpa using hf⟩
  · exact absurd h (hnext _)

@[simp] theorem watchStep_requests (s : State) (up : Bool) :
    (watchStep s up).requests = s.requests := by
  unfold watchStep
  split
  · rfl
  · split <;> rfl
  · split <;> rfl
  · rfl

/-! ## 5. Outside the window a stop is respected -/

/-- **The watchdog's step.** -/
theorem Respected.watchStep {s : State} (h : Respected s) (up : Bool)
    (hC : OutsideWindow s (.watchdog up)) : Respected (watchStep s up) := by
  constructor
  · intro t ht
    rw [(watchStep_host s up t).1] at ht
    rw [(watchStep_host s up t).2, watchStep_requests]
    exact h.backed t ht
  · intro t ht hw
    rw [(watchStep_host s up t).1] at ht
    obtain ⟨hwt, hflag⟩ := watchStep_startScript hw
    rcases h.backed t ht with hf | ⟨r, hr, hrt, hru⟩
    · rw [hf] at hflag; cases hflag
    · exact hC t (by simp [hwt, Watch.testing?]) hflag r hr hrt hru

/-- **A dashboard step.**  The kill of a stop opens the window, its flag write closes it, a
start or restart ends the stop. -/
theorem Respected.dashStep {s : State} (h : Respected s) {i : Nat} {up : Bool} {r : Request}
    {d : DashStep} {rest : List DashStep} (hi : s.requests[i]? = some r)
    (hd : r.todo = d :: rest) (hC : OutsideWindow s (.dashboard i up)) :
    Respected { s with
      host := Function.update s.host r.target ((s.host r.target).dashStep r.action up d)
      requests := s.requests.set i r.advance } := by
  -- a stop in force on another target, or one this step does not concern, keeps its backing
  have hkeep : ∀ t, (s.host t).deliberate = true → (t = r.target → d ≠ .writeFlag) →
      (s.host t).stopFlag = true ∨
        ∃ q ∈ s.requests.set i r.advance, q.target = t ∧ q.Unflagged := by
    intro t ht hne
    refine (h.backed t ht).imp_right ?_
    rintro ⟨q, hq, rfl, hqu⟩
    by_cases hqr : q = r
    · subst hqr
      exact ⟨_, mem_set_self _ hi, rfl, hqu.advance hd (hne rfl)⟩
    · exact ⟨q, mem_set_of_ne _ hi hq hqr, rfl, hqu⟩
  constructor
  · intro t ht
    by_cases htr : t = r.target
    · subst htr
      simp only [Function.update_self] at ht ⊢
      cases d with
      | kill =>
        right
        have ha : r.action = .stop := by simpa [Host.dashStep] using ht
        exact ⟨_, mem_set_self _ hi, rfl, Request.unflagged_advance_of_kill ha hd⟩
      | waitGone => exact hkeep _ ht (by simp)
      | writeFlag => exact .inl rfl
      | removeFlag => simp [Host.dashStep] at ht
      | launch =>
        simp only [Host.dashStep, Host.launch_deliberate, Host.launch_stopFlag] at ht ⊢
        exact hkeep _ ht (by simp)
    · simp only [Function.update_of_ne htr] at ht ⊢
      exact hkeep t ht (fun he => absurd he htr)
  · intro t ht hw
    by_cases htr : t = r.target
    · subst htr
      simp only [Function.update_self] at ht
      cases d with
      | kill =>
        have ha : r.action = .stop := by simpa [Host.dashStep] using ht
        exact hC r hi ha (by simp [hd]) hw
      | waitGone => exact h.not_starting _ ht hw
      | writeFlag => exact h.not_starting _ ht hw
      | removeFlag => simp [Host.dashStep] at ht
      | launch => exact h.not_starting _ (by simpa [Host.dashStep] using ht) hw
    · simp only [Function.update_of_ne htr] at ht
      exact h.not_starting t ht hw

/-- **The step lemma.** -/
theorem Respected.step {s u : State} {e : Event} (h : Respected s) (hC : OutsideWindow s e)
    (hs : step s e = some u) : Respected u := by
  rcases step_cases hs with ⟨t, a, rfl, rfl⟩ | ⟨i, up, r, d, rest, rfl, hi, hd, rfl⟩ |
    ⟨up, rfl, rfl⟩ | ⟨t, rfl, rfl⟩
  · refine ⟨fun t' ht => (h.backed t' ht).imp_right ?_, h.not_starting⟩
    rintro ⟨q, hq, hqt⟩
    exact ⟨q, List.mem_append_left _ hq, hqt⟩
  · exact h.dashStep hi hd hC
  · exact h.watchStep up hC
  · have hhost : ∀ t', ((Function.update s.host t { s.host t with status := .gone }) t').deliberate
          = (s.host t').deliberate ∧
        ((Function.update s.host t { s.host t with status := .gone }) t').stopFlag
          = (s.host t').stopFlag := by
      intro t'
      by_cases ht : t' = t
      · subst ht; simp
      · simp [Function.update_of_ne ht]
    constructor
    · intro t' ht
      rw [(hhost t').1] at ht
      rw [(hhost t').2]
      exact h.backed t' ht
    · intro t' ht
      rw [(hhost t').1] at ht
      exact h.not_starting t' ht

/-- **A deliberate stop is never undone, outside the window.**  In every run of any number of
requests, the watchdog and the host, each of whose steps is `OutsideWindow`, the watchdog
never runs the start script of a process that a stop request has killed, until a later start
or restart. -/
theorem stop_respected {s t : State} {es : List Event} (h0 : Initial s)
    (h : Run step OutsideWindow s es t) (e : Event) : ¬ Undoes t e := by
  have hinv : Respected t := h.invariant h0.respected fun _ _ _ => Respected.step
  rintro ⟨p, up, rfl, hw, hd⟩
  exact hinv.not_starting p hd hw

/-! ## 6. The window -/

/-- Both processes are up, nothing is under way and the watchdog sleeps. -/
def quiet : State := ⟨fun _ => ⟨.running, false, false⟩, [], .sleep⟩

/-- A stop is requested; the kill takes effect; before the flag is written the watchdog comes
round, finds no process and no flag. -/
def race : List Event :=
  [.request .dcs .stop, .dashboard 0 false, .exits .dcs, .watchdog false, .watchdog false,
    .watchdog false]

/-- **The race.**  The watchdog runs the start script of a process that was just stopped on
purpose; the stop request has not yet written its flag. -/
theorem stop_undone_in_window :
    ∃ t, Initial quiet ∧ Run step Always quiet race t ∧ Undoes t (.watchdog true) := by
  have hrun : (exec step quiet race).isSome = true := by decide
  obtain ⟨t, ht⟩ := Option.isSome_iff_exists.mp hrun
  have hw : (exec step quiet race).map (fun t => (t.watch, (t.host .dcs).deliberate))
      = some (.startScript .dcs, true) := by decide
  rw [ht] at hw
  simp only [Option.map_some, Option.some.injEq, Prod.mk.injEq] at hw
  exact ⟨t, ⟨rfl, fun _ => rfl⟩, run_iff_exec.mpr ht, .dcs, true, rfl, hw.1, hw.2⟩

/-- The same stop, with the flag written before the watchdog comes round. -/
def stopThenPass : List Event :=
  [.request .dcs .stop, .dashboard 0 false, .exits .dcs, .dashboard 0 false, .dashboard 0 false,
    .watchdog false, .watchdog false, .watchdog false]

/-- The watchdog leaves the stopped process alone. -/
theorem stop_respected_stopThenPass :
    ∃ t, Initial quiet ∧ Run step OutsideWindow quiet stopThenPass t ∧
      ¬ Undoes t (.watchdog true) := by
  have hrun : (execMeeting step OutsideWindow quiet stopThenPass).isSome = true := by decide
  obtain ⟨t, ht⟩ := Option.isSome_iff_exists.mp hrun
  have h0 : Initial quiet := ⟨rfl, fun _ => rfl⟩
  exact ⟨t, h0, run_of_execMeeting ht, stop_respected h0 (run_of_execMeeting ht) _⟩

end DcsDashboard.Process

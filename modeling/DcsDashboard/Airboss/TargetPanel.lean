/-
# From the carrier panel to the ship's target

`CarrierPanel.tsx` sends the picked target after a debounce; the dashboard passes it to
`M.setGroupOverrides` in the mission.  The effect cancels the timer of an earlier pick, never a
request in flight, and it sends nothing for a pick equal to `lastSentTargetRef`, the target last
ANSWERED.

So the ship can end up elsewhere than the last pick in two ways: two requests are executed in
the other order than they were sent, or a pick returns to the value last answered after another
has been sent.  `InOrder` excludes both.
-/
import DcsDashboard.Carrier.Overrides
import DcsDashboard.Lib.Runs
import Mathlib.Data.Rat.Floor

namespace DcsDashboard.Airboss

open Lib Carrier

/-! ## 1. The route -/

/-- `is_valid_group_name`. -/
def isValidGroupName (name : String) : Bool :=
  1 ≤ name.toList.length && name.toList.length ≤ 64 &&
    name.toList.all fun c => c.isAlphanum || c ∈ [' ', '_', '.', '-']

/-- `is_valid_target_wod`. -/
def isValidTargetWod (value : ℚ) : Bool := 10 ≤ value && value ≤ 45

/-- `POST /api/airboss/config`: the mission after it, `none` for a bad request. -/
def airbossConfig (carrier : String) (targetWod : ℚ) (mission : Setup ℚ) : Option (Setup ℚ) :=
  if !isValidGroupName carrier || !isValidTargetWod targetWod then none
  else
    match mission.setGroupOverrides carrier ⟨some (.number targetWod), false⟩ with
    | (mission, .effective _ _ _) => some mission
    | (_, .error _ _) => none

/-! ## 2. The panel -/

/-- `TARGET_WOD_MIN_KT`. -/
def targetWodMinKt : ℚ := 15

/-- `TARGET_WOD_MAX_KT`. -/
def targetWodMaxKt : ℚ := 40

/-- `TARGET_WOD_STEP_KT`. -/
def targetWodStepKt : ℚ := 1 / 2

/-- The setting `setTarget` stores for a picked value. -/
def settingFor (value : ℚ) : ℚ :=
  let clamped := min targetWodMaxKt (max targetWodMinKt value)
  ⌊clamped / targetWodStepKt + 1 / 2⌋ * targetWodStepKt

/-- One panel, its requests, and the mission.  `requests` are sent and not executed yet, the
first sent first; `replies` are executed and not answered yet.  `sent`, the target of the last
request that left, is a ghost. -/
structure Panel where
  setting : Option ℚ
  timer : Option ℚ
  lastSent : Option ℚ
  requests : List ℚ
  replies : List ℚ
  mission : Setup ℚ
  sent : Option ℚ

inductive PanelEvent
  /-- the user picks a target -/
  | pick (value : ℚ)
  /-- the debounce timer fires and its request leaves -/
  | fireTimer
  /-- the mission executes the `i`-th of the requests waiting for it -/
  | execute (i : Nat)
  /-- the `i`-th of the executed requests is answered -/
  | answer (i : Nat)
  deriving DecidableEq

/-- The target effect, run when the panel opens and after every change of the setting. -/
def Panel.targetEffect (p : Panel) : Panel :=
  { p with timer := if p.setting = p.lastSent then none else p.setting }

/-- The panel when it opens, with the setting it has stored. -/
def Panel.mounted (mission : Setup ℚ) (setting : Option ℚ) : Panel :=
  Panel.targetEffect ⟨setting, none, none, [], [], mission, none⟩

/-- One event at the panel of a carrier group. -/
def panelStep (carrier : String) (p : Panel) : PanelEvent → Option Panel
  | .pick value =>
    some (if some (settingFor value) = p.setting then p
      else { p with setting := some (settingFor value) }.targetEffect)
  | .fireTimer =>
    p.timer.map fun target =>
      { p with timer := none, requests := p.requests ++ [target], sent := some target }
  | .execute i =>
    p.requests[i]?.bind fun target =>
      (airbossConfig carrier target p.mission).map fun mission =>
        { p with
          mission := mission
          requests := p.requests.eraseIdx i
          replies := p.replies ++ [target] }
  | .answer i =>
    p.replies[i]?.map fun target =>
      { p with lastSent := some target, replies := p.replies.eraseIdx i }

/-- No timer and no request is outstanding. -/
def Panel.Quiescent (p : Panel) : Prop := p.timer = none ∧ p.requests = [] ∧ p.replies = []

instance (p : Panel) : Decidable p.Quiescent := inferInstanceAs (Decidable (_ ∧ _))

/-- The ship's effective target. -/
def Panel.effectiveTarget (p : Panel) (carrier : String) : Option (Value ℚ) :=
  (p.mission.config (some carrier)).value "targetWodKt"

/-- Requests are executed in the order in which they were sent, and no pick returns to the
target last answered after a request for another one has left. -/
def InOrder (p : Panel) : PanelEvent → Prop
  | .pick value => some (settingFor value) = p.lastSent → p.sent = p.lastSent
  | .execute i => i = 0
  | .fireTimer | .answer _ => True

instance (p : Panel) : (e : PanelEvent) → Decidable (InOrder p e)
  | .pick _ => inferInstanceAs (Decidable (_ → _))
  | .execute _ => inferInstanceAs (Decidable (_ = _))
  | .fireTimer | .answer _ => inferInstanceAs (Decidable True)

/-! ## 3. The invariant -/

/-- What is picked is about to be sent or has been; and the last target sent is the last still
to be executed, or the ship's. -/
structure Converging (carrier : String) (p : Panel) : Prop where
  picked : ∀ t, p.setting = some t → p.timer = some t ∨ (p.timer = none ∧ p.sent = some t)
  queued : ∀ t, p.requests.getLast? = some t → p.sent = some t
  applied : p.requests = [] → ∀ t, p.sent = some t → p.effectiveTarget carrier = some (.number t)

/-- A request that succeeds gives the ship its target. -/
theorem airbossConfig_target {carrier : String} {target : ℚ} {mission mission' : Setup ℚ}
    (h : airbossConfig carrier target mission = some mission') :
    (mission'.config (some carrier)).value "targetWodKt" = some (.number target) := by
  unfold airbossConfig at h
  split at h
  · cases h
  · rename_i hvalid
    simp only [isValidGroupName, isValidTargetWod, Bool.or_eq_true, Bool.not_eq_true', not_or,
      Bool.not_eq_false, Bool.and_eq_true, decide_eq_true_eq] at hvalid
    obtain ⟨⟨⟨hlen, -⟩, -⟩, hlow, hhigh⟩ := hvalid
    have hg : carrier ≠ "" := by rintro rfl; simp at hlen
    have hself := Setup.config_setGroupOverrides_self (s := mission) hg
      (v := .number target) (n := target) rfl
    have hclamp : clamp target Carrier.targetWodMinKt Carrier.targetWodMaxKt = target := by
      simp [clamp, Carrier.targetWodMinKt, Carrier.targetWodMaxKt, hlow.not_gt, hhigh.not_gt]
    rw [hclamp] at hself
    split at h
    · rename_i heq
      obtain rfl := Option.some.inj h
      rw [heq] at hself
      exact hself
    · cases h

theorem mounted_converging (carrier : String) (mission : Setup ℚ) (setting : Option ℚ) :
    Converging carrier (Panel.mounted mission setting) where
  picked t ht := by
    left
    have hs : setting = some t := ht
    simp [Panel.mounted, Panel.targetEffect, hs]
  queued t ht := by simp [Panel.mounted, Panel.targetEffect] at ht
  applied _ t ht := by simp [Panel.mounted, Panel.targetEffect] at ht

/-- **The step lemma.** -/
theorem Converging.step {carrier : String} {p q : Panel} {e : PanelEvent}
    (h : Converging carrier p) (hC : InOrder p e) (hs : panelStep carrier p e = some q) :
    Converging carrier q := by
  cases e with
  | pick value =>
    obtain rfl := Option.some.inj hs
    split
    · exact h
    · refine ⟨fun t ht => ?_, h.queued, h.applied⟩
      obtain rfl : settingFor value = t := Option.some.inj ht
      by_cases hlast : some (settingFor value) = p.lastSent
      · -- nothing is sent: the last target that left is the one picked
        right
        exact ⟨by simp [Panel.targetEffect, hlast], (hC hlast).trans hlast.symm⟩
      · left
        simp [Panel.targetEffect, hlast]
  | fireTimer =>
    obtain ⟨target, htimer, rfl⟩ := Option.map_eq_some_iff.mp hs
    refine ⟨?_, ?_, ?_⟩
    · intro t ht
      right
      rcases h.picked t ht with hp | ⟨hp, -⟩
      · exact ⟨rfl, htimer.symm.trans hp⟩
      · rw [hp] at htimer; cases htimer
    · intro t ht
      simpa using ht
    · intro hnil
      simp at hnil
  | execute i =>
    obtain ⟨target, hi, hs⟩ := Option.bind_eq_some_iff.mp hs
    obtain ⟨mission, hmission, rfl⟩ := Option.map_eq_some_iff.mp hs
    obtain rfl : i = 0 := hC
    obtain ⟨rest, hrest⟩ : ∃ rest, p.requests = target :: rest := by
      cases hr : p.requests with
      | nil => simp [hr] at hi
      | cons a rest => simp [hr] at hi; exact ⟨rest, by rw [hi]⟩
    refine ⟨h.picked, ?_, ?_⟩
    · intro t ht
      have ht' : rest.getLast? = some t := by simpa [hrest] using ht
      exact h.queued t (by rw [hrest, List.getLast?_cons, ht']; rfl)
    · intro hnil t ht
      -- the last request has been executed
      have hrest' : rest = [] := by simpa [hrest] using hnil
      have hsent : p.sent = some target := h.queued target (by rw [hrest, hrest']; rfl)
      obtain rfl : target = t := Option.some.inj (hsent.symm.trans ht)
      exact airbossConfig_target hmission
  | answer i =>
    obtain ⟨target, -, rfl⟩ := Option.map_eq_some_iff.mp hs
    exact ⟨h.picked, h.queued, h.applied⟩

/-! ## 4. Runs -/

/-- **The ship ends up at the last pick.**  In every run in which requests are executed in the
order in which they were sent and no pick returns to the target last answered after another has
left: once no timer and no request is outstanding, the ship's effective target is the setting of
the panel. -/
theorem target_converges {carrier : String} {mission : Setup ℚ} {setting : Option ℚ}
    {es : List PanelEvent} {p : Panel}
    (hrun : Run (panelStep carrier) InOrder (Panel.mounted mission setting) es p)
    (hquiet : p.Quiescent) :
    ∀ t, p.setting = some t → p.effectiveTarget carrier = some (.number t) := by
  have h : Converging carrier p :=
    hrun.invariant (mounted_converging carrier mission setting) fun _ _ _ => Converging.step
  intro t ht
  obtain ⟨htimer, hrequests, -⟩ := hquiet
  rcases h.picked t ht with hp | ⟨-, hsent⟩
  · rw [htimer] at hp; cases hp
  · exact h.applied hrequests t hsent

/-! ## 5. A pick that is lost -/

/-- A mission without Foothold in which nothing is configured. -/
def unconfigured : Setup ℚ where
  global _ := none
  missionOverrides := none
  overrides := .empty
  groupOverrides _ := none
  bc := none
  footholdGroups _ := none

/-- The user picks 25 kt, which the ship answers; picks 30 kt; and goes back to 25 kt while the
request for 30 kt is under way. -/
def backAndForth : List PanelEvent :=
  [.pick 25, .fireTimer, .execute 0, .answer 0, .pick 30, .fireTimer, .pick 25, .execute 0,
    .answer 0]

/-- **A pick is lost.**  The panel takes 25 kt for sent, and the ship stays at 30 kt. -/
theorem pick_lost : ∃ p,
    Run (panelStep "CVN-71") Always (Panel.mounted unconfigured none) backAndForth p ∧
      p.Quiescent ∧ p.setting = some 25 ∧ p.effectiveTarget "CVN-71" = some (.number 30) :=
  exists_run_of_execMeeting (by decide +kernel)

/-- The same picks, each answered before the next one. -/
def oneByOne : List PanelEvent :=
  [.pick 25, .fireTimer, .execute 0, .answer 0, .pick 30, .fireTimer, .execute 0, .answer 0,
    .pick 25, .fireTimer, .execute 0, .answer 0]

theorem target_converges_oneByOne : ∃ p,
    Run (panelStep "CVN-71") InOrder (Panel.mounted unconfigured none) oneByOne p ∧
      p.effectiveTarget "CVN-71" = some (.number 25) := by
  obtain ⟨p, hrun, hquiet, hsetting⟩ : ∃ p,
      Run (panelStep "CVN-71") InOrder (Panel.mounted unconfigured none) oneByOne p ∧
        p.Quiescent ∧ p.setting = some 25 := exists_run_of_execMeeting (by decide +kernel)
  exact ⟨p, hrun, target_converges hrun hquiet 25 hsetting⟩

end DcsDashboard.Airboss

/-
# The carrier list and its automatic refresh

`useCarrierList.ts`: the list comes from one request on load, from the Refresh button, and from
a radar update that shows a carrier-looking ship the list does not know.  Groups that an
automatic refresh did not return are remembered in `rejectedGroups`, so that they do not
trigger another one.

The hook rejects a group when the promise of `refresh()` SETTLES.  `refresh` also settles when
the request failed, and at once when another request was already in flight; in neither case
did the controller answer about the group.

Two ghosts record what the answers said: `seen`, the groups the radar has shown so far, and
`refused`, those that a list fetch started after they were seen has left out.
-/
import DcsDashboard.Airboss.CarrierDetection
import DcsDashboard.Lib.Runs

namespace DcsDashboard.Airboss

open Lib

/-! ## 1. The hook -/

/-- How the request of `refresh` ends. -/
inductive FetchResult
  /-- `res.ok`; `data.carriers` when it is an array -/
  | ok (carriers : Option (List DetectedCarrier))
  /-- an HTTP error, with `data.error` when there is one -/
  | httpError (status : Nat) (error : Option String)
  /-- the request threw -/
  | failed (err : String)
  deriving DecidableEq

/-- A list fetch in flight.  `unknown` is what the automatic refresh that started it will
reject when it settles (`[]` for a manual one); `seenAtStart` is a ghost. -/
structure Fetch where
  unknown : List String
  automatic : Bool
  seenAtStart : List String
  deriving DecidableEq

/-- The state of the hook, its clock, and the two ghosts. -/
structure Hook where
  now : Nat
  radarUnits : List (String × RadarUnit)
  carriers : List DetectedCarrier
  loading : Bool
  error : Option String
  refreshedAt : Option Nat
  lastAttemptAt : Nat
  /-- `inFlight`, with what the pending promise will do -/
  inFlight : Option Fetch
  rejectedGroups : List String
  seen : List String
  refused : List String
  deriving DecidableEq

/-- `knownGroups`. -/
def Hook.knownGroups (h : Hook) : List String := h.carriers.map DetectedCarrier.group

/-- The hook when the page mounts. -/
def Hook.mounted (now : Nat) : Hook :=
  ⟨now, [], [], false, none, none, 0, none, [], [], []⟩

/-- `refresh()` with nothing in flight: the request leaves. -/
def Hook.startFetch (h : Hook) (unknown : List String) (automatic : Bool) : Hook :=
  { h with
    lastAttemptAt := h.now
    loading := true
    inFlight := some ⟨unknown, automatic, h.seen⟩ }

/-- The Refresh button, and the scan on load. -/
def Hook.refresh (h : Hook) : Hook :=
  if h.inFlight.isSome then h else h.startFetch [] false

/-- The `.then` of an automatic refresh. -/
def Hook.reject (h : Hook) (groups : List String) : Hook :=
  { h with rejectedGroups := h.rejectedGroups ++ groups }

/-- The effect that removes listed groups from `rejectedGroups`. -/
def Hook.forgetListed (h : Hook) : Hook :=
  { h with rejectedGroups := h.rejectedGroups.filter fun g => !h.knownGroups.contains g }

section

variable (js : JsCase)

/-- What the radar effect finds unknown and not rejected. -/
def Hook.unknown (h : Hook) : List String :=
  (unknownCarrierGroupsInRadar js h.radarUnits h.knownGroups).filter
    fun g => !h.rejectedGroups.contains g

/-- Whether the radar effect calls `refresh`. -/
def Hook.Due (h : Hook) : Prop :=
  h.unknown js ≠ [] ∧ carrierRefreshMinIntervalMs ≤ h.now - h.lastAttemptAt

instance (h : Hook) : Decidable (h.Due js) := inferInstanceAs (Decidable (_ ∧ _))

/-- The radar effect.  `refresh` returns at once when a request is in flight, and its promise
is then already settled. -/
def Hook.radarEffect (h : Hook) : Hook :=
  if h.Due js then
    if h.inFlight.isSome then h.reject (h.unknown js)
    else h.startFetch (h.unknown js) true
  else h

/-- The request has ended.  The promise settles, so the groups of an automatic refresh are
rejected; a new list also renders, which runs both effects in order. -/
def Hook.settle (h : Hook) (f : Fetch) : FetchResult → Hook
  | .ok carriers =>
    let list := carriers.getD []
    let answered : Hook :=
      { h with
        carriers := list
        error := none
        refreshedAt := some h.now
        loading := false
        inFlight := none
        refused := h.refused ++
          f.seenAtStart.filter fun g => !(list.map DetectedCarrier.group).contains g }
    ((answered.reject f.unknown).radarEffect js).forgetListed
  | .httpError status error =>
    ({ h with
      error := some ((error.filter (· ≠ "")).getD s!"HTTP {status}")
      loading := false
      inFlight := none } : Hook).reject f.unknown
  | .failed err =>
    ({ h with error := some err, loading := false, inFlight := none } : Hook).reject f.unknown

/-- What happens to the page. -/
inductive HookEvent
  /-- time passes -/
  | pass (ms : Nat)
  /-- the radar snapshot changes -/
  | radar (units : List (String × RadarUnit))
  /-- the Refresh button, or the scan on load -/
  | refresh
  /-- the request in flight ends -/
  | settle (result : FetchResult)
  deriving DecidableEq

/-- The snapshot the radar effect is about to see. -/
def Hook.withRadar (h : Hook) (units : List (String × RadarUnit)) : Hook :=
  { h with radarUnits := units, seen := h.seen ++ carrierGroupsInRadar js units }

/-- One event. -/
def hookStep (h : Hook) : HookEvent → Option Hook
  | .pass ms => some { h with now := h.now + ms }
  | .radar units => some ((h.withRadar js units).radarEffect js)
  | .refresh => some h.refresh
  | .settle result => h.inFlight.map fun f => h.settle js f result

/-! ## 2. The condition -/

/-- A radar update that calls `refresh` finds no request in flight, and the request of an
automatic refresh succeeds. -/
def AutoRefreshAnswered (h : Hook) : HookEvent → Prop
  | .radar units => (h.withRadar js units).Due js → h.inFlight = none
  | .settle result => ∀ f ∈ h.inFlight, f.automatic = true → ∃ list, result = .ok list
  | _ => True

instance (h : Hook) : (e : HookEvent) → Decidable (AutoRefreshAnswered js h e)
  | .radar units => inferInstanceAs (Decidable ((h.withRadar js units).Due js → h.inFlight = none))
  | .settle (.ok list) => isTrue fun _ _ _ => ⟨list, rfl⟩
  | .settle (.httpError st err) =>
    decidable_of_iff (∀ f ∈ h.inFlight, f.automatic = false)
      (by simp [AutoRefreshAnswered])
  | .settle (.failed err) =>
    decidable_of_iff (∀ f ∈ h.inFlight, f.automatic = false)
      (by simp [AutoRefreshAnswered])
  | .pass _ => inferInstanceAs (Decidable True)
  | .refresh => inferInstanceAs (Decidable True)

/-- Only answers reject: what an automatic refresh in flight may reject had been seen when it
left, and what is rejected has been refused. -/
structure Sound (h : Hook) : Prop where
  radar_seen : ∀ g ∈ carrierGroupsInRadar js h.radarUnits, g ∈ h.seen
  pending_seen : ∀ f ∈ h.inFlight, ∀ g ∈ f.unknown, g ∈ f.seenAtStart
  pending_manual : ∀ f ∈ h.inFlight, f.automatic = false → f.unknown = []
  rejected_refused : ∀ g ∈ h.rejectedGroups, g ∈ h.refused

variable {js}

theorem mounted_sound (now : Nat) : Sound js (Hook.mounted now) := by
  refine ⟨fun g hg => ?_, ?_, ?_, ?_⟩
  · simp [Hook.mounted, carrierGroupsInRadar, unknownCarrierGroupsInRadar] at hg
  all_goals simp [Hook.mounted]

/-- What the radar effect finds unknown is in the radar and not known. -/
theorem mem_unknown {h : Hook} {g : String} :
    g ∈ h.unknown js ↔ g ∈ carrierGroupsInRadar js h.radarUnits ∧ g ∉ h.knownGroups ∧
      g ∉ h.rejectedGroups := by
  simp [Hook.unknown, mem_unknownCarrierGroupsInRadar, and_assoc]

/-! ## 3. What one event preserves -/

/-- A fetch that leaves carries only groups seen before. -/
theorem Sound.startFetch {h : Hook} (hs : Sound js h) {unknown : List String} {automatic : Bool}
    (hu : ∀ g ∈ unknown, g ∈ h.seen) (hm : automatic = false → unknown = []) :
    Sound js (h.startFetch unknown automatic) where
  radar_seen := hs.radar_seen
  pending_seen := by simpa [Hook.startFetch] using hu
  pending_manual := by simpa [Hook.startFetch] using hm
  rejected_refused := hs.rejected_refused

theorem Sound.refresh {h : Hook} (hs : Sound js h) : Sound js h.refresh := by
  unfold Hook.refresh
  split
  · exact hs
  · exact hs.startFetch (by simp) (fun _ => rfl)

/-- The radar effect rejects nothing when no request is in flight. -/
theorem Sound.radarEffect {h : Hook} (hs : Sound js h) (hfree : h.Due js → h.inFlight = none) :
    Sound js (h.radarEffect js) := by
  unfold Hook.radarEffect
  split
  · rename_i hdue
    rw [hfree hdue]
    refine hs.startFetch (fun g hg => ?_) (by simp)
    exact hs.radar_seen g (mem_unknown.mp hg).1
  · exact hs

/-- A request that ended without a list rejects nothing, if it was manual. -/
theorem Sound.settle_unanswered {h h' : Hook} {f : Fetch} (hs : Sound js h)
    (hf : f ∈ h.inFlight) (hman : f.automatic = false) (hradar : h'.radarUnits = h.radarUnits)
    (hseen : h'.seen = h.seen) (hin : h'.inFlight = none)
    (hrej : h'.rejectedGroups = h.rejectedGroups) (href : h'.refused = h.refused) :
    Sound js (h'.reject f.unknown) where
  radar_seen := by simpa [Hook.reject, hradar, hseen] using hs.radar_seen
  pending_seen := by simp [Hook.reject, hin]
  pending_manual := by simp [Hook.reject, hin]
  rejected_refused := by
    simpa [Hook.reject, hs.pending_manual f hf hman, hrej, href] using hs.rejected_refused

/-- **A successful answer.**  What the promise rejects and the list does not return had been
seen when the request left, so the answer refused it; what the list returns is forgotten. -/
theorem Sound.settle_ok {h : Hook} {f : Fetch} (hs : Sound js h) (hf : f ∈ h.inFlight)
    (carriers : Option (List DetectedCarrier)) :
    Sound js (h.settle js f (.ok carriers)) := by
  simp only [Hook.settle]
  set list := carriers.getD [] with hlist
  set refused' := h.refused ++
    f.seenAtStart.filter fun g => !(list.map DetectedCarrier.group).contains g with hrefused
  set answered : Hook :=
    { h with
      carriers := list, error := none, refreshedAt := some h.now, loading := false
      inFlight := none, refused := refused' } with hans
  -- the radar effect of the new list starts a fetch at most, whatever is rejected so far
  have heff : ∀ e : Hook, e = (answered.reject f.unknown).radarEffect js →
      e.radarUnits = h.radarUnits ∧ e.seen = h.seen ∧ e.carriers = list ∧ e.refused = refused' ∧
        e.rejectedGroups = h.rejectedGroups ++ f.unknown ∧
        (∀ f' ∈ e.inFlight, f'.automatic = true ∧ ∀ g ∈ f'.unknown, g ∈ f'.seenAtStart) := by
    rintro e rfl
    unfold Hook.radarEffect
    split
    · refine ⟨rfl, rfl, rfl, rfl, rfl, ?_⟩
      intro f' hf'
      simp only [Hook.reject, hans, Option.isSome_none, Bool.false_eq_true, if_false,
        Hook.startFetch, Option.mem_some_iff] at hf'
      subst hf'
      exact ⟨rfl, fun g hg => hs.radar_seen g (mem_unknown.mp hg).1⟩
    · exact ⟨rfl, rfl, rfl, rfl, rfl, by simp [Hook.reject, hans]⟩
  obtain ⟨hr, hse, hc, href, hrej, hp⟩ := heff _ rfl
  refine ⟨?_, ?_, ?_, ?_⟩
  · simpa [Hook.forgetListed, hr, hse] using hs.radar_seen
  · exact fun f' hf' => (hp f' hf').2
  · intro f' hf' hman
    exact absurd hman (by simp [(hp f' hf').1])
  · intro g hg
    simp only [Hook.forgetListed, Hook.knownGroups, hrej, hc, List.mem_filter,
      List.mem_append] at hg
    obtain ⟨hg | hg, hnot⟩ := hg
    · simpa [Hook.forgetListed, href, hrefused] using Or.inl (hs.rejected_refused g hg)
    · have hseen : g ∈ f.seenAtStart := hs.pending_seen f hf g hg
      simp only [Hook.forgetListed, href, hrefused, List.mem_append, List.mem_filter]
      exact .inr ⟨hseen, hnot⟩

/-- **The step lemma.** -/
theorem Sound.step {h u : Hook} {e : HookEvent} (hs : Sound js h)
    (hC : AutoRefreshAnswered js h e) (hstep : hookStep js h e = some u) : Sound js u := by
  cases e with
  | pass ms =>
    simp only [hookStep, Option.some.injEq] at hstep
    subst hstep
    exact ⟨hs.radar_seen, hs.pending_seen, hs.pending_manual, hs.rejected_refused⟩
  | radar units =>
    simp only [hookStep, Option.some.injEq] at hstep
    subst hstep
    refine Sound.radarEffect ⟨fun g hg => ?_, hs.pending_seen, hs.pending_manual,
      hs.rejected_refused⟩ hC
    exact List.mem_append_right _ hg
  | refresh =>
    simp only [hookStep, Option.some.injEq] at hstep
    subst hstep
    exact hs.refresh
  | settle result =>
    simp only [hookStep, Option.map_eq_some_iff] at hstep
    obtain ⟨f, hf, rfl⟩ := hstep
    by_cases hauto : f.automatic = true
    · obtain ⟨list, rfl⟩ := hC f hf hauto
      exact hs.settle_ok hf list
    · have hman : f.automatic = false := by simpa using hauto
      cases result with
      | ok list => exact hs.settle_ok hf list
      | httpError st err => exact hs.settle_unanswered hf hman rfl rfl rfl rfl rfl
      | failed err => exact hs.settle_unanswered hf hman rfl rfl rfl rfl rfl

/-! ## 4. Runs -/

/-- **The list never gives up on a carrier, when its automatic refreshes are answered.**  In
every run each of whose automatic refreshes finds nothing in flight and succeeds, a rejected
group has been refused by a list fetched after the group was seen; so a carrier-looking group
that no such list has refused, and that is not listed yet, makes every radar update at least
`carrierRefreshMinIntervalMs` after the last attempt start a fetch. -/
theorem rejected_only_if_refused (now : Nat) {es : List HookEvent} {h : Hook}
    (hrun : Run (hookStep js) (AutoRefreshAnswered js) (Hook.mounted now) es h) :
    (∀ g ∈ h.rejectedGroups, g ∈ h.refused) ∧
      ∀ units g u, g ∈ carrierGroupsInRadar js units → g ∉ h.knownGroups → g ∉ h.refused →
        carrierRefreshMinIntervalMs ≤ h.now - h.lastAttemptAt →
        AutoRefreshAnswered js h (.radar units) → hookStep js h (.radar units) = some u →
        u.inFlight.isSome ∧ u.lastAttemptAt = h.now := by
  have hs : Sound js h := hrun.invariant (mounted_sound now) fun _ _ _ => Sound.step
  refine ⟨hs.rejected_refused, ?_⟩
  intro units g u hg hknown hrefused hms hC hstep
  simp only [hookStep, Option.some.injEq] at hstep
  have hmem : g ∈ (h.withRadar js units).unknown js :=
    mem_unknown.mpr ⟨hg, hknown, fun hr => hrefused (hs.rejected_refused g hr)⟩
  have hdue : (h.withRadar js units).Due js := ⟨List.ne_nil_of_mem hmem, hms⟩
  have hfree : (h.withRadar js units).inFlight = none := hC hdue
  have heff : (h.withRadar js units).radarEffect js =
      (h.withRadar js units).startFetch ((h.withRadar js units).unknown js) true := by
    simp only [Hook.radarEffect, if_pos hdue, hfree, Option.isSome_none, Bool.false_eq_true,
      if_false]
  rw [← hstep, heff]
  exact ⟨rfl, rfl⟩

end

/-! ## 5. The defect -/

/-- One carrier-looking ship. -/
def newCarrier : List (String × RadarUnit) :=
  [("1", ⟨some "CVN_71", some "SHIP", some "CVN-71"⟩)]

/-- A carrier spawns, and the list request it triggers is answered with an HTTP error. -/
def failedRefresh : List HookEvent := [.radar newCarrier, .settle (.httpError 502 none)]

/-- **A failed request rejects.**  The carrier is rejected although no list was ever
returned, and the next radar update, half a minute later, does not ask again. -/
theorem rejected_after_failed_refresh :
    ∃ h u, Run (hookStep asciiCase) Always (Hook.mounted 30000) failedRefresh h ∧
      "CVN-71" ∈ h.rejectedGroups ∧ "CVN-71" ∉ h.refused ∧
      Run (hookStep asciiCase) Always h [.pass 30000, .radar newCarrier] u ∧
      u.inFlight = none := by
  have h1 : (exec (hookStep asciiCase) (Hook.mounted 30000)
      (failedRefresh ++ [.pass 30000, .radar newCarrier])).map Hook.inFlight = some none := by
    decide
  have h2 : (exec (hookStep asciiCase) (Hook.mounted 30000) failedRefresh).map
      (fun h => (h.rejectedGroups, h.refused)) = some (["CVN-71"], []) := by decide
  obtain ⟨u, hu, hin⟩ := Option.map_eq_some_iff.mp h1
  obtain ⟨h, hh, hu'⟩ := exec_append.mp hu
  rw [hh] at h2
  simp only [Option.map_some, Option.some.injEq, Prod.mk.injEq] at h2
  exact ⟨h, u, run_iff_exec.mpr hh, by simp [h2.1], by simp [h2.2], run_iff_exec.mpr hu', hin⟩

/-- The same carrier, with a list that does not have it, and half a minute. -/
def answeredRefresh : List HookEvent :=
  [.radar newCarrier, .settle (.ok (some [⟨"CVN-72"⟩])), .pass 30000]

/-- A second carrier beside it. -/
def nextCarrier : List (String × RadarUnit) :=
  newCarrier ++ [("2", ⟨some "CVN_73", some "SHIP", some "CVN-73"⟩)]

/-- The list has refused the first carrier; for the second one a request leaves. -/
theorem rejected_only_if_refused_answeredRefresh :
    ∃ h u, Run (hookStep asciiCase) (AutoRefreshAnswered asciiCase) (Hook.mounted 30000)
        answeredRefresh h ∧
      h.rejectedGroups = ["CVN-71"] ∧ "CVN-71" ∈ h.refused ∧
      hookStep asciiCase h (.radar nextCarrier) = some u ∧
      u.inFlight.isSome ∧ u.lastAttemptAt = h.now := by
  obtain ⟨h, hh, hrejected, hlisted, hrefused, hfree, hnow⟩ : ∃ h, execMeeting (hookStep asciiCase)
        (AutoRefreshAnswered asciiCase) (Hook.mounted 30000) answeredRefresh = some h ∧
      h.rejectedGroups = ["CVN-71"] ∧ h.knownGroups = ["CVN-72"] ∧ h.refused = ["CVN-71"] ∧
      h.inFlight = none ∧ carrierRefreshMinIntervalMs ≤ h.now - h.lastAttemptAt :=
    ⟨_, rfl, by decide, by decide, by decide, by decide, by decide⟩
  obtain ⟨honly, hrefresh⟩ := rejected_only_if_refused 30000 (run_of_execMeeting hh)
  obtain ⟨hleft, hat⟩ := hrefresh nextCarrier "CVN-73" _ (by decide) (by simp [hlisted])
    (by simp [hrefused]) hnow (fun _ => hfree) rfl
  exact ⟨h, _, run_of_execMeeting hh, hrejected, honly _ (by simp [hrejected]), rfl, hleft, hat⟩

end DcsDashboard.Airboss

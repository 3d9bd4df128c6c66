/-
# The page and the controller agree on carriers

The radar stream makes the page ask for the list when it shows a ship whose type looks like a
carrier (`carrierDetection.ts`); what the answer lists is decided in the mission
(`carrier_recovery.lua`).  Each has its own copy of the type-name fragments and its own way to
compare text.

On ASCII type names the two agree (`looksLikeCarrier_agree`), and whatever attributes a unit has,
the mission lists it if the page takes it for a carrier and its type is not excluded
(`mem_listAnswer`).  So over any run of the hook, a carrier that the radar has shown is never among
the rejected groups, and the next request lists it (`carrier_kept`).
-/
import DcsDashboard.Airboss.CarrierList
import DcsDashboard.Carrier.Listing

namespace DcsDashboard.Airboss

open Lib Carrier

/-! ## 1. Type names -/

def IsAscii (s : String) : Prop := ∀ c ∈ s.toList, c.toNat < 128

/-- On ASCII text `toLowerCase` lowers the letters `A` to `Z`. -/
def LowersAscii (js : JsCase) : Prop :=
  ∀ s, IsAscii s → js.toLowerCase s = String.ofList (s.toList.map Char.toLower)

theorem isAscii_of_hint {hint : String} (h : hint ∈ carrierTypeHints) : IsAscii hint := by
  have hall : carrierTypeHints.all (fun hint => hint.toList.all fun c => c.toNat < 128) = true := by
    decide
  intro c hc
  exact of_decide_eq_true (List.all_eq_true.mp (List.all_eq_true.mp hall hint h) c hc)

variable {js : JsCase}

theorem includes_lower (hjs : LowersAscii js) {name hint : String} (hname : IsAscii name)
    (hhint : IsAscii hint) :
    includes (js.toLowerCase name) (js.toLowerCase hint) = true ↔
      findLower (lower name) hint = true := by
  rw [hjs name hname, hjs hint hhint]
  simp only [includes, findLower, lower, String.toList_ofList]
  exact decide_eq_true_iff.trans decide_eq_true_iff.symm

/-- **Two copies of one test.** -/
theorem looksLikeCarrier_agree (hjs : LowersAscii js) {name : String} (h : IsAscii name) :
    typeNameLooksLikeCarrier js (some name) = Carrier.typeNameLooksLikeCarrier name := by
  have hempty : js.toLowerCase name = "" ↔ name = "" := by
    rw [hjs name h, ← String.toList_eq_nil_iff, ← String.toList_eq_nil_iff]
    simp
  rw [Bool.eq_iff_iff, typeNameLooksLikeCarrier, Carrier.typeNameLooksLikeCarrier]
  simp only [Option.getD_some, hempty]
  by_cases hne : name = ""
  · simp [hne]
  · simp only [hne, if_false, List.any_eq_true, ne_eq, not_false_eq_true, decide_true,
      Bool.true_and]
    constructor
    · rintro ⟨hint, hmem, hfound⟩
      exact ⟨hint, hmem, (includes_lower hjs h (isAscii_of_hint hmem)).mp hfound⟩
    · rintro ⟨hint, hmem, hfound⟩
      exact ⟨hint, hmem, (includes_lower hjs h (isAscii_of_hint hmem)).mpr hfound⟩

/-- A type that looks like a carrier has a class, whatever attributes the unit has. -/
theorem classifyDeck_of_hinted (attributes : List String) {name : String}
    (hhint : Carrier.typeNameLooksLikeCarrier name = true)
    (hincluded : typeNameIsExcluded name = false) :
    (classifyDeck attributes name).1.isSome = true := by
  simp only [classifyDeck, hincluded, hhint, Bool.false_eq_true, if_false, if_true]
  split
  · rfl
  · split
    · rfl
    · split
      · rfl
      · split <;> rfl

/-! ## 2. The answer to a request -/

variable {R : Type*} [Field R]

/-- `GET /api/airboss/carriers`, as far as the hook reads it. -/
def listAnswer (s : State R) (F : Fleet R) : List DetectedCarrier :=
  (s.listCarriers F).map fun e => ⟨e.group⟩

/-- An active ship group whose lead unit the page takes for a carrier. -/
def CarrierIn (js : JsCase) (F : Fleet R) (g : String) : Prop :=
  ∃ side ∈ sides, g ∈ F.shipGroupsForSide side ∧ F.raises g = false ∧
    ∃ group lead, F.world.leadUnit g = some (group, lead) ∧ IsAscii lead.typeName ∧
      typeNameLooksLikeCarrier js (some lead.typeName) = true ∧
      typeNameIsExcluded lead.typeName = false

/-- **The mission lists it.** -/
theorem mem_listAnswer (hjs : LowersAscii js) {s : State R} {F : Fleet R} {g : String}
    (h : CarrierIn js F g) : g ∈ (listAnswer s F).map DetectedCarrier.group := by
  obtain ⟨side, hside, hg, hraises, group, lead, hlead, hascii, hhint, hincluded⟩ := h
  rw [looksLikeCarrier_agree hjs hascii] at hhint
  have hclass := classifyDeck_of_hinted lead.attributes hhint hincluded
  obtain ⟨deckClass, hdeck⟩ := Option.isSome_iff_exists.mp hclass
  obtain ⟨e, hlisted⟩ : ∃ e, s.listed? F side g = some e := by
    rw [State.listed?, hraises]
    exact ⟨_, State.describeCarrier_eq_some.mpr
      ⟨group, lead, deckClass, _, hlead, Prod.ext hdeck rfl, rfl⟩⟩
  obtain rfl := State.listed?_group hlisted
  exact List.mem_map.mpr ⟨⟨e.group⟩, List.mem_map.mpr
    ⟨e, State.mem_listCarriers.mpr ⟨side, hside, hg, hlisted⟩, rfl⟩, rfl⟩

/-! ## 3. Runs of the hook -/

/-- Automatic refreshes are answered, and every answer is the list of a mission that has the
carrier `g` if the radar had shown it when the request left. -/
def AnsweredFrom (R : Type*) [Field R] (js : JsCase) (g : String) (h : Hook) (e : HookEvent) :
    Prop :=
  AutoRefreshAnswered js h e ∧ ∀ list, e = .settle (.ok list) → ∀ f ∈ h.inFlight,
    ∃ (s : State R) (F : Fleet R), list = some (listAnswer s F) ∧
      (g ∈ f.seenAtStart → CarrierIn js F g)

/-- What an event adds to the refused groups. -/
theorem mem_refused_step {h u : Hook} {e : HookEvent} {g : String} (hg : g ∈ u.refused)
    (hstep : hookStep js h e = some u) :
    g ∈ h.refused ∨ ∃ list, e = .settle (.ok list) ∧ ∃ f ∈ h.inFlight, g ∈ f.seenAtStart ∧
      g ∉ (list.getD []).map DetectedCarrier.group := by
  cases e with
  | pass ms => cases hstep; exact .inl hg
  | radar units =>
    cases hstep
    refine .inl ?_
    unfold Hook.radarEffect at hg
    split at hg
    · split at hg <;> exact hg
    · exact hg
  | refresh =>
    cases hstep
    refine .inl ?_
    unfold Hook.refresh at hg
    split at hg <;> exact hg
  | settle result =>
    obtain ⟨f, hf, rfl⟩ := Option.map_eq_some_iff.mp hstep
    cases result with
    | httpError status error => exact .inl hg
    | failed err => exact .inl hg
    | ok list =>
      simp only [Hook.settle, Hook.forgetListed, Hook.radarEffect] at hg
      have hrefused : g ∈ h.refused ++ f.seenAtStart.filter fun g =>
          !((list.getD []).map DetectedCarrier.group).contains g := by
        split at hg
        · split at hg <;> exact hg
        · exact hg
      rcases List.mem_append.mp hrefused with hg | hg
      · exact .inl hg
      · obtain ⟨hseen, hout⟩ := List.mem_filter.mp hg
        exact .inr ⟨list, rfl, f, hf, hseen, by simpa using hout⟩

/-- A carrier that is there is never refused. -/
theorem notMem_refused (hjs : LowersAscii js) {g : String} {now : Nat} {es : List HookEvent}
    {h : Hook} (hrun : Run (hookStep js) (AnsweredFrom R js g) (Hook.mounted now) es h) :
    g ∉ h.refused := by
  refine hrun.invariant (I := fun h => g ∉ h.refused) (by simp [Hook.mounted]) ?_
  intro h e u hrefused hC hstep hg
  rcases mem_refused_step hg hstep with hg | ⟨list, rfl, f, hf, hseen, hout⟩
  · exact hrefused hg
  · obtain ⟨s, F, rfl, hcarrier⟩ := hC.2 list rfl f hf
    exact hout (mem_listAnswer hjs (hcarrier hseen))

/-- After an answer the hook knows what it lists. -/
theorem knownGroups_settle (h : Hook) (f : Fetch) (list : Option (List DetectedCarrier)) :
    (h.settle js f (.ok list)).knownGroups = (list.getD []).map DetectedCarrier.group := by
  simp only [Hook.settle, Hook.forgetListed, Hook.radarEffect]
  split
  · split <;> rfl
  · rfl

/-- A radar update that is due lets a request leave, on behalf of all that the radar shows. -/
theorem exists_fetch_of_radar {h u : Hook} {units : List (String × RadarUnit)} {g : String}
    (hshown : g ∈ carrierGroupsInRadar js units) (hknown : g ∉ h.knownGroups)
    (hrejected : g ∉ h.rejectedGroups)
    (hms : carrierRefreshMinIntervalMs ≤ h.now - h.lastAttemptAt)
    (hC : AutoRefreshAnswered js h (.radar units))
    (hstep : hookStep js h (.radar units) = some u) : ∃ f ∈ u.inFlight, g ∈ f.seenAtStart := by
  have hmem : g ∈ (h.withRadar js units).unknown js := mem_unknown.mpr ⟨hshown, hknown, hrejected⟩
  have hdue : (h.withRadar js units).Due js := ⟨List.ne_nil_of_mem hmem, hms⟩
  have hfree : (h.withRadar js units).inFlight = none := hC hdue
  cases hstep
  refine ⟨⟨(h.withRadar js units).unknown js, true, (h.withRadar js units).seen⟩, ?_, ?_⟩
  · rw [Hook.radarEffect, if_pos hdue, hfree]
    rfl
  · exact List.mem_append_right _ hshown

/-- **A carrier is not given up.**  In every run whose automatic refreshes are answered, by the
lists of missions that have the carrier from when the radar has shown it on: the carrier is never
rejected; while it is shown and not known, a radar update that comes late enough lets a request
leave; and the answer to that request lists it. -/
theorem carrier_kept (hjs : LowersAscii js) {g : String} {now : Nat} {es : List HookEvent}
    {h : Hook} (hrun : Run (hookStep js) (AnsweredFrom R js g) (Hook.mounted now) es h) :
    g ∉ h.rejectedGroups ∧
    (∀ units u, g ∈ carrierGroupsInRadar js units → g ∉ h.knownGroups →
      carrierRefreshMinIntervalMs ≤ h.now - h.lastAttemptAt →
      AutoRefreshAnswered js h (.radar units) → hookStep js h (.radar units) = some u →
      ∃ f ∈ u.inFlight, g ∈ f.seenAtStart) ∧
    ∀ f list u, f ∈ h.inFlight → g ∈ f.seenAtStart →
      AnsweredFrom R js g h (.settle (.ok list)) →
      hookStep js h (.settle (.ok list)) = some u → g ∈ u.knownGroups := by
  have hsound : Sound js h :=
    (hrun.mono fun _ _ hC => hC.1).invariant (mounted_sound now) fun _ _ _ => Sound.step
  have hrejected : g ∉ h.rejectedGroups :=
    fun hg => notMem_refused hjs hrun (hsound.rejected_refused g hg)
  refine ⟨hrejected, ?_, ?_⟩
  · intro units u hshown hknown hms hC hstep
    exact exists_fetch_of_radar hshown hknown hrejected hms hC hstep
  · intro f list u hf hseen hC hstep
    obtain ⟨f', hf', rfl⟩ := Option.map_eq_some_iff.mp hstep
    obtain rfl : f' = f := Option.some.inj (hf'.symm.trans hf)
    obtain ⟨s, F, rfl, hcarrier⟩ := hC.2 list rfl f' hf
    rw [knownGroups_settle, Option.getD_some]
    exact mem_listAnswer hjs (hcarrier hseen)

theorem carrierIn_taskForce : CarrierIn asciiCase taskForce "CVN-71" := by
  refine ⟨2, by decide, by simp [Fleet.shipGroupsForSide, taskForce], rfl, _, calmShip, rfl, ?_,
    by decide +kernel, by decide +kernel⟩
  have hall : "CVN_71".toList.all (fun c => c.toNat < 128) = true := by decide
  exact fun c hc => of_decide_eq_true (List.all_eq_true.mp hall c hc)

/-- The hook when the radar has just shown its first carrier. -/
def carrierShown : Hook :=
  ((Hook.mounted 30000).withRadar asciiCase newCarrier).radarEffect asciiCase

/-- A carrier that the radar shows is asked for, not rejected, and listed by the answer. -/
theorem carrier_kept_shown :
    ∃ f u, hookStep asciiCase (Hook.mounted 30000) (.radar newCarrier) = some carrierShown ∧
      f ∈ carrierShown.inFlight ∧ "CVN-71" ∈ f.seenAtStart ∧
      "CVN-71" ∉ carrierShown.rejectedGroups ∧
      hookStep asciiCase carrierShown
        (.settle (.ok (some (listAnswer (State.injected bareMission) taskForce)))) = some u ∧
      "CVN-71" ∈ u.knownGroups := by
  have hmounted : Run (hookStep asciiCase) (AnsweredFrom ℝ asciiCase "CVN-71") (Hook.mounted 30000)
      [] (Hook.mounted 30000) := .nil _
  have hfirst : AnsweredFrom ℝ asciiCase "CVN-71" (Hook.mounted 30000) (.radar newCarrier) :=
    ⟨fun _ => rfl, fun list heq => by cases heq⟩
  have hrun : Run (hookStep asciiCase) (AnsweredFrom ℝ asciiCase "CVN-71") (Hook.mounted 30000)
      [.radar newCarrier] carrierShown := Run.single hfirst rfl
  obtain ⟨-, hleaves, -⟩ := carrier_kept (fun _ _ => rfl) hmounted
  obtain ⟨hkept, -, hlists⟩ := carrier_kept (fun _ _ => rfl) hrun
  obtain ⟨f, hf, hseen⟩ :=
    hleaves newCarrier carrierShown (by decide) (by decide) (by decide) hfirst.1 rfl
  set list := some (listAnswer (State.injected bareMission) taskForce) with hlist
  have hsettle : hookStep asciiCase carrierShown (.settle (.ok list)) =
      some (carrierShown.settle asciiCase f (.ok list)) := by
    simp only [hookStep, Option.mem_def.mp hf, Option.map_some]
  refine ⟨f, _, rfl, hf, hseen, hkept, hsettle, hlists f list _ hf hseen ⟨?_, ?_⟩ hsettle⟩
  · exact fun _ _ _ => ⟨_, rfl⟩
  · intro list' heq f _
    cases heq
    exact ⟨_, taskForce, hlist, fun _ => carrierIn_taskForce⟩

end DcsDashboard.Airboss

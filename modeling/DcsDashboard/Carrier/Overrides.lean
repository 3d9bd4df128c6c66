/-
# Per-group targets

`M.setGroupOverrides` is meant for one ship.  Its write to the group's own overrides is: no
other group reads them.  Its write to the mission global, made when Foothold manages the group,
is not: the global is a layer of every group's configuration, and Foothold's solver reads it for
every hull it manages.

`target_isolated_iff` says for which other groups the write goes unnoticed.
-/
import DcsDashboard.Carrier.Config
import Mathlib.Algebra.Order.Field.Rat
import Mathlib.Algebra.Field.Rat

namespace DcsDashboard.Carrier

open Lib

section

variable {R : Type*} [Field R]

/-! ## 1. Where the target comes from -/

/-- Only the target is read from the target's global. -/
theorem footholdGlobals_target {key : String}
    (h : footholdGlobals.lookup key = some "CarrierRecoveryTargetWodKt") : key = "targetWodKt" := by
  have htable : ∀ p ∈ footholdGlobals, p.2 = "CarrierRecoveryTargetWodKt" → p.1 = "targetWodKt" := by
    decide
  obtain ⟨l, r, hl, -⟩ := List.lookup_eq_some_iff.mp h
  exact htable (key, _) (by rw [hl]; simp) rfl

/-- The target of the globals layer: the global when it reads as a number, else the default. -/
theorem Setup.withGlobals_target (s : Setup R) :
    (s.withGlobals defaults).value "targetWodKt" = some (.number (s.footholdTarget.getD 24)) := by
  have hlook : footholdGlobals.lookup "targetWodKt" = some "CarrierRecoveryTargetWodKt" := by decide
  have hdefault : (defaults : Config R).value "targetWodKt" = some (.number 24) := by
    simp [defaults, defaultValues, List.lookup_cons]
  simp only [Setup.withGlobals, hlook, hdefault, Option.bind_some, Setup.footholdTarget]
  cases s.global "CarrierRecoveryTargetWodKt" with
  | none => rfl
  | some v => cases h : v.tonumber <;> simp [readGlobal, h]

/-- Whether a layer above the globals sets a group's target. -/
def Setup.TargetSet (s : Setup R) (h : String) : Prop :=
  "targetWodKt" ∈ ((s.groupOverrides h).getD .empty).entries ∨
  "targetWodKt" ∈ s.overrides.entries ∨
  "targetWodKt" ∈ (s.missionOverrides.getD .empty).entries

/-- A target that is not set above the globals layer comes through it. -/
theorem Setup.config_target (s : Setup R) {h : String} (hset : ¬ s.TargetSet h) :
    (s.config (some h)).value "targetWodKt" = some (.number (s.footholdTarget.getD 24)) := by
  simp only [Setup.TargetSet, not_or] at hset
  have hgroup : (s.config (some h)).value "targetWodKt" = s.sharedConfig.value "targetWodKt" :=
    Config.override_of_notMem hset.1
  rw [hgroup, Setup.sharedConfig, Config.override_of_notMem hset.2.1,
    Config.override_of_notMem hset.2.2, s.withGlobals_target]

/-! ## 2. The two writes -/

section Writes

variable {s : Setup R} {g h : String}

/-- **Another group does not read a group's own overrides.** -/
theorem Setup.config_storeOverrides_of_ne (hne : h ≠ g) (current : Overrides R) :
    (s.storeOverrides g current).config (some h) = s.config (some h) := by
  simp only [Setup.config, Setup.storeOverrides, Option.bind_some, Function.update_of_ne hne]
  rfl

/-- A stored table of overrides that sets a target is what the group is configured with. -/
theorem Setup.config_storeOverrides_self (s : Setup R) (g : String) (t : Overrides R) (v : Value R) :
    (s.storeOverrides g { t with entries := t.entries.insert "targetWodKt" v }).config (some g)
      = s.sharedConfig.override { t with entries := t.entries.insert "targetWodKt" v } := by
  have hmem : "targetWodKt" ∈ (t.entries.insert "targetWodKt" v).keys :=
    Finmap.mem_keys.mpr (Finmap.mem_insert.mpr (.inl rfl))
  simp [Setup.storeOverrides, Overrides.isEmpty, Finset.ne_empty_of_mem hmem, Setup.config,
    Setup.sharedConfig, Setup.withGlobals]

/-- What every group reads after a write to the global. -/
theorem Setup.footholdTarget_writeTargetGlobal (target : R) :
    (s.writeTargetGlobal target).footholdTarget = some target := by
  simp [Setup.footholdTarget, Setup.writeTargetGlobal, Value.tonumber]

/-- A write to the global changes no other tunable. -/
theorem Setup.withGlobals_writeTargetGlobal {key : String} (target : R)
    (hkey : key ≠ "targetWodKt") :
    ((s.writeTargetGlobal target).withGlobals defaults).value key
      = (s.withGlobals defaults).value key := by
  simp only [Setup.withGlobals]
  cases hlook : footholdGlobals.lookup key with
  | none => rfl
  | some name =>
    have hname : name ≠ "CarrierRecoveryTargetWodKt" :=
      fun heq => hkey (footholdGlobals_target (heq ▸ hlook))
    simp [Setup.writeTargetGlobal, Function.update_of_ne hname]

/-- **When a write to the global changes a configuration.** -/
theorem Setup.config_writeTargetGlobal_iff (target : R) :
    (s.writeTargetGlobal target).config (some h) = s.config (some h) ↔
      s.TargetSet h ∨ s.footholdTarget.getD 24 = target := by
  constructor
  · intro heq
    by_contra hcon
    rw [not_or] at hcon
    have htarget := congrArg (fun cfg => cfg.value "targetWodKt") heq
    have hset : ¬ (s.writeTargetGlobal target).TargetSet h := hcon.1
    simp only [Setup.config_target _ hset, Setup.config_target _ hcon.1,
      Setup.footholdTarget_writeTargetGlobal, Option.getD_some, Option.some.injEq,
      Value.number.injEq] at htarget
    exact hcon.2 htarget.symm
  · intro hor
    ext1
    · funext key
      by_cases hkey : key = "targetWodKt"
      · subst hkey
        rcases hor with (hset | hset | hset) | htarget
        · exact Config.override_of_mem hset
        · exact Config.override_congr (Config.override_of_mem hset)
        · exact Config.override_congr (Config.override_congr (Config.override_of_mem hset))
        · refine Config.override_congr (Config.override_congr (Config.override_congr ?_))
          rw [Setup.withGlobals_target, Setup.withGlobals_target,
            Setup.footholdTarget_writeTargetGlobal, Option.getD_some, htarget]
      · exact Config.override_congr (Config.override_congr (Config.override_congr
          (Setup.withGlobals_writeTargetGlobal target hkey)))
    · rfl

end Writes

/-! ## 3. The target of one ship -/

variable [LinearOrder R]

/-- Setting `v` as the target of `g` leaves the configuration of `h` as it was, and what
Foothold's solver reads for it when Foothold manages it. -/
def TargetIsolated (s : Setup R) (g : String) (v : Option (Value R)) (h : String) : Prop :=
  ((s.setGroupOverrides g ⟨v, false⟩).1.config (some h) = s.config (some h)) ∧
  (s.backend h = .foothold →
    (s.setGroupOverrides g ⟨v, false⟩).1.footholdTarget = s.footholdTarget)

/-- The write to the global goes unnoticed by `h`: there is none, or `h` has a target of its
own or inherited the same one, and Foothold, if it manages `h`, read the same one. -/
def Unnoticed (s : Setup R) (g : String) (v : Option (Value R)) (h : String) : Prop :=
  g = "" ∨ s.backend g = .standalone ∨
  ∀ n ∈ v.bind Value.tonumber,
    (s.TargetSet h ∨ s.footholdTarget.getD 24 = clamp n targetWodMinKt targetWodMaxKt) ∧
    (s.backend h = .foothold → s.footholdTarget = some (clamp n targetWodMinKt targetWodMaxKt))

/-- The state a set target leads to. -/
theorem Setup.setGroupOverrides_target {s : Setup R} {g : String} (hg : g ≠ "") {v : Value R}
    {n : R} (hn : v.tonumber = some n) :
    ∃ current, (s.setGroupOverrides g ⟨some v, false⟩).1 =
      (if s.backend g = .foothold then s.writeTargetGlobal (clamp n targetWodMinKt targetWodMaxKt)
        else s).storeOverrides g current := by
  simp only [Setup.setGroupOverrides, if_neg hg, hn]
  exact ⟨_, rfl⟩

section Target

variable {s : Setup R} {g : String} {v : Value R} {n : R}

/-- **The ship gets the target.**  Whatever the other layers say, the effective target is the
one set, within its bounds. -/
theorem Setup.config_setGroupOverrides_self (hg : g ≠ "") (hn : v.tonumber = some n) :
    ((s.setGroupOverrides g ⟨some v, false⟩).1.config (some g)).value "targetWodKt"
      = some (.number (clamp n targetWodMinKt targetWodMaxKt)) := by
  simp only [Setup.setGroupOverrides, if_neg hg, hn]
  rw [Setup.config_storeOverrides_self]
  simp [Config.override, Finmap.lookup_insert]

/-- The ship's other tunables stay as they were. -/
theorem Setup.config_setGroupOverrides_other (hg : g ≠ "") (hn : v.tonumber = some n)
    {key : String} (hkey : key ≠ "targetWodKt") :
    ((s.setGroupOverrides g ⟨some v, false⟩).1.config (some g)).value key
      = (s.config (some g)).value key := by
  simp only [Setup.setGroupOverrides, if_neg hg, hn]
  rw [Setup.config_storeOverrides_self]
  have hshared : (if s.backend g = .foothold
      then s.writeTargetGlobal (clamp n targetWodMinKt targetWodMaxKt) else s).sharedConfig.value key
      = s.sharedConfig.value key := by
    split
    · exact Config.override_congr (Config.override_congr (Setup.withGlobals_writeTargetGlobal _ hkey))
    · rfl
  simp only [Setup.config, Config.override, Option.bind_some, hshared,
    Finmap.lookup_insert_of_ne _ hkey]

end Target

/-- A call without a numeric target writes at most the group's own overrides. -/
theorem Setup.setGroupOverrides_noTarget {s : Setup R} {g h : String} (hne : h ≠ g)
    {v : Option (Value R)} (hv : v.bind Value.tonumber = none) :
    (s.setGroupOverrides g ⟨v, false⟩).1.config (some h) = s.config (some h) ∧
    (s.setGroupOverrides g ⟨v, false⟩).1.footholdTarget = s.footholdTarget := by
  by_cases hg : g = ""
  · simp [Setup.setGroupOverrides, hg]
  · cases v with
    | none =>
      simp only [Setup.setGroupOverrides, if_neg hg]
      exact ⟨Setup.config_storeOverrides_of_ne hne _, rfl⟩
    | some v =>
      rw [Option.bind_some] at hv
      simp [Setup.setGroupOverrides, hg, hv]

/-- **A target stays with its ship exactly when the write to the global goes unnoticed.** -/
theorem target_isolated_iff (s : Setup R) {g h : String} (hne : h ≠ g) (v : Option (Value R)) :
    TargetIsolated s g v h ↔ Unnoticed s g v h := by
  unfold TargetIsolated Unnoticed
  cases hv : v.bind Value.tonumber with
  | none =>
    obtain ⟨hconfig, htarget⟩ := s.setGroupOverrides_noTarget hne hv
    simp [hconfig, htarget]
  | some n =>
    by_cases hg : g = ""
    · simp [Setup.setGroupOverrides, hg]
    · obtain ⟨v, rfl, hn⟩ := Option.bind_eq_some_iff.mp hv
      obtain ⟨current, hs⟩ := s.setGroupOverrides_target hg hn
      rw [hs, Setup.config_storeOverrides_of_ne hne]
      cases hb : s.backend g with
      | standalone => simp [Setup.storeOverrides, Setup.footholdTarget]
      | foothold =>
        rw [if_pos rfl, Setup.config_writeTargetGlobal_iff]
        simp only [hg, false_or, reduceCtorEq, Option.mem_some_iff, forall_eq']
        refine and_congr_right fun _ => forall_congr' ?_
        intro _
        have hread : ((s.writeTargetGlobal (clamp n targetWodMinKt targetWodMaxKt)).storeOverrides
            g current).footholdTarget = some (clamp n targetWodMinKt targetWodMaxKt) :=
          Setup.footholdTarget_writeTargetGlobal (s := s) _
        rw [hread, eq_comm]

/-! ## 4. A target that does not stay -/

/-- A Foothold mission: `bc` manages CVN-72, and nothing is configured. -/
def footholdMission : Setup ℚ where
  global _ := none
  missionOverrides := none
  overrides := .empty
  groupOverrides _ := none
  bc := some ⟨["_carrierRecoveryStart", "_carrierRecoveryRestore"]⟩
  footholdGroups g := if g = "CVN-72"
    then some ⟨"_carrierRecoveryStart", "_carrierRecoveryRestore", "_carrierRecoveryStatus",
      "carrierRecoveryIntoWind"⟩
    else none

/-- **A target set for a managed ship reaches the others.** -/
theorem target_reaches_other_group :
    ¬ TargetIsolated footholdMission "CVN-72" (some (.number 30)) "CVN-71" := by
  rintro ⟨hconfig, -⟩
  have htarget := congrArg (fun cfg => cfg.value "targetWodKt") hconfig
  exact absurd htarget (by decide)

theorem target_isolated_iff_default :
    TargetIsolated footholdMission "CVN-72" (some (.number 24)) "CVN-71" :=
  (target_isolated_iff footholdMission (by decide) _).mpr
    (.inr (.inr fun n hn => by
      obtain rfl : (24 : ℚ) = n := Option.some.inj hn
      exact ⟨.inr (by decide), fun hb => absurd hb (by decide)⟩))

end

end DcsDashboard.Carrier

/-
# Clearing a target

`M.setGroupOverrides` sets the target of a group and clears it again.  Setting has two effects when
Foothold manages the group: the group's own overrides, and the mission global that Foothold's solver
reads.  However many targets are set, only the last shows (`setTargets_eq`).

Clearing takes the target out of the group's own overrides and drops a table that is then empty.  It
does not write the global, so for a group that Foothold manages the last target stays behind.
`clear_undoes_set_iff` says when that does not show.
-/
import DcsDashboard.Carrier.Overrides

namespace DcsDashboard.Carrier

open Lib

section Target

variable {R : Type*}

/-! ## 1. What a target leaves behind -/

/-- The group's own overrides, none being an empty table. -/
def Setup.ownOverrides (s : Setup R) (g : String) : Overrides R := (s.groupOverrides g).getD .empty

/-- An override table with a target. -/
def Overrides.withTarget (t : Overrides R) (target : R) : Overrides R :=
  { t with entries := t.entries.insert "targetWodKt" (.number target) }

theorem Overrides.withTarget_isEmpty (t : Overrides R) (target : R) :
    (t.withTarget target).isEmpty = false := by
  have hmem : "targetWodKt" ∈ (t.withTarget target).entries.keys :=
    Finmap.mem_keys.mpr (Finmap.mem_insert.mpr (.inl rfl))
  simp [Overrides.isEmpty, Finset.ne_empty_of_mem hmem]

/-- The mission globals as a target leaves them. -/
def Setup.withGlobal (s : Setup R) (g : String) (target : R) : Setup R :=
  if s.backend g = .foothold then s.writeTargetGlobal target else s

/-- What a target leaves behind. -/
def Setup.withTarget (s : Setup R) (g : String) (target : R) : Setup R :=
  (s.withGlobal g target).storeOverrides g ((s.ownOverrides g).withTarget target)

variable {s : Setup R} {g : String}

theorem Setup.storeOverrides_ownOverrides (t : Overrides R) (target : R) :
    (s.storeOverrides g (t.withTarget target)).ownOverrides g = t.withTarget target := by
  simp [Setup.ownOverrides, Setup.storeOverrides, Overrides.withTarget_isEmpty]

theorem Setup.withTarget_ownOverrides (target : R) :
    (s.withTarget g target).ownOverrides g = (s.ownOverrides g).withTarget target :=
  Setup.storeOverrides_ownOverrides _ target

/-- **Only the last target shows.** -/
theorem Setup.withTarget_withTarget (target target' : R) :
    (s.withTarget g target).withTarget g target' = s.withTarget g target' := by
  have hown : ((s.withTarget g target).ownOverrides g).withTarget target' =
      (s.ownOverrides g).withTarget target' := by
    rw [Setup.withTarget_ownOverrides]
    simp [Overrides.withTarget, Finmap.insert_insert]
  rw [Setup.withTarget, hown]
  unfold Setup.withTarget Setup.withGlobal
  by_cases hb : s.backend g = .foothold
  · have hb' : ((s.writeTargetGlobal target).storeOverrides g
        ((s.ownOverrides g).withTarget target)).backend g = .foothold := hb
    simp only [if_pos hb]
    rw [if_pos hb']
    simp [Setup.storeOverrides, Setup.writeTargetGlobal]
  · have hb' : ¬ (s.storeOverrides g ((s.ownOverrides g).withTarget target)).backend g =
        .foothold := hb
    simp only [if_neg hb]
    rw [if_neg hb']
    simp [Setup.storeOverrides]

/-- **When the globals are back**: Foothold does not manage the group, or the global was the target
already. -/
theorem Setup.withGlobal_global_iff (target : R) :
    (s.withGlobal g target).global = s.global ↔ s.backend g = .standalone ∨
      s.global "CarrierRecoveryTargetWodKt" = some (.number target) := by
  unfold Setup.withGlobal
  cases hb : s.backend g with
  | standalone => simp
  | foothold =>
    rw [if_pos rfl]
    simp [Setup.writeTargetGlobal, eq_comm]

/-- **When the table of overrides is back**: the group did not have an empty one. -/
theorem Setup.storeOverrides_groupOverrides_iff :
    (s.storeOverrides g (s.ownOverrides g)).groupOverrides = s.groupOverrides ↔
      ∀ t, s.groupOverrides g = some t → t.isEmpty = false := by
  simp only [Setup.storeOverrides, Function.update_eq_self_iff, Setup.ownOverrides]
  rcases Option.eq_none_or_eq_some (s.groupOverrides g) with hown | ⟨t, hown⟩
  · simp [hown, Overrides.isEmpty, Overrides.empty]
  · cases hempty : t.isEmpty <;> simp [hown, hempty]

end Target

/-! ## 2. The calls -/

section Calls

variable {R : Type*} [Field R] [LinearOrder R] {s : Setup R} {g : String}

/-- `M.setGroupOverrides(groupName, { targetWodKt = v })` for one `v` after the other. -/
def Setup.setTargets (s : Setup R) (g : String) (vs : List (Value R)) : Setup R :=
  vs.foldl (fun s v => (s.setGroupOverrides g ⟨some v, false⟩).1) s

/-- `M.setGroupOverrides(groupName, { clearTargetWodKt = true })`. -/
def Setup.clearTarget (s : Setup R) (g : String) : Setup R :=
  (s.setGroupOverrides g ⟨none, true⟩).1

/-- The last of the values that reads as a number, within the bounds of a target; `n` before
there is one. -/
def lastTarget (n : R) (vs : List (Value R)) : R :=
  clamp ((vs.filterMap Value.tonumber).getLastD n) targetWodMinKt targetWodMaxKt

theorem setGroupOverrides_number (hg : g ≠ "") {v : Value R} {n : R} (hn : v.tonumber = some n) :
    (s.setGroupOverrides g ⟨some v, false⟩).1 =
      s.withTarget g (clamp n targetWodMinKt targetWodMaxKt) := by
  simp only [Setup.setGroupOverrides, if_neg hg, hn]
  rfl

theorem setGroupOverrides_notNumber {v : Value R} (hn : v.tonumber = none) :
    (s.setGroupOverrides g ⟨some v, false⟩).1 = s := by
  by_cases hg : g = ""
  · simp [Setup.setGroupOverrides, hg]
  · simp [Setup.setGroupOverrides, hg, hn]

/-- **Any number of calls** leaves behind what the last number does. -/
theorem setTargets_withTarget (hg : g ≠ "") (n : R) (vs : List (Value R)) :
    (s.withTarget g (clamp n targetWodMinKt targetWodMaxKt)).setTargets g vs =
      s.withTarget g (lastTarget n vs) := by
  induction vs generalizing n with
  | nil => rfl
  | cons v vs ih =>
    cases hv : v.tonumber with
    | none =>
      have hlast : lastTarget n (v :: vs) = lastTarget n vs := by simp [lastTarget, hv]
      rw [hlast, ← ih n]
      exact congrArg (Setup.setTargets · g vs) (setGroupOverrides_notNumber hv)
    | some m =>
      have hlast : lastTarget n (v :: vs) = lastTarget m vs := by
        simp only [lastTarget, List.filterMap_cons, hv, List.getLastD_cons]
      rw [hlast, ← ih m]
      exact congrArg (Setup.setTargets · g vs)
        ((setGroupOverrides_number hg hv).trans (Setup.withTarget_withTarget _ _))

/-- **Clearing** takes the target out of the group's own overrides, and leaves the global. -/
theorem Setup.clearTarget_withTarget (hg : g ≠ "") (hno : "targetWodKt" ∉ (s.ownOverrides g).entries)
    (target : R) :
    (s.withTarget g target).clearTarget g =
      (s.withGlobal g target).storeOverrides g (s.ownOverrides g) := by
  have herase : ((s.ownOverrides g).entries.insert "targetWodKt" (.number target)).erase
      "targetWodKt" = (s.ownOverrides g).entries := by
    refine Finmap.ext_lookup ?_
    intro key
    by_cases hkey : key = "targetWodKt"
    · subst hkey
      rw [Finmap.lookup_erase, Finmap.lookup_eq_none.mpr hno]
    · rw [Finmap.lookup_erase_ne hkey, Finmap.lookup_insert_of_ne _ hkey]
  have hown : ((s.withTarget g target).groupOverrides g).getD .empty =
      (s.ownOverrides g).withTarget target := Setup.withTarget_ownOverrides target
  simp only [Setup.clearTarget, Setup.setGroupOverrides, if_neg hg, if_true, hown]
  simp only [Overrides.withTarget, herase, Setup.withTarget, Setup.storeOverrides,
    Function.update_idem]

omit [LinearOrder R] in
/-- While a target is set it is what the group is configured with. -/
theorem Setup.config_withTarget (target : R) :
    ((s.withTarget g target).config (some g)).value "targetWodKt" = some (.number target) := by
  have hstore : (s.withTarget g target).config (some g) =
      (s.withGlobal g target).sharedConfig.override ((s.ownOverrides g).withTarget target) :=
    Setup.config_storeOverrides_self _ _ _ _
  rw [hstore]
  simp [Config.override, Overrides.withTarget, Finmap.lookup_insert]

/-! ## 3. Clearing undoes setting -/

/-- Setting a target, any number of times, and clearing it.  While one is set it is the effective
target; once it is cleared the effective target, the table of overrides and the mission globals are
what they were. -/
structure SetThenCleared (s : Setup R) (g : String) (v : Value R) (n : R) (vs : List (Value R)) :
    Prop where
  whileSet : ∀ ws, ws <+: vs →
    ((s.setTargets g (v :: ws)).config (some g)).value "targetWodKt" =
      some (.number (lastTarget n ws))
  target : (((s.setTargets g (v :: vs)).clearTarget g).config (some g)).value "targetWodKt" =
    (s.config (some g)).value "targetWodKt"
  table : ((s.setTargets g (v :: vs)).clearTarget g).groupOverrides = s.groupOverrides
  globals : ((s.setTargets g (v :: vs)).clearTarget g).global = s.global

/-- Nothing is left of a target: the group had no empty table of overrides, and Foothold does not
manage it or the global was that target already. -/
def NothingLeft (s : Setup R) (g : String) (target : R) : Prop :=
  (∀ t, s.groupOverrides g = some t → t.isEmpty = false) ∧
  (s.backend g = .standalone ∨ s.global "CarrierRecoveryTargetWodKt" = some (.number target))

section Cleared

variable (hg : g ≠ "") {v : Value R} {n : R} (hn : v.tonumber = some n)

include hg hn

theorem setTargets_eq (vs : List (Value R)) :
    s.setTargets g (v :: vs) = s.withTarget g (lastTarget n vs) :=
  (congrArg (Setup.setTargets · g vs) (setGroupOverrides_number hg hn)).trans
    (setTargets_withTarget hg n vs)

/-- **When clearing undoes setting.** -/
theorem clear_undoes_set_iff (hno : "targetWodKt" ∉ (s.ownOverrides g).entries)
    (vs : List (Value R)) :
    SetThenCleared s g v n vs ↔ NothingLeft s g (lastTarget n vs) := by
  have hcleared : (s.setTargets g (v :: vs)).clearTarget g =
      (s.withGlobal g (lastTarget n vs)).storeOverrides g (s.ownOverrides g) := by
    rw [setTargets_eq hg hn, Setup.clearTarget_withTarget hg hno]
  have htable : ((s.withGlobal g (lastTarget n vs)).storeOverrides g
      (s.ownOverrides g)).groupOverrides =
        (s.storeOverrides g (s.ownOverrides g)).groupOverrides := by
    unfold Setup.withGlobal
    split <;> rfl
  have hrest : (s.withGlobal g (lastTarget n vs)).storeOverrides g (s.ownOverrides g) =
      { s with
        global := (s.withGlobal g (lastTarget n vs)).global
        groupOverrides := (s.storeOverrides g (s.ownOverrides g)).groupOverrides } := by
    unfold Setup.withGlobal
    split <;> rfl
  constructor
  · intro h
    have hown := h.table
    have hglobal := h.globals
    rw [hcleared, htable] at hown
    rw [hcleared] at hglobal
    exact ⟨Setup.storeOverrides_groupOverrides_iff.mp hown,
      (Setup.withGlobal_global_iff _).mp hglobal⟩
  · rintro ⟨hown, hglobal⟩
    have hback : (s.setTargets g (v :: vs)).clearTarget g = s := by
      rw [hcleared, hrest, Setup.storeOverrides_groupOverrides_iff.mpr hown,
        (Setup.withGlobal_global_iff _).mpr hglobal]
    refine ⟨fun ws _ => ?_, by rw [hback], by rw [hback], by rw [hback]⟩
    rw [setTargets_eq hg hn, Setup.config_withTarget]

end Cleared

end Calls

/-- **A cleared target stays behind** for a ship that Foothold manages. -/
theorem cleared_target_stays :
    "targetWodKt" ∉ (footholdMission.ownOverrides "CVN-72").entries ∧
      ¬ SetThenCleared footholdMission "CVN-72" (.number 30) 30 [] := by
  have hno : "targetWodKt" ∉ (footholdMission.ownOverrides "CVN-72").entries := by decide
  refine ⟨hno, ?_⟩
  intro h
  have hglobal := h.globals
  rw [setTargets_eq (by decide) rfl, Setup.clearTarget_withTarget (by decide) hno] at hglobal
  have hleft := (Setup.withGlobal_global_iff _).mp hglobal
  exact absurd hleft (by decide)

theorem clear_undoes_set_iff_standalone :
    SetThenCleared footholdMission "CVN-71" (.number 60) 60 [.string "30", .other] :=
  (clear_undoes_set_iff (by decide) rfl (by decide) _).mpr
    ⟨nofun, .inl (by decide)⟩

end DcsDashboard.Carrier

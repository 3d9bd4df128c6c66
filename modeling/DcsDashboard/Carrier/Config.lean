/-
# Configuration of the carrier controller

`M.config` resolves every tunable through five layers: the defaults, the mission's Foothold
globals, `CarrierRecoveryConfig`, `CarrierRecovery.overrides` and the group's own overrides.
`M.setGroupOverrides` writes the last of these.  For a group that Foothold manages it also
writes the mission global of the target wind over deck, which is the second layer of every
group and what Foothold's solver reads for every hull it manages.

Numbers are an ordered field `R`, since nothing here depends on rounding.  The configuration
tables hold scalars under string keys, except `straightDeckTypes`, which is a list of names and
has its own field.
-/
import DcsDashboard.Lib.LuaMath
import DcsDashboard.Lib.LuaNumber
import Mathlib.Algebra.Order.Field.Basic
import Mathlib.Data.Finmap

namespace DcsDashboard.Carrier

open Lib

/-! ## 1. Values and tables -/

/-- A Lua value of a configuration layer; `other` stands for tables and functions. -/
inductive Value (R : Type*)
  | bool (b : Bool)
  | number (n : R)
  | string (s : String)
  | other
  deriving DecidableEq

section

variable {R : Type*} [Field R]

/-- `tonumber`. -/
def Value.tonumber : Value R → Option R
  | .number n => some n
  | .string s => (str2d s.toList).map (Rat.cast ·)
  | .bool _ | .other => none

end

/-- Whether a value counts as true. -/
def Value.truthy {R : Type*} : Option (Value R) → Bool
  | none | some (.bool false) => false
  | _ => true

/-- A table of overrides. -/
structure Overrides (R : Type*) where
  entries : Finmap fun _ : String => Value R
  straightDeckTypes : Option (List String)

/-- An effective configuration. -/
@[ext] structure Config (R : Type*) where
  value : String → Option (Value R)
  straightDeckTypes : Option (List String)

/-- The table without entries. -/
def Overrides.empty {R : Type*} : Overrides R := ⟨∅, none⟩

/-- `next(t) == nil`. -/
def Overrides.isEmpty {R : Type*} (t : Overrides R) : Bool :=
  decide (t.entries.keys = ∅) && t.straightDeckTypes.isNone

/-- `for key, value in pairs(t) do cfg[key] = value end`. -/
def Config.override {R : Type*} (cfg : Config R) (t : Overrides R) : Config R where
  value key := (t.entries.lookup key).or (cfg.value key)
  straightDeckTypes := t.straightDeckTypes.or cfg.straightDeckTypes

/-! ## 2. The controller's settings -/

/-- An entry of `M.footholdGroups`. -/
structure FootholdEntry where
  startFn : String
  restoreFn : String
  statusFn : String
  stateField : String

/-- The Foothold global `bc`: the names of its function members. -/
structure BattleCommander where
  functions : List String

/-- The members of the module and of `_G` that the configuration is resolved from. -/
structure Setup (R : Type*) where
  global : String → Option (Value R)
  missionOverrides : Option (Overrides R)
  overrides : Overrides R
  groupOverrides : String → Option (Overrides R)
  bc : Option BattleCommander
  footholdGroups : String → Option FootholdEntry

/-- `FOOTHOLD_GLOBALS`. -/
def footholdGlobals : List (String × String) :=
  [("enabled", "CarrierRecoveryIntoWindEnabled"),
   ("targetWodKt", "CarrierRecoveryTargetWodKt"),
   ("durationSec", "CarrierRecoveryDurationSec"),
   ("turnDelaySec", "CarrierRecoveryTurnDelaySec"),
   ("safetyReserveSec", "CarrierRecoverySafetyReserveSec"),
   ("landClearanceNm", "CarrierRecoveryLandClearanceNm"),
   ("minSpeedKt", "CarrierRecoveryMinSpeedKt"),
   ("maxSpeedKt", "CarrierRecoveryMaxSpeedKt"),
   ("headingToleranceDeg", "CarrierRecoveryHeadingToleranceDeg"),
   ("alignmentTimeoutSec", "CarrierRecoveryAlignmentTimeoutSec"),
   ("alignmentStableSec", "CarrierRecoveryAlignmentStableSec"),
   ("angledDeckMinWindKt", "CarrierRecoveryAngledDeckMinWindKt")]

/-- How a recovery of a group is flown. -/
inductive Backend
  | foothold
  | standalone
  deriving DecidableEq

/-- The argument `values` of `M.setGroupOverrides`. -/
structure OverrideValues (R : Type*) where
  targetWodKt : Option (Value R)
  clearTargetWodKt : Bool

/-- What `M.setGroupOverrides` returns. -/
inductive OverrideReply (R : Type*)
  | error (text : String) (carrierName : Option String)
  | effective (carrierName : String) (targetWod : Option (Value R)) (backend : Backend)

section Setup

variable {R : Type*} [Field R]

/-- The scalar `M.defaults`. -/
def defaultValues : List (String × Value R) :=
  [("enabled", .bool true),
   ("targetWodKt", .number 24),
   ("durationSec", .number 1800),
   ("turnDelaySec", .number 60),
   ("safetyReserveSec", .number 300),
   ("landClearanceNm", .number 2),
   ("minSpeedKt", .number 10),
   ("maxSpeedKt", .number 30),
   ("headingToleranceDeg", .number 5),
   ("alignmentTimeoutSec", .number 300),
   ("alignmentStableSec", .number 15),
   ("angledDeckMinWindKt", .number 3),
   ("angledDeckOffsetDeg", .number (914 / 100))]

/-- `M.defaults`. -/
def defaults : Config R where
  value key := defaultValues.lookup key
  straightDeckTypes := some ["Tarawa", "LHA", "Type_071", "Juan_Carlos", "L61", "Essex"]

/-- One round of the loop over `FOOTHOLD_GLOBALS`. -/
def readGlobal (key : String) (current : Option (Value R)) : Option (Value R) → Option (Value R)
  | none => current
  | some value =>
    if key = "enabled" then some (.bool (value matches .bool false).not)
    else (value.tonumber.map .number).or current

/-- The layer of the Foothold globals. -/
def Setup.withGlobals (s : Setup R) (cfg : Config R) : Config R where
  value key := readGlobal key (cfg.value key) ((footholdGlobals.lookup key).bind s.global)
  straightDeckTypes := cfg.straightDeckTypes

/-- The layers every group shares. -/
def Setup.sharedConfig (s : Setup R) : Config R :=
  ((s.withGlobals defaults).override (s.missionOverrides.getD .empty)).override s.overrides

/-- `M.config`. -/
def Setup.config (s : Setup R) (groupName : Option String) : Config R :=
  s.sharedConfig.override ((groupName.bind s.groupOverrides).getD .empty)

/-- `M.footholdEntry`. -/
def Setup.footholdEntry (s : Setup R) (groupName : String) : Option FootholdEntry :=
  s.bc.bind fun bc => (s.footholdGroups groupName).filter fun entry =>
    entry.startFn ∈ bc.functions ∧ entry.restoreFn ∈ bc.functions

/-- `M.backend`. -/
def Setup.backend (s : Setup R) (groupName : String) : Backend :=
  if (s.footholdEntry groupName).isSome then .foothold else .standalone

/-- The target Foothold's solver reads, for every hull it manages. -/
def Setup.footholdTarget (s : Setup R) : Option R :=
  (s.global "CarrierRecoveryTargetWodKt").bind Value.tonumber

variable [LinearOrder R]

/-- `clamp`. -/
def clamp (value low high : R) : R :=
  if value < low then low else if value > high then high else value

/-- `M.TARGET_WOD_MIN_KT`. -/
def targetWodMinKt : R := 10

/-- `M.TARGET_WOD_MAX_KT`. -/
def targetWodMaxKt : R := 45

/-- `_G.CarrierRecoveryTargetWodKt = target`. -/
def Setup.writeTargetGlobal (s : Setup R) (target : R) : Setup R :=
  { s with global := Function.update s.global "CarrierRecoveryTargetWodKt" (some (.number target)) }

/-- Stores `current` as the overrides of a group, dropping a table without entries. -/
def Setup.storeOverrides (s : Setup R) (groupName : String) (current : Overrides R) : Setup R :=
  { s with groupOverrides := Function.update s.groupOverrides groupName
            (if current.isEmpty then none else some current) }

/-- The effective values `M.setGroupOverrides` returns. -/
def Setup.reply (s : Setup R) (groupName : String) : OverrideReply R :=
  .effective groupName ((s.config (some groupName)).value "targetWodKt") (s.backend groupName)

/-- `M.setGroupOverrides`. -/
def Setup.setGroupOverrides (s : Setup R) (groupName : String) (values : OverrideValues R) :
    Setup R × OverrideReply R :=
  if groupName = "" then (s, .error "group name required" none)
  else
    let current := (s.groupOverrides groupName).getD .empty
    match values.targetWodKt with
    | some v =>
      match v.tonumber with
      | none => (s, .error "targetWodKt must be a number" (some groupName))
      | some n =>
        let target := clamp n targetWodMinKt targetWodMaxKt
        let current := { current with entries := current.entries.insert "targetWodKt" (.number target) }
        let s := if s.backend groupName = .foothold then s.writeTargetGlobal target else s
        let s := s.storeOverrides groupName current
        (s, s.reply groupName)
    | none =>
      let current := if values.clearTargetWodKt
        then { current with entries := current.entries.erase "targetWodKt" } else current
      let s := s.storeOverrides groupName current
      (s, s.reply groupName)

end Setup

/-! ## 3. Lookups -/

section Lookup

variable {R : Type*} {cfg cfg' : Config R} {t : Overrides R} {key : String}

theorem Config.override_of_notMem (h : key ∉ t.entries) :
    (cfg.override t).value key = cfg.value key := by
  simp [Config.override, Finmap.lookup_eq_none.mpr h]

theorem Config.override_of_mem (h : key ∈ t.entries) :
    (cfg.override t).value key = (cfg'.override t).value key := by
  obtain ⟨v, hv⟩ := Finmap.mem_iff.mp h
  simp [Config.override, hv]

/-- Overriding is pointwise. -/
theorem Config.override_congr (h : cfg.value key = cfg'.value key) :
    (cfg.override t).value key = (cfg'.override t).value key := by
  simp [Config.override, h]

@[simp] theorem Config.override_empty : cfg.override Overrides.empty = cfg := by
  simp [Config.override, Overrides.empty]

end Lookup

end DcsDashboard.Carrier

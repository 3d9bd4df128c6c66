/-
# Reading serverSettings.lua

`parse_blocking` lets Lua evaluate the file and collects what the global `cfg` holds: scalars at
the top level, the scalars of `advanced`, and the strings of `missionList` in the order of their
indices.  Everything else in the table is passed over.

The result is a JSON object; a map is given by what it maps each key to.  Lua leaves the order
of `pairs` open; here it is the order of the assignments, which shows only where an integer and
a string are the same name.
-/
import DcsDashboard.Lib.Json
import DcsDashboard.Lib.NumberFormat
import Mathlib.Logic.Function.Basic

namespace DcsDashboard.Settings

open Lib Lua

/-! ## 1. Values -/

/-- What goes wrong with a settings file. -/
inductive SettingsError
  /-- failed to evaluate serverSettings.lua -/
  | evaluate
  /-- serverSettings.lua did not define a `cfg` table -/
  | noCfgTable
  /-- a mission name is not UTF-8 -/
  | notUtf8
  /-- missionList block not found in serverSettings.lua -/
  | blockNotFound
  deriving DecidableEq

/-- A `serde_json::Map`, by what it maps each key to. -/
abbrev JsonMap := String → Option Json

/-- `map.insert`. -/
def JsonMap.insert (m : JsonMap) (name : String) (v : Json) : JsonMap :=
  Function.update m name (some v)

/-- A settings object: the scalars at the top level, and the two entries that are tables. -/
@[ext] structure ServerSettings where
  scalars : JsonMap
  advanced : Option JsonMap
  missionList : Option (List String)

def ServerSettings.empty : ServerSettings := ⟨fun _ => none, none, none⟩

section
variable (F : NumberFormat)

/-- `key_name`. -/
def keyName : Key → Option String
  | .string bytes => toStr bytes
  | .number x => (F.integer x).map fun i => String.ofList (intText i)
  | .bool _ => none

/-- `scalar_to_json`. -/
def scalarToJson : Value → Option Json
  | .bool b => some (.bool b)
  | .number x =>
    match F.integer x, x with
    | some i, _ => some (.num i)
    | none, .finite q => some (.num q)
    | none, _ => none
  | .string bytes => (toStr bytes).map .str
  | .nil | .table _ => none

/-- The strings among some values, in order. -/
def missionNames : List Value → Except SettingsError (List String)
  | [] => .ok []
  | .string bytes :: vs =>
    match toStr bytes with
    | some name => (missionNames vs).map (name :: ·)
    | none => .error .notUtf8
  | _ :: vs => missionNames vs

/-- `mission_list_from_lua`. -/
def missionListFromLua : Value → Except SettingsError (List String)
  | .table es => missionNames (Entries.sequence es)
  | _ => .ok []

/-- One entry of `advanced`. -/
def readAdvanced (m : JsonMap) (e : Key × Value) : JsonMap :=
  match keyName F e.1, scalarToJson F e.2 with
  | some name, some v => m.insert name v
  | _, _ => m

/-- `advanced_from_lua`. -/
def advancedFromLua : Value → JsonMap
  | .table es => es.foldl (readAdvanced F) fun _ => none
  | _ => fun _ => none

/-- One entry of `cfg`. -/
def readEntry (q : ServerSettings) (e : Key × Value) : Except SettingsError ServerSettings :=
  match keyName F e.1 with
  | none => .ok q
  | some name =>
    if name = "missionList" then
      (missionListFromLua e.2).map fun names => { q with missionList := some names }
    else if name = "advanced" then .ok { q with advanced := some (advancedFromLua F e.2) }
    else
      match scalarToJson F e.2 with
      | some v => .ok { q with scalars := q.scalars.insert name v }
      | none => .ok q

/-- `parse_blocking`. -/
def parseBlocking (content : List Char) : Except SettingsError ServerSettings :=
  match readChunk F.round content with
  | none => .error .evaluate
  | some globals =>
    match globalValue globals "cfg" with
    | .table es => es.foldlM (readEntry F) .empty
    | _ => .error .noCfgTable

end

/-- `mission_list`. -/
def missionList (settings : ServerSettings) : List String := settings.missionList.getD []

end DcsDashboard.Settings

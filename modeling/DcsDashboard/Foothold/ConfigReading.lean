/-
# Reading Foothold Config.lua

`get_foothold_config` lets Lua evaluate the file and reports the values of its globals, one by
one: what is inside a table is reported under the names of the tables and its key, with dots
between them (`flattenLuaValue`).

Texts are lists of characters.  The libraries of Lua are globals too; they hold functions, which
are not reported, so only what the file assigns counts.
-/
import DcsDashboard.Lib.Json
import DcsDashboard.Lib.LuaRows
import DcsDashboard.Lib.NumberFormat

namespace DcsDashboard.Foothold

open Lib Lua

/-- The values by their names. -/
abbrev ConfigMap := List Char → Option Json

/-- The globals that are passed over. -/
def skippedGlobals : List (List Char) :=
  ["_G", "_VERSION", "package", "string", "table", "math", "io", "os", "coroutine", "debug",
    "utf8"].map String.toList

section
variable (F : NumberFormat)

/-- How a value that is no table is reported. -/
def scalarValue : Value → Option Json
  | .string bytes => (toStr bytes).map .str
  | .bool b => some (.bool b)
  | .number x =>
    match F.integer x, x with
    | some i, _ => some (.num i)
    | none, .finite q => some (.num q)
    | none, _ => some .null
  | .nil | .table _ => none

/-- The name of a key.  One without a name is passed over. -/
def keyString : Key → Option (List Char)
  | .string bytes => (toStr bytes).map String.toList
  | .number x => (F.integer x).map intText
  | .bool _ => none

/-- The name of an entry of a table. -/
def entryName (pre key : List Char) : List Char := if pre = [] then key else pre ++ '.' :: key

mutual

/-- `flatten_lua_value`: what is inserted for a value. -/
def flattenLuaValue (pre : List Char) : Value → List (List Char × Json)
  | .table es => flattenEntries pre es
  | .nil => []
  | .bool b => ((scalarValue F (.bool b)).map fun j => (pre, j)).toList
  | .number x => ((scalarValue F (.number x)).map fun j => (pre, j)).toList
  | .string bytes => ((scalarValue F (.string bytes)).map fun j => (pre, j)).toList

def flattenEntries (pre : List Char) : List (Key × Value) → List (List Char × Json)
  | [] => []
  | (k, v) :: es =>
    (match keyString F k with
      | none | some [] => []
      | some key => flattenLuaValue (entryName pre key) v) ++ flattenEntries pre es

end

/-- The globals of a chunk as a table. -/
def globalsTable (globals : List (List Char × Value)) : Entries :=
  globals.foldr (fun e es => es.set (fieldKey e.1) e.2) []

/-- What is inserted for a global. -/
def globalEntries (e : Key × Value) : List (List Char × Json) :=
  match keyString F e.1 with
  | some name => if name ∈ skippedGlobals then [] else flattenLuaValue F name e.2
  | none => []

/-- What is inserted. -/
def configEntries (globals : List (List Char × Value)) : List (List Char × Json) :=
  (globalsTable globals).flatMap (globalEntries F)

/-- The values `get_foothold_config` reports, `none` where Lua refuses the file. -/
def getFootholdConfig (content : List Char) : Option ConfigMap :=
  (readChunk F.round content).map fun globals => insertAll (fun _ => none) (configEntries F globals)

end

/-! ## The entries of a table -/

section
variable {F : NumberFormat}

@[simp] theorem keyString_fieldKey (key : List Char) : keyString F (fieldKey key) = some key := by
  simp [keyString, fieldKey]

/-- A value that is no table is reported under its own name. -/
theorem flattenLuaValue_scalar {v : Value} {j : Json} (h : scalarValue F v = some j)
    (name : List Char) : flattenLuaValue F name v = [(name, j)] := by
  cases v with
  | nil => cases h
  | table es => cases h
  | bool b => simp [flattenLuaValue, h]
  | number x => simp [flattenLuaValue, h]
  | string bytes => simp [flattenLuaValue, h]

theorem flattenEntries_append (pre : List Char) (es es' : Entries) :
    flattenEntries F pre (es ++ es') = flattenEntries F pre es ++ flattenEntries F pre es' := by
  induction es with
  | nil => rfl
  | cons e es ih =>
    obtain ⟨k, v⟩ := e
    simp [flattenEntries, ih]

theorem flattenEntries_field (pre : List Char) {key : List Char} (hkey : key ≠ []) (v : Value) :
    flattenEntries F pre [(fieldKey key, v)] = flattenLuaValue F (entryName pre key) v := by
  obtain ⟨c, s, rfl⟩ := List.exists_cons_of_ne_nil hkey
  simp [flattenEntries]

/-- What a new field adds. -/
theorem flattenEntries_set {es : Entries} {key : List Char} (hkey : key ≠ [])
    (h : fieldKey key ∉ es.map Prod.fst) (pre : List Char) (v : Value) :
    flattenEntries F pre (es.set (fieldKey key) v) =
      flattenEntries F pre es ++ flattenLuaValue F (entryName pre key) v := by
  rcases Entries.set_fresh h v with ⟨rfl, hset⟩ | hset
  · simp [hset, flattenLuaValue]
  · rw [hset, flattenEntries_append, flattenEntries_field pre hkey]

theorem globalsTable_keys {globals : List (List Char × Value)} {k : Key}
    (h : k ∈ (globalsTable globals).map Prod.fst) : ∃ e ∈ globals, k = fieldKey e.1 := by
  induction globals with
  | nil => simp [globalsTable] at h
  | cons e globals ih =>
    have hset : k ∈ (Entries.set (globalsTable globals) (fieldKey e.1) e.2).map Prod.fst := h
    rcases Entries.mem_keys_set hset with rfl | hk
    · exact ⟨e, by simp, rfl⟩
    · obtain ⟨e', he', rfl⟩ := ih hk
      exact ⟨e', by simp [he'], rfl⟩

/-- What a new global adds. -/
theorem configEntries_cons {globals : List (List Char × Value)} {x : List Char}
    (h : x ∉ globals.map Prod.fst) (v : Value) :
    configEntries F ((x, v) :: globals) =
      configEntries F globals ++ if x ∈ skippedGlobals then [] else flattenLuaValue F x v := by
  have hfresh : fieldKey x ∉ (globalsTable globals).map Prod.fst := fun hmem => by
    obtain ⟨e, he, hkey⟩ := globalsTable_keys hmem
    exact h (List.mem_map.mpr ⟨e, he, (fieldKey_inj.mp hkey).symm⟩)
  have hcons : globalsTable ((x, v) :: globals) = (globalsTable globals).set (fieldKey x) v := rfl
  rw [configEntries, hcons]
  rcases Entries.set_fresh hfresh v with ⟨rfl, hset⟩ | hset
  · rw [hset, ← configEntries]
    simp [flattenLuaValue]
  · rw [hset, List.flatMap_append, ← configEntries]
    simp [globalEntries]

end

end DcsDashboard.Foothold

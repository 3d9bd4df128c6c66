/-
# The on-screen message log of the mission

`screen_messages.lua` records every scripted on-screen message in a ring buffer and serves it
by cursor (`M.record`, `M.since`); `parse_screen_messages` reads the answer back from JSON.

A restart of the mission empties the log, and ids start at 1 again.  The log of one mission is
therefore described by everything recorded since its start: `LogOf log recorded` says that the
buffer is the newest `MAX_BUFFER` of `recorded` and that the `i`-th entry has id `i`.
-/
import DcsDashboard.Lib.Json
import DcsDashboard.Lib.Newest

namespace DcsDashboard.Screen

open Lib

/-! ## 1. The mission module -/

/-- Who could see a message. -/
inductive Scope
  | all
  | coalition
  | country
  | group
  | unit
  deriving DecidableEq

/-- The scope as the buffer stores it. -/
def Scope.name : Scope → String
  | .all => "all"
  | .coalition => "coalition"
  | .country => "country"
  | .group => "group"
  | .unit => "unit"

/-- The arguments of one recorded call, after `tonumber`, `tostring` and `== true`, and the
mission clock at the call. -/
structure Call where
  time : ℚ
  scope : Scope
  target : Option ℚ
  text : String
  duration : Option ℚ
  clearView : Bool
  deriving DecidableEq

/-- One entry of `M.buffer`. -/
structure Entry where
  id : Nat
  time : ℚ
  scope : Scope
  target : Option ℚ
  text : String
  duration : ℚ
  clearView : Bool
  deriving DecidableEq

/-- `M.MAX_BUFFER`. -/
def maxBuffer : Nat := 300

/-- The state `M.record` writes. -/
structure Log where
  nextId : Nat
  buffer : List Entry
  deriving DecidableEq

/-- The log of a mission that has just (re)started. -/
def Log.empty : Log := ⟨1, []⟩

/-- The entry `M.record` appends. -/
def Call.entry (c : Call) (id : Nat) : Entry :=
  ⟨id, c.time, c.scope, c.target, c.text, c.duration.getD 0, c.clearView⟩

/-- `M.record`. -/
def Log.record (log : Log) (c : Call) : Log where
  nextId := log.nextId + 1
  buffer := dropOldest maxBuffer (log.buffer ++ [c.entry log.nextId])

/-- What `M.since` returns. -/
structure Since where
  messages : List Entry
  last : Nat

/-- `M.since`: the entries above the cursor, or everything for a cursor ahead of the log. -/
def Log.since (log : Log) (fromId : Nat) : Since :=
  let last := log.nextId - 1
  let fromId := if last < fromId then 0 else fromId
  ⟨log.buffer.filter fun m => fromId < m.id, last⟩

/-! ## 2. The answer as JSON, and back -/

/-- One row of the answer.  A nil `target` is absent. -/
def Entry.toJson (m : Entry) : Json :=
  .obj ([("id", .num m.id), ("time", .num m.time), ("scope", .str m.scope.name)] ++
    (m.target.map fun t => ("target", Json.num t)).toList ++
    [("text", .str m.text), ("duration", .num m.duration), ("clear_view", .bool m.clearView)])

/-- The table `M.since` returns, as the Eval transports it. -/
def Since.toJson (s : Since) : Json :=
  .obj [("messages", .arr (s.messages.map Entry.toJson)), ("last", .num s.last)]

/-- One message of `GET /api/screen-messages`. -/
structure ScreenMessage where
  id : Nat
  time : ℚ
  scope : String
  target : Option ℤ
  text : String
  duration : ℚ
  clear_view : Bool
  deriving DecidableEq

/-- `ScreenMessagesResponse`. -/
structure ScreenMessagesResponse where
  messages : List ScreenMessage
  last : Nat

/-- `num_u64`. -/
def numU64 (value : Option Json) : Nat :=
  ((value.bind Json.asF64).map fun f => asU64 (max f 0)).getD 0

/-- `num_f64`. -/
def numF64 (value : Option Json) : ℚ := (value.bind Json.asF64).getD 0

/-- `str_of`. -/
def strOf (value : Option Json) : String := (value.bind Json.asStr).getD ""

/-- One row of the answer, read back. -/
def parseRow (row : Json) : ScreenMessage where
  id := numU64 (row.get "id")
  time := numF64 (row.get "time")
  scope := strOf (row.get "scope")
  target := ((row.get "target").bind Json.asF64).map asI64
  text := strOf (row.get "text")
  duration := numF64 (row.get "duration")
  clear_view := ((row.get "clear_view").bind Json.asBool).getD false

/-- `parse_screen_messages`: rows without an id are skipped, a missing `last` leaves the
cursor. -/
def parseScreenMessages (json : Json) (fromId : Nat) : ScreenMessagesResponse where
  messages := (((json.get "messages").bind Json.asArray).map fun rows =>
    (rows.filter fun row => (row.get "id").isSome).map parseRow).getD []
  last := ((json.get "last").map fun l => numU64 (some l)).getD fromId

/-- An entry as the page receives it. -/
def Entry.served (m : Entry) : ScreenMessage :=
  ⟨m.id, m.time, m.scope.name, m.target.map asI64, m.text, m.duration, m.clearView⟩

theorem numU64_natCast {n : Nat} (h : n < 2 ^ 64) : numU64 (some (.num n)) = n := by
  simp [numU64, Json.asF64, asU64_natCast h]

theorem parseRow_toJson {m : Entry} (h : m.id < 2 ^ 64) : parseRow m.toJson = m.served := by
  have hid : m.toJson.get "id" = some (.num m.id) := by simp [Entry.toJson, Json.get]
  cases ht : m.target <;>
    simp [parseRow, Entry.served, Entry.toJson, Json.get, List.lookup_cons, numU64_natCast h, numF64,
      strOf, Json.asF64, Json.asStr, Json.asBool, ht]

/-- **The transport loses nothing.**  While ids fit a `u64`, the page receives every entry the
mission served and the mission's own cursor. -/
theorem parseScreenMessages_toJson {s : Since} {fromId : Nat} (hlast : s.last < 2 ^ 64)
    (hid : ∀ m ∈ s.messages, m.id < 2 ^ 64) :
    parseScreenMessages s.toJson fromId = ⟨s.messages.map Entry.served, s.last⟩ := by
  have hsome : ∀ m : Entry, (m.toJson.get "id").isSome = true := by
    intro m; simp [Entry.toJson, Json.get]
  have hrows : ((s.messages.map Entry.toJson).filter fun row => (row.get "id").isSome).map parseRow
      = s.messages.map Entry.served := by
    rw [List.filter_eq_self.mpr (by simp [hsome]), List.map_map]
    exact List.map_congr_left fun m hm => parseRow_toJson (hid m hm)
  have hm : s.toJson.get "messages" = some (.arr (s.messages.map Entry.toJson)) := by
    simp [Since.toJson, Json.get]
  have hl : s.toJson.get "last" = some (.num s.last) := by
    simp [Since.toJson, Json.get, List.lookup_cons]
  simp only [parseScreenMessages, hm, hl, Json.asArray, Option.bind_some, Option.map_some,
    Option.getD_some, hrows, numU64_natCast hlast]

/-! ## 3. The log of one mission -/

/-- `log` is the log of a mission in which exactly `recorded` has been recorded. -/
structure LogOf (log : Log) (recorded : List Entry) : Prop where
  nextId : log.nextId = recorded.length + 1
  buffer : log.buffer = newest maxBuffer recorded
  ids : recorded.map Entry.id = List.range' 1 recorded.length

theorem logOf_empty : LogOf Log.empty [] := ⟨rfl, by simp [Log.empty], rfl⟩

/-- **Recording extends the log.** -/
theorem LogOf.record {log : Log} {recorded : List Entry} (h : LogOf log recorded) (c : Call) :
    LogOf (log.record c) (recorded ++ [c.entry log.nextId]) where
  nextId := by simp [Log.record, h.nextId]
  buffer := by
    simp only [Log.record, dropOldest_eq_newest, h.buffer, newest_append_newest]
  ids := by
    simp [h.ids, Call.entry, h.nextId, List.range'_concat, Nat.add_comm]

theorem LogOf.last {log : Log} {recorded : List Entry} (h : LogOf log recorded) :
    log.nextId - 1 = recorded.length := by rw [h.nextId]; omega

/-- The `i`-th recorded entry has id `i + 1`. -/
theorem LogOf.id_getElem {log : Log} {recorded : List Entry} (h : LogOf log recorded) {i : Nat}
    (hi : i < recorded.length) : recorded[i].id = i + 1 := by
  have hget : (recorded.map Entry.id)[i]? = (List.range' 1 recorded.length)[i]? := by rw [h.ids]
  simpa [hi, Nat.add_comm] using hget

theorem LogOf.id_le {log : Log} {recorded : List Entry} (h : LogOf log recorded) {m : Entry}
    (hm : m ∈ recorded) : m.id ≤ recorded.length := by
  obtain ⟨i, hi, rfl⟩ := List.mem_iff_getElem.mp hm
  rw [h.id_getElem hi]
  omega

/-- The entries above a cursor are those recorded after it. -/
theorem LogOf.filter_above {log : Log} {recorded : List Entry} (h : LogOf log recorded)
    (n k : Nat) : (recorded.drop k).filter (fun m => n < m.id) = recorded.drop (max k n) := by
  rcases Nat.le_total n k with hnk | hkn
  · rw [Nat.max_eq_left hnk, List.filter_eq_self]
    intro m hm
    obtain ⟨i, hi, rfl⟩ := List.mem_iff_getElem.mp hm
    rw [List.getElem_drop, h.id_getElem]
    exact decide_eq_true (by omega)
  · rw [Nat.max_eq_right hkn, show recorded.drop k
      = (recorded.drop k).take (n - k) ++ recorded.drop n by
        rw [show recorded.drop n = (recorded.drop k).drop (n - k) by
          rw [List.drop_drop]; congr 1; omega, List.take_append_drop]]
    rw [List.filter_append, List.filter_eq_nil_iff.mpr, List.nil_append, List.filter_eq_self]
    · intro m hm
      obtain ⟨i, hi, rfl⟩ := List.mem_iff_getElem.mp hm
      rw [List.getElem_drop, h.id_getElem]
      exact decide_eq_true (by omega)
    · intro m hm
      obtain ⟨i, hi, rfl⟩ := List.mem_iff_getElem.mp hm
      rw [List.getElem_take, List.getElem_drop, h.id_getElem]
      rw [List.length_take, List.length_drop] at hi
      simp only [decide_eq_true_eq]
      omega

/-- **What a poll is served.**  For a cursor of this mission, what was recorded after it and
is still buffered; for a cursor ahead of the log, the whole buffer. -/
theorem LogOf.since {log : Log} {recorded : List Entry} (h : LogOf log recorded) (n : Nat) :
    log.since n = ⟨recorded.drop (max (recorded.length - maxBuffer)
      (if recorded.length < n then 0 else n)), recorded.length⟩ := by
  simp only [Log.since, h.last, h.buffer, newest, h.filter_above]

end DcsDashboard.Screen

/-
# The audit log

`auth.rs`: `append_audit` reads the whole log file, puts the new entry in front, cuts the list
to `MAX_AUDIT_LOGS` and writes the file back.  Every login attempt does this, with suspension
points between the read and the write and no lock, so concurrent calls are requests of
`Lib.ReadModifyWrite`: when no other call writes between the read and the write of one, every
entry is kept (`audit_complete`), and when one does, its entry goes (`audit_entry_lost`).

A file is given by the JSON value in it; a text that is not JSON reads as no entries.
-/
import DcsDashboard.Lib.Json
import DcsDashboard.Lib.ReadModifyWrite

namespace DcsDashboard.Auth

open Lib Lib.ReadModifyWrite

/-! ## 1. Entries -/

/-- `MAX_AUDIT_LOGS`. -/
def maxAuditLogs : Nat := 1000

/-- `AuditLog`. -/
structure AuditLog where
  timestampMs : Int64
  username : String
  userId : String
  status : String
  reason : Option String
  deriving DecidableEq

/-- `Serialize for AuditLog`; a missing reason is left out. -/
def AuditLog.toJson (entry : AuditLog) : Json :=
  .obj ([("timestamp_ms", .num entry.timestampMs.toInt), ("username", .str entry.username),
    ("user_id", .str entry.userId), ("status", .str entry.status)] ++
      match entry.reason with
      | some reason => [("reason", .str reason)]
      | none => [])

/-- An integer of 64 bits. -/
def asI64 : Json → Option Int64
  | .num n =>
    if n.den = 1 ∧ -2 ^ 63 ≤ n.num ∧ n.num < 2 ^ 63 then some (Int64.ofInt n.num) else none
  | _ => none

/-- An optional text: absent or `null` is none. -/
def asOptionalStr : Option Json → Option (Option String)
  | none => some none
  | some .null => some none
  | some v => v.asStr.map some

/-- `Deserialize for AuditLog`. -/
def AuditLog.fromJson (v : Json) : Option AuditLog := do
  let timestampMs ← (v.get "timestamp_ms").bind asI64
  let username ← (v.get "username").bind Json.asStr
  let userId ← (v.get "user_id").bind Json.asStr
  let status ← (v.get "status").bind Json.asStr
  let reason ← asOptionalStr (v.get "reason")
  return { timestampMs, username, userId, status, reason }

theorem asI64_num (n : Int64) : asI64 (.num n.toInt) = some n := by
  have hlow : -2 ^ 63 ≤ n.toInt := n.le_toInt
  have hhigh : n.toInt < 2 ^ 63 := n.toInt_lt
  simp only [asI64, Rat.den_intCast, Rat.num_intCast, true_and, Int64.ofInt_toInt]
  exact if_pos ⟨hlow, hhigh⟩

/-- **An entry is read back as it was written.** -/
theorem AuditLog.fromJson_toJson (entry : AuditLog) : fromJson entry.toJson = some entry := by
  obtain ⟨t, username, userId, status, _ | reason⟩ := entry <;>
    simp [fromJson, toJson, Json.get, List.lookup_cons, asI64_num, Json.asStr, asOptionalStr]

/-! ## 2. The file -/

/-- The log file: it may be missing, and its text may not be JSON. -/
inductive AuditFile
  | missing
  | text (value : Option Json)

/-- `serde_json::from_slice::<Vec<AuditLog>>`. -/
def parseLogs (value : Option Json) : Option (List AuditLog) :=
  value.bind fun v => v.asArray.bind fun items => items.mapM AuditLog.fromJson

/-- The entries of a file, newest first: `read_audit_logs`, and the first half of
`append_audit`. -/
def readAuditLogs : AuditFile → List AuditLog
  | .missing => []
  | .text value => (parseLogs value).getD []

/-- The file with the given entries. -/
def writeLogs (logs : List AuditLog) : AuditFile := .text (some (.arr (logs.map AuditLog.toJson)))

/-- `append_audit`: the file after it. -/
def appendAudit (entry : AuditLog) (file : AuditFile) : AuditFile :=
  writeLogs ((entry :: readAuditLogs file).take maxAuditLogs)

/-- The file is a log. -/
def ValidLog (file : AuditFile) (logs : List AuditLog) : Prop :=
  ∃ value, file = .text value ∧ parseLogs value = some logs

@[simp] theorem readAuditLogs_writeLogs (logs : List AuditLog) :
    readAuditLogs (writeLogs logs) = logs := by
  have hall : (logs.map AuditLog.toJson).mapM AuditLog.fromJson = some logs := by
    induction logs with
    | nil => rfl
    | cons entry logs ih => simp [AuditLog.fromJson_toJson, ih]
  simp [readAuditLogs, writeLogs, parseLogs, Json.asArray, hall]

@[simp] theorem readAuditLogs_appendAudit (entry : AuditLog) (file : AuditFile) :
    readAuditLogs (appendAudit entry file) = (entry :: readAuditLogs file).take maxAuditLogs :=
  readAuditLogs_writeLogs _

/-! ## 3. Concurrent calls -/

section

variable {ι : Type*} [DecidableEq ι]

/-- `record_audit` of one entry each. -/
def recordAudit (entries : ι → AuditLog) : Edit ι AuditFile Empty :=
  fun i file => .ok (some (appendAudit (entries i) file))

omit [DecidableEq ι] in
/-- One call after the other: the newest of all entries. -/
theorem serial_recordAudit {entries : ι → AuditLog} {E : ι → AuditFile → Prop}
    {file final : AuditFile} {order : List ι}
    (h : Serial (recordAudit entries) E file order final) :
    (order = [] ∧ final = file) ∨
      readAuditLogs final =
        (order.reverse.map entries ++ readAuditLogs file).take maxAuditLogs := by
  refine h.invariant (P := fun order c => (order = [] ∧ c = file) ∨
    readAuditLogs c = (order.reverse.map entries ++ readAuditLogs file).take maxAuditLogs)
    (.inl ⟨rfl, rfl⟩) ?_ ?_
  · intro order c i ih _ he
    cases he
  · intro order c c' i ih _ he
    cases he
    right
    rcases ih with ⟨rfl, rfl⟩ | ih
    · simp
    · rw [readAuditLogs_appendAudit, ih]
      simp [maxAuditLogs, List.take_take]

/-- **The audit trail.**  When every write finds the file as its call read it, the log ends with
the newest of all entries, those recorded in the order of the writes before the earlier ones. -/
theorem audit_complete {entries : ι → AuditLog} {file : AuditFile} {earlier : List AuditLog}
    (hvalid : ValidLog file earlier) {acts : List (Act ι)} {t : Shared ι AuditFile}
    (h : Run (step (recordAudit entries)) (Undisturbed fun _ _ => True) (initial ι file) acts t)
    (hdone : ∀ i, t.phase i = .finished true) :
    ∃ order : List ι, order.Nodup ∧ (∀ i, i ∈ order) ∧
      (order = [] → t.cell = file) ∧
      (order ≠ [] →
        readAuditLogs t.cell = (order.reverse.map entries ++ earlier).take maxAuditLogs) := by
  obtain ⟨order, hserial, hnodup, hmem⟩ := serializable h
  have hearlier : readAuditLogs file = earlier := by
    obtain ⟨value, rfl, hvalue⟩ := hvalid
    simp [readAuditLogs, hvalue]
  refine ⟨order, hnodup, fun i => (hmem i).mpr (hdone i), ?_, ?_⟩
  · rintro rfl
    exact hserial.eq_of_nil
  · intro hne
    rw [(serial_recordAudit hserial).resolve_left fun hnil => hne hnil.1, hearlier]

/-- An entry of a login at some moment. -/
def loginAt (ms : Int64) : AuditLog :=
  { timestampMs := ms, username := "pilot", userId := "1", status := "SUCCESS", reason := none }

/-- Two logins whose writes do not disturb each other. -/
theorem audit_complete_twoLogins :
    ∃ t, Run (step (recordAudit fun i : Bool => loginAt (if i then 2 else 1)))
        (Undisturbed fun _ _ => True) (initial (Bool) (writeLogs [loginAt 0]))
        [.read false, .write false, .read true, .write true] t ∧
      ∃ order : List (Bool), order.Nodup ∧ (∀ i, i ∈ order) ∧
        (order = [] → t.cell = writeLogs [loginAt 0]) ∧
        (order ≠ [] → readAuditLogs t.cell =
          (order.reverse.map (fun i => loginAt (if i then 2 else 1)) ++
            [loginAt 0]).take maxAuditLogs) := by
  let entries : Bool → AuditLog := fun i => loginAt (if i then 2 else 1)
  have hrun : ∃ t, Run (step (recordAudit entries)) (Undisturbed fun _ _ => True)
      (initial (Bool) (writeLogs [loginAt 0]))
        [.read false, .write false, .read true, .write true] t ∧
      ∀ i, t.phase i = .finished true := by
    refine ⟨_, .cons trivial rfl (.cons ?_ rfl (.cons trivial rfl (.single ?_ rfl))), ?_⟩
    · intro seen new heq
      cases heq
      rfl
    · intro seen new heq
      cases heq
      rfl
    · intro i
      cases i <;> rfl
  obtain ⟨t, hrun, hdone⟩ := hrun
  have hvalid : ValidLog (writeLogs [loginAt 0]) [loginAt 0] :=
    ⟨_, rfl, by decide +kernel⟩
  exact ⟨t, hrun, audit_complete hvalid hrun hdone⟩

/-- **An entry is lost** when another call writes between the read and the write of one. -/
theorem audit_entry_lost :
    ∃ t, Run (step (recordAudit fun i : Bool => loginAt (if i then 2 else 1))) Always
        (initial (Bool) (writeLogs [loginAt 0]))
          [.read false, .read true, .write false, .write true] t ∧
      (∀ i, t.phase i = .finished true) ∧ loginAt 1 ∉ readAuditLogs t.cell := by
  refine ⟨_, .cons trivial rfl (.cons trivial rfl (.cons trivial rfl (.single trivial rfl))),
    ?_, ?_⟩
  · intro i
    cases i <;> rfl
  · decide +kernel

end

end DcsDashboard.Auth

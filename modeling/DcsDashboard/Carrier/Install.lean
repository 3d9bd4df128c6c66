/-
# Installing the controller

A request of `carrier_recovery.rs` is a pair of scripts.  The PROBE runs the controller call when
the mission has the module at the expected version and answers `needs_install` otherwise; the
INSTALL script runs the module's body first where it has to, then the call.  `eval_installable`
sends the probe and, only when it is asked to, the install script.

Requests, restarts of the mission and the mission's own calls of the module interleave in any
order, and an Eval may fail before or after its script ran.  In every run a request that returns
has run its call exactly once and at the expected version, no mission run executes the body twice,
and the body takes nothing away from the state it finds (`probe_then_install`).

What a controller call does to the module's state is a parameter: any change of that state, and
any answer with the keys the source's answers have.
-/
import DcsDashboard.Lib.Json
import DcsDashboard.Lib.Runs
import Mathlib.Data.List.Basic

namespace DcsDashboard.Carrier.Install

open Lib

/-! ## 1. The module -/

/-- What the body of the module keeps of an earlier load, field by field; a field is absent until
it is first set.  `T` is the type of Lua tables. -/
structure Kept (T : Type*) where
  active : Option T
  generation : Option ℤ
  captured : Option T
  overrides : Option T
  groupOverrides : Option T
  menus : Option T

/-- The Lua global `CarrierRecovery`, where it is set. -/
structure Module (T : Type*) where
  version : Option String
  kept : Kept T

/-- `MODULE_VERSION`, which is `M.VERSION` of the module's source. -/
def moduleVersion : String := "1.2.0"

/-- `NEEDS_INSTALL_KEY`. -/
def needsInstallKey : String := "needs_install"

section

variable {T : Type*}

/-- The empty table. -/
def Module.empty : Module T := ⟨none, ⟨none, none, none, none, none, none⟩⟩

variable [EmptyCollection T]

/-- The module's body: `CarrierRecovery = CarrierRecovery or {}`, the version, and for each kept
field `M.field = M.field or {}`. -/
def moduleBody (existing : Option (Module T)) : Module T :=
  let M := existing.getD .empty
  { version := some moduleVersion
    kept :=
      { active := some (M.kept.active.getD ∅)
        generation := some (M.kept.generation.getD 0)
        captured := some (M.kept.captured.getD ∅)
        overrides := some (M.kept.overrides.getD ∅)
        groupOverrides := some (M.kept.groupOverrides.getD ∅)
        menus := some (M.kept.menus.getD ∅) } }

omit [EmptyCollection T] in
/-- `version_check`. -/
def versionCheck (carrierRecovery : Option (Module T)) : Bool :=
  carrierRecovery.any fun M => M.version == some moduleVersion

/-- Every field that is there stays as it is. -/
structure Kept.Keeps (before after : Kept T) : Prop where
  active : ∀ t, before.active = some t → after.active = some t
  generation : ∀ n, before.generation = some n → after.generation = some n
  captured : ∀ t, before.captured = some t → after.captured = some t
  overrides : ∀ t, before.overrides = some t → after.overrides = some t
  groupOverrides : ∀ t, before.groupOverrides = some t → after.groupOverrides = some t
  menus : ∀ t, before.menus = some t → after.menus = some t

/-- **The body takes nothing away.** -/
theorem moduleBody_keeps (M : Module T) : M.kept.Keeps (moduleBody (some M)).kept := by
  constructor <;>
    · intro x hx
      simp [moduleBody, hx]

@[simp] theorem versionCheck_moduleBody (existing : Option (Module T)) :
    versionCheck (some (moduleBody existing)) = true := by
  simp [versionCheck, moduleBody]

omit [EmptyCollection T] in
theorem versionCheck_some {M : Module T} :
    versionCheck (some M) = true ↔ M.version = some moduleVersion := by
  simp [versionCheck]

end

/-! ## 2. Calls and their answers -/

/-- `carrier_recovery::Action`. -/
inductive Action
  | start
  | resume
  | status
  deriving DecidableEq

/-- The controller calls scripts are built for. -/
inductive ControllerCall
  | action (action : Action) (group : String)
  | windReport (group : String)
  | windReports (groups : List String)
  | listCarriers
  | groupConfig (group : String) (targetWodKt : ℚ)
  deriving DecidableEq

/-- The keys a call's answer can have at its top level. -/
def answerKeys : ControllerCall → List String
  | .action .start _ => ["ok", "message"]
  | .action .resume _ => ["ok", "message"]
  | .action .status _ =>
    ["error", "carrier_name", "backend", "phase", "state", "course", "wind_from", "wind_speed",
      "headwind", "wod", "ship_speed", "recovery_heading", "recovery_speed", "regime", "target_wod",
      "deck_offset", "remaining_sec", "text"]
  | .windReport _ =>
    ["error", "carrier_name", "type_name", "deck_class", "coalition", "recovery_phase", "carrier_u",
      "carrier_v", "brc", "ship_spd", "tw_dir", "tw_spd", "headwind", "wod", "target_wod",
      "recovery_heading", "recovery_speed", "regime", "deck_offset", "min_speed", "max_speed",
      "angled_deck_min_wind", "backend"]
  | .windReports _ => ["reports"]
  | .listCarriers => ["carriers", "version"]
  | .groupConfig _ _ => ["error", "carrier_name", "target_wod", "backend"]

/-- No answer has the key of the marker. -/
theorem needsInstallKey_notMem_answerKeys (call : ControllerCall) :
    needsInstallKey ∉ answerKeys call := by
  cases call with
  | action action group => cases action <;> simp [answerKeys, needsInstallKey]
  | windReport group => simp [answerKeys, needsInstallKey]
  | windReports groups => simp [answerKeys, needsInstallKey]
  | listCarriers => simp [answerKeys, needsInstallKey]
  | groupConfig group target => simp [answerKeys, needsInstallKey]

/-- A Lua table with text keys, as a script returns it. -/
abbrev Answer := List (String × Json)

/-- The table the probe returns when the module must be installed. -/
def marker : Answer := [(needsInstallKey, .bool true)]

/-- What the module's functions do, in a world `W` the simulator decides: a call changes the kept
state and returns an answer, or raises a Lua error. -/
structure Controller (W T : Type*) where
  run : W → ControllerCall → Kept T → Kept T × Option Answer
  keys : ∀ world call kept answer, (run world call kept).2 = some answer →
    ∀ member ∈ answer, member.1 ∈ answerKeys call

/-- From a script's table to the value the server has: the JSON text DCS-gRPC makes of it, parsed,
`null` when it does not parse.  The marker arrives, and no key is made up. -/
structure Transport where
  reply : Answer → Json
  reply_marker : reply marker = .obj marker
  keys : ∀ answer key, ((reply answer).get key).isSome → key ∈ answer.map Prod.fst

/-- `needs_install`. -/
def needsInstall (value : Json) : Bool := (value.get needsInstallKey).bind Json.asBool == some true

theorem needsInstall_marker (transport : Transport) :
    needsInstall (transport.reply marker) = true := by
  rw [transport.reply_marker]
  simp [needsInstall, marker, Json.get, Json.asBool]

/-- The answer of a call never asks for an install. -/
theorem needsInstall_answer {W T : Type*} {controller : Controller W T} (transport : Transport)
    {world : W} {call : ControllerCall} {kept : Kept T} {answer : Answer}
    (h : (controller.run world call kept).2 = some answer) :
    needsInstall (transport.reply answer) = false := by
  have habsent : (transport.reply answer).get needsInstallKey = none := by
    by_contra hsome
    have hkey := transport.keys answer needsInstallKey (Option.isSome_iff_ne_none.mpr hsome)
    obtain ⟨member, hmember, hfst⟩ := List.mem_map.mp hkey
    have hlisted := controller.keys world call kept answer h member hmember
    rw [hfst] at hlisted
    exact needsInstallKey_notMem_answerKeys call hlisted
  simp [needsInstall, habsent]

/-! ## 3. The scripts -/

/-- What a script executes, besides the changes it makes: the body, with the global before and
after it, and a call, with the version the module has at that moment. -/
inductive Event (T : Type*)
  | body (before : Option (Module T)) (after : Module T)
  | call (call : ControllerCall) (version : Option String)

/-- A script that has run: the global it leaves, the table it returns, `none` when it raised an
error, and what it executed. -/
structure Evaluated (T : Type*) where
  carrierRecovery : Option (Module T)
  result : Option Answer
  ran : List (Event T)

section

variable {W T : Type*} (controller : Controller W T) (world : W) (call : ControllerCall)

/-- The text of a call: without the global it raises an error. -/
def evalCall : Option (Module T) → Evaluated T
  | none => ⟨none, none, []⟩
  | some M =>
    let (kept, answer) := controller.run world call M.kept
    ⟨some { M with kept }, answer, [.call call M.version]⟩

/-- `Scripts::probe`. -/
def probe (carrierRecovery : Option (Module T)) : Evaluated T :=
  if versionCheck carrierRecovery then evalCall controller world call carrierRecovery
  else ⟨carrierRecovery, some marker, []⟩

/-- `Scripts::install`. -/
def install [EmptyCollection T] (carrierRecovery : Option (Module T)) : Evaluated T :=
  if versionCheck carrierRecovery then evalCall controller world call carrierRecovery
  else
    let M := moduleBody carrierRecovery
    let rest := evalCall controller world call (some M)
    { rest with ran := .body carrierRecovery M :: rest.ran }

variable {controller world call}

/-- A call on a module at the expected version: the version stays, and the call is what was
executed. -/
theorem evalCall_of_versionCheck {carrierRecovery : Option (Module T)}
    (h : versionCheck carrierRecovery = true) :
    versionCheck (evalCall controller world call carrierRecovery).carrierRecovery = true ∧
      (evalCall controller world call carrierRecovery).ran = [.call call (some moduleVersion)] := by
  cases carrierRecovery with
  | none => cases h
  | some M =>
    have hversion : M.version = some moduleVersion := versionCheck_some.mp h
    exact ⟨versionCheck_some.mpr hversion, by simp [evalCall, hversion]⟩

theorem needsInstall_evalCall (transport : Transport) {carrierRecovery : Option (Module T)}
    {answer : Answer} (h : (evalCall controller world call carrierRecovery).result = some answer) :
    needsInstall (transport.reply answer) = false := by
  cases carrierRecovery with
  | none => cases h
  | some M => exact needsInstall_answer transport h

end

/-! ## 4. The requests -/

/-- Where a request of `eval_installable` stands. -/
inductive Phase
  | idle
  | asked
  | returned (value : Json)
  | failed

/-- What becomes of an Eval: its reply arrives, its script ran but the reply is lost, or the script
never ran. -/
inductive Outcome
  | replied
  | lost
  | unreached
  deriving DecidableEq

/-- The mission and the requests.  `log` is everything executed so far, with the mission run and
the request that executed it. -/
structure State (ι T : Type*) where
  carrierRecovery : Option (Module T)
  missionRun : ℕ
  phase : ι → Phase
  log : List (ℕ × ι × Event T)

/-- A request takes its next step, the mission starts anew with what it loads itself, or the
mission's own timers and menus change the module's state. -/
inductive Act (ι W T : Type*)
  | probe (i : ι) (world : W) (outcome : Outcome)
  | install (i : ι) (world : W) (outcome : Outcome)
  | restart (loaded : Option (Module T))
  | mission (change : Kept T → Kept T)

section

variable {ι W T : Type*}

/-- The calls a request has executed, each with the version it found. -/
def callsOf [DecidableEq ι] (i : ι) (log : List (ℕ × ι × Event T)) :
    List (ControllerCall × Option String) :=
  log.filterMap fun
    | (_, j, .call call version) => if j = i then some (call, version) else none
    | (_, _, .body _ _) => none

/-- The executions of the body in a mission run. -/
def bodiesOf (run : ℕ) (log : List (ℕ × ι × Event T)) : List (Option (Module T) × Module T) :=
  log.filterMap fun
    | (k, _, .body before after) => if k = run then some (before, after) else none
    | (_, _, .call _ _) => none

/-- The server after the reply to a probe. -/
def afterProbe (transport : Transport) : Option Answer → Phase
  | none => .failed
  | some answer =>
    let first := transport.reply answer
    if needsInstall first then .asked else .returned first

/-- The server after the reply to an install script. -/
def afterInstall (transport : Transport) : Option Answer → Phase
  | none => .failed
  | some answer => .returned (transport.reply answer)

variable [DecidableEq ι]

/-- An Eval of request `i`. -/
def State.eval (s : State ι T) (i : ι) (script : Evaluated T) (after : Option Answer → Phase) :
    Outcome → State ι T
  | .unreached => { s with phase := Function.update s.phase i .failed }
  | .lost =>
    { s with
      carrierRecovery := script.carrierRecovery
      phase := Function.update s.phase i .failed
      log := s.log ++ script.ran.map fun event => (s.missionRun, i, event) }
  | .replied =>
    { s with
      carrierRecovery := script.carrierRecovery
      phase := Function.update s.phase i (after script.result)
      log := s.log ++ script.ran.map fun event => (s.missionRun, i, event) }

variable [EmptyCollection T] (controller : Controller W T) (transport : Transport)
  (calls : ι → ControllerCall)

/-- One step; `calls i` is the controller call of request `i`. -/
def step (s : State ι T) : Act ι W T → Option (State ι T)
  | .probe i world outcome =>
    match s.phase i with
    | .idle => some (s.eval i (probe controller world (calls i) s.carrierRecovery)
        (afterProbe transport) outcome)
    | _ => none
  | .install i world outcome =>
    match s.phase i with
    | .asked => some (s.eval i (install controller world (calls i) s.carrierRecovery)
        (afterInstall transport) outcome)
    | _ => none
  | .restart loaded =>
    some { s with carrierRecovery := loaded, missionRun := s.missionRun + 1 }
  | .mission change =>
    some { s with
      carrierRecovery := s.carrierRecovery.map fun M => { M with kept := change M.kept } }

omit [DecidableEq ι] [EmptyCollection T] in
/-- No request has begun, in a mission that has loaded what it loads. -/
def initial (ι : Type*) (loaded : Option (Module T)) : State ι T :=
  { carrierRecovery := loaded, missionRun := 0, phase := fun _ => .idle, log := [] }

end

/-! ## 5. What a script executes -/

section

variable {W T : Type*} [EmptyCollection T]

/-- What a script of a request executes: nothing, its call on the module it found, or the body and
then its call. -/
inductive Executed (call : ControllerCall) (found : Option (Module T)) : Evaluated T → Prop
  | nothing {result : Option Answer} : Executed call found ⟨found, result, []⟩
  | call {left : Option (Module T)} {result : Option Answer} :
      versionCheck found = true → versionCheck left = true →
      Executed call found ⟨left, result, [.call call (some moduleVersion)]⟩
  | body {left : Option (Module T)} {result : Option Answer} :
      versionCheck found = false → versionCheck left = true →
      Executed call found
        ⟨left, result, [.body found (moduleBody found), .call call (some moduleVersion)]⟩

/-- Where a request may stand after a script: it asks again only when nothing was executed, and
returns only when something was. -/
inductive Settled (script : Evaluated T) : Phase → Prop
  | failed : Settled script .failed
  | asked : script.ran = [] → Settled script .asked
  | returned (value : Json) : script.ran ≠ [] → Settled script (.returned value)

variable (controller : Controller W T) (transport : Transport) (world : W) (call : ControllerCall)
  (found : Option (Module T))

/-- The call alone, on a module at the expected version. -/
theorem executed_evalCall (hfound : versionCheck found = true) :
    Executed call found (evalCall controller world call found) := by
  have hcall : versionCheck (evalCall controller world call found).carrierRecovery = true ∧
      (evalCall controller world call found).ran = [.call call (some moduleVersion)] :=
    evalCall_of_versionCheck hfound
  generalize evalCall controller world call found = script at hcall ⊢
  obtain ⟨left, result, ran⟩ := script
  obtain ⟨hleft, rfl⟩ := hcall
  exact .call hfound hleft

theorem executed_probe : Executed call found (probe controller world call found) := by
  unfold probe
  split
  · next hfound => exact executed_evalCall controller world call found hfound
  · exact .nothing

theorem executed_install : Executed call found (install controller world call found) := by
  unfold install
  split
  · next hfound => exact executed_evalCall controller world call found hfound
  · next hfound =>
    have hcall : versionCheck
          (evalCall controller world call (some (moduleBody found))).carrierRecovery = true ∧
        (evalCall controller world call (some (moduleBody found))).ran =
          [.call call (some moduleVersion)] :=
      evalCall_of_versionCheck (versionCheck_moduleBody found)
    dsimp only
    rw [hcall.2]
    exact .body (by simpa using hfound) hcall.1

omit [EmptyCollection T] in
theorem settled_afterProbe : Settled (probe controller world call found)
    (afterProbe transport (probe controller world call found).result) := by
  cases hfound : versionCheck found with
  | false =>
    have hprobe : probe controller world call found = ⟨found, some marker, []⟩ := by
      simp [probe, hfound]
    rw [hprobe]
    simp only [afterProbe, needsInstall_marker, if_true]
    exact .asked rfl
  | true =>
    have hprobe : probe controller world call found = evalCall controller world call found := by
      simp [probe, hfound]
    have hran : (evalCall controller world call found).ran ≠ [] := by
      rw [(evalCall_of_versionCheck hfound).2]
      simp
    rw [hprobe]
    cases hresult : (evalCall controller world call found).result with
    | none => exact .failed
    | some answer =>
      simp only [afterProbe, needsInstall_evalCall transport hresult, Bool.false_eq_true, if_false]
      exact .returned _ hran

theorem settled_afterInstall : Settled (install controller world call found)
    (afterInstall transport (install controller world call found).result) := by
  have hran : (install controller world call found).ran ≠ [] := by
    unfold install
    split
    · next hfound =>
      rw [(evalCall_of_versionCheck hfound).2]
      simp
    · simp
  cases (install controller world call found).result with
  | none => exact .failed
  | some answer => exact .returned _ hran

end

/-! ## 6. What a run keeps -/

section

variable {ι W T : Type*} [DecidableEq ι] [EmptyCollection T]

omit [DecidableEq ι] [EmptyCollection T] in
theorem bodiesOf_append (run : ℕ) (log log' : List (ℕ × ι × Event T)) :
    bodiesOf run (log ++ log') = bodiesOf run log ++ bodiesOf run log' :=
  List.filterMap_append

omit [EmptyCollection T] in
theorem callsOf_append (i : ι) (log log' : List (ℕ × ι × Event T)) :
    callsOf i (log ++ log') = callsOf i log ++ callsOf i log' :=
  List.filterMap_append

/-- What holds of the missions: while the body has run in the current one, the module is there. -/
structure BodyOnce (s : State ι T) : Prop where
  current : bodiesOf s.missionRun s.log = [] ∨ versionCheck s.carrierRecovery = true
  later : ∀ run, s.missionRun < run → bodiesOf run s.log = []
  once : ∀ run, (bodiesOf run s.log).length ≤ 1
  keeps : ∀ run before after, (some before, after) ∈ bodiesOf run s.log →
    before.kept.Keeps after.kept

/-- What holds of one request: it has not called before its last script, and a request that has
returned has called once. -/
structure CalledOnce (call : ControllerCall) (phase : Phase)
    (executed : List (ControllerCall × Option String)) : Prop where
  idle : phase = .idle → executed = []
  asked : phase = .asked → executed = []
  returned : ∀ value, phase = .returned value → executed = [(call, some moduleVersion)]
  atMostOnce : executed = [] ∨ executed = [(call, some moduleVersion)]

variable {controller : Controller W T} {transport : Transport} {calls : ι → ControllerCall}

theorem callsOf_executed {i j : ι} {run : ℕ} {call : ControllerCall} {found : Option (Module T)}
    {script : Evaluated T} (h : Executed call found script) :
    callsOf j (script.ran.map fun event => (run, i, event)) =
      if i = j ∧ script.ran ≠ [] then [(call, some moduleVersion)] else [] := by
  cases h with
  | nothing => simp [callsOf]
  | call _ _ => by_cases hij : i = j <;> simp [callsOf, hij]
  | body _ _ => by_cases hij : i = j <;> simp [callsOf, hij]

omit [DecidableEq ι] in
/-- A script executes the body only where the module is missing, and leaves the module there. -/
theorem bodiesOf_executed {i : ι} {run : ℕ} {call : ControllerCall} {found : Option (Module T)}
    {script : Evaluated T} (h : Executed call found script) :
    ((∀ k, bodiesOf k (script.ran.map fun event => (run, i, event)) = []) ∧
        (versionCheck found = true → versionCheck script.carrierRecovery = true)) ∨
      (versionCheck found = false ∧ versionCheck script.carrierRecovery = true ∧
        ∀ k, bodiesOf k (script.ran.map fun event => (run, i, event)) =
          if run = k then [(found, moduleBody found)] else []) := by
  cases h with
  | nothing => exact .inl ⟨fun k => by simp [bodiesOf], id⟩
  | call _ hleft => exact .inl ⟨fun k => by simp [bodiesOf], fun _ => hleft⟩
  | body hfound hleft =>
    refine .inr ⟨hfound, hleft, ?_⟩
    intro k
    by_cases hk : run = k <;> simp [bodiesOf, hk]

omit [DecidableEq ι] in
/-- **A script keeps the missions' invariant.** -/
theorem BodyOnce.executed {s : State ι T} (hs : BodyOnce s) {i : ι} {call : ControllerCall}
    {script : Evaluated T} (hscript : Executed call s.carrierRecovery script) (phase : ι → Phase) :
    BodyOnce { s with
      carrierRecovery := script.carrierRecovery
      phase := phase
      log := s.log ++ script.ran.map fun event => (s.missionRun, i, event) } := by
  rcases @bodiesOf_executed _ _ _ i s.missionRun _ _ _ hscript with
    ⟨hnone, hcheck⟩ | ⟨hfound, hleft, hbodies⟩
  · constructor
    · rw [bodiesOf_append, hnone, List.append_nil]
      exact hs.current.imp id hcheck
    · intro run hrun
      rw [bodiesOf_append, hnone, List.append_nil]
      exact hs.later run hrun
    · intro run
      rw [bodiesOf_append, hnone, List.append_nil]
      exact hs.once run
    · intro run before after hmem
      rw [bodiesOf_append, hnone, List.append_nil] at hmem
      exact hs.keeps run before after hmem
  · have hempty : bodiesOf s.missionRun s.log = [] := by
      rcases hs.current with hempty | hcheck
      · exact hempty
      · rw [hfound] at hcheck
        cases hcheck
    constructor
    · exact .inr hleft
    · intro run hrun
      have hne : s.missionRun ≠ run := Nat.ne_of_lt hrun
      rw [bodiesOf_append, hbodies, if_neg hne, List.append_nil]
      exact hs.later run hrun
    · intro run
      rw [bodiesOf_append, hbodies]
      by_cases hrun : s.missionRun = run
      · subst hrun
        simp [hempty]
      · simpa [hrun] using hs.once run
    · intro run before after hmem
      rw [bodiesOf_append, hbodies] at hmem
      by_cases hrun : s.missionRun = run
      · subst hrun
        simp only [hempty, if_true, List.nil_append, List.mem_singleton, Prod.mk.injEq] at hmem
        obtain ⟨hbefore, rfl⟩ := hmem
        rw [← hbefore]
        exact moduleBody_keeps before
      · simp only [hrun, if_false, List.append_nil] at hmem
        exact hs.keeps run before after hmem

omit [EmptyCollection T] in
/-- A request that has not called yet, after a script of its own. -/
theorem Settled.calledOnce {call : ControllerCall} {script : Evaluated T} {phase : Phase}
    (h : Settled script phase) : CalledOnce call phase
      (if script.ran ≠ [] then [(call, some moduleVersion)] else []) := by
  have hcalls : (if script.ran ≠ [] then [(call, some moduleVersion)] else []) = [] ∨
      (if script.ran ≠ [] then [(call, some moduleVersion)] else []) =
        [(call, some moduleVersion)] := by
    split
    · exact .inr rfl
    · exact .inl rfl
  cases h with
  | failed => exact ⟨nofun, nofun, nofun, hcalls⟩
  | asked hran => exact ⟨nofun, fun _ => if_neg (by simp [hran]), nofun, hcalls⟩
  | returned value hran => exact ⟨nofun, nofun, fun _ _ => if_pos hran, hcalls⟩

/-- **A script keeps the requests' invariant**, when its request has not called yet. -/
theorem calledOnce_executed {s : State ι T}
    (hs : ∀ j, CalledOnce (calls j) (s.phase j) (callsOf j s.log)) {i : ι} {script : Evaluated T}
    {phase : Phase} (hfresh : callsOf i s.log = [])
    (hscript : Executed (calls i) s.carrierRecovery script) (hphase : Settled script phase)
    (j : ι) :
    CalledOnce (calls j) (Function.update s.phase i phase j)
      (callsOf j (s.log ++ script.ran.map fun event => (s.missionRun, i, event))) := by
  rw [callsOf_append, callsOf_executed hscript]
  by_cases hji : j = i
  · subst hji
    simpa [hfresh] using hphase.calledOnce
  · have hij : ¬ (i = j ∧ script.ran ≠ []) := fun h => hji h.1.symm
    simpa [hji, if_neg hij] using hs j

/-- **The invariant**: of the missions and of each request. -/
structure Invariant (calls : ι → ControllerCall) (s : State ι T) : Prop where
  missions : BodyOnce s
  requests : ∀ i, CalledOnce (calls i) (s.phase i) (callsOf i s.log)

omit [EmptyCollection T] in
theorem invariant_initial (loaded : Option (Module T)) :
    Invariant calls (initial ι loaded) := by
  refine ⟨⟨.inl rfl, fun _ _ => rfl, fun _ => Nat.zero_le 1, ?_⟩, ?_⟩
  · intro run before after hmem
    cases hmem
  · intro i
    exact ⟨fun _ => rfl, fun _ => rfl, nofun, .inl rfl⟩

/-- An Eval of a request that has not called yet keeps the invariant. -/
theorem Invariant.eval {s : State ι T} (hs : Invariant calls s) {i : ι} {script : Evaluated T}
    {after : Option Answer → Phase} (hfresh : callsOf i s.log = [])
    (hscript : Executed (calls i) s.carrierRecovery script)
    (hafter : Settled script (after script.result)) (outcome : Outcome) :
    Invariant calls (s.eval i script after outcome) := by
  cases outcome with
  | replied =>
    exact ⟨hs.missions.executed hscript _, calledOnce_executed hs.requests hfresh hscript hafter⟩
  | lost =>
    exact ⟨hs.missions.executed hscript _, calledOnce_executed hs.requests hfresh hscript .failed⟩
  | unreached =>
    -- nothing ran: as after a script that executes nothing
    have hnothing : Executed (calls i) s.carrierRecovery ⟨s.carrierRecovery, none, []⟩ := .nothing
    have hrequests : ∀ j, CalledOnce (calls j) (Function.update s.phase i .failed j)
        (callsOf j s.log) := by
      simpa using calledOnce_executed hs.requests hfresh hnothing .failed
    exact ⟨⟨hs.missions.current, hs.missions.later, hs.missions.once, hs.missions.keeps⟩, hrequests⟩

/-- **One step** keeps the invariant. -/
theorem Invariant.step {s u : State ι T} {act : Act ι W T} (hs : Invariant calls s)
    (h : step controller transport calls s act = some u) : Invariant calls u := by
  cases act with
  | probe i world outcome =>
    cases hphase : s.phase i with
    | idle =>
      simp only [Install.step, hphase, Option.some.injEq] at h
      subst h
      exact hs.eval ((hs.requests i).idle hphase) (executed_probe ..) (settled_afterProbe ..)
        outcome
    | asked => simp [Install.step, hphase] at h
    | returned value => simp [Install.step, hphase] at h
    | failed => simp [Install.step, hphase] at h
  | install i world outcome =>
    cases hphase : s.phase i with
    | asked =>
      simp only [Install.step, hphase, Option.some.injEq] at h
      subst h
      exact hs.eval ((hs.requests i).asked hphase) (executed_install ..) (settled_afterInstall ..)
        outcome
    | idle => simp [Install.step, hphase] at h
    | returned value => simp [Install.step, hphase] at h
    | failed => simp [Install.step, hphase] at h
  | restart loaded =>
    cases h
    refine ⟨⟨.inl (hs.missions.later _ (Nat.lt_succ_self _)), ?_, hs.missions.once,
      hs.missions.keeps⟩, hs.requests⟩
    intro run hrun
    exact hs.missions.later run (Nat.lt_of_succ_lt hrun)
  | mission change =>
    cases h
    refine ⟨⟨hs.missions.current.imp id ?_, hs.missions.later, hs.missions.once,
      hs.missions.keeps⟩, hs.requests⟩
    intro hcheck
    simpa [versionCheck, Option.any_map, Function.comp_def] using hcheck

/-- Every reached state meets the invariant. -/
theorem invariant_of_run {loaded : Option (Module T)} {acts : List (Act ι W T)} {t : State ι T}
    (h : Run (Install.step controller transport calls) Always (initial ι loaded) acts t) :
    Invariant calls t :=
  h.invariant (invariant_initial loaded) fun _ _ _ hs _ hstep => hs.step hstep

/-- A request calls at most once, whatever becomes of its Evals. -/
theorem calls_at_most_once {loaded : Option (Module T)} {acts : List (Act ι W T)} {t : State ι T}
    (h : Run (Install.step controller transport calls) Always (initial ι loaded) acts t) (i : ι) :
    callsOf i t.log = [] ∨ callsOf i t.log = [(calls i, some moduleVersion)] :=
  ((invariant_of_run h).requests i).atMostOnce

/-- **The protocol.**  In every interleaving: a request that returns has executed its call exactly
once, at the expected version; a mission run executes the body at most once; and the body keeps
every recovery, group override and the generation counter it finds. -/
theorem probe_then_install {loaded : Option (Module T)} {acts : List (Act ι W T)} {t : State ι T}
    (h : Run (Install.step controller transport calls) Always (initial ι loaded) acts t) :
    (∀ i value, t.phase i = .returned value →
      callsOf i t.log = [(calls i, some moduleVersion)]) ∧
    (∀ run, (bodiesOf run t.log).length ≤ 1) ∧
    (∀ run before after, (some before, after) ∈ bodiesOf run t.log →
      before.kept.Keeps after.kept) := by
  have hinv : Invariant calls t := invariant_of_run h
  exact ⟨fun i => (hinv.requests i).returned, hinv.missions.once, hinv.missions.keeps⟩

/-- The module of a mission in which no carrier sails. -/
def noCarriers : Controller Unit (List (String × Json)) where
  run _ call kept :=
    match call with
    | .listCarriers => (kept, some [("carriers", .arr []), ("version", .str moduleVersion)])
    | _ => (kept, none)
  keys := by
    intro world call kept answer h member hmember
    cases call with
    | listCarriers =>
      cases h
      simp only [List.mem_cons, List.not_mem_nil, or_false] at hmember
      rcases hmember with rfl | rfl <;> simp [answerKeys]
    | action action group => cases h
    | windReport group => cases h
    | windReports groups => cases h
    | groupConfig group target => cases h

/-- A transport that changes nothing. -/
def verbatim : Transport where
  reply := .obj
  reply_marker := rfl
  keys := by
    intro answer key h
    simp only [Json.get, List.lookup_isSome_iff] at h
    obtain ⟨member, hmember, hkey⟩ := h
    exact List.mem_map.mpr ⟨member, hmember, (beq_iff_eq.mp hkey).symm⟩

/-- Two requests that both probe a fresh mission before either installs. -/
theorem probe_then_install_twoRequests :
    ∃ t, Run (Install.step noCarriers verbatim fun _ : Bool => .listCarriers) Always
        (initial Bool none) [.probe false () .replied, .probe true () .replied,
          .install true () .replied, .install false () .replied, .restart none] t ∧
      (∀ i, ∃ value, t.phase i = .returned value) ∧
      (∀ i value, t.phase i = .returned value →
        callsOf i t.log = [(.listCarriers, some moduleVersion)]) ∧
      (∀ run, (bodiesOf run t.log).length ≤ 1) ∧
      (∀ run before after, (some before, after) ∈ bodiesOf run t.log →
        before.kept.Keeps after.kept) := by
  have hrun : ∃ t, Run (Install.step noCarriers verbatim fun _ : Bool => .listCarriers) Always
      (initial Bool none) [.probe false () .replied, .probe true () .replied,
        .install true () .replied, .install false () .replied, .restart none] t ∧
      ∀ i, ∃ value, t.phase i = .returned value := by
    refine ⟨_, .cons trivial rfl (.cons trivial rfl (.cons trivial rfl (.cons trivial rfl
      (.single trivial rfl)))), ?_⟩
    intro i
    cases i <;> exact ⟨_, rfl⟩
  obtain ⟨t, hrun, hreturned⟩ := hrun
  exact ⟨t, hrun, hreturned, probe_then_install hrun⟩

end

end DcsDashboard.Carrier.Install

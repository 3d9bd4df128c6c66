/-
# The stand-alone recovery controller

`M.start`, `M.restore` and `M.monitor`, with the table of active recoveries, the generation
counter and DCS's queue of scheduled callbacks.  Everything the module does to the mission
(routes and messages) is kept, in order, in `effects`.

A call that raises leaves what it had already changed.  A scheduled callback that raises is not
scheduled again.

One event is one call into the module.  Which call it is, and the mission it finds, is up to
the environment, so a run is any interleaving of starts, restores, callbacks and changes of the
configuration.  Which groups Foothold manages does not change in a run.
-/
import DcsDashboard.Carrier.Navigation
import DcsDashboard.Lib.Runs

namespace DcsDashboard.Carrier

open Lib

/-! ## 1. State -/

/-- `recovery.phase`. -/
inductive Phase
  | pending
  | aligning
  | active
  deriving DecidableEq

/-- An entry of `M.active`. -/
structure Recovery (R : Type*) where
  coalition : Nat
  generation : Nat
  phase : Phase
  executeAt : R
  previous : Circuit R
  commandedHeadingDeg : Option R
  commandedSpeedKt : Option R
  alignmentDeadline : Option R
  alignmentStableSince : Option R
  activeUntil : Option R
  lastRestoreFailureAt : Option R

/-- The messages of the state machine: the key of `M.messages` and what is formatted in. -/
inductive Message (R : Type*)
  | warning (groupName : String) (seconds : R)
  | turning (groupName : String) (courseDeg speedKt : R)
  | active (groupName : String) (minutes : R)
  | resumed (groupName : String)
  | aborted (groupName : String)
  | complete (groupName : String)
  | returnFailed (groupName : String)
  | unsafeCourse (durationMin reserveMin clearanceNm : R)
  | disabled (groupName : String)
  | alreadyActive (groupName : String)
  | notActive (groupName : String)
  | groupUnavailable (groupName : String)

/-- A route handed to `M.setRoute`.  A recovery leg carries the heading and speed it was built
for. -/
inductive Issued (R : Type*)
  | recovery (headingDeg speedKt : R) (points : List (Waypoint R))
  | circuit (points : List (Waypoint R))

/-- What the module has done to the mission, with the group it was about. -/
inductive Effect (R : Type*)
  | route (groupName : String) (issued : Issued R)
  | say (groupName : String) (coalition : Nat) (message : Message R) (seconds : Nat)
  | sayToGroup (groupId : Nat) (message : Message R) (seconds : Nat)

/-- A scheduled call of `M.monitor`. -/
structure Callback (R : Type*) where
  groupName : String
  generation : Nat
  at_ : R

/-- The module, DCS's queue of its callbacks, and what it has done. -/
structure State (R : Type*) where
  setup : Setup R
  active : String → Option (Recovery R)
  generation : Nat
  pending : List (Callback R)
  effects : List (Effect R)

/-- How a scheduled call ends: with the time to be called again, if any, or by raising. -/
inductive Outcome (R : Type*)
  | done (again : Option R)
  | raised

/-- What `M.start` and `M.restore` return. -/
inductive Reply (R : Type*)
  | ok
  | refused (message : Message R)
  | footholdRefused (text : String)

/-- The first result of `M.start` and `M.restore`. -/
def Reply.succeeded {R : Type*} : Reply R → Bool
  | .ok => true
  | .refused _ | .footholdRefused _ => false

section Updates

variable {R : Type*}

/-- `M.active[groupName] = recovery`. -/
def State.setActive (s : State R) (groupName : String) (recovery : Option (Recovery R)) : State R :=
  { s with active := Function.update s.active groupName recovery }

/-- A `M.setRoute` that took effect. -/
def State.issue (s : State R) (groupName : String) (issued : Issued R) : State R :=
  { s with effects := s.effects ++ [.route groupName issued] }

/-- `say`, about a group. -/
def State.say (s : State R) (groupName : String) (coalition : Nat) (message : Message R)
    (seconds : Nat) : State R :=
  { s with effects := s.effects ++ [.say groupName coalition message seconds] }

/-- `sayToGroup`. -/
def State.sayToGroup (s : State R) (groupId : Option Nat) (message : Message R) (seconds : Nat) :
    State R :=
  { s with effects := s.effects ++ (groupId.map fun id => .sayToGroup id message seconds).toList }

/-- A delegated call: Foothold acts, the module does not. -/
def World.footholdReply (w : World R) (failure : String) : Reply R :=
  if w.foothold.1 then .ok else .footholdRefused (w.foothold.2.getD failure)

end Updates

/-! ## 2. Start and restore -/

section Calls

variable {R : Type*} [Field R] [LinearOrder R] [FloorRing R] [LuaMath R]

/-- The message of a refused leg. -/
def unsafeMessage (cfg : Config R) : Message R :=
  .unsafeCourse (luaFloor (Value.numberOr (cfg.value "durationSec") 1800 / 60))
    (luaFloor (Value.numberOr (cfg.value "safetyReserveSec") 300 / 60))
    (Value.numberOr (cfg.value "landClearanceNm") 2)

/-- The entry `M.start` makes. -/
def State.newRecovery (s : State R) (w : World R) (groupName : String) (data : WindData R)
    (cfg : Config R) : Recovery R where
  coalition := data.coalition
  generation := s.generation + 1
  phase := .pending
  executeAt := w.time + Value.numberOr (cfg.value "turnDelaySec") 60
  previous := captureNormalCircuit w groupName data
  commandedHeadingDeg := none
  commandedSpeedKt := none
  alignmentDeadline := none
  alignmentStableSince := none
  activeUntil := none
  lastRestoreFailureAt := none

/-- The part of `M.start` that no test stands before any more. -/
def State.startRecovery (s : State R) (w : World R) (groupName : String) (data : WindData R)
    (cfg : Config R) : State R where
  setup := s.setup
  active := Function.update s.active groupName (some (s.newRecovery w groupName data cfg))
  generation := s.generation + 1
  pending := s.pending ++ [⟨groupName, s.generation + 1, w.time + 5⟩]
  effects := s.effects ++ [.say groupName data.coalition
    (.warning groupName (Value.numberOr (cfg.value "turnDelaySec") 60)) 15]

/-- `M.start`. -/
def State.start (s : State R) (w : World R) (groupName : String) (groupId : Option Nat) :
    State R × Reply R :=
  let cfg := s.setup.config (some groupName)
  if (s.setup.footholdEntry groupName).isSome then (s, w.footholdReply "failed to start")
  else if !Value.truthy (cfg.value "enabled") then
    (s.sayToGroup groupId (.disabled groupName) 10, .refused (.disabled groupName))
  else if (s.active groupName).isSome then
    (s.sayToGroup groupId (.alreadyActive groupName) 10, .refused (.alreadyActive groupName))
  else
    match windData w cfg groupName with
    | none =>
      (s.sayToGroup groupId (.groupUnavailable groupName) 10,
        .refused (.groupUnavailable groupName))
    | some data =>
      if (buildRoute w data (requiredSeconds cfg) cfg).isNone then
        (s.sayToGroup groupId (unsafeMessage cfg) 15, .refused (unsafeMessage cfg))
      else (s.startRecovery w groupName data cfg, .ok)

/-- The closing message of a recovery. -/
def closingMessage (reason groupName : String) : Message R :=
  if reason = "unsafe" then .aborted groupName
  else if reason = "complete" then .complete groupName
  else .resumed groupName

/-- The route `M.restore` issues, `none` when there is no ship or `setTask` raises. -/
def circuitRoute (w : World R) (cfg : Config R) (groupName : String) (recovery : Recovery R) :
    Option (List (Waypoint R)) :=
  ((w.leadUnit groupName).bind fun p => p.2.point).bind fun current =>
    if w.setTaskRaises .circuit then none
    else some (normalCircuitRoute recovery.previous ⟨current.x, current.z⟩ cfg)

/-- A restore that did not find its way back, reported at most every 30 s. -/
def State.restoreFailed (s : State R) (now : R) (groupName : String) (recovery : Recovery R) :
    State R :=
  if ∀ t ∈ recovery.lastRestoreFailureAt, 30 ≤ now - t then
    (s.setActive groupName (some { recovery with lastRestoreFailureAt := some now })).say
      groupName recovery.coalition (.returnFailed groupName) 15
  else s

/-- `M.restore`. -/
def State.restore (s : State R) (w : World R) (reason groupName : String) (groupId : Option Nat) :
    State R × Reply R :=
  if (s.setup.footholdEntry groupName).isSome then (s, w.footholdReply "failed to resume")
  else
    match s.active groupName with
    | none =>
      (s.sayToGroup groupId (.notActive groupName) 10, .refused (.notActive groupName))
    | some recovery =>
      match circuitRoute w (s.setup.config (some groupName)) groupName recovery with
      | some points =>
        (((s.issue groupName (.circuit points)).setActive groupName none).say groupName
          recovery.coalition (closingMessage reason groupName) 15, .ok)
      | none =>
        (s.restoreFailed w.time groupName recovery, .refused (.returnFailed groupName))

/-! ## 3. Monitor -/

/-- `if M.restore(reason, groupName) then return nil end; return time + 15`. -/
def State.giveUp (s : State R) (w : World R) (reason groupName : String) (time : R) :
    State R × Outcome R :=
  let (s, reply) := s.restore w reason groupName none
  (s, .done (if reply.succeeded then none else some (time + 15)))

/-- `monitor` before the turn. -/
def State.monitorPending (s : State R) (w : World R) (groupName : String) (recovery : Recovery R)
    (cfg : Config R) (data : WindData R) (time : R) : State R × Outcome R :=
  if time < recovery.executeAt then (s, .done (some (time + 5)))
  else
    match buildRoute w data (requiredSeconds cfg) cfg with
    | none => s.giveUp w "unsafe" groupName time
    | some route =>
      if w.setTaskRaises .turn then (s, .raised)
      else
        let s := s.issue groupName (.recovery data.recoveryHeadingDeg data.recoverySpeedKt route)
        let s := s.setActive groupName (some { recovery with
          phase := .aligning
          commandedHeadingDeg := some data.recoveryHeadingDeg
          commandedSpeedKt := some data.recoverySpeedKt
          alignmentDeadline := some (time + Value.numberOr (cfg.value "alignmentTimeoutSec") 300) })
        (s.say groupName recovery.coalition (.turning groupName
          (luaMod (luaFloor (data.recoveryHeadingDeg + 1 / 2)) 360) data.recoverySpeedKt) 15,
          .done (some (time + 5)))

/-- `monitor` while aligning, once the heading is within tolerance of the commanded one: the
window opens when that has lasted long enough. -/
def State.monitorAligned (s : State R) (w : World R) (groupName : String) (recovery : Recovery R)
    (cfg : Config R) (data : WindData R) (time : R) : State R × Outcome R :=
  let since := recovery.alignmentStableSince.getD time
  let recovery := { recovery with alignmentStableSince := some since }
  let s := s.setActive groupName (some recovery)
  if time - since < Value.numberOr (cfg.value "alignmentStableSec") 15 then
    (s, .done (some (time + 5)))
  else
    match buildRoute w data (requiredSeconds cfg) cfg with
    | none => s.giveUp w "unsafe" groupName time
    | some route =>
      if w.setTaskRaises .openWindow then (s, .raised)
      else
        -- the window opens on a leg for the wind of this moment
        let durationSec := Value.numberOr (cfg.value "durationSec") 1800
        let s := s.issue groupName (.recovery data.recoveryHeadingDeg data.recoverySpeedKt route)
        let s := s.setActive groupName (some { recovery with
          phase := .active, activeUntil := some (time + durationSec) })
        (s.say groupName recovery.coalition (.active groupName (luaFloor (durationSec / 60))) 15,
          .done (some (time + 5)))

/-- `monitor` while aligning, past the retargeting. -/
def State.monitorSettle (s : State R) (w : World R) (groupName : String) (recovery : Recovery R)
    (cfg : Config R) (data : WindData R) (time : R) : State R × Outcome R :=
  if headingDiff data.headingDeg recovery.commandedHeadingDeg
      ≤ Value.numberOr (cfg.value "headingToleranceDeg") 5 then
    s.monitorAligned w groupName recovery cfg data time
  else
    (s.setActive groupName (some { recovery with alignmentStableSince := none }),
      .done (some (time + 5)))

/-- `monitor` while aligning. -/
def State.monitorAligning (s : State R) (w : World R) (groupName : String) (recovery : Recovery R)
    (cfg : Config R) (data : WindData R) (time : R) : State R × Outcome R :=
  if ∃ deadline ∈ recovery.alignmentDeadline, deadline ≤ time then
    s.giveUp w "unsafe" groupName time
  else if headingDiff data.recoveryHeadingDeg recovery.commandedHeadingDeg
      > Value.numberOr (cfg.value "headingToleranceDeg") 5 then
    match buildRoute w data (requiredSeconds cfg) cfg with
    | none => s.giveUp w "unsafe" groupName time
    | some route =>
      if w.setTaskRaises .retarget then (s, .raised)
      else
        let s := s.issue groupName (.recovery data.recoveryHeadingDeg data.recoverySpeedKt route)
        let recovery := { recovery with
          commandedHeadingDeg := some data.recoveryHeadingDeg
          commandedSpeedKt := some data.recoverySpeedKt
          alignmentStableSince := none }
        (s.setActive groupName (some recovery)).monitorSettle w groupName recovery cfg data time
  else s.monitorSettle w groupName recovery cfg data time

/-- The leg the recovery window tests ahead of the ship: its heading and length. -/
def escapeLeg (recovery : Recovery R) (cfg : Config R) (data : WindData R) : R × R :=
  let reserveSec := Value.numberOr (cfg.value "safetyReserveSec") 300
  (recovery.commandedHeadingDeg.getD data.windFromDeg,
    recovery.commandedSpeedKt.getD data.recoverySpeedKt * mpsPerKnot * reserveSec)

/-- `monitor` in the recovery window. -/
def State.monitorActive (s : State R) (w : World R) (groupName : String) (recovery : Recovery R)
    (cfg : Config R) (data : WindData R) (time : R) : State R × Outcome R :=
  if ∃ t ∈ recovery.activeUntil, t ≤ time then s.giveUp w "complete" groupName time
  else
    let (headingDeg, reserveDistance) := escapeLeg recovery cfg data
    if straightCourseIsSafe w ⟨data.point.x, data.point.z⟩ headingDeg reserveDistance cfg then
      (s, .done (some (time + 15)))
    else s.giveUp w "unsafe" groupName time

/-- `monitor` of a live recovery, by its phase. -/
def State.monitorPhase (s : State R) (w : World R) (groupName : String) (recovery : Recovery R)
    (cfg : Config R) (data : WindData R) (time : R) : State R × Outcome R :=
  match recovery.phase with
  | .pending => s.monitorPending w groupName recovery cfg data time
  | .aligning => s.monitorAligning w groupName recovery cfg data time
  | .active => s.monitorActive w groupName recovery cfg data time

/-- `M.monitor`. -/
def State.monitor (s : State R) (w : World R) (param : Callback R) (time : R) :
    State R × Outcome R :=
  match s.active param.groupName with
  | none => (s, .done none)
  | some recovery =>
    if recovery.generation ≠ param.generation then (s, .done none)
    else
      let cfg := s.setup.config (some param.groupName)
      match windData w cfg param.groupName with
      | none => s.giveUp w "unsafe" param.groupName time
      | some data => s.monitorPhase w param.groupName recovery cfg data time

/-! ## 4. Events -/

/-- A call into the module, with the mission it finds. -/
inductive Event (R : Type*)
  /-- the mission or a script changes the configuration -/
  | reconfigure (global : String → Option (Value R)) (missionOverrides : Option (Overrides R))
      (overrides : Overrides R) (groupOverrides : String → Option (Overrides R))
  | setGroupOverrides (groupName : String) (values : OverrideValues R)
  | start (w : World R) (groupName : Option String) (groupId : Option Nat)
  | restore (w : World R) (reason : String) (groupName : Option String) (groupId : Option Nat)
  /-- DCS runs the `i`-th scheduled callback -/
  | fire (w : World R) (i : Nat) (time : R)

/-- `groupName or "CVN-72"`. -/
def groupOrDefault (groupName : Option String) : String := groupName.getD "CVN-72"

/-- DCS schedules a callback again when it returned a time. -/
def State.reschedule (s : State R) (c : Callback R) : Outcome R → State R
  | .done (some t) => { s with pending := s.pending ++ [{ c with at_ := t }] }
  | .done none | .raised => s

/-- DCS takes a callback from its queue, runs it, and schedules it again if it asked for it. -/
def State.fire (s : State R) (w : World R) (i : Nat) (c : Callback R) (time : R) : State R :=
  let r := { s with pending := s.pending.eraseIdx i }.monitor w c time
  r.1.reschedule c r.2

/-- One event. -/
def carrierStep (s : State R) : Event R → Option (State R)
  | .reconfigure global missionOverrides overrides groupOverrides =>
    some { s with setup := { s.setup with global, missionOverrides, overrides, groupOverrides } }
  | .setGroupOverrides groupName values =>
    some { s with setup := (s.setup.setGroupOverrides groupName values).1 }
  | .start w groupName groupId => some (s.start w (groupOrDefault groupName) groupId).1
  | .restore w reason groupName groupId =>
    some (s.restore w reason (groupOrDefault groupName) groupId).1
  | .fire w i time => s.pending[i]?.map fun c => s.fire w i c time

/-- The module as first injected. -/
def State.injected (setup : Setup R) : State R := ⟨setup, fun _ => none, 0, [], []⟩

end Calls

end DcsDashboard.Carrier

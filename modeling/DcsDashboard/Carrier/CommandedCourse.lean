/-
# The commanded course and speed

A recovery remembers the heading and speed it has ordered, and the recovery window tests the
sea ahead of the ship along them.  Three ticks issue a leg: the turn, a retarget while aligning,
and the opening of the window.  The first two record what they order.  The third issues a leg
for the wind and the target of that moment and records nothing, so afterwards the record is that
of the last turn or retarget.

`FreshWindow` is the condition under which this does not show: whenever a tick opens the window,
the leg it issues is the one already commanded.
-/
import DcsDashboard.Carrier.Lifecycle

namespace DcsDashboard.Carrier

open Lib

/-! ## 1. What the ship was ordered to steer -/

section Ordered

variable {R : Type*} {g : String} {es fs : List (Effect R)}

/-- The heading and speed of a recovery leg issued to a group. -/
def Effect.recoveryLeg (g : String) : Effect R → Option (R × R)
  | .route h (.recovery headingDeg speedKt _) => if h = g then some (headingDeg, speedKt) else none
  | _ => none

/-- The heading and speed of the last recovery leg put into effect for a group. -/
def lastRecovery (g : String) (es : List (Effect R)) : Option (R × R) :=
  (es.filterMap (Effect.recoveryLeg g)).getLast?

theorem lastRecovery_leg (heading speed : R) (route : List (Waypoint R))
    (hfs : ∀ e ∈ fs, e.recoveryLeg g = none) :
    lastRecovery g (es ++ .route g (.recovery heading speed route) :: fs)
      = some (heading, speed) := by
  have hnil : fs.filterMap (Effect.recoveryLeg g) = [] := List.filterMap_eq_nil_iff.mpr hfs
  simp [lastRecovery, Effect.recoveryLeg, hnil]

theorem lastRecovery_append (hfs : ∀ e ∈ fs, e.recoveryLeg g = none) :
    lastRecovery g (es ++ fs) = lastRecovery g es := by
  rw [lastRecovery, List.filterMap_append, List.filterMap_eq_nil_iff.mpr hfs, List.append_nil,
    lastRecovery]

/-- Only effects about the group are legs of it. -/
theorem filterMap_recoveryLeg_filter :
    (es.filter (Effect.concerns g)).filterMap (Effect.recoveryLeg g) =
      es.filterMap (Effect.recoveryLeg g) := by
  have hcongr : ∀ e : Effect R,
      (if e.concerns g = true then e.recoveryLeg g else none) = e.recoveryLeg g := by
    intro e
    cases e with
    | route h issued =>
      cases issued <;> by_cases hg : h = g <;> simp [Effect.concerns, Effect.recoveryLeg, hg]
    | say => simp [Effect.recoveryLeg]
    | sayToGroup => simp [Effect.recoveryLeg]
  rw [List.filterMap_filter]
  congr 1
  funext e
  exact hcongr e

/-- Only effects about the group count. -/
theorem lastRecovery_filter :
    lastRecovery g (es.filter (Effect.concerns g)) = lastRecovery g es :=
  congrArg List.getLast? filterMap_recoveryLeg_filter

/-- The record of a recovery is what the ship was last ordered to steer. -/
def Ordered (g : String) (es : List (Effect R)) (r : Recovery R) : Prop :=
  ∃ heading speed, r.commandedHeadingDeg = some heading ∧ r.commandedSpeedKt = some speed ∧
    lastRecovery g es = some (heading, speed)

/-- Once the ship has turned, its record is in step with its orders. -/
def InStep (g : String) (s : State R) : Prop :=
  ∀ r, s.active g = some r → r.phase ≠ .pending → Ordered g s.effects r

theorem injected_inStep (setup : Setup R) : InStep g (State.injected setup) :=
  fun r h => by simp [State.injected] at h

variable {s u : State R} {r : Recovery R}

theorem InStep.untouched (h : InStep g s) (hu : Untouched g s u) : InStep g u := by
  intro r hr hphase
  have hlast : lastRecovery g u.effects = lastRecovery g s.effects := by
    rw [← lastRecovery_filter, hu.effects, lastRecovery_filter]
  obtain ⟨heading, speed, hh, hv, hl⟩ := h r (hu.active.symm.trans hr) hphase
  exact ⟨heading, speed, hh, hv, hlast.trans hl⟩

theorem InStep.withRecovery {a : Option (Recovery R)}
    (h : ∀ r ∈ a, r.phase ≠ .pending → Ordered g (s.effects ++ es) r) :
    InStep g (s.withRecovery g a es) := by
  intro r hr hphase
  rw [State.withRecovery_active] at hr
  exact h r hr hphase

theorem InStep.reschedule (h : InStep g u) (c : Callback R) (o : Outcome R) :
    InStep g (u.reschedule c o) := by
  rcases o with ⟨_ | t⟩ | _ <;> exact h

/-- What is not a leg leaves the orders as they were. -/
theorem Ordered.append (h : Ordered g es r) (hfs : ∀ e ∈ fs, e.recoveryLeg g = none)
    {r' : Recovery R} (hh : r'.commandedHeadingDeg = r.commandedHeadingDeg)
    (hv : r'.commandedSpeedKt = r.commandedSpeedKt) : Ordered g (es ++ fs) r' := by
  obtain ⟨heading, speed, hr, hw, hl⟩ := h
  exact ⟨heading, speed, hh.trans hr, hv.trans hw, (lastRecovery_append hfs).trans hl⟩

/-- A tick that issues the leg it records, or has recorded. -/
theorem InStep.leg (hr : s.active g = some r) {r' : Recovery R} {heading speed : R}
    (hh : r'.commandedHeadingDeg = some heading) (hv : r'.commandedSpeedKt = some speed)
    (route : List (Waypoint R)) (coalition : Nat) (m : Message R) :
    InStep g (((s.issue g (.recovery heading speed route)).setActive g (some r')).say g
      coalition m 15) := by
  rw [State.issue_eq hr, State.setActive_eq, State.withRecovery_withRecovery,
    State.say_eq State.withRecovery_active, State.withRecovery_withRecovery]
  refine .withRecovery ?_
  intro r₁ hr₁ _
  obtain rfl := Option.some.inj hr₁
  exact ⟨heading, speed, hh, hv,
    lastRecovery_leg heading speed route (by simp [Effect.recoveryLeg])⟩

end Ordered

/-! ## 2. What one tick preserves -/

section Tick

variable {R : Type*} [Field R] [LinearOrder R] [LuaMath R]
  {w : World R} {s : State R} {g : String} {r : Recovery R}

theorem InStep.restore (h : InStep g s) (reason : String) (groupId : Option Nat) :
    InStep g (s.restore w reason g groupId).1 := by
  rcases s.restore_exits w reason g groupId with
    he | ⟨m, seconds, he⟩ | ⟨r, hr, ⟨points, he⟩ | ⟨t, es, he, hes⟩⟩
  · rw [he]
    exact h
  · rw [he]
    exact h.untouched (.sayToGroup _ _ _)
  · rw [he]
    exact .withRecovery fun _ h => by cases h
  · rw [he]
    refine .withRecovery ?_
    intro r₁ hr₁ hphase
    obtain rfl := Option.some.inj hr₁
    refine (h r hr hphase).append ?_ rfl rfl
    rcases hes with rfl | rfl <;> simp [Effect.recoveryLeg]

theorem InStep.giveUp (h : InStep g s) (reason : String) (time : R) :
    InStep g (s.giveUp w reason g time).1 :=
  h.restore reason none

variable [FloorRing R] {cfg : Config R} {data : WindData R} {time : R}

theorem InStep.pending (h : InStep g s) (hr : s.active g = some r) :
    InStep g (s.monitorPending w g r cfg data time).1 := by
  unfold State.monitorPending
  split
  · exact h
  · split
    · exact h.giveUp _ _
    · split
      · exact h
      · exact .leg hr rfl rfl _ _ _

/-- The ship is on the commanded heading, has been for long enough, and the leg is safe: the
window opens. -/
def OpensWindow (w : World R) (r : Recovery R) (cfg : Config R) (data : WindData R) (time : R) :
    Prop :=
  headingDiff data.headingDeg r.commandedHeadingDeg
      ≤ Value.numberOr (cfg.value "headingToleranceDeg") 5 ∧
  Value.numberOr (cfg.value "alignmentStableSec") 15 ≤ time - r.alignmentStableSince.getD time ∧
  (buildRoute w data (requiredSeconds cfg) cfg).isSome ∧
  w.setTaskRaises .openWindow = false

/-- What `M.windData` finds is what is commanded. -/
def CommandsData (r : Recovery R) (data : WindData R) : Prop :=
  r.commandedHeadingDeg = some data.recoveryHeadingDeg ∧
  r.commandedSpeedKt = some data.recoverySpeedKt

theorem InStep.settle (h : InStep g s) (hr : s.active g = some r)
    (hphase : r.phase = .aligning)
    (hfresh : OpensWindow w r cfg data time → CommandsData r data) :
    InStep g (s.monitorSettle w g r cfg data time).1 := by
  have hordered : Ordered g s.effects r := h r hr (by rw [hphase]; decide)
  have hset : ∀ since, InStep g (s.setActive g (some { r with alignmentStableSince := since })) := by
    intro since
    rw [State.setActive_eq]
    refine .withRecovery ?_
    intro r₁ hr₁ _
    obtain rfl := Option.some.inj hr₁
    exact hordered.append (by simp) rfl rfl
  unfold State.monitorSettle
  split
  · rename_i hheading
    dsimp only [State.monitorAligned]
    split
    · exact hset _
    · rename_i hstable
      split
      · exact (hset _).giveUp _ _
      · rename_i route hroute
        split
        · exact hset _
        · rename_i hraises
          obtain ⟨hh, hv⟩ := hfresh ⟨hheading, not_lt.mp hstable, by rw [hroute]; rfl,
            by simpa using hraises⟩
          refine .leg State.setActive_active ?_ ?_ _ _ _
          · exact hh
          · exact hv
  · exact hset _

theorem InStep.aligning (h : InStep g s) (hr : s.active g = some r)
    (hphase : r.phase = .aligning)
    (hfresh : (∀ deadline ∈ r.alignmentDeadline, time < deadline) →
      headingDiff data.recoveryHeadingDeg r.commandedHeadingDeg
        ≤ Value.numberOr (cfg.value "headingToleranceDeg") 5 →
      OpensWindow w r cfg data time → CommandsData r data) :
    InStep g (s.monitorAligning w g r cfg data time).1 := by
  unfold State.monitorAligning
  split
  · exact h.giveUp _ _
  · rename_i hdeadline
    split
    · split
      · exact h.giveUp _ _
      · split
        · exact h
        · -- retargeted: what is commanded is what has just been found
          rename_i route _ _
          dsimp only
          rw [State.issue_eq hr, State.setActive_eq, State.withRecovery_withRecovery]
          refine InStep.settle ?_ State.withRecovery_active hphase fun _ => ⟨rfl, rfl⟩
          refine .withRecovery ?_
          intro r₁ hr₁ _
          obtain rfl := Option.some.inj hr₁
          exact ⟨_, _, rfl, rfl,
            lastRecovery_leg _ _ route (by simp : ∀ e ∈ ([] : List (Effect R)), _)⟩
    · rename_i hretarget
      exact h.settle hr hphase
        (hfresh (fun d hd => not_le.mp fun hle => hdeadline ⟨d, hd, hle⟩) (not_lt.mp hretarget))

theorem InStep.active (h : InStep g s) :
    InStep g (s.monitorActive w g r cfg data time).1 := by
  unfold State.monitorActive
  split
  · exact h.giveUp _ _
  · dsimp only
    split
    · exact h
    · exact h.giveUp _ _

end Tick

/-! ## 3. Runs -/

section Runs

variable {R : Type*} [Field R] [LinearOrder R] [LuaMath R] [FloorRing R]
  {s u : State R} {g : String} {e : Event R}

/-- A tick that opens the window of `g`, without a retarget before it, issues the leg already
commanded. -/
def FreshWindow (g : String) (s : State R) : Event R → Prop
  | .fire w i time => ∀ c ∈ s.pending[i]?, c.groupName = g → ∀ r, s.Live c r →
      r.phase = .aligning → ∀ data ∈ windData w (s.setup.config (some g)) g,
      (∀ deadline ∈ r.alignmentDeadline, time < deadline) →
      headingDiff data.recoveryHeadingDeg r.commandedHeadingDeg
        ≤ Value.numberOr ((s.setup.config (some g)).value "headingToleranceDeg") 5 →
      OpensWindow w r (s.setup.config (some g)) data time → CommandsData r data
  | _ => True

theorem InStep.fire {w : World R} {i : Nat} {c : Callback R} {time : R} (h : InStep g s)
    (hi : s.pending[i]? = some c) (hg : c.groupName = g)
    (hfresh : FreshWindow g s (.fire w i time)) : InStep g (s.fire w i c time) := by
  subst hg
  by_cases hlive : ∃ r, s.Live c r
  · obtain ⟨r, hlive⟩ := hlive
    refine InStep.reschedule ?_ c _
    have h' : InStep c.groupName { s with pending := s.pending.eraseIdx i } := h
    simp only [State.monitor, hlive.1, hlive.2, ne_eq, not_true_eq_false, if_false]
    split
    · exact h'.giveUp _ _
    · rename_i data hdata
      unfold State.monitorPhase
      split
      · exact h'.pending hlive.1
      · rename_i hphase
        exact h'.aligning hlive.1 hphase
          (hfresh c hi rfl r hlive hphase data hdata)
      · exact h'.active
  · rw [State.fire_stale (not_exists.mp hlive)]
    exact h

/-- **The step lemma.** -/
theorem InStep.step (h : InStep g s) (hsa : StandAlone s) (hfresh : FreshWindow g s e)
    (hs : carrierStep s e = some u) : InStep g u := by
  by_cases habout : s.about e = some g
  · cases e with
    | reconfigure _ _ _ _ => cases habout
    | setGroupOverrides _ _ => cases habout
    | start w groupName groupId =>
      obtain rfl := Option.some.inj habout
      obtain rfl := Option.some.inj hs
      rcases s.start_cases w (groupOrDefault groupName) groupId with
        ⟨data, -, -, he⟩ | ⟨m, seconds, he⟩ | ⟨-, he⟩
      · rw [he]
        intro r hr hphase
        simp only [State.startRecovery, Function.update_self, Option.some.injEq] at hr
        exact absurd (by rw [← hr]; rfl) hphase
      · rw [he]; exact h.untouched (.sayToGroup _ _ _)
      · rw [he]; exact h
    | restore w reason groupName groupId =>
      obtain rfl := Option.some.inj habout
      obtain rfl := Option.some.inj hs
      exact h.restore reason groupId
    | fire w i time =>
      obtain ⟨c, hi, rfl⟩ := Option.map_eq_some_iff.mp hs
      simp only [State.about, hi, Option.map_some, Option.some.injEq] at habout
      exact h.fire hi habout hfresh
  · exact h.untouched (untouched_of_step hsa hs habout)

/-- **The record is what the ship was ordered to steer, as long as windows open on it.**  In
every run in which a tick that opens the window of `g` issues the leg already commanded, a
recovery of `g` that is aligning or active has recorded the heading and speed of the last
recovery leg put into effect for `g`; and the leg the recovery window tests is along them. -/
theorem commanded_is_ordered {setup : Setup R} {es : List (Event R)}
    (hrun : Run carrierStep (FreshWindow g) (State.injected setup) es s) :
    ∀ r, s.active g = some r → r.phase = .aligning ∨ r.phase = .active →
      ∃ heading speed, r.commandedHeadingDeg = some heading ∧ r.commandedSpeedKt = some speed ∧
        lastRecovery g s.effects = some (heading, speed) ∧
        ∀ cfg data, escapeLeg r cfg data = (heading,
          speed * mpsPerKnot * Value.numberOr (cfg.value "safetyReserveSec") 300) := by
  have hinv : StandAlone s ∧ InStep g s :=
    hrun.invariant (I := fun s => StandAlone s ∧ InStep g s)
      ⟨injected_standAlone setup, injected_inStep setup⟩
      fun _ _ _ ⟨hsa, ht⟩ hfresh hs => ⟨hsa.step hs, ht.step hsa hfresh hs⟩
  intro r hr hphase
  have hturned : r.phase ≠ .pending := by rcases hphase with h | h <;> rw [h] <;> decide
  obtain ⟨heading, speed, hh, hv, hl⟩ := hinv.2 r hr hturned
  exact ⟨heading, speed, hh, hv, hl, fun cfg data => by simp [escapeLeg, hh, hv]⟩

end Runs

/-! ## 4. The ticks in a calm -/

section Calm

variable {g : String} {s : State ℝ} {target : ℝ} {r : Recovery ℝ}

/-- Firing the callback of a recovery that is kept. -/
theorem Flying.fire (h : Flying g s target r) {w : World ℝ} {time t : ℝ} {data : WindData ℝ}
    (hdata : windData w (s.setup.config (some g)) g = some data) {r' : Recovery ℝ}
    {es : List (Effect ℝ)}
    (hmon : ∀ s' : State ℝ, s'.setup = s.setup → s'.active g = some r →
      s'.monitorPhase w g r (s.setup.config (some g)) data time
        = (s'.withRecovery g (some r') es, .done (some t)))
    (hgen : r'.generation = r.generation) :
    ∃ u, carrierStep s (.fire w 0 time) = some u ∧ Flying g u target r' ∧
      u.setup = s.setup ∧ u.effects = s.effects ++ es ∧
      u.pending = [⟨g, r'.generation, t⟩] := by
  obtain ⟨t₀, hpending⟩ := h.pending
  have hmonitor : State.monitor { s with pending := s.pending.eraseIdx 0 } w
      ⟨g, r.generation, t₀⟩ time
      = (({ s with pending := s.pending.eraseIdx 0 } : State ℝ).withRecovery g (some r') es,
          .done (some t)) := by
    simp only [State.monitor, h.active, ne_eq, not_true_eq_false, if_false, hdata]
    exact hmon { s with pending := s.pending.eraseIdx 0 } rfl h.active
  have hfire : s.fire w 0 ⟨g, r.generation, t₀⟩ time
      = (({ s with pending := s.pending.eraseIdx 0 } : State ℝ).withRecovery g (some r') es).reschedule
          ⟨g, r.generation, t₀⟩ (.done (some t)) := by simp only [State.fire, hmonitor]
  refine ⟨s.fire w 0 ⟨g, r.generation, t₀⟩ time, by simp [carrierStep, hpending], ?_⟩
  rw [hfire]
  have hactive : (({ s with pending := s.pending.eraseIdx 0 } : State ℝ).withRecovery g (some r')
      es).active g = some r' := State.withRecovery_active
  have hqueue : ((({ s with pending := s.pending.eraseIdx 0 } : State ℝ).withRecovery g (some r')
      es).reschedule ⟨g, r.generation, t₀⟩ (.done (some t))).pending =
        [⟨g, r'.generation, t⟩] := by
    simp [State.reschedule, hpending, hgen]
  exact ⟨⟨h.plain, h.standalone, hactive, t, hqueue⟩, rfl, rfl, hqueue⟩

theorem headingDiff_zero : headingDiff (0 : ℝ) (some 0) = 0 := by
  have hfloor : ⌊(180 : ℝ) / 360⌋ = 0 := by norm_num
  simp [headingDiff, luaMod, luaAbs, hfloor]

/-- The turn: the course is kept, and the target is ordered. -/
theorem Flying.turn (h : Flying g s target r) (hlow : 10 ≤ target) (hhigh : target ≤ 30)
    (hphase : r.phase = .pending) {time : ℝ} (hdue : r.executeAt ≤ time) :
    ∃ u r', carrierStep s (.fire (calmSea time) 0 time) = some u ∧ Flying g u target r' ∧
      u.setup = s.setup ∧ r'.phase = .aligning ∧ r'.commandedHeadingDeg = some 0 ∧
      r'.commandedSpeedKt = some (luaFloor (target + 1 / 2)) ∧
      r'.alignmentDeadline = some (time + 300) ∧
      r'.alignmentStableSince = r.alignmentStableSince ∧
      u.pending = [⟨g, r'.generation, time + 5⟩] := by
  obtain ⟨data, route, hdata, hroute, -, hcourse, hspeed⟩ :=
    h.plain.windData hlow hhigh time g
  have htimeout : Value.numberOr ((s.setup.config (some g)).value "alignmentTimeoutSec") 300 = 300 :=
    h.plain.numberOr (by decide) (by simp [defaults, defaultValues, List.lookup_cons]) _
  obtain ⟨es, hmon⟩ : ∃ es, ∀ s' : State ℝ, s'.setup = s.setup → s'.active g = some r →
      s'.monitorPhase (calmSea time) g r (s.setup.config (some g)) data time
        = (s'.withRecovery g (some { r with
              phase := .aligning
              commandedHeadingDeg := some 0
              commandedSpeedKt := some (luaFloor (target + 1 / 2))
              alignmentDeadline := some (time + 300) }) es, .done (some (time + 5))) := by
    refine ⟨.route g (.recovery 0 (luaFloor (target + 1 / 2)) route) :: [.say g r.coalition (.turning g
      (luaMod (luaFloor (0 + 1 / 2)) 360) (luaFloor (target + 1 / 2))) 15], ?_⟩
    intro s' _ hr
    simp only [State.monitorPhase, hphase, State.monitorPending, if_neg hdue.not_gt, hroute]
    rw [if_neg (by simp [calmSea]), State.issue_eq hr, State.setActive_eq,
      State.withRecovery_withRecovery, State.say_eq State.withRecovery_active,
      State.withRecovery_withRecovery, htimeout, hcourse, hspeed]
    rfl
  obtain ⟨u, hu, hfly, hsetup, -, hqueue⟩ := h.fire hdata hmon rfl
  exact ⟨u, _, hu, hfly, hsetup, rfl, rfl, rfl, rfl, rfl, hqueue⟩

section Aligning

variable (h : Flying g s target r) (hphase : r.phase = .aligning)
  (hheading : r.commandedHeadingDeg = some 0) {deadline time : ℝ}
  (hdeadline : r.alignmentDeadline = some deadline) (htime : time < deadline)

include h hphase hheading hdeadline htime

/-- On the commanded heading, a tick goes straight to the test of the window. -/
theorem Flying.aligned {data : WindData ℝ} (hnorth : data.headingDeg = 0)
    (hcourse : data.recoveryHeadingDeg = 0) (s' : State ℝ) :
    s'.monitorPhase (calmSea time) g r (s.setup.config (some g)) data time
      = s'.monitorAligned (calmSea time) g r (s.setup.config (some g)) data time := by
  have htolerance :
      Value.numberOr ((s.setup.config (some g)).value "headingToleranceDeg") 5 = 5 :=
    h.plain.numberOr (by decide) (by simp [defaults, defaultValues, List.lookup_cons]) _
  simp [State.monitorPhase, hphase, State.monitorAligning, State.monitorSettle, hdeadline,
    htime.not_ge, hcourse, hnorth, hheading, headingDiff_zero, htolerance]

variable (hlow : 10 ≤ target) (hhigh : target ≤ 30)

include hlow hhigh

/-- The first tick on the commanded heading. -/
theorem Flying.settle (hsince : r.alignmentStableSince = none) :
    ∃ u, carrierStep s (.fire (calmSea time) 0 time) = some u ∧
      Flying g u target { r with alignmentStableSince := some time } ∧ u.setup = s.setup ∧
      u.pending = [⟨g, r.generation, time + 5⟩] := by
  obtain ⟨data, route, hdata, -, hnorth, hcourse, -⟩ := h.plain.windData hlow hhigh time g
  have hstableSec : Value.numberOr ((s.setup.config (some g)).value "alignmentStableSec") 15 = 15 :=
    h.plain.numberOr (by decide) (by simp [defaults, defaultValues, List.lookup_cons]) _
  have hmon : ∀ s' : State ℝ, s'.setup = s.setup → s'.active g = some r →
      s'.monitorPhase (calmSea time) g r (s.setup.config (some g)) data time
        = (s'.withRecovery g (some { r with alignmentStableSince := some time }) [],
            .done (some (time + 5))) := by
    intro s' _ _
    rw [h.aligned hphase hheading hdeadline htime hnorth hcourse]
    simp [State.monitorAligned, hstableSec, hsince, State.setActive_eq]
  obtain ⟨u, hu, hfly, hsetup, -, hqueue⟩ := h.fire hdata hmon rfl
  exact ⟨u, hu, hfly, hsetup, hqueue⟩

/-- The tick that opens the window: it orders the target of the moment. -/
theorem Flying.openWindow {since : ℝ} (hsince : r.alignmentStableSince = some since)
    (hstable : 15 ≤ time - since) :
    ∃ u r' route say, carrierStep s (.fire (calmSea time) 0 time) = some u ∧
      Flying g u target r' ∧ r'.phase = .active ∧
      r'.commandedHeadingDeg = r.commandedHeadingDeg ∧ r'.commandedSpeedKt = r.commandedSpeedKt ∧
      u.effects = s.effects ++
        .route g (.recovery 0 (luaFloor (target + 1 / 2)) route) :: [.say g r.coalition say 15] := by
  obtain ⟨data, route, hdata, hroute, hnorth, hcourse, hspeed⟩ :=
    h.plain.windData hlow hhigh time g
  have hstableSec : Value.numberOr ((s.setup.config (some g)).value "alignmentStableSec") 15 = 15 :=
    h.plain.numberOr (by decide) (by simp [defaults, defaultValues, List.lookup_cons]) _
  let durationSec := Value.numberOr ((s.setup.config (some g)).value "durationSec") 1800
  have hmon : ∀ s' : State ℝ, s'.setup = s.setup → s'.active g = some r →
      s'.monitorPhase (calmSea time) g r (s.setup.config (some g)) data time
        = (s'.withRecovery g (some { r with
              phase := .active
              alignmentStableSince := some since
              activeUntil := some (time + durationSec) })
            (.route g (.recovery 0 (luaFloor (target + 1 / 2)) route) ::
              [.say g r.coalition (.active g (luaFloor (durationSec / 60))) 15]),
            .done (some (time + 5))) := by
    intro s' _ hr
    rw [h.aligned hphase hheading hdeadline htime hnorth hcourse]
    simp only [State.monitorAligned, hstableSec, hsince, Option.getD_some,
      if_neg hstable.not_gt, hroute]
    rw [if_neg (by simp [calmSea]), State.issue_eq State.setActive_active, State.setActive_eq,
      State.setActive_eq, State.withRecovery_withRecovery, State.withRecovery_withRecovery,
      State.say_eq State.withRecovery_active, State.withRecovery_withRecovery, hcourse, hspeed]
    rfl
  obtain ⟨u, hu, hfly, -, heffects, -⟩ := h.fire hdata hmon rfl
  exact ⟨u, _, route, _, hu, hfly, rfl, rfl, rfl, heffects⟩

end Aligning

end Calm

/-! ## 5. A window that opens on another leg -/

/-- In a calm the ship turns for a target of 24 kt; while it settles the target is set to 25 kt,
and the window opens. -/
noncomputable def targetRaised : List (Event ℝ) :=
  [.start (calmSea 0) (some "CVN-71") none, .fire (calmSea 60) 0 60,
    .setGroupOverrides "CVN-71" ⟨some (.number 25), false⟩, .fire (calmSea 65) 0 65,
    .fire (calmSea 80) 0 80]

/-- **The record falls behind.**  The ship is ordered to 25 kt when the window opens, and the
recovery goes on with 24. -/
theorem window_opens_unrecorded : ∃ s r,
    Run carrierStep Always (State.injected bareMission) targetRaised s ∧
    s.setup.footholdEntry "CVN-71" = none ∧ s.active "CVN-71" = some r ∧ r.phase = .active ∧
    r.commandedSpeedKt = some 24 ∧ lastRecovery "CVN-71" s.effects = some (0, 25) := by
  obtain ⟨s₁, r₁, h₁, hfly₁, hphase₁, hdue, hsince₁, -⟩ := bareMission_start "CVN-71"
  obtain ⟨s₂, r₂, h₂, hfly₂, -, hphase₂, hheading₂, hspeed₂, hdeadline₂, hsince₂, -⟩ :=
    hfly₁.turn (by norm_num) (by norm_num) hphase₁ hdue.le
  let s₃ : State ℝ :=
    { s₂ with setup := (s₂.setup.setGroupOverrides "CVN-71" ⟨some (.number 25), false⟩).1 }
  have hfly₃ : Flying "CVN-71" s₃ 25 r₂ :=
    ⟨hfly₂.plain.setGroupOverrides (by decide) (by norm_num) (by norm_num),
      (footholdEntry_setGroupOverrides _ _ _ _).trans hfly₂.standalone, hfly₂.active,
      hfly₂.pending⟩
  obtain ⟨s₄, h₄, hfly₄, -⟩ := hfly₃.settle hphase₂ hheading₂ hdeadline₂
    (show (65 : ℝ) < _ by norm_num) (by norm_num) (by norm_num)
    (hsince₂.trans hsince₁)
  obtain ⟨s₅, r₅, route, say, h₅, hfly₅, hphase₅, -, hspeed₅, heffects⟩ :=
    hfly₄.openWindow hphase₂ hheading₂ hdeadline₂ (show (80 : ℝ) < _ by norm_num) (by norm_num)
      (by norm_num) rfl (by norm_num)
  have hfloor : ∀ n : ℤ, (luaFloor ((n : ℝ) + 1 / 2)) = (n : ℝ) := by
    intro n
    simp [luaFloor]
    norm_num
  refine ⟨s₅, r₅, ?_, hfly₅.standalone, hfly₅.active, hphase₅, ?_, ?_⟩
  · exact Run.cons trivial h₁ (.cons trivial h₂ (.cons (t := s₃) trivial rfl
      (.cons trivial h₄ (.single trivial h₅))))
  · rw [hspeed₅]
    exact hspeed₂.trans (congrArg some (by exact_mod_cast hfloor 24))
  · rw [heffects, lastRecovery_leg _ _ _ (by simp [Effect.recoveryLeg])]
    exact congrArg (fun v => some ((0 : ℝ), v)) (by exact_mod_cast hfloor 25)

/-- In a calm the window opens on the leg of the turn. -/
theorem Flying.freshWindow {g : String} {s : State ℝ} {target : ℝ} {r : Recovery ℝ}
    (h : Flying g s target r) (hlow : 10 ≤ target) (hhigh : target ≤ 30)
    (hcommanded : r.phase = .aligning → r.commandedHeadingDeg = some 0 ∧
      r.commandedSpeedKt = some (luaFloor (target + 1 / 2))) (time : ℝ) :
    FreshWindow g s (.fire (calmSea time) 0 time) := by
  intro c _ hg r' hlive hphase data hdata _ _ _
  obtain rfl : r = r' := Option.some.inj (h.active.symm.trans (hg ▸ hlive.1))
  obtain ⟨data', route, hdata', -, -, hcourse, hspeed⟩ := h.plain.windData hlow hhigh time g
  obtain rfl : data' = data := Option.some.inj (hdata'.symm.trans hdata)
  obtain ⟨hheading, hknots⟩ := hcommanded hphase
  exact ⟨by rw [hheading, hcourse], by rw [hknots, hspeed]⟩

/-- The ship turns in a calm, settles, and the window opens on the leg it was ordered. -/
noncomputable def calmRecovery : List (Event ℝ) :=
  [.start (calmSea 0) (some "CVN-71") none, .fire (calmSea 60) 0 60, .fire (calmSea 65) 0 65,
    .fire (calmSea 80) 0 80]

theorem commanded_is_ordered_afterTurn : ∃ s r,
    Run carrierStep (FreshWindow "CVN-71") (State.injected bareMission) calmRecovery s ∧
    s.active "CVN-71" = some r ∧ r.phase = .active ∧
    ∃ heading speed, r.commandedHeadingDeg = some heading ∧ r.commandedSpeedKt = some speed ∧
      lastRecovery "CVN-71" s.effects = some (heading, speed) ∧
      ∀ cfg data, escapeLeg r cfg data = (heading,
        speed * mpsPerKnot * Value.numberOr (cfg.value "safetyReserveSec") 300) := by
  obtain ⟨s₁, r₁, h₁, hfly₁, hphase₁, hdue, hsince₁, -⟩ := bareMission_start "CVN-71"
  obtain ⟨s₂, r₂, h₂, hfly₂, -, hphase₂, hheading₂, hspeed₂, hdeadline₂, hsince₂, -⟩ :=
    hfly₁.turn (by norm_num) (by norm_num) hphase₁ hdue.le
  obtain ⟨s₃, h₃, hfly₃, -⟩ := hfly₂.settle hphase₂ hheading₂ hdeadline₂
    (show (65 : ℝ) < _ by norm_num) (by norm_num) (by norm_num) (hsince₂.trans hsince₁)
  obtain ⟨s₄, r₄, route, say, h₄, hfly₄, hphase₄, -⟩ :=
    hfly₃.openWindow hphase₂ hheading₂ hdeadline₂ (show (80 : ℝ) < _ by norm_num) (by norm_num)
      (by norm_num) rfl (by norm_num)
  have hrun :
      Run carrierStep (FreshWindow "CVN-71") (State.injected bareMission) calmRecovery s₄ := by
    refine .cons trivial h₁ (.cons ?_ h₂ (.cons ?_ h₃ (.single ?_ h₄)))
    · exact hfly₁.freshWindow (by norm_num) (by norm_num) (fun h => by rw [hphase₁] at h; cases h) 60
    · exact hfly₂.freshWindow (by norm_num) (by norm_num) (fun _ => ⟨hheading₂, hspeed₂⟩) 65
    · exact hfly₃.freshWindow (by norm_num) (by norm_num) (fun _ => ⟨hheading₂, hspeed₂⟩) 80
  exact ⟨s₄, r₄, hrun, hfly₄.active, hphase₄,
    commanded_is_ordered hrun r₄ hfly₄.active (.inr hphase₄)⟩

end DcsDashboard.Carrier

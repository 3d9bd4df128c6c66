/-
# The log of a recovery's ticks

A live callback of a group is a tick of its recovery.  `ticks` lists the ticks of one group along a
run, each with what it found and what it left: the module itself keeps no such list, and properties
of "every tick between two times" are stated over it.

What the log is good for rests on three facts, kept by every step (`Logged`).  Recovery legs are
issued in ticks only.  Generations never come back, so the ticks of one recovery are those with its
generation.  And DCS runs a callback no earlier than it was asked to (`Punctual`), so a recovery's
next tick is later than all it has had.
-/
import DcsDashboard.Carrier.CommandedCourse
import DcsDashboard.Carrier.Lifecycle
import DcsDashboard.Carrier.Refusals

namespace DcsDashboard.Carrier

open Lib

/-! ## 1. Ticks -/

section Log

/-- A live callback, with what it found and what it left. -/
structure Tick (R : Type*) where
  time : R
  before : Recovery R
  after : Option (Recovery R)
  cfg : Config R
  telemetry : Option (WindData R)
  /-- the recovery legs it issued -/
  legs : List (R × R)

/-- The recovery a tick is of. -/
def Tick.generation {R : Type*} (k : Tick R) : Nat := k.before.generation

variable {R : Type*} [Field R] [LinearOrder R] [FloorRing R] [LuaMath R]

/-- The tick of a group that a step from `s` to `u` is, if it is one. -/
def tickOf (g : String) (s : State R) (e : Event R) (u : State R) : Option (Tick R) :=
  match e with
  | .fire w i time =>
    s.pending[i]?.bind fun c => (s.active g).bind fun r =>
      if c.groupName = g ∧ r.generation = c.generation then
        some {
          time := time
          before := r
          after := u.active g
          cfg := s.setup.config (some g)
          telemetry := windData w (s.setup.config (some g)) g
          legs := (u.effects.drop s.effects.length).filterMap (Effect.recoveryLeg g) }
      else none
  | _ => none

/-- The ticks of a group along a list of events. -/
def ticks (g : String) : State R → List (Event R) → List (Tick R)
  | _, [] => []
  | s, e :: es =>
    match carrierStep s e with
    | some u => (tickOf g s e u).toList ++ ticks g u es
    | none => []

variable {g : String} {s t u : State R} {e : Event R} {es : List (Event R)}
  {C : State R → Event R → Prop}

/-- **One more event** adds at most one tick. -/
theorem ticks_concat (hrun : Run carrierStep C s es t) (hs : carrierStep t e = some u) :
    ticks g s (es ++ [e]) = ticks g s es ++ (tickOf g t e u).toList := by
  have hexec : exec carrierStep s es = some t :=
    run_iff_exec.mp (hrun.mono fun _ _ _ => trivial)
  clear hrun
  induction es generalizing s with
  | nil =>
    obtain rfl : s = t := Option.some.inj hexec
    simp [ticks, hs]
  | cons e' es ih =>
    obtain ⟨v, hv, hexec⟩ := exec_cons.mp hexec
    simp only [List.cons_append, ticks, hv, ih hexec, List.append_assoc]

/-- What a tick is: a callback of the group that carries the generation of its recovery. -/
theorem tickOf_eq_some {k : Tick R} (hs : carrierStep s e = some u) (hk : tickOf g s e u = some k) :
    ∃ w i c time, e = .fire w i time ∧ s.pending[i]? = some c ∧ c.groupName = g ∧
      s.Live c k.before ∧ u = s.fire w i c time ∧
      k = ⟨time, k.before, u.active g, s.setup.config (some g),
        windData w (s.setup.config (some g)) g,
        (u.effects.drop s.effects.length).filterMap (Effect.recoveryLeg g)⟩ := by
  cases e with
  | fire w i time =>
    simp only [tickOf, Option.bind_eq_some_iff, Option.ite_none_right_eq_some,
      Option.some.injEq] at hk
    obtain ⟨c, hi, r, hr, ⟨hg, hgen⟩, rfl⟩ := hk
    obtain ⟨c', hi', rfl⟩ := Option.map_eq_some_iff.mp hs
    obtain rfl : c = c' := Option.some.inj (hi.symm.trans hi')
    exact ⟨w, i, c, time, rfl, hi, hg, ⟨hg ▸ hr, hgen⟩, rfl, rfl⟩
  | _ => cases hk

/-- A callback of the group that is no tick is not live. -/
theorem not_live_of_tickOf {w : World R} {i : Nat} {c : Callback R} {time : R}
    (hk : tickOf g s (.fire w i time) u = none) (hi : s.pending[i]? = some c)
    (hg : c.groupName = g) : ∀ r, ¬s.Live c r := by
  rintro r ⟨hr, hgen⟩
  subst hg
  simp [tickOf, hi, hr, hgen] at hk

end Log

/-! ## 2. Between ticks -/

section Quiet

variable {R : Type*}

/-- What a step that is no tick of `g` does about `g`: it issues no recovery leg; it keeps its
recovery, or ends it, or makes a new one under a new generation; and a callback it adds is the new
one's. -/
structure Quiet (g : String) (s u : State R) : Prop where
  legs : u.effects.filterMap (Effect.recoveryLeg g) = s.effects.filterMap (Effect.recoveryLeg g)
  recovery : ∀ r', u.active g = some r' → (∃ r, s.active g = some r ∧ r.Kept r') ∨
    (r'.generation = s.generation + 1 ∧ r'.phase = .pending ∧ r'.alignmentStableSince = none)
  callbacks : ∀ c ∈ u.pending, c.groupName = g → c ∈ s.pending ∨ c.generation = s.generation + 1

variable {s u : State R} {g : String}

theorem Quiet.of_untouched (h : Untouched g s u)
    (hcallbacks : ∀ c ∈ u.pending, c.groupName = g → c ∈ s.pending ∨
      c.generation = s.generation + 1) : Quiet g s u where
  legs := by rw [← filterMap_recoveryLeg_filter, h.effects, filterMap_recoveryLeg_filter]
  recovery r' hr' := .inl ⟨r', h.active.symm.trans hr', .refl r'⟩
  callbacks := hcallbacks

/-- Callbacks do not change. -/
theorem Quiet.of_same (h : Untouched g s u) (hpending : u.pending = s.pending) : Quiet g s u :=
  .of_untouched h fun _ hc _ => .inl (hpending ▸ hc)

variable [Field R] [LinearOrder R] [FloorRing R] [LuaMath R] {e : Event R}

theorem Quiet.start (w : World R) (h : String) (groupId : Option Nat) :
    Quiet g s (s.start w h groupId).1 := by
  rcases s.start_cases w h groupId with ⟨data, -, -, he⟩ | ⟨m, seconds, he⟩ | ⟨-, he⟩
  · rw [he]
    refine ⟨?_, ?_, ?_⟩
    · simp [State.startRecovery, Effect.recoveryLeg]
    · intro r' hr'
      simp only [State.startRecovery, Function.update_apply] at hr'
      split at hr'
      · obtain rfl := Option.some.inj hr'
        exact .inr ⟨rfl, rfl, rfl⟩
      · exact .inl ⟨r', hr', .refl r'⟩
    · intro c hc _
      simp only [State.startRecovery, List.mem_append, List.mem_singleton] at hc
      rcases hc with hc | rfl
      · exact .inl hc
      · exact .inr rfl
  · rw [he]; exact .of_same (.sayToGroup _ _ _) rfl
  · rw [he]; exact .of_same ⟨rfl, rfl⟩ rfl

omit [FloorRing R] in
theorem Quiet.restore (w : World R) (reason h : String) (groupId : Option Nat) :
    Quiet g s (s.restore w reason h groupId).1 := by
  have hactive : ∀ {r r' : Recovery R} {a : Option (Recovery R)} {es : List (Effect R)},
      s.active h = some r → (∀ r₁ ∈ a, r.Kept r₁) → (s.withRecovery h a es).active g = some r' →
        ∃ r₀, s.active g = some r₀ ∧ r₀.Kept r' := by
    intro r r' a es hr ha hr'
    by_cases hgh : g = h
    · subst hgh
      exact ⟨r, hr, ha r' (State.withRecovery_active.symm.trans hr')⟩
    · exact ⟨r', State.active_of_withRecovery hgh hr', .refl r'⟩
  rcases s.restore_exits w reason h groupId with
    he | ⟨m, seconds, he⟩ | ⟨r, hr, ⟨points, he⟩ | ⟨t, es, he, hes⟩⟩
  · rw [he]; exact .of_same ⟨rfl, rfl⟩ rfl
  · rw [he]; exact .of_same (.sayToGroup _ _ _) rfl
  · rw [he]
    exact ⟨by simp [Effect.recoveryLeg], fun r' hr' => .inl (hactive hr (by simp) hr'),
      fun c hc _ => .inl hc⟩
  · rw [he]
    refine ⟨?_, fun r' hr' => .inl (hactive hr ?_ hr'), fun c hc _ => .inl hc⟩
    · rcases hes with rfl | rfl <;> simp [Effect.recoveryLeg]
    · intro r₁ hr₁
      obtain rfl := Option.some.inj hr₁
      exact ⟨t, rfl⟩

/-- **Between ticks.**  A step that is no tick of `g` is quiet. -/
theorem quiet_of_step (hsa : StandAlone s) (hs : carrierStep s e = some u)
    (hk : tickOf g s e u = none) : Quiet g s u := by
  cases e with
  | reconfigure global missionOverrides overrides groupOverrides =>
    obtain rfl := Option.some.inj hs
    exact .of_same ⟨rfl, rfl⟩ rfl
  | setGroupOverrides groupName values =>
    obtain rfl := Option.some.inj hs
    exact .of_same ⟨rfl, rfl⟩ rfl
  | start w groupName groupId =>
    obtain rfl := Option.some.inj hs
    exact .start w _ groupId
  | restore w reason groupName groupId =>
    obtain rfl := Option.some.inj hs
    exact .restore w reason _ groupId
  | fire w i time =>
    have hs' := hs
    obtain ⟨c, hi, rfl⟩ := Option.map_eq_some_iff.mp hs
    by_cases hg : c.groupName = g
    · rw [State.fire_stale (not_live_of_tickOf hk hi hg)]
      exact .of_untouched ⟨rfl, rfl⟩ fun d hd _ => .inl (List.mem_of_mem_eraseIdx hd)
    · have habout : s.about (.fire w i time) ≠ some g := by
        rw [State.about, hi, Option.map_some]
        exact fun heq => hg (Option.some.inj heq)
      refine .of_untouched (untouched_of_step hsa hs' habout) ?_
      intro d hd hdg
      rcases State.fire_cases w i c time (hsa c.groupName) with
        ⟨-, hfire⟩ | ⟨r, v, o, -, hfire, htick⟩
      · rw [hfire] at hd
        exact .inl (List.mem_of_mem_eraseIdx hd)
      · have hv : v.pending = s.pending.eraseIdx i := htick.pending_eq
        rw [hfire] at hd
        rcases o with ⟨_ | t⟩ | _
        · exact .inl (List.mem_of_mem_eraseIdx (hv ▸ hd))
        · rcases List.mem_append.mp hd with hd | hd
          · exact .inl (List.mem_of_mem_eraseIdx (hv ▸ hd))
          · rw [List.mem_singleton.mp hd] at hdg
            exact absurd hdg hg
        · exact .inl (List.mem_of_mem_eraseIdx (hv ▸ hd))

end Quiet

/-! ## 3. Times -/

section Times

variable {R : Type*} [Field R] [LinearOrder R] [IsStrictOrderedRing R] [LuaMath R]
  {s : State R} {w : World R} {g : String} {r : Recovery R} {time t : R}

theorem State.giveUp_later {reason : String} (h : (s.giveUp w reason g time).2 = .done (some t)) :
    time < t := by
  simp only [State.giveUp] at h
  split at h
  · cases h
  · have ht : time + 15 = t := by simpa using h
    linarith

variable [FloorRing R] {cfg : Config R} {data : WindData R}

theorem State.monitorPending_later
    (h : (s.monitorPending w g r cfg data time).2 = .done (some t)) : time < t := by
  unfold State.monitorPending at h
  split at h
  · have ht : time + 5 = t := by simpa using h
    linarith
  · split at h
    · exact State.giveUp_later h
    · split at h
      · cases h
      · have ht : time + 5 = t := by simpa using h
        linarith

theorem State.monitorSettle_later
    (h : (s.monitorSettle w g r cfg data time).2 = .done (some t)) : time < t := by
  unfold State.monitorSettle at h
  split at h
  · dsimp only [State.monitorAligned] at h
    split at h
    · have ht : time + 5 = t := by simpa using h
      linarith
    · split at h
      · exact State.giveUp_later h
      · split at h
        · cases h
        · have ht : time + 5 = t := by simpa using h
          linarith
  · have ht : time + 5 = t := by simpa using h
    linarith

theorem State.monitorAligning_later
    (h : (s.monitorAligning w g r cfg data time).2 = .done (some t)) : time < t := by
  unfold State.monitorAligning at h
  split at h
  · exact State.giveUp_later h
  · split at h
    · split at h
      · exact State.giveUp_later h
      · split at h
        · cases h
        · exact State.monitorSettle_later h
    · exact State.monitorSettle_later h

theorem State.monitorActive_later
    (h : (s.monitorActive w g r cfg data time).2 = .done (some t)) : time < t := by
  dsimp only [State.monitorActive] at h
  split at h
  · exact State.giveUp_later h
  · split at h
    · have ht : time + 15 = t := by simpa using h
      linarith
    · exact State.giveUp_later h

/-- **A callback asks for a later time.** -/
theorem State.monitor_later {c : Callback R} (h : (s.monitor w c time).2 = .done (some t)) :
    time < t := by
  unfold State.monitor at h
  split at h
  · cases h
  · split at h
    · cases h
    · dsimp only at h
      split at h
      · exact State.giveUp_later h
      · unfold State.monitorPhase at h
        split at h
        · exact State.monitorPending_later h
        · exact State.monitorAligning_later h
        · exact State.monitorActive_later h

end Times

/-! ## 4. The log -/

section Logged

variable {R : Type*} [Field R] [LinearOrder R] [FloorRing R] [LuaMath R]

/-- DCS runs a callback no earlier than it was asked to. -/
def Punctual (s : State R) : Event R → Prop
  | .fire _ i time => ∀ c ∈ s.pending[i]?, c.at_ ≤ time
  | _ => True

/-- The log agrees with the state: it has the recovery legs, no generation above the counter, and
the next tick of the recovery is due after all it has had. -/
structure Logged (g : String) (log : List (Tick R)) (s : State R) : Prop where
  legs : s.effects.filterMap (Effect.recoveryLeg g) = log.flatMap Tick.legs
  old : ∀ k ∈ log, k.generation ≤ s.generation
  due : ∀ r, s.active g = some r → ∀ c ∈ s.pending, c.groupName = g →
    c.generation = r.generation → ∀ k ∈ log, k.generation = r.generation → k.time < c.at_

variable {g : String} {log : List (Tick R)} {s u : State R} {e : Event R} {k : Tick R}

omit [Field R] [FloorRing R] [LuaMath R] in
theorem injected_logged (setup : Setup R) : Logged g [] (State.injected setup) where
  legs := rfl
  old k hk := by cases hk
  due r hr := by simp [State.injected] at hr

/-- A quiet step. -/
theorem Logged.quiet (h : Logged g log s) (hnum : Numbered s) (hsa : StandAlone s)
    (hs : carrierStep s e = some u) (hquiet : Quiet g s u) : Logged g log u where
  legs := hquiet.legs.trans h.legs
  old k hk := (h.old k hk).trans (generation_le_step hsa hs)
  due r' hr' c hc hg hgen k hk hkgen := by
    rcases hquiet.recovery r' hr' with ⟨r, hr, t, rfl⟩ | ⟨hnew, -, -⟩
    · rcases hquiet.callbacks c hc hg with hc | hnew
      · exact h.due r hr c hc hg hgen k hk hkgen
      · have hle : r.generation ≤ s.generation := hnum.active g r hr
        have hsame : c.generation = r.generation := hgen
        omega
    · have hle := h.old k hk
      omega

variable [IsStrictOrderedRing R]

/-- A tick. -/
theorem Logged.tick (h : Logged g log s) (hnum : Numbered s) (hsa : StandAlone s)
    (hpunctual : Punctual s e) (hs : carrierStep s e = some u) (hk : tickOf g s e u = some k) :
    Logged g (log ++ [k]) u := by
  obtain ⟨w, i, c, time, rfl, hi, rfl, hlive, hu, hk⟩ := tickOf_eq_some hs hk
  let s' : State R := { s with pending := s.pending.eraseIdx i }
  have hmon : Ticked w s' c.groupName k.before (s'.monitor w c time).1 (s'.monitor w c time).2 :=
    State.monitor_live hlive (hsa _ _ hlive.1)
  have hfire : u = (s'.monitor w c time).1.reschedule c (s'.monitor w c time).2 := hu
  have hlater : ∀ t, (s'.monitor w c time).2 = .done (some t) → time < t :=
    fun t ht => State.monitor_later ht
  have htime : k.time = time := by rw [hk]
  have hlegs : k.legs = (u.effects.drop s.effects.length).filterMap
      (Effect.recoveryLeg c.groupName) := by rw [hk]
  have hdue : ∀ j ∈ log ++ [k], j.generation = c.generation → j.time ≤ time := by
    intro j hj hjgen
    rcases List.mem_append.mp hj with hj | hj
    · have hbefore : j.time < c.at_ := h.due _ hlive.1 c (List.mem_of_getElem? hi) rfl hlive.2.symm
        j hj (hjgen.trans hlive.2.symm)
      exact (hbefore.trans_le (hpunctual c hi)).le
    · rw [List.mem_singleton.mp hj, htime]
  generalize (s'.monitor w c time).2 = o at hmon hfire hlater
  generalize (s'.monitor w c time).1 = v at hmon hfire
  obtain ⟨es, hes⟩ := hmon.effects_eq
  have heffects : u.effects = s.effects ++ es := by
    rw [hfire, State.reschedule_effects]
    exact hes
  refine ⟨?_, ?_, ?_⟩
  · rw [heffects, List.filterMap_append, h.legs, List.flatMap_append, List.flatMap_singleton, hlegs,
      heffects, List.drop_left]
  · intro j hj
    have hcounter : s.generation ≤ u.generation := generation_le_step hsa hs
    rcases List.mem_append.mp hj with hj | hj
    · exact (h.old j hj).trans hcounter
    · rw [List.mem_singleton.mp hj]
      exact (hnum.active _ _ hlive.1).trans hcounter
  · -- only the callback that has fired carries the generation, and it is due later
    intro r' hr' d hd hdg hdgen j hj hjgen
    have hother : ∀ d ∈ s'.pending, d.generation ≠ c.generation :=
      fun d hd => hnum.ne_of_mem_eraseIdx hi hd
    have hr : r'.generation = c.generation := by
      rw [hfire, State.reschedule_active] at hr'
      exact (hmon.generation hr').trans hlive.2
    rw [hfire] at hd
    cases hmon with
    | kept t _ _ =>
      rcases List.mem_append.mp hd with hd | hd
      · exact absurd (hdgen.trans hr) (hother d hd)
      · rw [List.mem_singleton.mp hd]
        exact (hdue j hj (hjgen.trans hr)).trans_lt (hlater t rfl)
    | raised _ _ _ _ _ => exact absurd (hdgen.trans hr) (hother d hd)
    | ended _ => exact absurd (hdgen.trans hr) (hother d hd)

omit [IsStrictOrderedRing R] in
/-- A tick is later than the ticks its recovery has had. -/
theorem Logged.time_lt (h : Logged g log s) (hpunctual : Punctual s e)
    (hs : carrierStep s e = some u) (hk : tickOf g s e u = some k) {j : Tick R} (hj : j ∈ log)
    (hgen : j.generation = k.generation) : j.time < k.time := by
  obtain ⟨w, i, c, time, rfl, hi, rfl, hlive, -, hk⟩ := tickOf_eq_some hs hk
  have htime : k.time = time := by rw [hk]
  rw [htime]
  exact (h.due _ hlive.1 c (List.mem_of_getElem? hi) rfl hlive.2.symm j hj hgen).trans_le
    (hpunctual c hi)

end Logged

end DcsDashboard.Carrier

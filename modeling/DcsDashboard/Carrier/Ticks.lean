/-
# What one call does

The exits of `M.start`, `M.restore` and `M.monitor`, said once.  A call about a group changes
that group's entry of `M.active` and adds effects about that group (`State.withRecovery`); a
live callback (`Ticked`) either keeps the recovery, with its generation, and is to be called
again, or ends it and is not.
-/
import DcsDashboard.Carrier.Controller

namespace DcsDashboard.Carrier

open Lib

/-! ## 1. Calls about one group -/

section Shape

variable {R : Type*}

/-- An effect about a group: a route issued to it, or a coalition message about it. -/
def Effect.concerns (g : String) : Effect R → Bool
  | .route h _ | .say h _ _ _ => h = g
  | .sayToGroup _ _ _ => false

/-- No effect is about a group other than `g`. -/
def AboutOnly (g : String) (es : List (Effect R)) : Prop :=
  ∀ e ∈ es, ∀ h, e.concerns h = true → h = g

theorem aboutOnly_nil (g : String) : AboutOnly g ([] : List (Effect R)) := by simp [AboutOnly]

theorem AboutOnly.append {g : String} {es fs : List (Effect R)} (he : AboutOnly g es)
    (hf : AboutOnly g fs) : AboutOnly g (es ++ fs) := fun e hmem =>
  (List.mem_append.mp hmem).elim (he e) (hf e)

theorem aboutOnly_route (g : String) (issued : Issued R) :
    AboutOnly g [.route g issued] := by simp [AboutOnly, Effect.concerns]

theorem aboutOnly_say (g : String) (coalition : Nat) (m : Message R) (seconds : Nat) :
    AboutOnly g [.say g coalition m seconds] := by simp [AboutOnly, Effect.concerns]

/-- The effects about `h` do not change when all that is added is about another group. -/
theorem AboutOnly.filter_append {g h : String} {es fs : List (Effect R)} (hf : AboutOnly g fs)
    (hne : h ≠ g) : (es ++ fs).filter (Effect.concerns h) = es.filter (Effect.concerns h) := by
  have hnil : fs.filter (Effect.concerns h) = [] :=
    List.filter_eq_nil_iff.mpr fun e he hc => hne (hf e he h hc)
  rw [List.filter_append, hnil, List.append_nil]

/-- The state after a call that set the entry of one group and did `es`. -/
def State.withRecovery (s : State R) (g : String) (a : Option (Recovery R))
    (es : List (Effect R)) : State R :=
  { s with active := Function.update s.active g a, effects := s.effects ++ es }

variable {s : State R} {g h : String} {a b : Option (Recovery R)} {es fs : List (Effect R)}

@[simp] theorem State.withRecovery_setup : (s.withRecovery g a es).setup = s.setup := rfl
@[simp] theorem State.withRecovery_generation :
    (s.withRecovery g a es).generation = s.generation := rfl
@[simp] theorem State.withRecovery_pending : (s.withRecovery g a es).pending = s.pending := rfl
@[simp] theorem State.withRecovery_effects :
    (s.withRecovery g a es).effects = s.effects ++ es := rfl

@[simp] theorem State.withRecovery_active : (s.withRecovery g a es).active g = a := by
  simp [State.withRecovery]

theorem State.withRecovery_active_of_ne (hne : h ≠ g) :
    (s.withRecovery g a es).active h = s.active h := by
  simp [State.withRecovery, Function.update_of_ne hne]

theorem State.active_of_withRecovery {r : Recovery R} (hne : h ≠ g)
    (hr : (s.withRecovery g a es).active h = some r) : s.active h = some r :=
  (State.withRecovery_active_of_ne hne).symm.trans hr

@[simp] theorem State.withRecovery_withRecovery :
    (s.withRecovery g a es).withRecovery g b fs = s.withRecovery g b (es ++ fs) := by
  simp [State.withRecovery]

theorem State.withRecovery_self (ha : s.active g = a) : s.withRecovery g a [] = s := by
  simp [State.withRecovery, ← ha]

@[simp] theorem State.setActive_active : (s.setActive g a).active g = a := by
  simp [State.setActive]

theorem State.setActive_eq : s.setActive g a = s.withRecovery g a [] := by
  simp [State.setActive, State.withRecovery]

theorem State.issue_eq (ha : s.active g = a) (issued : Issued R) :
    s.issue g issued = s.withRecovery g a [.route g issued] := by
  simp [State.issue, State.withRecovery, ← ha]

theorem State.say_eq (ha : s.active g = a) (coalition : Nat) (m : Message R) (seconds : Nat) :
    s.say g coalition m seconds = s.withRecovery g a [.say g coalition m seconds] := by
  simp [State.say, State.withRecovery, ← ha]

end Shape

/-! ## 2. Restore -/

section Restore

variable {R : Type*} [Field R] [LinearOrder R] [LuaMath R]

/-- What `M.restore` does to a recovery of a stand-alone group: it ends it on the circuit
route, or notes the failure. -/
theorem State.restore_cases {s : State R} {g : String} {r : Recovery R} (w : World R)
    (reason : String) (groupId : Option Nat) (hstandalone : s.setup.footholdEntry g = none)
    (hr : s.active g = some r) :
    (∃ points, s.restore w reason g groupId =
      (s.withRecovery g none [.route g (.circuit points),
        .say g r.coalition (closingMessage reason g) 15], .ok)) ∨
    ∃ t es, s.restore w reason g groupId =
        (s.withRecovery g (some { r with lastRestoreFailureAt := t }) es,
          .refused (.returnFailed g)) ∧
      (es = [] ∨ es = [.say g r.coalition (.returnFailed g) 15]) := by
  simp only [State.restore, hstandalone, hr, Option.isSome_none, Bool.false_eq_true, if_false]
  cases circuitRoute w (s.setup.config (some g)) g r with
  | some points =>
    left
    refine ⟨points, ?_⟩
    simp [State.issue, State.setActive, State.say, State.withRecovery]
  | none =>
    right
    dsimp only [State.restoreFailed]
    split
    · exact ⟨some w.time, _, by rw [State.setActive_eq, State.say_eq State.withRecovery_active,
        State.withRecovery_withRecovery], .inr (List.nil_append _)⟩
    · exact ⟨r.lastRestoreFailureAt, [], by rw [State.withRecovery_self hr], .inl rfl⟩

/-- What `M.restore` leaves, whatever it finds: everything as it was but for a message to the
caller's group, or the recovery ended, or the recovery with the time of the failure. -/
theorem State.restore_exits (s : State R) (w : World R) (reason g : String)
    (groupId : Option Nat) :
    (s.restore w reason g groupId).1 = s ∨
    (∃ m seconds, (s.restore w reason g groupId).1 = s.sayToGroup groupId m seconds) ∨
    ∃ r, s.active g = some r ∧
      ((∃ points, (s.restore w reason g groupId).1 = s.withRecovery g none
        [.route g (.circuit points), .say g r.coalition (closingMessage reason g) 15]) ∨
      ∃ t es, (s.restore w reason g groupId).1 =
          s.withRecovery g (some { r with lastRestoreFailureAt := t }) es ∧
        (es = [] ∨ es = [.say g r.coalition (.returnFailed g) 15])) := by
  by_cases hentry : (s.setup.footholdEntry g).isSome = true
  · left
    simp only [State.restore, if_pos hentry]
  · have hstandalone : s.setup.footholdEntry g = none := by simpa using hentry
    cases hr : s.active g with
    | none =>
      refine .inr (.inl ⟨.notActive g, 10, ?_⟩)
      simp only [State.restore, if_neg hentry, hr]
    | some r =>
      refine .inr (.inr ⟨r, rfl, ?_⟩)
      rcases s.restore_cases w reason groupId hstandalone hr with ⟨points, he⟩ | ⟨t, es, he, hes⟩
      · exact .inl ⟨points, by rw [he]⟩
      · exact .inr ⟨t, es, by rw [he], hes⟩

end Restore

/-! ## 3. Ticks -/

section Ticked

variable {R : Type*}

/-- What a live callback leads to.  It ends the recovery and is done, or keeps it and asks to be
called again; it raises only where `setTask` does, outside the protected call. -/
inductive Ticked (w : World R) (s : State R) (g : String) (r : Recovery R) :
    State R → Outcome R → Prop
  | kept {r' : Recovery R} {es : List (Effect R)} (time : R) :
      r'.generation = r.generation → AboutOnly g es →
      Ticked w s g r (s.withRecovery g (some r') es) (.done (some time))
  | raised {r' : Recovery R} {es : List (Effect R)} (site : RouteSite) :
      r'.generation = r.generation → AboutOnly g es → site ≠ .circuit →
      w.setTaskRaises site = true → Ticked w s g r (s.withRecovery g (some r') es) .raised
  | ended {es : List (Effect R)} :
      AboutOnly g es → Ticked w s g r (s.withRecovery g none es) (.done none)

variable {w : World R} {s : State R} {g : String} {r : Recovery R}

@[simp] theorem State.reschedule_active (s : State R) (c : Callback R) (o : Outcome R) :
    (s.reschedule c o).active = s.active := by
  rcases o with ⟨_ | t⟩ | _ <;> rfl

@[simp] theorem State.reschedule_effects (s : State R) (c : Callback R) (o : Outcome R) :
    (s.reschedule c o).effects = s.effects := by
  rcases o with ⟨_ | t⟩ | _ <;> rfl

/-- A tick keeps the generation of the recovery, if it keeps the recovery. -/
theorem Ticked.generation {r' : Recovery R} {u : State R} {o : Outcome R}
    (h : Ticked w s g r u o) (hr' : u.active g = some r') : r'.generation = r.generation := by
  cases h with
  | kept _ hgen _ =>
    obtain rfl := Option.some.inj (State.withRecovery_active.symm.trans hr')
    exact hgen
  | raised _ hgen _ _ _ =>
    obtain rfl := Option.some.inj (State.withRecovery_active.symm.trans hr')
    exact hgen
  | ended _ => exact absurd (State.withRecovery_active.symm.trans hr') (by simp)

/-- It takes nothing from the queue and nothing back of what was done. -/
theorem Ticked.pending_eq {u : State R} {o : Outcome R}
    (h : Ticked w s g r u o) : u.pending = s.pending := by
  rcases h with _ | _ | _ <;> rfl

theorem Ticked.effects_eq {u : State R} {o : Outcome R}
    (h : Ticked w s g r u o) : ∃ es, u.effects = s.effects ++ es := by
  rcases h with _ | _ | _ <;> exact ⟨_, rfl⟩

/-- A tick that goes on from an updated recovery. -/
theorem Ticked.after {q : Recovery R} {es : List (Effect R)} {u : State R} {o : Outcome R}
    (hgen : q.generation = r.generation) (hes : AboutOnly g es)
    (h : Ticked w (s.withRecovery g (some q) es) g q u o) : Ticked w s g r u o := by
  cases h with
  | kept time hg hfs =>
    rw [State.withRecovery_withRecovery]
    exact .kept time (hg.trans hgen) (hes.append hfs)
  | raised site hg hfs hsite hraises =>
    rw [State.withRecovery_withRecovery]
    exact .raised site (hg.trans hgen) (hes.append hfs) hsite hraises
  | ended hfs =>
    rw [State.withRecovery_withRecovery]
    exact .ended (hes.append hfs)

/-- A tick that changes nothing. -/
theorem Ticked.unchanged (hr : s.active g = some r) (time : R) :
    Ticked w s g r s (.done (some time)) := by
  conv => arg 5; rw [← State.withRecovery_self hr]
  exact .kept time rfl (aboutOnly_nil g)

/-- A tick that issues a recovery leg, updates the recovery and announces it. -/
theorem Ticked.leg {r' : Recovery R} (hgen : r'.generation = r.generation) (heading speed : R)
    (route : List (Waypoint R)) (hr : s.active g = some r) (m : Message R) (time : R) :
    Ticked w s g r (((s.issue g (.recovery heading speed route)).setActive g (some r')).say g
      r.coalition m 15) (.done (some time)) := by
  rw [State.issue_eq hr, State.setActive_eq, State.withRecovery_withRecovery,
    State.say_eq State.withRecovery_active, State.withRecovery_withRecovery]
  exact .kept time hgen (((aboutOnly_route g _).append (aboutOnly_nil g)).append
    (aboutOnly_say g _ _ _))

end Ticked

section Monitor

variable {R : Type*} [Field R] [LinearOrder R] [LuaMath R]
  {w : World R} {s : State R} {g : String} {r : Recovery R}

theorem Ticked.giveUp (reason : String) (time : R) (hstandalone : s.setup.footholdEntry g = none)
    (hr : s.active g = some r) :
    Ticked w s g r (s.giveUp w reason g time).1 (s.giveUp w reason g time).2 := by
  rcases s.restore_cases w reason none hstandalone hr with ⟨points, h⟩ | ⟨t, es, h, hes⟩
  · simp only [State.giveUp, h, Reply.succeeded, if_true]
    exact .ended ((aboutOnly_route g _).append (aboutOnly_say g _ _ _))
  · simp only [State.giveUp, h, Reply.succeeded, Bool.false_eq_true, if_false]
    refine .kept _ rfl ?_
    rcases hes with rfl | rfl
    · exact aboutOnly_nil g
    · exact aboutOnly_say g _ _ _

variable [FloorRing R] {cfg : Config R} {data : WindData R} {time : R}

theorem Ticked.pending (hstandalone : s.setup.footholdEntry g = none) (hr : s.active g = some r) :
    Ticked w s g r (s.monitorPending w g r cfg data time).1
      (s.monitorPending w g r cfg data time).2 := by
  unfold State.monitorPending
  split
  · exact .unchanged hr _
  · split
    · exact .giveUp _ _ hstandalone hr
    · split
      · rename_i hraises
        conv => arg 5; rw [← State.withRecovery_self hr]
        exact .raised .turn rfl (aboutOnly_nil g) (by decide) hraises
      · exact .leg (by rfl) _ _ _ hr _ _

theorem Ticked.aligned (hstandalone : s.setup.footholdEntry g = none) :
    Ticked w s g r (s.monitorAligned w g r cfg data time).1
      (s.monitorAligned w g r cfg data time).2 := by
  dsimp only [State.monitorAligned]
  rw [State.setActive_eq]
  refine .after (q := { r with alignmentStableSince := some (r.alignmentStableSince.getD time) })
    rfl (aboutOnly_nil g) ?_
  split
  · exact .unchanged State.withRecovery_active _
  · split
    · exact .giveUp _ _ hstandalone State.withRecovery_active
    · split
      · rename_i hraises
        conv => arg 5; rw [← State.withRecovery_self State.withRecovery_active]
        exact .raised .openWindow rfl (aboutOnly_nil g) (by decide) hraises
      · exact .leg (by rfl) _ _ _ State.withRecovery_active _ _

theorem Ticked.settle (hstandalone : s.setup.footholdEntry g = none) :
    Ticked w s g r (s.monitorSettle w g r cfg data time).1
      (s.monitorSettle w g r cfg data time).2 := by
  unfold State.monitorSettle
  split
  · exact .aligned hstandalone
  · rw [State.setActive_eq]
    exact .kept _ rfl (aboutOnly_nil g)

theorem Ticked.aligning (hstandalone : s.setup.footholdEntry g = none)
    (hr : s.active g = some r) :
    Ticked w s g r (s.monitorAligning w g r cfg data time).1
      (s.monitorAligning w g r cfg data time).2 := by
  unfold State.monitorAligning
  split
  · exact .giveUp _ _ hstandalone hr
  · split
    · split
      · exact .giveUp _ _ hstandalone hr
      · split
        · rename_i hraises
          conv => arg 5; rw [← State.withRecovery_self hr]
          exact .raised .retarget rfl (aboutOnly_nil g) (by decide) hraises
        · dsimp only
          rw [State.issue_eq hr, State.setActive_eq, State.withRecovery_withRecovery,
            List.append_nil]
          exact .after (q := { r with
            commandedHeadingDeg := some data.recoveryHeadingDeg
            commandedSpeedKt := some data.recoverySpeedKt
            alignmentStableSince := none }) rfl (aboutOnly_route g _) (.settle hstandalone)
    · exact .settle hstandalone

theorem Ticked.active (hstandalone : s.setup.footholdEntry g = none) (hr : s.active g = some r) :
    Ticked w s g r (s.monitorActive w g r cfg data time).1
      (s.monitorActive w g r cfg data time).2 := by
  dsimp only [State.monitorActive]
  split
  · exact .giveUp _ _ hstandalone hr
  · split
    · exact .unchanged hr _
    · exact .giveUp _ _ hstandalone hr

/-- A callback is live when it carries the generation of its group's recovery. -/
def State.Live (s : State R) (c : Callback R) (r : Recovery R) : Prop :=
  s.active c.groupName = some r ∧ r.generation = c.generation

/-- **A callback that is not live does nothing.** -/
theorem State.monitor_stale {c : Callback R} (h : ∀ r, ¬ s.Live c r) :
    s.monitor w c time = (s, .done none) := by
  unfold State.monitor
  cases hr : s.active c.groupName with
  | none => rfl
  | some r => simp [show r.generation ≠ c.generation from fun hg => h r ⟨hr, hg⟩]

/-- **What a live callback does.** -/
theorem State.monitor_live {c : Callback R} (hlive : s.Live c r)
    (hstandalone : s.setup.footholdEntry c.groupName = none) :
    Ticked w s c.groupName r (s.monitor w c time).1 (s.monitor w c time).2 := by
  simp only [State.monitor, hlive.1, hlive.2, ne_eq, not_true_eq_false, if_false]
  split
  · exact .giveUp _ _ hstandalone hlive.1
  · unfold State.monitorPhase
    split
    · exact .pending hstandalone hlive.1
    · exact .aligning hstandalone hlive.1
    · exact .active hstandalone hlive.1

/-- **A left-over callback is dropped.** -/
theorem State.fire_stale {i : Nat} {c : Callback R} (hstale : ∀ r, ¬ s.Live c r) :
    s.fire w i c time = { s with pending := s.pending.eraseIdx i } := by
  have hmon : State.monitor { s with pending := s.pending.eraseIdx i } w c time
      = ({ s with pending := s.pending.eraseIdx i }, .done none) := State.monitor_stale hstale
  simp only [State.fire, hmon, State.reschedule]

/-- **What firing a live callback does.** -/
theorem State.fire_live (w : World R) (i : Nat) {c : Callback R} (time : R) (hlive : s.Live c r)
    (hstandalone : s.setup.footholdEntry c.groupName = none) :
    ∃ u o, s.fire w i c time = u.reschedule c o ∧
      Ticked w { s with pending := s.pending.eraseIdx i } c.groupName r u o :=
  ⟨_, _, rfl, State.monitor_live (s := { s with pending := s.pending.eraseIdx i }) hlive
    hstandalone⟩

/-- A callback is left over, or it is a tick. -/
theorem State.fire_cases (w : World R) (i : Nat) (c : Callback R) (time : R)
    (hstandalone : ∀ r, s.active c.groupName = some r →
      s.setup.footholdEntry c.groupName = none) :
    ((∀ r, ¬s.Live c r) ∧ s.fire w i c time = { s with pending := s.pending.eraseIdx i }) ∨
    ∃ r u o, s.Live c r ∧ s.fire w i c time = u.reschedule c o ∧
      Ticked w { s with pending := s.pending.eraseIdx i } c.groupName r u o := by
  by_cases hlive : ∃ r, s.Live c r
  · obtain ⟨r, hlive⟩ := hlive
    obtain ⟨u, o, hfire, htick⟩ := State.fire_live w i time hlive (hstandalone r hlive.1)
    exact .inr ⟨r, u, o, hlive, hfire, htick⟩
  · have hstale : ∀ r, ¬s.Live c r := not_exists.mp hlive
    exact .inl ⟨hstale, State.fire_stale hstale⟩

end Monitor

/-! ## 4. Start -/

section Start

variable {R : Type*} [Field R] [LinearOrder R] [FloorRing R] [LuaMath R]

/-- What `M.start` does: it starts a recovery of a stand-alone group without one, or leaves all
but a message to the caller's group as it was. -/
theorem State.start_cases (s : State R) (w : World R) (g : String) (groupId : Option Nat) :
    (∃ data, s.setup.footholdEntry g = none ∧ s.active g = none ∧
      s.start w g groupId = (s.startRecovery w g data (s.setup.config (some g)), .ok)) ∨
    (∃ m seconds, s.start w g groupId = (s.sayToGroup groupId m seconds, .refused m)) ∨
    (s.setup.footholdEntry g ≠ none ∧ (s.start w g groupId).1 = s) := by
  unfold State.start
  dsimp only
  by_cases hentry : (s.setup.footholdEntry g).isSome = true
  · rw [if_pos hentry]
    exact .inr (.inr ⟨Option.isSome_iff_ne_none.mp hentry, rfl⟩)
  · rw [if_neg hentry]
    split
    · exact .inr (.inl ⟨_, _, rfl⟩)
    · split
      · exact .inr (.inl ⟨_, _, rfl⟩)
      · rename_i hactive
        split
        · exact .inr (.inl ⟨_, _, rfl⟩)
        · split
          · exact .inr (.inl ⟨_, _, rfl⟩)
          · exact .inl ⟨_, by simpa using hentry, by simpa using hactive, rfl⟩

end Start

/-! ## 5. What a call is about -/

section About

variable {R : Type*} {s u : State R} {g k : String}

/-- The group a call is about. -/
def State.about (s : State R) : Event R → Option String
  | .reconfigure _ _ _ _ | .setGroupOverrides _ _ => none
  | .start _ groupName _ | .restore _ _ groupName _ => some (groupOrDefault groupName)
  | .fire _ i _ => s.pending[i]?.map Callback.groupName

/-- Nothing about `g` happens between `s` and `u`. -/
structure Untouched (g : String) (s u : State R) : Prop where
  active : u.active g = s.active g
  effects : u.effects.filter (Effect.concerns g) = s.effects.filter (Effect.concerns g)

theorem Untouched.trans {t : State R} (h₁ : Untouched g s t) (h₂ : Untouched g t u) :
    Untouched g s u :=
  ⟨h₂.active.trans h₁.active, h₂.effects.trans h₁.effects⟩

theorem Untouched.sayToGroup (groupId : Option Nat) (m : Message R) (seconds : Nat) :
    Untouched g s (s.sayToGroup groupId m seconds) where
  active := rfl
  effects := by cases groupId <;> simp [State.sayToGroup, Effect.concerns]

/-- What is about another group. -/
theorem Untouched.withRecovery (hne : g ≠ k) (a : Option (Recovery R)) {es : List (Effect R)}
    (hes : AboutOnly k es) : Untouched g s (s.withRecovery k a es) where
  active := State.withRecovery_active_of_ne hne
  effects := hes.filter_append hne

theorem Untouched.reschedule (h : Untouched g s u) (c : Callback R) (o : Outcome R) :
    Untouched g s (u.reschedule c o) := by
  rcases o with ⟨_ | t⟩ | _ <;> exact ⟨h.active, h.effects⟩

theorem Untouched.ticked {w : World R} {r : Recovery R} {o : Outcome R} (hne : g ≠ k)
    (h : Ticked w s k r u o) : Untouched g s u := by
  cases h with
  | kept _ _ hes => exact .withRecovery hne _ hes
  | raised _ _ hes _ _ => exact .withRecovery hne _ hes
  | ended hes => exact .withRecovery hne _ hes

/-- The recoveries of the table are of groups Foothold does not manage. -/
def StandAlone (s : State R) : Prop :=
  ∀ g r, s.active g = some r → s.setup.footholdEntry g = none

theorem injected_standAlone (setup : Setup R) : StandAlone (State.injected setup) :=
  fun g r h => by simp [State.injected] at h

end About

section Step

variable {R : Type*} [Field R] [LinearOrder R]

/-- Overrides do not change who is delegated. -/
theorem footholdEntry_setGroupOverrides (setup : Setup R) (groupName : String)
    (values : OverrideValues R) (g : String) :
    (setup.setGroupOverrides groupName values).1.footholdEntry g = setup.footholdEntry g := by
  unfold Setup.setGroupOverrides
  split
  · rfl
  · dsimp only
    split
    · split
      · rfl
      · split <;> rfl
    · rfl

variable [LuaMath R] [FloorRing R] {s u : State R} {e : Event R} {g : String}

/-- **A call leaves the groups it is not about alone.** -/
theorem untouched_of_step (hsa : StandAlone s) (hs : carrierStep s e = some u)
    (hne : s.about e ≠ some g) : Untouched g s u := by
  cases e with
  | reconfigure global missionOverrides overrides groupOverrides =>
    obtain rfl := Option.some.inj hs
    exact ⟨rfl, rfl⟩
  | setGroupOverrides groupName values =>
    obtain rfl := Option.some.inj hs
    exact ⟨rfl, rfl⟩
  | start w groupName groupId =>
    obtain rfl := Option.some.inj hs
    have hne' : g ≠ groupOrDefault groupName := fun heq => hne (congrArg some heq.symm)
    rcases s.start_cases w (groupOrDefault groupName) groupId with
      ⟨data, -, -, he⟩ | ⟨m, seconds, he⟩ | ⟨-, he⟩
    · rw [he]
      exact ⟨Function.update_of_ne hne' _ _, (aboutOnly_say _ _ _ _).filter_append hne'⟩
    · rw [he]; exact .sayToGroup _ _ _
    · rw [he]; exact ⟨rfl, rfl⟩
  | restore w reason groupName groupId =>
    obtain rfl := Option.some.inj hs
    have hne' : g ≠ groupOrDefault groupName := fun heq => hne (congrArg some heq.symm)
    rcases s.restore_exits w reason (groupOrDefault groupName) groupId with
      he | ⟨m, seconds, he⟩ | ⟨r, -, ⟨points, he⟩ | ⟨t, es, he, hes⟩⟩
    · rw [he]; exact ⟨rfl, rfl⟩
    · rw [he]; exact .sayToGroup _ _ _
    · rw [he]
      exact .withRecovery hne' _ ((aboutOnly_route _ _).append (aboutOnly_say _ _ _ _))
    · rw [he]
      refine .withRecovery hne' _ ?_
      rcases hes with rfl | rfl
      · exact aboutOnly_nil _
      · exact aboutOnly_say _ _ _ _
  | fire w i time =>
    obtain ⟨c, hi, rfl⟩ := Option.map_eq_some_iff.mp hs
    have hne' : g ≠ c.groupName := fun heq => hne (by rw [State.about, hi, Option.map_some, heq])
    rcases State.fire_cases w i c time (hsa c.groupName) with
      ⟨-, hfire⟩ | ⟨r, u, o, -, hfire, htick⟩
    · rw [hfire]; exact ⟨rfl, rfl⟩
    · rw [hfire]
      exact .reschedule ((Untouched.mk rfl rfl : Untouched g s
        { s with pending := s.pending.eraseIdx i }).trans (.ticked hne' htick)) c o

/-- Who is delegated does not change. -/
theorem footholdEntry_step (hsa : StandAlone s) (hs : carrierStep s e = some u) (g : String) :
    u.setup.footholdEntry g = s.setup.footholdEntry g := by
  cases e with
  | reconfigure global missionOverrides overrides groupOverrides =>
    obtain rfl := Option.some.inj hs
    rfl
  | setGroupOverrides groupName values =>
    obtain rfl := Option.some.inj hs
    exact footholdEntry_setGroupOverrides _ _ _ _
  | start w groupName groupId =>
    obtain rfl := Option.some.inj hs
    rcases s.start_cases w (groupOrDefault groupName) groupId with
      ⟨data, -, -, he⟩ | ⟨m, seconds, he⟩ | ⟨-, he⟩ <;> rw [he] <;> rfl
  | restore w reason groupName groupId =>
    obtain rfl := Option.some.inj hs
    rcases s.restore_exits w reason (groupOrDefault groupName) groupId with
      he | ⟨m, seconds, he⟩ | ⟨r, -, ⟨points, he⟩ | ⟨t, es, he, -⟩⟩ <;> rw [he] <;> rfl
  | fire w i time =>
    obtain ⟨c, -, rfl⟩ := Option.map_eq_some_iff.mp hs
    rcases State.fire_cases w i c time (hsa c.groupName) with
      ⟨-, hfire⟩ | ⟨r, u, o, -, hfire, htick⟩
    · rw [hfire]
    · rw [hfire]
      rcases htick with _ | _ | _ <;> rfl

/-- **Recoveries stay with stand-alone groups.** -/
theorem StandAlone.step (hsa : StandAlone s) (hs : carrierStep s e = some u) : StandAlone u := by
  intro g r hr
  rw [footholdEntry_step hsa hs g]
  by_cases hactive : ∃ r₀, s.active g = some r₀
  · obtain ⟨r₀, hr₀⟩ := hactive
    exact hsa g r₀ hr₀
  · -- only a start makes an entry where there was none
    have hnone : s.active g = none :=
      Option.eq_none_iff_forall_ne_some.mpr fun r₀ hr₀ => hactive ⟨r₀, hr₀⟩
    by_cases habout : s.about e = some g
    · cases e with
      | reconfigure _ _ _ _ => cases habout
      | setGroupOverrides _ _ => cases habout
      | start w groupName groupId =>
        obtain rfl := Option.some.inj habout
        obtain rfl := Option.some.inj hs
        rcases s.start_cases w (groupOrDefault groupName) groupId with
          ⟨data, hentry, -, -⟩ | ⟨m, seconds, he⟩ | ⟨-, he⟩
        · exact hentry
        · rw [he] at hr; exact hsa _ r hr
        · rw [he] at hr; exact hsa _ r hr
      | restore w reason groupName groupId =>
        obtain rfl := Option.some.inj habout
        obtain rfl := Option.some.inj hs
        simp only [State.restore, hnone] at hr
        split at hr
        · exact hsa _ r hr
        · exact hsa _ r hr
      | fire w i time =>
        obtain ⟨c, hi, rfl⟩ := Option.map_eq_some_iff.mp hs
        simp only [State.about, hi, Option.map_some, Option.some.injEq] at habout
        subst habout
        rw [State.fire_stale fun r₀ hlive => hactive ⟨r₀, hlive.1⟩] at hr
        exact hsa _ r hr
    · exact hsa g r ((untouched_of_step hsa hs habout).active.symm.trans hr)

end Step

end DcsDashboard.Carrier

/-
# Windows open on a held course

While a recovery is aligning, `alignmentStableSince` marks since when the ship has been on the
commanded heading.  A tick off the heading clears the mark, a retarget clears it, and a tick on the
heading sets it or leaves it; the window opens when the mark is old enough.  So the mark should say
that at every tick since then at which the ship was seen it was on the heading, and that the heading
was not changed (`Held`).

Four exits of a tick leave the mark without looking at the heading: no telemetry, where there is
nothing to see; a passed deadline, after which no window opens; a retarget that raises, after which
the recovery has no callback; and a retarget for which there is no safe leg, when the restore that
follows fails too.  The last is the gap: the ship may be off the heading, the mark stays, and the
next ticks count on from it (`coast_passed_over`).  With that exit taken only by ships on their
heading (`Heeded`), every window opens on a held course (`window_opens_on_held_course`).
-/
import DcsDashboard.Carrier.Corridor
import DcsDashboard.Carrier.TickLog

namespace DcsDashboard.Carrier

open Lib

/-! ## 1. The held course -/

section Course

variable {R : Type*} [Field R]

/-- `headingToleranceDeg`, as `M.monitor` reads it. -/
def headingTolerance (cfg : Config R) : R := Value.numberOr (cfg.value "headingToleranceDeg") 5

/-- `alignmentStableSec`, as `M.monitor` reads it. -/
def alignmentStable (cfg : Config R) : R := Value.numberOr (cfg.value "alignmentStableSec") 15

variable [LinearOrder R] [FloorRing R]

/-- The ship is within tolerance of a heading. -/
def OnCourse (cfg : Config R) (data : WindData R) (heading : Option R) : Prop :=
  headingDiff data.headingDeg heading ≤ headingTolerance cfg

/-- The deadline for the alignment has passed. -/
def Late (r : Recovery R) (time : R) : Prop := ∃ deadline ∈ r.alignmentDeadline, deadline ≤ time

/-- Since a tick of the recovery the commanded heading has not changed, and at every tick at which
the ship was seen it was on it. -/
structure Held (log : List (Tick R)) (generation : Nat) (since : R) (heading : Option R) : Prop where
  marked : ∃ j ∈ log, j.generation = generation ∧ j.time = since
  before : ∀ j ∈ log, j.generation = generation → since < j.time →
    j.before.commandedHeadingDeg = heading
  after : ∀ j ∈ log, j.generation = generation → since ≤ j.time →
    j.after.map Recovery.commandedHeadingDeg = some heading
  seen : ∀ j ∈ log, j.generation = generation → since ≤ j.time →
    ∀ data ∈ j.telemetry, OnCourse j.cfg data heading

/-- A tick that opens the window. -/
def Tick.Opens (k : Tick R) : Prop :=
  k.before.phase = .aligning ∧ ∃ r ∈ k.after, r.phase = .active

/-- A tick that turns the ship. -/
def Tick.Turns (k : Tick R) : Prop :=
  k.before.phase = .pending ∧ ∃ r ∈ k.after, r.phase = .aligning

/-- What a window should open on, in the log up to the tick that opens it. -/
structure OpensOnHeldCourse (log : List (Tick R)) (k : Tick R) : Prop where
  held : ∃ since heading, since ≤ k.time ∧ alignmentStable k.cfg ≤ k.time - since ∧
    Held log k.generation since heading
  turned : ∃ j ∈ log, j.generation = k.generation ∧ j.Turns ∧ k.before.executeAt ≤ j.time ∧
    j.time < k.time
  waited : ∀ j ∈ log, j.generation = k.generation → j.legs ≠ [] → k.before.executeAt ≤ j.time

variable {log : List (Tick R)} {generation : Nat} {since : R} {heading : Option R} {k : Tick R}

/-- A course held so far is held through one more tick. -/
theorem Held.extend (h : Held log generation since heading)
    (hbefore : k.before.commandedHeadingDeg = heading)
    (hafter : k.after.map Recovery.commandedHeadingDeg = some heading)
    (hseen : ∀ data ∈ k.telemetry, OnCourse k.cfg data heading) :
    Held (log ++ [k]) generation since heading := by
  refine ⟨?_, ?_, ?_, ?_⟩
  · obtain ⟨j, hj, hgen, htime⟩ := h.marked
    exact ⟨j, List.mem_append_left _ hj, hgen, htime⟩
  · intro j hj hgen hlt
    rcases List.mem_append.mp hj with hj | hj
    · exact h.before j hj hgen hlt
    · rwa [List.mem_singleton.mp hj]
  · intro j hj hgen hle
    rcases List.mem_append.mp hj with hj | hj
    · exact h.after j hj hgen hle
    · rwa [List.mem_singleton.mp hj]
  · intro j hj hgen hle
    rcases List.mem_append.mp hj with hj | hj
    · exact h.seen j hj hgen hle
    · rwa [List.mem_singleton.mp hj]

/-- A tick later than the others of its recovery begins a held course. -/
theorem Held.begin (hlatest : ∀ j ∈ log, j.generation = k.generation → j.time < k.time)
    (hafter : k.after.map Recovery.commandedHeadingDeg = some heading)
    (hseen : ∀ data ∈ k.telemetry, OnCourse k.cfg data heading) :
    Held (log ++ [k]) k.generation k.time heading := by
  have honly : ∀ j ∈ log ++ [k], j.generation = k.generation → k.time ≤ j.time → j = k := by
    intro j hj hgen hle
    rcases List.mem_append.mp hj with hj | hj
    · exact absurd (hlatest j hj hgen) hle.not_gt
    · exact List.mem_singleton.mp hj
  refine ⟨⟨k, by simp, rfl, rfl⟩, ?_, ?_, ?_⟩
  · intro j hj hgen hlt
    rw [honly j hj hgen hlt.le] at hlt
    exact absurd hlt (lt_irrefl _)
  · intro j hj hgen hle
    rwa [honly j hj hgen hle]
  · intro j hj hgen hle
    rwa [honly j hj hgen hle]

end Course

/-! ## 2. What one tick does to the mark -/

section Moves

variable {R : Type*} [Field R] [LinearOrder R] [FloorRing R]

/-- What a tick that looks at the heading leaves. -/
structure Settles (cfg : Config R) (data : WindData R) (time : R) (r r' : Recovery R) : Prop where
  executeAt : r'.executeAt = r.executeAt
  deadline : r'.alignmentDeadline = r.alignmentDeadline
  mark : r'.alignmentStableSince = none ∨ OnCourse cfg data r'.commandedHeadingDeg ∧
    (r'.alignmentStableSince = some time ∨ r.alignmentStableSince ≠ none ∧
      r'.alignmentStableSince = r.alignmentStableSince ∧
      r'.commandedHeadingDeg = r.commandedHeadingDeg)
  phase : r'.phase = .aligning ∨ r'.phase = .active ∧
    ∃ since ∈ r'.alignmentStableSince, alignmentStable cfg ≤ time - since

/-- What a tick does to a recovery it keeps. -/
inductive Moves (cfg : Config R) (telemetry : Option (WindData R)) (time : R)
    (r r' : Recovery R) (o : Outcome R) : Prop
  /-- nothing, and then not because a ship off its heading was passed over -/
  | waits : r.Kept r' → (r.phase = .aligning → o = .raised ∨ Late r time ∨
      r.alignmentStableSince = none ∨ ∀ data ∈ telemetry, OnCourse cfg data r.commandedHeadingDeg) →
      Moves cfg telemetry time r r' o
  | turns : r.phase = .pending → r.executeAt ≤ time → r'.phase = .aligning →
      r'.executeAt = r.executeAt → r'.alignmentStableSince = r.alignmentStableSince →
      Moves cfg telemetry time r r' o
  | settles (data : WindData R) : telemetry = some data → r.phase = .aligning → ¬Late r time →
      Settles cfg data time r r' → Moves cfg telemetry time r r' o

/-- A retarget has cleared the mark. -/
theorem Settles.of_cleared {cfg : Config R} {data : WindData R} {time : R} {r q r' : Recovery R}
    (h : Settles cfg data time q r') (hcleared : q.alignmentStableSince = none)
    (hexecute : q.executeAt = r.executeAt) (hdeadline : q.alignmentDeadline = r.alignmentDeadline) :
    Settles cfg data time r r' where
  executeAt := h.executeAt.trans hexecute
  deadline := h.deadline.trans hdeadline
  mark := by
    rcases h.mark with hnone | ⟨hcourse, hnow | ⟨hmarked, -⟩⟩
    · exact .inl hnone
    · exact .inr ⟨hcourse, .inl hnow⟩
    · exact absurd hcleared hmarked
  phase := h.phase

variable [LuaMath R] {w : World R} {s : State R} {g : String} {r r' : Recovery R}
  {cfg : Config R} {data : WindData R} {time : R}

omit [FloorRing R] in
/-- Giving up keeps a recovery only where the restore fails. -/
theorem giveUp_active {reason : String} (hstandalone : s.setup.footholdEntry g = none)
    (hr : s.active g = some r) (hr' : (s.giveUp w reason g time).1.active g = some r') :
    r.Kept r' ∧ circuitRoute w (s.setup.config (some g)) g r = none := by
  simp only [State.giveUp, State.restore, hstandalone, hr, Option.isSome_none, Bool.false_eq_true,
    if_false] at hr'
  cases hroute : circuitRoute w (s.setup.config (some g)) g r with
  | some points => simp [hroute, State.issue, State.setActive, State.say] at hr'
  | none =>
    refine ⟨?_, rfl⟩
    simp only [hroute, State.restoreFailed] at hr'
    split at hr'
    · obtain rfl : { r with lastRestoreFailureAt := some w.time } = r' := by
        simpa [State.setActive, State.say] using hr'
      exact ⟨_, rfl⟩
    · obtain rfl : r = r' := Option.some.inj (hr.symm.trans hr')
      exact .refl r

/-- Past the retargeting the heading is looked at. -/
theorem monitorSettle_settles (hstandalone : s.setup.footholdEntry g = none)
    (hphase : r.phase = .aligning)
    (hr' : (s.monitorSettle w g r cfg data time).1.active g = some r') :
    Settles cfg data time r r' := by
  have hmark : some (r.alignmentStableSince.getD time) = some time ∨
      r.alignmentStableSince ≠ none ∧
        some (r.alignmentStableSince.getD time) = r.alignmentStableSince ∧
        r.commandedHeadingDeg = r.commandedHeadingDeg := by
    cases r.alignmentStableSince with
    | none => exact .inl rfl
    | some since => exact .inr ⟨by simp, rfl, rfl⟩
  unfold State.monitorSettle at hr'
  split at hr'
  · rename_i hcourse
    dsimp only [State.monitorAligned] at hr'
    split at hr'
    · obtain rfl := Option.some.inj (State.setActive_active.symm.trans hr')
      exact ⟨rfl, rfl, .inr ⟨hcourse, hmark⟩, .inl hphase⟩
    · rename_i hstable
      split at hr'
      · obtain ⟨⟨t, rfl⟩, -⟩ :=
          giveUp_active (by exact hstandalone) State.setActive_active (by exact hr')
        exact ⟨rfl, rfl, .inr ⟨hcourse, hmark⟩, .inl hphase⟩
      · split at hr'
        · obtain rfl := Option.some.inj (State.setActive_active.symm.trans hr')
          exact ⟨rfl, rfl, .inr ⟨hcourse, hmark⟩, .inl hphase⟩
        · obtain rfl := Option.some.inj (State.setActive_active.symm.trans hr')
          exact ⟨rfl, rfl, .inr ⟨hcourse, hmark⟩, .inr ⟨rfl, _, rfl, not_lt.mp hstable⟩⟩
  · obtain rfl := Option.some.inj (State.setActive_active.symm.trans hr')
    exact ⟨rfl, rfl, .inl rfl, .inl hphase⟩

/-- **The tick that passes over a ship off its heading**: a retarget without a safe leg, when the
restore fails too, and the mark is set. -/
def PassesOver (w : World R) (s : State R) (g : String) (r : Recovery R) (cfg : Config R)
    (data : WindData R) (time : R) : Prop :=
  ¬Late r time ∧ headingTolerance cfg < headingDiff data.recoveryHeadingDeg r.commandedHeadingDeg ∧
    buildRoute w data (requiredSeconds cfg) cfg = none ∧
    circuitRoute w (s.setup.config (some g)) g r = none ∧
    r.alignmentStableSince ≠ none ∧ ¬OnCourse cfg data r.commandedHeadingDeg

theorem monitorAligning_moves (hstandalone : s.setup.footholdEntry g = none)
    (hr : s.active g = some r) (hphase : r.phase = .aligning)
    (hseen : ¬PassesOver w s g r cfg data time)
    (hr' : (s.monitorAligning w g r cfg data time).1.active g = some r') :
    Moves cfg (some data) time r r' (s.monitorAligning w g r cfg data time).2 := by
  by_cases hlate : Late r time
  · have heq : s.monitorAligning w g r cfg data time = s.giveUp w "unsafe" g time := if_pos hlate
    rw [heq] at hr' ⊢
    exact .waits (giveUp_active hstandalone hr hr').1 fun _ => .inr (.inl hlate)
  · unfold State.monitorAligning at hr' ⊢
    rw [if_neg (by exact hlate)] at hr' ⊢
    split at hr'
    · rename_i hretarget
      rw [if_pos hretarget]
      cases hroute : buildRoute w data (requiredSeconds cfg) cfg with
      | none =>
        simp only [hroute] at hr' ⊢
        obtain ⟨hkept, hfailed⟩ := giveUp_active hstandalone hr hr'
        refine .waits hkept fun _ => .inr (.inr ?_)
        by_contra hnot
        obtain ⟨hmarked, hoff⟩ := not_or.mp hnot
        refine hseen ⟨hlate, hretarget, hroute, hfailed, hmarked, fun hon => hoff ?_⟩
        rintro d ⟨⟩
        exact hon
      | some route =>
        simp only [hroute] at hr' ⊢
        split at hr'
        · rename_i hraises
          rw [if_pos hraises]
          obtain rfl : r = r' := Option.some.inj (hr.symm.trans hr')
          exact .waits (.refl r) fun _ => .inl rfl
        · refine .settles data rfl hphase hlate ?_
          have hsettles := monitorSettle_settles (by exact hstandalone) (by exact hphase) hr'
          exact hsettles.of_cleared rfl rfl rfl
    · exact .settles data rfl hphase hlate (monitorSettle_settles hstandalone hphase hr')

theorem monitorPending_moves (hstandalone : s.setup.footholdEntry g = none)
    (hr : s.active g = some r) (hphase : r.phase = .pending)
    (hr' : (s.monitorPending w g r cfg data time).1.active g = some r') (o : Outcome R) :
    Moves cfg (some data) time r r' o := by
  have hnot : ∀ {P : Prop}, r.phase = .aligning → P := fun h => by rw [hphase] at h; cases h
  unfold State.monitorPending at hr'
  split at hr'
  · obtain rfl : r = r' := Option.some.inj (hr.symm.trans hr')
    exact .waits (.refl r) hnot
  · rename_i hdue
    split at hr'
    · exact .waits (giveUp_active hstandalone hr hr').1 hnot
    · split at hr'
      · obtain rfl : r = r' := Option.some.inj (hr.symm.trans hr')
        exact .waits (.refl r) hnot
      · obtain rfl := Option.some.inj (State.setActive_active.symm.trans hr')
        exact .turns hphase (not_lt.mp hdue) rfl rfl rfl

theorem monitorActive_moves (hstandalone : s.setup.footholdEntry g = none)
    (hr : s.active g = some r) (hphase : r.phase = .active)
    (hr' : (s.monitorActive w g r cfg data time).1.active g = some r') (o : Outcome R) :
    Moves cfg (some data) time r r' o := by
  have hnot : ∀ {P : Prop}, r.phase = .aligning → P := fun h => by rw [hphase] at h; cases h
  dsimp only [State.monitorActive] at hr'
  split at hr'
  · exact .waits (giveUp_active hstandalone hr hr').1 hnot
  · split at hr'
    · obtain rfl : r = r' := Option.some.inj (hr.symm.trans hr')
      exact .waits (.refl r) hnot
    · exact .waits (giveUp_active hstandalone hr hr').1 hnot

/-- **What a live callback does to a recovery it keeps.** -/
theorem monitor_moves {c : Callback R} (hlive : s.Live c r)
    (hstandalone : s.setup.footholdEntry c.groupName = none)
    (hseen : r.phase = .aligning →
      ∀ data ∈ windData w (s.setup.config (some c.groupName)) c.groupName,
        ¬PassesOver w s c.groupName r (s.setup.config (some c.groupName)) data time)
    (hr' : (s.monitor w c time).1.active c.groupName = some r') :
    Moves (s.setup.config (some c.groupName))
      (windData w (s.setup.config (some c.groupName)) c.groupName) time r r'
      (s.monitor w c time).2 := by
  simp only [State.monitor, hlive.1, hlive.2, ne_eq, not_true_eq_false, if_false] at hr' ⊢
  cases hdata : windData w (s.setup.config (some c.groupName)) c.groupName with
  | none =>
    simp only [hdata] at hr' ⊢
    exact .waits (giveUp_active hstandalone hlive.1 hr').1 fun _ =>
      .inr (.inr (.inr (by simp)))
  | some data =>
    simp only [hdata, State.monitorPhase] at hr' ⊢
    cases hphase : r.phase with
    | pending =>
      simp only [hphase] at hr' ⊢
      exact monitorPending_moves hstandalone hlive.1 hphase hr' _
    | aligning =>
      simp only [hphase] at hr' ⊢
      exact monitorAligning_moves hstandalone hlive.1 hphase (hseen hphase data hdata) hr'
    | active =>
      simp only [hphase] at hr' ⊢
      exact monitorActive_moves hstandalone hlive.1 hphase hr' _

/-- Legs are issued by the turn, when it is due, and while aligning. -/
theorem monitor_legs {c : Callback R} (hlive : s.Live c r)
    (hlegs : (s.monitor w c time).1.effects.filterMap (Effect.recoveryLeg g) ≠
      s.effects.filterMap (Effect.recoveryLeg g)) :
    r.phase = .aligning ∨ r.phase = .pending ∧ r.executeAt ≤ time := by
  have hgiveUp : ∀ reason,
      (s.giveUp w reason c.groupName time).1.effects.filterMap (Effect.recoveryLeg g) =
        s.effects.filterMap (Effect.recoveryLeg g) :=
    fun reason => (Quiet.restore w reason c.groupName none).legs
  simp only [State.monitor, hlive.1, hlive.2, ne_eq, not_true_eq_false, if_false] at hlegs
  cases hdata : windData w (s.setup.config (some c.groupName)) c.groupName with
  | none =>
    simp only [hdata] at hlegs
    exact absurd (hgiveUp _) hlegs
  | some data =>
    simp only [hdata, State.monitorPhase] at hlegs
    cases hphase : r.phase with
    | pending =>
      right
      refine ⟨rfl, ?_⟩
      by_contra hdue
      simp only [hphase, State.monitorPending, if_pos (not_le.mp hdue)] at hlegs
      exact hlegs trivial
    | aligning => exact .inl rfl
    | active =>
      simp only [hphase] at hlegs
      refine absurd ?_ hlegs
      dsimp only [State.monitorActive]
      split
      · exact hgiveUp _
      · split
        · rfl
        · exact hgiveUp _

/-- A tick of the group, and all that is known of it. -/
structure Tick.Regular (g : String) (s u : State R) (k : Tick R) : Prop where
  recovery : s.active g = some k.before
  after : k.after = u.active g
  scheduled : ∃ c ∈ s.pending, c.groupName = g ∧ c.generation = k.generation
  moves : ∀ r', u.active g = some r' → r'.generation = k.generation ∧
    ∃ o, Moves k.cfg k.telemetry k.time k.before r' o ∧
      (o = .raised → ∀ c ∈ u.pending, c.generation ≠ k.generation)
  legs : k.legs ≠ [] → k.before.phase = .aligning ∨
    k.before.phase = .pending ∧ k.before.executeAt ≤ k.time

/-- No tick of `g` passes over a ship off its heading. -/
def Heeded (g : String) (s : State R) : Event R → Prop
  | .fire w i time => ∀ c ∈ s.pending[i]?, c.groupName = g → ∀ r, s.Live c r →
      r.phase = .aligning → ∀ data ∈ windData w (s.setup.config (some g)) g,
      ¬PassesOver w s g r (s.setup.config (some g)) data time
  | _ => True

/-- **The tick lemma.** -/
theorem tick_regular {u : State R} {e : Event R} {k : Tick R} (hnum : Numbered s)
    (hsa : StandAlone s) (hheeded : Heeded g s e) (hs : carrierStep s e = some u)
    (hk : tickOf g s e u = some k) : k.Regular g s u := by
  obtain ⟨w, i, c, time, rfl, hi, rfl, hlive, hu, hk⟩ := tickOf_eq_some hs hk
  let s' : State R := { s with pending := s.pending.eraseIdx i }
  have hsa' : StandAlone s' := hsa
  have hlive' : s'.Live c k.before := hlive
  have hmon : Ticked w s' c.groupName k.before (s'.monitor w c time).1 (s'.monitor w c time).2 :=
    State.monitor_live hlive' (hsa' _ _ hlive.1)
  have hfire : u = (s'.monitor w c time).1.reschedule c (s'.monitor w c time).2 := hu
  have hactive : u.active = (s'.monitor w c time).1.active := by
    rw [hfire, State.reschedule_active]
  have hgen : c.generation = k.generation := hlive.2.symm
  refine ⟨hlive.1, by rw [hk], ⟨c, List.mem_of_getElem? hi, rfl, hgen⟩, ?_, ?_⟩
  · intro r' hr'
    rw [hactive] at hr'
    have hmoves := monitor_moves hlive' (hsa' _ _ hlive.1)
      (fun hphase data hdata => hheeded c hi rfl _ hlive hphase data hdata) hr'
    refine ⟨hmon.generation hr', _, by rw [hk]; exact hmoves, ?_⟩
    intro hraised d hd
    have hpending : u.pending = s'.pending := by
      rw [hfire, hraised]
      exact hmon.pending_eq
    rw [hpending] at hd
    exact hgen ▸ hnum.ne_of_mem_eraseIdx hi hd
  · intro hlegs
    have htime : k.time = time := by rw [hk]
    have heffects : u.effects = (s'.monitor w c time).1.effects := by
      rw [hfire, State.reschedule_effects]
    rw [htime]
    refine monitor_legs (g := c.groupName) (w := w) hlive' fun hsame => hlegs ?_
    rw [hk]
    show (u.effects.drop s.effects.length).filterMap (Effect.recoveryLeg c.groupName) = []
    obtain ⟨es, hes⟩ : ∃ es, (s'.monitor w c time).1.effects = s.effects ++ es := hmon.effects_eq
    rw [hes, List.filterMap_append] at hsame
    rw [heffects, hes, List.drop_left]
    exact List.append_right_eq_self.mp hsame

end Moves

/-! ## 3. What a run keeps -/

section Run

variable {R : Type*} [Field R] [LinearOrder R] [FloorRing R]

/-- What the log says of a recovery: the turn came when it was due and no leg before; and while
aligning the mark is that of a held course, or no longer counts. -/
structure Course (g : String) (log : List (Tick R)) (s : State R) (r : Recovery R) : Prop where
  turned : r.phase ≠ .pending → ∃ j ∈ log, j.generation = r.generation ∧ j.Turns ∧
    r.executeAt ≤ j.time
  waited : ∀ j ∈ log, j.generation = r.generation → j.legs ≠ [] → r.executeAt ≤ j.time
  unmarked : r.phase = .pending → r.alignmentStableSince = none
  held : r.phase = .aligning → ∀ since ∈ r.alignmentStableSince,
    Held log r.generation since r.commandedHeadingDeg ∨
    (∃ j ∈ log, j.generation = r.generation ∧ Late r j.time) ∨
    ∀ c ∈ s.pending, c.groupName = g → c.generation ≠ r.generation

variable {g : String} {log : List (Tick R)} {s u : State R} {r r' : Recovery R} {k : Tick R}

/-- Another time of a failed restore changes nothing of it. -/
theorem Course.kept (h : Course g log s r) (hkept : r.Kept r') : Course g log s r' := by
  obtain ⟨t, rfl⟩ := hkept
  exact ⟨h.turned, h.waited, h.unmarked, h.held⟩

/-- A recovery without a tick yet. -/
theorem Course.new (hphase : r.phase = .pending) (hsince : r.alignmentStableSince = none)
    (hfresh : ∀ j ∈ log, j.generation ≠ r.generation) : Course g log s r where
  turned h := absurd hphase h
  waited j hj hgen := absurd hgen (hfresh j hj)
  unmarked _ := hsince
  held h := by rw [hphase] at h; cases h

/-- **A tick that looks at the heading** leaves a mark of a held course, if any. -/
theorem Course.settles (h : Course g log s k.before) (hscheduled : ∃ c ∈ s.pending,
      c.groupName = g ∧ c.generation = k.generation)
    (hlatest : ∀ j ∈ log, j.generation = k.generation → j.time < k.time) {data : WindData R}
    (hdata : k.telemetry = some data) (hphase : k.before.phase = .aligning)
    (hlate : ¬Late k.before k.time) (hsettles : Settles k.cfg data k.time k.before r')
    (hafter : k.after = some r') {since : R} (hsince : since ∈ r'.alignmentStableSince) :
    Held (log ++ [k]) k.generation since r'.commandedHeadingDeg := by
  have hcommanded : k.after.map Recovery.commandedHeadingDeg = some r'.commandedHeadingDeg := by
    rw [hafter]; rfl
  rcases hsettles.mark with hnone | ⟨hcourse, hmark⟩
  · rw [hnone] at hsince
    cases hsince
  · have hseen : ∀ d ∈ k.telemetry, OnCourse k.cfg d r'.commandedHeadingDeg := by
      intro d hd
      obtain rfl : data = d := Option.some.inj (hdata.symm.trans hd)
      exact hcourse
    rcases hmark with hnow | ⟨-, hsame, hheading⟩
    · obtain rfl : k.time = since := Option.some.inj (hnow.symm.trans hsince)
      exact .begin hlatest hcommanded hseen
    · rw [hsame] at hsince
      rcases h.held hphase since hsince with hheld | ⟨j, hj, hgen, d, hd, hpast⟩ | hstuck
      · rw [← hheading] at hheld
        exact hheld.extend hheading.symm hcommanded hseen
      · exact absurd ⟨d, hd, hpast.trans (hlatest j hj hgen).le⟩ hlate
      · obtain ⟨c, hc, hg, hgen⟩ := hscheduled
        exact absurd hgen (hstuck c hc hg)

/-- One tick keeps it. -/
theorem Course.tick (h : Course g log s k.before) (hreg : k.Regular g s u)
    (hlatest : ∀ j ∈ log, j.generation = k.generation → j.time < k.time)
    (hr' : u.active g = some r') : Course g (log ++ [k]) u r' := by
  have hafter : k.after = some r' := hreg.after.trans hr'
  obtain ⟨hgen, o, hmoves, hraised⟩ := hreg.moves r' hr'
  have hold : ∀ {P : Tick R → Prop}, (∃ j ∈ log, j.generation = k.generation ∧ P j) →
      ∃ j ∈ log ++ [k], j.generation = r'.generation ∧ P j := by
    rintro P ⟨j, hj, hjgen, hP⟩
    exact ⟨j, List.mem_append_left _ hj, hjgen.trans hgen.symm, hP⟩
  have hexecute : r'.executeAt = k.before.executeAt := by
    rcases hmoves with ⟨⟨t, rfl⟩, -⟩ | ⟨-, -, -, hsame, -⟩ | ⟨_, -, -, -, hsettles⟩
    · rfl
    · exact hsame
    · exact hsettles.executeAt
  have hdue : k.legs ≠ [] → k.before.executeAt ≤ k.time := by
    intro hlegs
    rcases hreg.legs hlegs with hphase | ⟨-, hdue⟩
    · obtain ⟨j, hj, hjgen, -, hle⟩ := h.turned (by rw [hphase]; decide)
      exact hle.trans (hlatest j hj hjgen).le
    · exact hdue
  refine ⟨?_, ?_, ?_, ?_⟩
  · intro hphase
    rw [hexecute]
    rcases hmoves with ⟨⟨t, rfl⟩, -⟩ | ⟨hpending, hle, haligning, -, -⟩ |
        ⟨data, -, haligning, -, -⟩
    · exact hold (h.turned hphase)
    · exact ⟨k, by simp, hgen.symm, ⟨hpending, r', hafter, haligning⟩, hle⟩
    · exact hold (h.turned (by rw [haligning]; decide))
  · intro j hj hjgen hlegs
    rw [hexecute]
    rcases List.mem_append.mp hj with hj | hj
    · exact h.waited j hj (hjgen.trans hgen) hlegs
    · rw [List.mem_singleton.mp hj] at hlegs ⊢
      exact hdue hlegs
  · intro hphase
    rcases hmoves with ⟨⟨t, rfl⟩, -⟩ | ⟨-, -, haligning, -, -⟩ | ⟨_, -, -, -, hsettles⟩
    · exact h.unmarked hphase
    · rw [haligning] at hphase
      cases hphase
    · rcases hsettles.phase with hsame | ⟨hsame, -⟩ <;> rw [hsame] at hphase <;> cases hphase
  · intro hphase since hsince
    rcases hmoves with ⟨⟨t, rfl⟩, hexcused⟩ | ⟨hpending, -, -, -, hsame⟩ |
        ⟨data, hdata, haligning, hlate, hsettles⟩
    · rcases h.held hphase since hsince with hheld | hpast | hstuck
      · rcases hexcused hphase with ho | hlate | hnone | hseen
        · exact .inr (.inr fun c hc _ => hgen ▸ hraised ho c hc)
        · exact .inr (.inl ⟨k, by simp, rfl, hlate⟩)
        · rw [show (_ : Option R) = none from hnone] at hsince
          cases hsince
        · exact .inl (hheld.extend rfl (by rw [hafter]; rfl) hseen)
      · exact .inr (.inl (hold hpast))
      · obtain ⟨c, hc, hg, hcgen⟩ := hreg.scheduled
        exact absurd hcgen (hstuck c hc hg)
    · rw [hsame, h.unmarked hpending] at hsince
      cases hsince
    · rw [hgen]
      exact .inl (h.settles hreg.scheduled hlatest hdata haligning hlate hsettles hafter hsince)

/-- **A window opens on a held course**, after the turn. -/
theorem Course.opens (h : Course g log s k.before) (hreg : k.Regular g s u)
    (hlatest : ∀ j ∈ log, j.generation = k.generation → j.time < k.time) (hopens : k.Opens) :
    OpensOnHeldCourse (log ++ [k]) k := by
  obtain ⟨hphase, r', hr', hactive⟩ := hopens
  have hafter : k.after = some r' := hr'
  obtain ⟨-, o, hmoves, -⟩ := hreg.moves r' (hreg.after.symm.trans hafter)
  have hcourse := h.tick hreg hlatest (hreg.after.symm.trans hafter)
  rcases hmoves with ⟨⟨t, rfl⟩, -⟩ | ⟨hpending, -, -, -, -⟩ | ⟨data, hdata, -, hlate, hsettles⟩
  · have hsame : k.before.phase = .active := hactive
    rw [hphase] at hsame
    cases hsame
  · rw [hphase] at hpending
    cases hpending
  · obtain ⟨j, hj, hjgen, hturns, hle⟩ := h.turned (by rw [hphase]; decide)
    refine ⟨?_, ⟨j, List.mem_append_left _ hj, hjgen, hturns, hle, hlatest j hj hjgen⟩, ?_⟩
    · rcases hsettles.phase with haligning | ⟨-, since, hsince, hstable⟩
      · rw [hactive] at haligning
        cases haligning
      · have hheld := h.settles hreg.scheduled hlatest hdata hphase hlate hsettles hafter hsince
        refine ⟨since, _, ?_, hstable, hheld⟩
        obtain ⟨j, hj, hjgen, rfl⟩ := hheld.marked
        rcases List.mem_append.mp hj with hj | hj
        · exact (hlatest j hj hjgen).le
        · rw [List.mem_singleton.mp hj]
    · intro j hj hjgen hlegs
      rw [← hsettles.executeAt]
      exact hcourse.waited j hj (hjgen.trans (hreg.moves r' (hreg.after.symm.trans hafter)).1.symm)
        hlegs

/-- Everything a run keeps. -/
structure Tracked (g : String) (log : List (Tick R)) (s : State R) : Prop where
  standAlone : StandAlone s
  numbered : Numbered s
  logged : Logged g log s
  course : ∀ r, s.active g = some r → Course g log s r

theorem injected_tracked (setup : Setup R) : Tracked g [] (State.injected setup) where
  standAlone := injected_standAlone setup
  numbered := injected_numbered setup
  logged := injected_logged setup
  course r hr := by simp [State.injected] at hr

variable [LuaMath R] {e : Event R}

/-- A step that is no tick. -/
theorem Tracked.quiet (h : Tracked g log s) (hs : carrierStep s e = some u)
    (hk : tickOf g s e u = none) : Tracked g log u := by
  have hquiet := quiet_of_step h.standAlone hs hk
  refine ⟨h.standAlone.step hs, h.numbered.step h.standAlone hs,
    h.logged.quiet h.numbered h.standAlone hs hquiet, ?_⟩
  intro r' hr'
  rcases hquiet.recovery r' hr' with ⟨r, hr, hkept⟩ | ⟨hgen, hphase, hsince⟩
  · have hcourse := h.course r hr
    refine Course.kept ⟨hcourse.turned, hcourse.waited, hcourse.unmarked, ?_⟩ hkept
    intro haligning since hsince
    rcases hcourse.held haligning since hsince with hheld | hpast | hstuck
    · exact .inl hheld
    · exact .inr (.inl hpast)
    · refine .inr (.inr ?_)
      intro c hc hg
      rcases hquiet.callbacks c hc hg with hc | hnew
      · exact hstuck c hc hg
      · have hle := h.numbered.active g r hr
        omega
  · refine .new hphase hsince ?_
    intro j hj
    have hle := h.logged.old j hj
    omega

variable [IsStrictOrderedRing R]

/-- **The step lemma.** -/
theorem Tracked.step (h : Tracked g log s) (hpunctual : Punctual s e) (hheeded : Heeded g s e)
    (hs : carrierStep s e = some u) : Tracked g (log ++ (tickOf g s e u).toList) u := by
  cases hk : tickOf g s e u with
  | none =>
    rw [Option.toList_none, List.append_nil]
    exact h.quiet hs hk
  | some k =>
    have hreg := tick_regular h.numbered h.standAlone hheeded hs hk
    refine ⟨h.standAlone.step hs, h.numbered.step h.standAlone hs,
      h.logged.tick h.numbered h.standAlone hpunctual hs hk, ?_⟩
    intro r' hr'
    exact (h.course _ hreg.recovery).tick hreg (fun _ hj => h.logged.time_lt hpunctual hs hk hj) hr'

/-- **The run lemma.** -/
theorem tracked_of_run {setup : Setup R} {es : List (Event R)}
    (hrun : Run carrierStep (fun s e => Punctual s e ∧ Heeded g s e) (State.injected setup) es s) :
    Tracked g (ticks g (State.injected setup) es) s := by
  induction hrun with
  | nil => exact injected_tracked setup
  | snoc hrun hC hs ih =>
    rw [ticks_concat hrun hs]
    exact ih.step hC.1 hC.2 hs

/-- **Windows open on held courses.**  In every run in which DCS is punctual and no tick of `g`
passes over a ship off its heading, all recovery legs of `g` are issued in ticks of its recoveries,
and every tick that opens a window does so on a course held for long enough, after the turn, with
no leg issued before the turn was due. -/
theorem window_opens_on_held_course {setup : Setup R} {es : List (Event R)}
    (hrun : Run carrierStep (fun s e => Punctual s e ∧ Heeded g s e) (State.injected setup) es s) :
    s.effects.filterMap (Effect.recoveryLeg g) =
        (ticks g (State.injected setup) es).flatMap Tick.legs ∧
      ∀ log k later, ticks g (State.injected setup) es = log ++ k :: later → k.Opens →
        OpensOnHeldCourse (log ++ [k]) k := by
  refine ⟨(tracked_of_run hrun).logged.legs, ?_⟩
  induction hrun with
  | nil =>
    intro log k later hsplit
    exact absurd hsplit.symm (by simp [ticks])
  | @snoc t u es e hrun hC hs ih =>
    intro log k later hsplit hopens
    rw [ticks_concat hrun hs] at hsplit
    cases hk : tickOf g t e u with
    | none =>
      rw [hk, Option.toList_none, List.append_nil] at hsplit
      exact ih log k later hsplit hopens
    | some k' =>
      rw [hk, Option.toList_some] at hsplit
      rcases later.eq_nil_or_concat with rfl | ⟨later, last, rfl⟩
      · obtain ⟨hlog, hlast⟩ := List.append_inj' hsplit rfl
        obtain rfl : k' = k := by simpa using hlast
        have htracked := tracked_of_run hrun
        have hreg := tick_regular htracked.numbered htracked.standAlone hC.2 hs hk
        rw [← hlog]
        exact (htracked.course _ hreg.recovery).opens hreg
          (fun _ hj => htracked.logged.time_lt hC.1 hs hk hj) hopens
      · rw [List.concat_eq_append, ← List.cons_append, ← List.append_assoc] at hsplit
        exact ih log k later (List.append_inj' hsplit rfl).1 hopens

end Run

/-! ## 4. The gap -/

section Coast

/-- A carrier off the coast, heading south, that cannot be sent back to its circuit. -/
noncomputable def coast (time : ℝ) : World ℝ :=
  { calmSea time with
    group := fun _ => some ⟨true, 1, some { calmShip with forward := some ⟨-1, 0, 0⟩ }, none⟩
    surface := fun _ _ => .LAND
    setTaskRaises := fun site => site = .circuit }

theorem coast_headingFromUnit : headingFromUnit (⟨-1, 0, 0⟩ : Vec3 ℝ) = 180 := by
  have harg : LuaMath.atan2 (0 : ℝ) (-1) = Real.pi := by
    have hsouth : (⟨-1, 0⟩ : ℂ) = -1 := Complex.ext (by simp) (by simp)
    show Complex.arg ⟨-1, 0⟩ = Real.pi
    rw [hsouth, Complex.arg_neg_one]
  have hdeg : luaDeg (Real.pi : ℝ) = 180 := by
    have hpi : (LuaMath.pi : ℝ) = Real.pi := rfl
    rw [luaDeg, hpi]
    field_simp
  have hfloor : ⌊(180 : ℝ) / 360⌋ = 0 := by norm_num
  simp [headingFromUnit, harg, hdeg, normalizeHeadingDeg, luaMod, hfloor]

/-- Without wind the course is kept, to the south. -/
theorem coast_windData (time : ℝ) (cfg : Config ℝ) (g : String)
    (hweak : 0 < Value.numberOr (cfg.value "angledDeckMinWindKt") 3) :
    ∃ data, windData (coast time) cfg g = some data ∧
      data.headingDeg = 180 ∧ data.recoveryHeadingDeg = 180 := by
  have hwind : ∀ p, (coast time).wind p = none := fun _ => rfl
  have hnormal : normalizeHeadingDeg (180 : ℝ) = 180 := by
    have hfloor : ⌊(180 : ℝ) / 360⌋ = 0 := by norm_num
    simp [normalizeHeadingDeg, luaMod, hfloor]
  refine ⟨_, rfl, coast_headingFromUnit, ?_⟩
  simp only [hwind, Option.getD_none, calm_horizontalKt, coast_headingFromUnit]
  rw [solve_weak (by exact hweak)]
  simp only [hnormal]

/-- There is no safe leg. -/
theorem coast_buildRoute {cfg : Config ℝ} {target : ℝ} (h : Plain cfg target) (time : ℝ)
    (data : WindData ℝ) (requiredSec : ℝ) : buildRoute (coast time) data requiredSec cfg = none := by
  have hmiles : Value.numberOr (cfg.value "landClearanceNm") 2 = 2 :=
    h.numberOr (by decide) (by simp [defaults, defaultValues, List.lookup_cons]) _
  have hclearance : Arithmetic.exact.clearance cfg = 2 * 1852 := by
    rw [Arithmetic.clearance, hmiles]
    rfl
  have hnoLeg : ∀ distance, ¬straightCourseIsSafe (coast time) ⟨data.point.x, data.point.z⟩
      data.recoveryHeadingDeg distance cfg = true := by
    intro distance hsafe
    by_cases hd : distance ≤ 0
    · simp [straightCourseIsSafe, hd] at hsafe
    · have hwater := (straightCourseIsSafe_iff (not_le.mp hd)).mp hsafe distance (.inr rfl)
        (-Arithmetic.exact.clearance cfg) ⟨0, rfl, by rw [hclearance]; norm_num⟩
      simp [World.IsWater, isWater, coast] at hwater
  rw [buildRoute, if_neg (hnoLeg _)]

theorem headingDiff_south : headingDiff (180 : ℝ) (some 0) = 180 := by
  have hfloor : ⌊(360 : ℝ) / 360⌋ = 1 := by norm_num
  norm_num [headingDiff, luaMod, luaAbs, hfloor]

variable {g : String} {s : State ℝ} {target : ℝ} {r : Recovery ℝ}

/-- The tick off the coast leaves the recovery as it was. -/
theorem Flying.passedOver (h : Flying g s target r) (hphase : r.phase = .aligning)
    (hheading : r.commandedHeadingDeg = some 0) {deadline time : ℝ}
    (hdeadline : r.alignmentDeadline = some deadline) (htime : time < deadline) :
    ∃ t u, carrierStep s (.fire (coast time) 0 time) = some u ∧
      Flying g u target { r with lastRestoreFailureAt := t } ∧ u.setup = s.setup ∧
      u.pending = [⟨g, r.generation, time + 15⟩] := by
  have hminWind :
      Value.numberOr ((s.setup.config (some g)).value "angledDeckMinWindKt") 3 = 3 :=
    h.plain.numberOr (by decide) (by simp [defaults, defaultValues, List.lookup_cons]) _
  have htolerance :
      Value.numberOr ((s.setup.config (some g)).value "headingToleranceDeg") 5 = 5 :=
    h.plain.numberOr (by decide) (by simp [defaults, defaultValues, List.lookup_cons]) _
  have hweak : 0 < Value.numberOr ((s.setup.config (some g)).value "angledDeckMinWindKt") 3 := by
    rw [hminWind]
    norm_num
  obtain ⟨data, hdata, -, hcourse⟩ := coast_windData time (s.setup.config (some g)) g hweak
  have hroute : circuitRoute (coast time) (s.setup.config (some g)) g r = none := by
    simp [circuitRoute, coast, World.leadUnit, calmShip]
  obtain ⟨t, es, hgiveUp⟩ : ∃ t es, ∀ s' : State ℝ, s'.setup = s.setup → s'.active g = some r →
      s'.giveUp (coast time) "unsafe" g time =
        (s'.withRecovery g (some { r with lastRestoreFailureAt := t }) es,
          .done (some (time + 15))) := by
    by_cases hreport : ∀ t ∈ r.lastRestoreFailureAt, 30 ≤ (coast time).time - t
    · refine ⟨some (coast time).time, [.say g r.coalition (.returnFailed g) 15],
        ?_⟩
      intro s' hsetup hr
      simp only [State.giveUp, State.restore, hsetup, h.standalone, hr, hroute, Option.isSome_none,
        Bool.false_eq_true, if_false, State.restoreFailed, if_pos hreport, Reply.succeeded]
      rw [State.setActive_eq, State.say_eq State.withRecovery_active,
        State.withRecovery_withRecovery, List.nil_append]
    · refine ⟨r.lastRestoreFailureAt, [], ?_⟩
      intro s' hsetup hr
      simp only [State.giveUp, State.restore, hsetup, h.standalone, hr, hroute, Option.isSome_none,
        Bool.false_eq_true, if_false, State.restoreFailed, if_neg hreport, Reply.succeeded]
      rw [State.withRecovery_self hr]
  have hmon : ∀ s' : State ℝ, s'.setup = s.setup → s'.active g = some r →
      s'.monitorPhase (coast time) g r (s.setup.config (some g)) data time =
        (s'.withRecovery g (some { r with lastRestoreFailureAt := t }) es,
          .done (some (time + 15))) := by
    intro s' hsetup hr
    have hretarget : headingDiff data.recoveryHeadingDeg r.commandedHeadingDeg >
        Value.numberOr ((s.setup.config (some g)).value "headingToleranceDeg") 5 := by
      rw [hcourse, hheading, headingDiff_south, htolerance]
      norm_num
    rw [← hgiveUp s' hsetup hr]
    simp [State.monitorPhase, hphase, State.monitorAligning, hdeadline, htime.not_ge, hretarget,
      coast_buildRoute h.plain]
  obtain ⟨u, hu, hfly, hsetup, -, hqueue⟩ := h.fire hdata hmon rfl
  exact ⟨t, u, hu, hfly, hsetup, hqueue⟩

/-- Firing the callback of the one recovery is a tick of it. -/
theorem Flying.exists_tick (h : Flying g s target r) (w : World ℝ) (time : ℝ) (u : State ℝ) :
    ∃ k, tickOf g s (.fire w 0 time) u = some k ∧ k.time = time ∧ k.before = r ∧
      k.after = u.active g ∧ k.cfg = s.setup.config (some g) ∧
      k.telemetry = windData w (s.setup.config (some g)) g := by
  obtain ⟨t, hpending⟩ := h.pending
  have htick : tickOf g s (.fire w 0 time) u = some ⟨time, r, u.active g, s.setup.config (some g),
      windData w (s.setup.config (some g)) g,
      (u.effects.drop s.effects.length).filterMap (Effect.recoveryLeg g)⟩ := by
    simp [tickOf, hpending, h.active]
  exact ⟨_, htick, rfl, rfl, rfl, rfl, rfl⟩

theorem Flying.punctual {w : World ℝ} {t time : ℝ} (hpending : s.pending = [⟨g, r.generation, t⟩])
    (ht : t ≤ time) : Punctual s (.fire w 0 time) := by
  intro c hc
  obtain rfl : ⟨g, r.generation, t⟩ = c := by simpa [hpending] using hc
  exact ht

/-- In a calm nothing is to be retargeted. -/
theorem Flying.heeded (h : Flying g s target r) (hlow : 10 ≤ target) (hhigh : target ≤ 30)
    (hcalm : r.phase = .aligning → r.commandedHeadingDeg = some 0) (time : ℝ) :
    Heeded g s (.fire (calmSea time) 0 time) := by
  intro c hc hg r' hlive hphase data hdata hpass
  obtain rfl : r = r' := Option.some.inj (h.active.symm.trans (hg ▸ hlive.1))
  obtain ⟨data', route, hdata', -, -, hcourse, -⟩ := h.plain.windData hlow hhigh time g
  obtain rfl : data' = data := Option.some.inj (hdata'.symm.trans hdata)
  have hretarget := hpass.2.1
  have htolerance :
      Value.numberOr ((s.setup.config (some g)).value "headingToleranceDeg") 5 = 5 :=
    h.plain.numberOr (by decide) (by simp [defaults, defaultValues, List.lookup_cons]) _
  rw [headingTolerance, htolerance, hcourse, hcalm hphase, headingDiff_zero] at hretarget
  norm_num at hretarget

end Coast

/-- The ship turns and settles on its course; off the coast, heading south, a retarget finds no
safe leg and the restore fails; back on the commanded course the window opens. -/
noncomputable def coastPassed : List (Event ℝ) :=
  [.start (calmSea 0) (some "CVN-71") none, .fire (calmSea 60) 0 60, .fire (calmSea 66) 0 66,
    .fire (coast 71) 0 71, .fire (calmSea 86) 0 86]

/-- **A ship off its heading is passed over.**  Fifteen seconds before the window opens the ship was
seen a half turn off the commanded heading. -/
theorem coast_passed_over : ∃ s log k,
    Run carrierStep Punctual (State.injected bareMission) coastPassed s ∧
    ticks "CVN-71" (State.injected bareMission) coastPassed = log ++ [k] ∧ k.Opens ∧
    ¬OpensOnHeldCourse (log ++ [k]) k := by
  obtain ⟨s₁, r₁, h₁, hfly₁, hphase₁, hdue, hsince₁, hqueue₁⟩ := bareMission_start "CVN-71"
  obtain ⟨s₂, r₂, h₂, hfly₂, -, hphase₂, hheading₂, -, hdeadline₂, hsince₂, hqueue₂⟩ :=
    hfly₁.turn (by norm_num) (by norm_num) hphase₁ hdue.le
  obtain ⟨s₃, h₃, hfly₃, -, hqueue₃⟩ := hfly₂.settle hphase₂ hheading₂ hdeadline₂
    (show (66 : ℝ) < _ by norm_num) (by norm_num) (by norm_num) (hsince₂.trans hsince₁)
  obtain ⟨t, s₄, h₄, hfly₄, -, hqueue₄⟩ := hfly₃.passedOver hphase₂ hheading₂ hdeadline₂
    (show (71 : ℝ) < _ by norm_num)
  obtain ⟨s₅, r₅, route, say, h₅, hfly₅, hphase₅, -⟩ :=
    hfly₄.openWindow hphase₂ hheading₂ hdeadline₂ (show (86 : ℝ) < _ by norm_num) (by norm_num)
      (by norm_num) rfl (by norm_num)
  have hrun : Run carrierStep Punctual (State.injected bareMission) coastPassed s₅ :=
    .cons trivial h₁ (.cons (Flying.punctual hqueue₁ (by norm_num)) h₂
      (.cons (Flying.punctual hqueue₂ (by norm_num)) h₃
        (.cons (Flying.punctual (r := { r₂ with alignmentStableSince := some 66 }) hqueue₃
          (by norm_num)) h₄
          (.single (Flying.punctual (r := { r₂ with alignmentStableSince := some 66 }) hqueue₄
            (by norm_num)) h₅))))
  obtain ⟨k₂, hk₂, -⟩ := hfly₁.exists_tick (calmSea 60) 60 s₂
  obtain ⟨k₃, hk₃, -⟩ := hfly₂.exists_tick (calmSea 66) 66 s₃
  obtain ⟨k₄, hk₄, htime₄, hbefore₄, hafter₄, hcfg₄, htelemetry₄⟩ :=
    hfly₃.exists_tick (coast 71) 71 s₄
  obtain ⟨k₅, hk₅, htime₅, hbefore₅, hafter₅, hcfg₅, -⟩ := hfly₄.exists_tick (calmSea 86) 86 s₅
  have hticks : ticks "CVN-71" (State.injected bareMission) coastPassed =
      [k₂, k₃, k₄] ++ [k₅] := by
    have hstart : tickOf "CVN-71" (State.injected bareMission)
        (.start (calmSea 0) (some "CVN-71") none) s₁ = none := rfl
    simp only [coastPassed, ticks, h₁, h₂, h₃, h₄, h₅, hstart, hk₂, hk₃, hk₄, hk₅,
      Option.toList_none, Option.toList_some, List.nil_append, List.cons_append]
  refine ⟨s₅, [k₂, k₃, k₄], k₅, hrun, hticks, ⟨?_, r₅, ?_, hphase₅⟩, ?_⟩
  · rw [hbefore₅]
    exact hphase₂
  · rw [hafter₅]
    exact hfly₅.active
  · rintro ⟨⟨since, heading, -, hstable, hheld⟩, -, -⟩
    have hmem : k₄ ∈ [k₂, k₃, k₄] ++ [k₅] := by simp
    have hgen : k₄.generation = k₅.generation := by
      rw [Tick.generation, Tick.generation, hbefore₄, hbefore₅]
    have hsince : since ≤ k₄.time := by
      have hstableSec :
          Value.numberOr ((s₄.setup.config (some "CVN-71")).value "alignmentStableSec") 15 = 15 :=
        hfly₄.plain.numberOr (by decide) (by simp [defaults, defaultValues, List.lookup_cons]) _
      rw [alignmentStable, hcfg₅, hstableSec, htime₅] at hstable
      rw [htime₄]
      linarith
    have hheading : heading = some 0 := by
      have hafter := hheld.after k₄ hmem hgen hsince
      rw [hafter₄, hfly₄.active] at hafter
      exact (Option.some.inj hafter).symm.trans hheading₂
    have hplain := hfly₃.plain
    rw [← hcfg₄] at hplain
    have hminWind : Value.numberOr (k₄.cfg.value "angledDeckMinWindKt") 3 = 3 :=
      hplain.numberOr (by decide) (by simp [defaults, defaultValues, List.lookup_cons]) _
    have htolerance : Value.numberOr (k₄.cfg.value "headingToleranceDeg") 5 = 5 :=
      hplain.numberOr (by decide) (by simp [defaults, defaultValues, List.lookup_cons]) _
    have hweak : 0 < Value.numberOr (k₄.cfg.value "angledDeckMinWindKt") 3 := by
      rw [hminWind]
      norm_num
    obtain ⟨data, hdata, hsouth, -⟩ := coast_windData 71 k₄.cfg "CVN-71" hweak
    have hseen := hheld.seen k₄ hmem hgen hsince data (by rw [htelemetry₄, ← hcfg₄]; exact hdata)
    rw [OnCourse, headingTolerance, htolerance, hsouth, hheading,
      headingDiff_south] at hseen
    norm_num at hseen

/-- In a calm the window opens after fifteen seconds on the course. -/
theorem window_opens_on_held_course_calm : ∃ s log k,
    Run carrierStep (fun s e => Punctual s e ∧ Heeded "CVN-71" s e) (State.injected bareMission)
      [.start (calmSea 0) (some "CVN-71") none, .fire (calmSea 60) 0 60, .fire (calmSea 65) 0 65,
        .fire (calmSea 80) 0 80] s ∧
    ticks "CVN-71" (State.injected bareMission)
      [.start (calmSea 0) (some "CVN-71") none, .fire (calmSea 60) 0 60, .fire (calmSea 65) 0 65,
        .fire (calmSea 80) 0 80] = log ++ [k] ∧
    k.Opens ∧ OpensOnHeldCourse (log ++ [k]) k := by
  obtain ⟨s₁, r₁, h₁, hfly₁, hphase₁, hdue, hsince₁, hqueue₁⟩ := bareMission_start "CVN-71"
  obtain ⟨s₂, r₂, h₂, hfly₂, -, hphase₂, hheading₂, -, hdeadline₂, hsince₂, hqueue₂⟩ :=
    hfly₁.turn (by norm_num) (by norm_num) hphase₁ hdue.le
  obtain ⟨s₃, h₃, hfly₃, -, hqueue₃⟩ := hfly₂.settle hphase₂ hheading₂ hdeadline₂
    (show (65 : ℝ) < _ by norm_num) (by norm_num) (by norm_num) (hsince₂.trans hsince₁)
  obtain ⟨s₄, r₄, route, say, h₄, hfly₄, hphase₄, -⟩ :=
    hfly₃.openWindow hphase₂ hheading₂ hdeadline₂ (show (80 : ℝ) < _ by norm_num) (by norm_num)
      (by norm_num) rfl (by norm_num)
  have hrun : Run carrierStep (fun s e => Punctual s e ∧ Heeded "CVN-71" s e)
      (State.injected bareMission) [.start (calmSea 0) (some "CVN-71") none,
        .fire (calmSea 60) 0 60, .fire (calmSea 65) 0 65, .fire (calmSea 80) 0 80] s₄ := by
    refine .cons ⟨trivial, trivial⟩ h₁ (.cons ⟨Flying.punctual hqueue₁ (by norm_num), ?_⟩ h₂
      (.cons ⟨Flying.punctual hqueue₂ (by norm_num), ?_⟩ h₃
        (.single ⟨Flying.punctual (r := { r₂ with alignmentStableSince := some 65 }) hqueue₃
          (by norm_num), ?_⟩ h₄)))
    · exact hfly₁.heeded (by norm_num) (by norm_num) (fun h => by rw [hphase₁] at h; cases h) 60
    · exact hfly₂.heeded (by norm_num) (by norm_num) (fun _ => hheading₂) 65
    · exact hfly₃.heeded (by norm_num) (by norm_num) (fun _ => hheading₂) 80
  obtain ⟨k₂, hk₂, -⟩ := hfly₁.exists_tick (calmSea 60) 60 s₂
  obtain ⟨k₃, hk₃, -⟩ := hfly₂.exists_tick (calmSea 65) 65 s₃
  obtain ⟨k₄, hk₄, -, hbefore₄, hafter₄, -⟩ := hfly₃.exists_tick (calmSea 80) 80 s₄
  have hticks : ticks "CVN-71" (State.injected bareMission)
      [.start (calmSea 0) (some "CVN-71") none, .fire (calmSea 60) 0 60, .fire (calmSea 65) 0 65,
        .fire (calmSea 80) 0 80] = [k₂, k₃] ++ [k₄] := by
    have hstart : tickOf "CVN-71" (State.injected bareMission)
        (.start (calmSea 0) (some "CVN-71") none) s₁ = none := rfl
    simp only [ticks, h₁, h₂, h₃, h₄, hstart, hk₂, hk₃, hk₄, Option.toList_none,
      Option.toList_some, List.nil_append, List.cons_append]
  have hopens : k₄.Opens :=
    ⟨by rw [hbefore₄]; exact hphase₂, r₄, by rw [hafter₄]; exact hfly₄.active, hphase₄⟩
  exact ⟨s₄, [k₂, k₃], k₄, hrun, hticks, hopens,
    (window_opens_on_held_course hrun).2 [k₂, k₃] k₄ [] hticks hopens⟩

end DcsDashboard.Carrier

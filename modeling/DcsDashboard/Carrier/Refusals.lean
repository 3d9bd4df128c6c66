/-
# Refusals

`M.start` refuses at five exits and `M.restore` at two, all between reads and writes of tables that
the groups share.  A refused start leaves the table of recoveries, the counter, the queue and the
ships as they were.  A refused restore may note when it failed; nothing else of a recovery changes
(`Recovery.Kept`), so its callback is still live and it can be restored later (`Intact`).
-/
import DcsDashboard.Carrier.Ticks

namespace DcsDashboard.Carrier

open Lib

section Shape

variable {R : Type*}

/-! ## 1. What a refusal leaves -/

/-- The routes put into effect, with the groups they were issued to. -/
def routes (es : List (Effect R)) : List (String × Issued R) :=
  es.filterMap fun
    | .route g issued => some (g, issued)
    | .say _ _ _ _ | .sayToGroup _ _ _ => none

theorem routes_append (es fs : List (Effect R)) : routes (es ++ fs) = routes es ++ routes fs :=
  List.filterMap_append

@[simp] theorem routes_sayToGroup (s : State R) (groupId : Option Nat) (m : Message R)
    (seconds : Nat) : routes (s.sayToGroup groupId m seconds).effects = routes s.effects := by
  cases groupId with
  | none => simp [State.sayToGroup]
  | some id =>
    have hnone : routes [.sayToGroup id m seconds] = ([] : List (String × Issued R)) := rfl
    simp [State.sayToGroup, routes_append, hnone]

/-- A recovery as it was, but for the time at which its failure to restore was last reported. -/
def Recovery.Kept (r r' : Recovery R) : Prop := ∃ t, r' = { r with lastRestoreFailureAt := t }

theorem Recovery.Kept.refl (r : Recovery R) : r.Kept r := ⟨r.lastRestoreFailureAt, rfl⟩

/-- A refused start: no recovery, no callback, no route. -/
structure NotStarted (s u : State R) : Prop where
  active : u.active = s.active
  generation : u.generation = s.generation
  pending : u.pending = s.pending
  routes : routes u.effects = Carrier.routes s.effects

end Shape

section Refusals

variable {R : Type*} [Field R] [LinearOrder R] [LuaMath R]

/-- A refused restore: every recovery is kept, and can be monitored and restored as before. -/
structure Intact (s u : State R) : Prop where
  recoveries : ∀ h, Option.Rel Recovery.Kept (s.active h) (u.active h)
  generation : u.generation = s.generation
  pending : u.pending = s.pending
  routes : routes u.effects = Carrier.routes s.effects
  live : ∀ c r, s.Live c r → ∃ r', r.Kept r' ∧ u.Live c r'
  restorable : ∀ w reason h groupId, (u.restore w reason h groupId).2 =
    (s.restore w reason h groupId).2

variable {s u : State R} {g : String}

omit [Field R] [LinearOrder R] [LuaMath R] in
theorem optionRel_kept_refl (a : Option (Recovery R)) : Option.Rel Recovery.Kept a a := by
  cases a with
  | none => exact .none
  | some r => exact .some (.refl r)

/-- What a restore answers depends on nothing else. -/
theorem restore_reply_congr (hsetup : u.setup = s.setup)
    (hactive : ∀ h, Option.Rel Recovery.Kept (s.active h) (u.active h)) (w : World R)
    (reason h : String) (groupId : Option Nat) :
    (u.restore w reason h groupId).2 = (s.restore w reason h groupId).2 := by
  have hkept := hactive h
  simp only [State.restore, hsetup]
  split
  · rfl
  · cases hs : s.active h with
    | none =>
      rw [hs] at hkept
      cases hu : u.active h with
      | none => rfl
      | some r => rw [hu] at hkept; cases hkept
    | some r =>
      rw [hs] at hkept
      cases hu : u.active h with
      | none => rw [hu] at hkept; cases hkept
      | some r' =>
        rw [hu] at hkept
        obtain ⟨t, rfl⟩ : r.Kept r' := by cases hkept; assumption
        have hroute : circuitRoute w (s.setup.config (some h)) h
            { r with lastRestoreFailureAt := t } =
              circuitRoute w (s.setup.config (some h)) h r := rfl
        simp only [hroute]
        cases circuitRoute w (s.setup.config (some h)) h r <;> rfl

theorem Intact.of_kept (hsetup : u.setup = s.setup)
    (hactive : ∀ h, Option.Rel Recovery.Kept (s.active h) (u.active h))
    (hgeneration : u.generation = s.generation) (hpending : u.pending = s.pending)
    (hroutes : Carrier.routes u.effects = Carrier.routes s.effects) : Intact s u where
  recoveries := hactive
  generation := hgeneration
  pending := hpending
  routes := hroutes
  live c r hlive := by
    have hkept := hactive c.groupName
    rw [hlive.1] at hkept
    cases hu : u.active c.groupName with
    | none => rw [hu] at hkept; cases hkept
    | some r' =>
      rw [hu] at hkept
      obtain ⟨t, rfl⟩ : r.Kept r' := by cases hkept; assumption
      exact ⟨_, ⟨t, rfl⟩, hu, hlive.2⟩
  restorable := restore_reply_congr hsetup hactive

/-! ## 2. Restore -/

/-- **A refused restore leaves the controller intact.** -/
theorem State.restore_refused {w : World R} {reason : String} {groupId : Option Nat}
    (hrefused : (s.restore w reason g groupId).2.succeeded = false) :
    Intact s (s.restore w reason g groupId).1 := by
  have hsame : ∀ h, Option.Rel Recovery.Kept (s.active h) (s.active h) :=
    fun h => optionRel_kept_refl _
  by_cases hentry : (s.setup.footholdEntry g).isSome = true
  · simp only [State.restore, if_pos hentry]
    exact .of_kept rfl hsame rfl rfl rfl
  · have hstandalone : s.setup.footholdEntry g = none := by simpa using hentry
    cases hr : s.active g with
    | none =>
      simp only [State.restore, if_neg hentry, hr]
      exact .of_kept rfl hsame rfl rfl (routes_sayToGroup _ _ _ _)
    | some r =>
      rcases s.restore_cases w reason groupId hstandalone hr with ⟨points, he⟩ | ⟨t, es, he, hes⟩
      · rw [he] at hrefused
        cases hrefused
      · rw [he]
        refine .of_kept rfl ?_ rfl rfl ?_
        · intro h
          by_cases hh : h = g
          · subst hh
            rw [State.withRecovery_active, hr]
            exact .some ⟨t, rfl⟩
          · rw [State.withRecovery_active_of_ne hh]
            exact hsame h
        · rw [State.withRecovery_effects, routes_append]
          rcases hes with rfl | rfl
          · exact List.append_nil _
          · exact List.append_nil _

/-- A restore changes the recovery of its own group only. -/
theorem State.restore_active_of_ne {h : String} (hne : h ≠ g) (w : World R) (reason : String)
    (groupId : Option Nat) : (s.restore w reason g groupId).1.active h = s.active h := by
  rcases s.restore_exits w reason g groupId with
    he | ⟨m, seconds, he⟩ | ⟨r, -, ⟨points, he⟩ | ⟨t, es, he, -⟩⟩
  · rw [he]
  · rw [he]
    rfl
  · rw [he]
    exact State.withRecovery_active_of_ne hne
  · rw [he]
    exact State.withRecovery_active_of_ne hne

/-! ## 3. Start -/

variable [FloorRing R]

/-- **A refused start leaves everything as it was.** -/
theorem State.start_refused {w : World R} {groupId : Option Nat}
    (hrefused : (s.start w g groupId).2.succeeded = false) :
    NotStarted s (s.start w g groupId).1 := by
  rcases s.start_cases w g groupId with ⟨data, -, -, he⟩ | ⟨m, seconds, he⟩ | ⟨-, he⟩
  · rw [he] at hrefused
    cases hrefused
  · rw [he]
    exact ⟨rfl, rfl, rfl, routes_sayToGroup _ _ _ _⟩
  · rw [he]
    exact ⟨rfl, rfl, rfl, rfl⟩

/-- A start changes the recovery of its own group only. -/
theorem State.start_active_of_ne {h : String} (hne : h ≠ g) (w : World R) (groupId : Option Nat) :
    (s.start w g groupId).1.active h = s.active h := by
  rcases s.start_cases w g groupId with ⟨data, -, -, he⟩ | ⟨m, seconds, he⟩ | ⟨-, he⟩
  · rw [he]
    exact Function.update_of_ne hne _ _
  · rw [he]
    rfl
  · rw [he]

/-- **Refusals are atomic**, and neither call changes the recovery of another group. -/
theorem refusals_atomic (s : State R) (w : World R) (g : String) (groupId : Option Nat) :
    ((s.start w g groupId).2.succeeded = false → NotStarted s (s.start w g groupId).1) ∧
    (∀ reason, (s.restore w reason g groupId).2.succeeded = false →
      Intact s (s.restore w reason g groupId).1) ∧
    ∀ h, h ≠ g → (s.start w g groupId).1.active h = s.active h ∧
      ∀ reason, (s.restore w reason g groupId).1.active h = s.active h :=
  ⟨State.start_refused, fun _ => State.restore_refused, fun _ hne =>
    ⟨State.start_active_of_ne hne w groupId, fun reason =>
      State.restore_active_of_ne hne w reason groupId⟩⟩

end Refusals

end DcsDashboard.Carrier

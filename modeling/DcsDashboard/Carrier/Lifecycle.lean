/-
# The life of a recovery

The table of active recoveries, the generation counter and DCS's queue of callbacks belong
together: a recovery is active exactly while one callback carries its generation.  A recovery
ends in a restore, called by the user or from any exit of `monitor`; its callback may then still
be queued, and a new start may come before it fires.

Two facts about the queue carry this.  Generations in it are distinct and not above the counter
(`Numbered`), so a callback of an earlier recovery cannot be taken for one of a later; and a
callback is rescheduled exactly when its recovery is kept (`Scheduled`).  The second fails where a
callback raises, which DCS does not schedule again.
-/
import DcsDashboard.Carrier.CalmSea
import DcsDashboard.Carrier.Ticks

namespace DcsDashboard.Carrier

open Lib

/-! ## 1. Generations -/

section Numbered

variable {R : Type*}

/-- Generations name recoveries: those in the queue are distinct, and none is above the counter.
Unlike `Lifecycle` this holds when a callback raises, too. -/
structure Numbered (s : State R) : Prop where
  distinct : (s.pending.map Callback.generation).Nodup
  queued : ∀ c ∈ s.pending, c.generation ≤ s.generation
  active : ∀ h r, s.active h = some r → r.generation ≤ s.generation

theorem injected_numbered (setup : Setup R) : Numbered (State.injected setup) where
  distinct := List.nodup_nil
  queued c h := by simp [State.injected] at h
  active h r hr := by simp [State.injected] at hr

variable {s : State R} {g : String} {i : Nat} {c : Callback R}

theorem Numbered.withRecovery (h : Numbered s) {a : Option (Recovery R)} (es : List (Effect R))
    (ha : ∀ r ∈ a, r.generation ≤ s.generation) : Numbered (s.withRecovery g a es) where
  distinct := h.distinct
  queued := h.queued
  active k r hr := by
    by_cases hkg : k = g
    · subst hkg
      exact ha r (State.withRecovery_active.symm.trans hr)
    · exact h.active k r (State.active_of_withRecovery hkg hr)

theorem Numbered.eraseIdx (h : Numbered s) (i : Nat) :
    Numbered { s with pending := s.pending.eraseIdx i } where
  distinct := h.distinct.sublist ((List.eraseIdx_sublist _ _).map _)
  queued d hd := h.queued d (List.mem_of_mem_eraseIdx hd)
  active := h.active

/-- A callback taken from the queue is put back with its own generation. -/
theorem Numbered.reschedule {u : State R} (h : Numbered u) (hgen : c.generation ≤ u.generation)
    (hfresh : ∀ d ∈ u.pending, d.generation ≠ c.generation) (o : Outcome R) :
    Numbered (u.reschedule c o) := by
  rcases o with ⟨_ | t⟩ | _
  · exact h
  · refine ⟨?_, ?_, h.active⟩
    · simp only [State.reschedule, List.map_append, List.map_cons, List.map_nil]
      rw [← List.concat_eq_append]
      refine List.Nodup.concat (fun hmem => ?_) h.distinct
      obtain ⟨d, hd, hdgen⟩ := List.mem_map.mp hmem
      exact hfresh d hd hdgen
    · intro d hd
      rcases List.mem_append.mp hd with hd | hd
      · exact h.queued d hd
      · rw [List.mem_singleton.mp hd]
        exact hgen
  · exact h

/-- Taking a callback from the queue leaves the others. -/
theorem perm_eraseIdx (hi : s.pending[i]? = some c) :
    (c :: s.pending.eraseIdx i).Perm s.pending := by
  obtain ⟨hlt, rfl⟩ := List.getElem?_eq_some_iff.mp hi
  exact List.getElem_cons_eraseIdx_perm hlt

/-- The other callbacks carry other generations. -/
theorem Numbered.ne_of_mem_eraseIdx (h : Numbered s) (hi : s.pending[i]? = some c)
    {d : Callback R} (hd : d ∈ s.pending.eraseIdx i) : d.generation ≠ c.generation := by
  have hnodup : ((c :: s.pending.eraseIdx i).map Callback.generation).Nodup :=
    ((perm_eraseIdx hi).map Callback.generation).nodup_iff.mpr h.distinct
  rw [List.map_cons, List.nodup_cons] at hnodup
  exact fun hgen => hnodup.1 (hgen ▸ List.mem_map_of_mem hd)

end Numbered

section Steps

variable {R : Type*} [Field R] {s u : State R} {g : String}

/-- A new recovery gets a generation nobody carries. -/
theorem Numbered.startRecovery (h : Numbered s) (w : World R) (g : String) (data : WindData R)
    (cfg : Config R) : Numbered (s.startRecovery w g data cfg) where
  distinct := by
    simp only [State.startRecovery, List.map_append, List.map_cons, List.map_nil]
    rw [← List.concat_eq_append]
    refine List.Nodup.concat (fun hmem => ?_) h.distinct
    obtain ⟨c, hc, hgen⟩ := List.mem_map.mp hmem
    have := h.queued c hc
    omega
  queued c hc := by
    simp only [State.startRecovery, List.mem_append, List.mem_singleton] at hc ⊢
    rcases hc with hc | rfl
    · exact (h.queued c hc).trans (Nat.le_succ _)
    · exact le_rfl
  active k r hr := by
    simp only [State.startRecovery, Function.update_apply] at hr ⊢
    split at hr
    · obtain rfl := Option.some.inj hr
      exact le_rfl
    · exact (h.active k r hr).trans (Nat.le_succ _)

variable [LinearOrder R] [FloorRing R] [LuaMath R] {e : Event R}

/-- **The step lemma for generations.** -/
theorem Numbered.step (h : Numbered s) (hsa : StandAlone s) (hs : carrierStep s e = some u) :
    Numbered u := by
  cases e with
  | reconfigure global missionOverrides overrides groupOverrides =>
    obtain rfl := Option.some.inj hs
    exact ⟨h.distinct, h.queued, h.active⟩
  | setGroupOverrides groupName values =>
    obtain rfl := Option.some.inj hs
    exact ⟨h.distinct, h.queued, h.active⟩
  | start w groupName groupId =>
    obtain rfl := Option.some.inj hs
    rcases s.start_cases w (groupOrDefault groupName) groupId with
      ⟨data, -, -, he⟩ | ⟨m, seconds, he⟩ | ⟨-, he⟩
    · rw [he]; exact h.startRecovery w _ data _
    · rw [he]; exact ⟨h.distinct, h.queued, h.active⟩
    · rw [he]; exact h
  | restore w reason groupName groupId =>
    obtain rfl := Option.some.inj hs
    rcases s.restore_exits w reason (groupOrDefault groupName) groupId with
      he | ⟨m, seconds, he⟩ | ⟨r, hr, ⟨points, he⟩ | ⟨t, es, he, -⟩⟩
    · rw [he]; exact h
    · rw [he]; exact ⟨h.distinct, h.queued, h.active⟩
    · rw [he]; exact h.withRecovery _ (by simp)
    · rw [he]; exact h.withRecovery _ (by simpa using h.active _ r hr)
  | fire w i time =>
    obtain ⟨c, hi, rfl⟩ := Option.map_eq_some_iff.mp hs
    rcases State.fire_cases w i c time (hsa c.groupName) with
      ⟨-, hfire⟩ | ⟨r, v, o, hlive, hfire, htick⟩
    · rw [hfire]; exact h.eraseIdx i
    · have hgen := h.active _ r hlive.1
      rw [hfire]
      cases htick with
      | kept t hkept _ =>
        refine ((h.eraseIdx i).withRecovery _ ?_).reschedule (hlive.2 ▸ hgen)
          (fun d hd => h.ne_of_mem_eraseIdx hi hd) _
        simpa using hkept ▸ hgen
      | raised site hkept _ _ _ => exact (h.eraseIdx i).withRecovery _ (by simpa using hkept ▸ hgen)
      | ended _ => exact (h.eraseIdx i).withRecovery _ (by simp)

/-- The counter counts up. -/
theorem generation_le_step (hsa : StandAlone s) (hs : carrierStep s e = some u) :
    s.generation ≤ u.generation := by
  cases e with
  | reconfigure global missionOverrides overrides groupOverrides =>
    obtain rfl := Option.some.inj hs
    exact le_rfl
  | setGroupOverrides groupName values =>
    obtain rfl := Option.some.inj hs
    exact le_rfl
  | start w groupName groupId =>
    obtain rfl := Option.some.inj hs
    rcases s.start_cases w (groupOrDefault groupName) groupId with
      ⟨data, -, -, he⟩ | ⟨m, seconds, he⟩ | ⟨-, he⟩
    · rw [he]; exact Nat.le_succ _
    · rw [he]; exact le_rfl
    · rw [he]
  | restore w reason groupName groupId =>
    obtain rfl := Option.some.inj hs
    rcases s.restore_exits w reason (groupOrDefault groupName) groupId with
      he | ⟨m, seconds, he⟩ | ⟨r, -, ⟨points, he⟩ | ⟨t, es, he, -⟩⟩ <;> rw [he] <;> exact le_rfl
  | fire w i time =>
    obtain ⟨c, -, rfl⟩ := Option.map_eq_some_iff.mp hs
    rcases State.fire_cases w i c time (hsa c.groupName) with
      ⟨-, hfire⟩ | ⟨r, v, o, -, hfire, htick⟩
    · rw [hfire]
    · rw [hfire]
      rcases htick with _ | _ | _ <;> exact le_rfl

end Steps

/-! ## 2. The invariant -/

section Invariant

variable {R : Type*}

/-- The active table, the counter and the queue agree. -/
structure Lifecycle (s : State R) : Prop where
  distinct : (s.pending.map Callback.generation).Nodup
  bounded : ∀ c ∈ s.pending, c.generation ≤ s.generation
  scheduled : ∀ g r, s.active g = some r → ∃ c ∈ s.pending, c.groupName = g ∧ s.Live c r

/-- DCS calls raise in the protected call of `M.restore` only. -/
def NoRaise (_ : State R) : Event R → Prop
  | .fire w _ _ => ∀ site, site ≠ .circuit → w.setTaskRaises site = false
  | _ => True

theorem injected_lifecycle (setup : Setup R) : Lifecycle (State.injected setup) where
  distinct := List.nodup_nil
  bounded c h := by simp [State.injected] at h
  scheduled g r h := by simp [State.injected] at h

/-- Every recovery has a callback. -/
def Scheduled (s : State R) : Prop :=
  ∀ g r, s.active g = some r → ∃ c ∈ s.pending, c.groupName = g ∧ s.Live c r

theorem Lifecycle.of_numbered {s : State R} (h : Numbered s) (hscheduled : Scheduled s) :
    Lifecycle s :=
  ⟨h.distinct, h.queued, hscheduled⟩

theorem Lifecycle.numbered {s : State R} (h : Lifecycle s) : Numbered s where
  distinct := h.distinct
  queued := h.bounded
  active g r hr := by
    obtain ⟨c, hc, -, hlive⟩ := h.scheduled g r hr
    exact hlive.2 ▸ h.bounded c hc

/-! ## 3. The queue -/

/-- A recovery that is kept, with its generation, or ended. -/
theorem Scheduled.withRecovery {s : State R} (h : Scheduled s) {g : String} {r : Recovery R}
    (hr : s.active g = some r) {a : Option (Recovery R)} (es : List (Effect R))
    (ha : ∀ r' ∈ a, r'.generation = r.generation) : Scheduled (s.withRecovery g a es) := by
  intro k r' hk
  by_cases hkg : k = g
  · subst hkg
    obtain ⟨c, hc, rfl, -, hgen⟩ := h k r hr
    have hgen' := ha r' (State.withRecovery_active.symm.trans hk)
    exact ⟨c, hc, rfl, hk, hgen'.trans hgen⟩
  · obtain ⟨c, hc, rfl, hlive⟩ := h k r' (State.active_of_withRecovery hkg hk)
    exact ⟨c, hc, rfl, hk, hlive.2⟩

variable {s : State R} {i : Nat} {c : Callback R}

/-- The callback of another recovery stays in the queue. -/
theorem Scheduled.mem_eraseIdx (h : Scheduled s) (hi : s.pending[i]? = some c)
    {g : String} {r : Recovery R} (hr : s.active g = some r)
    (hother : c.groupName = g → ¬ s.Live c r) :
    ∃ d ∈ s.pending.eraseIdx i, d.groupName = g ∧ s.Live d r := by
  obtain ⟨d, hd, rfl, hlive⟩ := h g r hr
  rcases List.mem_cons.mp ((perm_eraseIdx hi).mem_iff.mpr hd) with rfl | hmem
  · exact absurd hlive (hother rfl)
  · exact ⟨d, hmem, rfl, hlive⟩

/-- A callback that is not live leaves the queue. -/
theorem Scheduled.fire_stale (h : Scheduled s) (hi : s.pending[i]? = some c)
    (hstale : ∀ r, ¬ s.Live c r) : Scheduled { s with pending := s.pending.eraseIdx i } :=
  fun _ r hr => h.mem_eraseIdx hi hr fun _ => hstale r

/-- A callback that ends its recovery leaves the queue. -/
theorem Scheduled.fire_ended (h : Scheduled s) (hi : s.pending[i]? = some c)
    (es : List (Effect R)) :
    Scheduled ({ s with pending := s.pending.eraseIdx i }.withRecovery c.groupName none es) := by
  intro g r hr
  by_cases hg : g = c.groupName
  · subst hg; simp at hr
  · have hr' : s.active g = some r := by simpa [State.withRecovery_active_of_ne hg] using hr
    obtain ⟨d, hd, rfl, hlive⟩ := h.mem_eraseIdx hi hr' fun heq => absurd heq.symm hg
    exact ⟨d, hd, rfl, hr, hlive.2⟩

/-- A callback that keeps its recovery is queued again. -/
theorem Scheduled.fire_kept (h : Scheduled s) (hi : s.pending[i]? = some c) {r r' : Recovery R}
    (hlive : s.Live c r) (hgen : r'.generation = r.generation) (es : List (Effect R)) (t : R) :
    Scheduled (({ s with pending := s.pending.eraseIdx i }.withRecovery c.groupName (some r')
      es).reschedule c (.done (some t))) := by
  intro g r₁ hr
  by_cases hg : g = c.groupName
  · subst hg
    have hr' : r' = r₁ := by simpa [State.reschedule] using hr
    exact ⟨{ c with at_ := t }, List.mem_append_right _ (List.mem_singleton_self _), rfl, hr,
      hr' ▸ hgen.trans hlive.2⟩
  · have hr' : s.active g = some r₁ := by
      simpa [State.reschedule, State.withRecovery_active_of_ne hg] using hr
    obtain ⟨d, hd, rfl, hd'⟩ := h.mem_eraseIdx hi hr' fun heq => absurd heq.symm hg
    exact ⟨d, List.mem_append_left _ hd, rfl, hr, hd'.2⟩

/-! ## 4. One callback for each recovery -/

/-- How many queued callbacks carry the group and the generation of its recovery. -/
def State.liveCallbacks (s : State R) (g : String) : Nat :=
  s.pending.countP fun c =>
    c.groupName = g ∧ (s.active g).map Recovery.generation = some c.generation

/-- In a list with distinct labels an entry is alone with its label. -/
theorem countP_eq_one {α : Type*} {l : List α} {f : α → Nat} {p : α → Bool} {a : α}
    (hd : (l.map f).Nodup) (ha : a ∈ l) (hp : p a = true)
    (hlabel : ∀ x ∈ l, p x = true → f x = f a) : l.countP p = 1 := by
  have hcongr : l.countP p = l.countP fun x => f x == f a := by
    refine List.countP_congr fun x hx => ⟨fun h => by simpa using hlabel x hx h, ?_⟩
    intro h
    rwa [List.inj_on_of_nodup_map hd hx ha (by simpa using h)]
  have hcount : (l.map f).count (f a) = 1 :=
    List.count_eq_one_of_mem hd (List.mem_map_of_mem ha)
  rw [hcongr, ← hcount, List.count, List.countP_map]
  rfl

/-- **A recovery is active exactly while one callback carries it.** -/
theorem Lifecycle.isSome_iff (h : Lifecycle s) (g : String) :
    (s.active g).isSome ↔ s.liveCallbacks g = 1 := by
  cases hr : s.active g with
  | none => simp [State.liveCallbacks, hr]
  | some r =>
    obtain ⟨c, hc, rfl, hlive⟩ := h.scheduled g r hr
    refine iff_of_true rfl (countP_eq_one h.distinct hc ?_ fun d _ hd => ?_)
    · simp [hr, hlive.2]
    · have hgen : r.generation = d.generation := by simpa [hr] using (of_decide_eq_true hd).2
      exact hgen.symm.trans hlive.2

end Invariant

/-! ## 5. What one call preserves -/

section Calls

variable {R : Type*} [Field R]

/-- A new recovery gets a callback. -/
theorem Scheduled.startRecovery {s : State R} (h : Scheduled s) (w : World R) (g : String)
    (data : WindData R) (cfg : Config R) : Scheduled (s.startRecovery w g data cfg) := by
  intro k r hk
  by_cases hkg : k = g
  · subst hkg
    have hgen : r.generation = s.generation + 1 := by
      simp only [State.startRecovery, Function.update_self, Option.some.injEq] at hk
      rw [← hk]
      rfl
    exact ⟨⟨k, s.generation + 1, w.time + 5⟩, List.mem_append_right _ (List.mem_singleton_self _),
      rfl, hk, hgen⟩
  · have hk' : s.active k = some r := (Function.update_of_ne hkg _ _).symm.trans hk
    obtain ⟨c, hc, rfl, hlive⟩ := h k r hk'
    exact ⟨c, List.mem_append_left _ hc, rfl, hk, hlive.2⟩

variable [LinearOrder R] [LuaMath R]

theorem Scheduled.restore {s : State R} (h : Scheduled s) (w : World R) (reason g : String)
    (groupId : Option Nat) : Scheduled (s.restore w reason g groupId).1 := by
  rcases s.restore_exits w reason g groupId with
    he | ⟨m, seconds, he⟩ | ⟨r, hr, ⟨points, he⟩ | ⟨t, es, he, -⟩⟩
  · rw [he]; exact h
  · rw [he]; exact h
  · rw [he]; exact h.withRecovery hr _ (by simp)
  · rw [he]; exact h.withRecovery hr _ (by simp)

variable [FloorRing R]

theorem Scheduled.start {s : State R} (h : Scheduled s) (w : World R) (g : String)
    (groupId : Option Nat) : Scheduled (s.start w g groupId).1 := by
  rcases s.start_cases w g groupId with ⟨data, -, -, he⟩ | ⟨m, seconds, he⟩ | ⟨-, he⟩
  · rw [he]; exact h.startRecovery w g data _
  · rw [he]; exact h
  · rw [he]; exact h

variable {s : State R}

/-- **A callback that does not raise** leaves every recovery a callback. -/
theorem Scheduled.fire (h : Scheduled s) (hsa : StandAlone s) {w : World R} {i : Nat}
    {c : Callback R} {time : R} (hi : s.pending[i]? = some c)
    (hno : ∀ site, site ≠ RouteSite.circuit → w.setTaskRaises site = false) :
    Scheduled (s.fire w i c time) := by
  rcases State.fire_cases w i c time (hsa c.groupName) with
    ⟨hstale, hfire⟩ | ⟨r, u, o, hlive, hfire, htick⟩
  · rw [hfire]
    exact h.fire_stale hi hstale
  · rw [hfire]
    cases htick with
    | kept t hgen _ => exact h.fire_kept hi hlive hgen _ t
    | raised site _ _ hsite hraises => exact absurd hraises (by simp [hno site hsite])
    | ended _ => exact h.fire_ended hi _

/-- **The step lemma.** -/
theorem Lifecycle.step {u : State R} {e : Event R} (h : Lifecycle s) (hsa : StandAlone s)
    (hno : NoRaise s e) (hs : carrierStep s e = some u) : Lifecycle u := by
  have hscheduled : Scheduled s := h.scheduled
  refine .of_numbered (h.numbered.step hsa hs) ?_
  cases e with
  | reconfigure global missionOverrides overrides groupOverrides =>
    obtain rfl := Option.some.inj hs
    exact hscheduled
  | setGroupOverrides groupName values =>
    obtain rfl := Option.some.inj hs
    exact hscheduled
  | start w groupName groupId =>
    obtain rfl := Option.some.inj hs
    exact hscheduled.start w _ groupId
  | restore w reason groupName groupId =>
    obtain rfl := Option.some.inj hs
    exact hscheduled.restore w reason _ groupId
  | fire w i time =>
    obtain ⟨c, hi, rfl⟩ := Option.map_eq_some_iff.mp hs
    exact hscheduled.fire hsa hi hno

/-! ## 6. After a recovery has ended -/

/-- A call of `M.start` that starts a recovery of `g`. -/
def StartsRecovery (g : String) (s : State R) : Event R → Prop
  | .start w groupName groupId =>
    groupOrDefault groupName = g ∧ (s.start w g groupId).2.succeeded = true
  | _ => False

/-- **Nothing happens to a group without a recovery, but a start.** -/
theorem untouched_of_inactive {g : String} {u : State R} {e : Event R} (hsa : StandAlone s)
    (hg : s.active g = none) (hno : ¬ StartsRecovery g s e) (hs : carrierStep s e = some u) :
    Untouched g s u := by
  by_cases habout : s.about e = some g
  · cases e with
    | reconfigure _ _ _ _ => cases habout
    | setGroupOverrides _ _ => cases habout
    | start w groupName groupId =>
      obtain rfl := Option.some.inj habout
      obtain rfl := Option.some.inj hs
      rcases s.start_cases w (groupOrDefault groupName) groupId with
        ⟨data, -, -, he⟩ | ⟨m, seconds, he⟩ | ⟨-, he⟩
      · exact absurd ⟨rfl, by rw [he]; rfl⟩ hno
      · rw [he]; exact .sayToGroup _ _ _
      · rw [he]; exact ⟨rfl, rfl⟩
    | restore w reason groupName groupId =>
      obtain rfl := Option.some.inj habout
      obtain rfl := Option.some.inj hs
      simp only [State.restore, hg]
      split
      · exact ⟨rfl, rfl⟩
      · exact .sayToGroup _ _ _
    | fire w i time =>
      obtain ⟨c, hi, rfl⟩ := Option.map_eq_some_iff.mp hs
      simp only [State.about, hi, Option.map_some, Option.some.injEq] at habout
      subst habout
      rw [State.fire_stale fun r hlive => by simp [hlive.1] at hg]
      exact ⟨rfl, rfl⟩
  · exact untouched_of_step hsa hs habout

/-- **The quiet period.** -/
theorem untouched_of_run {g : String} {t : State R} {es : List (Event R)} (hsa : StandAlone s)
    (hg : s.active g = none)
    (hrun : Run carrierStep (fun s e => NoRaise s e ∧ ¬ StartsRecovery g s e) s es t) :
    Untouched g s t := by
  have hinv : StandAlone t ∧ Untouched g s t := by
    refine hrun.invariant (I := fun t => StandAlone t ∧ Untouched g s t) ⟨hsa, rfl, rfl⟩ ?_
    intro t e v ⟨ht, hq⟩ ⟨_, hstart⟩ hs
    have hinactive : t.active g = none := hq.active.trans hg
    exact ⟨ht.step hs, hq.trans (untouched_of_inactive ht hinactive hstart hs)⟩
  exact hinv.2

/-! ## 7. Every run -/

/-- **The life of a recovery.**  In every run in which DCS raises in protected calls only: a
recovery is active exactly while one queued callback carries it; a callback left over from an
earlier recovery is dropped without effect; and once a call has ended a recovery of `g`, no
route is issued to `g`, and no coalition message about it, before `M.start` starts the next. -/
theorem recovery_lifecycle {setup : Setup R} {es : List (Event R)} {s : State R}
    (hrun : Run carrierStep NoRaise (State.injected setup) es s) :
    (∀ g, (s.active g).isSome ↔ s.liveCallbacks g = 1) ∧
    (∀ w i c time, s.pending[i]? = some c → (∀ r, ¬ s.Live c r) →
      s.fire w i c time = { s with pending := s.pending.eraseIdx i }) ∧
    (∀ g e u, NoRaise s e → carrierStep s e = some u →
      (s.active g).isSome → u.active g = none →
      ∀ fs t, Run carrierStep (fun s e => NoRaise s e ∧ ¬ StartsRecovery g s e) u fs t →
        t.active g = none ∧
        t.effects.filter (Effect.concerns g) = u.effects.filter (Effect.concerns g)) := by
  have hinv : StandAlone s ∧ Lifecycle s :=
    hrun.invariant (I := fun s => StandAlone s ∧ Lifecycle s)
      ⟨injected_standAlone setup, injected_lifecycle setup⟩
      fun _ _ _ ⟨hsa, ht⟩ hno hs => ⟨hsa.step hs, ht.step hsa hno hs⟩
  obtain ⟨hsa, h⟩ := hinv
  refine ⟨h.isSome_iff, fun w i c time _ hstale => State.fire_stale hstale, ?_⟩
  intro g e u _ hs _ hended fs t hfs
  obtain ⟨hactive, heffects⟩ := untouched_of_run (hsa.step hs) hended hfs
  exact ⟨hactive.trans hended, heffects⟩

end Calls

/-! ## 8. A recovery in a calm -/

/-- The one ship of the mission has a recovery, with its callback queued. -/
structure Flying (g : String) (s : State ℝ) (target : ℝ) (r : Recovery ℝ) : Prop where
  plain : Plain (s.setup.config (some g)) target
  standalone : s.setup.footholdEntry g = none
  active : s.active g = some r
  pending : ∃ t, s.pending = [⟨g, r.generation, t⟩]

/-- Starting a recovery in the bare mission. -/
theorem bareMission_start (g : String) : ∃ s r,
    carrierStep (State.injected bareMission) (.start (calmSea 0) (some g) none) = some s ∧
    Flying g s 24 r ∧ r.phase = .pending ∧ r.executeAt = 60 ∧
    r.alignmentStableSince = none ∧ s.pending = [⟨g, r.generation, 5⟩] := by
  have hplain := bareMission_plain g
  obtain ⟨data, route, hdata, hroute, -⟩ :=
    hplain.windData (by norm_num) (by norm_num) 0 g
  have henabled : Value.truthy ((bareMission.config (some g)).value "enabled") = true := by
    rw [bareMission_config]; simp [defaults, defaultValues, List.lookup_cons, Value.truthy]
  have hstart : (State.injected bareMission).start (calmSea 0) g none
      = ((State.injected bareMission).startRecovery (calmSea 0) g data
          (bareMission.config (some g)), .ok) := by
    have hentry : bareMission.footholdEntry g = none := rfl
    simp [State.start, State.injected, hentry, henabled, hdata, hroute]
  refine ⟨_, _, congrArg some (congrArg Prod.fst hstart),
    ⟨hplain, rfl, Function.update_self _ _ _, ⟨_, rfl⟩⟩, rfl, ?_, rfl, ?_⟩
  · have hdelay : Value.numberOr ((bareMission.config (some g)).value "turnDelaySec") 60 = 60 :=
      hplain.numberOr (by decide) (by simp [defaults, defaultValues, List.lookup_cons]) _
    simp [State.newRecovery, hdelay, calmSea]
  · simp [State.startRecovery, State.newRecovery, State.injected, calmSea]

/-- It can be ended at any time, and its callback is left over. -/
theorem Flying.restored {g : String} {s : State ℝ} {target : ℝ} {r : Recovery ℝ}
    (h : Flying g s target r) (time : ℝ) (reason : String) (groupId : Option Nat) :
    ∃ points, s.restore (calmSea time) reason g groupId =
      (s.withRecovery g none [.route g (.circuit points),
        .say g r.coalition (closingMessage reason g) 15], .ok) := by
  obtain ⟨points, hroute⟩ :
      ∃ points, circuitRoute (calmSea time) (s.setup.config (some g)) g r = some points := by
    simp [circuitRoute, calmSea, World.leadUnit, calmShip]
  rcases s.restore_cases (calmSea time) reason groupId h.standalone h.active with
    hdone | ⟨t, es, hfailed, -⟩
  · exact hdone
  · simp [State.restore, h.standalone, h.active, hroute] at hfailed

/-- A recovery is started and ended by hand, and then its callback is due. -/
theorem recovery_lifecycle_started : ∃ s₁ s₂ s₃ r c,
    Run carrierStep NoRaise (State.injected bareMission)
      [.start (calmSea 0) (some "CVN-71") none] s₁ ∧
    s₁.active "CVN-71" = some r ∧ s₁.liveCallbacks "CVN-71" = 1 ∧
    carrierStep s₁ (.restore (calmSea 3) "manual" (some "CVN-71") none) = some s₂ ∧
    s₂.active "CVN-71" = none ∧ s₂.liveCallbacks "CVN-71" ≠ 1 ∧ s₂.pending[0]? = some c ∧
    c.groupName = "CVN-71" ∧ carrierStep s₂ (.fire (calmSea 5) 0 5) = some s₃ ∧
    s₃ = { s₂ with pending := s₂.pending.eraseIdx 0 } ∧
    s₃.effects.filter (Effect.concerns "CVN-71") = s₂.effects.filter (Effect.concerns "CVN-71") := by
  obtain ⟨s₁, r, hs, hfly, -, -, -, hqueue⟩ := bareMission_start "CVN-71"
  obtain ⟨points, hrestore⟩ := hfly.restored 3 "manual" none
  have hrun : Run carrierStep NoRaise (State.injected bareMission)
      [.start (calmSea 0) (some "CVN-71") none] s₁ := .single trivial hs
  obtain ⟨s₂, hs₂, hended, hqueue₂⟩ : ∃ s₂,
      carrierStep s₁ (.restore (calmSea 3) "manual" (some "CVN-71") none) = some s₂ ∧
      s₂.active "CVN-71" = none ∧ s₂.pending = [⟨"CVN-71", r.generation, 5⟩] :=
    ⟨_, congrArg some (congrArg Prod.fst hrestore), State.withRecovery_active, hqueue⟩
  have hdue : s₂.pending[0]? = some ⟨"CVN-71", r.generation, 5⟩ := by rw [hqueue₂]; rfl
  have hfire : carrierStep s₂ (.fire (calmSea 5) 0 5) =
      some (s₂.fire (calmSea 5) 0 ⟨"CVN-71", r.generation, 5⟩ 5) := by
    simp [carrierStep, hdue]
  obtain ⟨hlive₁, -, hquiet⟩ := recovery_lifecycle hrun
  have hend : NoRaise s₁ (.restore (calmSea 3) "manual" (some "CVN-71") none) := trivial
  obtain ⟨hlive₂, hstale, -⟩ := recovery_lifecycle (hrun.snoc hend hs₂)
  have hactive : (s₁.active "CVN-71").isSome := by rw [hfly.active]; rfl
  have hraise : NoRaise s₂ (.fire (calmSea 5) 0 5) := fun _ _ => rfl
  obtain ⟨-, heffects⟩ := hquiet "CVN-71" _ s₂ hend hs₂ hactive hended
    [.fire (calmSea 5) 0 5] _ (.single ⟨hraise, id⟩ hfire)
  refine ⟨s₁, s₂, _, r, _, hrun, hfly.active, (hlive₁ _).mp hactive, hs₂, hended, ?_, hdue, rfl,
    hfire, hstale _ 0 _ 5 hdue ?_, heffects⟩
  · rw [ne_eq, ← hlive₂, hended]
    simp
  · rintro r' ⟨hr', -⟩
    rw [hended] at hr'
    cases hr'

end DcsDashboard.Carrier

/-
# Capturing messages across upgrades of the module

`screen_messages.lua` may be loaded any number of times in a mission.  Each load wraps the message
functions of the game anew; a script may have kept a wrapper of any load and call it later.  The
buffer and the table of the originals are one table for all loads, but each load has a `nextId` of
its own, which starts as the one before was at that moment.

So a wrapper of an earlier load numbers its messages by a counter that has stopped counting the
others (`stale_wrapper_repeats_id`).  As long as calls go through wrappers of the latest load, every
call is recorded once and forwarded once, and ids are consecutive (`captures_across_upgrades`).
-/
import DcsDashboard.Lib.Runs
import DcsDashboard.Screen.Messages

namespace DcsDashboard.Screen

open Lib

/-! ## 1. Functions and their wrappers -/

/-- The functions the module wraps. -/
inductive Key
  | outText
  | outTextForCoalition
  | outTextForCountry
  | outTextForGroup
  | outTextForUnit
  | aOutTextDelay
  | aOutTextDelayS
  | aOutTextDelayC
  | aOutTextDelayG
  | aOutTextDelayU
  deriving DecidableEq

/-- The scope `recordArgs` records. -/
def Key.scope : Key → Scope
  | .outText | .aOutTextDelay => .all
  | .outTextForCoalition | .aOutTextDelayS => .coalition
  | .outTextForCountry | .aOutTextDelayC => .country
  | .outTextForGroup | .aOutTextDelayG => .group
  | .outTextForUnit | .aOutTextDelayU => .unit

/-- The arguments of a call and the mission clock, each argument as `M.record` reads it. -/
structure Args where
  time : ℚ
  /-- `tonumber(target)`, for the functions that have a target -/
  target : Option ℚ
  /-- `tostring(text or "")`, `none` when it raises -/
  text : Option String
  duration : Option ℚ
  clearView : Bool
  deriving DecidableEq

/-- What a call records, unless its text raises. -/
def Key.call (k : Key) (a : Args) : Option Call :=
  a.text.map fun text =>
    { time := a.time
      scope := k.scope
      target := if k.scope = .all then none else a.target
      text
      duration := a.duration
      clearView := a.clearView }

/-- A function value: one of the game, or what `wrap` made of one in a load. -/
inductive Fn
  | game (k : Key)
  | wrapper (load : Nat) (k : Key) (original : Fn)
  deriving DecidableEq

def Fn.key : Fn → Key
  | .game k => k
  | .wrapper _ k _ => k

/-! ## 2. The mission -/

/-- The state of the mission scripting environment that the module reads and writes. -/
structure Mission where
  /-- the functions of `trigger.action` and the globals -/
  holders : Key → Option Fn
  /-- `originals`, one table for all loads -/
  originals : Key → Option Fn
  /-- `buffer`, one table for all loads -/
  buffer : List Entry
  /-- `nextId` of each load; the last one is that of `ScreenMessages` -/
  nextIds : List Nat
  /-- the wrappers a script may have kept -/
  kept : List Fn
  /-- the calls that have reached the game -/
  forwarded : List (Key × Args)

/-- A mission that has just (re)started, with those of the functions that there are. -/
def Mission.start (present : Key → Bool) : Mission where
  holders k := if present k then some (.game k) else none
  originals _ := none
  buffer := []
  nextIds := []
  kept := []
  forwarded := []

/-- `ScreenMessages.nextId`. -/
def Mission.nextId (m : Mission) : Nat := m.nextIds.getLast?.getD 1

/-- `recordArgs` of a wrapper of a load, protected: the counter has been raised when the text
turns out to be no text. -/
def Mission.recordArgs (m : Mission) (load : Nat) (k : Key) (a : Args) : Mission :=
  match m.nextIds[load]? with
  | none => m
  | some id =>
    match k.call a with
    | none => { m with nextIds := m.nextIds.set load (id + 1) }
    | some c =>
      let log := Log.record ⟨id, m.buffer⟩ c
      { m with nextIds := m.nextIds.set load log.nextId, buffer := log.buffer }

/-- A call of a function value: a wrapper records and forwards. -/
def Fn.call : Fn → Args → Mission → Mission
  | .game k, a, m => { m with forwarded := m.forwarded ++ [(k, a)] }
  | .wrapper load k original, a, m => original.call a (m.recordArgs load k a)

/-- `M.originals[key] or holder[name]`. -/
def Mission.original (m : Mission) (k : Key) : Option Fn := (m.originals k).or (m.holders k)

/-- `wrap`: the function that is in its place now. -/
def Mission.wrap (m : Mission) (k : Key) : Option Fn :=
  (m.holders k).bind fun _ => (m.original k).map fun f => .wrapper m.nextIds.length k f

/-- All functions the module wraps, in its order. -/
def allKeys : List Key :=
  [.outText, .outTextForCoalition, .outTextForCountry, .outTextForGroup, .outTextForUnit,
    .aOutTextDelay, .aOutTextDelayS, .aOutTextDelayC, .aOutTextDelayG, .aOutTextDelayU]

/-- The module is loaded, of whatever version. -/
def Mission.load (m : Mission) : Mission where
  holders := m.wrap
  originals k := if (m.holders k).isSome then m.original k else m.originals k
  buffer := m.buffer
  nextIds := m.nextIds ++ [m.nextId]
  kept := m.kept ++ allKeys.filterMap m.wrap
  forwarded := m.forwarded

/-- `ScreenMessages.since`. -/
def Mission.since (m : Mission) (fromId : Nat) : Since := Log.since ⟨m.nextId, m.buffer⟩ fromId

/-- What happens in a mission. -/
inductive Act
  | load
  | call (f : Fn) (a : Args)
  | since (fromId : Nat)

/-- One step: a call goes through a wrapper that was in its place at some time. -/
def Mission.step (m : Mission) : Act → Option Mission
  | .load => some m.load
  | .call f a => if f ∈ m.kept then some (f.call a m) else none
  | .since _ => if m.nextIds = [] then none else some m

/-! ## 3. What is captured -/

/-- The call of a step. -/
def Act.call? : Act → Option (Key × Args)
  | .call f a => some (f.key, a)
  | .load | .since _ => none

/-- An entry is the record of a call. -/
def Records (call : Key × Args) (e : Entry) : Prop :=
  ∃ c, call.1.call call.2 = some c ∧ e = c.entry e.id

/-- Every call has been recorded once and forwarded once, the buffer holds the newest records, and
a poll is served what it has not seen. -/
structure Captures (acts : List Act) (m : Mission) : Prop where
  consecutive : ∃ first, m.buffer.map Entry.id = List.range' first m.buffer.length ∧
    first + m.buffer.length = m.nextId
  bounded : m.buffer.length ≤ maxBuffer
  recorded : ∃ entries, List.Forall₂ Records (acts.filterMap Act.call?) entries ∧
    entries.map Entry.id = List.range' 1 entries.length ∧ m.buffer = newest maxBuffer entries
  forwarded : m.forwarded = acts.filterMap Act.call?
  since : ∀ n, n ≤ m.nextId - 1 →
    m.since n = ⟨m.buffer.filter fun e => n < e.id, m.nextId - 1⟩

/-- The step calls a wrapper of the latest load, if any, and its text can be read. -/
def Latest (m : Mission) : Act → Prop
  | .call (.wrapper load _ _) a => load + 1 = m.nextIds.length ∧ a.text.isSome
  | .call (.game _) _ => False
  | .load | .since _ => True

instance (m : Mission) : ∀ act, Decidable (Latest m act)
  | .call (.wrapper load _ _) a =>
    inferInstanceAs (Decidable (load + 1 = m.nextIds.length ∧ a.text.isSome))
  | .call (.game _) _ => isFalse id
  | .load => isTrue trivial
  | .since _ => isTrue trivial

/-! ## 4. The invariant -/

/-- What every step that meets the condition keeps: only functions of the game are taken for
originals, and the log of the latest load is that of all calls so far. -/
structure Sound (acts : List Act) (m : Mission) : Prop where
  originals : ∀ k f, m.originals k = some f → f = .game k
  holders : ∀ k f, m.holders k = some f → m.originals k = none → f = .game k
  kept : ∀ f ∈ m.kept, ∃ load k, f = .wrapper load k (.game k)
  recorded : ∃ entries, List.Forall₂ Records (acts.filterMap Act.call?) entries ∧
    LogOf ⟨m.nextId, m.buffer⟩ entries
  forwarded : m.forwarded = acts.filterMap Act.call?

section
variable {acts : List Act} {m : Mission} {k : Key} {f : Fn} {a : Args}

theorem sound_start (present : Key → Bool) : Sound [] (.start present) where
  originals k f h := by simp [Mission.start] at h
  holders k f h _ := by
    simp only [Mission.start, Option.ite_none_right_eq_some, Option.some.injEq] at h
    exact h.2.symm
  kept f h := by simp [Mission.start] at h
  recorded := ⟨[], .nil, logOf_empty⟩
  forwarded := rfl

theorem Sound.original (h : Sound acts m) (hf : m.original k = some f) : f = .game k := by
  unfold Mission.original at hf
  cases horiginal : m.originals k with
  | some g =>
    rw [horiginal, Option.some_or] at hf
    exact h.originals k f (horiginal.trans hf)
  | none =>
    rw [horiginal, Option.none_or] at hf
    exact h.holders k f hf horiginal

@[simp] theorem Mission.load_nextId (m : Mission) : m.load.nextId = m.nextId := by
  simp [Mission.load, Mission.nextId]

/-- **A load** wraps the functions of the game, and takes over the log. -/
theorem Sound.load (h : Sound acts m) : Sound acts m.load where
  originals k f hf := by
    simp only [Mission.load] at hf
    split at hf
    · exact h.original hf
    · exact h.originals k f hf
  holders k f hf hnone := by
    have hsome : (m.holders k).isSome := by
      cases hk : m.holders k with
      | none => simp [Mission.load, Mission.wrap, hk] at hf
      | some g => rfl
    obtain ⟨g, hg⟩ := Option.isSome_iff_exists.mp hsome
    simp [Mission.load, Mission.original, hg] at hnone
  kept f hf := by
    rcases List.mem_append.mp hf with hf | hf
    · exact h.kept f hf
    · obtain ⟨k, -, hwrap⟩ := List.mem_filterMap.mp hf
      obtain ⟨_, -, hmap⟩ := Option.bind_eq_some_iff.mp hwrap
      obtain ⟨g, hg, rfl⟩ := Option.map_eq_some_iff.mp hmap
      exact ⟨m.nextIds.length, k, by rw [h.original hg]⟩
  recorded := by
    rw [Mission.load_nextId]
    exact h.recorded
  forwarded := h.forwarded

/-- **A call of a wrapper of the latest load** is recorded by the counter that counts all. -/
theorem call_latest {load : Nat} {c : Call} (hload : load + 1 = m.nextIds.length)
    (hc : k.call a = some c) :
    let m' := Fn.call (.wrapper load k (.game k)) a m
    (⟨m'.nextId, m'.buffer⟩ : Log) = Log.record ⟨m.nextId, m.buffer⟩ c ∧
      m'.forwarded = m.forwarded ++ [(k, a)] ∧ m'.holders = m.holders ∧
      m'.originals = m.originals ∧ m'.kept = m.kept := by
  have hlast : m.nextIds[load]? = some m.nextId := by
    have hne : m.nextIds ≠ [] := List.ne_nil_of_length_pos (by omega)
    have hindex : load = m.nextIds.length - 1 := by omega
    rw [Mission.nextId, hindex, ← List.getLast?_eq_getElem?, List.getLast?_eq_some_getLast hne]
    rfl
  have hset : ∀ id : Nat, (m.nextIds.set load id).getLast? = some id := by
    intro id
    have hindex : load = (m.nextIds.set load id).length - 1 := by
      rw [List.length_set]
      omega
    rw [List.getLast?_eq_getElem?, ← hindex, List.getElem?_set_self (by omega)]
  simp only [Fn.call, Mission.recordArgs, hlast, hc, Mission.nextId, hset, and_true]
  rfl

theorem Sound.call (h : Sound acts m) (hf : f ∈ m.kept) (hlatest : Latest m (.call f a)) :
    Sound (acts ++ [.call f a]) (f.call a m) := by
  obtain ⟨load, k, rfl⟩ := h.kept f hf
  obtain ⟨hload, htext⟩ := hlatest
  obtain ⟨text, htext⟩ := Option.isSome_iff_exists.mp htext
  obtain ⟨c, hc⟩ : ∃ c, k.call a = some c := by simp [Key.call, htext]
  obtain ⟨hlog, hforwarded, hholders, horiginals, hkept⟩ := call_latest hload hc
  obtain ⟨entries, hentries, hlogOf⟩ := h.recorded
  have hcalls : (acts ++ [Act.call (.wrapper load k (.game k)) a]).filterMap Act.call? =
      acts.filterMap Act.call? ++ [(k, a)] := by
    simp [Act.call?, Fn.key]
  refine ⟨?_, ?_, ?_, ?_, ?_⟩
  · rw [horiginals]
    exact h.originals
  · rw [hholders, horiginals]
    exact h.holders
  · rw [hkept]
    exact h.kept
  · refine ⟨entries ++ [c.entry m.nextId], ?_, ?_⟩
    · rw [hcalls]
      exact List.rel_append hentries (.cons ⟨c, hc, rfl⟩ .nil)
    · rw [hlog]
      exact hlogOf.record c
  · rw [hforwarded, hcalls, h.forwarded]

/-- A step that calls nothing. -/
theorem Sound.quiet {act : Act} (h : Sound acts m) (hquiet : act.call? = none) :
    Sound (acts ++ [act]) m := by
  have hcalls : (acts ++ [act]).filterMap Act.call? = acts.filterMap Act.call? := by
    simp [hquiet]
  exact ⟨h.originals, h.holders, h.kept, hcalls ▸ h.recorded, hcalls ▸ h.forwarded⟩

theorem Sound.step {act : Act} {m' : Mission} (h : Sound acts m) (hlatest : Latest m act)
    (hstep : m.step act = some m') : Sound (acts ++ [act]) m' := by
  cases act with
  | load =>
    obtain rfl := Option.some.inj hstep
    exact h.load.quiet rfl
  | call f a =>
    simp only [Mission.step, Option.ite_none_right_eq_some, Option.some.injEq] at hstep
    obtain ⟨hf, rfl⟩ := hstep
    exact h.call hf hlatest
  | since n =>
    simp only [Mission.step, Option.ite_none_left_eq_some, Option.some.injEq] at hstep
    obtain ⟨-, rfl⟩ := hstep
    exact h.quiet rfl

theorem Sound.captures (h : Sound acts m) : Captures acts m := by
  obtain ⟨entries, hentries, hlog⟩ := h.recorded
  have hnext : m.nextId = entries.length + 1 := hlog.nextId
  have hbuffer : m.buffer = newest maxBuffer entries := hlog.buffer
  have hlen : m.buffer.length = min maxBuffer entries.length := by rw [hbuffer, length_newest]
  refine ⟨⟨1 + (entries.length - maxBuffer), ?_, by omega⟩, by omega,
    ⟨entries, hentries, hlog.ids, hbuffer⟩, h.forwarded, fun n hn => ?_⟩
  · rw [hlen, hbuffer, map_newest, hlog.ids]
    generalize maxBuffer = k
    have hkept : entries.length - (entries.length - k) = min k entries.length := by omega
    rw [newest, List.length_range', List.drop_range', hkept, Nat.mul_one]
  · simp only [Mission.since, Log.since]
    rw [if_neg (by omega)]

/-- **Messages are captured across upgrades.**  In a mission in which every call goes through a
wrapper of the latest load, with a text that can be read, ids are consecutive and the last one is
the one before `nextId`, the buffer is bounded, every call has been recorded once and forwarded
once to the function of the game, and a poll is served what is above its cursor. -/
theorem captures_across_upgrades {present : Key → Bool}
    (h : Run Mission.step Latest (.start present) acts m) : Captures acts m := by
  refine Sound.captures (h.history (I := Sound) (sound_start present) ?_)
  intro as t act u hsound hlatest hstep
  exact hsound.step hlatest hstep

end

/-- A message to all. -/
def hello : Args := ⟨1000, none, some "hello", some 10, false⟩

/-- A kept wrapper of the first load is not called, that of the second one is. -/
theorem captures_across_upgrades_twice :
    let acts := [.load, .call (.wrapper 0 .outText (.game .outText)) hello, .load,
      .call (.wrapper 1 .outText (.game .outText)) hello, .since 1]
    ∃ m, m.buffer.map Entry.id = [1, 2] ∧ Captures acts m := by
  intro acts
  obtain ⟨m, hrun, hids⟩ : ∃ m, Run Mission.step Latest (.start fun _ => true) acts m ∧
      m.buffer.map Entry.id = [1, 2] := exists_run_of_execMeeting (by decide)
  exact ⟨m, hids, captures_across_upgrades hrun⟩

/-- **A wrapper of an earlier load repeats an id.** -/
theorem stale_wrapper_repeats_id :
    ∃ acts m, Run Mission.step Always (.start fun _ => true) acts m ∧ ¬ Captures acts m := by
  obtain ⟨m, hrun, hids⟩ : ∃ m, Run Mission.step Always (.start fun _ => true)
      [.load, .call (.wrapper 0 .outText (.game .outText)) hello, .load,
        .call (.wrapper 1 .outText (.game .outText)) hello,
        .call (.wrapper 0 .outText (.game .outText)) hello] m ∧
      m.buffer.map Entry.id = [1, 2, 2] := exists_run_of_execMeeting (by decide)
  refine ⟨_, m, hrun, ?_⟩
  intro hcaptures
  obtain ⟨first, hfirst, -⟩ := hcaptures.consecutive
  have hlen : m.buffer.length = 3 := by simpa using congrArg List.length hids
  rw [hids, hlen] at hfirst
  simp only [List.range'_succ, List.range'_zero, List.cons.injEq] at hfirst
  omega

end DcsDashboard.Screen

/-
# The cursor feed of the Chat page

`useCursorFeed` polls a cursor endpoint and accumulates lines.  It learns of a mission restart
from one thing only, an answer whose `last` is below its cursor; then it clears the feed and
keeps what came with the answer, or re-reads from the top.

Any number of browsers poll one mission log.  The world (`World`) is the log, everything
recorded since the mission started (a ghost), and the clients; a poll is one round trip, the
second one of `poll` being a step of its own.  A mission that has just started records nothing:
the module is gone until somebody's poll installs it again.

A restart is missed exactly when the new log has already grown to the client's cursor or past
it by the time the client polls again.  `Noticed` says that this does not happen.
-/
import DcsDashboard.Lib.Runs
import DcsDashboard.Screen.Messages

namespace DcsDashboard.Screen

open Lib

/-! ## 1. The hook -/

section Hook

variable {T : Type*}

/-- A line of the feed with its React key. -/
structure Line (T : Type*) where
  message : T
  key : Nat
  deriving DecidableEq

/-- `CursorResponse<T>`. -/
structure CursorResponse (T : Type*) where
  messages : List T
  last : Nat

/-- `MAX_FEED_LINES`. -/
def maxFeedLines : Nat := 500

/-- The state and refs of `useCursorFeed`. -/
structure Feed (T : Type*) where
  items : List (Line T)
  error : String
  cursor : Nat
  nextKey : Nat
  deriving DecidableEq

/-- The feed when the page opens. -/
def Feed.opened : Feed T := ⟨[], "", 0, 1⟩

/-- The messages shown, oldest first. -/
def Feed.messages (f : Feed T) : List T := f.items.map Line.message

/-- An answer with `last` below the cursor. -/
def Feed.Restarted (f : Feed T) (body : CursorResponse T) : Prop := body.last < f.cursor

instance (f : Feed T) (body : CursorResponse T) : Decidable (f.Restarted body) :=
  inferInstanceAs (Decidable (_ < _))

/-- One successful round trip of `poll`. -/
def Feed.receive (f : Feed T) (body : CursorResponse T) : Feed T :=
  let lines := (body.messages.zipIdx f.nextKey).map fun p => ⟨p.1, p.2⟩
  let kept := if f.Restarted body then [] else f.items
  { items := if body.messages = [] then kept else newest maxFeedLines (kept ++ lines)
    error := ""
    cursor := if f.Restarted body ∧ body.messages = [] then 0 else body.last
    nextKey := f.nextKey + body.messages.length }

/-- Whether `poll` makes its second round trip. -/
def Feed.rereads (f : Feed T) (body : CursorResponse T) : Bool :=
  f.Restarted body ∧ (f.receive body).cursor = 0

/-- The Clear button. -/
def Feed.clear (f : Feed T) : Feed T := { f with items := [] }

/-- What is shown after a round trip. -/
theorem Feed.receive_messages (f : Feed T) (body : CursorResponse T) :
    (f.receive body).messages =
      if body.messages = [] then (if f.Restarted body then [] else f.messages)
      else newest maxFeedLines ((if f.Restarted body then [] else f.messages) ++ body.messages) := by
  unfold Feed.messages Feed.receive
  by_cases hr : f.Restarted body <;> by_cases hm : body.messages = [] <;>
    simp [hr, hm, map_newest, List.zipIdx_map_fst, Function.comp_def]

end Hook

/-! ## 2. Browsers and mission -/

/-- One browser.  `stale` is a ghost: the mission restarted since its last answer.  `cleared`:
the user has pressed Clear. -/
structure Client where
  feed : Feed ScreenMessage
  rereading : Bool
  stale : Bool
  cleared : Bool
  deriving DecidableEq

/-- Whether the module is installed, its log, what has been recorded since the mission started (a
ghost), and the browsers. -/
structure World where
  installed : Bool
  log : Log
  recorded : List Entry
  clients : List Client
  deriving DecidableEq

inductive FeedEvent
  /-- a scripted message is shown; the wrappers record it, if there are any -/
  | record (c : Call)
  /-- the mission restarts -/
  | restart
  /-- a browser opens the page -/
  | join
  /-- one answered round trip of a browser's poll, which installs the module where it is missing -/
  | poll (i : Nat)
  /-- a round trip that fails, which ends the poll; the module may have been installed by then -/
  | fail (i : Nat) (installs : Bool) (error : String)
  | clear (i : Nat)
  deriving DecidableEq

/-- What `GET /api/screen-messages?from=..` answers. -/
def World.answer (w : World) (fromId : Nat) : CursorResponse ScreenMessage :=
  let response := parseScreenMessages (w.log.since fromId).toJson fromId
  ⟨response.messages, response.last⟩

/-- The browser after an answered round trip. -/
def Client.receive (c : Client) (body : CursorResponse ScreenMessage) : Client :=
  { c with
    feed := c.feed.receive body
    rereading := !c.rereading && c.feed.rereads body
    stale := false }

/-- One event. -/
def feedStep (w : World) : FeedEvent → Option World
  | .record c =>
    some (if w.installed then
      { w with log := w.log.record c, recorded := w.recorded ++ [c.entry w.log.nextId] }
    else w)
  | .restart =>
    some ⟨false, Log.empty, [], w.clients.map fun c => { c with stale := true }⟩
  | .join => some { w with clients := w.clients ++ [⟨Feed.opened, false, false, false⟩] }
  | .poll i =>
    w.clients[i]?.map fun c =>
      { w with
        installed := true, clients := w.clients.set i (c.receive (w.answer c.feed.cursor)) }
  | .fail i installs error =>
    w.clients[i]?.map fun c =>
      { w with
        installed := w.installed || installs
        clients := w.clients.set i
          { c with feed := { c.feed with error := error }, rereading := false } }
  | .clear i =>
    w.clients[i]?.map fun c =>
      { w with clients := w.clients.set i { c with feed := c.feed.clear, cleared := true } }

/-- A mission that has just started, and no browser. -/
def World.started : World := ⟨false, Log.empty, [], []⟩

/-- What a browser ought to show: every message still buffered, messages of the current
mission only, in the order of their ids and none twice. -/
structure UpToDate (w : World) (c : Client) : Prop where
  complete : ∀ m ∈ w.log.buffer, m.served ∈ c.feed.messages
  current : ∀ m ∈ c.feed.messages, ∃ e ∈ w.recorded, m = e.served
  ordered : (c.feed.messages.map ScreenMessage.id).Pairwise (· < ·)

/-- A browser that polls after a restart finds the log still below its cursor (or has not been
served anything yet), and ids stay where Lua's numbers count exactly. -/
def Noticed (w : World) : FeedEvent → Prop
  | .poll i => ∀ c ∈ w.clients[i]?, c.cleared = false → c.stale = true →
      c.feed.cursor = 0 ∨ w.log.nextId - 1 < c.feed.cursor
  | .record _ => w.log.nextId < 2 ^ 53
  | _ => True

instance (w : World) : (e : FeedEvent) → Decidable (Noticed w e)
  | .poll i => inferInstanceAs (Decidable (∀ c ∈ w.clients[i]?, _ → _ → _))
  | .record _ => inferInstanceAs (Decidable (_ < _))
  | .restart | .join | .fail _ _ _ | .clear _ => inferInstanceAs (Decidable True)

/-! ## 3. The invariant -/

/-- A browser that has not missed a restart shows messages recorded up to its cursor, among
them the newest `maxBuffer` of these. -/
structure Synced (recorded : List Entry) (f : Feed ScreenMessage) : Prop where
  cursor_le : f.cursor ≤ recorded.length
  held : (newest maxBuffer (recorded.take f.cursor)).map Entry.served <:+ f.messages
  current : f.messages.Sublist ((recorded.take f.cursor).map Entry.served)

/-- What every browser that has not pressed Clear keeps. -/
structure ClientInv (recorded : List Entry) (c : Client) : Prop where
  fresh : c.cleared = false → c.feed.cursor = 0 → c.feed.messages = []
  synced : c.cleared = false → c.stale = false → Synced recorded c.feed

/-- The invariant of the world. -/
structure WorldInv (w : World) : Prop where
  log : LogOf w.log w.recorded
  bounded : w.log.nextId ≤ 2 ^ 53
  clients : ∀ c ∈ w.clients, ClientInv w.recorded c

/-- **What an answer carries.** -/
theorem WorldInv.answer {w : World} (h : WorldInv w) (n : Nat) :
    w.answer n = ⟨(w.recorded.drop (max (w.recorded.length - maxBuffer)
      (if w.recorded.length < n then 0 else n))).map Entry.served, w.recorded.length⟩ := by
  have hlen : w.recorded.length < 2 ^ 64 := by
    have hb := h.bounded
    rw [h.log.nextId] at hb
    have hpow : 2 ^ 53 < 2 ^ 64 := Nat.pow_lt_pow_right Nat.one_lt_two (by decide)
    exact (Nat.lt_of_succ_le hb).trans hpow
  have hid : ∀ m ∈ (w.log.since n).messages, m.id < 2 ^ 64 := by
    intro m hm
    rw [h.log.since] at hm
    dsimp only at hm
    exact (h.log.id_le (List.mem_of_mem_drop hm)).trans_lt hlen
  have hlast : (w.log.since n).last < 2 ^ 64 := by rw [h.log.since]; exact hlen
  rw [World.answer, parseScreenMessages_toJson hlast hid, h.log.since]

/-- Everything recorded is a suffix of itself and its newest part is held, so a client that
shows exactly the buffer is synced at the end of the log. -/
theorem Synced.of_messages {recorded : List Entry} {f : Feed ScreenMessage}
    (kept new : List ScreenMessage) (hcur : f.cursor = recorded.length)
    (hmsg : f.messages = kept ++ new ∨ f.messages = newest maxFeedLines (kept ++ new))
    (hheld : (newest maxBuffer recorded).map Entry.served <:+ kept ++ new)
    (hsub : (kept ++ new).Sublist (recorded.map Entry.served)) : Synced recorded f where
  cursor_le := hcur.le
  held := by
    rw [hcur, List.take_length]
    rcases hmsg with hm | hm
    · rw [hm]; exact hheld
    · rw [hm]
      refine suffix_newest hheld ?_
      simp only [List.length_map, length_newest, maxBuffer, maxFeedLines]
      omega
  current := by
    rw [hcur, List.take_length]
    rcases hmsg with hm | hm
    · rw [hm]; exact hsub
    · rw [hm]; exact (newest_suffix _ _).sublist.trans hsub

/-- **A poll of a client that has missed nothing.** -/
theorem WorldInv.receive_synced {w : World} (h : WorldInv w) {f : Feed ScreenMessage}
    (hs : Synced w.recorded f) : Synced w.recorded (f.receive (w.answer f.cursor)) := by
  have hle : ¬ w.recorded.length < f.cursor := Nat.not_lt.mpr hs.cursor_le
  have hbody := h.answer f.cursor
  rw [if_neg hle] at hbody
  have hnr : ¬ f.Restarted (w.answer f.cursor) := by rw [Feed.Restarted, hbody]; exact hle
  refine Synced.of_messages f.messages (w.answer f.cursor).messages ?_ ?_ ?_ ?_
  · rw [Feed.receive, hbody] at *
    simp only [hnr, false_and, if_false]
  · rw [Feed.receive_messages, if_neg hnr]
    by_cases hm : (w.answer f.cursor).messages = []
    · exact .inl (by simp [hm])
    · exact .inr (by rw [if_neg hm])
  · -- the buffer is what had been read and is still held, then what is new
    rw [hbody]
    dsimp only
    rw [newest_eq_read_append hs.cursor_le, List.map_append]
    refine List.suffix_append_self_iff.mpr (List.IsSuffix.trans ?_ hs.held)
    exact (read_suffix_newest hs.cursor_le).map _
  · rw [hbody]
    dsimp only
    conv_rhs => rw [← List.take_append_drop f.cursor w.recorded, List.map_append]
    refine hs.current.append ((List.Sublist.map _ ?_))
    exact (List.drop_sublist_drop_left _ (Nat.le_max_right _ _))

/-- **A poll that finds a shorter log, or a first poll.**  The whole buffer is served, and it
replaces what was shown. -/
theorem WorldInv.receive_restarted {w : World} (h : WorldInv w) {f : Feed ScreenMessage}
    (hf : f.cursor = 0 ∧ f.messages = [] ∨ w.recorded.length < f.cursor) :
    Synced w.recorded (f.receive (w.answer f.cursor)) := by
  have hzero : (if w.recorded.length < f.cursor then 0 else f.cursor) = 0 := by
    rcases hf with ⟨h0, -⟩ | hlt
    · simp [h0]
    · exact if_pos hlt
  obtain ⟨hmsgs, hlast⟩ : (w.answer f.cursor).messages
      = (newest maxBuffer w.recorded).map Entry.served
      ∧ (w.answer f.cursor).last = w.recorded.length := by
    simp only [h.answer, hzero, Nat.max_zero, newest, and_self]
  have hkept : (if f.Restarted (w.answer f.cursor) then [] else f.messages) = [] := by
    rcases hf with ⟨-, hm⟩ | hlt
    · simp [hm]
    · rw [if_pos]; rw [Feed.Restarted, hlast]; exact hlt
  refine Synced.of_messages [] (w.answer f.cursor).messages ?_ ?_ ?_ ?_
  · have hempty : (w.answer f.cursor).messages = [] → w.recorded.length = 0 := by
      intro hm
      rw [hmsgs] at hm
      have hlen : min maxBuffer w.recorded.length = 0 := by
        rw [← length_newest, ← List.length_map (f := Entry.served), hm, List.length_nil]
      simp only [maxBuffer] at hlen
      omega
    simp only [Feed.receive]
    split
    · rename_i hr; exact (hempty hr.2).symm
    · exact hlast
  · rw [Feed.receive_messages, hkept]
    by_cases hm : (w.answer f.cursor).messages = []
    · exact .inl (by simp [hm])
    · exact .inr (by rw [if_neg hm])
  · rw [hmsgs, List.nil_append]
  · rw [hmsgs, List.nil_append]
    exact (newest_suffix _ _).sublist.map _

/-! ## 4. What one event preserves -/

/-- An answered poll leaves the browser in step with the log. -/
theorem WorldInv.receive {w : World} (h : WorldInv w) {c : Client} (hc : c ∈ w.clients)
    (hcl : c.cleared = false)
    (hn : c.stale = true → c.feed.cursor = 0 ∨ w.log.nextId - 1 < c.feed.cursor) :
    Synced w.recorded (c.feed.receive (w.answer c.feed.cursor)) := by
  have hinv := h.clients c hc
  cases hst : c.stale with
  | false => exact h.receive_synced (hinv.synced hcl hst)
  | true =>
    rcases hn hst with h0 | hlt
    · exact h.receive_restarted (.inl ⟨h0, hinv.fresh hcl h0⟩)
    · exact h.receive_restarted (.inr (h.log.last ▸ hlt))

/-- A synced browser at the start of the log shows nothing. -/
theorem Synced.messages_eq_nil {recorded : List Entry} {f : Feed ScreenMessage}
    (hs : Synced recorded f) (h0 : f.cursor = 0) : f.messages = [] := by
  have hsub := hs.current
  rw [h0, List.take_zero, List.map_nil] at hsub
  exact List.sublist_nil.mp hsub

/-- Recording does not move what a browser is in step with. -/
theorem Synced.record {recorded : List Entry} {f : Feed ScreenMessage} (hs : Synced recorded f)
    (e : Entry) : Synced (recorded ++ [e]) f where
  cursor_le := by
    have := hs.cursor_le
    simp only [List.length_append, List.length_singleton]
    omega
  held := by rw [List.take_append_of_le_length hs.cursor_le]; exact hs.held
  current := by rw [List.take_append_of_le_length hs.cursor_le]; exact hs.current

/-- The browsers other than the one that moved keep their invariant. -/
theorem WorldInv.set {w : World} (h : WorldInv w) {i : Nat} {c : Client}
    (hc : ClientInv w.recorded c) (installed : Bool) :
    WorldInv { w with installed := installed, clients := w.clients.set i c } where
  log := h.log
  bounded := h.bounded
  clients d hd := by
    rcases List.mem_or_eq_of_mem_set hd with hd | rfl
    · exact h.clients d hd
    · exact hc

/-- **The step lemma.** -/
theorem WorldInv.step {w u : World} {e : FeedEvent} (h : WorldInv w) (hC : Noticed w e)
    (hs : feedStep w e = some u) : WorldInv u := by
  cases e with
  | record c =>
    simp only [feedStep, Option.some.injEq] at hs
    subst hs
    split
    · exact {
        log := h.log.record c
        bounded := hC
        clients := fun d hd => ⟨(h.clients d hd).fresh,
          fun hcl hst => ((h.clients d hd).synced hcl hst).record _⟩ }
    · exact h
  | restart =>
    simp only [feedStep, Option.some.injEq] at hs
    subst hs
    refine ⟨logOf_empty, Nat.one_le_two_pow, ?_⟩
    intro d hd
    obtain ⟨c, hc, rfl⟩ := List.mem_map.mp hd
    exact ⟨(h.clients c hc).fresh, fun _ hst => absurd hst (by simp)⟩
  | join =>
    simp only [feedStep, Option.some.injEq] at hs
    subst hs
    refine ⟨h.log, h.bounded, ?_⟩
    intro d hd
    rcases List.mem_append.mp hd with hd | hd
    · exact h.clients d hd
    · rw [List.mem_singleton.mp hd]
      refine ⟨fun _ _ => rfl, fun _ _ => ⟨Nat.zero_le _, ?_, ?_⟩⟩ <;>
        simp [Feed.opened, Feed.messages]
  | poll i =>
    simp only [feedStep, Option.map_eq_some_iff] at hs
    obtain ⟨c, hi, rfl⟩ := hs
    refine h.set ⟨fun hcl h0 => ?_, fun hcl _ => ?_⟩ true
    · exact (h.receive (List.mem_of_getElem? hi) hcl (hC c hi hcl)).messages_eq_nil h0
    · exact h.receive (List.mem_of_getElem? hi) hcl (hC c hi hcl)
  | fail i installs error =>
    simp only [feedStep, Option.map_eq_some_iff] at hs
    obtain ⟨c, hi, rfl⟩ := hs
    have hc := h.clients c (List.mem_of_getElem? hi)
    have hfailed : ClientInv w.recorded
        { c with feed := { c.feed with error := error }, rereading := false } :=
      ⟨hc.fresh, fun hcl hst =>
        ⟨(hc.synced hcl hst).cursor_le, (hc.synced hcl hst).held, (hc.synced hcl hst).current⟩⟩
    exact h.set hfailed (w.installed || installs)
  | clear i =>
    simp only [feedStep, Option.map_eq_some_iff] at hs
    obtain ⟨c, hi, rfl⟩ := hs
    exact h.set ⟨fun hcl => absurd hcl (by simp), fun hcl => absurd hcl (by simp)⟩ w.installed

/-! ## 5. Runs -/

theorem started_inv : WorldInv World.started :=
  ⟨logOf_empty, Nat.one_le_two_pow, by simp [World.started]⟩

/-- A browser in step with the end of the log is up to date. -/
theorem WorldInv.upToDate {w : World} (h : WorldInv w) {c : Client}
    (hs : Synced w.recorded c.feed) (hend : c.feed.cursor = w.recorded.length) :
    UpToDate w c := by
  have hheld := hs.held
  have hcur := hs.current
  rw [hend, List.take_length] at hheld hcur
  refine ⟨?_, ?_, ?_⟩
  · intro m hm
    rw [h.log.buffer] at hm
    exact hheld.subset (List.mem_map_of_mem hm)
  · intro m hm
    obtain ⟨e, he, rfl⟩ := List.mem_map.mp (hcur.subset hm)
    exact ⟨e, he, rfl⟩
  · have hids : (w.recorded.map Entry.served).map ScreenMessage.id
        = List.range' 1 w.recorded.length := by
      rw [List.map_map, ← h.log.ids]; rfl
    have hord : (List.range' 1 w.recorded.length).Pairwise (· < ·) := List.pairwise_lt_range'
    rw [← hids] at hord
    exact hord.sublist (hcur.map _)

/-- **Every successful poll brings the browser up to date, as long as restarts are noticed.**
In every run of recordings, restarts and any number of browsers in which a browser that polls
after a restart finds the log still below its cursor, an answered poll of a browser that has
not pressed Clear leaves it showing every buffered message of the current mission, in order
and once each, and nothing of an earlier one. -/
theorem poll_upToDate {w u : World} {es : List FeedEvent} {i : Nat}
    (hrun : Run feedStep Noticed World.started es w) (hC : Noticed w (.poll i))
    (hs : feedStep w (.poll i) = some u) :
    ∀ c ∈ u.clients[i]?, c.cleared = false → UpToDate u c := by
  have h : WorldInv w := hrun.invariant started_inv fun _ _ _ => WorldInv.step
  simp only [feedStep, Option.map_eq_some_iff] at hs
  obtain ⟨c, hi, rfl⟩ := hs
  obtain ⟨hlt, -⟩ := List.getElem?_eq_some_iff.mp hi
  intro d hd hcl
  have hdc : d = c.receive (w.answer c.feed.cursor) := by
    simpa [List.getElem?_set_self hlt] using hd.symm
  subst hdc
  have hsync := h.receive (List.mem_of_getElem? hi) hcl (hC c hi hcl)
  have hset : WorldInv { w with
      installed := true, clients := w.clients.set i (c.receive (w.answer c.feed.cursor)) } :=
    h.set ⟨fun _ h0 => hsync.messages_eq_nil h0, fun _ _ => hsync⟩ true
  refine hset.upToDate hsync ?_
  have hle := hsync.cursor_le
  have hlast : (w.answer c.feed.cursor).last = w.recorded.length := by rw [h.answer]
  simp only [Client.receive, Feed.receive, hlast] at hle ⊢
  split at hle <;> rename_i hr
  · -- the log shrank and nothing came with the answer, so it is empty
    obtain ⟨hr, hm⟩ := hr
    rw [if_pos ⟨hr, hm⟩]
    rw [h.answer] at hr hm
    have hlt' : w.recorded.length < c.feed.cursor := hr
    dsimp only at hm
    rw [if_pos hlt', Nat.max_zero] at hm
    have hlen : min maxBuffer w.recorded.length = 0 := by
      rw [← length_newest, ← List.length_map (f := Entry.served)]
      exact List.length_eq_zero_iff.mpr hm
    simp only [maxBuffer] at hlen
    omega
  · rw [if_neg hr]

/-! ## 6. A restart that is missed -/

/-- A message of the mission before the restart. -/
def welcome : Call := ⟨0, .all, none, "Welcome", some 10, false⟩

/-- A message of the mission after it. -/
def briefing : Call := ⟨0, .all, none, "Briefing", some 10, false⟩

/-- The first of two browsers has read one message; the mission restarts, the other browser's poll
installs the module again, and a message is recorded before the first one polls. -/
def missedRestart : List FeedEvent :=
  [.join, .join, .poll 0, .record welcome, .poll 0, .restart, .poll 1, .record briefing]

/-- A feed that has read the one message of the first mission. -/
def shownWelcome : Feed ScreenMessage := ⟨[⟨(welcome.entry 1).served, 1⟩], "", 1, 2⟩

/-- The mission after the restart, with two browsers, the second of which has read nothing. -/
def briefed (c : Client) : World :=
  ⟨true, ⟨2, [briefing.entry 1]⟩, [briefing.entry 1], [c, ⟨Feed.opened, false, false, false⟩]⟩

/-- **A restart is missed.**  The new log has grown back to the cursor, so the browser goes on
showing the earlier mission and never shows the message of the current one. -/
theorem restart_missed : ∃ w u c, Run feedStep Always World.started missedRestart w ∧
    feedStep w (.poll 0) = some u ∧ u.clients[0]? = some c ∧ c.cleared = false ∧
    u.recorded.length ≤ maxBuffer ∧ c.feed.messages.length < maxFeedLines ∧
    c.feed.messages = [(welcome.entry 1).served] ∧ ¬ UpToDate u c := by
  refine ⟨briefed ⟨shownWelcome, false, true, false⟩, briefed ⟨shownWelcome, false, false, false⟩,
    ⟨shownWelcome, false, false, false⟩, run_iff_exec.mpr (by decide), by decide, rfl, rfl,
    by decide, by decide, rfl, ?_⟩
  intro h
  have hbriefing := h.complete (briefing.entry 1) (by decide)
  exact absurd hbriefing (by decide)

/-- The same recordings, but the first browser polls, too, while the log is still empty. -/
def noticedRestart : List FeedEvent :=
  [.join, .join, .poll 0, .record welcome, .poll 0, .restart, .poll 1, .poll 0, .record briefing]

theorem poll_upToDate_noticedRestart :
    UpToDate (briefed ⟨⟨[⟨(briefing.entry 1).served, 2⟩], "", 1, 3⟩, false, false, false⟩)
      ⟨⟨[⟨(briefing.entry 1).served, 2⟩], "", 1, 3⟩, false, false, false⟩ :=
  have hrun : Run feedStep Noticed World.started noticedRestart
      (briefed ⟨⟨[], "", 0, 2⟩, true, false, false⟩) := run_of_execMeeting (by decide)
  poll_upToDate (i := 0) hrun (by decide) (by decide) _ rfl rfl

end DcsDashboard.Screen

/-
# Telemetry fan-out

`telemetry.rs` and `routes/stream.rs`: five tasks hold one upstream stream each (the mission
events, and the units of four group categories) and publish every message, as JSON, on one of
two broadcast channels.  A client of an SSE route is a receiver of one channel; what it has
fallen too far behind to get is left out of its stream without notice.

The state is what the tasks, the channels and the clients share, and an action is one move of
one of them: a task's stream opens, fails, brings a message, ends, or its sleep is over; a
client connects, loses its connection, its next frame is polled from the channel, a frame on
the wire arrives at its page.  A run is any interleaving.

* `Connected` and `Connected.step`: what one move does to a client that stays connected.
* `fan_out`: over any run, what reaches a client is, in order and once each, of the frames its
  channel's tasks brought since it connected, and the newest 1024 of them when it has caught up.
* `Connected.catches_up`: a client that goes on receiving does catch up.
* `backoff_run`: how long a task sleeps.

The broadcast channels, how a message is encoded and what a page does with a frame are
parameters.  The keep-alive comments of an SSE stream reach no handler of a page and are left out.
-/
import DcsDashboard.Lib.Broadcast
import DcsDashboard.Lib.Runs
import Mathlib.Algebra.Ring.Nat

namespace DcsDashboard.Telemetry

open Lib Lib.Broadcast

universe u

/-! ## 1. The tasks -/

/-- `events_tx` and `units_tx` of `AppState`. -/
inductive Topic
  | events
  | units
  deriving DecidableEq

/-- The categories `spawn` subscribes to. -/
inductive GroupCategory
  | airplane
  | helicopter
  | ground
  | ship
  deriving DecidableEq

/-- The tasks of `spawn`: `run_events`, and `run_units` for each category. -/
inductive Producer
  | runEvents
  | runUnits (category : GroupCategory)
  deriving DecidableEq

/-- The channel a task publishes on. -/
def Producer.topic : Producer → Topic
  | .runEvents => .events
  | .runUnits _ => .units

/-- `BACKOFF_START` and `BACKOFF_MAX`, in seconds. -/
def backoffStart : Nat := 1
def backoffMax : Nat := 30

/-- Where a task's loop stands: opening its stream, reading from it, or sleeping. -/
inductive Phase
  | opening
  | streaming
  | sleeping
  deriving DecidableEq

structure Task where
  phase : Phase
  backoff : Nat
  deriving DecidableEq

/-- What happens to a task. -/
inductive TaskEvent (μ : Type*)
  | opened
  | openFailed
  | message (m : μ)
  /-- The stream ends or brings an error. -/
  | ended
  | slept

/-- The loop of `run_events` and `run_units`. -/
def Task.step {μ : Type*} (task : Task) : TaskEvent μ → Option Task
  | .opened => if task.phase = .opening then some ⟨.streaming, backoffStart⟩ else none
  | .openFailed => if task.phase = .opening then some { task with phase := .sleeping } else none
  | .message _ => if task.phase = .streaming then some task else none
  | .ended => if task.phase = .streaming then some { task with phase := .sleeping } else none
  | .slept =>
    if task.phase = .sleeping then some ⟨.opening, min (task.backoff * 2) backoffMax⟩ else none

/-! ## 2. The clients -/

/-- A page, as far as the stream and its own doings move it. -/
structure Browser (α β π : Type*) where
  initial : π
  onFrame : π → α → π
  onOwn : π → β → π

/-- A connection to an SSE route: the receiver, and the frames on their way to the page. -/
structure Subscription {α : Type u} (B : Channels α) where
  topic : Topic
  receiver : B.Receiver
  wire : List α

structure Client {α : Type u} (B : Channels α) (π : Type*) where
  page : π
  source : Option (Subscription B)

/-- What happens to a client. -/
inductive ClientEvent (β : Type*)
  | connect (topic : Topic)
  | disconnect
  | poll
  | arrive
  | own (b : β)

variable {μ β π : Type*} {α : Type u} {B : Channels α}

/-- `broadcast_sse`: the next frame of a subscription, if the channel has anything for it. -/
def Subscription.poll (channel : B.Channel) (sub : Subscription B) : Option (Subscription B) :=
  let receiver := (B.recv channel sub.receiver).2
  match (B.recv channel sub.receiver).1 with
  | .value a => some { sub with receiver, wire := sub.wire ++ [a] }
  | .lagged _ => some { sub with receiver }
  | .nothing => none

/-- The first frame on the wire reaches the page. -/
def Client.arrive (browser : Browser α β π) (client : Client B π) (sub : Subscription B) :
    Option (Client B π) :=
  match sub.wire with
  | [] => none
  | a :: wire =>
    some { page := browser.onFrame client.page a, source := some { sub with wire } }

def Client.step (browser : Browser α β π) (channel : Topic → B.Channel) (client : Client B π) :
    ClientEvent β → Option (Client B π)
  | .connect topic =>
    match client.source with
    | none => some { client with source := some ⟨topic, B.subscribe (channel topic), []⟩ }
    | some _ => none
  | .disconnect => client.source.map fun _ => { client with source := none }
  | .poll => client.source.bind fun sub =>
      (sub.poll (channel sub.topic)).map fun sub => { client with source := some sub }
  | .arrive => client.source.bind fun sub => client.arrive browser sub
  | .own b => some { client with page := browser.onOwn client.page b }

/-- What a poll can do: a frame goes on the wire, or the receiver learns that it has missed some. -/
theorem Subscription.poll_cases {channel : B.Channel} {sub sub' : Subscription B}
    (h : sub.poll channel = some sub') :
    (∃ a, (B.recv channel sub.receiver).1 = .value a ∧
      sub' = ⟨sub.topic, (B.recv channel sub.receiver).2, sub.wire ++ [a]⟩) ∨
    (∃ missed, (B.recv channel sub.receiver).1 = .lagged missed ∧
      sub' = ⟨sub.topic, (B.recv channel sub.receiver).2, sub.wire⟩) := by
  unfold Subscription.poll at h
  cases hreading : (B.recv channel sub.receiver).1 with
  | value a =>
    simp only [hreading, Option.some.injEq] at h
    exact .inl ⟨a, rfl, h.symm⟩
  | lagged missed =>
    simp only [hreading, Option.some.injEq] at h
    exact .inr ⟨missed, rfl, h.symm⟩
  | nothing => simp [hreading] at h

/-- A frame that arrives was the first on the wire. -/
theorem Client.arrive_eq_some {browser : Browser α β π} {client client' : Client B π}
    {sub : Subscription B} (h : client.arrive browser sub = some client') :
    ∃ a wire, sub.wire = a :: wire ∧
      client' = ⟨browser.onFrame client.page a, some ⟨sub.topic, sub.receiver, wire⟩⟩ := by
  unfold Client.arrive at h
  split at h
  · cases h
  · rename_i a wire hwire
    exact ⟨a, wire, hwire, (Option.some.inj h).symm⟩

/-! ## 3. The hub -/

structure Hub {α : Type u} (B : Channels α) (π : Type*) where
  channel : Topic → B.Channel
  task : Producer → Task
  clients : List (Client B π)

/-- `TELEMETRY_BUFFER`. -/
def telemetryBuffer : Nat := 1024

/-- `AppState::new` and `spawn`: no page is open yet. -/
def spawn {α : Type u} (B : Channels α) (π : Type*) : Hub B π where
  channel _ := B.new telemetryBuffer
  task _ := ⟨.opening, backoffStart⟩
  clients := []

/-- `tx.send(json)`, whatever comes of it. -/
def Hub.send (hub : Hub B π) (topic : Topic) (a : α) : Hub B π :=
  { hub with channel := Function.update hub.channel topic (B.send (hub.channel topic) a) }

inductive Act (μ β : Type*)
  | task (p : Producer) (e : TaskEvent μ)
  | openPage
  | client (i : Nat) (e : ClientEvent β)

/-- The frame a task's event publishes: a message that `encode` fails on is only logged. -/
def TaskEvent.frame? (encode : μ → Option α) : TaskEvent μ → Option α
  | .message m => encode m
  | _ => none

/-- One move of the system. -/
def step (encode : μ → Option α) (browser : Browser α β π) (hub : Hub B π) :
    Act μ β → Option (Hub B π)
  | .task p e => ((hub.task p).step e).map fun task =>
      let hub := { hub with task := Function.update hub.task p task }
      match e.frame? encode with
      | some a => hub.send p.topic a
      | none => hub
  | .openPage => some { hub with clients := hub.clients ++ [⟨browser.initial, none⟩] }
  | .client i e => hub.clients[i]?.bind fun client =>
      (client.step browser hub.channel e).map fun client =>
        { hub with clients := hub.clients.set i client }

/-- The frames that the tasks of a topic bring in a run. -/
def frames (encode : μ → Option α) (topic : Topic) (acts : List (Act μ β)) : List α :=
  acts.filterMap fun
    | .task p e => if p.topic = topic then e.frame? encode else none
    | _ => none

variable {encode : μ → Option α} {browser : Browser α β π} {hub hub' : Hub B π}

/-! ## 4. What one move does -/

/-- **A task's move.**  It changes its task, and sends the frame, if there is one, on its channel. -/
theorem step_task {p : Producer} {e : TaskEvent μ}
    (h : step encode browser hub (.task p e) = some hub') :
    ∃ task, (hub.task p).step e = some task ∧ hub'.task = Function.update hub.task p task ∧
      hub'.clients = hub.clients ∧
      hub'.channel = match e.frame? encode with
        | some a => Function.update hub.channel p.topic (B.send (hub.channel p.topic) a)
        | none => hub.channel := by
  obtain ⟨task, htask, rfl⟩ := Option.map_eq_some_iff.mp h
  refine ⟨task, htask, ?_⟩
  cases e.frame? encode <;> exact ⟨rfl, rfl, rfl⟩

/-- **A client's move** changes that client and nothing else. -/
theorem step_client {i : Nat} {e : ClientEvent β}
    (h : step encode browser hub (.client i e) = some hub') :
    ∃ client client', hub.clients[i]? = some client ∧
      client.step browser hub.channel e = some client' ∧
      hub' = { hub with clients := hub.clients.set i client' } := by
  obtain ⟨client, hclient, hstep⟩ := Option.bind_eq_some_iff.mp h
  obtain ⟨client', hclient', rfl⟩ := Option.map_eq_some_iff.mp hstep
  exact ⟨client, client', hclient, hclient', rfl⟩

/-- What a move does to the channels: at most it sends on one. -/
theorem step_channel {act : Act μ β} (h : step encode browser hub act = some hub') (topic : Topic) :
    frames encode topic [act] = [] ∧ hub'.channel topic = hub.channel topic ∨
      ∃ a, frames encode topic [act] = [a] ∧
        hub'.channel topic = B.send (hub.channel topic) a := by
  cases act with
  | openPage => cases h; exact .inl ⟨rfl, rfl⟩
  | client i e =>
    obtain ⟨client, client', -, -, rfl⟩ := step_client h
    exact .inl ⟨rfl, rfl⟩
  | task p e =>
    obtain ⟨task, -, -, -, hchannel⟩ := step_task h
    rw [hchannel]
    cases hframe : e.frame? encode with
    | none => exact .inl ⟨by simp [frames, hframe], rfl⟩
    | some a =>
      by_cases htopic : p.topic = topic
      · subst htopic
        exact .inr ⟨a, by simp [frames, hframe], Function.update_self _ _ _⟩
      · exact .inl ⟨by simp [frames, htopic], Function.update_of_ne (Ne.symm htopic) _ _⟩

/-- The channels are used as channels. -/
def Hub.Opened (hub : Hub B π) : Prop := ∀ topic, Made B telemetryBuffer (hub.channel topic)

theorem opened_spawn : (spawn B π).Opened := fun _ => .new

theorem Hub.Opened.step {act : Act μ β} (hopened : hub.Opened)
    (h : step encode browser hub act = some hub') : hub'.Opened := by
  intro topic
  rcases step_channel h topic with ⟨-, hsame⟩ | ⟨a, -, hsend⟩
  · rw [hsame]
    exact hopened topic
  · rw [hsend]
    exact (hopened topic).send a

theorem Hub.Opened.run {C : Hub B π → Act μ β → Prop} {acts : List (Act μ β)}
    (hopened : hub.Opened) (h : Run (Telemetry.step encode browser) C hub acts hub') :
    hub'.Opened :=
  h.invariant hopened fun _ _ _ hopened _ hstep => hopened.step hstep

/-! ## 5. A client that stays connected -/

/-- What moves a page: a frame, or something of its own. -/
inductive Input (α β : Type*)
  | frame (a : α)
  | own (b : β)

def Input.frame? : Input α β → Option α
  | .frame a => some a
  | .own _ => none

@[simp] theorem filterMap_frame (a : α) :
    [(Input.frame a : Input α β)].filterMap Input.frame? = [a] := rfl

@[simp] theorem filterMap_own (b : β) :
    [(Input.own b : Input α β)].filterMap Input.frame? = [] := rfl

/-- The page after an input. -/
def Browser.step (browser : Browser α β π) (page : π) : Input α β → π
  | .frame a => browser.onFrame page a
  | .own b => browser.onOwn page b

/-- Client `i` subscribed to `topic` when its page was `start`, and `sent` is what its channel's
tasks have brought since: the frames its page has been moved by, and then those on the wire, are
what a receiver of the channel gets. -/
def Connected (browser : Browser α β π) (i : Nat) (topic : Topic) (start : π) (sent : List α)
    (hub : Hub B π) : Prop :=
  ∃ (client : Client B π) (sub : Subscription B) (inputs : List (Input α β)),
    hub.clients[i]? = some client ∧ client.source = some sub ∧ sub.topic = topic ∧
    client.page = inputs.foldl browser.step start ∧
    Receives B telemetryBuffer (hub.channel topic) sent sub.receiver
      (inputs.filterMap Input.frame? ++ sub.wire)

/-- The act neither connects client `i` nor ends its connection. -/
def Stays (i : Nat) (_ : Hub B π) : Act μ β → Prop
  | .client j (.connect _) => j ≠ i
  | .client j .disconnect => j ≠ i
  | _ => True

instance (i : Nat) (hub : Hub B π) : (act : Act μ β) → Decidable (Stays i hub act)
  | .task _ _ => isTrue trivial
  | .openPage => isTrue trivial
  | .client j (.connect _) => inferInstanceAs (Decidable (j ≠ i))
  | .client j .disconnect => inferInstanceAs (Decidable (j ≠ i))
  | .client _ .poll => isTrue trivial
  | .client _ .arrive => isTrue trivial
  | .client _ (.own _) => isTrue trivial

variable {i : Nat} {topic : Topic} {start : π} {sent : List α}

/-- A new connection. -/
theorem connected_connect (hopened : hub.Opened)
    (h : step encode browser hub (.client i (.connect topic)) = some hub') :
    ∃ client, hub.clients[i]? = some client ∧
      Connected browser i topic client.page ([] : List α) hub' := by
  obtain ⟨client, client', hclient, hstep, rfl⟩ := step_client h
  have hlt : i < hub.clients.length := (List.getElem?_eq_some_iff.mp hclient).1
  cases hsource : client.source with
  | some sub => simp [Client.step, hsource] at hstep
  | none =>
    simp only [Client.step, hsource, Option.some.injEq] at hstep
    subst hstep
    exact ⟨client, hclient, _, _, [], List.getElem?_set_self hlt, rfl, rfl, rfl,
      receives_subscribe (hopened topic)⟩

/-- A move of another client. -/
theorem Connected.other {j : Nat} {client : Client B π}
    (hconnected : Connected browser i topic start sent hub) (hne : j ≠ i) :
    Connected browser i topic start sent { hub with clients := hub.clients.set j client } := by
  obtain ⟨me, sub, inputs, hme, hrest⟩ := hconnected
  refine ⟨me, sub, inputs, ?_, hrest⟩
  rw [List.getElem?_set_ne hne]
  exact hme

/-- A move of the client itself. -/
theorem Connected.own (hB : B.Lawful telemetryBuffer) {e : ClientEvent β}
    {client client' : Client B π}
    (hconnected : Connected browser i topic start sent hub)
    (hstays : Stays (μ := μ) i hub (.client i e)) (hclient : hub.clients[i]? = some client)
    (hstep : client.step browser hub.channel e = some client') :
    Connected browser i topic start sent { hub with clients := hub.clients.set i client' } := by
  obtain ⟨me, sub, inputs, hme, hsource, htopic, hpage, hreceives⟩ := hconnected
  obtain rfl : me = client := Option.some.inj (hme.symm.trans hclient)
  have hset : (hub.clients.set i client')[i]? = some client' :=
    List.getElem?_set_self (List.getElem?_eq_some_iff.mp hme).1
  cases e with
  | connect topic => exact absurd rfl hstays
  | disconnect => exact absurd rfl hstays
  | own b =>
    cases hstep
    refine ⟨_, sub, inputs ++ [.own b], hset, hsource, htopic, ?_, ?_⟩
    · simp [hpage, Browser.step]
    · simpa using hreceives
  | poll =>
    subst htopic
    have hrecv := hreceives.recv hB
    simp only [Client.step, hsource, Option.bind_some] at hstep
    obtain ⟨sub', hpoll, rfl⟩ := Option.map_eq_some_iff.mp hstep
    obtain ⟨a, hreading, rfl⟩ | ⟨missed, hreading, rfl⟩ := Subscription.poll_cases hpoll
    · rw [hreading] at hrecv
      refine ⟨_, _, inputs, hset, rfl, rfl, hpage, ?_⟩
      simpa using hrecv
    · rw [hreading] at hrecv
      exact ⟨_, _, inputs, hset, rfl, rfl, hpage, hrecv⟩
  | arrive =>
    simp only [Client.step, hsource, Option.bind_some] at hstep
    obtain ⟨a, wire, hwire, rfl⟩ := Client.arrive_eq_some hstep
    refine ⟨_, _, inputs ++ [.frame a], hset, rfl, htopic, ?_, ?_⟩
    · simp [hpage, Browser.step]
    · simpa [hwire] using hreceives

/-- **The step.**  Whatever moves, a client that stays connected keeps receiving, and what its
channel's tasks bring is sent to it. -/
theorem Connected.step (hB : B.Lawful telemetryBuffer) {act : Act μ β}
    (hconnected : Connected browser i topic start sent hub) (hstays : Stays i hub act)
    (h : Telemetry.step encode browser hub act = some hub') :
    Connected browser i topic start (sent ++ frames encode topic [act]) hub' := by
  have hchannel := step_channel h topic
  cases act with
  | openPage =>
    cases h
    obtain ⟨client, sub, inputs, hclient, hrest⟩ := hconnected
    have hlt : i < hub.clients.length := (List.getElem?_eq_some_iff.mp hclient).1
    refine ⟨client, sub, inputs, ?_, by simpa [frames] using hrest⟩
    rw [List.getElem?_append_left hlt]
    exact hclient
  | client j e =>
    obtain ⟨client, client', hclient, hstep, rfl⟩ := step_client h
    have hframes : frames encode topic [Act.client j e] = [] := rfl
    rw [hframes, List.append_nil]
    by_cases hj : j = i
    · subst hj
      exact hconnected.own hB hstays hclient hstep
    · exact hconnected.other hj
  | task p e =>
    obtain ⟨task, -, -, hclients, -⟩ := step_task h
    obtain ⟨client, sub, inputs, hclient, hsource, htopic, hpage, hreceives⟩ := hconnected
    refine ⟨client, sub, inputs, by rw [hclients]; exact hclient, hsource, htopic, hpage, ?_⟩
    rcases hchannel with ⟨hframes, hsame⟩ | ⟨a, hframes, hsend⟩
    · rwa [hframes, List.append_nil, hsame]
    · rw [hframes, hsend]
      exact hreceives.send a

theorem frames_append (topic : Topic) (acts acts' : List (Act μ β)) :
    frames encode topic (acts ++ acts') = frames encode topic acts ++ frames encode topic acts' :=
  List.filterMap_append

/-- **The run.** -/
theorem Connected.run (hB : B.Lawful telemetryBuffer) {acts : List (Act μ β)}
    (hconnected : Connected browser i topic start [] hub)
    (h : Run (Telemetry.step encode browser) (Stays i) hub acts hub') :
    Connected browser i topic start (frames encode topic acts) hub' := by
  refine h.history (I := fun acts hub =>
    Connected browser i topic start (frames encode topic acts) hub) hconnected ?_
  intro acts hub act hub' hconnected hstays hstep
  rw [frames_append]
  exact hconnected.step hB hstays hstep

/-! ## 6. Catching up -/

/-- A client has got all there is for it, and its page has too. -/
def CaughtUp (i : Nat) (topic : Topic) (hub : Hub B π) : Prop :=
  ∃ client sub, hub.clients[i]? = some client ∧ client.source = some sub ∧ sub.topic = topic ∧
    (B.recv (hub.channel topic) sub.receiver).1 = .nothing ∧ sub.wire = []

/-- The act is one of client `i` receiving. -/
def Receiving (i : Nat) (act : Act μ β) : Prop := act = .client i .poll ∨ act = .client i .arrive

theorem frames_receiving {acts : List (Act μ β)} (h : ∀ act ∈ acts, Receiving i act) :
    frames encode topic acts = [] := by
  refine List.filterMap_eq_nil_iff.mpr ?_
  intro act hact
  rcases h act hact with rfl | rfl <;> rfl

/-- Client `i` has read `n` of what was sent to it, and has so many frames on the wire. -/
def Behind (i : Nat) (topic : Topic) (sent : List α) (n wires : Nat) (hub : Hub B π) : Prop :=
  n ≤ sent.length ∧ ∃ client sub, hub.clients[i]? = some client ∧ client.source = some sub ∧
    sub.topic = topic ∧ sub.wire.length = wires ∧
    Reads B telemetryBuffer (hub.channel topic) sub.receiver sent n

theorem step_client_eq {i : Nat} {e : ClientEvent β} {client client' : Client B π}
    (hclient : hub.clients[i]? = some client)
    (hstep : client.step browser hub.channel e = some client') :
    step encode browser hub (.client i e) = some { hub with clients := hub.clients.set i client' } := by
  simp [step, hclient, hstep]

variable (encode browser) in
/-- A client that has not caught up can receive something. -/
theorem Behind.receives (hB : B.Lawful telemetryBuffer) {n wires : Nat}
    (h : Behind i topic sent n wires hub) (hmore : n < sent.length ∨ 0 < wires) :
    ∃ (act : Act μ β) (hub' : Hub B π) (n' wires' : Nat), Receiving i act ∧
      step encode browser hub act = some hub' ∧ hub'.task = hub.task ∧
      hub'.channel = hub.channel ∧ Behind i topic sent n' wires' hub' ∧
      2 * (sent.length - n') + wires' < 2 * (sent.length - n) + wires := by
  obtain ⟨hn, client, sub, hclient, hsource, rfl, rfl, hreads⟩ := h
  have hlt : i < hub.clients.length := (List.getElem?_eq_some_iff.mp hclient).1
  by_cases hnext : n < sent.length
  · have hcapacity : 0 < telemetryBuffer := by decide
    obtain ⟨hless, hle⟩ := readTo_lt hcapacity hnext
    have hreading := hB hreads
    by_cases hlag : n + telemetryBuffer < sent.length
    · have hpoll : client.step browser hub.channel .poll = some { client with
          source := some { sub with receiver := (B.recv (hub.channel sub.topic) sub.receiver).2 } } := by
        simp [Client.step, hsource, Subscription.poll, hreading, told, hlag]
      exact ⟨_, _, _, sub.wire.length, .inl rfl, step_client_eq hclient hpoll, rfl, rfl,
        ⟨hle, _, _, List.getElem?_set_self hlt, rfl, rfl, rfl, hreads.recv⟩, by omega⟩
    · have hvalue : told telemetryBuffer sent n = .value sent[n] := by
        rw [told, if_neg hlag, List.getElem?_eq_getElem hnext]
      have hpoll : client.step browser hub.channel .poll = some { client with
          source := some { sub with
            receiver := (B.recv (hub.channel sub.topic) sub.receiver).2
            wire := sub.wire ++ [sent[n]] } } := by
        simp [Client.step, hsource, Subscription.poll, hreading, hvalue]
      exact ⟨_, _, _, sub.wire.length + 1, .inl rfl, step_client_eq hclient hpoll, rfl, rfl,
        ⟨hle, _, _, List.getElem?_set_self hlt, rfl, rfl, by simp, hreads.recv⟩, by omega⟩
  · have hwire : 0 < sub.wire.length := hmore.resolve_left hnext
    obtain ⟨a, wire, hsplit⟩ := List.exists_cons_of_length_pos hwire
    have harrive : client.step browser hub.channel .arrive = some
        { page := browser.onFrame client.page a, source := some { sub with wire } } := by
      simp [Client.step, hsource, Client.arrive, hsplit]
    exact ⟨_, _, n, wire.length, .inr rfl, step_client_eq hclient harrive, rfl, rfl,
      ⟨hn, _, _, List.getElem?_set_self hlt, rfl, rfl, rfl, hreads⟩, by simp [hsplit]⟩

variable (encode browser) in
/-- **A client catches up** by receiving, and nothing else moves meanwhile. -/
theorem Behind.catches_up (hB : B.Lawful telemetryBuffer) {n wires : Nat}
    (h : Behind i topic sent n wires hub) :
    ∃ (acts : List (Act μ β)) (hub' : Hub B π), (∀ act ∈ acts, Receiving i act) ∧
      Run (step encode browser) (Stays i) hub acts hub' ∧ hub'.task = hub.task ∧
      hub'.channel = hub.channel ∧ CaughtUp i topic hub' := by
  induction hmeasure : 2 * (sent.length - n) + wires using Nat.strongRecOn generalizing hub n wires with
  | ind m ih =>
    by_cases hmore : n < sent.length ∨ 0 < wires
    · obtain ⟨act, hub₁, n', wires', hact, hstep, htask, hchannel, hbehind, hless⟩ :=
        h.receives encode browser hB hmore
      obtain ⟨acts, hub', hacts, hrun, htask', hchannel', hcaught⟩ :=
        ih _ (hmeasure ▸ hless) hbehind rfl
      have hstays : Stays i hub act := by
        rcases hact with rfl | rfl <;> trivial
      exact ⟨act :: acts, hub', List.forall_mem_cons.mpr ⟨hact, hacts⟩, .cons hstays hstep hrun,
        htask'.trans htask, hchannel'.trans hchannel, hcaught⟩
    · obtain ⟨hn, client, sub, hclient, hsource, htopic, hwire, hreads⟩ := h
      have hend : n = sent.length := by omega
      subst hend
      refine ⟨[], hub, by simp, .nil _, rfl, rfl, client, sub, hclient, hsource, htopic, ?_, ?_⟩
      · rw [hB hreads, told_length]
      · exact List.length_eq_zero_iff.mp (by omega)

variable (encode) in
theorem Connected.catches_up (hB : B.Lawful telemetryBuffer)
    (h : Connected browser i topic start sent hub) :
    ∃ (acts : List (Act μ β)) (hub' : Hub B π), (∀ act ∈ acts, Receiving i act) ∧
      Run (Telemetry.step encode browser) (Stays i) hub acts hub' ∧ hub'.task = hub.task ∧
      hub'.channel = hub.channel ∧ CaughtUp i topic hub' := by
  obtain ⟨client, sub, inputs, hclient, hsource, htopic, -, n, hreads, hfollows⟩ := h
  exact Behind.catches_up encode browser hB
    ⟨hfollows.1, client, sub, hclient, hsource, htopic, rfl, hreads⟩

/-! ## 7. The fan-out -/

/-- **Fan-out.**  A client connects at any moment of any run and stays connected.  From then on
its page moves by what it does itself and by frames that its channel's tasks bring, in order and
each once; and whenever it has caught up with the channel, the frames that have arrived and those
on the wire end with the newest 1024. -/
theorem fan_out (hB : B.Lawful telemetryBuffer) {before after : List (Act μ β)}
    {hub₀ hub₁ hub₂ : Hub B π}
    (hbefore : Run (step encode browser) Always (spawn B π) before hub₀)
    (hconnect : step encode browser hub₀ (.client i (.connect topic)) = some hub₁)
    (hafter : Run (step encode browser) (Stays i) hub₁ after hub₂) :
    ∃ (client client' : Client B π) (sub : Subscription B) (inputs : List (Input α β)),
      hub₀.clients[i]? = some client ∧ hub₂.clients[i]? = some client' ∧
      client'.source = some sub ∧ client'.page = inputs.foldl browser.step client.page ∧
      (inputs.filterMap Input.frame? ++ sub.wire).Sublist (frames encode topic after) ∧
      ((B.recv (hub₂.channel topic) sub.receiver).1 = .nothing →
        (frames encode topic after).drop ((frames encode topic after).length - telemetryBuffer) <:+
          inputs.filterMap Input.frame? ++ sub.wire) := by
  have hopened₀ : hub₀.Opened := opened_spawn.run hbefore
  obtain ⟨client, hclient, hconnected⟩ := connected_connect hopened₀ hconnect
  obtain ⟨client', sub, inputs, hclient', hsource, -, hpage, hreceives⟩ := hconnected.run hB hafter
  exact ⟨client, client', sub, inputs, hclient, hclient', hsource, hpage, hreceives.sublist,
    hreceives.suffix_of_nothing hB⟩

/-- The messages of a stream, one after another. -/
def messages (p : Producer) (ms : List μ) : List (Act μ β) :=
  ms.map fun m => .task p (.message m)

theorem frames_messages (p : Producer) (ms : List μ) :
    frames encode p.topic (messages (β := β) p ms) = ms.filterMap encode := by
  simp [frames, messages, List.filterMap_map, TaskEvent.frame?]

variable (encode browser) in
/-- An open stream can bring messages. -/
theorem exists_run_messages (i : Nat) {p : Producer} (hopen : (hub.task p).phase = .streaming)
    (ms : List μ) :
    ∃ hub', Run (step encode browser) (Stays i) hub (messages p ms) hub' ∧
      (hub'.task p).phase = .streaming := by
  induction ms generalizing hub with
  | nil => exact ⟨hub, .nil _, hopen⟩
  | cons m ms ih =>
    have hstep : (hub.task p).step (.message m) = some (hub.task p) := if_pos hopen
    obtain ⟨hub₁, h₁⟩ : ∃ hub₁, step encode browser hub (.task p (.message m)) = some hub₁ := by
      simp [step, hstep]
    obtain ⟨task, htask, hupdate, -, -⟩ := step_task h₁
    have hopen₁ : (hub₁.task p).phase = .streaming := by
      rw [hupdate, Function.update_self, ← Option.some.inj (hstep.symm.trans htask), hopen]
    obtain ⟨hub', hrun, hopen'⟩ := ih hopen₁
    exact ⟨hub', .cons trivial h₁ hrun, hopen'⟩

/-- A page that collects its frames. -/
def collecting : Browser Nat Unit (List Nat) where
  initial := []
  onFrame page a := page ++ [a]
  onOwn page _ := page

theorem foldl_collecting (inputs : List (Input Nat Unit)) (page : List Nat) :
    inputs.foldl collecting.step page = page ++ inputs.filterMap Input.frame? := by
  induction inputs generalizing page with
  | nil => simp
  | cons input inputs ih =>
    rw [List.foldl_cons, ih]
    cases input <;> simp [Browser.step, collecting, List.filterMap_cons, Input.frame?]

/-- A page that connects after one event falls behind by more than a thousand, and catches up. -/
theorem fan_out_second :
    ∃ (acts : List (Act Nat Unit)) (hub : Hub (rings Nat) (List Nat))
        (client : Client (rings Nat) (List Nat)),
      (∀ act ∈ acts, Receiving 0 act) ∧
      Run (step some collecting) Always (spawn (rings Nat) (List Nat))
        ([.openPage, .task .runEvents .opened, .task .runEvents (.message 5000),
          .client 0 (.connect .events)] ++ (messages .runEvents (List.range 1030) ++ acts)) hub ∧
      hub.clients[0]? = some client ∧ client.page.Sublist (List.range 1030) ∧
      (List.range 1030).drop 6 <:+ client.page := by
  have hB := rings_lawful Nat telemetryBuffer (by decide)
  obtain ⟨hub₀, hub₁, hbefore, hempty, hconnect, hopen⟩ : ∃ hub₀ hub₁ : Hub (rings Nat) (List Nat),
      Run (step some collecting) Always (spawn (rings Nat) (List Nat))
        [.openPage, .task .runEvents .opened, .task .runEvents (.message 5000)] hub₀ ∧
      hub₀.clients[0]? = some ⟨[], none⟩ ∧
      step some collecting hub₀ (.client 0 (.connect .events)) = some hub₁ ∧
      (hub₁.task .runEvents).phase = .streaming :=
    ⟨_, _, run_iff_exec.mpr rfl, rfl, rfl, rfl⟩
  obtain ⟨hub₂, hburst, -⟩ := exists_run_messages some collecting 0 hopen (List.range 1030)
  obtain ⟨_, -, hconnected⟩ := connected_connect (opened_spawn.run hbefore) hconnect
  obtain ⟨acts, hub, hacts, hcatch, -, -, hcaught⟩ :=
    (hconnected.run hB hburst).catches_up some hB
  have hrun := hburst.append hcatch
  have hframes : frames some .events (messages (β := Unit) .runEvents (List.range 1030) ++ acts) =
      List.range 1030 := by
    rw [frames_append, frames_receiving hacts, List.append_nil]
    exact (frames_messages .runEvents _).trans List.filterMap_some
  obtain ⟨client₀, client, sub, inputs, hclient₀, hclient, hsource, hpage, hsublist, hsuffix⟩ :=
    fan_out hB hbefore hconnect hrun
  obtain ⟨client', sub', hclient', hsource', -, hend, hwire⟩ := hcaught
  obtain rfl : client = client' := Option.some.inj (hclient.symm.trans hclient')
  obtain rfl : sub = sub' := Option.some.inj (hsource.symm.trans hsource')
  obtain rfl : ⟨[], none⟩ = client₀ := Option.some.inj (hempty.symm.trans hclient₀)
  rw [hframes, hwire, List.append_nil] at hsublist hsuffix
  rw [foldl_collecting, List.nil_append] at hpage
  refine ⟨acts, hub, client, hacts, ?_, hclient, by rwa [hpage], ?_⟩
  · have hconnected := hbefore.snoc trivial hconnect
    exact hconnected.append (hrun.mono fun _ _ _ => trivial)
  · rw [hpage]
    simpa [telemetryBuffer] using hsuffix hend

/-! ## 8. Nothing else is ever shown -/

/-- Everything about a client that came from upstream satisfies `P`: its page was moved by
frames that do, and so do those on its wire and those it can still be told. -/
def Client.Traced (browser : Browser α β π) (channel : Topic → B.Channel) (P : α → Prop)
    (client : Client B π) : Prop :=
  (∃ inputs : List (Input α β), client.page = inputs.foldl browser.step browser.initial ∧
      ∀ a ∈ inputs.filterMap Input.frame?, P a) ∧
    ∀ sub ∈ client.source, (∀ a ∈ sub.wire, P a) ∧ ∃ log n,
      Reads B telemetryBuffer (channel sub.topic) sub.receiver log n ∧ ∀ a ∈ log, P a

def Hub.Traced (browser : Browser α β π) (P : α → Prop) (hub : Hub B π) : Prop :=
  ∀ client ∈ hub.clients, client.Traced browser hub.channel P

variable {P Q : α → Prop}

theorem Hub.Traced.mono (h : hub.Traced browser P) (hPQ : ∀ a, P a → Q a) :
    hub.Traced browser Q := by
  intro client hclient
  obtain ⟨⟨inputs, hpage, hinputs⟩, hsource⟩ := h client hclient
  refine ⟨⟨inputs, hpage, fun a ha => hPQ a (hinputs a ha)⟩, ?_⟩
  intro sub hsub
  obtain ⟨hwire, log, n, hreads, hlog⟩ := hsource sub hsub
  exact ⟨fun a ha => hPQ a (hwire a ha), log, n, hreads, fun a ha => hPQ a (hlog a ha)⟩

theorem traced_spawn : (spawn B π).Traced browser P :=
  fun _ hclient => absurd hclient List.not_mem_nil

theorem mem_of_told {capacity n : Nat} {log : List α} {a : α}
    (h : told capacity log n = .value a) : a ∈ log := by
  unfold told at h
  split at h
  · cases h
  · split at h
    · rename_i b hb
      cases h
      exact List.mem_of_getElem? hb
    · cases h

/-- What a client has got and can get is not affected by what is sent, if that satisfies `P`. -/
theorem Client.Traced.send {client : Client B π} {channel channel' : Topic → B.Channel}
    (h : client.Traced browser channel P)
    (hchannel : ∀ topic, channel' topic = channel topic ∨
      ∃ a, P a ∧ channel' topic = B.send (channel topic) a) :
    client.Traced browser channel' P := by
  refine ⟨h.1, ?_⟩
  intro sub hsub
  obtain ⟨hwire, log, n, hreads, hlog⟩ := h.2 sub hsub
  refine ⟨hwire, ?_⟩
  rcases hchannel sub.topic with hsame | ⟨a, ha, hsend⟩
  · exact ⟨log, n, by rwa [hsame], hlog⟩
  · refine ⟨log ++ [a], n, by rw [hsend]; exact hreads.send a, ?_⟩
    intro b hb
    rcases List.mem_append.mp hb with hb | hb
    · exact hlog b hb
    · rwa [List.mem_singleton.mp hb]

theorem Client.Traced.step (hB : B.Lawful telemetryBuffer) {client client' : Client B π}
    {e : ClientEvent β} {channel : Topic → B.Channel} (h : client.Traced browser channel P)
    (hmade : ∀ topic, Made B telemetryBuffer (channel topic))
    (hstep : client.step browser channel e = some client') :
    client'.Traced browser channel P := by
  obtain ⟨⟨inputs, hpage, hinputs⟩, hsource⟩ := h
  cases e with
  | connect topic =>
    cases hnone : client.source with
    | some sub => simp [Client.step, hnone] at hstep
    | none =>
      simp only [Client.step, hnone, Option.some.injEq] at hstep
      subst hstep
      refine ⟨⟨inputs, hpage, hinputs⟩, ?_⟩
      rintro _ ⟨⟩
      exact ⟨fun _ ha => absurd ha List.not_mem_nil, [], 0, .subscribe (hmade topic),
        fun _ ha => absurd ha List.not_mem_nil⟩
  | disconnect =>
    obtain ⟨sub, -, rfl⟩ := Option.map_eq_some_iff.mp hstep
    exact ⟨⟨inputs, hpage, hinputs⟩, fun _ hsub => by cases hsub⟩
  | own b =>
    cases hstep
    refine ⟨⟨inputs ++ [.own b], by simp [hpage, Browser.step], ?_⟩, hsource⟩
    simpa using hinputs
  | poll =>
    obtain ⟨sub, hsub, hpoll⟩ := Option.bind_eq_some_iff.mp hstep
    obtain ⟨sub', hsub', rfl⟩ := Option.map_eq_some_iff.mp hpoll
    obtain ⟨hwire, log, n, hreads, hlog⟩ := hsource sub hsub
    refine ⟨⟨inputs, hpage, hinputs⟩, ?_⟩
    rintro _ ⟨⟩
    obtain ⟨a, hreading, rfl⟩ | ⟨missed, -, rfl⟩ := Subscription.poll_cases hsub'
    · refine ⟨?_, log, _, hreads.recv, hlog⟩
      have ha : P a := hlog a (mem_of_told ((hB hreads).symm.trans hreading))
      intro b hb
      rcases List.mem_append.mp hb with hb | hb
      · exact hwire b hb
      · rwa [List.mem_singleton.mp hb]
    · exact ⟨hwire, log, _, hreads.recv, hlog⟩
  | arrive =>
    obtain ⟨sub, hsub, harrive⟩ := Option.bind_eq_some_iff.mp hstep
    obtain ⟨hwire, hlog⟩ := hsource sub hsub
    obtain ⟨b, wire, hsplit, rfl⟩ := Client.arrive_eq_some harrive
    rw [hsplit] at hwire
    refine ⟨⟨inputs ++ [.frame b], by simp [hpage, Browser.step], ?_⟩, ?_⟩
    · intro a ha
      rw [List.filterMap_append, filterMap_frame] at ha
      rcases List.mem_append.mp ha with ha | ha
      · exact hinputs a ha
      · rw [List.mem_singleton.mp ha]
        exact hwire b List.mem_cons_self
    · rintro _ ⟨⟩
      exact ⟨fun a ha => hwire a (List.mem_cons_of_mem b ha), hlog⟩

/-- **The step.**  If the frames that the act brings satisfy `P`. -/
theorem Hub.Traced.step (hB : B.Lawful telemetryBuffer) {act : Act μ β}
    (htraced : hub.Traced browser P) (hopened : hub.Opened)
    (hact : ∀ topic, ∀ a ∈ frames encode topic [act], P a)
    (h : Telemetry.step encode browser hub act = some hub') : hub'.Traced browser P := by
  have hchannel (topic : Topic) : hub'.channel topic = hub.channel topic ∨
      ∃ a, P a ∧ hub'.channel topic = B.send (hub.channel topic) a := by
    rcases step_channel h topic with ⟨-, hsame⟩ | ⟨a, hframes, hsend⟩
    · exact .inl hsame
    · exact .inr ⟨a, hact topic a (by rw [hframes]; exact List.mem_singleton_self a), hsend⟩
  intro client hclient
  cases act with
  | task p e =>
    obtain ⟨task, -, -, hclients, -⟩ := step_task h
    rw [hclients] at hclient
    exact (htraced client hclient).send hchannel
  | openPage =>
    cases h
    rcases List.mem_append.mp hclient with hclient | hclient
    · exact htraced client hclient
    · rw [List.mem_singleton.mp hclient]
      exact ⟨⟨[], rfl, fun _ ha => absurd ha List.not_mem_nil⟩, fun _ hsub => by cases hsub⟩
  | client i e =>
    obtain ⟨me, me', hme, hstep, rfl⟩ := step_client h
    rcases List.mem_or_eq_of_mem_set hclient with hclient | rfl
    · exact htraced client hclient
    · exact (htraced me (List.mem_of_getElem? hme)).step hB hopened hstep

/-- A task brings the frame in the run. -/
def Brought (encode : μ → Option α) (acts : List (Act μ β)) (a : α) : Prop :=
  ∃ topic, a ∈ frames encode topic acts

/-- **The run.**  Whatever moved a page is a frame that a task brought. -/
theorem traced_run (hB : B.Lawful telemetryBuffer) {C : Hub B π → Act μ β → Prop}
    {acts : List (Act μ β)} (h : Run (step encode browser) C (spawn B π) acts hub) :
    hub.Traced browser (Brought encode acts) := by
  refine (h.history (I := fun acts hub => hub.Opened ∧ hub.Traced browser (Brought encode acts))
    ⟨opened_spawn, traced_spawn⟩ ?_).2
  intro acts hub act hub' ⟨hopened, htraced⟩ _ hstep
  have hearlier : hub.Traced browser (Brought encode (acts ++ [act])) := by
    refine htraced.mono ?_
    rintro a ⟨topic, ha⟩
    exact ⟨topic, by rw [frames_append]; exact List.mem_append_left _ ha⟩
  refine ⟨hopened.step hstep, hearlier.step hB hopened ?_ hstep⟩
  intro topic a ha
  exact ⟨topic, by rw [frames_append]; exact List.mem_append_right _ ha⟩

/-! ## 9. How long a task sleeps -/

/-- How often the task has slept since its stream was last opened. -/
def sleeps (p : Producer) (acts : List (Act μ β)) : Nat :=
  acts.foldl (fun n act => match act with
    | .task q .opened => if q = p then 0 else n
    | .task q .slept => if q = p then n + 1 else n
    | _ => n) 0

theorem sleeps_concat (p : Producer) (acts : List (Act μ β)) (act : Act μ β) :
    sleeps p (acts ++ [act]) = match act with
      | .task q .opened => if q = p then 0 else sleeps p acts
      | .task q .slept => if q = p then sleeps p acts + 1 else sleeps p acts
      | _ => sleeps p acts := by
  rw [sleeps, List.foldl_append]
  rfl

/-- Only an opened stream and a sleep change a task's backoff. -/
theorem Task.backoff_step {task task' : Task} {e : TaskEvent μ} (h : task.step e = some task') :
    task'.backoff = match e with
      | .opened => backoffStart
      | .slept => min (task.backoff * 2) backoffMax
      | _ => task.backoff := by
  cases e <;>
  · obtain ⟨-, heq⟩ := Option.ite_none_right_eq_some.mp h
    obtain rfl := Option.some.inj heq
    rfl

theorem backoff_double (n : Nat) : min (min (2 ^ n) backoffMax * 2) backoffMax =
    min (2 ^ (n + 1)) backoffMax := by
  rw [Nat.pow_succ]
  omega

/-- **The backoff.**  A task's next sleep doubles with each one since its stream was last opened,
up to half a minute. -/
theorem backoff_run {C : Hub B π → Act μ β → Prop} {acts : List (Act μ β)}
    (h : Run (step encode browser) C (spawn B π) acts hub) (p : Producer) :
    (hub.task p).backoff = min (2 ^ sleeps p acts) backoffMax := by
  refine h.history (I := fun acts hub =>
    (hub.task p).backoff = min (2 ^ sleeps p acts) backoffMax) rfl ?_
  intro acts hub act hub' hbackoff _ hstep
  rw [sleeps_concat]
  cases act with
  | openPage => cases hstep; exact hbackoff
  | client i e =>
    obtain ⟨client, client', -, -, rfl⟩ := step_client hstep
    exact hbackoff
  | task q e =>
    obtain ⟨task, htask, hupdate, -, -⟩ := step_task hstep
    rw [hupdate]
    by_cases hq : q = p
    · subst hq
      rw [Function.update_self]
      rw [Task.backoff_step htask]
      cases e with
      | opened => simp [backoffStart, backoffMax]
      | slept => simp only [if_true, hbackoff, backoff_double]
      | openFailed => exact hbackoff
      | message m => exact hbackoff
      | ended => exact hbackoff
    · rw [Function.update_of_ne (Ne.symm hq)]
      cases e <;> simpa [hq] using hbackoff

end DcsDashboard.Telemetry

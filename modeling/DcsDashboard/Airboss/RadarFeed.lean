/-
# The radar feed of the airboss page

The radar stream effect of `airboss/page.tsx` at the end of the telemetry fan-out: what units
the page shows, from what the upstream streams have said.  `Telemetry.fan_out` gives the frames
that reach the page, and `lookup_applyBatches` what the batches it makes of them leave in its
snapshot.

* `page_latest`: whatever frames a slow page has missed, once it has caught up and its batch is
  committed, it shows for each unit among the newest 1024 frames what the newest of them says.
* `page_shown`: whatever it shows has been said.
-/
import DcsDashboard.Telemetry.FanOut
import DcsDashboard.Airboss.DeckTracking

namespace DcsDashboard.Airboss.DeckTracking

open Lib Lib.Broadcast Telemetry

universe u

variable {μ ν δ : Type*} {α : Type u} {B : Channels α} (js : JsNumber ν)
  (parse : α → Option (RadarStreamMessage ν δ))

/-! ## 1. The page -/

/-- The radar stream effect: `source.onmessage` on a frame, if `JSON.parse` takes it, and the
settle timer. -/
def radarPage : Browser α Unit (Page ν δ) where
  initial := ⟨none, ⟨∅⟩⟩
  onFrame page a := match parse a with
    | some m => page.step js (.message m)
    | none => page
  onOwn page _ := page.step js .commitPendingBatch

/-- What an input of the page is for its batches. -/
def pageEvent? : Input α Unit → Option (PageEvent ν δ)
  | .frame a => (parse a).map .message
  | .own _ => some .commitPendingBatch

variable {js parse}

theorem foldl_radarPage (inputs : List (Input α Unit)) (page : Page ν δ) :
    inputs.foldl (radarPage js parse).step page =
      (inputs.filterMap (pageEvent? parse)).foldl (Page.step js) page := by
  induction inputs generalizing page with
  | nil => rfl
  | cons input inputs ih =>
    rw [List.foldl_cons, ih]
    cases input with
    | own b => rfl
    | frame a =>
      cases ha : parse a with
      | none => simp [pageEvent?, ha, Browser.step, radarPage]
      | some m => simp [pageEvent?, ha, Browser.step, radarPage]

/-- The messages of the page's inputs are those of its frames. -/
theorem filterMap_pageEvent (inputs : List (Input α Unit)) :
    (inputs.filterMap (pageEvent? parse)).filterMap PageEvent.message? =
      (inputs.filterMap Input.frame?).filterMap parse := by
  rw [List.filterMap_filterMap, List.filterMap_filterMap]
  refine List.filterMap_congr ?_
  rintro (a | b) -
  · cases ha : parse a <;> simp [pageEvent?, Input.frame?, PageEvent.message?, ha]
  · rfl

/-! ## 2. What a settled page shows -/

/-- A page with nothing pending shows what the last of its messages about an id says. -/
theorem lookup_settled {snapshot : RadarSnapshot ν δ} {events : List (PageEvent ν δ)}
    (hsettled : (events.foldl (Page.step js) ⟨none, snapshot⟩).pending = none)
    {k : String} (hk : k ≠ protoKey) :
    (events.foldl (Page.step js) ⟨none, snapshot⟩).snapshot.samples.lookup k =
      (lastWrite k (writes js (events.filterMap PageEvent.message?))).getD
        (snapshot.samples.lookup k) := by
  obtain ⟨cut, rest, hmessages, hpage⟩ := page_run js snapshot events
  rw [hpage] at hsettled ⊢
  have hrest : applyBatches js snapshot (cut ++ [rest]) = applyBatches js snapshot cut := by
    have hnone : buildBatch js rest = none := hsettled
    simp [applyBatches, hnone, commitBatch]
  have hlookup := @lookup_applyBatches ν δ js snapshot (cut ++ [rest]) k
  rw [hrest, if_neg hk] at hlookup
  simpa [hmessages] using hlookup

theorem mem_of_lastWrite {κ β : Type*} [DecidableEq κ] {key : κ} {ws : List (κ × β)} {x : β}
    (h : lastWrite key ws = some x) : (key, x) ∈ ws := by
  obtain ⟨before, after, hws, -⟩ := List.lookup_eq_some_iff.mp h
  refine List.mem_reverse.mp ?_
  rw [hws]
  exact List.mem_append_right _ List.mem_cons_self

/-- What a page shows, settled or not, some message has said. -/
theorem said_of_lookup {events : List (PageEvent ν δ)} {k : String}
    {sample : RadarUnitSample ν δ}
    (h : (events.foldl (Page.step js) ⟨none, ⟨∅⟩⟩).snapshot.samples.lookup k = some sample) :
    ∃ m ∈ events.filterMap PageEvent.message?, writes? js m = some (k, some sample) := by
  obtain ⟨cut, rest, hmessages, hpage⟩ := page_run js (⟨∅⟩ : RadarSnapshot ν δ) events
  rw [hpage] at h
  rw [lookup_applyBatches] at h
  have hlast : lastWrite k (writes js (if k = protoKey then keeping js cut else cut).flatten) =
      some (some sample) := by
    cases hlast : lastWrite k
        (writes js (if k = protoKey then keeping js cut else cut).flatten) with
    | none => simp [hlast] at h
    | some x => rw [hlast, Option.getD_some] at h; rw [h]
  obtain ⟨m, hm, hwrites⟩ := List.mem_filterMap.mp (mem_of_lastWrite hlast)
  obtain ⟨messages, hmem, hm⟩ := List.mem_flatten.mp hm
  have hcut : messages ∈ cut := by
    split at hmem
    · exact (List.mem_filter.mp hmem).1
    · exact hmem
  refine ⟨m, ?_, hwrites⟩
  rw [hmessages]
  exact List.mem_append_left _ (List.mem_flatten.mpr ⟨messages, hcut, hm⟩)

/-! ## 3. The page in the system -/

variable {encode : μ → Option α}

/-- **Latest wins.**  A page connects to the radar stream at any moment of any run and stays
connected.  When it has caught up, with nothing on the wire and nothing pending, it shows for
each unit what the newest message about it says, if that is among the newest 1024 frames. -/
theorem page_latest (hB : B.Lawful telemetryBuffer) {before after : List (Act μ Unit)}
    {hub₀ hub₁ hub₂ : Hub B (Page ν δ)} {i : Nat} {client : Client B (Page ν δ)}
    {sub : Subscription B} {k : String} {said : Option (RadarUnitSample ν δ)}
    (hbefore : Run (step encode (radarPage js parse)) Always (spawn B (Page ν δ)) before hub₀)
    (hconnect : step encode (radarPage js parse) hub₀ (.client i (.connect .units)) = some hub₁)
    (hafter : Run (step encode (radarPage js parse)) (Stays i) hub₁ after hub₂)
    (hclient : hub₂.clients[i]? = some client) (hsource : client.source = some sub)
    (hcaught : (B.recv (hub₂.channel .units) sub.receiver).1 = .nothing) (hwire : sub.wire = [])
    (hsettled : client.page.pending = none) (hk : k ≠ protoKey)
    (hsaid : lastWrite k (writes js (((frames encode .units after).drop
      ((frames encode .units after).length - telemetryBuffer)).filterMap parse)) = some said) :
    client.page.snapshot.samples.lookup k = said := by
  obtain ⟨client₀, client', sub', inputs, hclient₀, hclient', hsource', hpage, -, hrecent⟩ :=
    fan_out hB hbefore hconnect hafter
  obtain rfl : client' = client := Option.some.inj (hclient'.symm.trans hclient)
  obtain rfl : sub' = sub := Option.some.inj (hsource'.symm.trans hsource)
  -- the page had been moved by other inputs before it connected
  obtain ⟨⟨earlier, hearlier, -⟩, -⟩ :=
    traced_run hB hbefore client₀ (List.mem_of_getElem? hclient₀)
  have hall : client'.page = ((earlier ++ inputs).filterMap (pageEvent? parse)).foldl
      (Page.step js) ⟨none, ⟨∅⟩⟩ := by
    rw [hpage, hearlier, ← List.foldl_append, foldl_radarPage]
    rfl
  rw [hall] at hsettled ⊢
  rw [lookup_settled hsettled hk, filterMap_pageEvent, List.filterMap_append]
  obtain ⟨older, hinputs⟩ := hrecent hcaught
  rw [hwire, List.append_nil] at hinputs
  rw [← hinputs, ← List.append_assoc, List.filterMap_append, writes_append, lastWrite_append,
    hsaid, Option.some_or, Option.getD_some]

variable (js parse encode) in
/-- A page that has caught up commits its batch. -/
theorem settles_of_caughtUp {hub : Hub B (Page ν δ)} {i : Nat} {topic : Topic}
    (h : CaughtUp i topic hub) :
    ∃ (hub' : Hub B (Page ν δ)) (client : Client B (Page ν δ)) (sub : Subscription B),
      step encode (radarPage js parse) hub (.client i (.own ())) = some hub' ∧
      hub'.clients[i]? = some client ∧ client.source = some sub ∧
      (B.recv (hub'.channel topic) sub.receiver).1 = .nothing ∧ sub.wire = [] ∧
      client.page.pending = none := by
  obtain ⟨client, sub, hclient, hsource, -, hend, hwire⟩ := h
  have hlt : i < hub.clients.length := (List.getElem?_eq_some_iff.mp hclient).1
  exact ⟨_, _, sub, step_client_eq hclient rfl, List.getElem?_set_self hlt, hsource, hend, hwire, rfl⟩

/-- A sighting of a unit. -/
def sighting (id time : Nat) : RadarStreamMessage Nat Unit :=
  { unitUpdate (.number id) with time := some (.number time) }

/-- What a sighting makes a page show. -/
def seen (id time : Nat) : RadarUnitSample Nat Unit :=
  { time := some time, unit := { id := some (.number id), fields := () } }

/-- A first connection, on which one unit is seen. -/
def firstConnection : List (Act (RadarStreamMessage Nat Unit) Unit) :=
  [.openPage, .task (.runUnits .ship) .opened, .client 0 (.connect .units),
    .task (.runUnits .ship) (.message (sighting 72 124)), .client 0 .poll, .client 0 .arrive,
    .client 0 (.own ()), .client 0 .disconnect]

/-- More sightings than the channel keeps. -/
def manySightings : List (RadarStreamMessage Nat Unit) :=
  sighting 71 130 :: (List.replicate 1023 (sighting 73 131) ++ [sighting 72 200])

/-- A page that has seen a unit on an earlier connection misses a frame and shows the newest
sighting. -/
theorem page_latest_ship :
    ∃ (hub₀ hub : Hub (rings _) (Page Nat Unit)) (acts : List (Act _ Unit))
        (old client : Client (rings _) (Page Nat Unit)),
      Run (step some (radarPage wholeNumbers some)) Always (spawn (rings _) (Page Nat Unit))
        firstConnection hub₀ ∧
      hub₀.clients[0]? = some old ∧
      old.page.snapshot.samples.lookup "72" = some (seen 72 124) ∧
      Run (step some (radarPage wholeNumbers some)) Always hub₀
        (.client 0 (.connect .units) :: (messages (.runUnits .ship) manySightings ++ acts)) hub ∧
      hub.clients[0]? = some client ∧
      client.page.snapshot.samples.lookup "72" = some (seen 72 200) := by
  have hB := rings_lawful (RadarStreamMessage Nat Unit) telemetryBuffer (by decide)
  obtain ⟨hub₀, hub₁, old, hbefore, hold, hshown, hconnect, hopen⟩ :
      ∃ (hub₀ hub₁ : Hub (rings _) (Page Nat Unit)) (old : Client (rings _) (Page Nat Unit)),
        Run (step some (radarPage wholeNumbers some)) Always (spawn (rings _) (Page Nat Unit))
          firstConnection hub₀ ∧
        hub₀.clients[0]? = some old ∧
        old.page.snapshot.samples.lookup "72" = some (seen 72 124) ∧
        step some (radarPage wholeNumbers some) hub₀ (.client 0 (.connect .units)) = some hub₁ ∧
        (hub₁.task (.runUnits .ship)).phase = .streaming :=
    ⟨_, _, _, run_iff_exec.mpr rfl, rfl, rfl, rfl, rfl⟩
  obtain ⟨_, hburst, -⟩ := exists_run_messages some (radarPage wholeNumbers some) 0 hopen
    manySightings
  obtain ⟨_, -, hconnected⟩ := connected_connect (opened_spawn.run hbefore) hconnect
  obtain ⟨acts, _, hacts, hcatch, -, -, hcaught⟩ :=
    (hconnected.run hB hburst).catches_up some hB
  obtain ⟨hub, client, sub, hsettle, hclient, hsource, hend, hwire, hpending⟩ :=
    settles_of_caughtUp wholeNumbers some some hcaught
  have hcommit :
      Run (step some (radarPage wholeNumbers some)) (Stays 0) _ [.client 0 (.own ())] hub :=
    .single trivial hsettle
  have hrun := hburst.append (hcatch.append hcommit)
  have hframes : frames some .units
      (messages (.runUnits .ship) manySightings ++ (acts ++ [.client 0 (.own ())])) =
        manySightings := by
    rw [frames_append, frames_append, frames_receiving hacts]
    exact (List.append_nil _).trans ((frames_messages (.runUnits .ship) _).trans List.filterMap_some)
  have hlength : manySightings.length = telemetryBuffer + 1 := by
    rw [manySightings, List.length_cons, List.length_append, List.length_replicate]
    rfl
  have hlatest : client.page.snapshot.samples.lookup "72" = some (seen 72 200) :=
    page_latest hB hbefore hconnect hrun hclient hsource hend hwire hpending (by decide) (by
      rw [hframes, hlength, Nat.add_sub_cancel_left, manySightings, List.drop_succ_cons,
        List.drop_zero, List.filterMap_some, writes_append, lastWrite_append]
      rfl)
  exact ⟨hub₀, hub, acts ++ [Act.client 0 (ClientEvent.own ())], old, client, hbefore, hold, hshown,
    .cons trivial hconnect (hrun.mono fun _ _ _ => trivial), hclient, hlatest⟩

/-- **Nothing else is shown.**  Whatever unit a page shows, in any state of any run, a message
of an upstream stream has said. -/
theorem page_shown (hB : B.Lawful telemetryBuffer) {acts : List (Act μ Unit)}
    {hub : Hub B (Page ν δ)} {client : Client B (Page ν δ)} {k : String}
    {sample : RadarUnitSample ν δ}
    (hrun : Run (step encode (radarPage js parse)) Always (spawn B (Page ν δ)) acts hub)
    (hclient : client ∈ hub.clients)
    (hshown : client.page.snapshot.samples.lookup k = some sample) :
    ∃ a m, Brought encode acts a ∧ parse a = some m ∧ writes? js m = some (k, some sample) := by
  obtain ⟨⟨inputs, hpage, hbrought⟩, -⟩ := traced_run hB hrun client hclient
  rw [hpage, foldl_radarPage] at hshown
  obtain ⟨m, hm, hwrites⟩ := said_of_lookup hshown
  rw [filterMap_pageEvent] at hm
  obtain ⟨a, ha, hparse⟩ := List.mem_filterMap.mp hm
  exact ⟨a, m, hbrought a ha, hparse, hwrites⟩

/-- Two units on one connection, and a newer sighting of one of them on the next. -/
def twoConnections : List (Act (RadarStreamMessage Nat Unit) Unit) :=
  firstConnection ++ [.client 0 (.connect .units),
    .task (.runUnits .ship) (.message (sighting 73 125)),
    .task (.runUnits .ship) (.message (sighting 72 200)), .client 0 .poll, .client 0 .poll,
    .client 0 .arrive, .client 0 .arrive, .client 0 (.own ())]

theorem page_shown_ship :
    ∃ (hub : Hub (rings _) (Page Nat Unit)) (client : Client (rings _) (Page Nat Unit)) (a m : _),
      exec (step some (radarPage wholeNumbers some)) (spawn (rings _) (Page Nat Unit))
        twoConnections = some hub ∧
      client ∈ hub.clients ∧
      client.page.snapshot.samples.lookup "73" = some (seen 73 125) ∧
      client.page.snapshot.samples.lookup "72" = some (seen 72 200) ∧
      Brought some twoConnections a ∧ some a = some m ∧
      writes? wholeNumbers m = some ("72", some (seen 72 200)) := by
  have hB := rings_lawful (RadarStreamMessage Nat Unit) telemetryBuffer (by decide)
  obtain ⟨hub, client, hrun, hclient, hother, hshown⟩ :
      ∃ (hub : Hub (rings _) (Page Nat Unit)) (client : Client (rings _) (Page Nat Unit)),
        exec (step some (radarPage wholeNumbers some)) (spawn (rings _) (Page Nat Unit))
          twoConnections = some hub ∧ client ∈ hub.clients ∧
        client.page.snapshot.samples.lookup "73" = some (seen 73 125) ∧
        client.page.snapshot.samples.lookup "72" = some (seen 72 200) :=
    ⟨_, _, rfl, List.mem_cons_self, rfl, rfl⟩
  obtain ⟨a, m, hsaid⟩ : ∃ a m, Brought some twoConnections a ∧ some a = some m ∧
      writes? wholeNumbers m = some ("72", some (seen 72 200)) :=
    page_shown hB (run_iff_exec.mpr hrun) hclient hshown
  exact ⟨hub, client, a, m, hrun, hclient, hother, hshown, hsaid⟩

end DcsDashboard.Airboss.DeckTracking

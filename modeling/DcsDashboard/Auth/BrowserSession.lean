/-
# The session of a browser

`api.ts`, `AuthGate.tsx` and the login page: the token of a session lies in the local storage, which
all tabs share.  `apiFetch` sends it along, and a response 401 takes it out again if it says that
the server refused the session, or if there was no token by then.  Between the request, its answer,
the look at the answer and the removal of the token anything can happen: the answers come in any
order, another tab signs in or out, the server goes on.

A session that the server accepts is ended by a logout, by another login, or by the refusal of a
request that was under way when the session was stored (`session_ended_by`), which does happen
(`session_ended_by_late`).  Where nothing is under way at the login the session lasts for its
lifetime, whatever is answered meanwhile (`session_kept`).
-/
import DcsDashboard.Auth.Sessions

namespace DcsDashboard.Auth.Browser

open Lib Sessions

/-! ## 1. Requests and replies -/

/-- The white space that is taken off the value of a header. -/
def isHttpSpace (c : Char) : Bool := c = '\t' || c = '\n' || c = '\r' || c = ' '

/-- What `Headers.set` makes of a value; `none` where it throws. -/
def headerValue (value : List Char) : Option (List Char) :=
  let value := (value.dropWhile isHttpSpace).rdropWhile isHttpSpace
  if value.any fun c => 255 < c.toNat || c.toNat = 0 || c = '\r' || c = '\n' then none
  else some value

/-- `getToken() || null`. -/
def truthy (stored : Option Token) : Option Token := stored.bind nonEmpty

/-- The headers that `apiFetch` sends, next to cookies that are not the program's. -/
def sentHeaders (cookie : Option (List Char)) (stored : Option Token) : Option Headers :=
  match truthy stored with
  | none => some ⟨none, cookie⟩
  | some token => (headerValue ("Bearer ".toList ++ token)).map fun value => ⟨some value, cookie⟩

/-- The status of a response and its `reason`, where the body can be read and has one. -/
structure Reply where
  status : Nat
  reason : Option String
  deriving DecidableEq

/-- The `reason` says that the session was refused. -/
def Reply.rejects (reply : Reply) : Bool :=
  reply.reason = some "token_invalid" || reply.reason = some "token_missing"

/-- `isSessionRejected`. -/
def isSessionRejected (stored : Option Token) (reply : Reply) : Bool :=
  if (truthy stored).isNone then true else reply.rejects

/-- What a route that takes an `AuthUser` replies. -/
def guardedReply (access : Except AuthError AuthUser) (handled : Reply) : Reply :=
  match access with
  | .ok _ => handled
  | .error e => ⟨e.intoResponse.1, some e.intoResponse.2.2⟩

/-- The reply does not come from `AuthUser`. -/
def Reply.Ordinary (reply : Reply) : Prop := reply.status = 401 → reply.rejects = false

/-! ## 2. `AuthGate` -/

/-- `SessionState`. -/
inductive SessionState
  | unknown
  | signedIn
  | signedOut
  deriving DecidableEq

/-- `getSnapshot`. -/
def getSnapshot (stored : Option Token) : SessionState :=
  if (truthy stored).isSome then .signedIn else .signedOut

/-- Whether the gate shows the page, and whether it redirects to the login page. -/
structure Gate where
  shown : Bool
  redirects : Bool
  deriving DecidableEq

def authGate (session : SessionState) (pathname : String) : Gate :=
  ⟨pathname = "/login" || session = .signedIn, session = .signedOut && pathname ≠ "/login"⟩

/-! ## 3. The browser and the server -/

/-- How far a request has come. -/
inductive Stage
  | sent
  | replied (reply : Reply)
  | checked (rejected : Bool)
  deriving DecidableEq

/-- A request under way; `overtaken` once a token was stored after it was sent. -/
structure Request where
  headers : Headers
  stage : Stage
  overtaken : Bool

structure State where
  server : World
  stored : Option Token
  inFlight : List Request

inductive Act
  /-- The clock, a login, a callback, or a request from elsewhere. -/
  | server (act : Sessions.Act)
  | send
  /-- A guarded route answers: what it is about to reply to whom it lets in. -/
  | answer (i : Nat) (handled : Reply)
  /-- Something else answers: another route, or a proxy. -/
  | pass (i : Nat) (reply : Reply)
  | check (i : Nat)
  | finish (i : Nat)
  /-- The request fails, or its page is left. -/
  | abort (i : Nat)
  /-- The login page stores a token: of a response, of the query or of the fragment. -/
  | signIn (token : Token)
  | logout

def State.update (w : State) (i : Nat) (r : Request) : State :=
  { w with inFlight := w.inFlight.set i r }

def State.remove (w : State) (i : Nat) : State := { w with inFlight := w.inFlight.eraseIdx i }

/-- `setToken`, by a page that has checked that there is a token. -/
def State.signIn (w : State) (token : Token) : State :=
  if token = [] then w
  else { w with
    stored := some token
    inFlight := w.inFlight.map fun r => { r with overtaken := true } }

/-- `clearToken`. -/
def State.clear (w : State) : State := { w with stored := none }

def State.serve (w : State) (server : World) : State := { w with server }

def step (jwt : Jwt) (config : Config) (cookie : Option (List Char)) (w : State) :
    Act → Option State
  | .server act => (Sessions.step jwt config w.server act).map w.serve
  | .send =>
    match sentHeaders cookie w.stored with
    | none => some w
    | some headers => some { w with inFlight := w.inFlight ++ [⟨headers, .sent, false⟩] }
  | .answer i handled =>
    match w.inFlight[i]? with
    | some ⟨headers, .sent, overtaken⟩ =>
      let reply := guardedReply (authUser jwt config w.server.now headers) handled
      (Sessions.step jwt config w.server (.request headers)).map
        (w.update i ⟨headers, .replied reply, overtaken⟩).serve
    | _ => none
  | .pass i reply =>
    match w.inFlight[i]? with
    | some ⟨headers, .sent, overtaken⟩ => some (w.update i ⟨headers, .replied reply, overtaken⟩)
    | _ => none
  | .check i =>
    match w.inFlight[i]? with
    | some ⟨headers, .replied reply, overtaken⟩ =>
      if reply.status = 401 then
        some (w.update i ⟨headers, .checked (isSessionRejected w.stored reply), overtaken⟩)
      else some (w.remove i)
    | _ => none
  | .finish i =>
    match w.inFlight[i]? with
    | some ⟨_, .checked rejected, _⟩ => some (if rejected then (w.remove i).clear else w.remove i)
    | _ => none
  | .abort i => some (w.remove i)
  | .signIn token => some (w.signIn token)
  | .logout => some w.clear

/-- Only `AuthUser` refuses sessions. -/
def Lawful (_ : State) : Act → Prop
  | .answer _ handled => handled.Ordinary
  | .pass _ reply => reply.Ordinary
  | _ => True

/-- Nobody signs in or out. -/
def Undisturbed : Act → Prop
  | .signIn _ => False
  | .logout => False
  | _ => True

def opened (now : Int) : State := ⟨started now, none, []⟩

variable {jwt : Jwt} {config : Config} {cookie : Option (List Char)} {now : Int}

/-- What a step can do. -/
inductive Effect (jwt : Jwt) (config : Config) (cookie : Option (List Char)) (w : State) :
    Act → State → Prop
  | served {act : Sessions.Act} {server : World}
      (hserver : Sessions.step jwt config w.server act = some server) :
      Effect jwt config cookie w (.server act) (w.serve server)
  | unsent : Effect jwt config cookie w .send w
  | sent {headers : Headers} (hheaders : sentHeaders cookie w.stored = some headers) :
      Effect jwt config cookie w .send
        { w with inFlight := w.inFlight ++ [⟨headers, .sent, false⟩] }
  | answered {i : Nat} {handled : Reply} {headers : Headers} {overtaken : Bool} {server : World}
      (hi : w.inFlight[i]? = some ⟨headers, .sent, overtaken⟩)
      (hserver : Sessions.step jwt config w.server (.request headers) = some server) :
      Effect jwt config cookie w (.answer i handled)
        ((w.update i ⟨headers,
          .replied (guardedReply (authUser jwt config w.server.now headers) handled),
          overtaken⟩).serve server)
  | passed {i : Nat} {reply : Reply} {headers : Headers} {overtaken : Bool}
      (hi : w.inFlight[i]? = some ⟨headers, .sent, overtaken⟩) :
      Effect jwt config cookie w (.pass i reply) (w.update i ⟨headers, .replied reply, overtaken⟩)
  | checked {i : Nat} {reply : Reply} {headers : Headers} {overtaken : Bool}
      (hi : w.inFlight[i]? = some ⟨headers, .replied reply, overtaken⟩)
      (hstatus : reply.status = 401) :
      Effect jwt config cookie w (.check i)
        (w.update i ⟨headers, .checked (isSessionRejected w.stored reply), overtaken⟩)
  | settled {i : Nat} : Effect jwt config cookie w (.check i) (w.remove i)
  | refused {i : Nat} {headers : Headers} {overtaken : Bool}
      (hi : w.inFlight[i]? = some ⟨headers, .checked true, overtaken⟩) :
      Effect jwt config cookie w (.finish i) (w.remove i).clear
  | excused {i : Nat} : Effect jwt config cookie w (.finish i) (w.remove i)
  | aborted {i : Nat} : Effect jwt config cookie w (.abort i) (w.remove i)
  | signedIn {token : Token} : Effect jwt config cookie w (.signIn token) (w.signIn token)
  | loggedOut : Effect jwt config cookie w .logout w.clear

theorem step_effect {w w' : State} {act : Act} (h : step jwt config cookie w act = some w') :
    Effect jwt config cookie w act w' := by
  cases act with
  | server act =>
    rw [step, Option.map_eq_some_iff] at h
    obtain ⟨server, hserver, rfl⟩ := h
    exact .served hserver
  | send =>
    simp only [step] at h
    split at h <;> cases h
    · exact .unsent
    · rename_i hheaders
      exact .sent hheaders
  | answer i handled =>
    simp only [step] at h
    split at h
    · rename_i hi
      obtain ⟨server, hserver, rfl⟩ := Option.map_eq_some_iff.mp h
      exact .answered hi hserver
    · cases h
  | pass i reply =>
    simp only [step] at h
    split at h <;> cases h
    rename_i hi
    exact .passed hi
  | check i =>
    simp only [step] at h
    split at h
    · rename_i hi
      split at h <;> cases h
      · rename_i hstatus
        exact .checked hi hstatus
      · exact .settled
    · cases h
  | finish i =>
    simp only [step] at h
    split at h <;> cases h
    rename_i rejected overtaken hi
    cases rejected with
    | true => exact .refused hi
    | false => exact .excused
  | abort i =>
    cases h
    exact .aborted
  | signIn token =>
    cases h
    exact .signedIn
  | logout =>
    cases h
    exact .loggedOut

/-! ## 4. Refusals -/

def Refused (jwt : Jwt) (config : Config) (now : Int) (headers : Headers) : Prop :=
  ∃ e, authUser jwt config now headers = .error e

theorem not_refused {headers : Headers} {user : AuthUser}
    (h : authUser jwt config now headers = .ok user) : ¬ Refused jwt config now headers := by
  rintro ⟨e, he⟩
  rw [h] at he
  cases he

/-- Who is let in could have come earlier. -/
theorem authUser_earlier {t t' : Int} (hle : t ≤ t') {headers : Headers} {user : AuthUser}
    (h : authUser jwt config t' headers = .ok user) : authUser jwt config t headers = .ok user := by
  obtain ⟨token, hrequest, hcase⟩ := authUser_eq_ok.mp h
  refine authUser_eq_ok.mpr ⟨token, hrequest, hcase.imp_right ?_⟩
  rintro ⟨hkey, claims, hverify, huser⟩
  obtain ⟨hdecode, hfresh⟩ := verifyToken_eq_some.mp hverify
  exact ⟨hkey, claims, verifyToken_eq_some.mpr ⟨hdecode, by omega⟩, huser⟩

/-- A refusal stands. -/
theorem Refused.later {t t' : Int} (hle : t ≤ t') {headers : Headers}
    (h : Refused jwt config t headers) : Refused jwt config t' headers := by
  cases hlater : authUser jwt config t' headers with
  | error e => exact ⟨e, hlater⟩
  | ok user => exact absurd h (not_refused (authUser_earlier hle hlater))

/-! ## 5. What holds of a request under way -/

/-- Unless it was overtaken it has sent the token that is stored now, and its refusal is one. -/
structure Fair (jwt : Jwt) (config : Config) (cookie : Option (List Char)) (now : Int)
    (stored : Option Token) (r : Request) : Prop where
  current : r.overtaken = false → stored = none ∨ sentHeaders cookie stored = some r.headers
  replied : ∀ reply, r.stage = .replied reply → reply.status = 401 → reply.rejects = true →
    Refused jwt config now r.headers
  checked : r.stage = .checked true → r.overtaken = false →
    stored = none ∨ Refused jwt config now r.headers

theorem Fair.later {stored : Option Token} {r : Request} {t t' : Int} (hle : t ≤ t')
    (h : Fair jwt config cookie t stored r) : Fair jwt config cookie t' stored r where
  current := h.current
  replied reply hstage hstatus hrejects := (h.replied reply hstage hstatus hrejects).later hle
  checked hstage hcurrent := (h.checked hstage hcurrent).imp_right (·.later hle)

theorem Fair.cleared {stored : Option Token} {r : Request}
    (h : Fair jwt config cookie now stored r) : Fair jwt config cookie now none r where
  current _ := .inl rfl
  replied := h.replied
  checked _ _ := .inl rfl

theorem Fair.overtake {stored stored' : Option Token} {r : Request}
    (h : Fair jwt config cookie now stored r) :
    Fair jwt config cookie now stored' { r with overtaken := true } where
  current h := nomatch h
  replied := h.replied
  checked _ h := nomatch h

theorem Fair.sent {stored : Option Token} {headers : Headers}
    (h : sentHeaders cookie stored = some headers) :
    Fair jwt config cookie now stored ⟨headers, .sent, false⟩ where
  current _ := .inr h
  replied _ h := nomatch h
  checked h := nomatch h

/-- A reply arrives. -/
theorem Fair.reply {stored : Option Token} {headers : Headers} {stage : Stage} {overtaken : Bool}
    (h : Fair jwt config cookie now stored ⟨headers, stage, overtaken⟩) {reply : Reply}
    (hreply : reply.status = 401 → reply.rejects = true → Refused jwt config now headers) :
    Fair jwt config cookie now stored ⟨headers, .replied reply, overtaken⟩ where
  current := h.current
  replied := by
    rintro _ ⟨⟩
    exact hreply
  checked h := nomatch h

/-- A reply is looked at. -/
theorem Fair.check {stored : Option Token} (hne : stored ≠ some []) {headers : Headers}
    {reply : Reply} {overtaken : Bool}
    (h : Fair jwt config cookie now stored ⟨headers, .replied reply, overtaken⟩)
    (hstatus : reply.status = 401) :
    Fair jwt config cookie now stored
      ⟨headers, .checked (isSessionRejected stored reply), overtaken⟩ where
  current := h.current
  replied _ h := nomatch h
  checked := by
    intro hstage _
    have hrejected : isSessionRejected stored reply = true := Stage.checked.inj hstage
    rw [isSessionRejected] at hrejected
    split at hrejected
    · rename_i hmissing
      cases stored with
      | none => exact .inl rfl
      | some token =>
        have htoken : token ≠ [] := fun h => hne (congrArg some h)
        simp [truthy, nonEmpty, htoken] at hmissing
    · exact .inr (h.replied reply rfl hstatus hrejected)

theorem guardedReply_refused {headers : Headers} {handled : Reply} (hordinary : handled.Ordinary)
    (hstatus : (guardedReply (authUser jwt config now headers) handled).status = 401)
    (hrejects : (guardedReply (authUser jwt config now headers) handled).rejects = true) :
    Refused jwt config now headers := by
  cases haccess : authUser jwt config now headers with
  | error e => exact ⟨e, haccess⟩
  | ok user =>
    simp only [haccess, guardedReply] at hstatus hrejects
    simp [hordinary hstatus] at hrejects

/-! ## 6. Runs -/

structure Sound (jwt : Jwt) (config : Config) (cookie : Option (List Char)) (w : State) : Prop where
  stored_ne : w.stored ≠ some []
  fair : ∀ r ∈ w.inFlight, Fair jwt config cookie w.server.now w.stored r

theorem Sound.update {w : State} (h : Sound jwt config cookie w) {i : Nat} {r : Request}
    (hr : Fair jwt config cookie w.server.now w.stored r) :
    Sound jwt config cookie (w.update i r) where
  stored_ne := h.stored_ne
  fair := by
    intro r' hmem
    rcases List.mem_or_eq_of_mem_set hmem with hmem | rfl
    · exact h.fair r' hmem
    · exact hr

theorem Sound.remove {w : State} (h : Sound jwt config cookie w) (i : Nat) :
    Sound jwt config cookie (w.remove i) where
  stored_ne := h.stored_ne
  fair r hmem := h.fair r (List.mem_of_mem_eraseIdx hmem)

theorem Sound.clear {w : State} (h : Sound jwt config cookie w) :
    Sound jwt config cookie w.clear where
  stored_ne := by simp [State.clear]
  fair r hmem := (h.fair r hmem).cleared

theorem Sound.serve {w : State} (h : Sound jwt config cookie w) {server : World}
    (hle : w.server.now ≤ server.now) : Sound jwt config cookie (w.serve server) where
  stored_ne := h.stored_ne
  fair r hmem := (h.fair r hmem).later hle

theorem Sound.signIn {w : State} (h : Sound jwt config cookie w) (token : Token) :
    Sound jwt config cookie (w.signIn token) := by
  rw [State.signIn]
  split
  · exact h
  · rename_i htoken
    refine ⟨by simpa using htoken, ?_⟩
    intro r hmem
    obtain ⟨r', hmem', rfl⟩ := List.mem_map.mp hmem
    exact (h.fair r' hmem').overtake

/-- **Each step keeps what holds.** -/
theorem Sound.step {w w' : State} {act : Act} (h : Sound jwt config cookie w)
    (hlawful : Lawful w act) (hstep : Browser.step jwt config cookie w act = some w') :
    Sound jwt config cookie w' := by
  cases step_effect hstep with
  | served hserver => exact h.serve (now_le_step hserver)
  | unsent => exact h
  | sent hheaders =>
    refine ⟨h.stored_ne, ?_⟩
    intro r hmem
    rcases List.mem_append.mp hmem with hmem | hmem
    · exact h.fair r hmem
    · obtain rfl := List.mem_singleton.mp hmem
      exact .sent hheaders
  | answered hi hserver =>
    have hr := h.fair _ (List.mem_of_getElem? hi)
    exact (h.update (hr.reply (guardedReply_refused hlawful))).serve (now_le_step hserver)
  | passed hi =>
    refine h.update ((h.fair _ (List.mem_of_getElem? hi)).reply fun hstatus hrejects => ?_)
    simp [hlawful hstatus] at hrejects
  | checked hi hstatus =>
    exact h.update ((h.fair _ (List.mem_of_getElem? hi)).check h.stored_ne hstatus)
  | settled | excused | aborted => exact h.remove _
  | refused hi => exact (h.remove _).clear
  | signedIn => exact h.signIn _
  | loggedOut => exact h.clear

theorem opened_sound (now : Int) : Sound jwt config cookie (opened now) :=
  ⟨by simp [opened], by simp [opened]⟩

/-- The server lets in a request that is sent now. -/
def Accepted (jwt : Jwt) (config : Config) (cookie : Option (List Char)) (w : State) : Prop :=
  ∃ headers user, sentHeaders cookie w.stored = some headers ∧
    authUser jwt config w.server.now headers = .ok user

/-- What can end a session that is accepted. -/
def Ends (w : State) : Act → Prop
  | .logout => True
  | .signIn _ => True
  | .finish i => ∃ r, w.inFlight[i]? = some r ∧ r.overtaken = true
  | _ => False

theorem Sound.ends {w w' : State} (h : Sound jwt config cookie w) {token : Token}
    (hstored : w.stored = some token) (haccepted : Accepted jwt config cookie w) {act : Act}
    (hstep : Browser.step jwt config cookie w act = some w') (hended : w'.stored ≠ some token) :
    Ends w act := by
  cases step_effect hstep with
  | refused hi =>
    refine ⟨_, hi, ?_⟩
    by_contra hcurrent
    have hnever := Bool.eq_false_iff.mpr hcurrent
    have hfair := h.fair _ (List.mem_of_getElem? hi)
    -- the request has sent the token that is stored, so that its refusal is one of the session
    obtain ⟨sent, user, hsent, haccess⟩ := haccepted
    have hheaders := (hfair.current hnever).resolve_left (by simp [hstored])
    obtain rfl := Option.some.inj (hsent.symm.trans hheaders)
    exact not_refused haccess ((hfair.checked rfl hnever).resolve_left (by simp [hstored]))
  | signedIn | loggedOut => exact trivial
  | _ => exact absurd hstored hended

/-- **What ends a session.**  Whatever has happened before, a step that takes a token out of the
store which the server still accepts is a logout, another login, or the end of a request during
which a token was stored. -/
theorem session_ended_by {acts : List Act} {w w' : State} {act : Act} {token : Token}
    (h : Run (step jwt config cookie) Lawful (opened now) acts w)
    (hstored : w.stored = some token) (haccepted : Accepted jwt config cookie w)
    (hstep : step jwt config cookie w act = some w') (hended : w'.stored ≠ some token) :
    Ends w act := by
  have hsound : Sound jwt config cookie w := h.invariant (opened_sound now)
    fun _ _ _ hsound hlawful hstep => hsound.step hlawful hstep
  exact hsound.ends hstored haccepted hstep hended

/-- An old token is refused while a new one is stored. -/
def staleRequest : List Act :=
  [.server (.login "hunter2".toList), .signIn "stale".toList, .send, .answer 0 ⟨200, none⟩,
    .signIn (plainToken adminSession), .check 0]

theorem session_ended_by_late :
    ∃ w w', Run (step plainJwt clubConfig none) Lawful (opened 100) staleRequest w ∧
      Accepted plainJwt clubConfig none w ∧
      step plainJwt clubConfig none w (.finish 0) = some w' ∧ w'.stored = none ∧
      ∃ r, w.inFlight[0]? = some r ∧ r.overtaken = true := by
  obtain ⟨w, hrun, hstored, haccepted, w', hstep, hcleared⟩ : ∃ w,
      Run (step plainJwt clubConfig none) Lawful (opened 100) staleRequest w ∧
        w.stored = some (plainToken adminSession) ∧ Accepted plainJwt clubConfig none w ∧
        ∃ w', step plainJwt clubConfig none w (.finish 0) = some w' ∧ w'.stored = none := by
    refine ⟨_, .cons trivial rfl (.cons trivial rfl (.cons trivial rfl (.cons ?_ rfl
      (.cons trivial rfl (.cons trivial rfl (.nil _)))))), rfl, ⟨_, _, rfl, rfl⟩, _, rfl, rfl⟩
    simp [Lawful, Reply.Ordinary]
  have hended : w'.stored ≠ some (plainToken adminSession) := by simp [hcleared]
  exact ⟨w, w', hrun, haccepted, hstep, hcleared,
    session_ended_by hrun hstored haccepted hstep hended⟩

/-! ## 7. A quiet login -/

/-- The end of a session. -/
def sessionEnd (t₀ : Int) : Int := t₀ + sessionTtlSeconds + leeway

theorem headerValue_visible {value : List Char}
    (hends : ∀ c, value.head? = some c ∨ value.getLast? = some c → isHttpSpace c = false)
    (h : ∀ c ∈ value, 32 ≤ c.toNat ∧ c.toNat < 127) : headerValue value = some value := by
  have hfirst : value.dropWhile isHttpSpace = value := by
    cases value with
    | nil => rfl
    | cons c rest => rw [List.dropWhile_cons_of_neg]; simp [hends c (.inl rfl)]
  have hlast : value.rdropWhile isHttpSpace = value := by
    refine List.rdropWhile_eq_self_iff.mpr ?_
    intro hne
    simp [hends _ (.inr (List.getLast?_eq_some_getLast hne))]
  rw [headerValue, hfirst, hlast]
  refine if_neg ?_
  intro hany
  obtain ⟨c, hc, hbad⟩ := List.any_eq_true.mp hany
  have hrange := h c hc
  have hcr : c ≠ '\r' := by rintro rfl; simp at hrange
  have hlf : c ≠ '\n' := by rintro rfl; simp at hrange
  simp only [Bool.or_eq_true, decide_eq_true_eq, hcr, hlf, or_false] at hbad
  omega

theorem headerValue_bearer {token : Token} (htoken : token ≠ [])
    (hvisible : ∀ c ∈ token, 33 ≤ c.toNat ∧ c.toNat < 127 ∧ c ≠ ';') :
    headerValue ("Bearer ".toList ++ token) = some ("Bearer ".toList ++ token) := by
  have hchars : ∀ c ∈ "Bearer ".toList, 32 ≤ c.toNat ∧ c.toNat < 127 := by simp
  refine headerValue_visible ?_ ?_
  · intro c hc
    rcases hc with hc | hc
    · obtain rfl : 'B' = c := Option.some.inj hc
      rfl
    · rw [List.getLast?_append_of_ne_nil _ htoken] at hc
      have hrange := (hvisible c (List.mem_of_getLast? hc)).1
      refine Bool.eq_false_iff.mpr ?_
      intro hspace
      simp only [isHttpSpace, Bool.or_eq_true, decide_eq_true_eq] at hspace
      obtain ((rfl | rfl) | rfl) | rfl := hspace <;> simp at hrange
  · intro c hc
    rcases List.mem_append.mp hc with hc | hc
    · exact hchars c hc
    · have hc := hvisible c hc
      omega

/-- A token of the server is sent as it is, and is let in during the lifetime of its session. -/
theorem accepted_signed (hjwt : jwt.Faithful) {token : Token} {claims : Claims}
    (hencode : jwt.encode claims = some token) {t₀ : Int}
    (hexp : claims.exp = t₀ + sessionTtlSeconds) {w : State} (hstored : w.stored = some token)
    (hnow : w.server.now ≤ sessionEnd t₀) : Accepted jwt config cookie w := by
  obtain ⟨htoken, hvisible⟩ := hjwt.compact claims token hencode
  have htruthy : truthy w.stored = some token := by simp [hstored, truthy, nonEmpty, htoken]
  have hheaders : sentHeaders cookie w.stored =
      some ⟨some ("Bearer ".toList ++ token), cookie⟩ := by
    rw [sentHeaders, htruthy]
    simp only [headerValue_bearer htoken hvisible, Option.map_some]
  have hrequest : requestToken ⟨some ("Bearer ".toList ++ token), cookie⟩ = some token :=
    requestToken_signed hjwt hencode (.inl rfl)
  have hverify := verifyToken_signed hjwt hencode hexp w.server.now
  rw [if_pos (by simpa [sessionEnd] using hnow)] at hverify
  by_cases hkey : config.mobileApiKey = some token
  · exact ⟨_, _, hheaders, authUser_eq_ok.mpr ⟨token, hrequest, .inl ⟨hkey, rfl⟩⟩⟩
  · exact ⟨_, _, hheaders, authUser_eq_ok.mpr ⟨token, hrequest, .inr ⟨hkey, claims, hverify, rfl⟩⟩⟩

theorem serverSigned_step {w w' : State} {act : Act} (h : Signed jwt w.server)
    (hstep : step jwt config cookie w act = some w') : Signed jwt w'.server := by
  cases step_effect hstep with
  | served hserver | answered _ hserver => exact signed_step h hserver
  | signedIn =>
    rw [State.signIn]
    split <;> exact h
  | _ => exact h

/-- No token was stored while a request was under way. -/
def NoneOvertaken (w : State) : Prop := ∀ r ∈ w.inFlight, r.overtaken = false

theorem NoneOvertaken.update {w : State} (h : NoneOvertaken w) {i : Nat} {headers : Headers}
    {stage stage' : Stage} {overtaken : Bool}
    (hi : w.inFlight[i]? = some ⟨headers, stage, overtaken⟩) :
    NoneOvertaken (w.update i ⟨headers, stage', overtaken⟩) := by
  intro r hmem
  rcases List.mem_or_eq_of_mem_set hmem with hmem | rfl
  · exact h r hmem
  · exact h ⟨headers, stage, overtaken⟩ (List.mem_of_getElem? hi)

theorem NoneOvertaken.remove {w : State} (h : NoneOvertaken w) (i : Nat) :
    NoneOvertaken (w.remove i) :=
  fun r hmem => h r (List.mem_of_mem_eraseIdx hmem)

theorem NoneOvertaken.step {w w' : State} {act : Act} (h : NoneOvertaken w)
    (hquiet : Undisturbed act) (hstep : Browser.step jwt config cookie w act = some w') :
    NoneOvertaken w' := by
  cases step_effect hstep with
  | served | unsent => exact h
  | sent hheaders =>
    intro r hmem
    rcases List.mem_append.mp hmem with hmem | hmem
    · exact h r hmem
    · obtain rfl := List.mem_singleton.mp hmem
      rfl
  | answered hi | passed hi | checked hi => exact h.update hi
  | settled | refused | excused | aborted => exact h.remove _
  | signedIn | loggedOut => exact hquiet.elim

/-- What holds after a quiet login: while the session lasts its token is stored. -/
structure Kept (jwt : Jwt) (config : Config) (cookie : Option (List Char)) (token : Token)
    (t₀ : Int) (w : State) : Prop where
  sound : Sound jwt config cookie w
  calm : NoneOvertaken w
  stored : w.server.now ≤ sessionEnd t₀ → w.stored = some token

theorem now_le {w w' : State} {act : Act} (h : step jwt config cookie w act = some w') :
    w.server.now ≤ w'.server.now := by
  cases step_effect h with
  | served hserver | answered _ hserver => exact now_le_step hserver
  | signedIn =>
    rw [State.signIn]
    split <;> exact Int.le_refl _
  | _ => exact Int.le_refl _

theorem Kept.step (hjwt : jwt.Faithful) {token : Token} {claims : Claims}
    (hencode : jwt.encode claims = some token) {t₀ : Int}
    (hexp : claims.exp = t₀ + sessionTtlSeconds) {w w' : State} {act : Act}
    (h : Kept jwt config cookie token t₀ w) (hlawful : Lawful w act) (hquiet : Undisturbed act)
    (hstep : Browser.step jwt config cookie w act = some w') :
    Kept jwt config cookie token t₀ w' where
  sound := h.sound.step hlawful hstep
  calm := h.calm.step hquiet hstep
  stored := by
    intro hnow
    have hbefore : w.server.now ≤ sessionEnd t₀ := Int.le_trans (now_le hstep) hnow
    have hstored := h.stored hbefore
    by_contra hended
    have hends := h.sound.ends hstored (accepted_signed hjwt hencode hexp hstored hbefore)
      hstep hended
    cases act with
    | finish i =>
      obtain ⟨r, hr, hovertaken⟩ := hends
      simp [h.calm r (List.mem_of_getElem? hr)] at hovertaken
    | signIn | logout => exact hquiet
    | _ => exact hends

/-- **A session is kept.**  Where no request is under way when a session is stored, its token stays
in the store and is let in for as long as the session lasts, and the pages stay shown: whatever
else the routes and the proxies answer, in whatever order. -/
theorem session_kept (hjwt : jwt.Faithful) {acts later : List Act} {w w' : State}
    (h : Run (step jwt config cookie) Lawful (opened now) acts w) (hquiet : w.inFlight = [])
    {t₀ : Int} {token : Token} {claims : Claims}
    (hissued : (t₀, .signedIn token claims) ∈ w.server.events)
    (hlater : Run (step jwt config cookie) (fun w act => Lawful w act ∧ Undisturbed act)
      (w.signIn token) later w')
    (hlifetime : w'.server.now ≤ sessionEnd t₀) :
    w'.stored = some token ∧ Accepted jwt config cookie w' ∧
      ∀ pathname, authGate (getSnapshot w'.stored) pathname = ⟨true, false⟩ := by
  have hsigned : Signed jwt w.server := h.invariant (I := fun w => Signed jwt w.server)
    (by simp [Signed, opened, started]) fun _ _ _ hsigned _ hstep => serverSigned_step hsigned hstep
  obtain ⟨hencode, hexp⟩ := hsigned t₀ token claims hissued
  have hsound : Sound jwt config cookie w := h.invariant (opened_sound now)
    fun _ _ _ hsound hlawful hstep => hsound.step hlawful hstep
  have htoken := (hjwt.compact claims token hencode).1
  have hstart : Kept jwt config cookie token t₀ (w.signIn token) := by
    refine ⟨hsound.signIn token, ?_, ?_⟩
    · simp [State.signIn, htoken, NoneOvertaken, hquiet]
    · intro _
      simp [State.signIn, htoken]
  have hkept := hlater.invariant hstart
    fun _ _ _ hkept hcond hstep => hkept.step hjwt hencode hexp hcond.1 hcond.2 hstep
  have hstored := hkept.stored hlifetime
  refine ⟨hstored, accepted_signed hjwt hencode hexp hstored hlifetime, ?_⟩
  intro pathname
  simp [authGate, getSnapshot, hstored, truthy, nonEmpty, htoken]

/-- Two requests, answered by a proxy and by the server in the other order. -/
def proxied : List Act :=
  [.send, .send, .server (.wait 3600), .pass 1 ⟨401, none⟩, .check 1, .answer 0 ⟨200, none⟩,
    .finish 1, .check 0]

theorem session_kept_proxied :
    ∃ w w', Run (step plainJwt clubConfig none) Lawful (opened 100)
        [.server (.login "hunter2".toList)] w ∧
      Run (step plainJwt clubConfig none) (fun w act => Lawful w act ∧ Undisturbed act)
        (w.signIn (plainToken adminSession)) proxied w' ∧
      w'.stored = some (plainToken adminSession) ∧
        authGate (getSnapshot w'.stored) "/players" = ⟨true, false⟩ := by
  have hlogin : Run (step plainJwt clubConfig none) Lawful (opened 100)
      [.server (.login "hunter2".toList)]
      ⟨⟨100, [(100, .signedIn (plainToken adminSession) adminSession)]⟩, none, []⟩ :=
    .single trivial rfl
  obtain ⟨w', hlater, hnow⟩ : ∃ w', Run (step plainJwt clubConfig none)
      (fun w act => Lawful w act ∧ Undisturbed act)
      (State.signIn ⟨⟨100, [(100, .signedIn (plainToken adminSession) adminSession)]⟩, none, []⟩
        (plainToken adminSession)) proxied w' ∧
      w'.server.now = 3700 := by
    refine ⟨_, .cons ⟨trivial, trivial⟩ rfl (.cons ⟨trivial, trivial⟩ rfl
      (.cons ⟨trivial, trivial⟩ rfl (.cons ⟨?_, trivial⟩ rfl (.cons ⟨trivial, trivial⟩ rfl
      (.cons ⟨?_, trivial⟩ rfl (.cons ⟨trivial, trivial⟩ rfl
      (.cons ⟨trivial, trivial⟩ rfl (.nil _)))))))), rfl⟩
    · simp [Lawful, Reply.Ordinary, Reply.rejects]
    · simp [Lawful, Reply.Ordinary]
  obtain ⟨hstored, -, hgate⟩ := session_kept plainJwt_faithful hlogin rfl (List.mem_singleton.mpr rfl)
    hlater (by rw [hnow]; decide)
  exact ⟨_, w', hlogin, hlater, hstored, hgate "/players"⟩

end DcsDashboard.Auth.Browser

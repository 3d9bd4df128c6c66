/-
# Sessions

`auth.rs` and `routes/auth.rs`: a login with the admin password or through Discord issues a signed
token, and the `AuthUser` extractor lets a request in that carries one, in its `Authorization`
header or else in a cookie; the static key of the mobile app is let in too.  Nothing is kept on the
server, so that logging out changes nothing there.

The library that signs the tokens is a parameter (`Jwt`).  A run has requests, logins and
callbacks from Discord in any order while the clock goes on.  In a run in which no token verifies
that the server has not issued, whoever is let in has the mobile key, or a token that came from a
login of the run (`SignedInBy`), no longer ago than a session lasts: with the password, or by a
user who had an admin role in one of the guilds, of which the audit log was told
(`access_traced`).  Conversely a token opens every request of its lifetime (`session_accepted`).

The audit log may refuse an entry, as `record_audit` goes on when a write fails.
-/
import DcsDashboard.Lib.JoinedText
import DcsDashboard.Lib.TextLines
import DcsDashboard.Lib.Runs
import DcsDashboard.Lib.Traces
import Mathlib.Order.Basic

namespace DcsDashboard.Auth.Sessions

open Lib

/-! ## 1. Tokens -/

/-- `Claims`. -/
structure Claims where
  sub : List Char
  kind : List Char
  iat : Int
  exp : Int
  deriving DecidableEq

abbrev Token := List Char

/-- How long after its end a token still verifies: the leeway of `Validation::new`. -/
def leeway : Int := 60

/-- The library, with the server's secret: signing, and reading a token at a given time. -/
structure Jwt where
  encode : Claims → Option Token
  /-- The claims of a token whose signature is valid. -/
  signed : Token → Option Claims
  decode : Int → Token → Option Claims
  /-- `Validation::new` looks at the signature and at `exp`, with its leeway. -/
  decode_eq_some : ∀ now token claims, decode now token = some claims ↔
    signed token = some claims ∧ now ≤ claims.exp + leeway

/-- `SESSION_TTL_SECONDS`. -/
def sessionTtlSeconds : Int := 60 * 60 * 24 * 7

/-- `issue_token`, at a given time. -/
def issueToken (jwt : Jwt) (now : Int) (subject kind : List Char) (ttlSecs : Int) :
    Option (Token × Claims) :=
  let claims : Claims := ⟨subject, kind, now, now + ttlSecs⟩
  (jwt.encode claims).map fun token => (token, claims)

/-- `verify_token`, at a given time. -/
def verifyToken (jwt : Jwt) (now : Int) (token : Token) : Option Claims :=
  jwt.decode now token

/-! ## 2. `AuthUser` -/

/-- `AuthError`. -/
inductive AuthError
  | missing
  | invalid
  | badCredentials
  | notConfigured
  | internal
  deriving DecidableEq, Repr

/-- The status, the `error` and the `reason` of the response. -/
def AuthError.intoResponse : AuthError → Nat × String × String
  | .missing => (401, "Unauthorized", "token_missing")
  | .invalid => (401, "Unauthorized", "token_invalid")
  | .badCredentials => (401, "Invalid password", "bad_credentials")
  | .notConfigured => (503, "Not configured", "not_configured")
  | .internal => (500, "Internal error", "internal")

/-- `AuthUser`. -/
structure AuthUser where
  subject : List Char
  kind : List Char
  deriving DecidableEq

/-- `Some(text)` unless the text is empty. -/
def nonEmpty (s : List Char) : Option (List Char) := if s = [] then none else some s

/-- `str::strip_prefix`. -/
def afterPrefix (start s : List Char) : Option (List Char) :=
  if start <+: s then some (s.drop start.length) else none

/-- `HeaderValue::to_str`: only visible ASCII is text. -/
def headerText (value : List Char) : Option (List Char) :=
  if value.all fun c => (32 ≤ c.toNat && c.toNat < 127) || c = '\t' then some value else none

/-- The token of an `Authorization` header. -/
def bearerToken (value : List Char) : Option Token :=
  ((headerText value).bind (afterPrefix "Bearer ".toList)).bind fun token => nonEmpty (trim token)

/-- The token of a `Cookie` header. -/
def cookieToken (value : List Char) : Option Token :=
  (headerText value).bind fun text =>
    (text.splitOn ';').findSome? fun cookie =>
      (afterPrefix "auth_token=".toList (trim cookie)).bind nonEmpty

/-- The first headers of a request that carry a token. -/
structure Headers where
  authorization : Option (List Char)
  cookie : Option (List Char)
  deriving DecidableEq

/-- The token of a request. -/
def requestToken (headers : Headers) : Option Token :=
  (headers.authorization.bind bearerToken).or (headers.cookie.bind cookieToken)

/-- `constant_time_eq`. -/
def constantTimeEq (a b : List UInt8) : Bool :=
  if a.length ≠ b.length then false
  else (a.zip b).foldl (fun diff (x, y) => diff ||| (x ^^^ y)) (0 : UInt8) = 0

/-- `as_bytes`, of text that is compared with a secret. -/
def asBytes (s : List Char) : List UInt8 := s.flatMap String.utf8EncodeChar

/-- The Discord settings that decide about a login. -/
structure DiscordConfig where
  guildIds : List (List Char)
  adminRoleIds : List (List Char)

structure Config where
  adminPassword : Option (List Char)
  mobileApiKey : Option (List Char)
  discord : Option DiscordConfig

/-- `AuthUser::from_request_parts`. -/
def authUser (jwt : Jwt) (config : Config) (now : Int) (headers : Headers) :
    Except AuthError AuthUser :=
  match requestToken headers with
  | none => .error .missing
  | some token =>
    if config.mobileApiKey.any fun key => constantTimeEq (asBytes token) (asBytes key) then
      .ok ⟨"mobile".toList, "mobile".toList⟩
    else
      match verifyToken jwt now token with
      | some claims => .ok ⟨claims.sub, claims.kind⟩
      | none => .error .invalid

/-! ## 3. Logins -/

/-- `login`. -/
def login (jwt : Jwt) (config : Config) (now : Int) (password : List Char) :
    Except AuthError (Token × Claims) :=
  match config.adminPassword with
  | none => .error .notConfigured
  | some expected =>
    if !constantTimeEq (asBytes password) (asBytes expected) then .error .badCredentials
    else
      match issueToken jwt now "admin".toList "password".toList sessionTtlSeconds with
      | some session => .ok session
      | none => .error .internal

/-- `DiscordUser`. -/
structure DiscordUser where
  id : List Char
  username : Option (List Char)

/-- What Discord answers when it is asked for a membership. -/
inductive MemberReply
  | failed
  | refused
  | unreadable
  | member (roles : List (List Char))

/-- What Discord answers during a callback; `none` where a request fails or cannot be read. -/
structure DiscordReplies where
  accessToken : Option (List Char)
  user : Option DiscordUser
  member : List Char → MemberReply

/-- An entry of the audit log, without its time. -/
structure AuditEntry where
  username : List Char
  userId : List Char
  status : String
  reason : Option String
  deriving DecidableEq

def hasAdminRole (discord : DiscordConfig) (roles : List (List Char)) : Bool :=
  roles.any fun role => discord.adminRoleIds.any fun allowed => allowed = role

/-- The loop over the guilds: whether the user is in one of them, and is authorized. -/
def memberships (discord : DiscordConfig) (member : List Char → MemberReply) :
    List (List Char) → Bool → Except String (Bool × Bool)
  | [], isMember => .ok (isMember, false)
  | guild :: guilds, isMember =>
    match member guild with
    | .failed => .error "Authentication Failed"
    | .refused => memberships discord member guilds isMember
    | .unreadable => .error "Authentication Failed"
    | .member roles =>
      if hasAdminRole discord roles then .ok (true, true) else memberships discord member guilds true

/-- What a callback comes to: what is audited, and the session or the message for the user. -/
structure Callback where
  audited : Option AuditEntry
  result : Except String (Token × Claims)

/-- The role check and what follows from it. -/
def decideCallback (jwt : Jwt) (now : Int) (user : DiscordUser) (isMember authorized : Bool) :
    Callback :=
  let username := user.username.getD "Unknown User".toList
  if !isMember then
    ⟨some ⟨username, user.id, "REJECTED", some "Not a member of the required Discord server(s)"⟩,
      .error "You are not a member of the required server"⟩
  else if !authorized then
    ⟨some ⟨username, user.id, "REJECTED", some "Missing Admin Role"⟩,
      .error "Unauthorized: Missing Admin Role"⟩
  else
    ⟨some ⟨username, user.id, "SUCCESS", none⟩,
      match issueToken jwt now ("discord_".toList ++ user.id) "discord".toList sessionTtlSeconds with
      | some session => .ok session
      | none => .error "Authentication Failed"⟩

/-- `exchange_and_verify`. -/
def exchangeAndVerify (jwt : Jwt) (config : Config) (now : Int) (code : Option (List Char))
    (replies : DiscordReplies) : Callback :=
  match config.discord with
  | none => ⟨none, .error "Server Configuration Missing"⟩
  | some discord =>
    match code.bind nonEmpty, replies.accessToken, replies.user with
    | none, _, _ => ⟨none, .error "No Code Provided"⟩
    | some _, none, _ => ⟨none, .error "Authentication Failed"⟩
    | some _, some _, none => ⟨none, .error "Authentication Failed"⟩
    | some _, some _, some user =>
      match memberships discord replies.member discord.guildIds false with
      | .error message => ⟨none, .error message⟩
      | .ok (isMember, authorized) => decideCallback jwt now user isMember authorized

/-! ## 4. The server -/

/-- What happens, as far as sessions are concerned. -/
inductive Event
  /-- `record_audit`, and whether the entry was written. -/
  | audited (entry : AuditEntry) (written : Bool)
  | signedIn (token : Token) (claims : Claims)
  | letIn (token : Token) (user : AuthUser)

/-- The clock, and what has happened at which times. -/
structure World where
  now : Int
  events : List (Int × Event)

/-- What the environment can do; `writable` is whether the audit log can be written. -/
inductive Act
  | wait (seconds : Nat)
  | login (password : List Char)
  | callback (code : Option (List Char)) (replies : DiscordReplies) (writable : Bool)
  | logout
  | request (headers : Headers)

/-- A session that was given out. -/
def signInEvents {ε : Type} : Except ε (Token × Claims) → List Event
  | .ok (token, claims) => [.signedIn token claims]
  | .error _ => []

/-- What an act brings about at a given time; logging out changes nothing. -/
def happens (jwt : Jwt) (config : Config) (now : Int) : Act → List Event
  | .wait _ | .logout => []
  | .login password => signInEvents (login jwt config now password)
  | .callback code replies writable =>
    let callback := exchangeAndVerify jwt config now code replies
    callback.audited.toList.map (Event.audited · writable) ++ signInEvents callback.result
  | .request headers =>
    match requestToken headers, authUser jwt config now headers with
    | some token, .ok user => [.letIn token user]
    | _, _ => []

def Act.elapsed : Act → Nat
  | .wait seconds => seconds
  | _ => 0

/-- What happens in a state, with its time. -/
def logged (jwt : Jwt) (config : Config) (w : World) (act : Act) : List (Int × Event) :=
  (happens jwt config w.now act).map fun event => (w.now, event)

/-- One step. -/
def step (jwt : Jwt) (config : Config) (w : World) (act : Act) : Option World :=
  some ⟨w.now + act.elapsed, w.events ++ logged jwt config w act⟩

/-- No token verifies but those that were issued. -/
def Unforged (jwt : Jwt) (w : World) : Act → Prop
  | .request headers => ∀ token claims, requestToken headers = some token →
      verifyToken jwt w.now token = some claims → ∃ t, (t, Event.signedIn token claims) ∈ w.events
  | _ => True

/-! ## 5. Secrets -/

/-- The differences that are found. -/
theorem foldl_diff_eq_zero (pairs : List (UInt8 × UInt8)) (diff : UInt8) :
    pairs.foldl (fun diff (x, y) => diff ||| (x ^^^ y)) diff = 0 ↔
      diff = 0 ∧ ∀ p ∈ pairs, p.1 = p.2 := by
  induction pairs generalizing diff with
  | nil => simp
  | cons p pairs ih =>
    rw [List.foldl_cons, ih, UInt8.or_eq_zero_iff, UInt8.xor_eq_zero_iff]
    simp [and_assoc]

theorem eq_of_zip {a b : List UInt8} (hlength : a.length = b.length)
    (h : ∀ p ∈ a.zip b, p.1 = p.2) : a = b := by
  induction a generalizing b with
  | nil => exact (List.length_eq_zero_iff.mp hlength.symm).symm
  | cons x a ih =>
    cases b with
    | nil => cases hlength
    | cons y b =>
      rw [List.zip_cons_cons] at h
      obtain rfl : x = y := h (x, y) (by simp)
      rw [ih (by simpa using hlength) fun p hp => h p (List.mem_cons_of_mem _ hp)]

theorem eq_of_mem_zip_self {a : List UInt8} {p : UInt8 × UInt8} (h : p ∈ a.zip a) : p.1 = p.2 := by
  induction a with
  | nil => simp at h
  | cons x a ih =>
    rcases List.mem_cons.mp h with rfl | h
    · rfl
    · exact ih h

/-- **Comparing in constant time** is comparing. -/
theorem constantTimeEq_iff {a b : List UInt8} : constantTimeEq a b = true ↔ a = b := by
  rw [constantTimeEq]
  by_cases hlength : a.length = b.length
  · rw [if_neg (by simpa using hlength), decide_eq_true_iff, foldl_diff_eq_zero]
    constructor
    · exact fun h => eq_of_zip hlength h.2
    · rintro rfl
      exact ⟨rfl, fun p hp => eq_of_mem_zip_self hp⟩
  · rw [if_pos hlength]
    refine ⟨by simp, ?_⟩
    rintro rfl
    exact absurd rfl hlength

theorem asBytes_injective {s t : List Char} (h : asBytes s = asBytes t) : s = t := by
  have hbytes : s.utf8Encode = t.utf8Encode := congrArg List.toByteArray h
  have hdecode := congrArg ByteArray.utf8Decode? hbytes
  rw [List.utf8Decode?_utf8Encode, List.utf8Decode?_utf8Encode] at hdecode
  simpa using hdecode

theorem constantTimeEq_asBytes {s t : List Char} :
    constantTimeEq (asBytes s) (asBytes t) = true ↔ s = t :=
  constantTimeEq_iff.trans ⟨asBytes_injective, congrArg asBytes⟩

/-! ## 6. What the server does -/

variable {jwt : Jwt} {config : Config} {now : Int} {token : Token} {claims : Claims}

theorem eq_of_issueToken {subject kind : List Char} {ttl : Int}
    (h : issueToken jwt now subject kind ttl = some (token, claims)) :
    claims = ⟨subject, kind, now, now + ttl⟩ ∧ jwt.encode claims = some token := by
  obtain ⟨t, ht, heq⟩ := Option.map_eq_some_iff.mp h
  obtain ⟨rfl, rfl⟩ := Prod.mk.inj heq
  exact ⟨rfl, ht⟩

theorem verifyToken_eq_some :
    verifyToken jwt now token = some claims ↔
      jwt.signed token = some claims ∧ now ≤ claims.exp + leeway :=
  jwt.decode_eq_some now token claims

/-- Who is let in. -/
theorem authUser_eq_ok {headers : Headers} {user : AuthUser} :
    authUser jwt config now headers = .ok user ↔
      ∃ token, requestToken headers = some token ∧
        (config.mobileApiKey = some token ∧ user = ⟨"mobile".toList, "mobile".toList⟩ ∨
          config.mobileApiKey ≠ some token ∧
            ∃ claims, verifyToken jwt now token = some claims ∧ user = ⟨claims.sub, claims.kind⟩) := by
  have hkey (token : Token) : (config.mobileApiKey.any fun key =>
      constantTimeEq (asBytes token) (asBytes key)) = true ↔ config.mobileApiKey = some token := by
    cases config.mobileApiKey with
    | none => simp
    | some key =>
      rw [Option.any_some, constantTimeEq_asBytes, Option.some.injEq]
      exact eq_comm
  rw [authUser]
  cases requestToken headers with
  | none => simp
  | some token =>
    simp only [hkey, Option.some.injEq, exists_eq_left']
    by_cases hmobile : config.mobileApiKey = some token
    · simp only [hmobile, if_true, Except.ok.injEq, true_and, ne_eq, not_true_eq_false, false_and,
        or_false]
      exact eq_comm
    · simp only [hmobile, if_false, false_and, false_or, ne_eq, not_false_eq_true, true_and]
      cases verifyToken jwt now token with
      | none => simp
      | some claims =>
        simp only [Except.ok.injEq, Option.some.injEq, exists_eq_left']
        exact eq_comm

/-- What a login with the password gives out. -/
theorem login_eq_ok {password : List Char}
    (h : login jwt config now password = .ok (token, claims)) :
    config.adminPassword = some password ∧
      claims = ⟨"admin".toList, "password".toList, now, now + sessionTtlSeconds⟩ ∧
      jwt.encode claims = some token := by
  rw [login] at h
  cases hpassword : config.adminPassword with
  | none => simp [hpassword] at h
  | some expected =>
    simp only [hpassword] at h
    split at h
    · cases h
    · rename_i hequal
      obtain rfl : password = expected := constantTimeEq_asBytes.mp (by simpa using hequal)
      split at h
      · rename_i session hissue
        cases h
        exact ⟨rfl, eq_of_issueToken hissue⟩
      · cases h

/-- The user had an admin role in one of the guilds. -/
def HadAdminRole (discord : DiscordConfig) (replies : DiscordReplies) : Prop :=
  ∃ guild ∈ discord.guildIds, ∃ roles, replies.member guild = .member roles ∧
    ∃ role ∈ roles, role ∈ discord.adminRoleIds

theorem memberships_authorized {discord : DiscordConfig} {replies : DiscordReplies}
    {guilds : List (List Char)} {isMember isMember' : Bool}
    (h : memberships discord replies.member guilds isMember = .ok (isMember', true)) :
    ∃ guild ∈ guilds, ∃ roles, replies.member guild = .member roles ∧
      ∃ role ∈ roles, role ∈ discord.adminRoleIds := by
  induction guilds generalizing isMember with
  | nil => simp [memberships] at h
  | cons guild guilds ih =>
    have hlater (isMember : Bool)
        (h : memberships discord replies.member guilds isMember = .ok (isMember', true)) :
        ∃ g ∈ guild :: guilds, ∃ roles, replies.member g = .member roles ∧
          ∃ role ∈ roles, role ∈ discord.adminRoleIds := by
      obtain ⟨g, hg, hroles⟩ := ih h
      exact ⟨g, List.mem_cons_of_mem _ hg, hroles⟩
    rw [memberships] at h
    cases hreply : replies.member guild with
    | failed => simp [hreply] at h
    | refused =>
      simp only [hreply] at h
      exact hlater _ h
    | unreadable => simp [hreply] at h
    | member roles =>
      simp only [hreply] at h
      split at h
      · rename_i hrole
        obtain ⟨role, hmem, hallowed⟩ := List.any_eq_true.mp hrole
        exact ⟨guild, by simp, roles, hreply, role, hmem, by simpa using hallowed⟩
      · exact hlater _ h

/-- What a callback gives out, and what it audits. -/
theorem callback_eq_ok {code : Option (List Char)} {replies : DiscordReplies}
    (h : (exchangeAndVerify jwt config now code replies).result = .ok (token, claims)) :
    ∃ discord user, config.discord = some discord ∧ replies.user = some user ∧
      HadAdminRole discord replies ∧
      claims = ⟨"discord_".toList ++ user.id, "discord".toList, now, now + sessionTtlSeconds⟩ ∧
      jwt.encode claims = some token ∧
      (exchangeAndVerify jwt config now code replies).audited =
        some ⟨user.username.getD "Unknown User".toList, user.id, "SUCCESS", none⟩ := by
  rw [exchangeAndVerify] at h ⊢
  cases hdiscord : config.discord with
  | none => simp [hdiscord] at h
  | some discord =>
    simp only [hdiscord] at h ⊢
    split at h
    · cases h
    · cases h
    · cases h
    · rename_i user _ _ huser
      simp only [huser] at h ⊢
      cases hmember : memberships discord replies.member discord.guildIds false with
      | error message => simp [hmember] at h
      | ok decided =>
        obtain ⟨isMember, authorized⟩ := decided
        simp only [hmember] at h ⊢
        cases isMember with
        | false => simp [decideCallback] at h
        | true =>
          cases authorized with
          | false => simp [decideCallback] at h
          | true =>
            simp only [decideCallback, Bool.not_true, Bool.false_eq_true, if_false] at h ⊢
            split at h
            · rename_i session hissue
              cases h
              obtain ⟨rfl, hencode⟩ := eq_of_issueToken hissue
              exact ⟨discord, user, rfl, rfl, memberships_authorized hmember, rfl, hencode, rfl⟩
            · cases h

/-! ## 7. Runs -/

/-- The server has started at some time. -/
def started (now : Int) : World := ⟨now, []⟩

/-- A token is given out by an act. -/
def GivesOut (jwt : Jwt) (config : Config) (now : Int) (token : Token) (claims : Claims) :
    Act → Prop
  | .login password => login jwt config now password = .ok (token, claims)
  | .callback code replies _ =>
    (exchangeAndVerify jwt config now code replies).result = .ok (token, claims)
  | _ => False

/-- What a session is given out for. -/
def Granted (config : Config) (claims : Claims) : Act → Prop
  | .login password => config.adminPassword = some password ∧ claims.sub = "admin".toList ∧
      claims.kind = "password".toList
  | .callback _ replies _ => ∃ discord user, config.discord = some discord ∧
      replies.user = some user ∧ HadAdminRole discord replies ∧
      claims.sub = "discord_".toList ++ user.id ∧ claims.kind = "discord".toList
  | _ => False

/-- The entry of the audit log that an act was let in with: of a callback, not of a password. -/
def successEntry : Act → Option AuditEntry
  | .callback _ replies _ => replies.user.map fun user =>
      ⟨user.username.getD "Unknown User".toList, user.id, "SUCCESS", none⟩
  | _ => none

theorem mem_signInEvents {ε : Type} {result : Except ε (Token × Claims)} :
    .signedIn token claims ∈ signInEvents result ↔ result = .ok (token, claims) := by
  cases result with
  | error e => simp [signInEvents]
  | ok session => simp [signInEvents, Prod.ext_iff, eq_comm]

/-- A token is what an act gives out. -/
theorem signedIn_mem_happens {act : Act} :
    .signedIn token claims ∈ happens jwt config now act ↔
      GivesOut jwt config now token claims act := by
  cases act with
  | wait seconds => simp [happens, GivesOut]
  | logout => simp [happens, GivesOut]
  | login password => exact mem_signInEvents
  | callback code replies writable =>
    rw [happens, List.mem_append, mem_signInEvents]
    simp [GivesOut]
  | request headers =>
    simp only [happens, GivesOut, iff_false]
    split <;> simp

/-- Only a request is let in. -/
theorem letIn_mem_happens {act : Act} {user : AuthUser} :
    .letIn token user ∈ happens jwt config now act ↔
      ∃ headers, act = .request headers ∧ requestToken headers = some token ∧
        authUser jwt config now headers = .ok user := by
  have hsignIn {ε : Type} (result : Except ε (Token × Claims)) :
      .letIn token user ∉ signInEvents result := by
    cases result <;> simp [signInEvents]
  cases act with
  | wait seconds => simp [happens]
  | logout => simp [happens]
  | login password => simpa [happens] using hsignIn _
  | callback code replies writable => simpa [happens] using hsignIn _
  | request headers =>
    simp only [happens, Act.request.injEq, exists_eq_left']
    split
    · rename_i token' user' htoken haccepted
      simp [htoken, haccepted, eq_comm]
    · rename_i hnone
      refine iff_of_false (List.not_mem_nil) fun ⟨htoken, haccepted⟩ => hnone _ _ htoken haccepted

/-- Who is given a token. -/
theorem GivesOut.granted {act : Act} (h : GivesOut jwt config now token claims act) :
    Granted config claims act ∧ jwt.encode claims = some token ∧ claims.iat = now ∧
      claims.exp = now + sessionTtlSeconds ∧
      ∀ entry, successEntry act = some entry → ∃ writable,
        .audited entry writable ∈ happens jwt config now act := by
  cases act with
  | login password =>
    obtain ⟨hpassword, rfl, hencode⟩ := login_eq_ok h
    exact ⟨⟨hpassword, rfl, rfl⟩, hencode, rfl, rfl, by simp [successEntry]⟩
  | callback code replies writable =>
    obtain ⟨discord, user, hdiscord, huser, hrole, rfl, hencode, haudited⟩ := callback_eq_ok h
    refine ⟨⟨discord, user, hdiscord, huser, hrole, rfl, rfl⟩, hencode, rfl, rfl, ?_⟩
    intro entry he
    obtain rfl : _ = entry := by simpa [successEntry, huser] using he
    exact ⟨writable, by simp [happens, haudited]⟩
  | wait seconds | logout | request headers => exact h.elim

theorem appends_logged : Appends (step jwt config) World.events (logged jwt config) := by
  rintro w act _ ⟨⟩
  rfl

theorem now_le_step {w w' : World} {act : Act} (h : step jwt config w act = some w') :
    w.now ≤ w'.now := by
  cases h
  show w.now ≤ w.now + act.elapsed
  omega

theorem now_le_run {C : World → Act → Prop} {acts : List Act} {w w' : World}
    (h : Run (step jwt config) C w acts w') : w.now ≤ w'.now :=
  h.invariant (I := fun u => w.now ≤ u.now) (Int.le_refl _)
    fun _ _ _ hle _ hstep => Int.le_trans hle (now_le_step hstep)

/-- The login of a run that a token came from, before the rest of a log. -/
structure SignedInBy (jwt : Jwt) (config : Config) (start : World) (acts : List Act)
    (before : List (Int × Event)) (token : Token) (claims : Claims) (w₀ : World) (act : Act) :
    Prop where
  run : ∃ earlier later, acts = earlier ++ act :: later ∧
    Run (step jwt config) (Unforged jwt) start earlier w₀
  gives : GivesOut jwt config w₀.now token claims act
  granted : Granted config claims act
  logged : w₀.events ++ logged jwt config w₀ act <+: before
  /-- The audit log was told of a login through Discord, whether or not it took the entry. -/
  audited : ∀ entry, successEntry act = some entry →
    ∃ written, (w₀.now, .audited entry written) ∈ before

/-- **Whoever is let in has signed in.**  In a run in which no token is forged, a request that is
let in has the key of the mobile app, or a token that came from a login of the run, no longer ago
than a session lasts: with the admin password, or by a user with an admin role, of which the audit
log was told before. -/
theorem access_traced {acts : List Act} {w : World}
    (h : Run (step jwt config) (Unforged jwt) (started now) acts w)
    {before after : List (Int × Event)} {t : Int} {user : AuthUser}
    (haccess : w.events = before ++ (t, .letIn token user) :: after) :
    config.mobileApiKey = some token ∧ user = ⟨"mobile".toList, "mobile".toList⟩ ∨
      ∃ w₀ act claims, SignedInBy jwt config (started now) acts before token claims w₀ act ∧
        w₀.now ≤ t ∧ t ≤ w₀.now + sessionTtlSeconds + leeway ∧
        user = ⟨claims.sub, claims.kind⟩ := by
  obtain ⟨acts₁, request, later, w₁, -, rfl, hrun₁, hunforged, -, -, hbefore, hadded⟩ :=
    h.exists_step_of_log appends_logged rfl haccess
  obtain ⟨event, hletIn, heq⟩ := List.mem_map.mp hadded
  obtain ⟨rfl, rfl⟩ := Prod.mk.inj heq
  obtain ⟨headers, rfl, htoken, haccepted⟩ := letIn_mem_happens.mp hletIn
  obtain ⟨token', htoken', hcase⟩ := authUser_eq_ok.mp haccepted
  obtain rfl : token = token' := Option.some.inj (htoken.symm.trans htoken')
  refine hcase.imp id ?_
  rintro ⟨-, claims, hverify, huser⟩
  -- the token was given out by an earlier act
  obtain ⟨t₀, hissued⟩ := hunforged token claims htoken hverify
  obtain ⟨pre, post, hsplit⟩ := List.append_of_mem hissued
  obtain ⟨acts₀, act, later₀, w₀, v₀, rfl, hrun₀, -, hstep₀, hlater₀, -, hadded₀⟩ :=
    hrun₁.exists_step_of_log appends_logged rfl hsplit
  obtain ⟨event, hsignedIn, heq⟩ := List.mem_map.mp hadded₀
  obtain ⟨rfl, rfl⟩ := Prod.mk.inj heq
  have hgives := signedIn_mem_happens.mp hsignedIn
  obtain ⟨hgranted, -, -, hexp, haudited⟩ := hgives.granted
  have hlogged : w₀.events ++ logged jwt config w₀ act <+: before := by
    rw [← appends_logged _ _ _ hstep₀]
    exact (hlater₀.log_prefix appends_logged).trans hbefore
  refine ⟨w₀, act, claims, ⟨⟨acts₀, later₀ ++ .request headers :: later, by simp, hrun₀⟩, hgives,
    hgranted, hlogged, fun entry hentry => ?_⟩, ?_, ?_, huser⟩
  · obtain ⟨written, hwritten⟩ := haudited entry hentry
    exact ⟨written, hlogged.subset (List.mem_append_right _ (List.mem_map_of_mem hwritten))⟩
  · exact Int.le_trans (now_le_step hstep₀) (now_le_run hlater₀)
  · have hfresh := (verifyToken_eq_some.mp hverify).2
    omega

/-- A text that stands in a token as it is. -/
def isPlainText (s : List Char) : Bool :=
  s.all fun c => 33 ≤ c.toNat && c.toNat < 127 && c ≠ ';' && c ≠ '.'

/-- The parts of a token. -/
def tokenParts (claims : Claims) : List (List Char) :=
  [claims.sub, claims.kind, Nat.toDigits 10 claims.iat.toNat, Nat.toDigits 10 claims.exp.toNat,
    "c2ln".toList]

def plainToken (claims : Claims) : Token := ['.'].intercalate (tokenParts claims)

def readPlainToken (token : Token) : Option Claims :=
  match token.splitOn '.' with
  | [sub, kind, iat, exp, signature] =>
    if signature = "c2ln".toList then
      some ⟨sub, kind, Nat.ofDigitChars 10 iat 0, Nat.ofDigitChars 10 exp 0⟩
    else none
  | _ => none

/-- A library that signs plain claims. -/
def plainJwt : Jwt where
  encode claims :=
    if isPlainText claims.sub ∧ isPlainText claims.kind ∧ 0 ≤ claims.iat ∧ 0 ≤ claims.exp then
      some (plainToken claims)
    else none
  signed := readPlainToken
  decode now token := (readPlainToken token).filter fun claims => now ≤ claims.exp + leeway
  decode_eq_some now token claims := by simp [Option.filter_eq_some_iff]

/-- A server with a password and with a guild of Discord. -/
def clubConfig : Config :=
  ⟨some "hunter2".toList, none, some ⟨["77".toList], ["5".toList, "6".toList]⟩⟩

def maverick : DiscordReplies where
  accessToken := some "abc".toList
  user := some ⟨"42".toList, some "Maverick".toList⟩
  member _ := .member ["9".toList, "6".toList]

def adminSession : Claims :=
  ⟨"admin".toList, "password".toList, 100, 100 + sessionTtlSeconds⟩

def maverickSession : Claims :=
  ⟨"discord_42".toList, "discord".toList, 105, 105 + sessionTtlSeconds⟩

def bearer (token : Token) : Headers := ⟨some ("Bearer ".toList ++ token), none⟩

/-- A login with the password and one through Discord while the log cannot be written, and a
request with the token of the second. -/
def twoLogins : List Act :=
  [.login "hunter2".toList, .wait 5, .callback (some "xyz".toList) maverick false, .logout,
    .wait 30, .request (bearer (plainToken maverickSession))]

theorem access_traced_callback : ∃ w before after,
    Run (step plainJwt clubConfig) (Unforged plainJwt) (started 100) twoLogins w ∧
      w.events = before ++ (135, .letIn (plainToken maverickSession)
        ⟨"discord_42".toList, "discord".toList⟩) :: after ∧
      ∃ w₀ act claims, SignedInBy plainJwt clubConfig (started 100) twoLogins before
          (plainToken maverickSession) claims w₀ act ∧
        w₀.now ≤ 135 ∧ 135 ≤ w₀.now + sessionTtlSeconds + leeway ∧
        (⟨"discord_42".toList, "discord".toList⟩ : AuthUser) = ⟨claims.sub, claims.kind⟩ := by
  let w₁ : World := ⟨100, [(100, .signedIn (plainToken adminSession) adminSession)]⟩
  let entry : AuditEntry := ⟨"Maverick".toList, "42".toList, "SUCCESS", none⟩
  let events₂ : List (Int × Event) := w₁.events ++ [(105, .audited entry false),
    (105, .signedIn (plainToken maverickSession) maverickSession)]
  have hlogin : step plainJwt clubConfig (started 100) (.login "hunter2".toList) = some w₁ := by
    rfl
  have hcallback : step plainJwt clubConfig ⟨105, w₁.events⟩
      (.callback (some "xyz".toList) maverick false) = some ⟨105, events₂⟩ := by rfl
  have hrequest : step plainJwt clubConfig ⟨135, events₂⟩
      (.request (bearer (plainToken maverickSession))) = some ⟨135, events₂ ++ [(135,
        .letIn (plainToken maverickSession) ⟨"discord_42".toList, "discord".toList⟩)]⟩ := by rfl
  have hunforged :
      Unforged plainJwt ⟨135, events₂⟩ (.request (bearer (plainToken maverickSession))) := by
    intro token claims htoken hverify
    have hbearer : requestToken (bearer (plainToken maverickSession)) =
        some (plainToken maverickSession) := by rfl
    obtain rfl := Option.some.inj (hbearer.symm.trans htoken)
    have hclaims : verifyToken plainJwt 135 (plainToken maverickSession) = some maverickSession := by
      rfl
    obtain rfl := Option.some.inj (hclaims.symm.trans hverify)
    exact ⟨105, by simp [events₂]⟩
  have hrun : Run (step plainJwt clubConfig) (Unforged plainJwt) (started 100) twoLogins
      ⟨135, events₂ ++ [(135, .letIn (plainToken maverickSession)
        ⟨"discord_42".toList, "discord".toList⟩)]⟩ :=
    .cons trivial hlogin (.cons trivial rfl (.cons trivial hcallback (.cons trivial rfl
      (.cons trivial rfl (.single hunforged hrequest)))))
  exact ⟨_, events₂, [], hrun, rfl, (access_traced hrun rfl).resolve_left fun h => nomatch h.1⟩

/-! ## 8. The lifetime of a session -/

/-- What is known of signed tokens: they read back, and are visible ASCII without semicolons. -/
structure Jwt.Faithful (jwt : Jwt) : Prop where
  signed_encode : ∀ claims token, jwt.encode claims = some token → jwt.signed token = some claims
  compact : ∀ claims token, jwt.encode claims = some token →
    token ≠ [] ∧ ∀ c ∈ token, 33 ≤ c.toNat ∧ c.toNat < 127 ∧ c ≠ ';'

/-- What was given out was signed. -/
def Signed (jwt : Jwt) (w : World) : Prop :=
  ∀ t token claims, (t, Event.signedIn token claims) ∈ w.events →
    jwt.encode claims = some token ∧ claims.exp = t + sessionTtlSeconds

theorem signed_step {w w' : World} {act : Act} (h : Signed jwt w)
    (hstep : step jwt config w act = some w') : Signed jwt w' := by
  cases hstep
  intro t token claims hmem
  rcases List.mem_append.mp hmem with hmem | hmem
  · exact h t token claims hmem
  · obtain ⟨event, hevent, heq⟩ := List.mem_map.mp hmem
    obtain ⟨rfl, rfl⟩ := Prod.mk.inj heq
    obtain ⟨-, hencode, -, hexp, -⟩ := (signedIn_mem_happens.mp hevent).granted
    exact ⟨hencode, hexp⟩

theorem not_whitespace {c : Char} (h : 33 ≤ c.toNat ∧ c.toNat < 127) : isWhitespace c = false := by
  have hne : ∀ n ∈ [0x20, 0x85, 0xa0, 0x1680, 0x2028, 0x2029, 0x202f, 0x205f, 0x3000],
      c.toNat ≠ n := by
    intro n hn
    simp only [List.mem_cons, List.not_mem_nil, or_false] at hn
    omega
  simp only [isWhitespace, Bool.or_eq_false_iff, Bool.and_eq_false_iff, decide_eq_false_iff_not]
  refine ⟨⟨.inr (by omega), .inl (by omega)⟩, fun hmem => hne _ hmem rfl⟩

theorem headerText_visible {value : List Char}
    (h : ∀ c ∈ value, 32 ≤ c.toNat ∧ c.toNat < 127) : headerText value = some value := by
  refine if_pos (List.all_eq_true.mpr fun c hc => ?_)
  simp [h c hc]

theorem afterPrefix_append (start s : List Char) : afterPrefix start (start ++ s) = some s := by
  rw [afterPrefix, if_pos (List.prefix_append start s), List.drop_left]

section
variable (hvisible : ∀ c ∈ token, 33 ≤ c.toNat ∧ c.toNat < 127 ∧ c ≠ ';')
include hvisible

theorem trim_token : trim token = token :=
  trim_of_no_whitespace fun c hc => not_whitespace ⟨(hvisible c hc).1, (hvisible c hc).2.1⟩

variable (htoken : token ≠ [])
include htoken

theorem bearerToken_bearer : bearerToken ("Bearer ".toList ++ token) = some token := by
  have hheader : headerText ("Bearer ".toList ++ token) = some ("Bearer ".toList ++ token) := by
    refine headerText_visible ?_
    intro c hc
    rcases List.mem_append.mp hc with hc | hc
    · have hall : ∀ c ∈ "Bearer ".toList, 32 ≤ c.toNat ∧ c.toNat < 127 := by simp
      exact hall c hc
    · have hc := hvisible c hc
      omega
  rw [bearerToken, hheader, Option.bind_some, afterPrefix_append, Option.bind_some,
    trim_token hvisible, nonEmpty, if_neg htoken]

theorem cookieToken_cookie : cookieToken ("auth_token=".toList ++ token) = some token := by
  have hchars : ∀ c ∈ "auth_token=".toList ++ token, 33 ≤ c.toNat ∧ c.toNat < 127 ∧ c ≠ ';' := by
    intro c hc
    rcases List.mem_append.mp hc with hc | hc
    · have hall : ∀ c ∈ "auth_token=".toList, 33 ≤ c.toNat ∧ c.toNat < 127 ∧ c ≠ ';' := by simp
      exact hall c hc
    · exact hvisible c hc
  have hheader := headerText_visible fun c hc =>
    ⟨by have := (hchars c hc).1; omega, (hchars c hc).2.1⟩
  have hone : ("auth_token=".toList ++ token).splitOn ';' = ["auth_token=".toList ++ token] :=
    List.splitOn_eq_singleton fun hmem => (hchars _ hmem).2.2 rfl
  have htrim : trim ("auth_token=".toList ++ token) = "auth_token=".toList ++ token :=
    trim_of_no_whitespace fun c hc => not_whitespace ⟨(hchars c hc).1, (hchars c hc).2.1⟩
  rw [cookieToken, hheader, Option.bind_some, hone, List.findSome?_singleton, htrim,
    afterPrefix_append, Option.bind_some, nonEmpty, if_neg htoken]

end

/-- A request with the token of a session, as a bearer token or as a cookie. -/
theorem requestToken_signed (hjwt : jwt.Faithful) (hencode : jwt.encode claims = some token)
    {headers : Headers} (hheaders : headers.authorization = some ("Bearer ".toList ++ token) ∨
      headers = ⟨none, some ("auth_token=".toList ++ token)⟩) :
    requestToken headers = some token := by
  obtain ⟨htoken, hvisible⟩ := hjwt.compact claims token hencode
  rcases hheaders with hheader | rfl
  · rw [requestToken, hheader, Option.bind_some, bearerToken_bearer hvisible htoken]
    rfl
  · rw [requestToken, Option.bind_some, cookieToken_cookie hvisible htoken]
    rfl

theorem verifyToken_signed (hjwt : jwt.Faithful) (hencode : jwt.encode claims = some token)
    {t₀ : Int} (hexp : claims.exp = t₀ + sessionTtlSeconds) (t : Int) :
    verifyToken jwt t token =
      if t ≤ t₀ + sessionTtlSeconds + leeway then some claims else none := by
  have hsigned := hjwt.signed_encode claims token hencode
  split
  · rename_i hfresh
    exact verifyToken_eq_some.mpr ⟨hsigned, by omega⟩
  · rename_i hstale
    refine Option.eq_none_iff_forall_ne_some.mpr fun claims' hverify => hstale ?_
    obtain ⟨hsigned', hfresh⟩ := verifyToken_eq_some.mp hverify
    obtain rfl := Option.some.inj (hsigned.symm.trans hsigned')
    omega

theorem run_signed {acts : List Act} {w : World}
    (h : Run (step jwt config) Always (started now) acts w) : Signed jwt w :=
  h.invariant (I := Signed jwt) (by simp [Signed, started])
    fun _ _ _ hsigned _ hstep => signed_step hsigned hstep

/-- **A session lasts for its lifetime.**  Whatever has happened since, the token of a session is
let in, as a bearer token or as a cookie, until a session lasts no longer, and is refused as invalid
from then on. -/
theorem session_accepted (hjwt : jwt.Faithful) {acts : List Act} {w : World}
    (h : Run (step jwt config) Always (started now) acts w) {t₀ : Int}
    (hissued : (t₀, .signedIn token claims) ∈ w.events) (hkey : config.mobileApiKey ≠ some token)
    (t : Int) (headers : Headers)
    (hheaders : headers.authorization = some ("Bearer ".toList ++ token) ∨
      headers = ⟨none, some ("auth_token=".toList ++ token)⟩) :
    authUser jwt config t headers =
      if t ≤ t₀ + sessionTtlSeconds + leeway then .ok ⟨claims.sub, claims.kind⟩
      else .error .invalid := by
  obtain ⟨hencode, hexp⟩ := run_signed h t₀ token claims hissued
  have hrequest := requestToken_signed hjwt hencode hheaders
  have hverify := verifyToken_signed hjwt hencode hexp t
  have hmobile : (config.mobileApiKey.any fun key =>
      constantTimeEq (asBytes token) (asBytes key)) = false := by
    cases hconfig : config.mobileApiKey with
    | none => rfl
    | some key =>
      rw [Option.any_some, ← Bool.not_eq_true, constantTimeEq_asBytes]
      rintro rfl
      exact hkey hconfig
  by_cases ht : t ≤ t₀ + sessionTtlSeconds + leeway
  · simp [authUser, hrequest, hmobile, hverify, ht]
  · simp [authUser, hrequest, hmobile, hverify, ht]

theorem isPlainText_char {s : List Char} (h : isPlainText s = true) {c : Char} (hc : c ∈ s) :
    33 ≤ c.toNat ∧ c.toNat < 127 ∧ c ≠ ';' ∧ c ≠ '.' := by
  simpa [and_assoc] using List.all_eq_true.mp h c hc

theorem isPlainText_digits (n : Nat) : isPlainText (Nat.toDigits 10 n) = true := by
  refine List.all_eq_true.mpr ?_
  intro c hc
  have hdigit := Nat.isDigit_of_mem_toDigits (by decide) (by decide) hc
  have hrange : 48 ≤ c.toNat ∧ c.toNat ≤ 57 := Char.isDigit_iff_toNat.mp hdigit
  have hne : c ≠ ';' ∧ c ≠ '.' := by
    constructor <;> rintro rfl <;> exact absurd hrange (by decide)
  simp only [Bool.and_eq_true, decide_eq_true_eq]
  exact ⟨⟨⟨by omega, by omega⟩, hne.1⟩, hne.2⟩

theorem encode_plainJwt {claims : Claims} {token : Token}
    (h : plainJwt.encode claims = some token) :
    token = plainToken claims ∧ 0 ≤ claims.iat ∧ 0 ≤ claims.exp ∧
      ∀ part ∈ tokenParts claims, isPlainText part = true := by
  obtain ⟨⟨hsub, hkind, hiat, hexp⟩, htoken⟩ := Option.ite_none_right_eq_some.mp h
  refine ⟨(Option.some.inj htoken).symm, hiat, hexp, ?_⟩
  simp only [tokenParts, List.mem_cons, List.not_mem_nil, or_false]
  rintro part (rfl | rfl | rfl | rfl | rfl)
  · exact hsub
  · exact hkind
  · exact isPlainText_digits _
  · exact isPlainText_digits _
  · decide

theorem plainJwt_faithful : plainJwt.Faithful where
  signed_encode claims token h := by
    obtain ⟨rfl, hiat, hexp, hplain⟩ := encode_plainJwt h
    have hsplit := List.splitOn_intercalate '.'
      (fun part hpart hdot => (isPlainText_char (hplain part hpart) hdot).2.2.2 rfl)
      (by simp [tokenParts])
    show readPlainToken (plainToken claims) = some claims
    rw [readPlainToken, plainToken, hsplit]
    simp [tokenParts, Nat.ofDigitChars_ten_toDigits, Int.max_eq_left hiat, Int.max_eq_left hexp]
  compact claims token h := by
    obtain ⟨rfl, -, -, hplain⟩ := encode_plainJwt h
    refine ⟨by simp [plainToken, tokenParts], ?_⟩
    intro c hc
    rcases mem_intercalate hc with rfl | ⟨part, hpart, hc⟩
    · decide
    · obtain ⟨hlow, hhigh, hne, -⟩ := isPlainText_char (hplain part hpart) hc
      exact ⟨hlow, hhigh, hne⟩

theorem session_accepted_password :
    authUser plainJwt clubConfig 604960 (bearer (plainToken adminSession)) =
        .ok ⟨"admin".toList, "password".toList⟩ ∧
      authUser plainJwt clubConfig 604961 ⟨none, some ("auth_token=".toList ++ plainToken adminSession)⟩ =
        .error .invalid := by
  have hrun : Run (step plainJwt clubConfig) Always (started 100) [.login "hunter2".toList]
      ⟨100, [(100, .signedIn (plainToken adminSession) adminSession)]⟩ := .single trivial rfl
  have hlet := session_accepted plainJwt_faithful hrun (List.mem_singleton.mpr rfl) (by decide) 604960
    (bearer (plainToken adminSession)) (.inl rfl)
  have hrefused := session_accepted plainJwt_faithful hrun (List.mem_singleton.mpr rfl) (by decide)
    604961 ⟨none, some ("auth_token=".toList ++ plainToken adminSession)⟩ (.inr rfl)
  rw [if_pos (by decide)] at hlet
  rw [if_neg (by decide)] at hrefused
  exact ⟨hlet, hrefused⟩

end DcsDashboard.Auth.Sessions

import Nanoguard.ClientAuth.Middleware
import Nanoguard.Console.Db
import Nanoguard.Lib.Json

/-!
# The session extractors of the console

`CurrentUser` and `MutatingUser` run before the handlers that take them. Both look up the session of
the signed cookie; the second one also wants the CSRF token of that session. A session that is over
is deleted, one that is not is marked as seen. `SessionStatus` is what the lookup comes to.
-/

namespace Nanoguard.Console

/-- What the console takes from other crates. Instants are counted in nanoseconds. -/
structure Crates where
  /-- `Cookie::parse`, the name and the value -/
  parseCookie : Text → Option (Text × Text)
  /-- the value of a signed cookie, given the secret and the value with its signature -/
  verifyCookie : Text → Text → Option Text
  parseRfc3339 : Text → Option Int
  toRfc3339 : Int → Text
  /-- whether the router takes an empty segment in the middle of a path for a parameter -/
  emptySegment : Bool

/-- The headers of a request, with names in lower case. -/
abbrev Headers := List (Text × List UInt8)

structure AuthError where
  status : Nat
  message : Text
  deriving DecidableEq, Repr

/-- The part of the configuration that the extractors read. A server does not start with a shorter
secret, and makes one up if there is none. -/
structure ConsoleConfig where
  sessionSecret : Text
  secret_long : 32 ≤ Str.len sessionSecret
  sessionTtlHours : Int
  sessionIdleTimeoutHours : Option Int
  deriving DecidableEq, Repr

def csrfHeader : Text := "x-csrf-token".toList

def sessionCookie : Text := "ng_session".toList

def hexDigit (c : Char) : Option Nat :=
  if c.isDigit then some (c.toNat - '0'.toNat)
  else if 'a' ≤ c ∧ c ≤ 'f' then some (c.toNat - 'a'.toNat + 10)
  else if 'A' ≤ c ∧ c ≤ 'F' then some (c.toNat - 'A'.toNat + 10)
  else none

def hexDecode : Text → Option (List UInt8)
  | [] => some []
  | [_] => none
  | a :: b :: rest => do
    let hi ← hexDigit a
    let lo ← hexDigit b
    let bytes ← hexDecode rest
    return UInt8.ofNat (16 * hi + lo) :: bytes

def decodeCsrfToken (s : Text) : Option (List UInt8) := hexDecode (Str.trim s)

def csrfTokensMatch (provided stored : List UInt8) : Bool :=
  if provided.length ≠ stored.length then false else provided == stored

section Extractors

variable (X : Crates) (cfg : ConsoleConfig)

/-- A later cookie of the same name replaces an earlier one. -/
def cookieJar (cookieHeader : Text) : AList (fun _ : Text => Text) :=
  (Str.splitChar ';' cookieHeader).foldl (fun jar s =>
    match X.parseCookie (Str.trim s) with
    | some (name, value) => jar.insert name value
    | none => jar) ∅

def extractSessionId (headers : Headers) (secret : Text) : Option (List UInt8) := do
  let value ← headers.lookup "cookie".toList
  let cookieHeader ← ClientAuth.headerToStr value
  let signed ← (cookieJar X cookieHeader).lookup sessionCookie
  let value ← X.verifyCookie secret signed
  hexDecode value

def ConsoleConfig.idleTimeoutHours : Int :=
  cfg.sessionIdleTimeoutHours.getD cfg.sessionTtlHours

/-- A time that does not parse is the epoch. -/
def instant (rfc3339 : Text) : Int := (X.parseRfc3339 rfc3339).getD 0

def hours (n : Int) : Int := n * (3600 * 10 ^ 9)

/-- The lookup that both extractors make: the user and the CSRF token of the session, and whether the
session is missing or over. -/
def sessionUser (db : ConsoleDb) (sid : List UInt8) (now touched : Int) :
    ConsoleDb × Except Text (Option User × Option (List UInt8) × Bool) :=
  match db.sessionById sid with
  | .error e => (db, .error e)
  | .ok none => (db, .ok (none, none, true))
  | .ok (some session) =>
    if now > instant X session.expiresAt then (db.deleteSession sid, .ok (none, none, true))
    else if instant X session.lastSeenAt < now - hours cfg.idleTimeoutHours then
      (db.deleteSession sid, .ok (none, none, true))
    else
      let db := db.touchSession (X.toRfc3339 touched) sid
      match db.userById session.userId with
      | .error e => (db, .error e)
      | .ok user => (db, .ok (user, session.csrfToken, false))

def requireUser (user : Option User) (expired : Bool) : Except AuthError User :=
  if expired then .error ⟨401, "session expired".toList⟩
  else
    match user with
    | none => .error ⟨401, "user not found".toList⟩
    | some user => if user.disabled then .error ⟨401, "account disabled".toList⟩ else .ok user

/-- `CurrentUser::from_request_parts`. The clock is read once for the checks and once to mark the
session as seen. -/
def CurrentUser.fromRequestParts (db : ConsoleDb) (headers : Headers) (now touched : Int) :
    ConsoleDb × Except AuthError User :=
  match extractSessionId X headers cfg.sessionSecret with
  | none => (db, .error ⟨401, "no session".toList⟩)
  | some sid =>
    let (db, found) := sessionUser X cfg db sid now touched
    match found with
    | .error e => (db, .error ⟨500, e⟩)
    | .ok (user, _, expired) => (db, requireUser user expired)

def requireCsrf (provided stored : Option (List UInt8)) : Except AuthError Unit :=
  match stored, provided with
  | none, _ => .error ⟨403, "csrf token missing from session".toList⟩
  | some _, none => .error ⟨403, "csrf token missing".toList⟩
  | some stored, some provided =>
    if csrfTokensMatch provided stored then .ok ()
    else .error ⟨403, "csrf token mismatch".toList⟩

/-- `MutatingUser::from_request_parts`: the user and the session id. -/
def MutatingUser.fromRequestParts (db : ConsoleDb) (headers : Headers) (now touched : Int) :
    ConsoleDb × Except AuthError (User × List UInt8) :=
  match extractSessionId X headers cfg.sessionSecret with
  | none => (db, .error ⟨401, "no session".toList⟩)
  | some sid =>
    let provided := ((headers.lookup csrfHeader).bind ClientAuth.headerToStr).bind decodeCsrfToken
    let (db, found) := sessionUser X cfg db sid now touched
    match found with
    | .error e => (db, .error ⟨500, e⟩)
    | .ok (user, csrf, expired) => (db, do
        let user ← requireUser user expired
        requireCsrf provided csrf
        return (user, sid))

/-! ## What a lookup comes to -/

inductive SessionStatus where
  | noSession
  | unreadable (error : Text)
  | expired
  | noUser
  | disabled
  | live (user : User)
  deriving DecidableEq, Repr

/-- The session is in the table and neither past its end nor idle for too long. -/
def Session.Current (session : Session) (now : Int) : Prop :=
  now ≤ instant X session.expiresAt ∧
    now - hours cfg.idleTimeoutHours ≤ instant X session.lastSeenAt

instance (session : Session) (now : Int) : Decidable (session.Current X cfg now) :=
  inferInstanceAs (Decidable (_ ∧ _))

def userStatus : Except Text (Option User) → SessionStatus
  | .error e => .unreadable e
  | .ok none => .noUser
  | .ok (some user) => if user.disabled then .disabled else .live user

def sessionStatus (db : ConsoleDb) (headers : Headers) (now : Int) : SessionStatus :=
  match extractSessionId X headers cfg.sessionSecret with
  | none => .noSession
  | some sid =>
    match db.sessionById sid with
    | .error e => .unreadable e
    | .ok none => .expired
    | .ok (some session) =>
      if session.Current X cfg now then userStatus (db.userById session.userId) else .expired

def SessionStatus.refusal : SessionStatus → Option AuthError
  | .noSession => some ⟨401, "no session".toList⟩
  | .unreadable e => some ⟨500, e⟩
  | .expired => some ⟨401, "session expired".toList⟩
  | .noUser => some ⟨401, "user not found".toList⟩
  | .disabled => some ⟨401, "account disabled".toList⟩
  | .live _ => none

/-- The request carries a session that is current, of a user who is not disabled. -/
def HasLiveSession (db : ConsoleDb) (headers : Headers) (now : Int) : Prop :=
  ∃ session ∈ db.sessions, ∃ user ∈ db.users,
    extractSessionId X headers cfg.sessionSecret = some session.id ∧ session.Current X cfg now ∧
      user.id = session.userId ∧ user.disabled = false

end Extractors

section Status

variable {X : Crates} {cfg : ConsoleConfig} {db : ConsoleDb} {headers : Headers} {now : Int}

theorem SessionStatus.refusal_injective {s s' : SessionStatus} (h : s.refusal = s'.refusal)
    (hs : s.refusal.isSome) : s = s' := by
  cases s <;> cases s' <;> simp_all [SessionStatus.refusal]

theorem sessionUser_of_session {sid : List UInt8} {session : Session} (touched : Int)
    (hfind : db.sessionById sid = .ok (some session)) :
    (sessionUser X cfg db sid now touched).2 =
      if session.Current X cfg now then
        (db.userById session.userId).map fun user => (user, session.csrfToken, false)
      else .ok (none, none, true) := by
  unfold sessionUser
  rw [hfind]
  dsimp only
  split_ifs with hexpired hcurrent hidle hcurrent hcurrent
  · exact absurd hcurrent.1 (Int.not_le.2 hexpired)
  · rfl
  · exact absurd hcurrent.2 (Int.not_le.2 hidle)
  · rfl
  · rw [ConsoleDb.userById_touchSession]
    cases db.userById session.userId <;> rfl
  · exact absurd ⟨Int.not_lt.1 hexpired, Int.not_lt.1 hidle⟩ hcurrent

def foundStatus : Except Text (Option User × Option (List UInt8) × Bool) → SessionStatus
  | .error e => .unreadable e
  | .ok (user, _, expired) => if expired then .expired else userStatus (.ok user)

theorem sessionStatus_of_sid {sid : List UInt8} (touched : Int)
    (hsid : extractSessionId X headers cfg.sessionSecret = some sid) :
    sessionStatus X cfg db headers now =
      foundStatus (sessionUser X cfg db sid now touched).2 := by
  unfold sessionStatus
  rw [hsid]
  dsimp only
  cases hfind : db.sessionById sid with
  | error e =>
    unfold sessionUser
    rw [hfind]
    rfl
  | ok found =>
    cases found with
    | none =>
      unfold sessionUser
      rw [hfind]
      rfl
    | some session =>
      rw [sessionUser_of_session touched hfind]
      dsimp only
      split
      · cases db.userById session.userId <;> rfl
      · rfl

theorem requireUser_of_refusal {user : Option User} {csrf : Option (List UInt8)} {expired : Bool}
    {e : AuthError} (h : (foundStatus (.ok (user, csrf, expired))).refusal = some e) :
    requireUser user expired = .error e := by
  cases expired with
  | true =>
    cases h
    rfl
  | false =>
    cases user with
    | none =>
      cases h
      rfl
    | some user =>
      cases hdisabled : user.disabled with
      | true =>
        simp only [foundStatus, userStatus, requireUser, hdisabled] at h ⊢
        cases h
        rfl
      | false => simp [foundStatus, userStatus, hdisabled, SessionStatus.refusal] at h

theorem refused_of_status {e : AuthError} (touched : Int)
    (h : (sessionStatus X cfg db headers now).refusal = some e) :
    (CurrentUser.fromRequestParts X cfg db headers now touched).2 = .error e ∧
      (MutatingUser.fromRequestParts X cfg db headers now touched).2 = .error e := by
  unfold CurrentUser.fromRequestParts MutatingUser.fromRequestParts
  cases hsid : extractSessionId X headers cfg.sessionSecret with
  | none =>
    unfold sessionStatus at h
    rw [hsid] at h
    cases h
    exact ⟨rfl, rfl⟩
  | some sid =>
    rw [sessionStatus_of_sid touched hsid] at h
    dsimp only
    cases hfound : (sessionUser X cfg db sid now touched).2 with
    | error err =>
      rw [hfound] at h
      cases h
      exact ⟨rfl, rfl⟩
    | ok found =>
      rw [hfound] at h
      dsimp only
      rw [requireUser_of_refusal h]
      exact ⟨rfl, rfl⟩

theorem of_userStatus_live {row : Except Text (Option User)} {user : User}
    (h : userStatus row = .live user) : row = .ok (some user) ∧ user.disabled = false := by
  unfold userStatus at h
  split at h
  · cases h
  · cases h
  split at h
  · cases h
  · rename_i henabled
    cases h
    exact ⟨rfl, Bool.eq_false_iff.2 henabled⟩

theorem of_sessionStatus_live {user : User} (h : sessionStatus X cfg db headers now = .live user) :
    HasLiveSession X cfg db headers now := by
  unfold sessionStatus at h
  split at h
  · cases h
  rename_i sid hsid
  split at h
  · cases h
  · cases h
  rename_i session hfind
  split at h
  · rename_i hcurrent
    obtain ⟨huser, henabled⟩ := of_userStatus_live h
    obtain ⟨hmem, hid⟩ := of_queryRow hfind
    obtain ⟨humem, huid⟩ := of_queryRow huser
    exact ⟨session, hmem, user, humem, by rw [hsid, hid], hcurrent, huid, henabled⟩
  · cases h

theorem refusal_of_no_session (h : ¬ HasLiveSession X cfg db headers now) :
    ∃ e, (sessionStatus X cfg db headers now).refusal = some e := by
  cases hstatus : sessionStatus X cfg db headers now with
  | live user => exact absurd (of_sessionStatus_live hstatus) h
  | _ => exact ⟨_, rfl⟩

end Status

end Nanoguard.Console

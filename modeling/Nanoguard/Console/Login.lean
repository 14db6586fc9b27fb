import Nanoguard.Console.Auth
import Nanoguard.Lib.Utf8

/-!
# Logins, password resets and the background prune

The handlers `api_login` and `api_reset_user_password` and one round of the task that prunes old rows,
as threads over the tables of the console. One statement or one transaction is a step; what a handler
computes in between is a step of its own where it reads the clock or takes time.
-/

namespace Nanoguard.Console

open ClientAuth (headerToStr)
open Threads

/-! ## The tables -/

structure LoginAttempt where
  username : Text
  ip : Option Text
  attemptedAt : Text
  deriving DecidableEq, Repr

structure LoginDb extends ConsoleDb where
  attempts : List LoginAttempt
  /-- what a query of the attempts fails with, if it does -/
  attemptsError : Option Text

namespace LoginDb

variable (db : LoginDb)

/-- The database as it answers when every statement fails with the error, or none does. -/
def connected (error : Option Text) : LoginDb :=
  { db with
    usersError := error
    sessionsError := error
    attemptsError := error
    writable := error.isNone }

def userByUsername (username : Text) : Except Text (Option User) :=
  queryRow db.usersError db.users User.username username

def row (username : Text) : Option User :=
  db.users.find? fun user => decide (user.username = username)

def updateUser (id : Int) (f : User → User) (hf : ∀ user, (f user).id = user.id) : LoginDb :=
  if db.writable then
    { db with
      users := db.users.map fun user => if user.id = id then f user else user
      userIds_nodup := by
        have hids : (User.id ∘ fun user => if user.id = id then f user else user) = User.id := by
          funext user
          rw [Function.comp_apply]
          split
          · exact hf user
          · rfl
        rw [List.map_map, hids]
        exact db.userIds_nodup }
  else db

def setLockedUntil (id : Int) (until_ : Option Text) : LoginDb :=
  db.updateUser id (fun user => { user with lockedUntil := until_ }) fun _ => rfl

def setPasswordHash (id : Int) (hash : List UInt8) : LoginDb :=
  db.updateUser id (fun user => { user with passwordHash := some hash }) fun _ => rfl

def updateLastLogin (id : Int) (now : Text) : LoginDb :=
  db.updateUser id (fun user => { user with lastLoginAt := some now }) fun _ => rfl

def recordLoginAttempt (username : Text) (ip : Option Text) (now : Text) : LoginDb :=
  if db.writable then { db with attempts := db.attempts ++ [⟨username, ip, now⟩] } else db

def countAttempts (p : LoginAttempt → Bool) (since : Text) : Except Text Nat :=
  match db.attemptsError with
  | some e => .error e
  | none => .ok (db.attempts.countP fun a => p a && decide (since < a.attemptedAt))

def countRecentLoginAttempts (username since : Text) : Except Text Nat :=
  db.countAttempts (fun a => decide (a.username = username)) since

def countRecentLoginAttemptsByIp (ip since : Text) : Except Text Nat :=
  db.countAttempts (fun a => decide (a.ip = some ip)) since

def deleteAttempts (p : LoginAttempt → Bool) : LoginDb :=
  if db.writable then { db with attempts := db.attempts.filter fun a => !p a } else db

def clearLoginAttempts (username : Text) : LoginDb :=
  db.deleteAttempts fun a => decide (a.username = username)

def pruneOldLoginAttempts (since : Text) : LoginDb :=
  db.deleteAttempts fun a => decide (a.attemptedAt < since)

/-- `INSERT INTO user_sessions`: an id that is taken is an error. -/
def createSession (session : Session) : Option LoginDb :=
  if h : db.writable = true ∧ session.id ∉ db.sessions.map Session.id then
    some { db with
      sessions := db.sessions ++ [session]
      sessionIds_nodup := by
        rw [List.map_append]
        exact db.sessionIds_nodup.append (List.nodup_singleton _) (by simpa using h.2) }
  else none

def deleteSessions (p : Session → Bool) : LoginDb :=
  if db.writable then
    { db with
      sessions := db.sessions.filter fun s => !p s
      sessionIds_nodup := db.sessionIds_nodup.sublist (List.filter_sublist.map _) }
  else db

def deleteUserSessions (userId : Int) : LoginDb :=
  db.deleteSessions fun s => decide (s.userId = userId)

def pruneExpiredSessions (now : Text) : LoginDb :=
  db.deleteSessions fun s => decide (s.expiresAt < now)

def pruneIdleSessions (cutoff : Text) : LoginDb :=
  db.deleteSessions fun s => decide (s.lastSeenAt < cutoff)

def rotateCsrfToken (id newToken : List UInt8) : LoginDb :=
  if db.writable then
    { db with
      sessions := db.sessions.map fun s => if s.id = id then { s with csrfToken := some newToken } else s
      sessionIds_nodup := by
        have hids : (Session.id ∘ fun s =>
            if s.id = id then { s with csrfToken := some newToken } else s) = Session.id := by
          funext s
          rw [Function.comp_apply]
          split <;> rfl
        rw [List.map_map, hids]
        exact db.sessionIds_nodup }
  else db

def resetPassword (id : Int) (hash : List UInt8) : Option LoginDb :=
  if db.writable then some ((db.setPasswordHash id hash).deleteUserSessions id) else none

variable {db}

theorem row_of_userByUsername {username : Text} {user : User}
    (h : db.userByUsername username = .ok (some user)) : db.row username = some user := by
  unfold userByUsername queryRow at h
  split at h
  · cases h
  · exact Except.ok.inj h

theorem username_of_row {username : Text} {user : User} (h : db.row username = some user) :
    user.username = username := by
  have hfind : (db.users.find? fun user => decide (user.username = username)) = some user := h
  have hname := List.find?_some hfind
  rwa [decide_eq_true_eq] at hname

end LoginDb

/-! ## What the handlers use -/

structure LoginCrates extends Crates where
  /-- whether a text is an argon2 hash of the password -/
  argon2Verify : Text → Text → Bool
  /-- `str::to_lowercase` -/
  toLowercase : Text → Text

structure LoginConfig extends ConsoleConfig where
  maxLoginAttempts : Int
  lockoutDurationMinutes : Int

def minutes (n : Int) : Int := n * (60 * 10 ^ 9)

/-- What a step gets from outside: the clock, what the database fails with if it does, and what is
drawn at random. -/
structure Tick where
  now : Int
  dbError : Option Text
  sessionId : List UInt8
  csrfToken : List UInt8
  /-- `hash_password` of the new password, with the salt drawn -/
  hashed : Except Text (List UInt8)

def verifyPassword (X : LoginCrates) (password : Text) (hash : List UInt8) : Bool :=
  match Utf8.decode hash with
  | none => false
  | some hash => X.argon2Verify password hash

def commonPasswords : List Text :=
  ["password123456".toList, "123456789012".toList, "qwertyuiop[]".toList, "letmein1234567".toList,
    "welcome1234567".toList, "adminadminadmin".toList, "nanoguard12345".toList]

def isCommonPassword (X : LoginCrates) (password : Text) : Bool :=
  commonPasswords.any fun p => X.toLowercase p == X.toLowercase password

/-! ## Logins -/

structure LoginCall where
  headers : Headers
  username : Text
  password : Text
  deriving DecidableEq, Repr

def LoginCall.ip (call : LoginCall) : Option Text :=
  ((call.headers.lookup "x-forwarded-for".toList).or
    (call.headers.lookup "x-real-ip".toList)).bind headerToStr

def LoginCall.userAgent (call : LoginCall) : Option Text :=
  (call.headers.lookup "user-agent".toList).bind headerToStr

/-- A call of `verify_password`, kept to speak about a run. -/
structure PasswordCheck where
  hash : List UInt8
  time : Int
  correct : Bool
  deriving DecidableEq, Repr

inductive LoginReply where
  | refused (status : Nat) (error : Text)
  | loggedIn (user : User) (session : Session)
  deriving DecidableEq, Repr

/-- How far a login has come: what it has done last, with the row that it has read. -/
inductive LoginStage where
  | start
  | ipPassed
  | found (user : User)
  | unlocked (user : User) (hash : List UInt8)
  /-- there is nothing to check the password against -/
  | unchecked (username : Text)
  | wrong (user : User) (check : PasswordCheck)
  | recorded (user : User) (check : PasswordCheck)
  | locking (user : User) (check : PasswordCheck)
  | lockUntil (user : User) (check : PasswordCheck) (until_ : Text)
  | correct (user : User) (check : PasswordCheck)
  | attemptsCleared (user : User) (check : PasswordCheck)
  | lockCleared (user : User) (check : PasswordCheck)
  | lastLoginSet (user : User) (check : PasswordCheck)
  | drawn (user : User) (check : PasswordCheck) (id csrfToken : List UInt8) (expiresAt : Text)
  | done (check : Option PasswordCheck) (reply : LoginReply)
  deriving DecidableEq, Repr

def LoginStage.check : LoginStage → Option PasswordCheck
  | .wrong _ c | .recorded _ c | .locking _ c | .lockUntil _ c _ | .correct _ c
  | .attemptsCleared _ c | .lockCleared _ c | .lastLoginSet _ c | .drawn _ c _ _ _ => some c
  | .done c _ => c
  | .start | .ipPassed | .found _ | .unlocked _ _ | .unchecked _ => none

/-- An account is locked by a time that parses and is to come. -/
def isLocked (X : Crates) (now : Int) (lockedUntil : Option Text) : Bool :=
  match lockedUntil.bind X.parseRfc3339 with
  | some t => decide (now < t)
  | none => false

section Handlers

variable (X : LoginCrates) (cfg : LoginConfig) (inp : Tick)

def lockoutSince : Text := X.toRfc3339 (inp.now - minutes cfg.lockoutDurationMinutes)

def sessionOf (call : LoginCall) (user : User) (id csrfToken : List UInt8) (expiresAt : Text) :
    Session where
  id := id
  userId := user.id
  createdAt := X.toRfc3339 inp.now
  expiresAt := expiresAt
  lastSeenAt := X.toRfc3339 inp.now
  userAgent := call.userAgent
  ip := call.ip
  csrfToken := some csrfToken

def refuse (check : Option PasswordCheck) (status : Nat) (error : String) : LoginStage :=
  .done check (.refused status error.toList)

def loginStep (call : LoginCall) (db : LoginDb) : LoginStage → LoginDb × LoginStage
  | .start =>
    if cfg.sessionSecret.isEmpty then
      (db, refuse none 503 "console session_secret not configured")
    else
      match call.ip with
      | none => (db, .ipPassed)
      | some ip =>
        let ipCount : Nat :=
          (db.countRecentLoginAttemptsByIp ip (lockoutSince X cfg inp)).toOption.getD 0
        if ipCount ≥ cfg.maxLoginAttempts then
          (db, refuse none 429 "too many requests from this IP")
        else (db, .ipPassed)
  | .ipPassed =>
    match db.userByUsername call.username with
    | .error _ => (db, refuse none 500 "internal error")
    | .ok none => (db, .unchecked call.username)
    | .ok (some user) => (db, .found user)
  | .found user =>
    if isLocked X.toCrates inp.now user.lockedUntil then (db, refuse none 429 "account locked")
    else if user.disabled then (db, refuse none 401 "account disabled")
    else
      match user.passwordHash with
      | none => (db, .unchecked user.username)
      | some hash => (db, .unlocked user hash)
  | .unchecked username =>
    (db.recordLoginAttempt username call.ip (X.toRfc3339 inp.now),
      refuse none 401 "invalid credentials")
  | .unlocked user hash =>
    if verifyPassword X call.password hash then (db, .correct user ⟨hash, inp.now, true⟩)
    else (db, .wrong user ⟨hash, inp.now, false⟩)
  | .wrong user check =>
    (db.recordLoginAttempt user.username call.ip (X.toRfc3339 inp.now), .recorded user check)
  | .recorded user check =>
    match db.countRecentLoginAttempts user.username (lockoutSince X cfg inp) with
    | .error _ => (db, refuse (some check) 401 "invalid credentials")
    | .ok count =>
      if (count : Int) ≥ cfg.maxLoginAttempts then (db, .locking user check)
      else (db, refuse (some check) 401 "invalid credentials")
  | .locking user check =>
    -- the clock is read before the database is taken
    (db, .lockUntil user check (X.toRfc3339 (inp.now + minutes cfg.lockoutDurationMinutes)))
  | .lockUntil user check until_ =>
    (db.setLockedUntil user.id (some until_), refuse (some check) 429 "account locked")
  | .correct user check => (db.clearLoginAttempts user.username, .attemptsCleared user check)
  | .attemptsCleared user check => (db.setLockedUntil user.id none, .lockCleared user check)
  | .lockCleared user check =>
    (db.updateLastLogin user.id (X.toRfc3339 inp.now), .lastLoginSet user check)
  | .lastLoginSet user check =>
    (db, .drawn user check inp.sessionId inp.csrfToken
      (X.toRfc3339 (inp.now + hours cfg.sessionTtlHours)))
  | .drawn user check id csrfToken expiresAt =>
    let session := sessionOf X inp call user id csrfToken expiresAt
    match db.createSession session with
    | none => (db, refuse (some check) 500 "session creation failed")
    | some db => (db, .done (some check) (.loggedIn user session))
  | .done check reply => (db, .done check reply)

/-! ### What a step of a login can do -/

/-- The answer to a wrong password that does not lock the account. -/
def invalidCredentials : LoginReply := .refused 401 "invalid credentials".toList

inductive LoginMove (X : LoginCrates) (cfg : LoginConfig) (inp : Tick) (call : LoginCall) (db : LoginDb) :
    LoginStage → LoginDb × LoginStage → Prop
  | refuse {stage : LoginStage} {reply : LoginReply} (hcheck : stage.check = none) :
    LoginMove X cfg inp call db stage (db, .done none reply)
  | ipPassed : LoginMove X cfg inp call db .start (db, .ipPassed)
  | unknown : LoginMove X cfg inp call db .ipPassed (db, .unchecked call.username)
  | read {r : User} (hrow : db.row call.username = some r) :
    LoginMove X cfg inp call db .ipPassed (db, .found r)
  | noHash {r : User} : LoginMove X cfg inp call db (.found r) (db, .unchecked r.username)
  | unlocked {r : User} {hash : List UInt8}
    (hfree : isLocked X.toCrates inp.now r.lockedUntil = false) :
    LoginMove X cfg inp call db (.found r) (db, .unlocked r hash)
  | recordUnchecked {username : Text} :
    LoginMove X cfg inp call db (.unchecked username)
      (db.recordLoginAttempt username call.ip (X.toRfc3339 inp.now), .done none invalidCredentials)
  | wrong {r : User} {hash : List UInt8} :
    LoginMove X cfg inp call db (.unlocked r hash) (db, .wrong r ⟨hash, inp.now, false⟩)
  | correct {r : User} {hash : List UInt8} (hverify : verifyPassword X call.password hash = true) :
    LoginMove X cfg inp call db (.unlocked r hash) (db, .correct r ⟨hash, inp.now, true⟩)
  | record {r : User} {c : PasswordCheck} :
    LoginMove X cfg inp call db (.wrong r c)
      (db.recordLoginAttempt r.username call.ip (X.toRfc3339 inp.now), .recorded r c)
  | spare {r : User} {c : PasswordCheck} {n : Nat}
    (hcount : db.countRecentLoginAttempts r.username (lockoutSince X cfg inp) = .ok n)
    (hlt : (n : Int) < cfg.maxLoginAttempts) :
    LoginMove X cfg inp call db (.recorded r c) (db, .done (some c) invalidCredentials)
  | uncounted {r : User} {c : PasswordCheck} (herror : db.attemptsError.isSome = true) :
    LoginMove X cfg inp call db (.recorded r c) (db, .done (some c) invalidCredentials)
  | lock {r : User} {c : PasswordCheck} :
    LoginMove X cfg inp call db (.recorded r c) (db, .locking r c)
  | clock {r : User} {c : PasswordCheck} :
    LoginMove X cfg inp call db (.locking r c)
      (db, .lockUntil r c (X.toRfc3339 (inp.now + minutes cfg.lockoutDurationMinutes)))
  | locked {r : User} {c : PasswordCheck} {until_ : Text} :
    LoginMove X cfg inp call db (.lockUntil r c until_)
      (db.setLockedUntil r.id (some until_), refuse (some c) 429 "account locked")
  | clearAttempts {r : User} {c : PasswordCheck} :
    LoginMove X cfg inp call db (.correct r c)
      (db.clearLoginAttempts r.username, .attemptsCleared r c)
  | clearLock {r : User} {c : PasswordCheck} :
    LoginMove X cfg inp call db (.attemptsCleared r c) (db.setLockedUntil r.id none, .lockCleared r c)
  | lastLogin {r : User} {c : PasswordCheck} {now : Text} :
    LoginMove X cfg inp call db (.lockCleared r c) (db.updateLastLogin r.id now, .lastLoginSet r c)
  | draw {r : User} {c : PasswordCheck} {id csrfToken : List UInt8} {expiresAt : Text} :
    LoginMove X cfg inp call db (.lastLoginSet r c) (db, .drawn r c id csrfToken expiresAt)
  | create {r : User} {c : PasswordCheck} {id csrfToken : List UInt8} {expiresAt : Text} {db' : LoginDb}
    {session : Session} (huser : session.userId = r.id) (hid : session.id = id)
    (hcreated : db.createSession session = some db') :
    LoginMove X cfg inp call db (.drawn r c id csrfToken expiresAt)
      (db', .done (some c) (.loggedIn r session))
  | notCreated {r : User} {c : PasswordCheck} {id csrfToken : List UInt8} {expiresAt : Text} :
    LoginMove X cfg inp call db (.drawn r c id csrfToken expiresAt)
      (db, refuse (some c) 500 "session creation failed")
  | done {check : Option PasswordCheck} {reply : LoginReply} :
    LoginMove X cfg inp call db (.done check reply) (db, .done check reply)

variable {X cfg inp} in
theorem loginStep_move {call : LoginCall} {db : LoginDb} {stage : LoginStage} :
    LoginMove X cfg inp call db stage (loginStep X cfg inp call db stage) := by
  cases stage with
  | start =>
    unfold loginStep
    dsimp only
    split
    · exact .refuse rfl
    split
    · exact .ipPassed
    · split
      · exact .refuse rfl
      · exact .ipPassed
  | ipPassed =>
    unfold loginStep
    dsimp only
    split
    next => exact .refuse rfl
    next => exact .unknown
    next hrow => exact .read (LoginDb.row_of_userByUsername hrow)
  | found r =>
    unfold loginStep
    dsimp only
    split
    · exact .refuse rfl
    next hfree =>
      split
      · exact .refuse rfl
      · split
        · exact .noHash
        · exact .unlocked (Bool.eq_false_iff.2 hfree)
  | unlocked r hash =>
    unfold loginStep
    dsimp only
    split
    next hverify => exact .correct hverify
    next => exact .wrong
  | unchecked username => exact .recordUnchecked
  | wrong r c => exact .record
  | recorded r c =>
    unfold loginStep
    dsimp only
    cases hcount : db.countRecentLoginAttempts r.username (lockoutSince X cfg inp) with
    | error e =>
      refine .uncounted ?_
      unfold LoginDb.countRecentLoginAttempts LoginDb.countAttempts at hcount
      split at hcount
      next herror =>
        rw [herror]
        rfl
      next => cases hcount
    | ok n =>
      dsimp only
      split
      · exact .lock
      next hlt => exact .spare hcount (Int.not_le.1 hlt)
  | locking r c => exact .clock
  | lockUntil r c until_ => exact .locked
  | correct r c => exact .clearAttempts
  | attemptsCleared r c => exact .clearLock
  | lockCleared r c => exact .lastLogin
  | lastLoginSet r c => exact .draw
  | drawn r c id csrfToken expiresAt =>
    unfold loginStep
    dsimp only
    split
    next => exact .notCreated
    next hcreated => exact .create rfl rfl hcreated
  | done check reply => exact .done

/-! ## Password resets -/

structure ResetCall where
  admin : User
  sessionId : List UInt8
  id : Int
  password : Text
  deriving DecidableEq, Repr

inductive ResetStage where
  | start
  | target (user : User)
  | hashed (user : User) (hash : List UInt8)
  | stored (user : User) (hash : List UInt8)
  | done (reply : Except (Nat × Text) (Int × Text))

def ResetCall.check (call : ResetCall) : Except (Nat × Text) Unit := do
  requireAdmin call.admin
  if Str.len call.password < 12 then
    .error (400, "password must be at least 12 characters".toList)
  if isCommonPassword X call.password then .error (400, "password is too common".toList)

def resetStep (call : ResetCall) (db : LoginDb) : ResetStage → LoginDb × ResetStage
  | .start =>
    match call.check X with
    | .error e => (db, .done (.error e))
    | .ok () =>
      match db.userById call.id with
      | .error _ => (db, .done (.error (500, "internal error".toList)))
      | .ok none => (db, .done (.error (404, "user not found".toList)))
      | .ok (some user) => (db, .target user)
  | .target user =>
    match inp.hashed with
    | .error _ => (db, .done (.error (500, "password hash failed".toList)))
    | .ok hash => (db, .hashed user hash)
  | .hashed user hash =>
    match db.resetPassword user.id hash with
    | none => (db, .done (.error (500, "failed to reset password".toList)))
    | some db => (db, .stored user hash)
  | .stored user _ =>
    (db.rotateCsrfToken call.sessionId inp.csrfToken, .done (.ok (user.id, user.username)))
  | .done reply => (db, .done reply)

/-! ## The background prune -/

/-- What is left of a round. -/
inductive PruneStage where
  | expiredSessions
  | idleSessions
  | loginAttempts
  | done
  deriving DecidableEq, Repr

def pruneStep (db : LoginDb) : PruneStage → LoginDb × PruneStage
  | .expiredSessions => (db.pruneExpiredSessions (X.toRfc3339 inp.now), .idleSessions)
  | .idleSessions =>
    (db.pruneIdleSessions (X.toRfc3339 (inp.now - hours cfg.idleTimeoutHours)), .loginAttempts)
  | .loginAttempts =>
    (db.pruneOldLoginAttempts (X.toRfc3339 (inp.now - minutes (cfg.lockoutDurationMinutes * 2))), .done)
  | .done => (db, .done)

/-! ## The threads -/

inductive ConsoleCall where
  | login (call : LoginCall)
  | reset (call : ResetCall)
  | prune

inductive ConsoleTask where
  | login (call : LoginCall) (stage : LoginStage)
  | reset (call : ResetCall) (stage : ResetStage)
  | prune (stage : PruneStage)

structure LoginState where
  db : LoginDb
  clock : Int

def taskStep (db : LoginDb) : ConsoleTask → LoginDb × ConsoleTask
  | .login call stage =>
    let q := loginStep X cfg inp call db stage
    (q.1, .login call q.2)
  | .reset call stage =>
    let q := resetStep X inp call db stage
    (q.1, .reset call q.2)
  | .prune stage =>
    let q := pruneStep X cfg inp db stage
    (q.1, .prune q.2)

def consoleProgram : Program LoginState ConsoleTask ConsoleCall Tick where
  start
    | .login call => .login call .start
    | .reset call => .reset call .start
    | .prune => .prune .expiredSessions
  step inp st t :=
    let q := taskStep X cfg inp (st.db.connected inp.dbError) t
    (⟨q.1, inp.now⟩, q.2)

end Handlers

end Nanoguard.Console

import Nanoguard.Console.Db
import Nanoguard.Reload.Snapshot

/-!
# Revoking tokens from the console

The console and the proxy share the table of tokens, but the proxy keeps verified tokens in a cache.
After a revoke the console asks for the cache to be flushed, over the socket; if there is only a file
with the process id it sends a signal, and the reload keeps the cache.
-/

namespace Nanoguard.Console

open ClientAuth (AuthConfig AuthRequest CachedToken ClientTokenRow Crypto PrefixedToken Table
  TokenCache TokenRecord Verdict extractBearer httpsMissing isExpired judge verifyRequest wirePrefix)
open Reload (LiveState RuntimeHandles World buildLive)

/-! ## Telling the proxy -/

structure ReloadConfig where
  enabled : Bool
  pidFile : Option Text
  socket : Option Text
  deriving DecidableEq, Repr

structure ReloadOutcome where
  triggered : Bool
  method : Text
  error : Option Text
  deriving DecidableEq, Repr

/-- What the console gets from the outside: the line that is answered on a socket, and whether a
signal could be sent to the process of a file. -/
structure Channel where
  exchange : Text → Text → Except Text Text
  kill : Text → Except Text Unit

def triggerViaSocket (ch : Channel) (socketPath command : Text) : Except Text Unit := do
  let line ← ch.exchange socketPath (command ++ ['\n'])
  let resp := Str.trim line
  match Str.stripPrefix "ERR".toList resp with
  | some rest => .error ("proxy returned error:".toList ++ rest)
  | none =>
    if "OK".toList <+: resp then .ok ()
    else .error ("unexpected proxy response: ".toList ++ resp)

def ReloadOutcome.of (method : String) : Except Text Unit → ReloadOutcome
  | .ok () => ⟨true, method.toList, none⟩
  | .error e => ⟨false, method.toList, some e⟩

/-- `dispatch_blocking`. A signal carries no command. -/
def dispatchBlocking (ch : Channel) (cfg : ReloadConfig) (command : Text) : ReloadOutcome :=
  match cfg.socket with
  | some socketPath => .of "socket" (triggerViaSocket ch socketPath command)
  | none =>
    match cfg.pidFile with
    | some pidFile => .of "sighup" (ch.kill pidFile)
    | none => .of "none" (.error
        "no reload method configured (set reload.pid_file or reload.socket)".toList)

def triggerInvalidateTokens (ch : Channel) (cfg : ReloadConfig) : ReloadOutcome :=
  dispatchBlocking ch cfg "INVALIDATE_TOKENS".toList

inductive Notification where
  | line (line : Text)
  | hangup
  deriving DecidableEq, Repr

/-- What a dispatch sends, if it comes through. -/
def notificationOf (cfg : ReloadConfig) (command : Text) : Option Notification :=
  match cfg.socket with
  | some _ => some (.line (command ++ ['\n']))
  | none => cfg.pidFile.map fun _ => .hangup

/-! ## The proxy -/

/-- The proxy: its state, and the table and the cache behind the client-auth handle. -/
structure Process where
  live : LiveState
  auth : ClientAuth.Shared

namespace Process

variable (w : World) (runtime : RuntimeHandles) (p : Process)

def reloadOnce : Process × Except Text Unit :=
  match w.readConfig with
  | .error e => (p, .error e)
  | .ok cfg =>
    match buildLive w.files cfg runtime with
    | .error e => (p, .error e)
    | .ok st => ({ p with live := st }, .ok ())

/-- The task for the signal and a connection to the socket. An error is what is answered after
`ERR`. -/
def receive : Notification → Process × Except Text Unit
  | .hangup => p.reloadOnce w runtime
  | .line line =>
    let line := Str.trim line
    if line = "RELOAD".toList then p.reloadOnce w runtime
    else if line = "INVALIDATE_TOKENS".toList then
      match p.live.handles.clientAuth with
      | some _ => ({ p with auth := p.auth.invalidateAllCached }, .ok ())
      | none => (p, .ok ())
    else (p, .error "expected RELOAD or INVALIDATE_TOKENS".toList)

def verify (C : Crypto) (req : AuthRequest) (tGet tInsert tCheck : Nat) : Verdict :=
  (verifyRequest C (p.live.handles.clientAuth.map (·.config)) p.auth req tGet tInsert tCheck).2

end Process

/-! ## The handlers -/

/-- A revoke, by a user for a token of theirs or by an administrator for all tokens of a user. -/
inductive Revoke where
  | token (user : User) (id : Int)
  | allOf (admin : User) (userId : Int)

def Revoke.selects : Revoke → ClientTokenRow → Bool
  | .token _ id, row => row.id == id
  | .allOf _ userId, row => row.userId == userId

inductive RevokeReply where
  | error (status : Nat) (message : Text)
  | revoked (affected : Nat) (reload : ReloadOutcome)
  deriving DecidableEq, Repr

/-- The console's view of the database: whether statements on the tokens fail. -/
structure TokenDb where
  tokens : Table
  readError : Option Text
  writeError : Option Text

/-- `list_for_user`, up to the order. -/
def listForUser (tokens : Table) (userId : Int) : List ClientTokenRow :=
  (tokens.records.map (·.row)).filter (·.userId == userId)

section Handlers

variable (ch : Channel) (cfg : ReloadConfig) (now : Text) (users : ConsoleDb) (db : TokenDb)

def apiRevokeToken (user : User) (id : Int) : TokenDb × RevokeReply :=
  match db.readError with
  | some _ => (db, .error 500 "internal error".toList)
  | none =>
    match (listForUser db.tokens user.id).find? (·.id == id) with
    | none => (db, .error 403 "token does not belong to you".toList)
    | some _ =>
      match db.writeError with
      | some _ => (db, .error 500 "failed to revoke token".toList)
      | none =>
        let (tokens, affected) := db.tokens.revoke now id
        ({ db with tokens }, .revoked affected (triggerInvalidateTokens ch cfg))

def apiForceRevokeUserTokens (admin : User) (id : Int) : TokenDb × RevokeReply :=
  match requireAdmin admin with
  | .error (status, message) => (db, .error status message)
  | .ok () =>
    match users.userById id with
    | .error _ => (db, .error 500 "internal error".toList)
    | .ok none => (db, .error 404 "user not found".toList)
    | .ok (some _) =>
      match db.writeError with
      | some _ => (db, .error 500 "failed to revoke tokens".toList)
      | none =>
        let (tokens, revoked) := db.tokens.revokeAllForUser now id
        ({ db with tokens }, .revoked revoked (triggerInvalidateTokens ch cfg))

def Revoke.handle : Revoke → TokenDb × RevokeReply
  | .token user id => apiRevokeToken ch cfg now db user id
  | .allOf admin userId => apiForceRevokeUserTokens ch cfg now users db admin userId

end Handlers

structure Presents (C : Crypto) (req : AuthRequest) (wire : Text) (r : TokenRecord) : Prop where
  bearer : extractBearer req.authorization = some wire
  parsed : (PrefixedToken.parse wire).isSome = true
  prefix_eq : wirePrefix wire = r.row.tokenPrefix
  hash_eq : (C.sha256Of wire).1 = r.hash

/-- The cache has an entry that lets the token through. -/
def StillCached (C : Crypto) (cache : TokenCache) (wire : Text) (tGet tCheck : Nat) : Prop :=
  ∃ cached, (cache.get tGet (wirePrefix wire)).2 = some cached ∧
    (C.sha256Of wire).1 = cached.hash ∧ cached.row.revokedAt = none ∧
    isExpired C cached.row tCheck = false

def Refuses (verdict : Verdict) : Prop := ∃ refusal, verdict = .refuse refusal

/-! ## After a revoke -/

section

variable {C : Crypto} {ch : Channel} {cfg : ReloadConfig} {now : Text} {users : ConsoleDb}
  {db db' : TokenDb} {rev : Revoke} {affected : Nat} {reload : ReloadOutcome}

theorem Revoke.of_handle (h : rev.handle ch cfg now users db = (db', .revoked affected reload)) :
    db'.tokens = (db.tokens.markRevoked now rev.selects).1 ∧
      reload = triggerInvalidateTokens ch cfg := by
  cases rev with
  | token user id =>
    unfold Revoke.handle apiRevokeToken at h
    dsimp only at h
    repeat' split at h
    all_goals cases h
    exact ⟨rfl, rfl⟩
  | allOf admin userId =>
    unfold Revoke.handle apiForceRevokeUserTokens at h
    dsimp only at h
    repeat' split at h
    all_goals cases h
    exact ⟨rfl, rfl⟩

theorem selects_markRevoked (rev : Revoke) (now : Text) (sel : ClientTokenRow → Bool)
    (r : TokenRecord) : rev.selects (r.markRevoked now sel).row = rev.selects r.row := by
  unfold TokenRecord.markRevoked
  split
  · cases rev <;> rfl
  · rfl

theorem revoked_row {tokens tokens' : Table} {r : TokenRecord}
    (hle : (tokens.markRevoked now rev.selects).1.Le tokens') (hr : r ∈ tokens.records)
    (hsel : rev.selects r.row = true) :
    ∃ r' ∈ tokens'.records, r'.row.tokenPrefix = r.row.tokenPrefix ∧ r'.hash = r.hash ∧
      r'.row.revokedAt.isSome = true := by
  have hmem : r.markRevoked now rev.selects ∈ (tokens.markRevoked now rev.selects).1.records :=
    List.mem_map_of_mem hr
  have hrevoked : (r.markRevoked now rev.selects).row.revokedAt.isSome = true := by
    apply Table.markRevoked_isSome hmem
    rw [selects_markRevoked, hsel]
  obtain ⟨r', hr', hrel⟩ := hle _ hmem
  obtain ⟨at', hat⟩ := Option.isSome_iff_exists.1 hrevoked
  refine ⟨r', hr', ?_, ?_, ?_⟩
  · rw [hrel.prefix_eq, TokenRecord.markRevoked_tokenPrefix]
  · rw [hrel.hash_eq]
    unfold TokenRecord.markRevoked
    split <;> rfl
  · rw [hrel.revoked at' hat]
    rfl

theorem notification_of_triggered (h : (triggerInvalidateTokens ch cfg).triggered = true) :
    notificationOf cfg "INVALIDATE_TOKENS".toList =
      some (if cfg.socket.isSome then .line "INVALIDATE_TOKENS\n".toList else .hangup) := by
  unfold triggerInvalidateTokens dispatchBlocking at h
  unfold notificationOf
  cases hsocket : cfg.socket with
  | some socketPath => rfl
  | none =>
    rw [hsocket] at h
    cases hpid : cfg.pidFile with
    | some pidFile => rfl
    | none =>
      rw [hpid] at h
      cases h

theorem receive_hangup {w : World} {runtime : RuntimeHandles} {p p' : Process}
    (h : p.receive w runtime .hangup = (p', .ok ())) :
    p'.live.handles = runtime ∧ p'.auth = p.auth := by
  change p.reloadOnce w runtime = (p', .ok ()) at h
  unfold Process.reloadOnce at h
  split at h
  · cases h
  split at h
  · cases h
  next st hbuild =>
    cases h
    exact ⟨Reload.Successful.handles ⟨_, _, hbuild⟩, rfl⟩

theorem receive_invalidate (w : World) (runtime : RuntimeHandles) (p : Process) :
    p.receive w runtime (.line "INVALIDATE_TOKENS\n".toList) =
      match p.live.handles.clientAuth with
      | some _ => ({ p with auth := p.auth.invalidateAllCached }, .ok ())
      | none => (p, .ok ()) := by
  have htrim : Str.trim "INVALIDATE_TOKENS\n".toList = "INVALIDATE_TOKENS".toList := by decide
  unfold Process.receive
  dsimp only
  rw [htrim, if_neg (by decide), if_pos rfl]

theorem of_receive_invalidate {w : World} {runtime : RuntimeHandles} {p p' : Process}
    (h : p.receive w runtime (.line "INVALIDATE_TOKENS\n".toList) = (p', .ok ())) :
    p'.live = p.live ∧ p'.auth.db = p.auth.db ∧
      (p.live.handles.clientAuth.isSome = true → p'.auth.cache = p.auth.cache.clear) := by
  rw [receive_invalidate] at h
  split at h
  · cases h
    exact ⟨rfl, rfl, fun _ => rfl⟩
  next hnone =>
    cases h
    exact ⟨rfl, rfl, fun hsome => by rw [hnone] at hsome; cases hsome⟩

/-! ## The next request -/

theorem refuses_judge_iff {wire : Text} {cached : CachedToken} {tCheck : Nat} :
    Refuses (judge C wire cached tCheck) ↔ ¬ ((C.sha256Of wire).1 = cached.hash ∧
      cached.row.revokedAt = none ∧ isExpired C cached.row tCheck = false) := by
  constructor
  · rintro ⟨refusal, hrefuse⟩ ⟨hhash, hlive, hexp⟩
    rw [ClientAuth.judge_of_live hhash hlive hexp] at hrefuse
    cases hrefuse
  · intro h
    cases hverdict : judge C wire cached tCheck with
    | refuse refusal => exact ⟨refusal, rfl⟩
    | next view =>
      obtain ⟨hhash, hlive, hexp, -⟩ := ClientAuth.judge_eq_next hverdict
      exact absurd ⟨hhash, hlive, hexp⟩ h

end

theorem refuses_verify_iff {C : Crypto} {config : AuthConfig} {s : ClientAuth.Shared}
    {req : AuthRequest} {wire : Text} {r : TokenRecord} {tGet tInsert tCheck : Nat}
    (henabled : config.enabled = true) (hhttps : httpsMissing config req = false)
    (hpresents : Presents C req wire r) (hr : r ∈ s.db.records)
    (hrevoked : r.row.revokedAt.isSome = true) :
    Refuses (verifyRequest C (some config) s req tGet tInsert tCheck).2 ↔
      ¬ StillCached C s.cache wire tGet tCheck := by
  obtain ⟨parsed, hparsed⟩ := Option.isSome_iff_exists.1 hpresents.parsed
  cases hget : (s.cache.get tGet (wirePrefix wire)).2 with
  | some cached =>
    have hfound : (s.lookup tGet tInsert (wirePrefix wire)).2 = .ok (some cached) := by
      unfold ClientAuth.Shared.lookup
      simp only [hget]
    rw [ClientAuth.verifyRequest_of_lookup C tCheck henabled hhttps hpresents.bearer hparsed hfound,
      refuses_judge_iff]
    simp [StillCached, hget]
  | none =>
    have hlen : r.hash.length = 32 := by
      rw [← hpresents.hash_eq]
      exact (C.sha256Of wire).2
    have hrow := Table.lookupByPrefix_of_mem hr hlen
    rw [← hpresents.prefix_eq] at hrow
    have hfound : (s.lookup tGet tInsert (wirePrefix wire)).2 = .ok (some ⟨r.row, r.hash⟩) := by
      unfold ClientAuth.Shared.lookup
      simp only [hget, hrow]
    rw [ClientAuth.verifyRequest_of_lookup C tCheck henabled hhttps hpresents.bearer hparsed hfound,
      refuses_judge_iff]
    have hsome : r.row.revokedAt ≠ none := Option.isSome_iff_ne_none.1 hrevoked
    simp [StillCached, hget, hsome]

theorem of_receive {cfg : ReloadConfig} {w : World} {runtime : RuntimeHandles} {p p' : Process}
    {n : Notification} (hp : p.live.handles = runtime)
    (hn : (if cfg.socket.isSome then .line "INVALIDATE_TOKENS\n".toList else .hangup) = n)
    (hdone : p.receive w runtime n = (p', .ok ())) :
    p'.live.handles = runtime ∧ p'.auth.db = p.auth.db ∧
      (runtime.clientAuth.isSome = true → p'.auth.cache =
        if cfg.socket.isSome then p.auth.cache.clear else p.auth.cache) := by
  by_cases hsocket : cfg.socket.isSome = true
  · rw [if_pos hsocket] at hn
    subst hn
    obtain ⟨hlive, hdb', hcache⟩ := of_receive_invalidate hdone
    rw [hlive, ← hp]
    refine ⟨rfl, hdb', fun hsome => ?_⟩
    rw [hcache hsome, if_pos hsocket]
  rw [if_neg hsocket] at hn
  subst hn
  obtain ⟨hlive, hauth⟩ := receive_hangup hdone
  rw [hlive, hauth, if_neg hsocket]
  exact ⟨rfl, rfl, fun _ => rfl⟩

/-- **When a revoke is effective.** The console has revoked a token, and the proxy has handled its
message with success. Then the next request with the token is refused exactly if tokens are enforced
and the message came over the socket, the request lacks the transport it needs, or the cache does
not let the token through. -/
theorem revoke_effective_iff (C : Crypto) (ch : Channel) (cfg : ReloadConfig) (now : Text)
    (users : ConsoleDb) (db db' : TokenDb) (rev : Revoke) (affected : Nat) (reload : ReloadOutcome)
    (hreply : rev.handle ch cfg now users db = (db', .revoked affected reload))
    (htriggered : reload.triggered = true) (w : World) (runtime : RuntimeHandles) (p p' : Process)
    (hp : p.live.handles = runtime) (hdb : db'.tokens.Le p.auth.db) (n : Notification)
    (hn : notificationOf cfg "INVALIDATE_TOKENS".toList = some n)
    (hdone : p.receive w runtime n = (p', .ok ())) (req : AuthRequest) (wire : Text) (r : TokenRecord)
    (hr : r ∈ db.tokens.records) (hsel : rev.selects r.row = true) (hpresents : Presents C req wire r)
    (tGet tInsert tCheck : Nat) :
    Refuses (p'.verify C req tGet tInsert tCheck) ↔
      ∃ auth, runtime.clientAuth = some auth ∧ auth.config.enabled = true ∧
        (cfg.socket.isSome = true ∨ httpsMissing auth.config req = true ∨
          ¬ StillCached C p.auth.cache wire tGet tCheck) := by
  obtain ⟨htokens, rfl⟩ := Revoke.of_handle hreply
  rw [notification_of_triggered htriggered] at hn
  rw [htokens] at hdb
  obtain ⟨r', hr', hprefix, hhash, hrevoked⟩ := revoked_row hdb hr hsel
  have hpresents' : Presents C req wire r' := ⟨hpresents.bearer, hpresents.parsed,
    hpresents.prefix_eq.trans hprefix.symm, hpresents.hash_eq.trans hhash.symm⟩
  obtain ⟨hhandles, hdb', hcache⟩ := of_receive hp (Option.some.inj hn) hdone
  unfold Process.verify
  rw [hhandles]
  cases hauth : runtime.clientAuth with
  | none => simp [verifyRequest, Refuses]
  | some auth =>
    simp only [Option.map_some, Option.some.injEq, exists_eq_left']
    have hcache' := hcache (by rw [hauth]; rfl)
    cases henabled : auth.config.enabled with
    | false => simp [verifyRequest, henabled, Refuses]
    | true =>
      cases hhttps : httpsMissing auth.config req with
      | true => simp [verifyRequest, henabled, hhttps, ClientAuth.forbidden, Refuses]
      | false =>
        rw [refuses_verify_iff henabled hhttps hpresents' (hdb' ▸ hr') hrevoked, hcache']
        by_cases hsocket : cfg.socket.isSome = true
        · have hempty : ¬ StillCached C p.auth.cache.clear wire tGet tCheck := by
            rintro ⟨cached, hget, -⟩
            simp [TokenCache.get, TokenCache.clear] at hget
          simp [hsocket, hempty]
        · simp [hsocket]

section Examples

def workingChannel : Channel := ⟨fun _ _ => .ok "OK\n".toList, fun _ => .ok ()⟩

def socketOnly : ReloadConfig := ⟨true, none, some "/run/nanoguard.sock".toList⟩

def pidFileOnly : ReloadConfig := ⟨true, some "/run/nanoguard.pid".toList, none⟩

def tokenOwner : User where
  id := 7
  username := "alice".toList
  displayName := none
  email := none
  role := "member".toList
  serviceAccount := false
  disabled := false
  allowedModels := "*".toList
  budgetLimit := none
  oidcSub := none
  passwordHash := none
  lockedUntil := none
  createdAt := []
  lastLoginAt := none

def noConsoleUsers : ConsoleDb :=
  ⟨[], [], noUserIds_nodup, noSessionIds_nodup, none, none, true⟩

def exampleTokens : TokenDb := ⟨ClientAuth.exampleTable, none, none⟩

def revokedTokens : TokenDb :=
  { exampleTokens with tokens := (ClientAuth.exampleTable.revoke "t".toList 1).1 }

def enforcing : RuntimeHandles := ⟨0, none, none, some ⟨0, { enabled := true }⟩⟩

def cachedProcess (live : LiveState) : Process where
  live
  auth :=
    { db := revokedTokens.tokens
      cache := (TokenCache.new 10 60).insert 0 "ng_p_abcde".toList
        ⟨ClientAuth.exampleRecord.row, ClientAuth.exampleRecord.hash⟩ }

def tokenWire : Text := "ng_p_abcdefghijklmnopqrstuvwx".toList

def tokenRequest : AuthRequest := ⟨some (Str.bytes ("Bearer ".toList ++ tokenWire)), none⟩

theorem presents_token :
    Presents Reload.exampleCrypto tokenRequest tokenWire ClientAuth.exampleRecord :=
  ⟨by decide +kernel, by decide +kernel, rfl, rfl⟩

theorem revoke_effective_socket :
    ∃ live p', (cachedProcess live).receive (Reload.exampleWorld (.error [])) enforcing
        (.line "INVALIDATE_TOKENS\n".toList) = (p', .ok ()) ∧
      Refuses (p'.verify Reload.exampleCrypto tokenRequest 1 1 1) := by
  let live : LiveState := ⟨Proxy.exampleState, true, (Reload.exampleFull true).startup, enforcing⟩
  have hdone : (cachedProcess live).receive (Reload.exampleWorld (.error [])) enforcing
      (.line "INVALIDATE_TOKENS\n".toList) = _ := receive_invalidate ..
  refine ⟨live, _, hdone, ?_⟩
  apply (revoke_effective_iff Reload.exampleCrypto workingChannel socketOnly "t".toList
    noConsoleUsers exampleTokens revokedTokens (.token tokenOwner 1) 1 ⟨true, "socket".toList, none⟩
    rfl rfl (Reload.exampleWorld (.error [])) enforcing (cachedProcess live) _ rfl (Table.Le.refl _)
    (.line "INVALIDATE_TOKENS\n".toList) rfl hdone tokenRequest tokenWire ClientAuth.exampleRecord
    List.mem_cons_self rfl presents_token 1 1 1).2
  exact ⟨⟨0, { enabled := true }⟩, rfl, rfl, .inl rfl⟩

theorem verify_cached (live : LiveState) (h : live.handles = enforcing) :
    (cachedProcess live).verify Reload.exampleCrypto tokenRequest 1 1 1 =
      .next (some (ClientAuth.viewOf ClientAuth.exampleRecord.row)) := by
  obtain ⟨parsed, hparsed⟩ := Option.isSome_iff_exists.1 presents_token.parsed
  have hget : ((cachedProcess live).auth.cache.get 1 (wirePrefix tokenWire)).2 =
      some ⟨ClientAuth.exampleRecord.row, ClientAuth.exampleRecord.hash⟩ := rfl
  have hfound : ((cachedProcess live).auth.lookup 1 1 (wirePrefix tokenWire)).2 =
      .ok (some ⟨ClientAuth.exampleRecord.row, ClientAuth.exampleRecord.hash⟩) := by
    unfold ClientAuth.Shared.lookup
    simp only [hget]
  have hauth : (cachedProcess live).live.handles.clientAuth.map (·.config) =
      some { enabled := true } := by
    change live.handles.clientAuth.map (·.config) = _
    rw [h]
    rfl
  unfold Process.verify
  rw [hauth, ClientAuth.verifyRequest_of_lookup Reload.exampleCrypto 1 rfl (by decide)
    presents_token.bearer hparsed hfound]
  exact ClientAuth.judge_of_live rfl rfl rfl

/-- **A revoke that is not effective**: the proxy has reloaded after the signal, and the token is
accepted from the cache. -/
theorem revoked_token_accepted :
    Revoke.handle workingChannel pidFileOnly "t".toList noConsoleUsers exampleTokens
        (.token tokenOwner 1) = (revokedTokens, .revoked 1 ⟨true, "sighup".toList, none⟩) ∧
      notificationOf pidFileOnly "INVALIDATE_TOKENS".toList = some .hangup ∧
      ∃ live p', live.handles = enforcing ∧
        (cachedProcess live).receive (Reload.exampleWorld (.ok (Reload.exampleFull true))) enforcing
          .hangup = (p', .ok ()) ∧
        p'.verify Reload.exampleCrypto tokenRequest 1 1 1 =
          .next (some (ClientAuth.viewOf ClientAuth.exampleRecord.row)) := by
  obtain ⟨app, hbuild⟩ := Reload.exampleFull_builds
  let live : LiveState := ⟨app, true, (Reload.exampleFull true).startup, enforcing⟩
  have hreload : (cachedProcess live).receive (Reload.exampleWorld (.ok (Reload.exampleFull true)))
      enforcing .hangup = ({ cachedProcess live with live }, .ok ()) := by
    simp only [Process.receive, Process.reloadOnce, Reload.exampleWorld, hbuild]
    rfl
  exact ⟨rfl, rfl, live, _, rfl, hreload, verify_cached live rfl⟩

end Examples

end Nanoguard.Console

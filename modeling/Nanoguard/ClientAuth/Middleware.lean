import Nanoguard.ClientAuth.Revocation
import Nanoguard.ClientAuth.Token

/-!
# The verification middleware

`verifyRequest` decides whether a request reaches the handlers. Digests and timestamps are
computed by other crates and are parameters.
-/

namespace Nanoguard.ClientAuth

variable {wire : Text} {cached : CachedToken}

/-- What the middleware takes from other crates: SHA-256 of a string, and the instant of an RFC 3339
timestamp. -/
structure Crypto where
  sha256Of : Text → Digest
  parseRfc3339 : Text → Option Int

structure AuthRequest where
  authorization : Option (List UInt8)
  xForwardedProto : Option (List UInt8)
  deriving DecidableEq, Repr

structure ClientView where
  tokenId : Int
  tokenPrefix : Text
  userId : Int
  label : Option Text
  budgetKey : Text
  deriving DecidableEq, Repr

structure Refusal where
  status : Nat
  error : Text
  hint : Option Text
  wwwAuthenticate : Option Text
  deriving DecidableEq, Repr

/-- The request goes on, perhaps with a view attached, or is answered. -/
inductive Verdict where
  | next (view : Option ClientView)
  | refuse (r : Refusal)
  deriving DecidableEq, Repr

/-- `HeaderValue::to_str`: only visible ASCII. -/
def headerToStr (value : List UInt8) : Option Text :=
  if value.all fun b => (32 ≤ b && b < 127) || b == 9 then
    some (value.map fun b => Char.ofNat b.toNat)
  else none

def extractBearer (h : Option (List UInt8)) : Option Text :=
  (h.bind headerToStr).bind (Str.stripPrefix "Bearer ".toList)

def unauthorized (detail wwwAuthenticate : Text) : Verdict :=
  .refuse { status := 401, error := detail, hint := none, wwwAuthenticate := some wwwAuthenticate }

def forbidden (error hint : Text) : Verdict :=
  .refuse { status := 403, error, hint := some hint, wwwAuthenticate := none }

def internalError (detail : Text) : Verdict :=
  .refuse { status := 500, error := detail, hint := none, wwwAuthenticate := none }

def realm : Text := "Bearer realm=\"nanoguard\"".toList

def invalidToken : Text := "Bearer realm=\"nanoguard\", error=\"invalid_token\"".toList

/-- A timestamp that does not parse is not past. -/
def isPast (C : Crypto) (rfc3339 : Text) (now : Int) : Bool :=
  match C.parseRfc3339 rfc3339 with
  | some dt => decide (dt < now)
  | none => false

def isExpired (C : Crypto) (row : ClientTokenRow) (now : Int) : Bool :=
  row.expiresAt.any fun exp => isPast C exp now

def displayInt (n : Int) : Text :=
  if n < 0 then '-' :: Str.decimal n.natAbs else Str.decimal n.natAbs

def viewOf (row : ClientTokenRow) : ClientView where
  tokenId := row.id
  budgetKey := "token:".toList ++ displayInt row.id
  tokenPrefix := row.tokenPrefix
  userId := row.userId
  label := row.label

def httpsMissing (config : AuthConfig) (req : AuthRequest) : Bool :=
  config.requireHttps && req.xForwardedProto.bind headerToStr != some "https".toList

def judge (C : Crypto) (wire : Text) (cached : CachedToken) (now : Int) : Verdict :=
  if !verify C.sha256Of wire cached.hash then unauthorized "unknown token".toList invalidToken
  else if cached.row.revokedAt.isSome then unauthorized "token revoked".toList invalidToken
  else if isExpired C cached.row now then unauthorized "token expired".toList invalidToken
  else .next (some (viewOf cached.row))

/-- `verify_request`. The clock is read by the cache lookup, by the cache insert on a miss and by
the expiry check, in this order. -/
def verifyRequest (C : Crypto) (auth : Option AuthConfig) (s : Shared) (req : AuthRequest)
    (tGet tInsert tCheck : Nat) : Shared × Verdict :=
  match auth with
  | none => (s, .next none)
  | some config =>
    if !config.enabled then (s, .next none)
    else if httpsMissing config req then
      (s, forbidden "https required".toList
        ("this nanoguard requires X-Forwarded-Proto: https from a trusted TLS " ++
          "terminator").toList)
    else
      match extractBearer req.authorization with
      | none => (s, unauthorized "missing bearer".toList realm)
      | some bearer =>
        match PrefixedToken.parse bearer with
        | none => (s, unauthorized "malformed token".toList invalidToken)
        | some parsed =>
          let (s, found) := s.lookup tGet tInsert parsed.tokenPrefix
          match found with
          | .ok (some cached) => (s, judge C parsed.wire cached tCheck)
          | .ok none => (s, unauthorized "unknown token".toList invalidToken)
          | .error _ => (s, internalError "auth lookup failed".toList)

/-! ## What a verdict says -/

variable {C : Crypto} {config : AuthConfig} {s : Shared} {req : AuthRequest}
  {tGet tInsert tCheck : Nat}

theorem judge_eq_next {now : Int} {view : Option ClientView}
    (h : judge C wire cached now = .next view) :
    (C.sha256Of wire).1 = cached.hash ∧ cached.row.revokedAt = none ∧
      isExpired C cached.row now = false ∧ view = some (viewOf cached.row) := by
  unfold judge unauthorized at h
  split at h
  · cases h
  rename_i hverify
  split at h
  · cases h
  rename_i hrevoked
  split at h
  · cases h
  rename_i hexpired
  refine ⟨?_, ?_, ?_, (Verdict.next.inj h).symm⟩
  · simpa [verify] using hverify
  · simpa using hrevoked
  · simpa using hexpired

theorem judge_of_live {now : Int} (hhash : (C.sha256Of wire).1 = cached.hash)
    (hlive : cached.row.revokedAt = none) (hexp : isExpired C cached.row now = false) :
    judge C wire cached now = .next (some (viewOf cached.row)) := by
  simp [judge, verify, hhash, hlive, hexp]

theorem verifyRequest_eq_next {view : Option ClientView} (henabled : config.enabled = true)
    (h : (verifyRequest C (some config) s req tGet tInsert tCheck).2 = .next view) :
    ∃ wire cached, extractBearer req.authorization = some wire ∧
      (s.lookup tGet tInsert (wirePrefix wire)).2 = .ok (some cached) ∧
      judge C wire cached tCheck = .next view := by
  unfold verifyRequest at h
  simp only [henabled, Bool.not_true, Bool.false_eq_true, ↓reduceIte] at h
  split at h
  · cases h
  split at h
  · cases h
  rename_i bearer hbearer
  split at h
  · cases h
  rename_i parsed hparsed
  rw [PrefixedToken.parse_eq_some hparsed] at h
  split at h
  · rename_i cached hfound
    exact ⟨bearer, cached, hbearer, hfound, h⟩
  · cases h
  · cases h

theorem verifyRequest_of_lookup (C : Crypto) (tCheck : Nat) {parsed : PrefixedToken}
    (henabled : config.enabled = true) (hhttps : httpsMissing config req = false)
    (hbearer : extractBearer req.authorization = some wire)
    (hparsed : PrefixedToken.parse wire = some parsed)
    (hfound : (s.lookup tGet tInsert (wirePrefix wire)).2 = .ok (some cached)) :
    (verifyRequest C (some config) s req tGet tInsert tCheck).2 = judge C wire cached tCheck := by
  have hp := PrefixedToken.parse_eq_some hparsed
  subst hp
  simp [verifyRequest, henabled, hhttps, hbearer, hparsed, hfound]

end Nanoguard.ClientAuth

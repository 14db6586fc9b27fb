import Nanoguard.ClientAuth.Cache

/-!
# Lookups and revocations

`ClientAuth` is the table and the cache, each behind a lock of its own. `lookup` takes the cache
lock, then the database lock, then the cache lock again; the admin revoke takes the database lock
once and then the cache lock.
-/

namespace Nanoguard.ClientAuth

structure AuthConfig where
  enabled : Bool := false
  envMarker : Char := 'p'
  cacheCapacity : Nat := 10000
  cacheTtlSecs : Nat := 60
  requireHttps : Bool := false
  deriving DecidableEq, Repr

structure Shared where
  db : Table
  cache : TokenCache

/-- `ClientAuth::open`. The database is what opening and migrating the file gives; `debug` prints a
character in an error. The clock of the cache counts nanoseconds. -/
def Shared.openWith (debug : Char → Text) (openDb : Except Text Table) (config : AuthConfig) :
    Except Text Shared := do
  if !config.envMarker.isAlphanum then
    .error ("[auth].env_marker must be a single ASCII alphanumeric character (got ".toList ++
      debug config.envMarker ++ ")".toList)
  else
    let db ← openDb
    return { db, cache := TokenCache.new config.cacheCapacity (config.cacheTtlSecs * 10 ^ 9) }

/-- `ClientAuth::lookup`, undisturbed. The two clock readings are those of the cache. -/
def Shared.lookup (s : Shared) (tGet tInsert : Nat) (tokenPrefix : Text) :
    Shared × Except Text (Option CachedToken) :=
  let (cache, hit) := s.cache.get tGet tokenPrefix
  let s := { s with cache }
  match hit with
  | some cached => (s, .ok (some cached))
  | none =>
    match s.db.lookupByPrefix tokenPrefix with
    | .error e => (s, .error e)
    | .ok none => (s, .ok none)
    | .ok (some (row, hash)) =>
      let cached : CachedToken := { row, hash }
      ({ s with cache := s.cache.insert tInsert tokenPrefix cached }, .ok (some cached))

/-- The database part of `revoke_client`: the prefix, and the number of rows revoked. -/
def Table.revokeById (db : Table) (now : Text) (id : Int) : Table × Option Text × Nat :=
  let tokenPrefix := db.prefixOf id
  let (db, affected) := db.revoke now id
  (db, tokenPrefix, affected)

def Shared.revokeClient (s : Shared) (now : Text) (id : Int) : Shared × Nat :=
  let (db, tokenPrefix, affected) := s.db.revokeById now id
  match tokenPrefix with
  | some p => ({ db, cache := s.cache.invalidate p }, affected)
  | none => ({ s with db }, affected)

def Shared.invalidateCached (s : Shared) (tokenPrefix : Text) : Shared :=
  { s with cache := s.cache.invalidate tokenPrefix }

def Shared.invalidateAllCached (s : Shared) : Shared := { s with cache := s.cache.clear }

end Nanoguard.ClientAuth

import Nanoguard.ClientAuth.Middleware
import Mathlib.Data.List.Induction

/-!
# Authentication over whole runs

A run is a sequence of operations on the table and the cache: tokens are inserted, rows are revoked
through the admin endpoint or behind the proxy's back, the cache loses entries in every way it can,
and requests are verified. `Effect` says once what an operation can do; from it follows where a cache
entry comes from (`Trail.origin`).
-/

namespace Nanoguard.ClientAuth

open List

inductive AuthOp where
  | insert (now : Nat) (tokenPrefix : Text) (hash : Digest) (userId : Int)
      (label expiresAt : Option Text)
  | revokeClient (now : Nat) (id : Int)
  /-- a revoke of the table alone, as by another process -/
  | revoke (now : Nat) (id : Int)
  | revokeAllForUser (now : Nat) (userId : Int)
  | invalidate (now : Nat) (tokenPrefix : Text)
  | clear (now : Nat)
  /-- an entry leaves the cache by expiry or eviction -/
  | evict (now : Nat) (tokenPrefix : Text)
  /-- the hash map changes its traversal order -/
  | rehash (now : Nat) (map : AList (fun _ : Text => Entry))
  | request (tGet tInsert tCheck : Nat) (req : AuthRequest)

variable {s s' s₀ : Shared} {op : AuthOp} {ops : List AuthOp} {p : Text} {t : Nat}

def AuthOp.start : AuthOp → Nat
  | .insert now .. | .revokeClient now _ | .revoke now _ | .revokeAllForUser now _
  | .invalidate now _ | .clear now | .evict now _ | .rehash now _ => now
  | .request tGet .. => tGet

def AuthOp.finish : AuthOp → Nat
  | .request _ _ tCheck _ => tCheck
  | op => op.start

/-- The clock does not run backwards inside the operation. -/
def AuthOp.Timed : AuthOp → Prop
  | .request tGet tInsert tCheck _ => tGet ≤ tInsert ∧ tInsert ≤ tCheck
  | _ => True

/-- The clock does not run backwards from `t` on. -/
def Ordered : Nat → List AuthOp → Prop
  | _, [] => True
  | t, op :: ops => t ≤ op.start ∧ op.Timed ∧ Ordered op.finish ops

section Runs

/-- The configuration of a run, and the print of a clock reading. -/
structure AuthEnv where
  crypto : Crypto
  config : AuthConfig
  utc : Nat → Text

variable (E : AuthEnv)

def applyOp (s : Shared) : AuthOp → Shared
  | .insert now p hash userId label expiresAt =>
    match s.db.insert (E.utc now) p hash userId label expiresAt with
    | some (db, _) => { s with db }
    | none => s
  | .revokeClient now id => (s.revokeClient (E.utc now) id).1
  | .revoke now id => { s with db := (s.db.revoke (E.utc now) id).1 }
  | .revokeAllForUser now userId => { s with db := (s.db.revokeAllForUser (E.utc now) userId).1 }
  | .invalidate _ p => s.invalidateCached p
  | .clear _ => s.invalidateAllCached
  | .evict _ p => s.invalidateCached p
  | .rehash _ map =>
    if map.entries.Perm s.cache.map.entries then { s with cache := { s.cache with map } } else s
  | .request tGet tInsert tCheck req =>
    (verifyRequest E.crypto (some E.config) s req tGet tInsert tCheck).1

def opened (db : Table) (capacity ttl : Nat) : Shared := { db, cache := .new capacity ttl }

def runOps (s : Shared) (ops : List AuthOp) : Shared := ops.foldl (applyOp E) s

/-! ## What one operation can do -/

/-- The table only grows, and a new cache entry is a row that the table has. -/
structure Effect (s s' : Shared) (op : AuthOp) : Prop where
  db_le : s.db.Le s'.db
  ttl_eq : s'.cache.ttl = s.cache.ttl
  holds : ∀ p token at', s'.cache.Holds p token at' → s.cache.Holds p token at' ∨
    (op.start ≤ at' ∧ at' ≤ op.finish ∧ token.row.tokenPrefix = p ∧
      ⟨token.row, token.hash⟩ ∈ s.db.records)

theorem Effect.of_calm (h : Calm s s') (httl : s'.cache.ttl = s.cache.ttl) : Effect s s' op :=
  ⟨h.db_le, httl, fun p token at' hold => .inl (h.holds p token at' hold)⟩

theorem lookup_effect (s : Shared) (tGet tInsert : Nat) (p : Text) :
    (s.lookup tGet tInsert p).1.db = s.db ∧
      (s.lookup tGet tInsert p).1.cache.ttl = s.cache.ttl ∧
      ∀ q token at', (s.lookup tGet tInsert p).1.cache.Holds q token at' →
        s.cache.Holds q token at' ∨
          (at' = tInsert ∧ token.row.tokenPrefix = q ∧ ⟨token.row, token.hash⟩ ∈ s.db.records) := by
  have hget : ∀ q token at', (s.cache.get tGet p).1.Holds q token at' → s.cache.Holds q token at' :=
    fun _ _ _ => TokenCache.holds_of_get
  unfold Shared.lookup
  simp only
  split
  · exact ⟨rfl, TokenCache.get_ttl, fun q token at' hold => .inl (hget q token at' hold)⟩
  split
  · exact ⟨rfl, TokenCache.get_ttl, fun q token at' hold => .inl (hget q token at' hold)⟩
  · exact ⟨rfl, TokenCache.get_ttl, fun q token at' hold => .inl (hget q token at' hold)⟩
  rename_i row hash hdb
  refine ⟨rfl, by simp, fun q token at' hold => ?_⟩
  obtain ⟨hmem, hp⟩ := Table.mem_of_lookupByPrefix hdb
  rcases TokenCache.holds_of_insert hold with ⟨rfl, rfl, rfl⟩ | ⟨-, hold⟩
  · exact .inr ⟨rfl, hp, hmem⟩
  · exact .inl (hget q token at' hold)

theorem verifyRequest_shared (s : Shared) (req : AuthRequest) (tGet tInsert tCheck : Nat) :
    (verifyRequest E.crypto (some E.config) s req tGet tInsert tCheck).1 = s ∨
      ∃ p, (verifyRequest E.crypto (some E.config) s req tGet tInsert tCheck).1 =
        (s.lookup tGet tInsert p).1 := by
  unfold verifyRequest
  simp only
  split
  · exact .inl rfl
  split
  · exact .inl rfl
  split
  · exact .inl rfl
  split
  · exact .inl rfl
  · rename_i parsed _
    refine .inr ⟨parsed.tokenPrefix, ?_⟩
    split <;> rfl

theorem applyOp_effect (s : Shared) (ht : op.Timed) : Effect s (applyOp E s op) op := by
  cases op with
  | insert now p hash userId label expiresAt =>
    simp only [applyOp]
    split
    · rename_i hins
      exact .of_calm ⟨Table.le_insert hins, fun _ _ _ h => h⟩ rfl
    · exact .of_calm (.refl _) rfl
  | revokeClient now id =>
    simp only [applyOp, Shared.revokeClient]
    split
    · exact .of_calm ⟨s.db.le_markRevoked _ _, fun _ _ _ h => (TokenCache.holds_of_invalidate h).2⟩
        rfl
    · exact .of_calm ⟨s.db.le_markRevoked _ _, fun _ _ _ h => h⟩ rfl
  | revoke now id => exact .of_calm ⟨s.db.le_markRevoked _ _, fun _ _ _ h => h⟩ rfl
  | revokeAllForUser now userId => exact .of_calm ⟨s.db.le_markRevoked _ _, fun _ _ _ h => h⟩ rfl
  | invalidate now p =>
    exact .of_calm ⟨.refl _, fun _ _ _ h => (TokenCache.holds_of_invalidate h).2⟩ rfl
  | clear now =>
    exact .of_calm ⟨.refl _, fun _ _ _ h => absurd h TokenCache.not_holds_clear⟩ rfl
  | evict now p =>
    exact .of_calm ⟨.refl _, fun _ _ _ h => (TokenCache.holds_of_invalidate h).2⟩ rfl
  | rehash now map =>
    simp only [applyOp]
    split
    · rename_i hperm
      refine .of_calm ⟨.refl _, fun p token at' h => ?_⟩ rfl
      obtain ⟨e, he, htok, hat⟩ := h
      exact ⟨e, by rw [← AList.perm_lookup hperm]; exact he, htok, hat⟩
    · exact .of_calm (.refl _) rfl
  | request tGet tInsert tCheck req =>
    rcases verifyRequest_shared E s req tGet tInsert tCheck with hsame | ⟨p, hlookup⟩
    · rw [applyOp, hsame]
      exact .of_calm (.refl _) rfl
    rw [applyOp, hlookup]
    obtain ⟨hdb, httl, hholds⟩ := lookup_effect s tGet tInsert p
    refine ⟨by rw [hdb]; exact .refl _, httl, fun q token at' hold => ?_⟩
    rcases hholds q token at' hold with hold | ⟨rfl, hp, hmem⟩
    · exact .inl hold
    · exact .inr ⟨ht.1, ht.2, hp, hmem⟩

/-! ## What a run leaves behind -/

variable {E} {db : Table} {capacity ttl : Nat}

theorem runOps_snoc (s : Shared) (ops : List AuthOp) (op : AuthOp) :
    runOps E s (ops ++ [op]) = applyOp E (runOps E s ops) op := by
  unfold runOps
  rw [foldl_append]
  rfl

theorem split_snoc {α : Type} {xs as bs : List α} {x y : α} (h : xs ++ [y] = as ++ x :: bs) :
    (∃ bs', bs = bs' ++ [y] ∧ xs = as ++ x :: bs') ∨ (bs = [] ∧ xs = as ∧ y = x) := by
  rcases eq_nil_or_concat' bs with rfl | ⟨bs', z, rfl⟩
  · obtain ⟨hxs, hy⟩ := append_inj' h rfl
    exact .inr ⟨rfl, hxs, by simpa using hy⟩
  rw [← cons_append, ← append_assoc] at h
  obtain ⟨hxs, hy⟩ := append_inj' h rfl
  obtain rfl : y = z := by simpa using hy
  exact .inl ⟨bs', rfl, hxs⟩

/-- The entry under `p` was read from the database by an operation of the run, at the instant
`at'`. -/
def Origin (E : AuthEnv) (s₀ : Shared) (ops : List AuthOp) (token : CachedToken) (at' : Nat) :
    Prop :=
  ∃ before op after, ops = before ++ op :: after ∧ op.start ≤ at' ∧ at' ≤ op.finish ∧
    ⟨token.row, token.hash⟩ ∈ (runOps E s₀ before).db.records

structure Trail (E : AuthEnv) (s₀ : Shared) (ops : List AuthOp) : Prop where
  ttl_eq : (runOps E s₀ ops).cache.ttl = s₀.cache.ttl
  known : SharedOk (runOps E s₀ ops)
  origin : ∀ p token at', (runOps E s₀ ops).cache.Holds p token at' → Origin E s₀ ops token at'
  revoked : ∀ before now id after, ops = before ++ .revokeClient now id :: after →
    ∀ p, (runOps E s₀ before).db.prefixOf id = some p →
      Revoked (runOps E s₀ ops).db id p ∧ CacheRevoked (runOps E s₀ ops).cache id

theorem Origin.snoc {token : CachedToken} {at' : Nat} (h : Origin E s₀ ops token at') :
    Origin E s₀ (ops ++ [op]) token at' := by
  obtain ⟨before, op', after, rfl, h₁, h₂, hmem⟩ := h
  exact ⟨before, op', after ++ [op], by simp, h₁, h₂, hmem⟩

theorem CacheRevoked.of_effect {id : Int} (h : CacheRevoked s.cache id) (hrev : Revoked s.db id p)
    (heff : Effect s s' op) : CacheRevoked s'.cache id := by
  intro q token at' hold hid
  rcases heff.holds q token at' hold with hold | ⟨-, -, -, hmem⟩
  · exact h q token at' hold hid
  obtain ⟨r, hr, hid', -, hsome⟩ := hrev
  have heq : (⟨token.row, token.hash⟩ : TokenRecord) = r :=
    Table.eq_of_id hmem hr (hid.trans hid'.symm)
  rw [← heq] at hsome
  exact hsome

theorem SharedOk.of_effect (h : SharedOk s) (heff : Effect s s' op) : SharedOk s' := by
  intro p token at' hold
  rcases heff.holds p token at' hold with hold | ⟨-, -, hp, hmem⟩
  · exact (h p token at' hold).mono heff.db_le
  · obtain ⟨r, hr, hle⟩ := heff.db_le _ hmem
    exact ⟨hp, r, hr, hle⟩

theorem revokeClient_revokes (hS : SharedOk s) {now : Text} {id : Int}
    (hp : s.db.prefixOf id = some p) :
    Revoked (s.revokeClient now id).1.db id p ∧
      CacheRevoked (s.revokeClient now id).1.cache id := by
  have hrev : Revoked (s.db.revokeById now id).1 id p := .of_revokeById now hp
  have hshape : (s.revokeClient now id).1 =
      { db := (s.db.revokeById now id).1, cache := s.cache.invalidate p } := by
    simp [Shared.revokeClient, Table.revokeById, hp]
  rw [hshape]
  have hS' : SharedOk { s with db := (s.db.revokeById now id).1 } :=
    hS.mono ⟨s.db.le_markRevoked _ _, fun _ _ _ h => h⟩
  have hcache := CacheRevoked.of_invalidate hS' hrev
  exact ⟨hrev, hcache⟩

theorem trail_step (h : Trail E s₀ ops) (ht : op.Timed) : Trail E s₀ (ops ++ [op]) := by
  have heff := applyOp_effect E (runOps E s₀ ops) ht
  constructor
  · rw [runOps_snoc, heff.ttl_eq, h.ttl_eq]
  · rw [runOps_snoc]
    exact h.known.of_effect heff
  · intro p token at' hold
    rw [runOps_snoc] at hold
    rcases heff.holds p token at' hold with hold | ⟨h₁, h₂, -, hmem⟩
    · exact (h.origin p token at' hold).snoc
    · exact ⟨ops, op, [], rfl, h₁, h₂, hmem⟩
  · intro before now id after hsplit p hp
    rw [runOps_snoc]
    rcases split_snoc hsplit with ⟨after', -, hops⟩ | ⟨-, hops, hop⟩
    · obtain ⟨hrev, hcache⟩ := h.revoked before now id after' hops p hp
      exact ⟨hrev.mono heff.db_le, hcache.of_effect hrev heff⟩
    · subst hops hop
      exact revokeClient_revokes h.known hp

theorem trail_nil (E : AuthEnv) (db : Table) (capacity ttl : Nat) :
    Trail E (opened db capacity ttl) [] := by
  constructor
  · rfl
  · intro p token at' hold
    exact absurd hold (TokenCache.not_holds_new _ _)
  · intro p token at' hold
    exact absurd hold (TokenCache.not_holds_new _ _)
  · intro before now id after hsplit
    simp at hsplit

theorem trail_run (E : AuthEnv) (db : Table) (capacity ttl : Nat) (ht : ∀ op ∈ ops, op.Timed) :
    Trail E (opened db capacity ttl) ops := by
  induction ops using List.reverseRecOn with
  | nil => exact trail_nil E db capacity ttl
  | append_singleton ops op ih =>
    exact trail_step (ih fun op' hop' => ht op' (by simp [hop'])) (ht op (by simp))

/-! ## The clock -/

theorem AuthOp.start_le_finish (h : op.Timed) : op.start ≤ op.finish := by
  cases op with
  | request tGet tInsert tCheck req => exact le_trans h.1 h.2
  | _ => exact le_refl _

theorem Ordered.timed (h : Ordered t ops) : ∀ op ∈ ops, op.Timed := by
  induction ops generalizing t with
  | nil =>
    intro op hop
    cases hop
  | cons op ops ih =>
    intro op' hop'
    rcases mem_cons.1 hop' with rfl | hop'
    · exact h.2.1
    · exact ih h.2.2 op' hop'

theorem Ordered.le_start (h : Ordered t ops) (hop : op ∈ ops) : t ≤ op.start := by
  induction ops generalizing t with
  | nil => cases hop
  | cons op' ops ih =>
    rcases mem_cons.1 hop with rfl | hop
    · exact h.1
    · have hle := AuthOp.start_le_finish h.2.1
      have hrest := ih h.2.2 hop
      exact le_trans h.1 (le_trans hle hrest)

theorem Ordered.finish_le_start {before after : List AuthOp} {op' : AuthOp}
    (h : Ordered t (before ++ op :: after)) (hop' : op' ∈ after) : op.finish ≤ op'.start := by
  induction before generalizing t with
  | nil => exact h.2.2.le_start hop'
  | cons op₀ before ih => exact ih h.2.2

/-! ## Verdicts -/

theorem lookup_eq_some {tGet tInsert : Nat} {cached : CachedToken}
    (h : (s.lookup tGet tInsert p).2 = .ok (some cached)) :
    (∃ at', s.cache.Holds p cached at' ∧ tGet - at' < s.cache.ttl) ∨
      (cached.row.tokenPrefix = p ∧ ⟨cached.row, cached.hash⟩ ∈ s.db.records) := by
  unfold Shared.lookup at h
  simp only at h
  split at h
  · rename_i hhit
    simp only [Except.ok.injEq, Option.some.injEq] at h
    subst h
    exact .inl (TokenCache.holds_of_get_eq_some hhit)
  split at h
  · cases h
  · cases h
  rename_i hdb
  simp only [Except.ok.injEq, Option.some.injEq] at h
  subst h
  obtain ⟨hmem, hp⟩ := Table.mem_of_lookupByPrefix hdb
  exact .inr ⟨hp, hmem⟩

theorem lookup_of_mem (hS : SharedOk s) (tGet tInsert : Nat) {r : TokenRecord}
    (hr : r ∈ s.db.records) (hhash : r.hash.length = 32) (hlive : r.row.revokedAt = none) :
    (s.lookup tGet tInsert r.row.tokenPrefix).2 = .ok (some ⟨r.row, r.hash⟩) := by
  unfold Shared.lookup
  simp only
  split
  · rename_i cached hhit
    obtain ⟨at', hold, -⟩ := TokenCache.holds_of_get_eq_some hhit
    obtain ⟨hp, r', hr', hle⟩ := hS _ cached at' hold
    have heq : r' = r := Table.eq_of_prefix hr' hr (hle.prefix_eq.trans hp)
    subst heq
    -- an unrevoked row has no revoked version
    have hnone : cached.row.revokedAt = none := by
      cases hc : cached.row.revokedAt with
      | none => rfl
      | some at'' =>
        have hsome := hle.revoked at'' hc
        rw [hlive] at hsome
        cases hsome
    have hrow : r'.row = cached.row := by
      rw [hle.row_eq, hlive, ← hnone]
    rw [hrow, hle.hash_eq]
  · rw [Table.lookupByPrefix_of_mem hr hhash]

/-- Where the verdict on a request comes from: a row of the table, the version of it that the
lookup returned, and an instant at which the database had this version. -/
theorem lookup_in_run (htrail : Trail E s₀ ops) {tGet tInsert tCheck : Nat} {req : AuthRequest}
    (hordered : Ordered 0 (ops ++ [.request tGet tInsert tCheck req])) {cached : CachedToken}
    (h : ((runOps E s₀ ops).lookup tGet tInsert p).2 = .ok (some cached)) :
    (cached.row.tokenPrefix = p ∧
      ∃ r ∈ (runOps E s₀ ops).db.records, TokenRecord.Le ⟨cached.row, cached.hash⟩ r) ∧
    (∃ before op after at', ops ++ [.request tGet tInsert tCheck req] = before ++ op :: after ∧
      op.start ≤ at' ∧ at' ≤ op.finish ∧ at' ≤ tGet ∧ tGet ≤ at' + s₀.cache.ttl ∧
      ⟨cached.row, cached.hash⟩ ∈ (runOps E s₀ before).db.records) ∧
    ∀ before now after, ops = before ++ .revokeClient now cached.row.id :: after →
      ∀ q, (runOps E s₀ before).db.prefixOf cached.row.id = some q →
        cached.row.revokedAt.isSome = true := by
  have htimed := hordered.timed _ (mem_append_right ops mem_cons_self)
  rcases lookup_eq_some h with ⟨at', hold, hfresh⟩ | ⟨hp, hmem⟩
  · refine ⟨htrail.known p cached at' hold, ?_, ?_⟩
    · obtain ⟨before, op, after, rfl, h₁, h₂, hmem⟩ := htrail.origin p cached at' hold
      have hfin : op.finish ≤ tGet := by
        rw [append_assoc] at hordered
        exact hordered.finish_le_start (mem_append_right after mem_cons_self)
      rw [htrail.ttl_eq] at hfresh
      exact ⟨before, op, after ++ [.request tGet tInsert tCheck req], at', by simp, h₁, h₂,
        le_trans h₂ hfin, by omega, hmem⟩
    · intro before now after hops q hq
      exact (htrail.revoked before now _ after hops q hq).2 p cached at' hold rfl
  · refine ⟨⟨hp, _, hmem, .refl _⟩, ?_, ?_⟩
    · exact ⟨ops, _, [], tGet, rfl, le_refl _, le_trans htimed.1 htimed.2, le_refl _,
        Nat.le_add_right _ _, hmem⟩
    intro before now after hops q hq
    obtain ⟨r, hr, hid, -, hsome⟩ := (htrail.revoked before now _ after hops q hq).1
    have heq : (⟨cached.row, cached.hash⟩ : TokenRecord) = r := Table.eq_of_id hmem hr hid.symm
    rw [← heq] at hsome
    exact hsome

/-- **Authentication over runs is sound and complete.** A request is let through only for a row with
its prefix and its digest that is not expired, that the database had unrevoked within the last
`ttl`, and that no earlier `revoke_client` revoked; and every request for a row that is now
unexpired and unrevoked is let through. -/
theorem verify_run (E : AuthEnv) (henabled : E.config.enabled = true) (db : Table)
    (capacity ttl : Nat) (ops : List AuthOp) (tGet tInsert tCheck : Nat) (req : AuthRequest)
    (hordered : Ordered 0 (ops ++ [.request tGet tInsert tCheck req])) :
    let s₀ := opened db capacity ttl
    let s := runOps E s₀ ops
    let verdict := (verifyRequest E.crypto (some E.config) s req tGet tInsert tCheck).2
    (∀ view, verdict = .next view →
      ∃ wire, extractBearer req.authorization = some wire ∧
      ∃ r ∈ s.db.records, r.row.tokenPrefix = wirePrefix wire ∧
        (E.crypto.sha256Of wire).1 = r.hash ∧ isExpired E.crypto r.row tCheck = false ∧
        view = some (viewOf r.row) ∧
        (∃ before op after at' r₁,
          ops ++ [.request tGet tInsert tCheck req] = before ++ op :: after ∧
          op.start ≤ at' ∧ at' ≤ op.finish ∧ at' ≤ tGet ∧ tGet ≤ at' + ttl ∧
          r₁ ∈ (runOps E s₀ before).db.records ∧ r₁.row.id = r.row.id ∧
          r₁.row.revokedAt = none) ∧
        ∀ before now after, ops = before ++ .revokeClient now r.row.id :: after →
          (runOps E s₀ before).db.prefixOf r.row.id = none) ∧
    ∀ wire parsed, httpsMissing E.config req = false →
      extractBearer req.authorization = some wire → PrefixedToken.parse wire = some parsed →
      ∀ r ∈ s.db.records, r.row.tokenPrefix = wirePrefix wire →
        (E.crypto.sha256Of wire).1 = r.hash → r.row.revokedAt = none →
        isExpired E.crypto r.row tCheck = false → verdict = .next (some (viewOf r.row)) := by
  intro s₀ s verdict
  have htrail : Trail E s₀ ops := trail_run E db capacity ttl (forall_mem_append.1 hordered.timed).1
  constructor
  · intro view hview
    obtain ⟨wire, cached, hbearer, hfound, hjudge⟩ := verifyRequest_eq_next henabled hview
    obtain ⟨hhash, hlive, hexp, hv⟩ := judge_eq_next hjudge
    obtain ⟨⟨hp, r, hr, hle⟩, hinstant, hrevoked⟩ := lookup_in_run htrail hordered hfound
    refine ⟨wire, hbearer, r, hr, hle.prefix_eq.trans hp, hhash.trans hle.hash_eq.symm, ?_, ?_,
      ?_, ?_⟩
    · unfold isExpired at hexp ⊢
      rw [hle.expiresAt_eq]
      exact hexp
    · rw [hv, hle.row_eq]
      rfl
    · obtain ⟨before, op, after, at', hsplit, h₁, h₂, h₃, h₄, hmem⟩ := hinstant
      exact ⟨before, op, after, at', _, hsplit, h₁, h₂, h₃, h₄, hmem, hle.id_eq.symm, hlive⟩
    intro before now after hops
    rw [hle.id_eq] at hops ⊢
    by_contra hne
    obtain ⟨q, hq⟩ := Option.ne_none_iff_exists'.1 hne
    have hsome := hrevoked before now after hops q hq
    rw [hlive] at hsome
    cases hsome
  · intro wire parsed hhttps hbearer hparsed r hr hp hhash hlive hexp
    have hlen : r.hash.length = 32 := by
      rw [← hhash]
      exact (E.crypto.sha256Of wire).2
    have hfound := lookup_of_mem htrail.known tGet tInsert hr hlen hlive
    rw [hp] at hfound
    have hverdict := verifyRequest_of_lookup E.crypto tCheck henabled hhttps hbearer hparsed hfound
    exact hverdict.trans (judge_of_live hhash hlive hexp)

def exampleEnv : AuthEnv where
  crypto := { sha256Of := fun _ => ⟨List.replicate 32 0, rfl⟩, parseRfc3339 := fun _ => none }
  config := { enabled := true }
  utc := fun _ => []

def exampleWire : Text := "ng_p_abcdefghijklmnopqrstuvwx".toList

/-- A request with a token that was inserted before, in a cache without room. -/
theorem verify_run_inserted :
    (verifyRequest exampleEnv.crypto (some exampleEnv.config)
      (runOps exampleEnv (opened .empty 0 0)
        [.insert 3 (wirePrefix exampleWire) ⟨List.replicate 32 0, rfl⟩ 7 none none])
      ⟨some (Str.bytes ("Bearer ".toList ++ exampleWire)), none⟩ 4 4 5).2 =
      .next (some ⟨1, "ng_p_abcde".toList, 7, none, "token:1".toList⟩) := by
  have hrun := verify_run exampleEnv rfl .empty 0 0
    [.insert 3 (wirePrefix exampleWire) ⟨List.replicate 32 0, rfl⟩ 7 none none] 4 4 5
    ⟨some (Str.bytes ("Bearer ".toList ++ exampleWire)), none⟩
    ⟨by decide, trivial, by decide, ⟨by decide, by decide⟩, trivial⟩
  exact hrun.2 exampleWire ⟨exampleWire, wirePrefix exampleWire⟩ rfl (by decide +kernel)
    (by decide +kernel) ⟨⟨1, "ng_p_abcde".toList, 7, none, [], none, none, none⟩,
      List.replicate 32 0⟩ (mem_cons_self) rfl rfl rfl rfl

end Runs

end Nanoguard.ClientAuth

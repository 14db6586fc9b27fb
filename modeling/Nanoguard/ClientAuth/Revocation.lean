import Nanoguard.ClientAuth.Runtime
import Nanoguard.Lib.Threads

/-!
# Revocation under interleaving

Lookups and admin revokes as threads whose atomic steps are the critical sections of the source. A
lookup that misses reads the database and inserts the row in two steps, so a whole revoke fits
between them, and the old row is in the cache after the invalidation.
-/

namespace Nanoguard.ClientAuth

open Threads

variable {q p : Text} {id : Int}

/-! ## The threads -/

/-- What a step reads from the outside: the monotonic clock and the printed wall clock. -/
structure Clock where
  instant : Nat
  utc : Text

inductive AuthCall where
  | lookup (tokenPrefix : Text)
  | revokeClient (id : Int)

inductive AuthThread where
  | lookupGet (tokenPrefix : Text)
  | lookupRead (tokenPrefix : Text)
  | lookupInsert (tokenPrefix : Text) (token : CachedToken)
  | lookupDone (tokenPrefix : Text) (result : Except Text (Option CachedToken))
  | revokeDb (id : Int)
  | revokeInvalidate (id : Int) (tokenPrefix : Option Text) (affected : Nat)
  | revokeDone (id : Int) (tokenPrefix : Option Text) (affected : Nat)

def authStep (clock : Clock) (s : Shared) : AuthThread → Shared × AuthThread
  | .lookupGet p =>
    let (cache, hit) := s.cache.get clock.instant p
    match hit with
    | some cached => ({ s with cache }, .lookupDone p (.ok (some cached)))
    | none => ({ s with cache }, .lookupRead p)
  | .lookupRead p =>
    match s.db.lookupByPrefix p with
    | .error e => (s, .lookupDone p (.error e))
    | .ok none => (s, .lookupDone p (.ok none))
    | .ok (some (row, hash)) => (s, .lookupInsert p { row, hash })
  | .lookupInsert p token =>
    ({ s with cache := s.cache.insert clock.instant p token }, .lookupDone p (.ok (some token)))
  | .lookupDone p result => (s, .lookupDone p result)
  | .revokeDb id =>
    let (db, tokenPrefix, affected) := s.db.revokeById clock.utc id
    ({ s with db }, .revokeInvalidate id tokenPrefix affected)
  | .revokeInvalidate id tokenPrefix affected =>
    match tokenPrefix with
    | some p => (s.invalidateCached p, .revokeDone id tokenPrefix affected)
    | none => (s, .revokeDone id tokenPrefix affected)
  | .revokeDone id tokenPrefix affected => (s, .revokeDone id tokenPrefix affected)

def authProgram : Program Shared AuthThread AuthCall Clock where
  start
    | .lookup p => .lookupGet p
    | .revokeClient id => .revokeDb id
  step := authStep

def openAuth (db : Table) (capacity ttl : Nat) : Sys Shared AuthThread where
  shared := { db, cache := .new capacity ttl }
  threads := []

/-- A lookup that nobody disturbs is `ClientAuth::lookup`. -/
theorem authStep_lookup_alone (s : Shared) (c₁ c₂ c₃ : Clock) (p : Text) :
    let q₁ := authStep c₁ s (.lookupGet p)
    let q₂ := authStep c₂ q₁.1 q₁.2
    let q₃ := authStep c₃ q₂.1 q₂.2
    q₃ = ((s.lookup c₁.instant c₃.instant p).1,
      .lookupDone p (s.lookup c₁.instant c₃.instant p).2) := by
  unfold Shared.lookup
  cases hget : s.cache.get c₁.instant p with
  | mk cache hit =>
    cases hit with
    | some cached => simp [authStep, hget]
    | none =>
      cases hdb : s.db.lookupByPrefix p with
      | error e => simp [authStep, hget, hdb]
      | ok found =>
        cases found with
        | none => simp [authStep, hget, hdb]
        | some found => simp [authStep, hget, hdb]

/-- A revoke that nobody disturbs is `revoke_client`. -/
theorem authStep_revoke_alone (s : Shared) (c₁ c₂ : Clock) (id : Int) :
    let q₁ := authStep c₁ s (.revokeDb id)
    (authStep c₂ q₁.1 q₁.2).1 = (s.revokeClient c₁.utc id).1 := by
  unfold Shared.revokeClient
  cases hp : (s.db.revokeById c₁.utc id).2.1 with
  | none => simp [authStep, hp]
  | some p => simp [authStep, hp, Shared.invalidateCached]

/-! ## Invariants -/

/-- The token is a version, perhaps an old one, of the record with the prefix `p`. -/
def Known (db : Table) (p : Text) (token : CachedToken) : Prop :=
  token.row.tokenPrefix = p ∧ ∃ r ∈ db.records, TokenRecord.Le ⟨token.row, token.hash⟩ r

def Revoked (db : Table) (id : Int) (p : Text) : Prop :=
  ∃ r ∈ db.records, r.row.id = id ∧ r.row.tokenPrefix = p ∧ r.row.revokedAt.isSome = true

/-- The cache holds no unrevoked version of the row `id`. -/
def CacheRevoked (cache : TokenCache) (id : Int) : Prop :=
  ∀ p token at', cache.Holds p token at' → token.row.id = id → token.row.revokedAt.isSome = true

section Monotone

variable {db db' : Table} {p : Text} {token : CachedToken} {id : Int}

theorem Known.mono (h : Known db p token) (hle : db.Le db') : Known db' p token := by
  obtain ⟨hp, r, hr, hrle⟩ := h
  obtain ⟨r', hr', hrle'⟩ := hle r hr
  exact ⟨hp, r', hr', hrle.trans hrle'⟩

theorem Known.of_lookup {row : ClientTokenRow} {hash : List UInt8}
    (h : db.lookupByPrefix p = .ok (some (row, hash))) : Known db p ⟨row, hash⟩ := by
  obtain ⟨hmem, hp⟩ := Table.mem_of_lookupByPrefix h
  exact ⟨hp, ⟨row, hash⟩, hmem, .refl _⟩

theorem Revoked.mono (h : Revoked db id p) (hle : db.Le db') : Revoked db' id p := by
  obtain ⟨r, hr, hid, hp, hrev⟩ := h
  obtain ⟨r', hr', hrle⟩ := hle r hr
  obtain ⟨at', hat⟩ := Option.isSome_iff_exists.1 hrev
  refine ⟨r', hr', hrle.id_eq.trans hid, hrle.prefix_eq.trans hp, ?_⟩
  rw [hrle.revoked at' hat]
  rfl

theorem Revoked.of_revokeById (now : Text) (h : db.prefixOf id = some p) :
    Revoked (db.revokeById now id).1 id p := by
  obtain ⟨r, hr, hid, hp⟩ := Table.prefixOf_eq_some_iff.1 h
  obtain ⟨r', hr', hle⟩ := db.le_markRevoked now (fun row => row.id == id) r hr
  have hid' : r'.row.id = id := hle.id_eq.trans hid
  exact ⟨r', hr', hid', hle.prefix_eq.trans hp, Table.markRevoked_isSome hr' (by simp [hid'])⟩

theorem Known.prefix_eq_of_revoked (h : Known db q token) (hrev : Revoked db id p)
    (hid : token.row.id = id) : q = p := by
  obtain ⟨hq, r, hr, hle⟩ := h
  obtain ⟨r', hr', hid', hp, -⟩ := hrev
  have heq : r = r' := Table.eq_of_id hr hr' (by rw [hle.id_eq, hid, hid'])
  rw [← hq, ← hp, ← heq, hle.prefix_eq]

theorem Revoked.lookup (hrev : Revoked db id p) {row : ClientTokenRow} {hash : List UInt8}
    (h : db.lookupByPrefix q = .ok (some (row, hash))) (hid : row.id = id) :
    row.revokedAt.isSome = true := by
  obtain ⟨r, hr, hid', -, hsome⟩ := hrev
  have heq : (⟨row, hash⟩ : TokenRecord) = r :=
    Table.eq_of_id (Table.mem_of_lookupByPrefix h).1 hr (by rw [hid, hid'])
  rw [← heq] at hsome
  exact hsome

end Monotone

def ThreadOk (sh : Shared) : AuthThread → Prop
  | .lookupInsert p token => Known sh.db p token
  | .revokeInvalidate id (some p) _ => Revoked sh.db id p
  | .revokeDone id (some p) _ => Revoked sh.db id p ∧ CacheRevoked sh.cache id
  | _ => True

def SharedOk (sh : Shared) : Prop :=
  ∀ p token at', sh.cache.Holds p token at' → Known sh.db p token

/-- The table only grows and the cache only loses entries. -/
structure Calm (sh sh' : Shared) : Prop where
  db_le : sh.db.Le sh'.db
  holds : ∀ p token at', sh'.cache.Holds p token at' → sh.cache.Holds p token at'

section Steps

variable {sh sh' : Shared} {clock : Clock} {t u : AuthThread}

theorem Calm.refl (sh : Shared) : Calm sh sh := ⟨.refl _, fun _ _ _ h => h⟩

theorem CacheRevoked.mono (h : CacheRevoked sh.cache id) (hc : Calm sh sh') :
    CacheRevoked sh'.cache id :=
  fun p token at' hold => h p token at' (hc.holds p token at' hold)

theorem SharedOk.mono (h : SharedOk sh) (hc : Calm sh sh') : SharedOk sh' :=
  fun p token at' hold => (h p token at' (hc.holds p token at' hold)).mono hc.db_le

theorem ThreadOk.mono (h : ThreadOk sh u) (hc : Calm sh sh') : ThreadOk sh' u := by
  unfold ThreadOk at h ⊢
  split
  · exact Known.mono h hc.db_le
  · exact Revoked.mono h hc.db_le
  · exact ⟨h.1.mono hc.db_le, h.2.mono hc⟩
  · trivial

theorem authStep_calm (ht : ∀ p token, t ≠ .lookupInsert p token) :
    Calm sh (authStep clock sh t).1 := by
  cases t with
  | lookupGet p =>
    have hcalm : Calm sh { sh with cache := (sh.cache.get clock.instant p).1 } :=
      ⟨.refl _, fun _ _ _ h => TokenCache.holds_of_get h⟩
    simp only [authStep]
    split
    · exact hcalm
    · exact hcalm
  | lookupRead p =>
    simp only [authStep]
    split
    · exact .refl _
    · exact .refl _
    · exact .refl _
  | lookupInsert p token => exact absurd rfl (ht p token)
  | lookupDone p result => exact .refl _
  | revokeDb id => exact ⟨sh.db.le_markRevoked _ _, fun _ _ _ h => h⟩
  | revokeInvalidate id tokenPrefix affected =>
    cases tokenPrefix with
    | none => exact .refl _
    | some p => exact ⟨.refl _, fun _ _ _ h => (TokenCache.holds_of_invalidate h).2⟩
  | revokeDone id tokenPrefix affected => exact .refl _

theorem CacheRevoked.of_invalidate (hS : SharedOk sh) (hrev : Revoked sh.db id p) :
    CacheRevoked (sh.invalidateCached p).cache id := by
  intro q token at' hold hid
  obtain ⟨hq, hold'⟩ := TokenCache.holds_of_invalidate hold
  exact absurd ((hS q token at' hold').prefix_eq_of_revoked hrev hid) hq

theorem authStep_ok (clock : Clock) (hS : SharedOk sh) (ht : ThreadOk sh t) :
    SharedOk (authStep clock sh t).1 ∧ ThreadOk (authStep clock sh t).1 (authStep clock sh t).2 := by
  cases t with
  | lookupInsert p token =>
    refine ⟨fun q tok at' hold => ?_, trivial⟩
    rcases TokenCache.holds_of_insert hold with ⟨rfl, rfl, -⟩ | ⟨-, hold⟩
    · exact ht
    · exact hS q tok at' hold
  | lookupGet p =>
    refine ⟨hS.mono (authStep_calm (by simp)), ?_⟩
    simp only [authStep]
    split
    · trivial
    · trivial
  | lookupRead p =>
    refine ⟨hS.mono (authStep_calm (by simp)), ?_⟩
    simp only [authStep]
    split
    · trivial
    · trivial
    · rename_i hdb
      exact Known.of_lookup hdb
  | lookupDone p result => exact ⟨hS, trivial⟩
  | revokeDb id =>
    refine ⟨hS.mono (authStep_calm (by simp)), ?_⟩
    cases hp : sh.db.prefixOf id with
    | none => simp [authStep, Table.revokeById, hp, ThreadOk]
    | some p =>
      have hrev := Revoked.of_revokeById clock.utc hp
      simpa [authStep, Table.revokeById, hp, ThreadOk] using hrev
  | revokeInvalidate id tokenPrefix affected =>
    refine ⟨hS.mono (authStep_calm (by simp)), ?_⟩
    cases tokenPrefix with
    | none => trivial
    | some p => exact ⟨ht, CacheRevoked.of_invalidate hS ht⟩
  | revokeDone id tokenPrefix affected => exact ⟨hS, ht⟩

end Steps

/-! ## Runs without a stale insert -/

/-- The thread is a revoke of the row `id` that has returned. -/
def AuthThread.hasRevoked (id : Int) : AuthThread → Bool
  | .revokeDone id' (some _) _ => id' == id
  | _ => false

/-- A lookup that inserts a row after a revoke of this row has returned inserts it revoked. -/
def freshInsert (s : Sys Shared AuthThread) : Act AuthCall Clock → Bool
  | .run i _ =>
    match s.threads[i]? with
    | some (.lookupInsert _ token) =>
      !s.threads.any (·.hasRevoked token.row.id) || token.row.revokedAt.isSome
    | _ => true
  | .spawn _ => true

theorem isSome_of_freshInsert {s : Sys Shared AuthThread} {i j : Nat} {clock : Clock}
    {token : CachedToken} {n : Nat} (h : freshInsert s (.run i clock) = true)
    (hi : s.threads[i]? = some (.lookupInsert p token))
    (hj : s.threads[j]? = some (.revokeDone token.row.id (some q) n)) :
    token.row.revokedAt.isSome = true := by
  simp only [freshInsert, hi, Bool.or_eq_true, Bool.not_eq_true', List.any_eq_false] at h
  rcases h with hnone | hsome
  · have := hnone _ (List.mem_of_getElem? hj)
    simp [AuthThread.hasRevoked] at this
  · exact hsome

def Inv (s : Sys Shared AuthThread) : Prop :=
  SharedOk s.shared ∧ ∀ (j : Nat) u, s.threads[j]? = some u → ThreadOk s.shared u

theorem CacheRevoked.insert {cache : TokenCache} {now : Nat} {token : CachedToken}
    (h : CacheRevoked cache id) (hfresh : token.row.id = id → token.row.revokedAt.isSome = true) :
    CacheRevoked (cache.insert now p token) id := by
  intro q tok at' hold hid
  rcases TokenCache.holds_of_insert hold with ⟨-, rfl, -⟩ | ⟨-, hold⟩
  · exact hfresh hid
  · exact h q tok at' hold hid

theorem inv_openAuth (db : Table) (capacity ttl : Nat) : Inv (openAuth db capacity ttl) := by
  refine ⟨fun p token at' hold => absurd hold (TokenCache.not_holds_new _ _), ?_⟩
  intro j u hu
  simp [openAuth] at hu

theorem inv_act (s : Sys Shared AuthThread) (a : Act AuthCall Clock) (h : Inv s)
    (hfresh : freshInsert s a = true) : Inv (act authProgram s a) := by
  refine act_inv (T := fun _ => ThreadOk) ?_ ?_ h.1 h.2
  · intro call _
    cases call <;> trivial
  intro i clock t ha hi
  obtain ⟨hS, hT⟩ := authStep_ok clock h.1 (h.2 i t hi)
  refine ⟨hS, hT, fun j u hj hu => ?_⟩
  by_cases ht : ∃ p token, t = .lookupInsert p token
  · obtain ⟨p, token, rfl⟩ := ht
    unfold ThreadOk at hu ⊢
    split
    · exact hu
    · exact hu
    · refine ⟨hu.1, hu.2.insert fun hid => ?_⟩
      subst hid ha
      exact isSome_of_freshInsert hfresh hi hj
    · trivial
  · exact hu.mono (authStep_calm fun p token heq => ht ⟨p, token, heq⟩)

def SeesRevoked (id : Int) : AuthThread → Prop
  | .lookupInsert _ token => token.row.id = id → token.row.revokedAt.isSome = true
  | .lookupDone _ (.ok (some token)) => token.row.id = id → token.row.revokedAt.isSome = true
  | _ => True

theorem authStep_sees {sh : Shared} {clock : Clock} {t : AuthThread} (hrev : Revoked sh.db id p)
    (hcache : CacheRevoked sh.cache id) (ht : SeesRevoked id t) :
    SeesRevoked id (authStep clock sh t).2 := by
  cases t with
  | lookupGet q =>
    simp only [authStep]
    split
    · rename_i cached hit
      intro hid
      obtain ⟨at', hold, -⟩ := TokenCache.holds_of_get_eq_some hit
      exact hcache q cached at' hold hid
    · trivial
  | lookupRead q =>
    simp only [authStep]
    split
    · trivial
    · trivial
    · rename_i hdb
      exact fun hid => hrev.lookup hdb hid
  | lookupInsert q token => exact ht
  | lookupDone q result => exact ht
  | revokeDb id => trivial
  | revokeInvalidate id tokenPrefix affected =>
    cases tokenPrefix with
    | none => trivial
    | some q => trivial
  | revokeDone id tokenPrefix affected => trivial

/-- The state after a revoke of `id` has returned: threads from number `n` on see it. -/
structure AfterRevoke (i n : Nat) (id : Int) (p : Text) (k : Nat) (s : Sys Shared AuthThread) :
    Prop where
  inv : Inv s
  done : s.threads[i]? = some (.revokeDone id (some p) k)
  sees : ∀ (j : Nat) u, n ≤ j → s.threads[j]? = some u → SeesRevoked id u

theorem afterRevoke_act {i n : Nat} {k : Nat} (s : Sys Shared AuthThread) (a : Act AuthCall Clock)
    (h : AfterRevoke i n id p k s) (hfresh : freshInsert s a = true) :
    AfterRevoke i n id p k (act authProgram s a) := by
  refine ⟨inv_act s a h.inv hfresh,
    getElem?_act_of_finished h.done (fun _ _ => rfl) a, fun j u hj hu => ?_⟩
  obtain ⟨hrev, hcache⟩ := h.inv.2 i _ h.done
  rcases threads_act hu with hold | ⟨-, call, -, rfl⟩ | ⟨clock, t, -, ht, rfl⟩
  · exact h.sees j u hj hold
  · cases call <;> trivial
  · exact authStep_sees hrev hcache (h.sees j t hj ht)

/-- **Revocation is immediate in every run without a stale insert.** Once `revoke_client` has
returned for a row, no lookup started afterwards returns the row unrevoked. -/
theorem lookup_after_revoke (db : Table) (capacity ttl : Nat)
    (before after : List (Act AuthCall Clock))
    (hfresh : Along authProgram (fun s a => freshInsert s a = true) (openAuth db capacity ttl)
      (before ++ after))
    (i : Nat) (id : Int) (p : Text) (k : Nat)
    (hreturned : (exec authProgram (openAuth db capacity ttl) before).threads[i]? =
      some (.revokeDone id (some p) k))
    (j : Nat) (hstarted : (exec authProgram (openAuth db capacity ttl) before).threads.length ≤ j)
    (q : Text) (token : CachedToken)
    (hresult : (exec authProgram (openAuth db capacity ttl) (before ++ after)).threads[j]? =
      some (.lookupDone q (.ok (some token))))
    (hid : token.row.id = id) : token.row.revokedAt ≠ none := by
  obtain ⟨hbefore, hafter⟩ := hfresh.append
  have hinv := hbefore.exec_inv inv_act (inv_openAuth db capacity ttl)
  have hreturn : AfterRevoke i (exec authProgram (openAuth db capacity ttl) before).threads.length
      id p k (exec authProgram (openAuth db capacity ttl) before) := by
    refine ⟨hinv, hreturned, fun j u hj hu => ?_⟩
    have := (List.getElem?_eq_some_iff.1 hu).1
    omega
  have hend := hafter.exec_inv afterRevoke_act hreturn
  rw [← exec_append] at hend
  have hsome := hend.sees j _ hstarted hresult hid
  intro hnone
  rw [hnone] at hsome
  cases hsome

def exampleRecord : TokenRecord where
  row := { id := 1, tokenPrefix := "ng_p_abcde".toList, userId := 7, label := none,
           createdAt := [], expiresAt := none, revokedAt := none, lastUsedAt := none }
  hash := List.replicate 32 0

def exampleTable : Table := ⟨[exampleRecord], by decide, by decide⟩

def exampleClock : Clock := ⟨0, "t".toList⟩

def orderlyBefore : List (Act AuthCall Clock) :=
  [.spawn (.lookup "ng_p_abcde".toList), .run 0 exampleClock, .run 0 exampleClock,
    .run 0 exampleClock, .spawn (.revokeClient 1), .run 1 exampleClock, .run 1 exampleClock]

def orderlyAfter : List (Act AuthCall Clock) :=
  [.spawn (.lookup "ng_p_abcde".toList), .run 2 exampleClock, .run 2 exampleClock,
    .run 2 exampleClock]

theorem lookup_after_revoke_orderly :
    ∃ token : CachedToken,
      (exec authProgram (openAuth exampleTable 10 60) (orderlyBefore ++ orderlyAfter)).threads[2]? =
        some (.lookupDone "ng_p_abcde".toList (.ok (some token))) ∧ token.row.revokedAt ≠ none :=
  ⟨⟨{ exampleRecord.row with revokedAt := some "t".toList }, exampleRecord.hash⟩, rfl,
    lookup_after_revoke exampleTable 10 60 orderlyBefore orderlyAfter (by decide) 1 1
      "ng_p_abcde".toList 1 rfl 2 (by decide) "ng_p_abcde".toList _ rfl rfl⟩

/-! ## The stale insert -/

/-- A lookup misses and reads the row; a revoke runs from its start to its return. -/
def raceBefore : List (Act AuthCall Clock) :=
  [.spawn (.lookup "ng_p_abcde".toList), .run 0 exampleClock, .run 0 exampleClock,
    .spawn (.revokeClient 1), .run 1 exampleClock, .run 1 exampleClock]

/-- The first lookup inserts what it read; a new lookup finds it. -/
def raceAfter : List (Act AuthCall Clock) :=
  [.run 0 exampleClock, .spawn (.lookup "ng_p_abcde".toList), .run 2 exampleClock]

/-- **The race**: the revoke of row 1 has returned, and the lookup started afterwards returns the
row as not revoked. -/
theorem stale_insert_race :
    let s := exec authProgram (openAuth exampleTable 10 60) raceBefore
    let s' := exec authProgram (openAuth exampleTable 10 60) (raceBefore ++ raceAfter)
    s.threads[1]? = some (.revokeDone 1 (some "ng_p_abcde".toList) 1) ∧ s.threads.length = 2 ∧
      s'.threads[2]? = some (.lookupDone "ng_p_abcde".toList
        (.ok (some ⟨exampleRecord.row, exampleRecord.hash⟩))) ∧
      exampleRecord.row.id = 1 ∧ exampleRecord.row.revokedAt = none := by
  exact ⟨rfl, rfl, rfl, rfl, rfl⟩

end Nanoguard.ClientAuth

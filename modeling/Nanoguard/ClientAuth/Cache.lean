import Nanoguard.ClientAuth.Store
import Mathlib.Data.List.AList
import Mathlib.Data.List.MinMax

/-!
# The token cache

A bounded map from token prefixes to rows with a time to live. Each operation holds the cache's
lock for its whole duration and is one atomic step here; `now` is the clock it reads. The order in
which a hash map is traversed is the order of the association list.
-/

namespace Nanoguard.ClientAuth

structure CachedToken where
  row : ClientTokenRow
  hash : List UInt8
  deriving DecidableEq, Repr

structure Entry where
  token : CachedToken
  insertedAt : Nat
  lastUsed : Nat
  deriving DecidableEq, Repr

structure TokenCache where
  map : AList (fun _ : Text => Entry)
  counter : Nat
  capacity : Nat
  ttl : Nat

namespace TokenCache

def new (capacity ttl : Nat) : TokenCache := ⟨∅, 0, capacity, ttl⟩

def expired (c : TokenCache) (now : Nat) (e : Entry) : Bool := decide (c.ttl ≤ now - e.insertedAt)

def nextCounter (c : TokenCache) : Nat := (c.counter + 1) % 2 ^ 64

def get (c : TokenCache) (now : Nat) (tokenPrefix : Text) : TokenCache × Option CachedToken :=
  match c.map.lookup tokenPrefix with
  | none => (c, none)
  | some e =>
    if c.expired now e then ({ c with map := c.map.erase tokenPrefix }, none)
    else
      ({ c with
          counter := c.nextCounter
          map := c.map.insert tokenPrefix { e with lastUsed := c.nextCounter } },
        some e.token)

/-- The entry that makes room: the first expired one, else the least recently used one. -/
def victim (c : TokenCache) (now : Nat) : Option Text :=
  match c.map.entries.find? fun x => c.expired now x.2 with
  | some x => some x.1
  | none => (c.map.entries.argmin fun x => x.2.lastUsed).map (·.1)

def evictOne (c : TokenCache) (now : Nat) : TokenCache :=
  match c.victim now with
  | some key => { c with map := c.map.erase key }
  | none => c

def makeRoom (c : TokenCache) (now : Nat) : TokenCache :=
  if c.capacity ≤ c.map.entries.length then c.evictOne now else c

/-- Only a new key makes room; a key that is there is overwritten. -/
def insert (c : TokenCache) (now : Nat) (tokenPrefix : Text) (token : CachedToken) :
    TokenCache :=
  let counter := c.nextCounter
  let c := { c with counter }
  let c := if (c.map.lookup tokenPrefix).isSome then c else c.makeRoom now
  { c with map := c.map.insert tokenPrefix { token, insertedAt := now, lastUsed := counter } }

def invalidate (c : TokenCache) (tokenPrefix : Text) : TokenCache :=
  { c with map := c.map.erase tokenPrefix }

def clear (c : TokenCache) : TokenCache := { c with map := ∅ }

/-! ## What an operation leaves in the cache -/

/-- The cache holds `token` under `p`, inserted at the time `at'`. -/
def Holds (c : TokenCache) (p : Text) (token : CachedToken) (at' : Nat) : Prop :=
  ∃ e, c.map.lookup p = some e ∧ e.token = token ∧ e.insertedAt = at'

variable {c : TokenCache} {now at' : Nat} {p q : Text} {token tok : CachedToken}

theorem not_holds_new (capacity ttl : Nat) : ¬ (new capacity ttl).Holds p tok at' := by
  intro h
  obtain ⟨e, he, -⟩ := h
  simp [new] at he

theorem holds_of_erase {m : AList (fun _ : Text => Entry)} {e : Entry} {key : Text}
    (h : (m.erase key).lookup q = some e) : q ≠ key ∧ m.lookup q = some e := by
  by_cases hq : q = key
  · subst hq
    rw [AList.lookup_erase] at h
    cases h
  · rw [AList.lookup_erase_ne hq] at h
    exact ⟨hq, h⟩

theorem holds_of_get (h : (c.get now p).1.Holds q tok at') : c.Holds q tok at' := by
  obtain ⟨e', he', htok, hat⟩ := h
  unfold get at he'
  cases hp : c.map.lookup p with
  | none =>
    rw [hp] at he'
    exact ⟨e', he', htok, hat⟩
  | some e =>
    rw [hp] at he'
    simp only at he'
    split at he'
    · exact ⟨e', (holds_of_erase he').2, htok, hat⟩
    by_cases hq : q = p
    · subst hq
      simp only [AList.lookup_insert, Option.some.injEq] at he'
      subst he'
      exact ⟨e, hp, htok, hat⟩
    · simp only [AList.lookup_insert_ne hq] at he'
      exact ⟨e', he', htok, hat⟩

theorem holds_of_get_eq_some (h : (c.get now p).2 = some tok) :
    ∃ at', c.Holds p tok at' ∧ now - at' < c.ttl := by
  unfold get at h
  cases hp : c.map.lookup p with
  | none =>
    rw [hp] at h
    cases h
  | some e =>
    rw [hp] at h
    simp only at h
    split at h
    · cases h
    rename_i hexp
    simp only [Option.some.injEq] at h
    refine ⟨e.insertedAt, ⟨e, hp, h, rfl⟩, ?_⟩
    simpa [expired] using hexp

theorem lookup_of_makeRoom {e : Entry} (h : (c.makeRoom now).map.lookup q = some e) :
    c.map.lookup q = some e := by
  unfold makeRoom evictOne at h
  split at h
  · split at h
    · exact (holds_of_erase h).2
    · exact h
  · exact h

theorem holds_of_insert (h : (c.insert now p token).Holds q tok at') :
    (q = p ∧ tok = token ∧ at' = now) ∨ (q ≠ p ∧ c.Holds q tok at') := by
  obtain ⟨e, he, rfl, rfl⟩ := h
  unfold insert at he
  by_cases hq : q = p
  · subst hq
    simp only [AList.lookup_insert, Option.some.injEq] at he
    subst he
    exact .inl ⟨rfl, rfl, rfl⟩
  simp only [AList.lookup_insert_ne hq] at he
  refine .inr ⟨hq, e, ?_, rfl, rfl⟩
  split at he
  · exact he
  · have hroom := lookup_of_makeRoom he
    exact hroom

theorem holds_of_invalidate (h : (c.invalidate p).Holds q tok at') : q ≠ p ∧ c.Holds q tok at' := by
  obtain ⟨e, he, htok, hat⟩ := h
  obtain ⟨hq, he⟩ := holds_of_erase he
  exact ⟨hq, e, he, htok, hat⟩

theorem not_holds_clear : ¬ c.clear.Holds q tok at' := by
  intro h
  obtain ⟨e, he, -⟩ := h
  simp [clear] at he

@[simp] theorem get_ttl : (c.get now p).1.ttl = c.ttl := by
  unfold get
  split
  · rfl
  · split <;> rfl

@[simp] theorem makeRoom_ttl : (c.makeRoom now).ttl = c.ttl := by
  unfold makeRoom evictOne
  split
  · split <;> rfl
  · rfl

@[simp] theorem insert_ttl : (c.insert now p token).ttl = c.ttl := by
  unfold insert
  simp only
  split
  · rfl
  · exact makeRoom_ttl

end TokenCache

end Nanoguard.ClientAuth

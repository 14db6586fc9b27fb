import Nanoguard.Lib.RustStr
import Mathlib.Data.List.Nodup

/-!
# The table `client_tokens`

Rows are inserted and marked revoked, never deleted. `Table.Le` says what can happen to a table:
rows stay, and nothing of a row changes but `revoked_at`, which is set once.
-/

namespace Nanoguard.ClientAuth

open List

abbrev Digest := { bytes : List UInt8 // bytes.length = 32 }

structure ClientTokenRow where
  id : Int
  tokenPrefix : Text
  userId : Int
  label : Option Text
  createdAt : Text
  expiresAt : Option Text
  revokedAt : Option Text
  lastUsedAt : Option Text
  deriving DecidableEq, Repr

/-- A row with the stored hash, which in the table is a blob of any length. -/
structure TokenRecord where
  row : ClientTokenRow
  hash : List UInt8
  deriving DecidableEq, Repr

variable {id : Int} {p : Text} {r r' : TokenRecord}

/-- The table, with its primary key and its unique column. -/
structure Table where
  records : List TokenRecord
  ids_nodup : (records.map (·.row.id)).Nodup
  prefixes_nodup : (records.map (·.row.tokenPrefix)).Nodup

/-- `SET revoked_at = now WHERE sel AND revoked_at IS NULL`, on one record. -/
def TokenRecord.markRevoked (now : Text) (sel : ClientTokenRow → Bool) (r : TokenRecord) :
    TokenRecord :=
  if sel r.row && r.row.revokedAt.isNone then
    { r with row := { r.row with revokedAt := some now } }
  else r

@[simp] theorem TokenRecord.markRevoked_id (now : Text) (sel : ClientTokenRow → Bool)
    (r : TokenRecord) : (r.markRevoked now sel).row.id = r.row.id := by
  unfold markRevoked
  split <;> rfl

@[simp] theorem TokenRecord.markRevoked_tokenPrefix (now : Text) (sel : ClientTokenRow → Bool)
    (r : TokenRecord) : (r.markRevoked now sel).row.tokenPrefix = r.row.tokenPrefix := by
  unfold markRevoked
  split <;> rfl

namespace Table

def empty : Table := ⟨[], List.nodup_nil, List.nodup_nil⟩

def nextId (db : Table) : Int := (db.records.map (·.row.id)).foldr max 0 + 1

theorem lt_nextId (db : Table) (h : id ∈ db.records.map (·.row.id)) : id < db.nextId := by
  unfold nextId
  have hle : ∀ l : List Int, id ∈ l → id ≤ l.foldr max 0 := by
    intro l hl
    induction l with
    | nil => cases hl
    | cons a l ih =>
      rw [foldr_cons]
      rcases mem_cons.1 hl with rfl | hl
      · omega
      · have := ih hl
        omega
  have := hle _ h
  omega

def newRecord (db : Table) (now tokenPrefix : Text) (hash : Digest) (userId : Int)
    (label expiresAt : Option Text) : TokenRecord where
  row := { id := db.nextId, tokenPrefix, userId, label, createdAt := now, expiresAt,
           revokedAt := none, lastUsedAt := none }
  hash := hash.1

/-- `store::insert`. A prefix that is already there violates the unique column. -/
def insert (db : Table) (now tokenPrefix : Text) (hash : Digest) (userId : Int)
    (label expiresAt : Option Text) : Option (Table × Int) :=
  if h : tokenPrefix ∈ db.records.map (·.row.tokenPrefix) then none
  else some (
    { records := db.records ++ [db.newRecord now tokenPrefix hash userId label expiresAt]
      ids_nodup := by
        rw [List.map_append, List.nodup_append]
        refine ⟨db.ids_nodup, List.nodup_singleton _, ?_⟩
        intro id hid id' hid' heq
        rw [List.map_singleton, List.mem_singleton] at hid'
        have hlt := db.lt_nextId hid
        rw [heq, hid'] at hlt
        exact absurd hlt (Int.lt_irrefl _)
      prefixes_nodup := by
        rw [List.map_append, List.nodup_append]
        refine ⟨db.prefixes_nodup, List.nodup_singleton _, ?_⟩
        intro p hp p' hp' heq
        rw [List.map_singleton, List.mem_singleton] at hp'
        exact h (by rw [heq, hp'] at hp; exact hp) },
    db.nextId)

/-- `UPDATE client_tokens SET revoked_at = ? WHERE sel AND revoked_at IS NULL`, and the number of
rows it changed. -/
def markRevoked (db : Table) (now : Text) (sel : ClientTokenRow → Bool) : Table × Nat :=
  ({ records := db.records.map (TokenRecord.markRevoked now sel)
     ids_nodup := by simpa [Function.comp_def] using db.ids_nodup
     prefixes_nodup := by simpa [Function.comp_def] using db.prefixes_nodup },
    db.records.countP fun r => sel r.row && r.row.revokedAt.isNone)

def revoke (db : Table) (now : Text) (id : Int) : Table × Nat :=
  db.markRevoked now fun row => row.id == id

def revokeAllForUser (db : Table) (now : Text) (userId : Int) : Table × Nat :=
  db.markRevoked now fun row => row.userId == userId

def lookupByPrefix (db : Table) (tokenPrefix : Text) :
    Except Text (Option (ClientTokenRow × List UInt8)) :=
  match db.records.find? (·.row.tokenPrefix == tokenPrefix) with
  | none => .ok none
  | some r =>
    if r.hash.length ≠ 32 then .error "client_tokens.hash is not 32 bytes".toList
    else .ok (some (r.row, r.hash))

def prefixOf (db : Table) (id : Int) : Option Text :=
  (db.records.find? (·.row.id == id)).map (·.row.tokenPrefix)

/-! ## What the operations do to a record -/

variable {db : Table} {r r' : TokenRecord}

theorem eq_of_id (hr : r ∈ db.records) (hr' : r' ∈ db.records) (h : r.row.id = r'.row.id) :
    r = r' :=
  inj_on_of_nodup_map db.ids_nodup hr hr' h

theorem eq_of_prefix (hr : r ∈ db.records) (hr' : r' ∈ db.records)
    (h : r.row.tokenPrefix = r'.row.tokenPrefix) : r = r' :=
  inj_on_of_nodup_map db.prefixes_nodup hr hr' h

theorem mem_of_lookupByPrefix {row : ClientTokenRow} {hash : List UInt8}
    (h : db.lookupByPrefix p = .ok (some (row, hash))) :
    ⟨row, hash⟩ ∈ db.records ∧ row.tokenPrefix = p := by
  unfold lookupByPrefix at h
  cases hfind : db.records.find? (·.row.tokenPrefix == p) with
  | none =>
    rw [hfind] at h
    cases h
  | some r =>
    rw [hfind] at h
    simp only at h
    split at h
    · cases h
    · obtain ⟨rfl, rfl⟩ := h
      exact ⟨mem_of_find?_eq_some hfind, by simpa using find?_some hfind⟩

theorem lookupByPrefix_of_mem (hr : r ∈ db.records) (hhash : r.hash.length = 32) :
    db.lookupByPrefix r.row.tokenPrefix = .ok (some (r.row, r.hash)) := by
  unfold lookupByPrefix
  cases hfind : db.records.find? (·.row.tokenPrefix == r.row.tokenPrefix) with
  | none => exact absurd (find?_eq_none.1 hfind r hr) (by simp)
  | some r' =>
    have heq : r' = r := eq_of_prefix (mem_of_find?_eq_some hfind) hr
      (by simpa using find?_some hfind)
    subst heq
    simp [hhash]

theorem prefixOf_eq_some_iff :
    db.prefixOf id = some p ↔ ∃ r ∈ db.records, r.row.id = id ∧ r.row.tokenPrefix = p := by
  unfold prefixOf
  constructor
  · intro h
    obtain ⟨r, hfind, rfl⟩ := Option.map_eq_some_iff.1 h
    exact ⟨r, mem_of_find?_eq_some hfind, by simpa using find?_some hfind, rfl⟩
  · intro h
    obtain ⟨r, hr, rfl, rfl⟩ := h
    cases hfind : db.records.find? (·.row.id == r.row.id) with
    | none => exact absurd (find?_eq_none.1 hfind r hr) (by simp)
    | some r' =>
      have heq : r' = r := eq_of_id (mem_of_find?_eq_some hfind) hr
        (by simpa using find?_some hfind)
      rw [heq, Option.map_some]

end Table

/-- The same record but for `revoked_at`, which may have been set. -/
structure TokenRecord.Le (r r' : TokenRecord) : Prop where
  hash_eq : r'.hash = r.hash
  row_eq : r'.row = { r.row with revokedAt := r'.row.revokedAt }
  revoked : ∀ at', r.row.revokedAt = some at' → r'.row.revokedAt = some at'

/-- Every record of the first table is still in the second one. -/
def Table.Le (db db' : Table) : Prop := ∀ r ∈ db.records, ∃ r' ∈ db'.records, r.Le r'

theorem TokenRecord.Le.refl (r : TokenRecord) : r.Le r := ⟨rfl, rfl, fun _ h => h⟩

theorem TokenRecord.Le.trans {r'' : TokenRecord} (h : r.Le r') (h' : r'.Le r'') : r.Le r'' :=
  ⟨h'.hash_eq.trans h.hash_eq, by rw [h'.row_eq, h.row_eq],
    fun at' hat => h'.revoked at' (h.revoked at' hat)⟩

theorem TokenRecord.Le.id_eq (h : r.Le r') : r'.row.id = r.row.id := by
  rw [h.row_eq]

theorem TokenRecord.Le.prefix_eq (h : r.Le r') : r'.row.tokenPrefix = r.row.tokenPrefix := by
  rw [h.row_eq]

theorem TokenRecord.Le.expiresAt_eq (h : r.Le r') : r'.row.expiresAt = r.row.expiresAt := by
  rw [h.row_eq]

namespace Table

variable {db db' db'' : Table}

theorem Le.refl (db : Table) : db.Le db := fun r hr => ⟨r, hr, .refl r⟩

theorem Le.trans (h : db.Le db') (h' : db'.Le db'') : db.Le db'' := by
  intro r hr
  obtain ⟨r', hr', hle⟩ := h r hr
  obtain ⟨r'', hr'', hle'⟩ := h' r' hr'
  exact ⟨r'', hr'', hle.trans hle'⟩

theorem le_insert {now : Text} {hash : Digest} {userId : Int} {label expiresAt : Option Text}
    (h : db.insert now p hash userId label expiresAt = some (db', id)) : db.Le db' := by
  unfold insert at h
  split at h
  · cases h
  obtain ⟨rfl, -⟩ := h
  intro r hr
  exact ⟨r, mem_append_left _ hr, .refl r⟩

theorem le_markRevoked (db : Table) (now : Text) (sel : ClientTokenRow → Bool) :
    db.Le (db.markRevoked now sel).1 := by
  intro r hr
  refine ⟨_, mem_map_of_mem hr, ?_⟩
  unfold TokenRecord.markRevoked
  split
  · rename_i hlive
    refine ⟨rfl, rfl, fun at' hat => ?_⟩
    rw [hat] at hlive
    simp at hlive
  · exact .refl r

theorem markRevoked_isSome {now : Text} {sel : ClientTokenRow → Bool}
    (hr : r ∈ (db.markRevoked now sel).1.records) (h : sel r.row = true) :
    r.row.revokedAt.isSome = true := by
  obtain ⟨r₀, -, rfl⟩ := mem_map.1 hr
  unfold TokenRecord.markRevoked at h ⊢
  split at h
  · rename_i hlive
    rw [if_pos hlive]
    rfl
  rename_i hlive
  rw [if_neg hlive]
  rw [h, Bool.true_and, Bool.not_eq_true, Option.isNone_eq_false_iff] at hlive
  exact hlive

end Table

end Nanoguard.ClientAuth

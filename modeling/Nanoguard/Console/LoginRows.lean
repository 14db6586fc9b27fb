import Nanoguard.Console.Login

/-!
# What the statements of a login do to the rows

The lock and the failures of one user, the stored hashes and the sessions: which statements leave
them, and what the others make of them. Times are written as texts; `Chrono` is what the texts keep
of the instants.
-/

namespace Nanoguard.Console

open List

variable {id : Int} {f : User → User} {username now : Text} {ip : Option Text} {hash : List UInt8}
  {db' : LoginDb}

/-! ## Times -/

/-- From the year 0 to the year 9999. -/
def FourDigitYear (t : Int) : Prop := -62167219200 * 10 ^ 9 ≤ t ∧ t < 253402300800 * 10 ^ 9

instance (t : Int) : Decidable (FourDigitYear t) := inferInstanceAs (Decidable (_ ∧ _))

/-- What the texts of instants keep: their order, also against years before 0, and the instant. -/
structure Chrono (X : Crates) : Prop where
  lt_of_lt : ∀ s t, FourDigitYear t → s < t → X.toRfc3339 s < X.toRfc3339 t
  parse_text : ∀ t, FourDigitYear t → X.parseRfc3339 (X.toRfc3339 t) = some t

theorem Chrono.not_lt {X : Crates} (hX : Chrono X) {s t : Int} (ht : FourDigitYear t) (h : s ≤ t) :
    ¬ X.toRfc3339 t < X.toRfc3339 s := by
  rcases Int.lt_or_eq_of_le h with hlt | rfl
  · exact List.lt_asymm (hX.lt_of_lt s t ht hlt)
  · exact List.lt_irrefl _

theorem isLocked_anti {X : Crates} {now later : Int} {lockedUntil : Option Text} (h : now ≤ later)
    (hlocked : isLocked X later lockedUntil = true) : isLocked X now lockedUntil = true := by
  unfold isLocked at hlocked ⊢
  split at hlocked
  next t ht =>
    have hlt := of_decide_eq_true hlocked
    exact decide_eq_true (by omega)
  next => cases hlocked

section Padded

/-! The assumption can be met: times are written with 21 digits, counted from the year 0. -/

def padded : Nat → Nat → Text
  | 0, _ => []
  | w + 1, n => (n / 10 ^ w).digitChar :: padded w (n % 10 ^ w)

def unpadded : Nat → Text → Nat
  | w + 1, c :: rest => (c.toNat - 48) * 10 ^ w + unpadded w rest
  | _, _ => 0

theorem lt_iff_div_mod {d : Nat} (m n : Nat) :
    m < n ↔ m / d < n / d ∨ m / d = n / d ∧ m % d < n % d := by
  have hm := Nat.div_add_mod m d
  have hn := Nat.div_add_mod n d
  constructor
  · intro h
    rcases Nat.lt_or_eq_of_le (Nat.div_le_div_right (c := d) h.le) with hlt | heq
    · exact .inl hlt
    · rw [heq] at hm
      exact .inr ⟨heq, by omega⟩
  · rintro (hlt | ⟨heq, hlt⟩)
    · by_contra hle
      exact absurd (Nat.div_le_div_right (Nat.not_lt.1 hle)) (Nat.not_le.2 hlt)
    · rw [heq] at hm
      omega

theorem padded_append_lt {w m n : Nat} (hm : m < 10 ^ w) (hn : n < 10 ^ w) (x y : Text) :
    padded w m ++ x < padded w n ++ y ↔ m < n ∨ m = n ∧ x < y := by
  induction w generalizing m n with
  | zero => simp [padded, Nat.lt_one_iff.1 hm, Nat.lt_one_iff.1 hn]
  | succ w ih =>
    have hdigits : ∀ e < 10, ∀ d < 10, (d.digitChar < e.digitChar ↔ d < e) ∧
        (d.digitChar = e.digitChar ↔ d = e) := by decide
    have hpos : 0 < 10 ^ w := Nat.pow_pos (by omega)
    rw [Nat.pow_succ] at hm hn
    have hdigit := hdigits _ (Nat.div_lt_of_lt_mul hn) _ (Nat.div_lt_of_lt_mul hm)
    have heq : m = n ↔ m / 10 ^ w = n / 10 ^ w ∧ m % 10 ^ w = n % 10 ^ w := by
      refine ⟨fun h => h ▸ ⟨rfl, rfl⟩, fun h => ?_⟩
      rw [← Nat.div_add_mod m (10 ^ w), ← Nat.div_add_mod n (10 ^ w), h.1, h.2]
    simp only [padded, cons_append, cons_lt_cons_iff, hdigit.1, hdigit.2,
      ih (Nat.mod_lt m hpos) (Nat.mod_lt n hpos), heq]
    rw [lt_iff_div_mod (d := 10 ^ w) m n, and_or_left, ← or_assoc, ← and_assoc]

theorem padded_lt {w m n : Nat} (hn : n < 10 ^ w) (h : m < n) : padded w m < padded w n := by
  have := (padded_append_lt (Nat.lt_trans h hn) hn [] []).2 (.inl h)
  rwa [append_nil, append_nil] at this

theorem unpadded_padded {w n : Nat} (hn : n < 10 ^ w) : unpadded w (padded w n) = n := by
  induction w generalizing n with
  | zero =>
    exact (Nat.lt_one_iff.1 hn).symm
  | succ w ih =>
    have hdigits : ∀ d < 10, d.digitChar.toNat - 48 = d := by decide
    have hpos : 0 < 10 ^ w := Nat.pow_pos (by omega)
    have hlead : n / 10 ^ w < 10 := Nat.div_lt_of_lt_mul (by omega)
    unfold padded unpadded
    rw [hdigits _ hlead, ih (Nat.mod_lt _ hpos)]
    exact Nat.div_add_mod' n (10 ^ w)

def yearZero : Int := -62167219200 * 10 ^ 9

def paddedCrates : LoginCrates where
  parseCookie _ := none
  verifyCookie _ value := some value
  parseRfc3339 text := if text.isEmpty then none else some (yearZero + unpadded 21 text)
  toRfc3339 t := if t < yearZero then [] else padded 21 (t - yearZero).toNat
  emptySegment := false
  argon2Verify password hash := decide (password = hash)
  toLowercase text := text.map Char.toLower

theorem padded_chrono : Chrono paddedCrates.toCrates := by
  have hrange {t : Int} (ht : FourDigitYear t) : (t - yearZero).toNat < 10 ^ 21 := by
    unfold FourDigitYear at ht
    unfold yearZero
    omega
  have htext {t : Int} (ht : FourDigitYear t) :
      paddedCrates.toRfc3339 t = padded 21 (t - yearZero).toNat :=
    if_neg (Int.not_lt.2 ht.1)
  refine ⟨fun s t ht hlt => ?_, fun t ht => ?_⟩
  · rw [htext ht]
    by_cases hs : s < yearZero
    · rw [show paddedCrates.toRfc3339 s = [] from if_pos hs]
      exact nil_lt_cons _ _
    · rw [show paddedCrates.toRfc3339 s = padded 21 (s - yearZero).toNat from if_neg hs]
      exact padded_lt (hrange ht) (by omega)
  have hstart := ht.1
  rw [htext ht]
  change some (yearZero + (unpadded 21 (padded 21 (t - yearZero).toNat) : Int)) = some t
  rw [unpadded_padded (hrange ht), Option.some.injEq]
  unfold yearZero
  omega

end Padded

/-! ## The rows of one user -/

namespace LoginDb

variable {db : LoginDb} {X : Crates} {u : Text} {w : Int}

/-- The id behind a name, which no statement changes. -/
def idOf (db : LoginDb) (u : Text) : Option Int := (db.row u).map User.id

theorem idOf_inj {v : Text} (hu : db.idOf u = some id) (hv : db.idOf v = some id) : v = u := by
  obtain ⟨r, hr, hrid⟩ := Option.map_eq_some_iff.1 hu
  obtain ⟨r', hr', hrid'⟩ := Option.map_eq_some_iff.1 hv
  have heq : r' = r := inj_on_of_nodup_map db.userIds_nodup (mem_of_find?_eq_some hr')
    (mem_of_find?_eq_some hr) (hrid'.trans hrid.symm)
  rw [← username_of_row hr, ← username_of_row hr', heq]

section Update

variable {id : Int} {f : User → User} {hf : ∀ user, (f user).id = user.id}

theorem find?_updateUser {p : User → Bool} (hw : db.writable = true)
    (hp : ∀ user, p (f user) = p user) :
    (db.updateUser id f hf).users.find? p =
      (db.users.find? p).map fun r => if r.id = id then f r else r := by
  unfold updateUser
  rw [if_pos hw, find?_map]
  congr 2
  funext r
  rw [Function.comp_apply]
  split
  · exact hp r
  · rfl

theorem row_updateUser (hw : db.writable = true)
    (hname : ∀ user, (f user).username = user.username) :
    (db.updateUser id f hf).row u = (db.row u).map fun r => if r.id = id then f r else r := by
  apply find?_updateUser hw
  intro user
  rw [hname]

theorem idOf_updateUser (hw : db.writable = true)
    (hname : ∀ user, (f user).username = user.username) :
    (db.updateUser id f hf).idOf u = db.idOf u := by
  unfold idOf
  rw [row_updateUser hw hname, Option.map_map]
  congr 1
  funext r
  rw [Function.comp_apply]
  split
  · exact hf r
  · rfl

end Update

/-- The account is locked beyond `w`. -/
def LockedPast (X : Crates) (u : Text) (w : Int) (db : LoginDb) : Prop :=
  ∃ r, db.row u = some r ∧ isLocked X w r.lockedUntil = true

theorem LockedPast.updateUser {hf : ∀ user, (f user).id = user.id} (h : db.LockedPast X u w)
    (hw : db.writable = true) (hname : ∀ user, (f user).username = user.username)
    (hlock : ∀ r, db.row u = some r → r.id = id → isLocked X w (f r).lockedUntil = true) :
    (db.updateUser id f hf).LockedPast X u w := by
  obtain ⟨r, hr, hlocked⟩ := h
  refine ⟨if r.id = id then f r else r, ?_, ?_⟩
  · rw [row_updateUser hw hname, hr]
    rfl
  · split
    next hid => exact hlock r hr hid
    next => exact hlocked

/-! ## The failures of one user -/

/-- A failure of the user, recorded no earlier than `w`. -/
def RecordedSince (X : Crates) (u : Text) (w : Int) (a : LoginAttempt) : Prop :=
  a.username = u ∧ ∃ t, w ≤ t ∧ FourDigitYear t ∧ a.attemptedAt = X.toRfc3339 t

noncomputable instance : DecidablePred (RecordedSince X u w) := fun _ => Classical.propDecidable _

noncomputable def failures (X : Crates) (u : Text) (w : Int) (db : LoginDb) : Nat :=
  db.attempts.countP fun a => decide (RecordedSince X u w a)

theorem failures_le_record :
    db.failures X u w ≤ (db.recordLoginAttempt username ip now).failures X u w := by
  unfold recordLoginAttempt failures
  split
  · rw [countP_append]
    exact Nat.le_add_right _ _
  · exact Nat.le_refl _

theorem failures_record {now : Int} (hwr : db.writable = true) (hnow : w ≤ now)
    (hyear : FourDigitYear now) :
    (db.recordLoginAttempt u ip (X.toRfc3339 now)).failures X u w = db.failures X u w + 1 := by
  have hnew : RecordedSince X u w ⟨u, ip, X.toRfc3339 now⟩ := ⟨rfl, now, hnow, hyear, rfl⟩
  unfold recordLoginAttempt failures
  rw [if_pos hwr, countP_append, countP_singleton, if_pos (decide_eq_true hnew)]

theorem failures_delete {p : LoginAttempt → Bool} (h : ∀ a, RecordedSince X u w a → p a = false) :
    (db.deleteAttempts p).failures X u w = db.failures X u w := by
  unfold deleteAttempts failures
  split
  · rw [countP_filter]
    refine countP_congr fun a _ => ?_
    by_cases ha : RecordedSince X u w a
    · simp [h a ha]
    · simp [ha]
  · rfl

theorem failures_le_count (hX : Chrono X) {since : Int} (hsince : since < w)
    (herror : db.attemptsError = none) :
    ∃ n, db.countRecentLoginAttempts u (X.toRfc3339 since) = .ok n ∧ db.failures X u w ≤ n := by
  unfold countRecentLoginAttempts countAttempts
  rw [herror]
  refine ⟨_, rfl, countP_mono_left fun a _ ha => ?_⟩
  obtain ⟨hname, t, hwt, hyear, htext⟩ := of_decide_eq_true ha
  have hlt : X.toRfc3339 since < a.attemptedAt := by
    rw [htext]
    exact hX.lt_of_lt since t hyear (by omega)
  simp [hname, hlt]

section Reset

variable {uid : Int}

def hashOf (db : LoginDb) (uid : Int) : Option (List UInt8) :=
  (db.users.find? fun r => decide (r.id = uid)).bind User.passwordHash

theorem hashOf_updateUser (hf : ∀ user, (f user).id = user.id)
    (hhash : ∀ user, user.id = uid → user.id = id → (f user).passwordHash = user.passwordHash) :
    (db.updateUser id f hf).hashOf uid = db.hashOf uid := by
  by_cases hw : db.writable = true
  · have hid (user : User) : decide ((f user).id = uid) = decide (user.id = uid) := by rw [hf]
    unfold hashOf
    rw [find?_updateUser hw hid]
    cases hfind : db.users.find? fun r => decide (r.id = uid) with
    | none => rfl
    | some r =>
      have hr := find?_some hfind
      rw [decide_eq_true_eq] at hr
      rw [Option.map_some]
      split
      next hrid => exact hhash r hr hrid
      next => rfl
  · unfold updateUser
    rw [if_neg hw]

theorem hashOf_setLockedUntil {until_ : Option Text} :
    (db.setLockedUntil id until_).hashOf uid = db.hashOf uid := by
  apply hashOf_updateUser
  intro user _ _
  rfl

theorem hashOf_updateLastLogin : (db.updateLastLogin id now).hashOf uid = db.hashOf uid := by
  apply hashOf_updateUser
  intro user _ _
  rfl

theorem hashOf_setPasswordHash (hne : uid ≠ id) :
    (db.setPasswordHash id hash).hashOf uid = db.hashOf uid := by
  apply hashOf_updateUser
  intro user huid hid
  exact absurd (huid.symm.trans hid) hne

theorem hashOf_recordLoginAttempt :
    (db.recordLoginAttempt username ip now).hashOf uid = db.hashOf uid := by
  unfold recordLoginAttempt
  split <;> rfl

theorem hashOf_deleteAttempts (p : LoginAttempt → Bool) :
    (db.deleteAttempts p).hashOf uid = db.hashOf uid := by
  unfold deleteAttempts
  split <;> rfl

theorem hashOf_deleteSessions (p : Session → Bool) :
    (db.deleteSessions p).hashOf uid = db.hashOf uid := by
  unfold deleteSessions
  split <;> rfl

theorem hashOf_rotateCsrfToken (id newToken : List UInt8) :
    (db.rotateCsrfToken id newToken).hashOf uid = db.hashOf uid := by
  unfold rotateCsrfToken
  split <;> rfl

/-! ## Sessions -/

/-- Every session of the second table was in the first one. Its CSRF token may have changed. -/
def SessionsFrom (db db' : LoginDb) : Prop :=
  ∀ x ∈ db'.sessions, ∃ y ∈ db.sessions, y.id = x.id ∧ y.userId = x.userId

theorem SessionsFrom.of_subset (h : db'.sessions ⊆ db.sessions) : SessionsFrom db db' := by
  intro x hx
  exact ⟨x, h hx, rfl, rfl⟩

theorem SessionsFrom.refl (db : LoginDb) : SessionsFrom db db := .of_subset (List.Subset.refl _)

theorem sessionsFrom_updateUser {hf : ∀ user, (f user).id = user.id} :
    SessionsFrom db (db.updateUser id f hf) := by
  apply SessionsFrom.of_subset
  unfold updateUser
  split <;> exact List.Subset.refl _

theorem sessionsFrom_setLockedUntil {until_ : Option Text} :
    SessionsFrom db (db.setLockedUntil id until_) := by
  exact sessionsFrom_updateUser

theorem sessionsFrom_updateLastLogin : SessionsFrom db (db.updateLastLogin id now) := by
  exact sessionsFrom_updateUser

theorem sessionsFrom_setPasswordHash : SessionsFrom db (db.setPasswordHash id hash) := by
  exact sessionsFrom_updateUser

theorem sessionsFrom_recordLoginAttempt :
    SessionsFrom db (db.recordLoginAttempt username ip now) := by
  apply SessionsFrom.of_subset
  unfold recordLoginAttempt
  split <;> exact List.Subset.refl _

theorem sessionsFrom_deleteAttempts (p : LoginAttempt → Bool) :
    SessionsFrom db (db.deleteAttempts p) := by
  apply SessionsFrom.of_subset
  unfold deleteAttempts
  split <;> exact List.Subset.refl _

theorem sessionsFrom_deleteSessions (p : Session → Bool) :
    SessionsFrom db (db.deleteSessions p) := by
  apply SessionsFrom.of_subset
  unfold deleteSessions
  split
  · exact filter_sublist.subset
  · exact List.Subset.refl _

theorem sessionsFrom_rotateCsrfToken (id newToken : List UInt8) :
    SessionsFrom db (db.rotateCsrfToken id newToken) := by
  unfold rotateCsrfToken
  split
  · intro x hx
    obtain ⟨y, hy, rfl⟩ := mem_map.1 hx
    refine ⟨y, hy, ?_, ?_⟩
    all_goals split <;> rfl
  · exact .refl db

theorem SessionsFrom.trans {db'' : LoginDb} (h : SessionsFrom db db') (h' : SessionsFrom db' db'') :
    SessionsFrom db db'' := by
  intro x hx
  obtain ⟨y, hy, hid, huser⟩ := h' x hx
  obtain ⟨z, hz, hid', huser'⟩ := h y hy
  exact ⟨z, hz, hid'.trans hid, huser'.trans huser⟩

theorem of_createSession {session : Session} (h : db.createSession session = some db') :
    session.id ∉ db.sessions.map Session.id ∧ db'.sessions = db.sessions ++ [session] ∧
      db'.users = db.users := by
  unfold createSession at h
  split at h
  next hnew =>
    cases h
    exact ⟨hnew.2, rfl, rfl⟩
  next => cases h

theorem writable_setPasswordHash : (db.setPasswordHash id hash).writable = db.writable := by
  unfold setPasswordHash updateUser
  split <;> rfl

theorem userId_ne_of_resetPassword (h : db.resetPassword id hash = some db') {x : Session}
    (hx : x ∈ db'.sessions) : x.userId ≠ id := by
  unfold resetPassword at h
  split at h
  next hw =>
    cases h
    unfold deleteUserSessions deleteSessions at hx
    rw [if_pos (writable_setPasswordHash.trans hw)] at hx
    intro hid
    have hkept := (mem_filter.1 hx).2
    simp [hid] at hkept
  next => cases h

theorem of_resetPassword (h : db.resetPassword id hash = some db') :
    SessionsFrom db db' ∧ (uid ≠ id → db'.hashOf uid = db.hashOf uid) := by
  unfold resetPassword at h
  split at h
  · cases h
    refine ⟨sessionsFrom_setPasswordHash.trans (sessionsFrom_deleteSessions _), fun hne => ?_⟩
    exact (hashOf_deleteSessions _).trans (hashOf_setPasswordHash hne)
  · cases h

end Reset

end LoginDb

end Nanoguard.Console

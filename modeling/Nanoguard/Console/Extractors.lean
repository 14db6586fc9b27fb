import Nanoguard.Console.Auth
import Nanoguard.Lib.Results

/-!
# The two extractors, side by side

`CurrentUser` and `MutatingUser` are written out twice in the source, and so they are here, with the
arithmetic of times that can panic. Without a panic they are the extractors of `Console.Auth`, which
share one lookup.
-/

namespace Nanoguard.Console

section Extractors

/-! `cutoff now n` is `now - Duration::hours(n)`, which panics if it is out of range. -/

variable (X : Crates) (cfg : ConsoleConfig) (cutoff : Int → Int → Option Int)

/-- The session of a `CurrentUser`: the user, and whether the session is missing or over. -/
def CurrentUser.lookup (db : ConsoleDb) (sid : List UInt8) (now touched : Int) :
    ConsoleDb × Option (Except Text (Option User × Bool)) :=
  match db.sessionById sid with
  | .error e => (db, some (.error e))
  | .ok none => (db, some (.ok (none, true)))
  | .ok (some session) =>
    if now > instant X session.expiresAt then (db.deleteSession sid, some (.ok (none, true)))
    else
      match cutoff now (cfg.sessionIdleTimeoutHours.getD cfg.sessionTtlHours) with
      | none => (db, none)
      | some idleCutoff =>
        if instant X session.lastSeenAt < idleCutoff then
          (db.deleteSession sid, some (.ok (none, true)))
        else
          let db := db.touchSession (X.toRfc3339 touched) sid
          match db.userById session.userId with
          | .error e => (db, some (.error e))
          | .ok user => (db, some (.ok (user, false)))

/-- `CurrentUser::from_request_parts`. No result is a panic. -/
def CurrentUser.extract (db : ConsoleDb) (headers : Headers) (now touched : Int) :
    ConsoleDb × Option (Except AuthError User) :=
  match extractSessionId X headers cfg.sessionSecret with
  | none => (db, some (.error ⟨401, "no session".toList⟩))
  | some sid =>
    let (db, found) := CurrentUser.lookup X cfg cutoff db sid now touched
    (db, found.map fun found =>
      match found with
      | .error e => .error ⟨500, e⟩
      | .ok (user, expired) => requireUser user expired)

/-- The session of a `MutatingUser`, with its CSRF token. -/
def MutatingUser.lookup (db : ConsoleDb) (sid : List UInt8) (now touched : Int) :
    ConsoleDb × Option (Except Text (Option User × Option (List UInt8) × Bool)) :=
  match db.sessionById sid with
  | .error e => (db, some (.error e))
  | .ok none => (db, some (.ok (none, none, true)))
  | .ok (some session) =>
    if now > instant X session.expiresAt then (db.deleteSession sid, some (.ok (none, none, true)))
    else
      match cutoff now (cfg.sessionIdleTimeoutHours.getD cfg.sessionTtlHours) with
      | none => (db, none)
      | some idleCutoff =>
        if instant X session.lastSeenAt < idleCutoff then
          (db.deleteSession sid, some (.ok (none, none, true)))
        else
          let db := db.touchSession (X.toRfc3339 touched) sid
          match db.userById session.userId with
          | .error e => (db, some (.error e))
          | .ok user => (db, some (.ok (user, session.csrfToken, false)))

def providedCsrf (headers : Headers) : Option (List UInt8) :=
  ((headers.lookup csrfHeader).bind ClientAuth.headerToStr).bind decodeCsrfToken

def MutatingUser.extract (db : ConsoleDb) (headers : Headers) (now touched : Int) :
    ConsoleDb × Option (Except AuthError (User × List UInt8)) :=
  match extractSessionId X headers cfg.sessionSecret with
  | none => (db, some (.error ⟨401, "no session".toList⟩))
  | some sid =>
    let (db, found) := MutatingUser.lookup X cfg cutoff db sid now touched
    (db, found.map fun found =>
      match found with
      | .error e => .error ⟨500, e⟩
      | .ok (user, sessionCsrf, expired) => do
        let user ← requireUser user expired
        requireCsrf (providedCsrf headers) sessionCsrf
        return (user, sid))

end Extractors

variable {X : Crates} {cfg : ConsoleConfig} {cutoff : Int → Int → Option Int} {db : ConsoleDb}
  {headers : Headers} {now touched : Int} {sid : List UInt8}

theorem requireCsrf_eq_ok_iff {provided stored : Option (List UInt8)} :
    requireCsrf provided stored = .ok () ↔ ∃ token, stored = some token ∧ provided = some token := by
  unfold requireCsrf csrfTokensMatch
  cases stored with
  | none => simp
  | some stored =>
    cases provided with
    | none => simp
    | some provided =>
      dsimp only
      by_cases h : provided = stored
      · subst h
        simp
      have hbeq : (provided == stored) = false := beq_false_of_ne h
      rw [hbeq, ite_self, if_neg (by decide)]
      simp only [Option.some.injEq, reduceCtorEq, false_iff]
      rintro ⟨token, rfl, rfl⟩
      exact h rfl

/-- What the two lookups come to: they differ in the token only, and that is the one of the session. -/
inductive LookupPair (db : ConsoleDb) (sid : List UInt8) :
    Option (Except Text (Option User × Bool)) →
      Option (Except Text (Option User × Option (List UInt8) × Bool)) → Prop
  | panicked : LookupPair db sid none none
  | failed (e : Text) : LookupPair db sid (some (.error e)) (some (.error e))
  | ended : LookupPair db sid (some (.ok (none, true))) (some (.ok (none, none, true)))
  | found {session : Session} (user : Option User) (h : db.sessionById sid = .ok (some session)) :
    LookupPair db sid (some (.ok (user, false))) (some (.ok (user, session.csrfToken, false)))

theorem lookups_agree :
    (MutatingUser.lookup X cfg cutoff db sid now touched).1 =
        (CurrentUser.lookup X cfg cutoff db sid now touched).1 ∧
      LookupPair db sid (CurrentUser.lookup X cfg cutoff db sid now touched).2
        (MutatingUser.lookup X cfg cutoff db sid now touched).2 := by
  unfold MutatingUser.lookup CurrentUser.lookup
  cases hfind : db.sessionById sid with
  | error e => exact ⟨rfl, .failed e⟩
  | ok found =>
    cases found with
    | none => exact ⟨rfl, .ended⟩
    | some session =>
      dsimp only
      split
      · exact ⟨rfl, .ended⟩
      cases cutoff now (cfg.sessionIdleTimeoutHours.getD cfg.sessionTtlHours) with
      | none => exact ⟨rfl, .panicked⟩
      | some idleCutoff =>
        dsimp only
        split
        · exact ⟨rfl, .ended⟩
        cases (db.touchSession (X.toRfc3339 touched) sid).userById session.userId with
        | error e => exact ⟨rfl, .failed e⟩
        | ok user => exact ⟨rfl, .found user hfind⟩

/-- **The mutating extractor is the reading one with the CSRF check**: it accepts a request exactly
if the reading one does and the header shows the token of the session, with the same user and the
same database. -/
theorem mutating_iff (X : Crates) (cfg : ConsoleConfig) (cutoff : Int → Int → Option Int)
    (db : ConsoleDb) (headers : Headers) (now touched : Int) :
    let current := CurrentUser.extract X cfg cutoff db headers now touched
    let mutating := MutatingUser.extract X cfg cutoff db headers now touched
    (∀ user sid, mutating.2 = some (.ok (user, sid)) ↔
      current.2 = some (.ok user) ∧ extractSessionId X headers cfg.sessionSecret = some sid ∧
        ∃ session token, db.sessionById sid = .ok (some session) ∧
          session.csrfToken = some token ∧ providedCsrf headers = some token) ∧
    mutating.1 = current.1 := by
  dsimp only
  unfold MutatingUser.extract CurrentUser.extract
  cases hsid : extractSessionId X headers cfg.sessionSecret with
  | none => exact ⟨fun user sid => ⟨nofun, fun h => absurd h.2.1 nofun⟩, rfl⟩
  | some sid =>
    obtain ⟨hdb, hpair⟩ := @lookups_agree X cfg cutoff db now touched sid
    refine ⟨fun user sid' => ?_, hdb⟩
    dsimp only
    generalize (CurrentUser.lookup X cfg cutoff db sid now touched).2 = read at hpair ⊢
    generalize (MutatingUser.lookup X cfg cutoff db sid now touched).2 = found at hpair ⊢
    cases hpair with
    | panicked | failed e | ended => exact ⟨nofun, fun h => absurd h.1 nofun⟩
    | @found session row hfind =>
      rw [Option.map_some, Option.map_some, Option.some.injEq, Option.some.injEq, bind_eq_ok]
      constructor
      · rintro ⟨user', huser, haccept⟩
        obtain ⟨⟨⟩, hcsrf, hdone⟩ := bind_eq_ok.1 haccept
        cases hdone
        obtain ⟨token, hstored, hprovided⟩ := requireCsrf_eq_ok_iff.1 hcsrf
        exact ⟨huser, rfl, session, token, hfind, hstored, hprovided⟩
      · rintro ⟨huser, ⟨⟩, session', token, hfind', hstored, hprovided⟩
        cases hfind.symm.trans hfind'
        refine ⟨user, huser, bind_eq_ok.2 ⟨(), ?_, rfl⟩⟩
        exact requireCsrf_eq_ok_iff.2 ⟨token, hstored, hprovided⟩

/-! ## Without a panic -/

theorem LookupPair.read_eq {read : Option (Except Text (Option User × Bool))}
    {found : Option (Except Text (Option User × Option (List UInt8) × Bool))}
    (h : LookupPair db sid read found) :
    read = found.map (Except.map fun row => (row.1, row.2.2)) := by
  cases h <;> rfl

variable (hcutoff : ∀ now n, cutoff now n = some (now - hours n))
include hcutoff

theorem mutating_lookup_eq : MutatingUser.lookup X cfg cutoff db sid now touched =
    ((sessionUser X cfg db sid now touched).1, some (sessionUser X cfg db sid now touched).2) := by
  unfold MutatingUser.lookup sessionUser ConsoleConfig.idleTimeoutHours
  cases db.sessionById sid with
  | error e => rfl
  | ok found =>
    cases found with
    | none => rfl
    | some session =>
      rw [hcutoff]
      dsimp only
      split
      · rfl
      · split
        · rfl
        · split <;> simp_all

/-- Without a panic the extractors are those that share one lookup. -/
theorem extract_eq :
    CurrentUser.extract X cfg cutoff db headers now touched =
        ((CurrentUser.fromRequestParts X cfg db headers now touched).1,
          some (CurrentUser.fromRequestParts X cfg db headers now touched).2) ∧
      MutatingUser.extract X cfg cutoff db headers now touched =
        ((MutatingUser.fromRequestParts X cfg db headers now touched).1,
          some (MutatingUser.fromRequestParts X cfg db headers now touched).2) := by
  unfold CurrentUser.extract MutatingUser.extract CurrentUser.fromRequestParts
    MutatingUser.fromRequestParts
  cases extractSessionId X headers cfg.sessionSecret with
  | none => exact ⟨rfl, rfl⟩
  | some sid =>
    obtain ⟨hdb, hpair⟩ := @lookups_agree X cfg cutoff db now touched sid
    have hread := hpair.read_eq
    rw [mutating_lookup_eq hcutoff] at hdb hread
    dsimp only at hdb hread ⊢
    rw [mutating_lookup_eq hcutoff, hread, ← hdb]
    cases (sessionUser X cfg db sid now touched).2 with
    | error e => exact ⟨rfl, rfl⟩
    | ok found => exact ⟨rfl, rfl⟩

end Nanoguard.Console

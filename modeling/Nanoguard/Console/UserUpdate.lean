import Nanoguard.Console.Login
import Nanoguard.Console.PoolKept
import Nanoguard.Lib.Statements

/-!
# Updating a user

Each field of a user that is changed is a statement of its own, without a transaction. If the role
has changed, the sessions of the user are deleted afterwards; whether it has is decided from a row
that was read before, and a failure to read it or to delete the sessions is ignored.
-/

namespace Nanoguard.Console

open List

open Statements (effect effects run_effects run_effects_of_lt)

structure UserUpdate where
  displayName : Option Text
  email : Option Text
  role : Option Text
  disabled : Option Bool
  allowedModels : Option Text
  budgetLimit : Option (Option Int)
  deriving DecidableEq, Repr

/-- An assignment to a column of `users` other than the id. -/
abbrev UserSet := { f : User → User // ∀ user, (f user).id = user.id }

/-- The assignments of an update, in the order of the statements. -/
def UserUpdate.sets (patch : UserUpdate) : List UserSet :=
  (patch.displayName.map fun v => ⟨fun u => { u with displayName := some v }, fun _ => rfl⟩).toList ++
  (patch.email.map fun v => ⟨fun u => { u with email := some v }, fun _ => rfl⟩).toList ++
  (patch.role.map fun v => ⟨fun u => { u with role := v }, fun _ => rfl⟩).toList ++
  (patch.disabled.map fun v => ⟨fun u => { u with disabled := v }, fun _ => rfl⟩).toList ++
  (patch.allowedModels.map fun v => ⟨fun u => { u with allowedModels := v }, fun _ => rfl⟩).toList ++
  (patch.budgetLimit.map fun v => ⟨fun u => { u with budgetLimit := v }, fun _ => rfl⟩).toList

namespace LoginDb

variable (db : LoginDb) (id : Int)

/-- `UPDATE users SET … WHERE id = ?`, with the number of rows so far. -/
def setColumn (set : UserSet) (st : LoginDb × Nat) : LoginDb × Nat :=
  (st.1.updateUser id set.1 set.2, st.2 + st.1.users.countP fun u => decide (u.id = id))

/-- `update_user`. `failure` is the number of the statement that fails and what it fails with. -/
def updateUserColumns (patch : UserUpdate) (failure : Option (Nat × Text)) :
    LoginDb × Except Text Nat :=
  let (st, outcome) := Statements.run (patch.sets.map fun set => effect (setColumn id set)) failure
    (db.connected none, 0)
  (st.1, outcome.map fun _ => st.2)

end LoginDb

/-- A request to update a user, and which of its statements fail. -/
structure UserUpdateCall where
  admin : User
  id : Int
  body : UserUpdate
  /-- the query for the row before the update -/
  lookupError : Option Text
  updateError : Option (Nat × Text)
  /-- the deletion of the sessions -/
  sweepError : Option Text

/-- The row before the update. A failed query counts as no row. -/
def UserUpdateCall.beforeUser (call : UserUpdateCall) (db : LoginDb) : Option User :=
  ((db.connected call.lookupError).userById call.id).toOption.join

def UserUpdateCall.roleChanged (call : UserUpdateCall) (beforeUser : Option User) : Bool :=
  match call.body.role, beforeUser with
  | some new, some before => decide (new ≠ before.role)
  | _, _ => false

def UserUpdateCall.serve (call : UserUpdateCall) (db : LoginDb) : LoginDb × Except (Nat × Text) Nat :=
  match requireAdmin call.admin with
  | .error e => (db, .error e)
  | .ok () =>
    let beforeUser := call.beforeUser db
    match db.updateUserColumns call.id call.body call.updateError with
    | (db, .error _) => (db, .error (500, "failed to update user".toList))
    | (db, .ok n) =>
      let db := if call.roleChanged beforeUser then
          (db.connected call.sweepError).deleteUserSessions call.id
        else db
      (db, .ok n)

section Rows

variable {db : LoginDb} {id : Int} {sets : List UserSet} {patch : UserUpdate}
  {failure : Option (Nat × Text)}

def written (sets : List UserSet) (user : User) : User := effects (sets.map (·.1)) user

theorem written_id (sets : List UserSet) (user : User) : (written sets user).id = user.id := by
  induction sets generalizing user with
  | nil => rfl
  | cons set sets ih => exact (ih (set.1 user)).trans (set.2 user)

theorem written_role (patch : UserUpdate) (user : User) :
    (written patch.sets user).role = patch.role.getD user.role := by
  obtain ⟨displayName, email, role, disabled, allowedModels, budgetLimit⟩ := patch
  cases displayName <;> cases email <;> cases role <;> cases disabled <;> cases allowedModels <;>
    cases budgetLimit <;> rfl

structure Assigned (id : Int) (sets : List UserSet) (db db' : LoginDb) : Prop where
  users : db'.users = db.users.map fun user => if user.id = id then written sets user else user
  sessions : db'.sessions = db.sessions

theorem assigned_effects (sets : List UserSet) (n : Nat) (hwritable : db.writable = true) :
    Assigned id sets db (effects (sets.map (LoginDb.setColumn id)) (db, n)).1 := by
  induction sets generalizing db n with
  | nil =>
    refine ⟨?_, rfl⟩
    exact (map_id' _).symm.trans (map_congr_left fun user _ => (ite_self _).symm)
  | cons set sets ih =>
    have hset : db.updateUser id set.1 set.2 = _ := if_pos hwritable
    have hwritable' : (db.updateUser id set.1 set.2).writable = true := by
      rw [hset]
      exact hwritable
    obtain ⟨husers, hsessions⟩ := ih (n + db.users.countP fun u => decide (u.id = id)) hwritable'
    refine ⟨husers.trans ?_, hsessions.trans ?_⟩
    · rw [hset, map_map]
      apply map_congr_left
      intro user _
      rw [Function.comp_apply]
      by_cases hid : user.id = id
      · rw [if_pos hid, if_pos ((set.2 user).trans hid), if_pos hid]
        rfl
      · rw [if_neg hid, if_neg hid, if_neg hid]
    · rw [hset]

theorem statements_eq (sets : List UserSet) :
    sets.map (fun set => effect (ε := Text) (LoginDb.setColumn id set)) =
      (sets.map (LoginDb.setColumn id)).map effect := by
  rw [map_map]
  rfl

theorem updateUserColumns_failed (db : LoginDb) (id : Int) {n : Nat} (e : Text) (hn : n < patch.sets.length) :
    (db.updateUserColumns id patch (some (n, e))).2 = .error e ∧
      Assigned id (patch.sets.take n) db (db.updateUserColumns id patch (some (n, e))).1 := by
  have hlength : n < (patch.sets.map (LoginDb.setColumn id)).length := by rwa [length_map]
  unfold LoginDb.updateUserColumns
  rw [statements_eq, run_effects_of_lt hlength, ← map_take]
  have hassigned : Assigned id (patch.sets.take n) (db.connected none) _ := assigned_effects _ 0 rfl
  exact ⟨rfl, hassigned.users, hassigned.sessions⟩

theorem updateUserColumns_done (db : LoginDb) (id : Int) (h : ∀ n e, failure = some (n, e) → patch.sets.length ≤ n) :
    (∃ affected, (db.updateUserColumns id patch failure).2 = .ok affected) ∧
      Assigned id patch.sets db (db.updateUserColumns id patch failure).1 := by
  have hlength : ∀ n e, failure = some (n, e) →
      (patch.sets.map (LoginDb.setColumn id)).length ≤ n := by
    rwa [length_map]
  unfold LoginDb.updateUserColumns
  rw [statements_eq, run_effects hlength]
  have hassigned : Assigned id patch.sets (db.connected none) _ := assigned_effects _ 0 rfl
  exact ⟨⟨_, rfl⟩, hassigned.users, hassigned.sessions⟩

theorem Assigned.users_eq_iff {db' : LoginDb} (h : Assigned id sets db db') :
    db'.users = db.users ↔ ∀ user ∈ db.users, user.id = id → written sets user = user := by
  rw [h.users]
  constructor
  · intro heq user huser hid
    have hsame := map_inj_left.1 (heq.trans (map_id' _).symm) user huser
    rwa [if_pos hid] at hsame
  · intro hsame
    refine (map_congr_left fun user huser => ?_).trans (map_id' _)
    split
    next hid => exact hsame user huser hid
    next => rfl

theorem row_assigned {rows : List User} {user user' : User}
    (h : rows = db.users.map fun user => if user.id = id then written sets user else user)
    (huser : user ∈ db.users) (huser' : user' ∈ rows) (hid : user'.id = user.id) :
    user' = if user.id = id then written sets user else user := by
  rw [h] at huser'
  obtain ⟨other, hother, rfl⟩ := mem_map.1 huser'
  have hkeeps : (if other.id = id then written sets other else other).id = other.id := by
    split
    · exact written_id sets other
    · rfl
  have hsame : other = user :=
    inj_on_of_nodup_map db.userIds_nodup hother huser (hkeeps.symm.trans hid)
  rw [hsame]

end Rows

/-! ## All or nothing -/

/-- A request that is answered with an error has changed no row, and a role that has changed has
ended the sessions of its user. -/
structure AllOrNothing (call : UserUpdateCall) (db : LoginDb) : Prop where
  error_keeps : ∀ e, (call.serve db).2 = .error e → (call.serve db).1.users = db.users
  role_ends_sessions : ∀ user ∈ db.users, ∀ user' ∈ (call.serve db).1.users,
    user'.id = user.id → user'.role ≠ user.role →
      ∀ s ∈ (call.serve db).1.sessions, s.userId ≠ user.id

def UserUpdateCall.Completes (call : UserUpdateCall) : Prop :=
  ∀ n e, call.updateError = some (n, e) → call.body.sets.length ≤ n

/-- The update assigns another role than the stored one. -/
def UserUpdateCall.ChangesRole (call : UserUpdateCall) (db : LoginDb) : Prop :=
  ∃ user ∈ db.users, user.id = call.id ∧ ∃ role, call.body.role = some role ∧ role ≠ user.role

/-- If a statement of the update fails, those before it assign what is stored. If none fails and the
role changes, the row is read before and the sessions are deleted, or there are no sessions. -/
structure Undisturbed (call : UserUpdateCall) (db : LoginDb) : Prop where
  writes : ∀ n e, call.updateError = some (n, e) → n < call.body.sets.length →
    ∀ user ∈ db.users, user.id = call.id → written (call.body.sets.take n) user = user
  sweep : call.Completes → call.ChangesRole db →
    call.lookupError = none ∧ call.sweepError = none ∨ ∀ s ∈ db.sessions, s.userId ≠ call.id

section

variable {call : UserUpdateCall} {db : LoginDb}

theorem requireAdmin_eq (user : User) :
    requireAdmin user =
      if user.role = "admin".toList then .ok () else .error (403, "admin required".toList) := by
  unfold requireAdmin
  by_cases h : user.role = "admin".toList
  · rw [if_pos h, if_neg (not_not.2 h)]
  · rw [if_neg h, if_pos h]

theorem serve_refused (hadmin : call.admin.role ≠ "admin".toList) :
    call.serve db = (db, .error (403, "admin required".toList)) := by
  unfold UserUpdateCall.serve
  rw [requireAdmin_eq, if_neg hadmin]

theorem serve_failed (db : LoginDb) (hadmin : call.admin.role = "admin".toList) {n : Nat} {e : Text}
    (herror : call.updateError = some (n, e)) (hn : n < call.body.sets.length) :
    (call.serve db).2 = .error (500, "failed to update user".toList) ∧
      Assigned call.id (call.body.sets.take n) db (call.serve db).1 := by
  obtain ⟨hfailed, hassigned⟩ := updateUserColumns_failed db call.id e hn
  unfold UserUpdateCall.serve
  rw [requireAdmin_eq, if_pos hadmin, herror]
  generalize db.updateUserColumns call.id call.body (some (n, e)) = result at hfailed hassigned
  obtain ⟨db', answer⟩ := result
  cases hfailed
  exact ⟨rfl, hassigned⟩

theorem roleChanged_iff :
    call.roleChanged (call.beforeUser db) = true ↔ call.lookupError = none ∧ call.ChangesRole db := by
  unfold UserUpdateCall.roleChanged UserUpdateCall.beforeUser UserUpdateCall.ChangesRole
  cases hlookup : call.lookupError with
  | some e =>
    have hnone : ((db.connected (some e)).userById call.id).toOption.join = none := rfl
    rw [hnone]
    cases call.body.role <;> simp
  | none =>
    have hfind : ((db.connected none).userById call.id).toOption.join =
        db.users.find? fun user => decide (user.id = call.id) := rfl
    rw [hfind]
    cases hrole : call.body.role with
    | none => simp
    | some role =>
      cases huser : db.users.find? fun user => decide (user.id = call.id) with
      | none =>
        have hnone := find?_eq_none.1 huser
        simp only [decide_eq_true_eq] at hnone
        refine ⟨nofun, ?_⟩
        rintro ⟨-, user, hmem, hid, -⟩
        exact absurd hid (hnone user hmem)
      | some user =>
        have hmem := mem_of_find?_eq_some huser
        have hfound := find?_some huser
        have hid : user.id = call.id := of_decide_eq_true hfound
        simp only [decide_eq_true_eq, true_and]
        constructor
        · exact fun hne => ⟨user, hmem, hid, role, rfl, hne⟩
        · rintro ⟨other, hother, hid', _, ⟨⟩, hne⟩
          have hsame : other = user :=
            inj_on_of_nodup_map db.userIds_nodup hother hmem (hid'.trans hid.symm)
          rwa [hsame] at hne

theorem serve_done (db : LoginDb) (hadmin : call.admin.role = "admin".toList) (hdone : call.Completes) :
    (∃ affected, (call.serve db).2 = .ok affected) ∧
      (call.serve db).1.users = db.users.map (fun user =>
        if user.id = call.id then written call.body.sets user else user) ∧
      (call.serve db).1.sessions =
        if call.roleChanged (call.beforeUser db) && call.sweepError.isNone then
          db.sessions.filter fun s => !decide (s.userId = call.id)
        else db.sessions := by
  obtain ⟨⟨affected, hok⟩, hassigned⟩ := updateUserColumns_done db call.id hdone
  unfold UserUpdateCall.serve
  rw [requireAdmin_eq, if_pos hadmin]
  dsimp only
  generalize db.updateUserColumns call.id call.body call.updateError = result at hok hassigned
  obtain ⟨db', answer⟩ := result
  cases hok
  refine ⟨⟨affected, rfl⟩, ?_, ?_⟩
  · rw [← hassigned.users]
    cases call.roleChanged (call.beforeUser db) with
    | false => rfl
    | true => cases call.sweepError <;> rfl
  rw [← hassigned.sessions]
  cases call.roleChanged (call.beforeUser db) with
  | false => rfl
  | true => cases call.sweepError <;> rfl

theorem role_eq_of_users_eq {db' : LoginDb} {user user' : User} (h : db'.users = db.users)
    (huser : user ∈ db.users) (huser' : user' ∈ db'.users) (hid : user'.id = user.id) :
    user'.role = user.role := by
  rw [h] at huser'
  rw [inj_on_of_nodup_map db.userIds_nodup huser' huser hid]

theorem allOrNothing_failed_iff (hadmin : call.admin.role = "admin".toList) {n : Nat} {e : Text}
    (herror : call.updateError = some (n, e)) (hn : n < call.body.sets.length) :
    AllOrNothing call db ↔
      ∀ user ∈ db.users, user.id = call.id → written (call.body.sets.take n) user = user := by
  obtain ⟨hanswer, hassigned⟩ := serve_failed db hadmin herror hn
  rw [← hassigned.users_eq_iff]
  refine ⟨fun h => h.error_keeps _ hanswer, fun hkept => ⟨fun _ _ => hkept, ?_⟩⟩
  intro user huser user' huser' hid hrole
  exact absurd (role_eq_of_users_eq hkept huser huser' hid) hrole

theorem allOrNothing_done_iff (hadmin : call.admin.role = "admin".toList) (hdone : call.Completes) :
    AllOrNothing call db ↔ (call.ChangesRole db →
      call.lookupError = none ∧ call.sweepError = none ∨
        ∀ s ∈ db.sessions, s.userId ≠ call.id) := by
  obtain ⟨⟨affected, hanswer⟩, husers, hsessions⟩ := serve_done db hadmin hdone
  constructor
  · rintro h hchanges
    by_cases hswept : call.lookupError = none ∧ call.sweepError = none
    · exact .inl hswept
    have hkept : (call.serve db).1.sessions = db.sessions := by
      rw [hsessions, if_neg]
      rw [Bool.and_eq_true, roleChanged_iff, Option.isNone_iff_eq_none]
      exact fun h => hswept ⟨h.1.1, h.2⟩
    obtain ⟨user, huser, hid, role, hrole, hne⟩ := hchanges
    right
    rw [← hkept, ← hid]
    apply h.role_ends_sessions user huser (written call.body.sets user)
    · rw [husers]
      exact mem_map.2 ⟨user, huser, if_pos hid⟩
    · exact written_id _ _
    · rw [written_role, hrole]
      exact hne
  · intro hsweep
    refine ⟨fun e he => absurd (hanswer.symm.trans he) nofun, ?_⟩
    intro user huser user' huser' hid hrole s hs
    rw [row_assigned husers huser huser' hid] at hrole
    by_cases hown : user.id = call.id
    swap
    · exact absurd rfl (if_neg hown ▸ hrole)
    rw [if_pos hown, written_role] at hrole
    have hchanges : call.ChangesRole db := by
      cases hbody : call.body.role with
      | none => exact absurd rfl (hbody ▸ hrole)
      | some role => exact ⟨user, huser, hown, role, hbody, by rwa [hbody] at hrole⟩
    rw [hown]
    rcases hsweep hchanges with ⟨hlookup, hsweepError⟩ | hnone
    · rw [hsessions, if_pos, mem_filter] at hs
      · simpa using hs.2
      · rw [Bool.and_eq_true, roleChanged_iff, Option.isNone_iff_eq_none]
        exact ⟨⟨hlookup, hchanges⟩, hsweepError⟩
    apply hnone s
    rw [hsessions] at hs
    split at hs
    · exact mem_of_mem_filter hs
    · exact hs

end

/-- **An update of a user changes everything or nothing, and ends the sessions with the role,
exactly if it is undisturbed.** -/
theorem allOrNothing_iff (call : UserUpdateCall) (db : LoginDb) :
    AllOrNothing call db ↔ (call.admin.role = "admin".toList → Undisturbed call db) := by
  by_cases hadmin : call.admin.role = "admin".toList
  swap
  · have hserve : call.serve db = _ := serve_refused hadmin
    refine ⟨fun _ h => absurd h hadmin, fun _ => ⟨fun _ _ => by rw [hserve], ?_⟩⟩
    rw [hserve]
    intro user huser user' huser' hid hrole
    exact absurd (role_eq_of_users_eq rfl huser huser' hid) hrole
  rw [forall_prop_of_true hadmin]
  by_cases hdone : call.Completes
  · rw [allOrNothing_done_iff hadmin hdone]
    constructor
    · intro hsweep
      refine ⟨fun n e herror hn => absurd (hdone n e herror) (Nat.not_le_of_lt hn), fun _ => hsweep⟩
    · exact fun h => h.sweep hdone
  unfold UserUpdateCall.Completes at hdone
  push Not at hdone
  obtain ⟨n, e, herror, hn⟩ := hdone
  rw [allOrNothing_failed_iff hadmin herror hn]
  constructor
  · intro hwrites
    refine ⟨fun n' e' herror' _ => ?_, fun hdone => ?_⟩
    · rw [herror] at herror'
      cases herror'
      exact hwrites
    · exact absurd (hdone n e herror) (Nat.not_le_of_lt hn)
  · exact fun h => h.writes n e herror hn

section Examples

def memberUser : User := { adminUser with id := 2, username := "ann".toList, role := "user".toList }

def memberSession : Session := ⟨[7], 2, [], [], [], none, none, none⟩

def memberDb : LoginDb where
  users := [memberUser]
  sessions := [memberSession]
  userIds_nodup := List.nodup_singleton _
  sessionIds_nodup := List.nodup_singleton _
  usersError := none
  sessionsError := none
  writable := true
  attempts := []
  attemptsError := none

def promotion (updateError : Option (Nat × Text)) (sweepError : Option Text) : UserUpdateCall where
  admin := adminUser
  id := 2
  body := ⟨none, none, some "admin".toList, some true, none, none⟩
  lookupError := none
  updateError
  sweepError

/-- **A role that changes and sessions that stay.** In the first request the second statement fails:
the answer is an error, and the role has changed. In the second one only the deletion of the
sessions fails, and the answer is a success. -/
theorem role_changed_sessions_kept :
    let locked := "database is locked".toList
    let failed := (promotion (some (1, locked)) none).serve memberDb
    let unswept := (promotion none (some locked)).serve memberDb
    failed.2 = .error (500, "failed to update user".toList) ∧
      failed.1.users = [{ memberUser with role := "admin".toList }] ∧
      failed.1.sessions = [memberSession] ∧
      unswept.2 = .ok 2 ∧
      unswept.1.users = [{ memberUser with role := "admin".toList, disabled := true }] ∧
      unswept.1.sessions = [memberSession] :=
  ⟨rfl, rfl, rfl, rfl, rfl, rfl⟩

end Examples

end Nanoguard.Console

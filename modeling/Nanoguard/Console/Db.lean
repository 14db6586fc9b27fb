import Nanoguard.Lib.RustStr
import Mathlib.Data.List.Nodup

/-!
# The tables of the console

Users and their sessions. A query can fail; what it fails with is part of the state. Statements that
change rows are run for their effect only, and do nothing where the database cannot be written.
-/

namespace Nanoguard.Console

structure User where
  id : Int
  username : Text
  displayName : Option Text
  email : Option Text
  role : Text
  serviceAccount : Bool
  disabled : Bool
  allowedModels : Text
  budgetLimit : Option Int
  oidcSub : Option Text
  passwordHash : Option (List UInt8)
  lockedUntil : Option Text
  createdAt : Text
  lastLoginAt : Option Text
  deriving DecidableEq, Repr

/-- `require_admin`: the status and the message of the refusal. -/
def requireAdmin (user : User) : Except (Nat × Text) Unit :=
  if user.role ≠ "admin".toList then .error (403, "admin required".toList) else .ok ()

structure Session where
  id : List UInt8
  userId : Int
  createdAt : Text
  expiresAt : Text
  lastSeenAt : Text
  userAgent : Option Text
  ip : Option Text
  csrfToken : Option (List UInt8)
  deriving DecidableEq, Repr

/-- The tables with their primary keys. -/
structure ConsoleDb where
  users : List User
  sessions : List Session
  userIds_nodup : (users.map User.id).Nodup
  sessionIds_nodup : (sessions.map Session.id).Nodup
  /-- what a query of the users fails with, if it does -/
  usersError : Option Text
  /-- what a query of the sessions fails with, if it does -/
  sessionsError : Option Text
  writable : Bool

theorem noUserIds_nodup : (([] : List User).map User.id).Nodup := List.nodup_nil

theorem noSessionIds_nodup : (([] : List Session).map Session.id).Nodup := List.nodup_nil

def queryRow {α κ : Type} [DecidableEq κ] (error : Option Text) (rows : List α) (key : α → κ)
    (k : κ) : Except Text (Option α) :=
  match error with
  | some e => .error e
  | none => .ok (rows.find? fun row => decide (key row = k))

theorem of_queryRow {α κ : Type} [DecidableEq κ] {error : Option Text} {rows : List α} {key : α → κ}
    {k : κ} {row : α} (h : queryRow error rows key k = .ok (some row)) :
    row ∈ rows ∧ key row = k := by
  cases error with
  | some e => cases h
  | none =>
    have hfind : (rows.find? fun row => decide (key row = k)) = some row := Except.ok.inj h
    have hkey := List.find?_some hfind
    exact ⟨List.mem_of_find?_eq_some hfind, of_decide_eq_true hkey⟩

def Session.touch (now : Text) (id : List UInt8) (s : Session) : Session :=
  if s.id = id then { s with lastSeenAt := now } else s

theorem Session.touch_id (now : Text) (id : List UInt8) (s : Session) :
    (s.touch now id).id = s.id := by
  unfold Session.touch
  split <;> rfl

namespace ConsoleDb

variable (db : ConsoleDb)

def sessionById (id : List UInt8) : Except Text (Option Session) :=
  queryRow db.sessionsError db.sessions Session.id id

def userById (id : Int) : Except Text (Option User) :=
  queryRow db.usersError db.users User.id id

def deleteSession (id : List UInt8) : ConsoleDb :=
  if db.writable then
    { db with
      sessions := db.sessions.filter fun s => decide (s.id ≠ id)
      sessionIds_nodup := db.sessionIds_nodup.sublist (List.filter_sublist.map _) }
  else db

def touchSession (now : Text) (id : List UInt8) : ConsoleDb :=
  if db.writable then
    { db with
      sessions := db.sessions.map fun s => s.touch now id
      sessionIds_nodup := by
        have hids : (Session.id ∘ fun s => Session.touch now id s) = Session.id :=
          funext (Session.touch_id now id)
        rw [List.map_map, hids]
        exact db.sessionIds_nodup }
  else db

variable {db}

@[simp] theorem userById_touchSession (now : Text) (sid : List UInt8) (id : Int) :
    (db.touchSession now sid).userById id = db.userById id := by
  unfold touchSession
  split <;> rfl

end ConsoleDb

end Nanoguard.Console

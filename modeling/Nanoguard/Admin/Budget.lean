import Nanoguard.Console.BudgetView

/-!
# The budgets in the admin API

The requests under `/v1/admin/budget` read and change the store in which the proxy counts. Over any
run, what is stored under a key is its account: the limit that was set last, and the tokens recorded
since the last reset. A request that is refused changes nothing.
-/

namespace Nanoguard.Admin

open List

open Budget (SqlInt SqliteBudgetStore Totals freshStore getUsage_of_totals logSum)
open ClientAuth (Crypto extractBearer)
open Console (BudgetEvent apply_spec setLimit_getD)

structure Reply where
  status : Nat
  body : Json

def errorReply (status : Nat) (error : Text) : Reply :=
  ⟨status, .obj [("error".toList, .str error)]⟩

def unauthorized : Reply := errorReply 401 "unauthorized".toList

section Handlers

variable (C : Crypto) (adminApiKey : Option Text) (authorization : Option (List UInt8))

def requireAdmin : Except Reply Unit :=
  let expected := adminApiKey.getD []
  let provided := (extractBearer authorization).getD []
  -- no key and an empty key both close the API
  if expected.isEmpty then .error unauthorized
  else if C.sha256Of provided ≠ C.sha256Of expected then .error unauthorized
  else .ok ()

/-- What the handlers have in common: the key is checked, then the store is looked for. -/
def withBudget (budget : Option SqliteBudgetStore)
    (act : SqliteBudgetStore → SqliteBudgetStore × Reply) : Option SqliteBudgetStore × Reply :=
  match requireAdmin C adminApiKey authorization with
  | .error e => (budget, e)
  | .ok () =>
    match budget with
    | none => (none, errorReply 503 "budget tracking is disabled".toList)
    | some db => (some (act db).1, (act db).2)

def budgetReply (apiKey : Text) (usage : Nat) (limit : Option Nat) : Reply :=
  ⟨200, .obj [("api_key".toList, .str apiKey),
    ("limit".toList, limit.elim .null fun n => .num (.posInt n)),
    ("usage".toList, .num (.posInt usage))]⟩

/-- Both reads see one store: nothing is written between them. -/
def getBudget (apiKey : Text) (budget : Option SqliteBudgetStore) :
    Option SqliteBudgetStore × Reply :=
  withBudget C adminApiKey authorization budget fun db =>
    (db, match db.getUsage apiKey with
      | .error e => errorReply 500 e
      | .ok usage =>
        match db.getLimit apiKey with
        | .error e => errorReply 500 e
        | .ok limit => budgetReply apiKey usage limit)

def setBudget (apiKey : Text) (limit : UInt64) (budget : Option SqliteBudgetStore) :
    Option SqliteBudgetStore × Reply :=
  withBudget C adminApiKey authorization budget fun db =>
    match db.setLimit apiKey limit.toNat with
    | .error e => (db, errorReply 500 e)
    | .ok db => (db, ⟨200, .obj [("api_key".toList, .str apiKey),
        ("limit".toList, .num (.posInt limit.toNat)), ("status".toList, .str "ok".toList)]⟩)

def resetBudget (apiKey : Text) (budget : Option SqliteBudgetStore) :
    Option SqliteBudgetStore × Reply :=
  withBudget C adminApiKey authorization budget fun db =>
    (db.resetUsage apiKey,
      ⟨200, .obj [("api_key".toList, .str apiKey), ("status".toList, .str "reset".toList)]⟩)

inductive BudgetRequest where
  | get (apiKey : Text)
  | set (apiKey : Text) (limit : UInt64)
  | reset (apiKey : Text)

def BudgetRequest.serve (budget : Option SqliteBudgetStore) :
    BudgetRequest → Option SqliteBudgetStore × Reply
  | .get apiKey => getBudget C adminApiKey authorization apiKey budget
  | .set apiKey limit => setBudget C adminApiKey authorization apiKey limit budget
  | .reset apiKey => resetBudget C adminApiKey authorization apiKey budget

end Handlers

/-- What the proxy and the console do to the store, or a request with the key that is configured when
it arrives. -/
inductive Event where
  | other (event : BudgetEvent)
  | request (adminApiKey : Option Text) (authorization : Option (List UInt8)) (req : BudgetRequest)

/-! ## Accounts -/

structure Account where
  limit : Option SqlInt
  used : Nat

def Account.served (k : Text) (a : Account) : BudgetRequest → Account
  | .get _ => a
  | .set apiKey limit =>
    { a with limit := BudgetEvent.limitStep k a.limit (.adminLimit apiKey limit.toNat) }
  | .reset apiKey => if apiKey = k then { a with used := 0 } else a

/-- The store holds the account of a key. -/
structure Holds (db : SqliteBudgetStore) (k : Text) (a : Account) : Prop where
  limit : db.limits.lookup k = a.limit
  used : Totals db k a.used

section Steps

variable (overflowChecks : Bool) (C : Crypto)

def step (budget : Option SqliteBudgetStore) : Event → Option SqliteBudgetStore
  | .other event => budget.map (event.apply overflowChecks)
  | .request key authorization req => (req.serve C key authorization budget).1

def Account.after (k : Text) (a : Account) : Event → Account
  | .other event =>
    ⟨event.limitStep k a.limit, a.used + logSum k (event.logged overflowChecks).toList⟩
  | .request key authorization req =>
    if (requireAdmin C key authorization).isOk then a.served k req else a

variable {C} {db : SqliteBudgetStore} {k : Text} {a : Account} {adminApiKey : Option Text}
  {authorization : Option (List UInt8)} {act : SqliteBudgetStore → SqliteBudgetStore × Reply}
  {budget : Option SqliteBudgetStore} {e : Reply}

theorem requireAdmin_error (h : requireAdmin C adminApiKey authorization = .error e) :
    e = unauthorized := by
  unfold requireAdmin at h
  dsimp only at h
  split at h
  · exact (Except.error.inj h).symm
  split at h
  · exact (Except.error.inj h).symm
  · cases h

theorem withBudget_refused (h : requireAdmin C adminApiKey authorization = .error e) :
    withBudget C adminApiKey authorization budget act = (budget, unauthorized) := by
  unfold withBudget
  rw [h, requireAdmin_error h]

theorem withBudget_admitted (h : requireAdmin C adminApiKey authorization = .ok ()) :
    withBudget C adminApiKey authorization (some db) act = (some (act db).1, (act db).2) := by
  unfold withBudget
  rw [h]

theorem serve_refused (req : BudgetRequest)
    (h : requireAdmin C adminApiKey authorization = .error e) :
    req.serve C adminApiKey authorization budget = (budget, unauthorized) := by
  cases req with
  | get apiKey => exact withBudget_refused h
  | set apiKey limit => exact withBudget_refused h
  | reset apiKey => exact withBudget_refused h

theorem Holds.resetUsage (apiKey : Text) (h : Holds db k a) :
    Holds (db.resetUsage apiKey) k (a.served k (.reset apiKey)) := by
  rw [Account.served]
  unfold SqliteBudgetStore.resetUsage
  by_cases hk : apiKey = k
  · subst hk
    rw [if_pos rfl]
    cases hrow : db.usage.lookup apiKey with
    | none =>
      -- there is no row to reset, and nothing was recorded
      refine ⟨h.limit, ?_⟩
      rw [Totals, hrow]
    | some total =>
      refine ⟨h.limit, ?_⟩
      rw [Totals, AList.lookup_insert]
      rfl
  · rw [if_neg hk]
    cases db.usage.lookup apiKey with
    | none => exact h
    | some total =>
      refine ⟨h.limit, ?_⟩
      rw [Totals, AList.lookup_insert_ne (Ne.symm hk)]
      exact h.used

theorem Holds.served (req : BudgetRequest) (h : Holds db k a)
    (hadmin : requireAdmin C adminApiKey authorization = .ok ()) :
    ∃ db', (req.serve C adminApiKey authorization (some db)).1 = some db' ∧
      Holds db' k (a.served k req) := by
  cases req with
  | get apiKey =>
    refine ⟨db, ?_, h⟩
    rw [BudgetRequest.serve, getBudget, withBudget_admitted hadmin]
  | set apiKey limit =>
    rw [BudgetRequest.serve, setBudget, withBudget_admitted hadmin]
    obtain ⟨husage, hlimits⟩ := setLimit_getD db apiKey limit.toNat k
    rw [h.limit] at hlimits
    cases hset : db.setLimit apiKey limit.toNat with
    | error e =>
      rw [hset] at hlimits
      exact ⟨db, rfl, hlimits, h.used⟩
    | ok db' =>
      rw [hset] at husage hlimits
      exact ⟨db', rfl, hlimits, Console.totals_of_usage husage h.used⟩
  | reset apiKey =>
    refine ⟨db.resetUsage apiKey, ?_, h.resetUsage apiKey⟩
    rw [BudgetRequest.serve, resetBudget, withBudget_admitted hadmin]

theorem Holds.step (e : Event) (h : Holds db k a) :
    ∃ db', Admin.step overflowChecks C (some db) e = some db' ∧
      Holds db' k (a.after overflowChecks C k e) := by
  cases e with
  | other event =>
    obtain ⟨hused, hlimit⟩ := apply_spec overflowChecks event h.used
    rw [h.limit] at hlimit
    exact ⟨_, rfl, hlimit, hused⟩
  | request key authorization req =>
    rw [Admin.step, Account.after]
    cases hadmin : requireAdmin C key authorization with
    | error e =>
      rw [serve_refused req hadmin]
      exact ⟨db, rfl, h⟩
    | ok => exact h.served req hadmin

theorem Holds.run (events : List Event) (h : Holds db k a) :
    ∃ db', events.foldl (Admin.step overflowChecks C) (some db) = some db' ∧
      Holds db' k (events.foldl (Account.after overflowChecks C k) a) := by
  induction events generalizing db a with
  | nil => exact ⟨db, rfl, h⟩
  | cons e events ih =>
    obtain ⟨db', hstep, h'⟩ := h.step overflowChecks (C := C) e
    rw [foldl_cons, foldl_cons, hstep]
    exact ih h'

theorem Holds.getUsage_eq (h : Holds db k a) : db.getUsage k =
    if a.used < 2 ^ 63 then .ok a.used
    else .error "Invalid column type Real at index: 0, name: total_tokens".toList := by
  split
  next hlt => exact getUsage_of_totals h.used hlt
  next hge =>
    have hused := h.used
    unfold Totals at hused
    unfold SqliteBudgetStore.getUsage
    split at hused
    · omega
    · omega
    · rfl

end Steps

/-- **What an administrator is told after any run**: the limit that was set last, and the tokens
recorded since the last reset, until their sum leaves the range of the database. -/
theorem getBudget_after_run (overflowChecks : Bool) (C : Crypto) (events : List Event)
    (adminApiKey : Option Text) (authorization : Option (List UInt8)) (k : Text) :
    let account := events.foldl (Account.after overflowChecks C k) ⟨none, 0⟩
    (getBudget C adminApiKey authorization k
        (events.foldl (step overflowChecks C) (some freshStore))).2 =
      match requireAdmin C adminApiKey authorization with
      | .error _ => unauthorized
      | .ok () =>
        if account.used < 2 ^ 63 then budgetReply k account.used (account.limit.map Fin.val)
        else errorReply 500 "Invalid column type Real at index: 0, name: total_tokens".toList := by
  intro account
  have hstart : Holds freshStore k ⟨none, 0⟩ := ⟨rfl, Budget.totals_of_empty rfl k⟩
  obtain ⟨db, hrun, h⟩ := hstart.run overflowChecks (C := C) events
  rw [hrun, getBudget]
  cases hadmin : requireAdmin C adminApiKey authorization with
  | error e => rw [withBudget_refused hadmin]
  | ok =>
    have hlimit : db.getLimit k = .ok (account.limit.map Fin.val) := by
      rw [SqliteBudgetStore.getLimit, h.limit]
    rw [withBudget_admitted hadmin, h.getUsage_eq]
    dsimp only
    rw [hlimit]
    by_cases hused : account.used < 2 ^ 63
    · rw [if_pos hused, if_pos hused]
    · rw [if_neg hused, if_neg hused]

end Nanoguard.Admin

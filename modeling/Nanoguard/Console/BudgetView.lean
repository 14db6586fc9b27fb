import Nanoguard.Budget.SpendLog
import Nanoguard.ClientAuth.Issued
import Nanoguard.Console.AuditView
import Nanoguard.Console.Revoke

/-!
# The budget in the console

The proxy counts the tokens of an authenticated request under a key that is made from the id of its
token, and looks up the limit under the same key. The console shows a user what is stored under the
prefixes of their tokens. These are other keys.
-/

namespace Nanoguard.Console

open List
open Budget (SpendCall SqlInt SqliteBudgetStore Totals apiKey_of_logged bindU64 freshStore
  getUsage_eq_ok_iff logSum recordSpendUntil_none totals_of_empty totals_recordSpendUntil)
open ClientAuth (ClientTokenRow ClientView Table displayInt viewOf)
open Proxy (BackendResponse ProxyEnv Server SpendRecord StreamResult chatCompletions chatRecords
  messages messagesRecords)

/-! ## The view -/

structure BudgetItem where
  apiKey : Text
  usage : Nat
  limit : Option Nat
  deriving DecidableEq, Repr

/-- The rows that an administrator sees: those whose total can be read, the largest first. -/
def allItems (db : SqliteBudgetStore) : List BudgetItem :=
  (db.usage.entries.filterMap fun entry =>
    match entry.2 with
    | .integer n => some ⟨entry.1, n.1, (db.limits.lookup entry.1).map Fin.val⟩
    | .real => none).mergeSort fun a b => decide (b.usage ≤ a.usage)

/-- What is stored under a key. What cannot be read counts as nothing. -/
def itemFor (db : SqliteBudgetStore) (key : Text) : BudgetItem where
  apiKey := key
  usage := (db.getUsage key).toOption.getD 0
  limit := (db.getLimit key).toOption.join

def apiBudget (tokens : Table) (db : SqliteBudgetStore) (user : User) : List BudgetItem :=
  if user.role = "admin".toList then allItems db
  else (listForUser tokens user.id).map fun row => itemFor db row.tokenPrefix

/-- For each token of the user there is an item with what the budget check reads for it. -/
def BudgetViewRight (tokens : Table) (db : SqliteBudgetStore) (user : User) : Prop :=
  ∀ row ∈ listForUser tokens user.id, ∃ item ∈ apiBudget tokens db user,
    item.apiKey = row.tokenPrefix ∧
      db.toStore.getUsage (viewOf row).budgetKey = .ok item.usage ∧
      db.toStore.getLimit (viewOf row).budgetKey = .ok item.limit

/-! ## Histories -/

/-- `api_set_budget_limit`, for an administrator. What cannot be written changes nothing. -/
def apiSetBudgetLimit (db : SqliteBudgetStore) (apiKey : Text) (limit : Option Nat) :
    SqliteBudgetStore :=
  let apiKey := Str.trim apiKey
  if apiKey.isEmpty then db
  else
    match limit with
    | none => db.clearLimit apiKey
    | some limit =>
      match db.setLimit apiKey limit with
      | .error _ => db
      | .ok db => db.ensureUsage apiKey

inductive BudgetEvent where
  /-- an answered request with a token, and the counts of its answer -/
  | request (row : ClientTokenRow) (prompt completion : Nat) (model : Text) (now : Nat)
  /-- a limit that is set or cleared in the console -/
  | consoleLimit (key : Text) (limit : Option Nat)
  /-- a limit that is set through the proxy -/
  | adminLimit (key : Text) (limit : Nat)

def tokenSpend (row : ClientTokenRow) (prompt completion : Nat) (model : Text) (now : Nat) :
    SpendRecord :=
  ⟨(viewOf row).budgetKey, prompt, completion, model, now⟩

def BudgetEvent.apply (overflowChecks : Bool) (db : SqliteBudgetStore) :
    BudgetEvent → SqliteBudgetStore
  | .request row prompt completion model now =>
    (db.recordSpend overflowChecks (tokenSpend row prompt completion model now)).1
  | .consoleLimit key limit => apiSetBudgetLimit db key limit
  | .adminLimit key limit => (db.setLimit key limit).toOption.getD db

def afterEvents (overflowChecks : Bool) (events : List BudgetEvent) : SqliteBudgetStore :=
  events.foldl (BudgetEvent.apply overflowChecks) freshStore

def BudgetEvent.logged (overflowChecks : Bool) : BudgetEvent → Option Budget.SpendLog
  | .request row prompt completion model now =>
    SpendCall.logged overflowChecks ⟨tokenSpend row prompt completion model now, none⟩
  | _ => none

def spentUnder (overflowChecks : Bool) (k : Text) (events : List BudgetEvent) : Nat :=
  logSum k (events.filterMap (BudgetEvent.logged overflowChecks))

/-- The limit of a key after an event. A limit that is no integer of the database is not set. -/
def BudgetEvent.limitStep (k : Text) (limit : Option SqlInt) : BudgetEvent → Option SqlInt
  | .request _ _ _ _ _ => limit
  | .consoleLimit key change =>
    if Str.trim key = k ∧ k ≠ [] then
      match change with
      | none => none
      | some n => (bindU64 n).toOption.or limit
    else limit
  | .adminLimit key n => if key = k then (bindU64 n).toOption.or limit else limit

def limitUnder (k : Text) (events : List BudgetEvent) : Option SqlInt :=
  events.foldl (BudgetEvent.limitStep k) none

section Histories

variable (overflowChecks : Bool) {db : SqliteBudgetStore} {k : Text} {n : Nat}

theorem setLimit_getD (db : SqliteBudgetStore) (key : Text) (limit : Nat) (k : Text) :
    ((db.setLimit key limit).toOption.getD db).usage = db.usage ∧
      ((db.setLimit key limit).toOption.getD db).limits.lookup k =
        if key = k then (bindU64 limit).toOption.or (db.limits.lookup k)
        else db.limits.lookup k := by
  unfold Budget.SqliteBudgetStore.setLimit
  cases bindU64 limit with
  | error e => exact ⟨rfl, (ite_self _).symm⟩
  | ok bound =>
    refine ⟨rfl, ?_⟩
    split
    next hk =>
      rw [← hk]
      exact AList.lookup_insert _
    next hk => exact AList.lookup_insert_ne (Ne.symm hk)

theorem lookup_ensureUsage (db : SqliteBudgetStore) (key : Text) (h : Totals db k n) :
    Totals (db.ensureUsage key) k n ∧ (db.ensureUsage key).limits = db.limits := by
  unfold Budget.SqliteBudgetStore.ensureUsage
  cases hrow : db.usage.lookup key with
  | some number => exact ⟨h, rfl⟩
  | none =>
    refine ⟨?_, rfl⟩
    unfold Totals at h ⊢
    by_cases hk : k = key
    · rw [hk, hrow] at h
      rw [hk, AList.lookup_insert, h]
      rfl
    · rwa [AList.lookup_insert_ne hk]

theorem totals_of_usage {db' : SqliteBudgetStore} (husage : db'.usage = db.usage)
    (h : Totals db k n) : Totals db' k n := by
  unfold Totals at h ⊢
  rw [husage]
  exact h

theorem apiSetBudgetLimit_spec (key : Text) (limit : Option Nat) (h : Totals db k n) :
    Totals (apiSetBudgetLimit db key limit) k n ∧
      (apiSetBudgetLimit db key limit).limits.lookup k =
        BudgetEvent.limitStep k (db.limits.lookup k) (.consoleLimit key limit) := by
  unfold apiSetBudgetLimit BudgetEvent.limitStep
  dsimp only
  by_cases hempty : (Str.trim key).isEmpty = true
  · rw [if_pos hempty, if_neg]
    · exact ⟨h, rfl⟩
    · rintro ⟨rfl, hne⟩
      exact hne (List.isEmpty_iff.1 hempty)
  rw [if_neg hempty]
  have hcondition : (Str.trim key = k ∧ k ≠ []) = (Str.trim key = k) := by
    refine propext (and_iff_left_of_imp ?_)
    rintro rfl hnil
    exact hempty (List.isEmpty_iff.2 hnil)
  simp only [hcondition]
  cases limit with
  | none =>
    refine ⟨totals_of_usage rfl h, ?_⟩
    change (db.limits.erase (Str.trim key)).lookup k = _
    split
    next hk =>
      rw [hk]
      exact AList.lookup_erase _ _
    next hk => exact AList.lookup_erase_ne (Ne.symm hk)
  | some limit =>
    obtain ⟨husage, hlimits⟩ := setLimit_getD db (Str.trim key) limit k
    dsimp only
    cases hset : db.setLimit (Str.trim key) limit with
    | error e =>
      rw [hset] at hlimits
      exact ⟨h, hlimits⟩
    | ok db' =>
      rw [hset] at husage hlimits
      obtain ⟨htotals, hsame⟩ := lookup_ensureUsage db' (Str.trim key) (totals_of_usage husage h)
      refine ⟨htotals, ?_⟩
      rw [hsame]
      exact hlimits

theorem apply_spec (event : BudgetEvent) (h : Totals db k n) :
    Totals (event.apply overflowChecks db) k (n + logSum k (event.logged overflowChecks).toList) ∧
      (event.apply overflowChecks db).limits.lookup k =
        event.limitStep k (db.limits.lookup k) := by
  cases event with
  | request row prompt completion model now =>
    have hspend := totals_recordSpendUntil overflowChecks
      ⟨tokenSpend row prompt completion model now, none⟩ h
    rw [recordSpendUntil_none] at hspend
    refine ⟨hspend, ?_⟩
    change (db.recordSpend overflowChecks _).1.limits.lookup k = _
    rw [Budget.limits_recordSpend]
    rfl
  | consoleLimit key limit => exact apiSetBudgetLimit_spec key limit h
  | adminLimit key limit =>
    obtain ⟨husage, hlimits⟩ := setLimit_getD db key limit k
    exact ⟨totals_of_usage husage h, hlimits⟩

theorem foldl_apply_spec (events : List BudgetEvent) (h : Totals db k n) :
    Totals (events.foldl (BudgetEvent.apply overflowChecks) db) k
        (n + spentUnder overflowChecks k events) ∧
      (events.foldl (BudgetEvent.apply overflowChecks) db).limits.lookup k =
        events.foldl (BudgetEvent.limitStep k) (db.limits.lookup k) := by
  induction events generalizing db n with
  | nil => exact ⟨h, rfl⟩
  | cons event events ih =>
    obtain ⟨htotals, hlimits⟩ := apply_spec overflowChecks event h
    obtain ⟨hrest, hrestLimits⟩ := ih htotals
    constructor
    · unfold spentUnder at hrest ⊢
      rw [Selection.filterMap_cons_eq, Budget.logSum_append, ← Nat.add_assoc]
      exact hrest
    · rw [foldl_cons, foldl_cons, hrestLimits, hlimits]

theorem afterEvents_spec (k : Text) (events : List BudgetEvent) :
    Totals (afterEvents overflowChecks events) k (spentUnder overflowChecks k events) ∧
      (afterEvents overflowChecks events).limits.lookup k = limitUnder k events := by
  have hfresh : Totals freshStore k 0 := totals_of_empty rfl k
  obtain ⟨htotals, hlimits⟩ := foldl_apply_spec overflowChecks events hfresh
  rw [Nat.zero_add] at htotals
  exact ⟨htotals, hlimits⟩

end Histories

/-! ## The two keys -/

/-- The prefix of an issued token is not of the form of a budget key. -/
theorem not_token_key_of_isWire {wire : Text} (h : ClientAuth.IsWire wire) :
    ¬ "token:".toList <+: ClientAuth.wirePrefix wire := by
  obtain ⟨env, secret, rfl, -⟩ := h
  rintro ⟨rest, hrest⟩
  cases hrest

/-- Both endpoints record under the key of the token. -/
theorem apiKey_of_mem_records {E : ProxyEnv} {srv : Server} {stamp : Audit.Stamp} {now : Nat}
    {view : ClientView} {r : SpendRecord} :
    (∀ body, r ∈ (chatCompletions E srv stamp now (some view) body).records →
      r.apiKey = view.budgetKey) ∧
    ∀ req, r ∈ (messages E srv now (some view) req).records → r.apiKey = view.budgetKey := by
  constructor
  · intro body h
    have hstream : ∀ {result : StreamResult}, r ∈ result.records view.budgetKey now →
        r.apiKey = view.budgetKey := by
      intro result hr
      obtain ⟨usage, -, rfl⟩ := mem_map.1 hr
      rfl
    have hplain : ∀ {json : Json}, r ∈ chatRecords srv now view.budgetKey json →
        r.apiKey = view.budgetKey := by
      intro json hr
      unfold chatRecords at hr
      split at hr
      · rw [mem_singleton.1 hr]
      · cases hr
    unfold chatCompletions at h
    repeat' split at h
    all_goals first | exact hstream h | exact hplain h | cases h
  · intro req h
    have hplain : ∀ {model : Text} {resp : BackendResponse} {json : Json},
        r ∈ messagesRecords srv now view.budgetKey model resp json → r.apiKey = view.budgetKey := by
      intro model resp json hr
      unfold messagesRecords at hr
      split at hr
      · rw [mem_singleton.1 hr]
      · cases hr
    unfold messages at h
    repeat' split at h
    all_goals first | exact hplain h | cases h

theorem spentUnder_eq_zero (overflowChecks : Bool) {k : Text} (hk : ¬ "token:".toList <+: k)
    (events : List BudgetEvent) : spentUnder overflowChecks k events = 0 := by
  unfold spentUnder logSum
  rw [sum_eq_zero_iff, forall_mem_map]
  intro row hrow
  obtain ⟨event, -, hevent⟩ := mem_filterMap.1 hrow
  rw [if_neg]
  rintro rfl
  cases event with
  | request token prompt completion model now =>
    have hkey : row.apiKey = (viewOf token).budgetKey := apiKey_of_logged overflowChecks
      ⟨tokenSpend token prompt completion model now, none⟩ hevent
    rw [hkey] at hk
    exact hk ⟨displayInt token.id, rfl⟩
  | consoleLimit key limit | adminLimit key limit => cases hevent

theorem exists_item_iff {tokens : Table} {db : SqliteBudgetStore} {user : User}
    (hrole : user.role ≠ "admin".toList) {row : ClientTokenRow}
    (hrow : row ∈ listForUser tokens user.id) (P : BudgetItem → Prop) :
    (∃ item ∈ apiBudget tokens db user, item.apiKey = row.tokenPrefix ∧ P item) ↔
      P (itemFor db row.tokenPrefix) := by
  unfold apiBudget
  rw [if_neg hrole]
  constructor
  · rintro ⟨item, hitem, hkey, hp⟩
    obtain ⟨row', -, rfl⟩ := mem_map.1 hitem
    rw [← hkey]
    exact hp
  · exact fun hp => ⟨_, mem_map.2 ⟨row, hrow, rfl⟩, rfl, hp⟩

/-- **The view shows what is enforced exactly if** nothing has been spent with the tokens of the
user and the limits are the same under both kinds of keys. -/
theorem budget_view_iff (overflowChecks : Bool) (tokens : Table)
    (hkeys : ∀ record ∈ tokens.records, ¬ "token:".toList <+: record.row.tokenPrefix)
    (events : List BudgetEvent) (user : User) (hrole : user.role ≠ "admin".toList) :
    BudgetViewRight tokens (afterEvents overflowChecks events) user ↔
      ∀ row ∈ listForUser tokens user.id,
        spentUnder overflowChecks (viewOf row).budgetKey events = 0 ∧
          limitUnder (viewOf row).budgetKey events = limitUnder row.tokenPrefix events := by
  apply forall₂_congr
  intro row hrow
  rw [exists_item_iff hrole hrow]
  obtain ⟨htotals, hlimit⟩ := afterEvents_spec overflowChecks (viewOf row).budgetKey events
  obtain ⟨htotals', hlimit'⟩ := afterEvents_spec overflowChecks row.tokenPrefix events
  have hissued : ¬ "token:".toList <+: row.tokenPrefix := by
    obtain ⟨hmem, -⟩ := mem_filter.1 hrow
    obtain ⟨record, hrecord, rfl⟩ := mem_map.1 hmem
    exact hkeys record hrecord
  have husage : (itemFor (afterEvents overflowChecks events) row.tokenPrefix).usage = 0 := by
    rw [spentUnder_eq_zero overflowChecks hissued] at htotals'
    change ((afterEvents overflowChecks events).getUsage row.tokenPrefix).toOption.getD 0 = 0
    rw [(getUsage_eq_ok_iff htotals').2 ⟨rfl, by decide⟩]
    rfl
  rw [husage]
  apply and_congr
  · exact (getUsage_eq_ok_iff htotals).trans ⟨And.left, fun h => ⟨h, by decide⟩⟩
  · change Except.ok (Option.map Fin.val _) = Except.ok (Option.map Fin.val _) ↔ _
    rw [hlimit, hlimit', Except.ok.injEq]
    exact (Option.map_injective Fin.val_injective).eq_iff

section Examples

def firstToken : ClientTokenRow := ⟨1, "ng_p_a".toList, 7, none, [], none, none, none⟩

def unspent : List BudgetEvent :=
  [.consoleLimit "token:1".toList (some 10), .consoleLimit " ng_p_a".toList (some 10),
    .request firstToken 0 0 "m".toList 0]

theorem budget_view_unspent :
    BudgetViewRight oneToken (afterEvents false unspent) (tokenUser "user") := by
  have hkeys : ∀ record ∈ oneToken.records, ¬ "token:".toList <+: record.row.tokenPrefix := by
    decide
  apply (budget_view_iff false oneToken hkeys unspent (tokenUser "user") (by decide)).2
  decide

/-- **A limit that is not shown.** The key of the token has a limit of 10 and a usage of 11: the proxy
refuses its requests, and the user sees no usage and no limit. -/
theorem budget_view_other_key :
    let db := afterEvents false [.consoleLimit "token:1".toList (some 10),
      .request firstToken 5 6 "m".toList 0]
    db.check (viewOf firstToken).budgetKey = .ok (.exceeded 11 10) ∧
      apiBudget oneToken db (tokenUser "user") = [⟨"ng_p_a".toList, 0, none⟩] :=
  ⟨rfl, rfl⟩

end Examples

end Nanoguard.Console

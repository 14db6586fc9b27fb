import Nanoguard.Proxy.InputPipeline
import Nanoguard.Proxy.StreamSpend

/-!
# The budget database

Counts are `u64` in the program and signed 64-bit integers in the database: a larger count cannot be
bound to a statement, and a total that leaves the range becomes a float, which cannot be read back. A
spend that cannot be written is only logged, and a budget that cannot be read does not refuse.
-/

namespace Nanoguard.Budget

open Proxy (Refused SpendRecord checkAccess checkBudget)

/-! ## Numbers -/

abbrev SqlInt := Fin (2 ^ 63)

variable {r : SpendRecord} {usage : Nat} {rs : List SpendRecord} {limit : SqlInt}

def bindU64 (n : Nat) : Except Text SqlInt :=
  if h : n < 2 ^ 63 then .ok ⟨n, h⟩
  else .error "out of range integral type conversion attempted".toList

/-- What an integer column holds. The value of a float does not matter: it is out of the range of
the integers and stays so when counts are added. -/
inductive SqlNumber where
  | integer (n : SqlInt)
  | real
  deriving DecidableEq, Repr

def SqlNumber.add : SqlNumber → SqlInt → SqlNumber
  | .integer m, n => if h : m.1 + n.1 < 2 ^ 63 then .integer ⟨m.1 + n.1, h⟩ else .real
  | .real, _ => .real

/-- Addition of two `u64`. With overflow checks it panics, without them it wraps. -/
def addU64 (overflowChecks : Bool) (a b : Nat) : Option Nat :=
  if a + b < 2 ^ 64 then some (a + b)
  else if overflowChecks then none
  else some ((a + b) % 2 ^ 64)

/-! ## The store -/

structure SpendLog where
  apiKey : Text
  promptTokens : SqlInt
  completionTokens : SqlInt
  totalTokens : SqlInt
  model : Text
  createdAt : Nat
  deriving DecidableEq, Repr

structure SqliteBudgetStore where
  /-- the table `api_key_limits` -/
  limits : AList (fun _ : Text => SqlInt)
  /-- the table `api_key_usage` -/
  usage : AList (fun _ : Text => SqlNumber)
  spendLogs : List SpendLog

inductive RecordOutcome where
  | recorded
  | failed (error : Text)
  | panicked
  deriving DecidableEq, Repr

def spendLog (r : SpendRecord) (total : Nat) : Except Text SpendLog := do
  let promptTokens ← bindU64 r.promptTokens
  let completionTokens ← bindU64 r.completionTokens
  let totalTokens ← bindU64 total
  return { apiKey := r.apiKey, promptTokens, completionTokens, totalTokens, model := r.model,
           createdAt := r.createdAt }

namespace SqliteBudgetStore

variable (overflowChecks : Bool) (db : SqliteBudgetStore)

/-- The two statements of `record_spend`, which run under one lock. -/
def addSpend (row : SpendLog) : SqliteBudgetStore :=
  { db with
    spendLogs := db.spendLogs ++ [row]
    usage := db.usage.insert row.apiKey
      (match db.usage.lookup row.apiKey with
        | none => .integer row.totalTokens
        | some total => total.add row.totalTokens) }

def recordSpend (r : SpendRecord) : SqliteBudgetStore × RecordOutcome :=
  match addU64 overflowChecks r.promptTokens r.completionTokens with
  | none => (db, .panicked)
  | some total =>
    match spendLog r total with
    | .error e => (db, .failed e)
    | .ok row => (db.addSpend row, .recorded)

def getUsage (apiKey : Text) : Except Text Nat :=
  match db.usage.lookup apiKey with
  | none => .ok 0
  | some (.integer n) => .ok n
  | some .real => .error "Invalid column type Real at index: 0, name: total_tokens".toList

def getLimit (apiKey : Text) : Except Text (Option Nat) :=
  .ok ((db.limits.lookup apiKey).map Fin.val)

def setLimit (apiKey : Text) (limit : Nat) : Except Text SqliteBudgetStore := do
  let limit ← bindU64 limit
  return { db with limits := db.limits.insert apiKey limit }

/-- Only a row that exists is reset. -/
def resetUsage (apiKey : Text) : SqliteBudgetStore :=
  match db.usage.lookup apiKey with
  | none => db
  | some _ => { db with usage := db.usage.insert apiKey (.integer 0) }

def clearLimit (apiKey : Text) : SqliteBudgetStore :=
  { db with limits := db.limits.erase apiKey }

/-- `INSERT INTO api_key_usage … ON CONFLICT(api_key) DO NOTHING` -/
def ensureUsage (apiKey : Text) : SqliteBudgetStore :=
  match db.usage.lookup apiKey with
  | some _ => db
  | none => { db with usage := db.usage.insert apiKey (.integer 0) }

/-- The store as the handlers see it, if nothing is written while they look. -/
def toStore : BudgetStore := ⟨db.getLimit, db.getUsage⟩

def check (apiKey : Text) : Except Text BudgetCheck := db.toStore.check apiKey

/-- Record spends one after the other. A failure is logged and otherwise ignored. -/
def recordAll (rs : List SpendRecord) : SqliteBudgetStore :=
  rs.foldl (fun db r => (db.recordSpend overflowChecks r).1) db

end SqliteBudgetStore

/-! ## The running totals -/

variable (overflowChecks : Bool) {db : SqliteBudgetStore} {k : Text} {n : Nat}

def Totals (db : SqliteBudgetStore) (k : Text) (n : Nat) : Prop :=
  match db.usage.lookup k with
  | none => n = 0
  | some (.integer m) => m.1 = n
  | some .real => 2 ^ 63 ≤ n

theorem totals_of_empty (h : db.usage = ∅) (k : Text) : Totals db k 0 := by
  unfold Totals
  rw [h, AList.lookup_empty]

theorem SqlNumber.add_integer (m n : SqlInt) :
    (SqlNumber.integer m).add n =
      if h : m.1 + n.1 < 2 ^ 63 then .integer ⟨m.1 + n.1, h⟩ else .real := rfl

theorem totals_addSpend_self {row : SpendLog} (h : Totals db row.apiKey n) :
    Totals (db.addSpend row) row.apiKey (n + row.totalTokens) := by
  unfold Totals SqliteBudgetStore.addSpend at *
  rw [AList.lookup_insert]
  cases hrow : db.usage.lookup row.apiKey with
  | none =>
    rw [hrow] at h
    omega
  | some total =>
    rw [hrow] at h
    cases total with
    | integer m =>
      simp only [SqlNumber.add_integer] at h ⊢
      by_cases hfits : m.1 + row.totalTokens.1 < 2 ^ 63
      · simp only [dif_pos hfits]
        omega
      · simp only [dif_neg hfits]
        omega
    | real =>
      simp only [SqlNumber.add] at h ⊢
      omega

theorem lookup_addSpend_ne {row : SpendLog} (hk : row.apiKey ≠ k) :
    (db.addSpend row).usage.lookup k = db.usage.lookup k := by
  exact AList.lookup_insert_ne hk.symm

theorem totals_addSpend (row : SpendLog) (h : Totals db k n) :
    Totals (db.addSpend row) k (n + if row.apiKey = k then row.totalTokens.1 else 0) := by
  by_cases hk : row.apiKey = k
  · subst hk
    rw [if_pos rfl]
    exact totals_addSpend_self h
  rw [if_neg hk]
  unfold Totals at h ⊢
  rw [lookup_addSpend_ne hk]
  exact h

theorem getUsage_of_totals (h : Totals db k n) (hn : n < 2 ^ 63) : db.getUsage k = .ok n := by
  unfold Totals at h
  unfold SqliteBudgetStore.getUsage
  cases hrow : db.usage.lookup k with
  | none =>
    rw [hrow] at h
    rw [h]
  | some total =>
    rw [hrow] at h
    cases total with
    | integer m =>
      rw [← h]
    | real =>
      omega

theorem getUsage_of_totals_large (h : Totals db k n) (hn : 2 ^ 63 ≤ n) :
    ∃ e, db.getUsage k = .error e := by
  unfold Totals at h
  unfold SqliteBudgetStore.getUsage
  cases hrow : db.usage.lookup k with
  | none =>
    rw [hrow] at h
    omega
  | some total =>
    rw [hrow] at h
    cases total with
    | integer m =>
      omega
    | real => exact ⟨_, rfl⟩

theorem totals_of_getUsage (h : db.getUsage k = .ok n) : Totals db k n := by
  unfold SqliteBudgetStore.getUsage at h
  unfold Totals
  split at h
  next => exact (Except.ok.inj h).symm
  next => exact Except.ok.inj h
  next => cases h

theorem recordSpend_cases (db : SqliteBudgetStore) (r : SpendRecord) :
    (db.recordSpend overflowChecks r).1 = db ∨
      ∃ row : SpendLog, row.apiKey = r.apiKey ∧
        (db.recordSpend overflowChecks r).1 = db.addSpend row := by
  unfold SqliteBudgetStore.recordSpend
  split
  · exact .inl rfl
  split
  · exact .inl rfl
  rename_i row hrow
  refine .inr ⟨row, ?_, rfl⟩
  obtain ⟨p, -, hrow⟩ := bind_eq_ok.1 hrow
  obtain ⟨c, -, hrow⟩ := bind_eq_ok.1 hrow
  obtain ⟨t, -, hrow⟩ := bind_eq_ok.1 hrow
  cases hrow
  rfl

@[simp] theorem limits_recordSpend (r : SpendRecord) :
    (db.recordSpend overflowChecks r).1.limits = db.limits := by
  rcases recordSpend_cases overflowChecks db r with h | ⟨row, -, h⟩
  · rw [h]
  · rw [h]
    rfl

theorem bindU64_of_lt (h : n < 2 ^ 63) : bindU64 n = .ok ⟨n, h⟩ := dif_pos h

theorem bindU64_of_le (h : 2 ^ 63 ≤ n) : ∃ e, bindU64 n = .error e := by
  unfold bindU64
  rw [dif_neg (by omega)]
  exact ⟨_, rfl⟩

theorem addU64_of_lt {a b : Nat} (h : a + b < 2 ^ 64) :
    addU64 overflowChecks a b = some (a + b) := if_pos h

theorem recordSpend_of_lt (db : SqliteBudgetStore)
    (h : r.promptTokens + r.completionTokens < 2 ^ 63) :
    ∃ row : SpendLog, row.apiKey = r.apiKey ∧
      row.totalTokens.1 = r.promptTokens + r.completionTokens ∧
      db.recordSpend overflowChecks r = (db.addSpend row, .recorded) := by
  have hp : r.promptTokens < 2 ^ 63 := by omega
  have hc : r.completionTokens < 2 ^ 63 := by omega
  unfold SqliteBudgetStore.recordSpend
  rw [addU64_of_lt overflowChecks (by omega)]
  dsimp only
  unfold spendLog
  rw [bindU64_of_lt hp, bindU64_of_lt hc, bindU64_of_lt h]
  exact ⟨_, rfl, rfl, rfl⟩

theorem getUsage_recordSpend (hown : db.getUsage r.apiKey = .ok usage)
    (hfits : usage + (r.promptTokens + r.completionTokens) < 2 ^ 63) (h : db.getUsage k = .ok n)
    (hn : n < 2 ^ 63) :
    (db.recordSpend overflowChecks r).1.getUsage k =
      .ok (n + if r.apiKey = k then r.promptTokens + r.completionTokens else 0) := by
  obtain ⟨row, hkey, htotal, hrec⟩ := recordSpend_of_lt overflowChecks db (r := r) (by omega)
  have htotals := totals_addSpend row (totals_of_getUsage h)
  rw [hkey, htotal] at htotals
  rw [hrec]
  refine getUsage_of_totals htotals ?_
  by_cases hk : r.apiKey = k
  · subst hk
    rw [hown] at h
    cases h
    rwa [if_pos rfl]
  · rwa [if_neg hk]

theorem recordSpend_of_large (h : 2 ^ 63 ≤ r.promptTokens + r.completionTokens)
    (hadd : r.promptTokens + r.completionTokens < 2 ^ 64) :
    (db.recordSpend overflowChecks r).1 = db := by
  unfold SqliteBudgetStore.recordSpend
  rw [addU64_of_lt overflowChecks hadd]
  obtain ⟨e, he⟩ := bindU64_of_le h
  have hrow : ∃ e, spendLog r (r.promptTokens + r.completionTokens) = .error e := by
    unfold spendLog
    rw [he]
    cases bindU64 r.promptTokens with
    | error e => exact ⟨e, rfl⟩
    | ok p =>
      cases bindU64 r.completionTokens with
      | error e => exact ⟨e, rfl⟩
      | ok c => exact ⟨e, rfl⟩
  obtain ⟨e', he'⟩ := hrow
  simp only [he']

/-! ## Reports and totals -/

def counted (k : Text) : List SpendRecord → Nat
  | [] => 0
  | r :: rs => (if r.apiKey = k then r.promptTokens + r.completionTokens else 0) + counted k rs

/-- The part of it that the database can hold, report by report. -/
def writable (k : Text) : List SpendRecord → Nat
  | [] => 0
  | r :: rs =>
    (if r.apiKey = k ∧ r.promptTokens + r.completionTokens < 2 ^ 63 then
      r.promptTokens + r.completionTokens else 0) + writable k rs

def NoOverflow (rs : List SpendRecord) : Prop :=
  ∀ r ∈ rs, r.promptTokens + r.completionTokens < 2 ^ 64

theorem totals_recordSpend (h : Totals db k n) (hadd : r.promptTokens + r.completionTokens < 2 ^ 64)
    :
    Totals (db.recordSpend overflowChecks r).1 k
      (n + if r.apiKey = k ∧ r.promptTokens + r.completionTokens < 2 ^ 63 then
        r.promptTokens + r.completionTokens else 0) := by
  by_cases hfits : r.promptTokens + r.completionTokens < 2 ^ 63
  · obtain ⟨row, hkey, htotal, hrec⟩ :=
      recordSpend_of_lt overflowChecks db hfits
    rw [hrec]
    have hrow := totals_addSpend row h
    rw [hkey, htotal] at hrow
    simp only [hfits, and_true]
    exact hrow
  · rw [recordSpend_of_large _ (by omega) hadd, if_neg (by omega)]
    exact h

/-- **The total of a key is what the database could write of the reports.** -/
theorem totals_recordAll (h : Totals db k n) (hadd : NoOverflow rs) :
    Totals (db.recordAll overflowChecks rs) k (n + writable k rs) := by
  induction rs generalizing db n with
  | nil => exact h
  | cons r rs ih =>
    have hhead := totals_recordSpend overflowChecks h (hadd r List.mem_cons_self)
    have htail := ih hhead (List.forall_mem_cons.1 hadd).2
    rw [writable, ← Nat.add_assoc]
    exact htail

@[simp] theorem limits_recordAll (rs : List SpendRecord) :
    (db.recordAll overflowChecks rs).limits = db.limits := by
  induction rs generalizing db with
  | nil => rfl
  | cons r rs ih => exact ih.trans (limits_recordSpend overflowChecks r)

theorem writable_eq_counted (h : counted k rs < 2 ^ 63) : writable k rs = counted k rs := by
  induction rs with
  | nil => rfl
  | cons r rs ih =>
    rw [counted] at h
    rw [counted, writable, ih (by omega)]
    by_cases hk : r.apiKey = k
    · rw [if_pos hk] at h
      rw [if_pos hk, if_pos ⟨hk, by omega⟩]
    · rw [if_neg hk, if_neg fun hand => hk hand.1]

theorem counted_append (k : Text) (rs rs' : List SpendRecord) :
    counted k (rs ++ rs') = counted k rs + counted k rs' := by
  induction rs with
  | nil => simp [counted]
  | cons r rs ih => rw [List.cons_append, counted, counted, ih, Nat.add_assoc]

/-! ## Checks -/

theorem check_of_usage (hlimit : db.limits.lookup k = some limit)
    (husage : db.getUsage k = .ok usage) :
    db.check k = .ok (if limit.1 ≤ usage then .exceeded usage limit else .ok usage limit) := by
  unfold SqliteBudgetStore.check BudgetStore.check SqliteBudgetStore.toStore
  simp only [SqliteBudgetStore.getLimit, hlimit, husage]
  rfl

theorem check_of_unread {e : Text} (hlimit : db.limits.lookup k = some limit)
    (husage : db.getUsage k = .error e) : db.check k = .error e := by
  unfold SqliteBudgetStore.check BudgetStore.check SqliteBudgetStore.toStore
  simp only [SqliteBudgetStore.getLimit, hlimit, husage]
  rfl

/-- A limited key is told that its budget is exceeded exactly when its total can be read and has
reached the limit. -/
theorem check_exceeded_iff (hlimit : db.limits.lookup k = some limit) (h : Totals db k n) :
    (∃ usage, db.check k = .ok (.exceeded usage limit)) ↔ limit.1 ≤ n ∧ n < 2 ^ 63 := by
  by_cases hn : n < 2 ^ 63
  · rw [check_of_usage hlimit (getUsage_of_totals h hn)]
    by_cases hle : limit.1 ≤ n
    · rw [if_pos hle]
      exact ⟨fun _ => ⟨hle, hn⟩, fun _ => ⟨n, rfl⟩⟩
    · simp [hle]
  obtain ⟨e, he⟩ := getUsage_of_totals_large h (by omega)
  rw [check_of_unread hlimit he]
  constructor
  · rintro ⟨_, habs⟩
    cases habs
  · rintro ⟨_, hlt⟩
    exact absurd hlt hn

theorem refused_of_exceeded {st : AppState} {limit : Nat} (hbudget : st.budget = some db.toStore)
    (h : db.check k = .ok (.exceeded usage limit)) (model : Text) :
    Refused (checkAccess st k model) := by
  have hcheck : checkBudget st k = .error (.budgetExceeded usage limit) := by
    unfold checkBudget
    rw [hbudget]
    dsimp only
    unfold SqliteBudgetStore.check at h
    rw [h]
  exact ⟨.budgetExceeded usage limit, by unfold checkAccess; rw [hcheck]; rfl⟩

/-- What the budget is for: no count is lost in an addition, and a key whose reports have reached
its limit is refused from then on. -/
structure BudgetHolds (overflowChecks : Bool) (db : SqliteBudgetStore) (rs : List SpendRecord) :
    Prop where
  noOverflow : NoOverflow rs
  exceeded : ∀ done, done <+: rs → ∀ k limit, db.limits.lookup k = some limit →
    limit.1 ≤ counted k done →
      ∃ usage, (db.recordAll overflowChecks done).check k = .ok (.exceeded usage limit)
  notForwarded : ∀ done, done <+: rs → ∀ k limit, db.limits.lookup k = some limit →
    limit.1 ≤ counted k done → ∀ st : AppState,
      st.budget = some (db.recordAll overflowChecks done).toStore →
        ∀ model, Refused (checkAccess st k model)

/-- Whenever the reports for a key have reached its limit, the part of them that the database can
hold has reached it as well and stays in its range. -/
structure CountsFit (db : SqliteBudgetStore) (rs : List SpendRecord) : Prop where
  noOverflow : NoOverflow rs
  fits : ∀ done, done <+: rs → ∀ k limit, db.limits.lookup k = some limit →
    limit.1 ≤ counted k done → limit.1 ≤ writable k done ∧ writable k done < 2 ^ 63

theorem countsFit_of_lt (hadd : NoOverflow rs)
    (h : ∀ k limit, db.limits.lookup k = some limit → counted k rs < 2 ^ 63) : CountsFit db rs := by
  refine ⟨hadd, fun done hdone k limit hlimit hreached => ?_⟩
  obtain ⟨rest, rfl⟩ := hdone
  have hall := h k limit hlimit
  rw [counted_append] at hall
  rw [writable_eq_counted (by omega)]
  omega

/-- **The budget holds for a sequence of reports exactly when the counts fit.** -/
theorem budgetHolds_iff (overflowChecks : Bool) (db : SqliteBudgetStore) (hempty : db.usage = ∅)
    (rs : List SpendRecord) : BudgetHolds overflowChecks db rs ↔ CountsFit db rs := by
  have htotals : NoOverflow rs → ∀ done, done <+: rs → ∀ k,
      Totals (db.recordAll overflowChecks done) k (writable k done) := by
    intro hadd done hdone k
    have h := totals_recordAll overflowChecks (totals_of_empty hempty k)
      fun r hr => hadd r (hdone.subset hr)
    rwa [Nat.zero_add] at h
  constructor
  · intro h
    refine ⟨h.noOverflow, fun done hdone k limit hlimit hreached => ?_⟩
    have hlimit' : (db.recordAll overflowChecks done).limits.lookup k = some limit := by
      rw [limits_recordAll, hlimit]
    exact (check_exceeded_iff hlimit' (htotals h.noOverflow done hdone k)).1
      (h.exceeded done hdone k limit hlimit hreached)
  · intro h
    have hexceeded : ∀ done, done <+: rs → ∀ k limit, db.limits.lookup k = some limit →
        limit.1 ≤ counted k done →
          ∃ usage, (db.recordAll overflowChecks done).check k = .ok (.exceeded usage limit) := by
      intro done hdone k limit hlimit hreached
      have hlimit' : (db.recordAll overflowChecks done).limits.lookup k = some limit := by
        rw [limits_recordAll, hlimit]
      exact (check_exceeded_iff hlimit' (htotals h.noOverflow done hdone k)).2
        (h.fits done hdone k limit hlimit hreached)
    refine ⟨h.noOverflow, hexceeded, fun done hdone k limit hlimit hreached st hst model => ?_⟩
    obtain ⟨usage, husage⟩ := hexceeded done hdone k limit hlimit hreached
    exact refused_of_exceeded hst husage model

def limitedStore : SqliteBudgetStore where
  limits := AList.insert "alice".toList 10 ∅
  usage := ∅
  spendLogs := []

def report (prompt completion : Nat) : SpendRecord :=
  ⟨"alice".toList, prompt, completion, "m".toList, 0⟩

theorem budgetHolds_small : BudgetHolds false limitedStore [report 4 3, report 2 1] := by
  refine (budgetHolds_iff false limitedStore rfl _).2 (countsFit_of_lt ?_ ?_)
  · unfold NoOverflow
    decide
  intro k limit _
  have hsum : ∀ a : Text,
      (if a = k then 4 + 3 else 0) + ((if a = k then 2 + 1 else 0) + 0) < 2 ^ 63 := by
    intro a
    split <;> omega
  exact hsum "alice".toList

/-- **Counts that defeat the budget** of 10. A count of `2 ^ 63` is not written. A prompt count of
`2 ^ 64 - 1` and one more token make a panic, or are not written either. Two counts of `2 ^ 62` make
a total that cannot be read. -/
theorem large_counts_unchecked :
    (limitedStore.recordAll false [report (2 ^ 63) 0]).check "alice".toList = .ok (.ok 0 10) ∧
      (limitedStore.recordSpend true (report (2 ^ 64 - 1) 1)).2 = .panicked ∧
      (limitedStore.recordAll false [report (2 ^ 64 - 1) 1]).check "alice".toList =
        .ok (.ok 0 10) ∧
      (limitedStore.recordAll false [report (2 ^ 62) 0, report (2 ^ 62) 0]).check "alice".toList =
        .error "Invalid column type Real at index: 0, name: total_tokens".toList ∧
      ∀ st : AppState,
        st.budget = some (limitedStore.recordAll false [report (2 ^ 62) 0, report (2 ^ 62) 0]).toStore →
          checkBudget st "alice".toList = .ok () := by
  refine ⟨rfl, rfl, rfl, rfl, fun st hst => ?_⟩
  unfold checkBudget
  rw [hst]
  rfl

end Nanoguard.Budget

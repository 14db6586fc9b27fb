import Nanoguard.Budget.Sqlite
import Nanoguard.Lib.Selection
import Nanoguard.Lib.Statements

/-!
# The log of the spends and the totals

`record_spend` writes a row of the log and then adds to the total of the key, not in one transaction:
if the second statement fails, or the process ends before it, the row stays.
-/

namespace Nanoguard.Budget

open List

open Proxy (SpendRecord)
open Selection (filterMap_cons_eq)

variable {r : SpendRecord} {total : Nat} {row : SpendLog}

inductive Stop where
  | fails (error : Text)
  /-- the process ends -/
  | cut
  deriving DecidableEq, Repr

/-- A call of `record_spend`, and the statement before which it stops. -/
structure SpendCall where
  record : SpendRecord
  stop : Option (Nat × Stop)
  deriving DecidableEq, Repr

namespace SqliteBudgetStore

variable (overflowChecks : Bool) (db : SqliteBudgetStore)

def insertLog (r : SpendRecord) (total : Nat) : Except Text SqliteBudgetStore := do
  let row ← spendLog r total
  return { db with spendLogs := db.spendLogs ++ [row] }

/-- `INSERT INTO api_key_usage … ON CONFLICT(api_key) DO UPDATE …` -/
def addUsage (apiKey : Text) (total : Nat) : Except Text SqliteBudgetStore := do
  let total ← bindU64 total
  return { db with
    usage := db.usage.insert apiKey
      (match db.usage.lookup apiKey with
        | none => .integer total
        | some sum => sum.add total) }

/-- `record_spend`, statement by statement. A call that is cut short has no outcome. -/
def recordSpendUntil (call : SpendCall) : SqliteBudgetStore × Option RecordOutcome :=
  match addU64 overflowChecks call.record.promptTokens call.record.completionTokens with
  | none => (db, some .panicked)
  | some total =>
    let (db, outcome) := Statements.run
      [fun db => (db.insertLog call.record total).mapError .fails,
        fun db => (db.addUsage call.record.apiKey total).mapError .fails] call.stop db
    (db, match outcome with
      | .ok () => some .recorded
      | .error (.fails e) => some (.failed e)
      | .error .cut => none)

def recordAllUntil (calls : List SpendCall) : SqliteBudgetStore :=
  calls.foldl (fun db call => (db.recordSpendUntil overflowChecks call).1) db

end SqliteBudgetStore

section Calls

variable (overflowChecks : Bool) {db : SqliteBudgetStore} {call : SpendCall} {k : Text} {n : Nat}

def SpendCall.logged (call : SpendCall) : Option SpendLog :=
  match call.stop with
  | some (0, _) => none
  | _ => (addU64 overflowChecks call.record.promptTokens call.record.completionTokens).bind
      fun total => (spendLog call.record total).toOption

def SpendCall.halfway (call : SpendCall) : Bool :=
  match call.stop with
  | some (1, _) => true
  | _ => false

theorem spendLog_ok (h : spendLog r total = .ok row) :
    row.apiKey = r.apiKey ∧ bindU64 total = .ok row.totalTokens := by
  obtain ⟨prompt, -, h⟩ := bind_eq_ok.1 h
  obtain ⟨completion, -, h⟩ := bind_eq_ok.1 h
  obtain ⟨sum, hsum, h⟩ := bind_eq_ok.1 h
  cases h
  exact ⟨rfl, hsum⟩

theorem apiKey_of_logged (call : SpendCall) (h : call.logged overflowChecks = some row) :
    row.apiKey = call.record.apiKey := by
  unfold SpendCall.logged at h
  split at h
  · cases h
  obtain ⟨total, -, h⟩ := Option.bind_eq_some_iff.1 h
  cases hrow : spendLog call.record total with
  | error e =>
    rw [hrow] at h
    cases h
  | ok row' =>
    rw [hrow] at h
    cases h
    exact (spendLog_ok hrow).1

theorem insertLog_ok (h : spendLog r total = .ok row) (db : SqliteBudgetStore) :
    db.insertLog r total =
      .ok { db with spendLogs := db.spendLogs ++ [row] } := by
  unfold SqliteBudgetStore.insertLog
  rw [h]
  rfl

theorem insertLog_error {e : Text} (h : spendLog r total = .error e) (db : SqliteBudgetStore) :
    db.insertLog r total = .error e := by
  unfold SqliteBudgetStore.insertLog
  rw [h]
  rfl

theorem addUsage_ok (h : spendLog r total = .ok row) (db : SqliteBudgetStore) :
    ({ db with spendLogs := db.spendLogs ++ [row] } : SqliteBudgetStore).addUsage r.apiKey total =
      .ok (db.addSpend row) := by
  obtain ⟨hkey, htotal⟩ := spendLog_ok h
  unfold SqliteBudgetStore.addUsage
  rw [htotal, ← hkey]
  rfl

/-- What a call leaves: nothing, a row of the log, or a row with its part of the total. -/
theorem recordSpendUntil_cases (db : SqliteBudgetStore) (call : SpendCall) :
    call.logged overflowChecks = none ∧ (db.recordSpendUntil overflowChecks call).1 = db ∨
    ∃ row, call.logged overflowChecks = some row ∧
      ((∃ how, call.stop = some (1, how) ∧
          (db.recordSpendUntil overflowChecks call).1 =
            { db with spendLogs := db.spendLogs ++ [row] } ∧
          ∀ e, (db.recordSpendUntil overflowChecks call).2 = some (.failed e) ↔ how = .fails e) ∨
        call.halfway = false ∧
          db.recordSpendUntil overflowChecks call = (db.addSpend row, some .recorded)) := by
  obtain ⟨r, stop⟩ := call
  unfold SpendCall.logged SqliteBudgetStore.recordSpendUntil
  dsimp only
  cases addU64 overflowChecks r.promptTokens r.completionTokens with
  | none => exact .inl ⟨by rcases stop with _ | ⟨_ | n, how⟩ <;> rfl, rfl⟩
  | some total =>
    dsimp only [Option.bind_some]
    cases hrow : spendLog r total with
    | error e =>
      have hinsert := insertLog_error hrow db
      refine .inl ⟨by rcases stop with _ | ⟨_ | n, how⟩ <;> rfl, ?_⟩
      rcases stop with _ | ⟨_ | n, how⟩ <;> simp only [Statements.run, hinsert, Except.mapError]
    | ok row =>
      have hinsert := insertLog_ok hrow db
      have hadd := addUsage_ok hrow db
      rcases stop with _ | ⟨_ | _ | n, how⟩
      · exact .inr ⟨row, rfl, .inr ⟨rfl, by simp only [Statements.run, hinsert, hadd, Except.mapError]⟩⟩
      · exact .inl ⟨rfl, rfl⟩
      · refine .inr ⟨row, rfl, .inl ⟨how, rfl, by simp only [Statements.run, hinsert, Except.mapError], ?_⟩⟩
        simp only [Statements.run, hinsert, Except.mapError]
        cases how <;> simp
      · exact .inr ⟨row, rfl, .inr ⟨rfl, by simp only [Statements.run, hinsert, hadd, Except.mapError]⟩⟩

theorem recordSpendUntil_none (r : SpendRecord) :
    db.recordSpendUntil overflowChecks ⟨r, none⟩ =
      ((db.recordSpend overflowChecks r).1, some (db.recordSpend overflowChecks r).2) := by
  unfold SqliteBudgetStore.recordSpendUntil SqliteBudgetStore.recordSpend
  dsimp only
  cases addU64 overflowChecks r.promptTokens r.completionTokens with
  | none => rfl
  | some total =>
    cases hrow : spendLog r total with
    | error e => simp only [Statements.run, insertLog_error hrow db, hrow, Except.mapError]
    | ok row =>
      simp only [Statements.run, insertLog_ok hrow db, addUsage_ok hrow db, hrow, Except.mapError]

end Calls

/-! ## Runs -/

def logSum (k : Text) (rows : List SpendLog) : Nat :=
  (rows.map fun row => if row.apiKey = k then row.totalTokens.1 else 0).sum

section Runs

variable (overflowChecks : Bool) {db : SqliteBudgetStore} {calls : List SpendCall} {k : Text}
  {n : Nat}

def SpendCall.counted (call : SpendCall) : Option SpendLog :=
  if call.halfway then none else call.logged overflowChecks

def SpendCall.missed (call : SpendCall) : Option SpendLog :=
  if call.halfway then call.logged overflowChecks else none

theorem logSum_append (k : Text) (rows rows' : List SpendLog) :
    logSum k (rows ++ rows') = logSum k rows + logSum k rows' := by
  unfold logSum
  rw [map_append, sum_append]

theorem logSum_toList (k : Text) (row : SpendLog) :
    logSum k (some row).toList = if row.apiKey = k then row.totalTokens.1 else 0 := by
  unfold logSum
  rw [Option.toList_some, map_singleton, sum_singleton]

theorem logSum_logged (call : SpendCall) :
    logSum k (call.logged overflowChecks).toList =
      logSum k (call.counted overflowChecks).toList + logSum k (call.missed overflowChecks).toList := by
  unfold SpendCall.counted SpendCall.missed
  cases call.halfway with
  | false => rfl
  | true => exact (Nat.zero_add _).symm

theorem spendLogs_recordSpendUntil (db : SqliteBudgetStore) (call : SpendCall) :
    (db.recordSpendUntil overflowChecks call).1.spendLogs =
      db.spendLogs ++ (call.logged overflowChecks).toList := by
  rcases recordSpendUntil_cases overflowChecks db call with
    ⟨hlogged, h⟩ | ⟨row, hlogged, ⟨how, -, h, -⟩ | ⟨-, h⟩⟩
  · rw [hlogged, h, Option.toList_none, append_nil]
  · rw [hlogged, h, Option.toList_some]
  · rw [hlogged, h]
    rfl

theorem totals_recordSpendUntil (call : SpendCall) (h : Totals db k n) :
    Totals (db.recordSpendUntil overflowChecks call).1 k
      (n + logSum k (call.counted overflowChecks).toList) := by
  unfold SpendCall.counted
  rcases recordSpendUntil_cases overflowChecks db call with
    ⟨hlogged, hdb⟩ | ⟨row, hlogged, ⟨how, hstop, hdb, -⟩ | ⟨hhalfway, hdb⟩⟩
  · rw [hlogged, hdb, ite_self]
    exact h
  · have hhalfway : call.halfway = true := by
      unfold SpendCall.halfway
      rw [hstop]
      rfl
    rw [hdb, hhalfway]
    exact h
  · rw [hdb, hhalfway, hlogged]
    exact totals_addSpend row h

theorem spendLogs_recordAllUntil :
    (db.recordAllUntil overflowChecks calls).spendLogs =
      db.spendLogs ++ calls.filterMap (SpendCall.logged overflowChecks) := by
  induction calls generalizing db with
  | nil => exact (append_nil _).symm
  | cons call calls ih =>
    change ((db.recordSpendUntil overflowChecks call).1.recordAllUntil overflowChecks
      calls).spendLogs = _
    rw [ih, spendLogs_recordSpendUntil, append_assoc, filterMap_cons_eq]

theorem totals_recordAllUntil (calls : List SpendCall) (h : Totals db k n) :
    ∃ counted, Totals (db.recordAllUntil overflowChecks calls) k (n + counted) ∧
      logSum k (calls.filterMap (SpendCall.logged overflowChecks)) =
        counted + (calls.map fun call => logSum k (call.missed overflowChecks).toList).sum := by
  induction calls generalizing db n with
  | nil => exact ⟨0, h, rfl⟩
  | cons call calls ih =>
    obtain ⟨counted, htotals, hsum⟩ := ih (totals_recordSpendUntil overflowChecks call h)
    refine ⟨logSum k (call.counted overflowChecks).toList + counted, ?_, ?_⟩
    · rw [← Nat.add_assoc]
      exact htotals
    · rw [filterMap_cons_eq, logSum_append, logSum_logged, map_cons, sum_cons]
      omega

theorem getUsage_eq_ok_iff {sum : Nat} (h : Totals db k n) :
    db.getUsage k = .ok sum ↔ n = sum ∧ sum < 2 ^ 63 := by
  rcases Nat.lt_or_ge n (2 ^ 63) with hn | hn
  · rw [getUsage_of_totals h hn]
    constructor
    · rintro ⟨⟩
      exact ⟨rfl, hn⟩
    · rintro ⟨rfl, -⟩
      rfl
  · obtain ⟨e, he⟩ := getUsage_of_totals_large h hn
    rw [he]
    exact ⟨nofun, fun ⟨hsum, hlt⟩ => absurd hlt (by omega)⟩

end Runs

/-! ## In step -/

/-- The total of every key, as it is read, is what the log says. -/
def InStep (db : SqliteBudgetStore) : Prop := ∀ k, db.getUsage k = .ok (logSum k db.spendLogs)

/-- After the calls the totals are in step with the log, and a call that returned an error has
changed nothing. -/
structure StaysInStep (overflowChecks : Bool) (db : SqliteBudgetStore) (calls : List SpendCall) :
    Prop where
  inStep : InStep (db.recordAllUntil overflowChecks calls)
  errors : ∀ before call after, calls = before ++ call :: after → ∀ e,
    ((db.recordAllUntil overflowChecks before).recordSpendUntil overflowChecks call).2 =
        some (.failed e) →
      ((db.recordAllUntil overflowChecks before).recordSpendUntil overflowChecks call).1 =
        db.recordAllUntil overflowChecks before

/-- No call that has written its row fails after that, none with a count is cut short after that,
and the rows of a key add up to a number that the database holds as an integer. -/
structure RunsThrough (overflowChecks : Bool) (db : SqliteBudgetStore) (calls : List SpendCall) :
    Prop where
  failure : ∀ call ∈ calls, (call.logged overflowChecks).isSome → ∀ e, call.stop ≠ some (1, .fails e)
  cut : ∀ call ∈ calls, ∀ row ∈ call.logged overflowChecks, call.stop = some (1, .cut) →
    row.totalTokens.1 = 0
  range : ∀ k, logSum k (db.spendLogs ++ calls.filterMap (SpendCall.logged overflowChecks)) < 2 ^ 63

section

variable {overflowChecks : Bool} {db : SqliteBudgetStore} {calls : List SpendCall}

theorem inStep_recordAllUntil_iff (h : InStep db) :
    InStep (db.recordAllUntil overflowChecks calls) ↔
      (∀ call ∈ calls, ∀ row ∈ call.missed overflowChecks, row.totalTokens.1 = 0) ∧
        ∀ k, logSum k (db.spendLogs ++ calls.filterMap (SpendCall.logged overflowChecks)) <
          2 ^ 63 := by
  have hkey : ∀ k, (db.recordAllUntil overflowChecks calls).getUsage k =
        .ok (logSum k (db.recordAllUntil overflowChecks calls).spendLogs) ↔
      (∀ call ∈ calls, logSum k (call.missed overflowChecks).toList = 0) ∧
        logSum k (db.spendLogs ++ calls.filterMap (SpendCall.logged overflowChecks)) < 2 ^ 63 := by
    intro k
    obtain ⟨counted, htotals, hsum⟩ :=
      totals_recordAllUntil overflowChecks calls (totals_of_getUsage (h k))
    rw [getUsage_eq_ok_iff htotals, spendLogs_recordAllUntil]
    have hzero : (∀ call ∈ calls, logSum k (call.missed overflowChecks).toList = 0) ↔
        (calls.map fun call => logSum k (call.missed overflowChecks).toList).sum = 0 := by
      rw [sum_eq_zero_iff, forall_mem_map]
    rw [hzero, logSum_append]
    omega
  unfold InStep
  rw [forall_congr' hkey, forall_and]
  apply and_congr_left
  intro _
  constructor
  · intro hmissed call hcall row hrow
    have hsum := hmissed row.apiKey call hcall
    rw [hrow, logSum_toList, if_pos rfl] at hsum
    exact hsum
  · intro hmissed k call hcall
    cases hrow : call.missed overflowChecks with
    | none => rfl
    | some row => rw [logSum_toList, hmissed call hcall row hrow, ite_self]

/-- A call that returns an error has changed something exactly if it failed after its row. -/
theorem error_changes_iff (db : SqliteBudgetStore) (call : SpendCall) :
    (∀ e, (db.recordSpendUntil overflowChecks call).2 = some (.failed e) →
        (db.recordSpendUntil overflowChecks call).1 = db) ↔
      ((call.logged overflowChecks).isSome → ∀ e, call.stop ≠ some (1, .fails e)) := by
  rcases recordSpendUntil_cases overflowChecks db call with
    ⟨hlogged, hdb⟩ | ⟨row, hlogged, ⟨how, hstop, hdb, houtcome⟩ | ⟨hhalfway, hdb⟩⟩
  · rw [hlogged]
    exact ⟨fun _ => nofun, fun _ _ _ => hdb⟩
  · have hne : (db.recordSpendUntil overflowChecks call).1 ≠ db := by
      rw [hdb]
      intro heq
      have hlogs := congrArg SqliteBudgetStore.spendLogs heq
      exact cons_ne_nil _ _ (append_cancel_left (hlogs.trans (append_nil _).symm))
    rw [hlogged, hstop]
    constructor
    · rintro herror - e ⟨⟩
      exact hne (herror e ((houtcome e).2 rfl))
    · intro hstop' e he
      exact absurd (congrArg (fun how => some (1, how)) ((houtcome e).1 he)) (hstop' rfl e)
  · refine ⟨fun _ _ e hstop => ?_, fun _ e he => ?_⟩
    · unfold SpendCall.halfway at hhalfway
      rw [hstop] at hhalfway
      cases hhalfway
    · rw [hdb] at he
      cases he

end

/-- **The totals stay in step with the log, and failed calls change nothing, exactly if** no call
fails between its two statements, only calls without a count are cut short there, and the rows of a
key stay in range. -/
theorem log_in_step_iff (overflowChecks : Bool) (db : SqliteBudgetStore) (calls : List SpendCall)
    (h : InStep db) : StaysInStep overflowChecks db calls ↔ RunsThrough overflowChecks db calls := by
  have hmissed : ∀ call : SpendCall, ∀ row ∈ call.missed overflowChecks,
      row ∈ call.logged overflowChecks ∧ ∃ how, call.stop = some (1, how) := by
    intro call row hrow
    unfold SpendCall.missed SpendCall.halfway at hrow
    rcases hstop : call.stop with _ | ⟨_ | _ | n, how⟩ <;> rw [hstop] at hrow
    · cases hrow
    · cases hrow
    · exact ⟨hrow, how, rfl⟩
    · cases hrow
  constructor
  · rintro ⟨hstep, herrors⟩
    obtain ⟨hzero, hrange⟩ := (inStep_recordAllUntil_iff h).1 hstep
    refine ⟨fun call hcall => ?_, fun call hcall row hrow hstop => ?_, hrange⟩
    · obtain ⟨before, after, hsplit⟩ := append_of_mem hcall
      exact (error_changes_iff _ call).1 (herrors before call after hsplit)
    apply hzero call hcall row
    unfold SpendCall.missed SpendCall.halfway
    rw [hstop]
    exact hrow
  · rintro ⟨hfailure, hcut, hrange⟩
    refine ⟨(inStep_recordAllUntil_iff h).2 ⟨fun call hcall row hrow => ?_, hrange⟩, ?_⟩
    · obtain ⟨hlogged, how, hstop⟩ := hmissed call row hrow
      cases how with
      | fails e =>
        exact absurd hstop (hfailure call hcall (Option.isSome_iff_exists.2 ⟨row, hlogged⟩) e)
      | cut => exact hcut call hcall row hlogged hstop
    · rintro before call after rfl
      exact (error_changes_iff _ call).2 (hfailure call (by simp))

section Examples

def freshStore : SqliteBudgetStore := ⟨∅, ∅, []⟩

theorem inStep_freshStore : InStep freshStore := fun _ => rfl

def earlyStops : List SpendCall :=
  [⟨report 3 4, some (0, .cut)⟩, ⟨report 1 1, some (0, .fails "database is locked".toList)⟩,
    ⟨report 5 6, none⟩]

theorem log_in_step_early_stops : StaysInStep false freshStore earlyStops := by
  apply (log_in_step_iff false freshStore earlyStops inStep_freshStore).2
  have hstops : ∀ call ∈ earlyStops, ∀ how, call.stop ≠ some (1, how) := by
    simp [earlyStops]
  refine ⟨fun call hcall _ e => hstops call hcall _, fun call hcall _ _ hstop =>
    absurd hstop (hstops call hcall _), fun k => ?_⟩
  have hrows : freshStore.spendLogs ++ earlyStops.filterMap (SpendCall.logged false) =
      (some (SpendLog.mk "alice".toList 5 6 11 "m".toList 0)).toList := rfl
  rw [hrows, logSum_toList]
  split <;> decide

/-- **A spend that is logged and not counted**: the second statement fails, or the process ends
before it. -/
theorem spend_logged_not_counted :
    let failed := freshStore.recordSpendUntil false
      ⟨report 5 6, some (1, .fails "database is locked".toList)⟩
    let cut := freshStore.recordSpendUntil false ⟨report 5 6, some (1, .cut)⟩
    failed.2 = some (.failed "database is locked".toList) ∧ cut.2 = none ∧
      failed.1 = cut.1 ∧ logSum "alice".toList cut.1.spendLogs = 11 ∧
        cut.1.getUsage "alice".toList = .ok 0 :=
  ⟨rfl, rfl, rfl, by decide, rfl⟩

end Examples

end Nanoguard.Budget

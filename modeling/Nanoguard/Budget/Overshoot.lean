import Nanoguard.Budget.Sqlite

/-!
# How far a budget is overshot

Requests as threads: each reads its limit, reads its usage, is forwarded, and records what the
answer reports. Any number of requests may have read their usage before the first of them records.
-/

namespace Nanoguard.Budget

open Proxy (Usage)
open Threads

/-! ## The threads -/

inductive Observed where
  | unlimited
  | below (usage limit : Nat)
  | unread (error : Text)
  deriving DecidableEq, Repr

inductive SpendThread where
  | readLimit (key : Text)
  | readUsage (key : Text) (limit : Nat)
  | refused (key : Text) (usage limit : Nat)
  | admitted (key : Text) (observed : Observed)
  | forwarded (key : Text) (observed : Observed)
  /-- with what was recorded; nothing is if the answer reports no usage -/
  | finished (key : Text) (observed : Observed) (spend : Option Nat)
  deriving DecidableEq, Repr

structure Answer where
  usage : Option Usage
  now : Nat

def spendStep (overflowChecks : Bool) (answer : Answer) (db : SqliteBudgetStore) :
    SpendThread → SqliteBudgetStore × SpendThread
  | .readLimit key =>
    match db.getLimit key with
    | .error e => (db, .admitted key (.unread e))
    | .ok none => (db, .admitted key .unlimited)
    | .ok (some limit) => (db, .readUsage key limit)
  | .readUsage key limit =>
    match db.getUsage key with
    | .error e => (db, .admitted key (.unread e))
    | .ok usage =>
      if limit ≤ usage then (db, .refused key usage limit)
      else (db, .admitted key (.below usage limit))
  | .admitted key observed => (db, .forwarded key observed)
  | .forwarded key observed =>
    match answer.usage with
    | none => (db, .finished key observed none)
    | some u =>
      ((db.recordSpend overflowChecks ⟨key, u.prompt, u.completion, u.model, answer.now⟩).1,
        .finished key observed (some (u.prompt + u.completion)))
  | .refused key usage limit => (db, .refused key usage limit)
  | .finished key observed spend => (db, .finished key observed spend)

def spendProgram (overflowChecks : Bool) : Program SqliteBudgetStore SpendThread Text Answer where
  start := .readLimit
  step := spendStep overflowChecks

/-- The two reads of a request that nobody disturbs are `BudgetStore::check`. -/
theorem spendStep_check_alone (overflowChecks : Bool) (db : SqliteBudgetStore) (a₁ a₂ : Answer)
    (key : Text) :
    let q₁ := spendStep overflowChecks a₁ db (.readLimit key)
    let q₂ := spendStep overflowChecks a₂ q₁.1 q₁.2
    match db.check key with
    | .ok .unlimited => q₁ = (db, .admitted key .unlimited)
    | .ok (.ok usage limit) => q₂ = (db, .admitted key (.below usage limit))
    | .ok (.exceeded usage limit) => q₂ = (db, .refused key usage limit)
    | .error e => q₂ = (db, .admitted key (.unread e)) := by
  cases hlimit : db.limits.lookup key with
  | none =>
    simp [spendStep, SqliteBudgetStore.check, BudgetStore.check, SqliteBudgetStore.toStore,
      SqliteBudgetStore.getLimit, hlimit, pure, Except.pure, bind, Except.bind]
  | some limit =>
    cases husage : db.getUsage key with
    | error e =>
      rw [check_of_unread hlimit husage]
      simp [spendStep, SqliteBudgetStore.getLimit, hlimit, husage]
    | ok usage =>
      rw [check_of_usage hlimit husage]
      by_cases hle : limit.1 ≤ usage <;>
        simp [spendStep, SqliteBudgetStore.getLimit, hlimit, husage, hle]

def SpendThread.key : SpendThread → Text
  | .readLimit key | .readUsage key _ | .refused key _ _ | .admitted key _ | .forwarded key _
  | .finished key _ _ => key

/-- What the thread found if its request was let through. -/
def SpendThread.observed : SpendThread → Option Observed
  | .admitted _ observed | .forwarded _ observed | .finished _ observed _ => some observed
  | _ => none

def spentOn (k : Text) : SpendThread → Nat
  | .finished key _ (some spend) => if key = k then spend else 0
  | _ => 0

def UnderWay (k : Text) : SpendThread → Prop
  | .admitted key _ | .forwarded key _ => key = k
  | _ => False

instance (k : Text) (t : SpendThread) : Decidable (UnderWay k t) := by
  cases t <;> unfold UnderWay <;> infer_instance

def Fits (s : Sys SqliteBudgetStore SpendThread) : Act Text Answer → Bool
  | .run i answer =>
    match s.threads[i]?, answer.usage with
    | some (.forwarded key _), some u =>
      match s.shared.getUsage key with
      | .ok usage => decide (usage + (u.prompt + u.completion) < 2 ^ 63)
      | .error _ => false
    | _, _ => true
  | .spawn _ => true

section Steps

variable (overflowChecks : Bool) (db : SqliteBudgetStore) {answer : Answer} {t : SpendThread}
  {limits : AList (fun _ : Text => SqlInt)} {k : Text}

/-- Only a request that records changes the store. -/
theorem spendStep_quiet (h : ∀ key observed, t = .forwarded key observed → answer.usage = none) :
    (spendStep overflowChecks answer db t).1 = db ∧
      spentOn k (spendStep overflowChecks answer db t).2 = spentOn k t := by
  cases t with
  | readLimit key =>
    simp only [spendStep]
    split <;> exact ⟨rfl, rfl⟩
  | readUsage key limit =>
    simp only [spendStep]
    split
    · exact ⟨rfl, rfl⟩
    · split <;> exact ⟨rfl, rfl⟩
  | forwarded key observed =>
    simp only [spendStep, h key observed rfl, spentOn, and_self]
  | admitted key observed => exact ⟨rfl, rfl⟩
  | refused key usage limit => exact ⟨rfl, rfl⟩
  | finished key observed spend => exact ⟨rfl, rfl⟩

/-- If the key has a limit, the check found its usage below it. -/
def ObservedOk (limits : AList (fun _ : Text => SqlInt)) (key : Text) (observed : Observed) : Prop :=
  ∀ limit, limits.lookup key = some limit →
    ∃ usage, usage < limit.1 ∧ observed = .below usage limit

def ThreadOk (limits : AList (fun _ : Text => SqlInt)) : SpendThread → Prop
  | .readUsage key limit => (limits.lookup key).map Fin.val = some limit
  | .admitted key observed | .forwarded key observed | .finished key observed _ =>
    ObservedOk limits key observed
  | _ => True

theorem spendStep_ok (hlimits : db.limits = limits) (hread : ∃ usage, db.getUsage t.key = .ok usage)
    (ht : ThreadOk limits t) : ThreadOk limits (spendStep overflowChecks answer db t).2 := by
  subst hlimits
  cases t with
  | readLimit key =>
    simp only [spendStep, SqliteBudgetStore.getLimit]
    cases hlookup : db.limits.lookup key with
    | none =>
      intro limit hlimit
      rw [hlookup] at hlimit
      cases hlimit
    | some limit => simp [ThreadOk, hlookup]
  | readUsage key limit =>
    obtain ⟨usage, husage⟩ := hread
    simp only [spendStep, SpendThread.key] at husage ⊢
    rw [husage]
    by_cases hle : limit ≤ usage
    · simp [hle, ThreadOk]
    simp only [hle]
    intro limit' hlimit'
    simp only [ThreadOk, hlimit', Option.map_some, Option.some.injEq] at ht
    subst ht
    exact ⟨usage, by omega, rfl⟩
  | admitted key observed => exact ht
  | forwarded key observed =>
    simp only [spendStep]
    split <;> exact ht
  | refused key usage limit => trivial
  | finished key observed spend => exact ht

end Steps

/-! ## Runs -/

structure SpendInv (limits : AList (fun _ : Text => SqlInt))
    (s : Sys SqliteBudgetStore SpendThread) : Prop where
  limits_eq : s.shared.limits = limits
  usage : ∀ k, s.shared.getUsage k = .ok (total (spentOn k) s)
  lt : ∀ k, total (spentOn k) s < 2 ^ 63
  threads : ∀ (j : Nat) t, s.threads[j]? = some t → ThreadOk limits t

section Runs

variable {overflowChecks : Bool} {limits : AList (fun _ : Text => SqlInt)}
  {s : Sys SqliteBudgetStore SpendThread} {a : Act Text Answer} {i : Nat} {answer : Answer}
  {key k : Text} {observed : Observed} {u : Usage}

theorem usage_of_fits (h : Fits s (.run i answer) = true)
    (hi : s.threads[i]? = some (.forwarded key observed)) (hu : answer.usage = some u) :
    ∃ usage, s.shared.getUsage key = .ok usage ∧ usage + (u.prompt + u.completion) < 2 ^ 63 := by
  simp only [Fits, hi, hu] at h
  split at h
  next usage husage => exact ⟨usage, husage, of_decide_eq_true h⟩
  next => cases h

/-- A record adds the counts of its answer to the usage of its key, in the store and in what the
threads have recorded. -/
theorem usage_record (overflowChecks : Bool) (h : SpendInv limits s) (hfits : Fits s (.run i answer) = true)
    (hi : s.threads[i]? = some (.forwarded key observed)) (hu : answer.usage = some u) (k : Text) :
    (act (spendProgram overflowChecks) s (.run i answer)).shared.getUsage k =
        .ok (total (spentOn k) (act (spendProgram overflowChecks) s (.run i answer))) ∧
      total (spentOn k) (act (spendProgram overflowChecks) s (.run i answer)) < 2 ^ 63 ∧
      total (spentOn k) (act (spendProgram overflowChecks) s (.run i answer)) =
        total (spentOn k) s + if key = k then u.prompt + u.completion else 0 := by
  obtain ⟨usage, husage, hlt⟩ := usage_of_fits hfits hi hu
  have htotal := total_run (f := spentOn k) (P := spendProgram overflowChecks) hi answer
  have hspent : spentOn k ((spendProgram overflowChecks).step answer s.shared
      (.forwarded key observed)).2 = if key = k then u.prompt + u.completion else 0 := by
    simp only [spendProgram, spendStep, hu, spentOn]
  have hzero : spentOn k (.forwarded key observed) = 0 := rfl
  rw [hspent, hzero, Nat.add_zero] at htotal
  have hstore : (act (spendProgram overflowChecks) s (.run i answer)).shared =
      (s.shared.recordSpend overflowChecks
        ⟨key, u.prompt, u.completion, u.model, answer.now⟩).1 := by
    rw [act_run_of_some hi]
    simp only [spendProgram, spendStep, hu]
  rw [hstore, getUsage_recordSpend overflowChecks husage hlt (h.usage k) (h.lt k), htotal]
  refine ⟨rfl, ?_, rfl⟩
  by_cases hk : key = k
  · subst hk
    rw [h.usage] at husage
    cases husage
    rwa [if_pos rfl]
  · rw [if_neg hk]
    exact h.lt k

theorem act_quiet (hrec : ∀ i answer key observed, a = .run i answer →
      s.threads[i]? = some (.forwarded key observed) → answer.usage = none) :
    (act (spendProgram overflowChecks) s a).shared = s.shared ∧
      total (spentOn k) (act (spendProgram overflowChecks) s a) = total (spentOn k) s := by
  cases a with
  | spawn call =>
    rw [total_spawn]
    exact ⟨rfl, rfl⟩
  | run i answer =>
    cases hi : s.threads[i]? with
    | none =>
      rw [act_run_of_none hi]
      exact ⟨rfl, rfl⟩
    | some t =>
      have hquiet := spendStep_quiet overflowChecks s.shared (k := k) fun key observed ht =>
        hrec i answer key observed rfl (ht ▸ hi)
      have htotal := total_run (f := spentOn k) (P := spendProgram overflowChecks) hi answer
      have hsame : spentOn k ((spendProgram overflowChecks).step answer s.shared t).2 =
        spentOn k t := hquiet.2
      rw [act_run_of_some hi] at htotal ⊢
      exact ⟨hquiet.1, by omega⟩

theorem act_records_or_quiet (overflowChecks : Bool) (s : Sys SqliteBudgetStore SpendThread)
    (a : Act Text Answer) :
    (∃ i answer key observed u, a = .run i answer ∧
        s.threads[i]? = some (.forwarded key observed) ∧ answer.usage = some u) ∨
      ((act (spendProgram overflowChecks) s a).shared = s.shared ∧
        ∀ k, total (spentOn k) (act (spendProgram overflowChecks) s a) = total (spentOn k) s) := by
  by_cases hrec : ∀ i answer key observed, a = .run i answer →
      s.threads[i]? = some (.forwarded key observed) → answer.usage = none
  · exact .inr ⟨(act_quiet hrec (k := [])).1, fun k => (act_quiet hrec).2⟩
  push Not at hrec
  obtain ⟨i, answer, key, observed, ha, hi, hu⟩ := hrec
  obtain ⟨u, hu⟩ := Option.ne_none_iff_exists'.1 hu
  exact .inl ⟨i, answer, key, observed, u, ha, hi, hu⟩

theorem limits_act (overflowChecks : Bool) (s : Sys SqliteBudgetStore SpendThread)
    (a : Act Text Answer) :
    (act (spendProgram overflowChecks) s a).shared.limits = s.shared.limits := by
  rcases act_records_or_quiet overflowChecks s a with ⟨i, answer, key, observed, u, rfl, hi, hu⟩ | h
  · rw [act_run_of_some hi]
    simp only [spendProgram, spendStep, hu, limits_recordSpend]
  · rw [h.1]

theorem threadOk_act (h : SpendInv limits s) (j : Nat) (t : SpendThread)
    (ht : (act (spendProgram overflowChecks) s a).threads[j]? = some t) : ThreadOk limits t := by
  rcases threads_act ht with hold | ⟨-, key, -, rfl⟩ | ⟨answer, t₀, -, ht₀, rfl⟩
  · exact h.threads j t hold
  · trivial
  · exact spendStep_ok overflowChecks s.shared h.limits_eq ⟨_, h.usage _⟩ (h.threads j t₀ ht₀)

theorem spendInv_act (overflowChecks : Bool) (s : Sys SqliteBudgetStore SpendThread) (a : Act Text Answer)
    (h : SpendInv limits s) (hfits : Fits s a = true) :
    SpendInv limits (act (spendProgram overflowChecks) s a) := by
  have hlimits := (limits_act overflowChecks s a).trans h.limits_eq
  rcases act_records_or_quiet overflowChecks s a with ⟨i, answer, key, observed, u, rfl, hi, hu⟩ | hq
  · have hrec := usage_record overflowChecks h hfits hi hu
    exact ⟨hlimits, fun k => (hrec k).1, fun k => (hrec k).2.1, threadOk_act h⟩
  refine ⟨hlimits, fun k => ?_, fun k => ?_, threadOk_act h⟩
  · rw [hq.1, hq.2, h.usage]
  · rw [hq.2]
    exact h.lt k

theorem spendInv_start {db : SqliteBudgetStore} (hempty : db.usage = ∅) :
    SpendInv db.limits ⟨db, []⟩ := by
  refine ⟨rfl, fun k => ?_, fun k => ?_, fun j t ht => ?_⟩
  · exact getUsage_of_totals (totals_of_empty hempty k) (Nat.two_pow_pos 63)
  · exact Nat.two_pow_pos 63
  · cases ht

theorem total_le_act (h : SpendInv limits s) (hfits : Fits s a = true) (k : Text) :
    total (spentOn k) s ≤ total (spentOn k) (act (spendProgram overflowChecks) s a) := by
  rcases act_records_or_quiet overflowChecks s a with ⟨i, answer, key, observed, u, rfl, hi, hu⟩ | hq
  · rw [(usage_record overflowChecks h hfits hi hu k).2.2]
    exact Nat.le_add_right _ _
  · rw [hq.2]

end Runs

/-! ## The overshoot -/

def reached (db : SqliteBudgetStore) (k : Text) (limit : Nat) : Bool :=
  match db.getUsage k with
  | .ok usage => decide (limit ≤ usage)
  | .error _ => false

/-- The state right before the action with which the usage of the key first reaches the limit, or
the last state if it never does. -/
def beforeReaching (overflowChecks : Bool) (k : Text) (limit : Nat)
    (s : Sys SqliteBudgetStore SpendThread) :
    List (Act Text Answer) → Sys SqliteBudgetStore SpendThread
  | [] => s
  | a :: acts =>
    if reached (act (spendProgram overflowChecks) s a).shared k limit then s
    else beforeReaching overflowChecks k limit (act (spendProgram overflowChecks) s a) acts

def underWay (k : Text) (s : Sys SqliteBudgetStore SpendThread) : Finset Nat :=
  (Finset.range s.threads.length).filter fun j =>
    s.threads[j]?.any (fun t => decide (UnderWay k t)) = true

section Overshoot

variable {overflowChecks : Bool} {limits : AList (fun _ : Text => SqlInt)} {limit : SqlInt}
  {s s₁ : Sys SqliteBudgetStore SpendThread} {a : Act Text Answer} {k : Text}

theorem reached_iff (h : SpendInv limits s) (n : Nat) :
    reached s.shared k n = true ↔ n ≤ total (spentOn k) s := by
  unfold reached
  rw [h.usage]
  simp

theorem mem_underWay {j : Nat} : j ∈ underWay k s ↔ ∃ t, s.threads[j]? = some t ∧ UnderWay k t := by
  unfold underWay
  simp only [Finset.mem_filter, Finset.mem_range, Option.any_eq_true, decide_eq_true_eq,
    and_iff_right_iff_imp]
  rintro ⟨t, ht, -⟩
  exact (List.getElem?_eq_some_iff.1 ht).1

/-- No request of the key is under way except those that were in the state `s₁`, and what has been
recorded since is theirs. -/
structure SinceReaching (k : Text) (s₁ s : Sys SqliteBudgetStore SpendThread) : Prop where
  length_le : s₁.threads.length ≤ s.threads.length
  pending : ∀ j ∈ underWay k s, j ∈ underWay k s₁
  spent : total (spentOn k) s ≤ total (spentOn k) s₁ + totalOver (spentOn k) (underWay k s₁) s

/-- A request of the key that is under way after an action was so before, unless it has just been
admitted; it is admitted only if the usage is below the limit. -/
theorem underWay_act (h : SpendInv limits s) (hlimit : limits.lookup k = some limit)
    (hreached : reached (act (spendProgram overflowChecks) s a).shared k limit = true) {j : Nat}
    (hj : j ∈ underWay k (act (spendProgram overflowChecks) s a)) : j ∈ underWay k s := by
  obtain ⟨t, ht, hway⟩ := mem_underWay.1 hj
  rcases threads_act ht with hold | ⟨-, key, -, rfl⟩ | ⟨answer, t₀, rfl, ht₀, rfl⟩
  · exact mem_underWay.2 ⟨t, hold, hway⟩
  · cases hway
  refine mem_underWay.2 ⟨t₀, ht₀, ?_⟩
  cases t₀ with
  | readLimit key =>
    -- a limited key goes on to read its usage
    simp only [spendProgram, spendStep, SqliteBudgetStore.getLimit, h.limits_eq] at hway
    cases hlookup : limits.lookup key with
    | none =>
      simp only [hlookup] at hway
      rw [hway, hlimit] at hlookup
      cases hlookup
    | some limit' => simp only [hlookup, Option.map_some, UnderWay] at hway
  | readUsage key limit' =>
    -- the step leaves the store alone, so the usage that is read has reached the limit
    have hok := h.threads j _ ht₀
    have hstore : (act (spendProgram overflowChecks) s (.run j answer)).shared = s.shared := by
      rw [act_run_of_some ht₀]
      simp only [spendProgram, spendStep]
      split
      · rfl
      · split <;> rfl
    rw [hstore, reached_iff h] at hreached
    simp only [spendProgram, spendStep, h.usage] at hway
    split at hway
    · cases hway
    subst hway
    simp only [ThreadOk, hlimit, Option.map_some, Option.some.injEq] at hok
    omega
  | admitted key observed => exact hway
  | forwarded key observed =>
    simp only [spendProgram, spendStep] at hway
    split at hway <;> cases hway
  | refused key usage limit' => cases hway
  | finished key observed spend => cases hway

theorem sinceReaching_act (h : SpendInv limits s) (hfits : Fits s a = true)
    (hlimit : limits.lookup k = some limit)
    (hreached : reached (act (spendProgram overflowChecks) s a).shared k limit = true)
    (hsince : SinceReaching k s₁ s) :
    SinceReaching k s₁ (act (spendProgram overflowChecks) s a) := by
  have hpending := fun j hj => hsince.pending j (underWay_act h hlimit hreached hj)
  have hspent := hsince.spent
  cases a with
  | spawn call =>
    refine ⟨?_, hpending, ?_⟩
    · have := hsince.length_le
      simp only [act, List.length_append]
      omega
    rw [total_spawn, totalOver_spawn]
    · exact hspent
    intro j hj
    obtain ⟨t, ht, -⟩ := mem_underWay.1 hj
    have := (List.getElem?_eq_some_iff.1 ht).1
    have := hsince.length_le
    omega
  | run i answer =>
    refine ⟨?_, hpending, ?_⟩
    · rw [length_run]
      exact hsince.length_le
    cases hi : s.threads[i]? with
    | none =>
      rw [act_run_of_none hi]
      exact hspent
    | some t =>
      have htotal := total_run (f := spentOn k) (P := spendProgram overflowChecks) hi answer
      by_cases hmem : i ∈ underWay k s₁
      · have hover := totalOver_run (f := spentOn k) (P := spendProgram overflowChecks) hi hmem
          answer
        omega
      -- a thread that is not under way records nothing for the key
      rw [totalOver_run_of_notMem hmem]
      have hsame : spentOn k ((spendProgram overflowChecks).step answer s.shared t).2 =
          spentOn k t := by
        by_cases hrec : ∃ key observed, t = .forwarded key observed
        · obtain ⟨key, observed, rfl⟩ := hrec
          have hne : key ≠ k := fun heq =>
            hmem (hsince.pending i (mem_underWay.2 ⟨_, hi, heq⟩))
          simp only [spendProgram, spendStep]
          split
          · rfl
          · simp only [spentOn, if_neg hne]
        · exact (spendStep_quiet overflowChecks s.shared fun key observed ht =>
            absurd ⟨key, observed, ht⟩ hrec).2
      omega

theorem sinceReaching_exec {acts : List (Act Text Answer)} (h : SpendInv limits s)
    (hlimit : limits.lookup k = some limit) (hreached : reached s.shared k limit = true)
    (hsince : SinceReaching k s₁ s)
    (halong : Along (spendProgram overflowChecks) (fun s a => Fits s a = true) s acts) :
    SinceReaching k s₁ (exec (spendProgram overflowChecks) s acts) := by
  have hact : ∀ s a,
      SpendInv limits s ∧ reached s.shared k limit = true ∧ SinceReaching k s₁ s →
        Fits s a = true →
          SpendInv limits (act (spendProgram overflowChecks) s a) ∧
            reached (act (spendProgram overflowChecks) s a).shared k limit = true ∧
            SinceReaching k s₁ (act (spendProgram overflowChecks) s a) := by
    rintro s a ⟨h, hreached, hsince⟩ hfits
    have h' := spendInv_act overflowChecks s a h hfits
    have hstill : reached (act (spendProgram overflowChecks) s a).shared k limit = true := by
      rw [reached_iff h] at hreached
      rw [reached_iff h']
      exact hreached.trans (total_le_act h hfits k)
    exact ⟨h', hstill, sinceReaching_act h hfits hlimit hstill hsince⟩
  exact (halong.exec_inv hact ⟨h, hreached, hsince⟩).2.2

/-- What is recorded in the end is bounded by the limit and by what was under way when the usage
reached it. The induction is on the run up to that point. -/
theorem total_exec_le {acts : List (Act Text Answer)} (h : SpendInv limits s)
    (hlimit : limits.lookup k = some limit) (hbelow : total (spentOn k) s ≤ limit.1 - 1)
    (halong : Along (spendProgram overflowChecks) (fun s a => Fits s a = true) s acts) :
    total (spentOn k) (exec (spendProgram overflowChecks) s acts) ≤ limit.1 - 1 +
      totalOver (spentOn k) (underWay k (beforeReaching overflowChecks k limit s acts))
        (exec (spendProgram overflowChecks) s acts) := by
  induction acts generalizing s with
  | nil => exact Nat.le_add_right_of_le hbelow
  | cons a acts ih =>
    have h' := spendInv_act overflowChecks s a h halong.1
    rw [beforeReaching]
    split
    · rename_i hreached
      have hsince : SinceReaching k s s := ⟨Nat.le_refl _, fun _ hj => hj, Nat.le_add_right _ _⟩
      have hnext := sinceReaching_act h halong.1 hlimit hreached hsince
      have hend := sinceReaching_exec h' hlimit hreached hnext halong.2
      exact hend.spent.trans (Nat.add_le_add_right hbelow _)
    · rename_i hnot
      refine ih h' ?_ halong.2
      rw [reached_iff h'] at hnot
      omega

end Overshoot

theorem getUsage_act_ne (overflowChecks : Bool) {s : Sys SqliteBudgetStore SpendThread} {i : Nat}
    {t : SpendThread} {k : Text} (hi : s.threads[i]? = some t) (hk : t.key ≠ k) (answer : Answer) :
    (act (spendProgram overflowChecks) s (.run i answer)).shared.getUsage k =
      s.shared.getUsage k := by
  rcases act_records_or_quiet overflowChecks s (.run i answer) with
    ⟨_, _, key, observed, u, ⟨⟩, hi', hu⟩ | hq
  · rw [hi] at hi'
    cases hi'
    rw [act_run_of_some hi]
    simp only [spendProgram, spendStep, hu]
    rcases recordSpend_cases overflowChecks s.shared
      ⟨key, u.prompt, u.completion, u.model, answer.now⟩ with hsame | ⟨row, hrow, hadd⟩
    · rw [hsame]
    · rw [hadd]
      unfold SqliteBudgetStore.getUsage
      rw [lookup_addSpend_ne (hrow ▸ hk)]
  · rw [hq.1]

/-- **The overshoot is bounded.** In every interleaving of requests that starts with no usage and in
which no total leaves the range of the integers, the usage of a limited key exceeds its limit, less
one, by at most what is recorded by the requests that were admitted and had not recorded when it was
reached. -/
theorem overshoot_bounded (overflowChecks : Bool) (db : SqliteBudgetStore) (hempty : db.usage = ∅)
    (acts : List (Act Text Answer))
    (hfits : Along (spendProgram overflowChecks) (fun s a => Fits s a = true) ⟨db, []⟩ acts) :
    let s := exec (spendProgram overflowChecks) ⟨db, []⟩ acts
    (∀ k, s.shared.getUsage k = .ok (total (spentOn k) s)) ∧
      (∀ (i : Nat) t k answer, s.threads[i]? = some t → t.key ≠ k →
        (act (spendProgram overflowChecks) s (.run i answer)).shared.getUsage k =
          s.shared.getUsage k) ∧
      (∀ t ∈ s.threads, ∀ observed, t.observed = some observed →
        ∀ limit, db.limits.lookup t.key = some limit →
          ∃ usage, usage < limit.1 ∧ observed = .below usage limit) ∧
      ∀ k limit, db.limits.lookup k = some limit →
        total (spentOn k) s ≤ limit.1 - 1 +
          totalOver (spentOn k) (underWay k (beforeReaching overflowChecks k limit ⟨db, []⟩ acts))
            s := by
  intro s
  have hstart := spendInv_start hempty
  have hinv : SpendInv db.limits s := hfits.exec_inv (spendInv_act overflowChecks) hstart
  refine ⟨hinv.usage, fun i t k answer hi hk => getUsage_act_ne overflowChecks hi hk answer, ?_,
    fun k limit hlimit => total_exec_le hstart hlimit (Nat.zero_le _) hfits⟩
  intro t ht observed hobs limit hlimit
  obtain ⟨j, hj⟩ := List.getElem?_of_mem ht
  have hok := hinv.threads j t hj
  cases t with
  | admitted key o | forwarded key o | finished key o spend =>
    cases hobs
    exact hok limit hlimit
  | readLimit key | readUsage key l | refused key u l => cases hobs

def answered (prompt completion : Nat) : Answer := ⟨some ⟨prompt, completion, "m".toList⟩, 0⟩

/-- Two requests of one key are both checked before either records. -/
def raceActs : List (Act Text Answer) :=
  [.spawn "alice".toList, .spawn "alice".toList, .run 0 (answered 0 0), .run 0 (answered 0 0),
    .run 1 (answered 0 0), .run 1 (answered 0 0), .run 0 (answered 0 0), .run 1 (answered 0 0),
    .run 0 (answered 5 6), .run 1 (answered 3 4)]

/-- The limit is 10 and the usage becomes 18, of which all was under way. -/
theorem overshoot_bounded_race :
    let s := exec (spendProgram false) ⟨limitedStore, []⟩ raceActs
    s.shared.getUsage "alice".toList = .ok 18 ∧
      total (spentOn "alice".toList) s ≤ 10 - 1 + totalOver (spentOn "alice".toList)
        (underWay "alice".toList
          (beforeReaching false "alice".toList 10 ⟨limitedStore, []⟩ raceActs)) s :=
  ⟨rfl, (overshoot_bounded false limitedStore rfl raceActs (by decide)).2.2.2 "alice".toList 10 rfl⟩


end Nanoguard.Budget

import Nanoguard.Console.Guessing

/-!
# How many passwords can be guessed

A wrong password is recorded, the recent failures are counted, and with enough of them the account
is locked. The checks of a login come before, so requests that are already past the lock check can
still guess. The end of a lock is computed before the database is taken, so two logins can write their
locks in the other order.
-/

namespace Nanoguard.Console

open Threads

variable {t : ConsoleTask} {f : LoginStage → Nat} {i : Nat} {inp : Tick}

section Window

variable {X : LoginCrates} {cfg : LoginConfig} {u : Text} {w₁ w₂ : Int} {db db' : LoginDb}

/-! ## One step of any task -/

variable (X u w₁ w₂) in
def TaskFits (st : LoginState) : ConsoleTask → Prop
  | .login call stage => LoginFits X u w₁ w₂ st.db st.clock call stage
  | _ => True

theorem TaskFits.mono {st st' : LoginState} (h : TaskFits X u w₁ w₂ st t)
    (hkept : Kept X u w₁ w₂ st.db st'.db) (hclock : st.clock ≤ st'.clock) :
    TaskFits X u w₁ w₂ st' t := by
  cases t with
  | login call stage => exact LoginFits.mono h hkept hclock
  | _ => trivial

section Task

variable {k : Nat} {s : Sys LoginState ConsoleTask} {i : Nat} {inp : Tick} {t : ConsoleTask}

variable (X cfg inp) in
abbrev workingStep (db : LoginDb) (t : ConsoleTask) : LoginDb × ConsoleTask :=
  taskStep X cfg inp (db.connected none) t

theorem Assumed.act_run (ha : Assumed X u k s (.run i inp)) (ht : s.threads[i]? = some t) :
    act (consoleProgram X cfg) s (.run i inp) =
      ⟨⟨(workingStep X cfg inp s.shared.db t).1, inp.now⟩,
        s.threads.set i (workingStep X cfg inp s.shared.db t).2⟩ := by
  rw [act_run_of_some ht]
  unfold consoleProgram
  dsimp only
  rw [ha.2.1]

theorem Assumed.total_run (ha : Assumed X u k s (.run i inp)) (ht : s.threads[i]? = some t)
    (f : LoginStage → Nat) :
    total (ofUser u f) (act (consoleProgram X cfg) s (.run i inp)) + ofUser u f t =
      total (ofUser u f) s + ofUser u f (workingStep X cfg inp s.shared.db t).2 := by
  have hrun := Threads.total_run (f := ofUser u f) (P := consoleProgram X cfg) ht inp
  rwa [show ((consoleProgram X cfg).step inp s.shared t).2 =
    (taskStep X cfg inp (s.shared.db.connected inp.dbError) t).2 from rfl, ha.2.1] at hrun

theorem loginStep_working (db : LoginDb) (call : LoginCall) (stage : LoginStage) :
    LoginMove X cfg inp call (db.connected none) stage
      (loginStep X cfg inp call (db.connected none) stage) :=
  loginStep_move

theorem LoginFits.connected {clock : Int} {call : LoginCall} {stage : LoginStage}
    (h : LoginFits X u w₁ w₂ db clock call stage) :
    LoginFits X u w₁ w₂ (db.connected none) clock call stage :=
  h.mono (.of_eq rfl rfl) (Int.le_refl _)

theorem Kept.connected (h : Kept X u w₁ w₂ db db') : Kept X u w₁ w₂ (db.connected none) db' := by
  have hdb : Kept X u w₁ w₂ (db.connected none) db := .of_eq rfl rfl
  exact hdb.trans h

theorem workingStep_kept (hX : Chrono X.toCrates) (hnow : inp.now ≤ w₂)
    (hwindow : w₂ < w₁ + minutes cfg.lockoutDurationMinutes) (hne : w₁ ≤ w₂)
    (hgrow : LocksGrow X cfg u s (.run i inp)) (ht : s.threads[i]? = some t)
    (hfits : TaskFits X u w₁ w₂ s.shared t) :
    Kept X u w₁ w₂ s.shared.db (workingStep X cfg inp s.shared.db t).1 := by
  have hconnected : Kept X u w₁ w₂ s.shared.db (s.shared.db.connected none) := .of_eq rfl rfl
  refine hconnected.trans ?_
  cases t with
  | login call stage =>
    refine (loginStep_working s.shared.db call stage).kept rfl (LoginFits.connected hfits) ?_
    exact of_onUser (hgrow _ ht)
  | reset call stage => exact resetStep_kept rfl call stage
  | prune stage => exact pruneStep_kept hX hnow hwindow hne stage

theorem workingStep_fits (hX : Chrono X.toCrates)
    (hwindow : w₂ < w₁ + minutes cfg.lockoutDurationMinutes)
    (ha : Assumed X u k s (.run i inp)) (hgrow : LocksGrow X cfg u s (.run i inp))
    (ht : s.threads[i]? = some t) (hfits : TaskFits X u w₁ w₂ s.shared t)
    (hkept : Kept X u w₁ w₂ s.shared.db (workingStep X cfg inp s.shared.db t).1) :
    TaskFits X u w₁ w₂ ⟨(workingStep X cfg inp s.shared.db t).1, inp.now⟩
      (workingStep X cfg inp s.shared.db t).2 := by
  obtain ⟨⟨hclock, -⟩, -, -, hwrong⟩ := ha
  cases t with
  | login call stage =>
    have hmove : LoginMove X cfg inp call (s.shared.db.connected none) stage _ :=
      loginStep_working s.shared.db call stage
    refine ⟨fun r hr => hmove.known hkept.connected hfits.connected hr, fun hu => ?_⟩
    exact hmove.guessing hX rfl hclock hwindow hfits.connected hu (of_onUser (hwrong _ ht) hu)
      (of_onUser (hgrow _ ht) hu)
  | reset call stage => trivial
  | prune stage => trivial

theorem workingStep_weights (hX : Chrono X.toCrates) (hnow : inp.now ≤ w₂)
    (hwindow : w₂ < w₁ + minutes cfg.lockoutDurationMinutes)
    (ha : Assumed X u k s (.run i inp)) (hfits : TaskFits X u w₁ w₂ s.shared t)
    (hkept : Kept X u w₁ w₂ s.shared.db (workingStep X cfg inp s.shared.db t).1) :
    let q := workingStep X cfg inp s.shared.db t
    let weight := fun f => ofUser u f t
    let weight' := fun f => ofUser u f q.2
    weight' LoginStage.inFlight ≤ weight LoginStage.inFlight ∧
      weight' (LoginStage.recordedGuess w₁ w₂) + s.shared.db.failures X.toCrates u w₁ ≤
        weight (LoginStage.recordedGuess w₁ w₂) + q.1.failures X.toCrates u w₁ ∧
      (weight' (LoginStage.spared w₁ w₂) ≤ weight (LoginStage.spared w₁ w₂) ∨
        (q.1.failures X.toCrates u w₁ : Int) < cfg.maxLoginAttempts) ∧
      (q.1.LockedPast X.toCrates u w₂ →
        weight' (LoginStage.mayGuess X w₁ w₂) ≤ weight (LoginStage.mayGuess X w₁ w₂)) := by
  obtain ⟨⟨hclock, hyear⟩, -, -, -⟩ := ha
  have hothers : s.shared.db.failures X.toCrates u w₁ ≤
      (workingStep X cfg inp s.shared.db t).1.failures X.toCrates u w₁ := hkept.failures
  cases t with
  | login call stage =>
    have hmove : LoginMove X cfg inp call (s.shared.db.connected none) stage _ :=
      loginStep_working s.shared.db call stage
    by_cases hu : call.username = u
    · simp only [ofUser, taskStep, if_pos hu]
      exact ⟨hmove.inFlight_le,
        hmove.recordedGuess_le rfl hclock hyear hfits.connected hu hkept.connected,
        hmove.spared_le hX rfl hnow hwindow hfits.connected hu, hmove.mayGuess_le hnow hu⟩
    · simp only [ofUser, taskStep, if_neg hu]
      exact ⟨Nat.le_refl _, Nat.add_le_add_left hothers 0, .inl (Nat.le_refl _), fun _ => Nat.le_refl _⟩
  | reset call stage =>
    exact ⟨Nat.le_refl _, Nat.add_le_add_left hothers 0, .inl (Nat.le_refl _), fun _ => Nat.le_refl _⟩
  | prune stage =>
    exact ⟨Nat.le_refl _, Nat.add_le_add_left hothers 0, .inl (Nat.le_refl _), fun _ => Nat.le_refl _⟩

end Task

/-! ## Runs -/

variable (X cfg u w₁ w₂) in
structure GuessInv (k : Nat) (s : Sys LoginState ConsoleTask) : Prop where
  fits : ∀ (i : Nat) (t : ConsoleTask), s.threads[i]? = some t → TaskFits X u w₁ w₂ s.shared t
  recorded : total (ofUser u (LoginStage.recordedGuess w₁ w₂)) s ≤
    s.shared.db.failures X.toCrates u w₁
  spared : (total (ofUser u (LoginStage.spared w₁ w₂)) s : Int) ≤ max cfg.maxLoginAttempts 1 - 1
  mayGuess : (total (ofUser u (LoginStage.mayGuess X w₁ w₂)) s : Int) ≤
    max cfg.maxLoginAttempts 1 - 1 + k

section Run

variable {k : Nat} {s : Sys LoginState ConsoleTask}

theorem total_ofUser_spawn (hf : f .start = 0) (call : ConsoleCall) :
    total (ofUser u f) (act (consoleProgram X cfg) s (.spawn call)) = total (ofUser u f) s := by
  rw [total_spawn, Nat.add_eq_left]
  cases call with
  | login call =>
    change (if call.username = u then f .start else 0) = 0
    rw [hf, ite_self]
  | _ => rfl

theorem ofUser_le {g : LoginStage → Nat} (h : ∀ stage, f stage ≤ g stage) :
    ofUser u f t ≤ ofUser u g t := by
  cases t with
  | login call stage =>
    unfold ofUser
    dsimp only
    split
    · exact h stage
    · exact Nat.le_refl _
  | _ => exact Nat.le_refl _

theorem total_ofUser_le {g : LoginStage → Nat} (h : ∀ stage, f stage ≤ g stage) :
    total (ofUser u f) s ≤ total (ofUser u g) s :=
  total_mono fun _ _ _ => ofUser_le h

theorem total_mayGuess_le
    (hfits : ∀ (i : Nat) (t : ConsoleTask), s.threads[i]? = some t → TaskFits X u w₁ w₂ s.shared t)
    (hfree : ¬ s.shared.db.LockedPast X.toCrates u w₂) :
    total (ofUser u (LoginStage.mayGuess X w₁ w₂)) s ≤
      total (ofUser u (LoginStage.spared w₁ w₂)) s + total (ofUser u LoginStage.inFlight) s := by
  rw [← total_add]
  refine total_mono fun i t ht => ?_
  have hfit := hfits i t ht
  cases t with
  | login call stage =>
    unfold ofUser
    dsimp only
    by_cases hu : call.username = u
    · rw [if_pos hu, if_pos hu, if_pos hu]
      exact (LoginFits.guessing hfit hu).mayGuess_le hfree
    · rw [if_neg hu]
      exact Nat.zero_le _
  | _ => exact Nat.zero_le _

theorem guessInv_spawn (h : GuessInv X cfg u w₁ w₂ k s) (call : ConsoleCall) :
    GuessInv X cfg u w₁ w₂ k (act (consoleProgram X cfg) s (.spawn call)) := by
  refine ⟨fun i t ht => ?_, ?_, ?_, ?_⟩
  · rcases threads_act ht with hold | ⟨-, call', -, rfl⟩ | ⟨_, _, habs, _⟩
    · exact h.fits i t hold
    · cases call' with
      | login call =>
        refine ⟨fun r hr => ?_, fun _ => trivial⟩
        cases hr
      | _ => trivial
    · cases habs
  · rw [total_ofUser_spawn rfl]
    exact h.recorded
  · rw [total_ofUser_spawn rfl]
    exact h.spared
  · rw [total_ofUser_spawn rfl]
    exact h.mayGuess

theorem fits_run (hX : Chrono X.toCrates) (hwindow : w₂ < w₁ + minutes cfg.lockoutDurationMinutes)
    (h : GuessInv X cfg u w₁ w₂ k s) (ha : Assumed X u k s (.run i inp))
    (hgrow : LocksGrow X cfg u s (.run i inp)) (ht : s.threads[i]? = some t)
    (hkept : Kept X u w₁ w₂ s.shared.db (workingStep X cfg inp s.shared.db t).1) (j : Nat)
    (t' : ConsoleTask)
    (ht' : (s.threads.set i (workingStep X cfg inp s.shared.db t).2)[j]? = some t') :
    TaskFits X u w₁ w₂ ⟨(workingStep X cfg inp s.shared.db t).1, inp.now⟩ t' := by
  by_cases hij : i = j
  · subst hij
    rw [List.getElem?_set_self (List.getElem?_eq_some_iff.1 ht).1, Option.some.injEq] at ht'
    subst ht'
    exact workingStep_fits hX hwindow ha hgrow ht (h.fits i t ht) hkept
  · rw [List.getElem?_set_ne hij] at ht'
    exact (h.fits j t' ht').mono hkept ha.1.1

theorem guessInv_run (hX : Chrono X.toCrates)
    (hwindow : w₂ < w₁ + minutes cfg.lockoutDurationMinutes) (hne : w₁ ≤ w₂)
    (h : GuessInv X cfg u w₁ w₂ k s) (ha : Assumed X u k s (.run i inp))
    (hgrow : LocksGrow X cfg u s (.run i inp)) (hnow : inp.now ≤ w₂) :
    GuessInv X cfg u w₁ w₂ k (act (consoleProgram X cfg) s (.run i inp)) := by
  cases ht : s.threads[i]? with
  | none =>
    rw [act_run_of_none ht]
    exact h
  | some t =>
    have hkept := workingStep_kept hX hnow hwindow hne hgrow ht (h.fits i t ht)
    obtain ⟨hflight, hrecorded, hspared, hmay⟩ :=
      workingStep_weights hX hnow hwindow ha (h.fits i t ht) hkept
    have hweight (f : LoginStage → Nat) :
        total (ofUser u f) (act (consoleProgram X cfg) s (.run i inp)) + ofUser u f t =
          total (ofUser u f) s + ofUser u f (workingStep X cfg inp s.shared.db t).2 :=
      ha.total_run ht f
    have hfits := fits_run hX hwindow h ha hgrow ht hkept
    have hrecorded' : total (ofUser u (LoginStage.recordedGuess w₁ w₂))
        (act (consoleProgram X cfg) s (.run i inp)) ≤
        (workingStep X cfg inp s.shared.db t).1.failures X.toCrates u w₁ := by
      have hsum := hweight (LoginStage.recordedGuess w₁ w₂)
      have hold := h.recorded
      dsimp only at hrecorded
      omega
    have hspared' : (total (ofUser u (LoginStage.spared w₁ w₂))
        (act (consoleProgram X cfg) s (.run i inp)) : Int) ≤ max cfg.maxLoginAttempts 1 - 1 := by
      rcases hspared with hle | hfew
      · have hsum := hweight (LoginStage.spared w₁ w₂)
        have hold := h.spared
        dsimp only at hle
        omega
      have hle : total (ofUser u (LoginStage.spared w₁ w₂))
          (act (consoleProgram X cfg) s (.run i inp)) ≤
          total (ofUser u (LoginStage.recordedGuess w₁ w₂))
            (act (consoleProgram X cfg) s (.run i inp)) :=
        total_ofUser_le LoginStage.spared_le_recordedGuess
      omega
    have hmay' : (total (ofUser u (LoginStage.mayGuess X w₁ w₂))
        (act (consoleProgram X cfg) s (.run i inp)) : Int) ≤ max cfg.maxLoginAttempts 1 - 1 + k := by
      by_cases hlocked : (workingStep X cfg inp s.shared.db t).1.LockedPast X.toCrates u w₂
      · have hsum := hweight (LoginStage.mayGuess X w₁ w₂)
        have hold := h.mayGuess
        have hle := hmay hlocked
        dsimp only at hle
        omega
      have hsum := hweight LoginStage.inFlight
      have hk := ha.2.2.1
      have hle : total (ofUser u (LoginStage.mayGuess X w₁ w₂))
            (act (consoleProgram X cfg) s (.run i inp)) ≤
          total (ofUser u (LoginStage.spared w₁ w₂)) (act (consoleProgram X cfg) s (.run i inp)) +
            total (ofUser u LoginStage.inFlight) (act (consoleProgram X cfg) s (.run i inp)) := by
        rw [ha.act_run ht]
        exact total_mayGuess_le hfits hlocked
      dsimp only at hflight
      omega
    rw [ha.act_run ht] at hrecorded' hspared' hmay' ⊢
    exact ⟨hfits, hrecorded', hspared', hmay'⟩

theorem total_guess_late (ha : Assumed X u k s (.run i inp)) (hlate : w₂ < inp.now) :
    total (ofUser u (LoginStage.guess w₁ w₂)) (act (consoleProgram X cfg) s (.run i inp)) ≤
      total (ofUser u (LoginStage.guess w₁ w₂)) s := by
  cases ht : s.threads[i]? with
  | none => rw [act_run_of_none ht]
  | some t =>
    have hsum := total_run (f := ofUser u (LoginStage.guess w₁ w₂)) (P := consoleProgram X cfg) ht inp
    have hle : ofUser u (LoginStage.guess w₁ w₂) ((consoleProgram X cfg).step inp s.shared t).2 ≤
        ofUser u (LoginStage.guess w₁ w₂) t := by
      unfold consoleProgram
      dsimp only
      rw [ha.2.1]
      cases t with
      | login call stage =>
        have hmove : LoginMove X cfg inp call (s.shared.db.connected none) stage _ :=
          loginStep_working s.shared.db call stage
        unfold taskStep ofUser
        dsimp only
        split
        · exact hmove.guess_le_of_late hlate
        · exact Nat.le_refl _
      | _ => exact Nat.le_refl _
    omega

theorem GuessInv.total_guess_le (h : GuessInv X cfg u w₁ w₂ k s) :
    (total (ofUser u (LoginStage.guess w₁ w₂)) s : Int) ≤ max cfg.maxLoginAttempts 1 - 1 + k := by
  have hle : total (ofUser u (LoginStage.guess w₁ w₂)) s ≤
      total (ofUser u (LoginStage.mayGuess X w₁ w₂)) s :=
    total_ofUser_le LoginStage.guess_le_mayGuess
  have hmay := h.mayGuess
  omega

variable (X cfg u w₁ w₂) in
/-- The bound, and the invariant as long as the window is not over. -/
structure BoundInv (k : Nat) (s : Sys LoginState ConsoleTask) : Prop where
  bound : (total (ofUser u (LoginStage.guess w₁ w₂)) s : Int) ≤ max cfg.maxLoginAttempts 1 - 1 + k
  inv : s.shared.clock ≤ w₂ → GuessInv X cfg u w₁ w₂ k s

theorem boundInv_act (hX : Chrono X.toCrates)
    (hwindow : w₂ < w₁ + minutes cfg.lockoutDurationMinutes) (hne : w₁ ≤ w₂)
    (s : Sys LoginState ConsoleTask) (a : Act ConsoleCall Tick) (h : BoundInv X cfg u w₁ w₂ k s)
    (ha : Assumed X u k s a ∧ LocksGrow X cfg u s a) :
    BoundInv X cfg u w₁ w₂ k (act (consoleProgram X cfg) s a) := by
  obtain ⟨hassumed, hgrow⟩ := ha
  cases a with
  | spawn call =>
    refine ⟨?_, fun hclock => guessInv_spawn (h.inv hclock) call⟩
    rw [total_ofUser_spawn rfl]
    exact h.bound
  | run i inp =>
    by_cases hnow : inp.now ≤ w₂
    · have hinv := h.inv (hassumed.1.1.trans hnow)
      have hinv' := guessInv_run hX hwindow hne hinv hassumed hgrow hnow
      exact ⟨hinv'.total_guess_le, fun _ => hinv'⟩
    refine ⟨?_, fun hclock => ?_⟩
    · have hle : total (ofUser u (LoginStage.guess w₁ w₂))
            (act (consoleProgram X cfg) s (.run i inp)) ≤
          total (ofUser u (LoginStage.guess w₁ w₂)) s :=
        total_guess_late hassumed (Int.not_le.1 hnow)
      have hbound := h.bound
      omega
    cases ht : s.threads[i]? with
    | none =>
      rw [act_run_of_none ht] at hclock ⊢
      exact h.inv hclock
    | some t =>
      rw [hassumed.act_run ht] at hclock
      exact absurd hclock hnow

theorem boundInv_start (st : LoginState) : BoundInv X cfg u w₁ w₂ k ⟨st, []⟩ := by
  have hzero (f : ConsoleTask → Nat) : total f (⟨st, []⟩ : Sys LoginState ConsoleTask) = 0 := rfl
  refine ⟨?_, fun _ => ⟨fun i t ht => ?_, ?_, ?_, ?_⟩⟩
  · rw [hzero]
    omega
  · cases ht
  · exact Nat.zero_le _
  · rw [hzero]
    omega
  · rw [hzero]
    omega

end Run

end Window

/-- **Guesses are bounded.** If the clock does not go back, the database works, at most `k` logins
of the user are in flight, none has the right password and no lock is replaced by one that ends
earlier, then a window shorter than the lockout has at most `max max_attempts 1 - 1 + k` wrong
guesses. -/
theorem guesses_bounded (X : LoginCrates) (cfg : LoginConfig) (u : Text) (k : Nat) (w₁ w₂ : Int)
    (hX : Chrono X.toCrates) (hne : w₁ ≤ w₂)
    (hwindow : w₂ - w₁ < minutes cfg.lockoutDurationMinutes) (st : LoginState)
    (acts : List (Act ConsoleCall Tick))
    (hassumed : Along (consoleProgram X cfg) (Assumed X u k) ⟨st, []⟩ acts)
    (hlocks : Along (consoleProgram X cfg) (LocksGrow X cfg u) ⟨st, []⟩ acts) :
    (total (ofUser u (LoginStage.guess w₁ w₂)) (exec (consoleProgram X cfg) ⟨st, []⟩ acts) : Int) ≤
      max cfg.maxLoginAttempts 1 - 1 + k := by
  have hinv : BoundInv X cfg u w₁ w₂ k (exec (consoleProgram X cfg) ⟨st, []⟩ acts) :=
    (hassumed.and hlocks).exec_inv (boundInv_act hX (by omega) hne) (boundInv_start st)
  exact hinv.bound

section Examples

def guessedUser : User where
  id := 1
  username := "eve".toList
  displayName := none
  email := none
  role := "user".toList
  serviceAccount := false
  disabled := false
  allowedModels := "[]".toList
  budgetLimit := none
  oidcSub := none
  passwordHash := some (Str.bytes "correct horse".toList)
  lockedUntil := none
  createdAt := []
  lastLoginAt := none

def guessedDb : LoginDb where
  users := [guessedUser]
  sessions := []
  userIds_nodup := List.nodup_singleton _
  sessionIds_nodup := noSessionIds_nodup
  usersError := none
  sessionsError := none
  writable := true
  attempts := []
  attemptsError := none

def lockoutConfig : LoginConfig where
  sessionSecret := List.replicate 32 'k'
  secret_long := by decide
  sessionTtlHours := 24
  sessionIdleTimeoutHours := none
  maxLoginAttempts := 1
  lockoutDurationMinutes := 15

def seconds (n : Int) : Int := n * 10 ^ 9

def steps (i n : Nat) (second : Int) : List (Act ConsoleCall Tick) :=
  List.replicate n (.run i ⟨seconds second, none, [], [], .error []⟩)

def guessCall : ConsoleCall := .login ⟨[], "eve".toList, "guess".toList⟩

def racingGuesses : List (Act ConsoleCall Tick) :=
  [.spawn guessCall, .spawn guessCall] ++ steps 0 4 0 ++ steps 1 4 30 ++ steps 0 4 30 ++ steps 1 4 60

theorem guesses_bounded_race :
    (total (ofUser "eve".toList (LoginStage.guess 0 (seconds 60)))
      (exec (consoleProgram paddedCrates lockoutConfig) ⟨⟨guessedDb, 0⟩, []⟩ racingGuesses) : Int) ≤
      max 1 1 - 1 + 2 :=
  guesses_bounded paddedCrates lockoutConfig "eve".toList 2 0 (seconds 60) padded_chrono (by decide)
    (by decide) ⟨guessedDb, 0⟩ racingGuesses (by decide +kernel) (by decide +kernel)

/-- The first login computes the end of its lock and stops. The second guesses half a minute later
and locks the account; then the first writes its lock, which ends half a minute earlier. -/
def lateLock : List (Act ConsoleCall Tick) :=
  [.spawn guessCall] ++ steps 0 7 0 ++ [.spawn guessCall] ++ steps 1 8 30 ++ steps 0 1 30 ++
    [.spawn guessCall, .spawn guessCall] ++ steps 2 4 900 ++ steps 3 4 900

/-- **A lock that is shortened**: with never more than two logins in flight there are three wrong
guesses in a window that is shorter than the lockout. -/
theorem shortened_lock :
    Along (consoleProgram paddedCrates lockoutConfig) (Assumed paddedCrates "eve".toList 2)
        ⟨⟨guessedDb, 0⟩, []⟩ lateLock ∧
      seconds 900 - seconds 30 < minutes lockoutConfig.lockoutDurationMinutes ∧
      ¬ (total (ofUser "eve".toList (LoginStage.guess (seconds 30) (seconds 900)))
        (exec (consoleProgram paddedCrates lockoutConfig) ⟨⟨guessedDb, 0⟩, []⟩ lateLock) : Int) ≤
        max lockoutConfig.maxLoginAttempts 1 - 1 + 2 := by
  refine ⟨?_, ?_, ?_⟩
  all_goals decide +kernel

end Examples

end Nanoguard.Console

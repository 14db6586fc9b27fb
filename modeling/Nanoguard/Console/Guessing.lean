import Nanoguard.Console.LoginRows

/-!
# One step of a login that guesses

What is assumed about the logins of a user, what they know about the tables on their way, and what a
step changes in the numbers that are added up over a run.
-/

namespace Nanoguard.Console

open Threads

section Window

variable (X : LoginCrates) (cfg : LoginConfig) (u : Text) (w₁ w₂ : Int)

/-- One for a wrong password that was checked in the window. -/
def PasswordCheck.guess (c : PasswordCheck) : Nat :=
  if c.correct = false ∧ w₁ ≤ c.time ∧ c.time ≤ w₂ then 1 else 0

def LoginStage.guess (stage : LoginStage) : Nat :=
  (stage.check.map fun c => c.guess w₁ w₂).getD 0

def LoginStage.inFlight : LoginStage → Nat
  | .done _ _ => 0
  | _ => 1

def ofUser (f : LoginStage → Nat) : ConsoleTask → Nat
  | .login call stage => if call.username = u then f stage else 0
  | _ => 0

def onUser (p : LoginCall → LoginStage → Bool) : ConsoleTask → Bool
  | .login call stage => decide (call.username ≠ u) || p call stage
  | _ => true

def stillWrong (call : LoginCall) : LoginStage → Bool
  | .unlocked _ hash => !verifyPassword X call.password hash
  | _ => true

/-- The assumptions: the clock does not go back, the database works, at most `k` logins of the user
are in flight and none of them has the right password. -/
def Assumed (k : Nat) (s : Sys LoginState ConsoleTask) : Act ConsoleCall Tick → Prop
  | .spawn _ => True
  | .run i inp =>
    (s.shared.clock ≤ inp.now ∧ FourDigitYear inp.now) ∧ inp.dbError = none ∧
      total (ofUser u LoginStage.inFlight) s ≤ k ∧
      ∀ t ∈ s.threads[i]?, onUser u (stillWrong X) t = true

def notEarlier (old : Option Text) (new : Text) : Bool :=
  match old.bind X.parseRfc3339 with
  | some t => (X.parseRfc3339 new).any fun t' => decide (t ≤ t')
  | none => true

/-- A lock ends before the year 10000, and not before the one that it replaces. -/
def lockGrows (db : LoginDb) (now : Int) : LoginStage → Bool
  | .locking _ _ => decide (FourDigitYear (now + minutes cfg.lockoutDurationMinutes))
  | .lockUntil _ _ until_ => (db.row u).all fun r => notEarlier X r.lockedUntil until_
  | _ => true

def LocksGrow (s : Sys LoginState ConsoleTask) : Act ConsoleCall Tick → Prop
  | .spawn _ => True
  | .run i inp => ∀ t ∈ s.threads[i]?,
      onUser u (fun _ => lockGrows X cfg u s.shared.db inp.now) t = true

instance (k : Nat) (s : Sys LoginState ConsoleTask) :
    ∀ a : Act ConsoleCall Tick, Decidable (Assumed X u k s a)
  | .spawn _ => .isTrue trivial
  | .run _ _ => inferInstanceAs (Decidable (_ ∧ _))

instance (s : Sys LoginState ConsoleTask) :
    ∀ a : Act ConsoleCall Tick, Decidable (LocksGrow X cfg u s a)
  | .spawn _ => .isTrue trivial
  | .run i _ => inferInstanceAs (Decidable (∀ t ∈ s.threads[i]?, _))

/-! ## What a step keeps -/

/-- What the steps of the others leave as it is, or let grow. -/
structure Kept (db db' : LoginDb) : Prop where
  ids : ∀ v, db'.idOf v = db.idOf v
  failures : db.failures X.toCrates u w₁ ≤ db'.failures X.toCrates u w₁
  locked : db.LockedPast X.toCrates u w₂ → db'.LockedPast X.toCrates u w₂

variable {X cfg u w₁ w₂} {db db' : LoginDb}

theorem Kept.of_eq (husers : db'.users = db.users) (hattempts : db'.attempts = db.attempts) :
    Kept X u w₁ w₂ db db' := by
  have hrow (v : Text) : db'.row v = db.row v := by
    unfold LoginDb.row
    rw [husers]
  refine ⟨fun v => ?_, Nat.le_of_eq ?_, fun h => ?_⟩
  · unfold LoginDb.idOf
    rw [hrow]
  · unfold LoginDb.failures
    rw [hattempts]
  · obtain ⟨r, hr, hlocked⟩ := h
    exact ⟨r, (hrow u).trans hr, hlocked⟩

theorem Kept.refl (db : LoginDb) : Kept X u w₁ w₂ db db := .of_eq rfl rfl

theorem kept_record (username now : Text) (ip : Option Text) :
    Kept X u w₁ w₂ db (db.recordLoginAttempt username ip now) := by
  refine ⟨fun v => ?_, LoginDb.failures_le_record, fun h => ?_⟩
  · unfold LoginDb.recordLoginAttempt
    split <;> rfl
  · unfold LoginDb.recordLoginAttempt
    split <;> exact h

theorem kept_delete {p : LoginAttempt → Bool}
    (h : ∀ a, LoginDb.RecordedSince X.toCrates u w₁ a → p a = false) :
    Kept X u w₁ w₂ db (db.deleteAttempts p) := by
  refine ⟨fun v => ?_, Nat.le_of_eq (LoginDb.failures_delete h).symm, fun h => ?_⟩
  · unfold LoginDb.deleteAttempts
    split <;> rfl
  · unfold LoginDb.deleteAttempts
    split <;> exact h

theorem kept_updateUser {id : Int} {f : User → User} (hf : ∀ user, (f user).id = user.id)
    (hw : db.writable = true) (hname : ∀ user, (f user).username = user.username)
    (hlock : ∀ r, db.row u = some r → r.id = id → isLocked X.toCrates w₂ r.lockedUntil = true →
      isLocked X.toCrates w₂ (f r).lockedUntil = true) :
    Kept X u w₁ w₂ db (db.updateUser id f hf) := by
  refine ⟨fun _ => LoginDb.idOf_updateUser hw hname, ?_, fun h => ?_⟩
  · unfold LoginDb.updateUser
    split <;> exact Nat.le_refl _
  obtain ⟨r, hr, hlocked⟩ := h
  refine LoginDb.LockedPast.updateUser ⟨r, hr, hlocked⟩ hw hname fun r' hr' hid => ?_
  rw [hr, Option.some.injEq] at hr'
  subst hr'
  exact hlock r hr hid hlocked

theorem kept_setLockedUntil {id : Int} {until_ : Option Text} (hw : db.writable = true)
    (hlock : ∀ r, db.row u = some r → r.id = id → isLocked X.toCrates w₂ r.lockedUntil = true →
      isLocked X.toCrates w₂ until_ = true) :
    Kept X u w₁ w₂ db (db.setLockedUntil id until_) := by
  refine kept_updateUser ?_ hw ?_ hlock
  all_goals exact fun _ => rfl

theorem kept_deleteSessions (p : Session → Bool) : Kept X u w₁ w₂ db (db.deleteSessions p) := by
  refine .of_eq ?_ ?_
  all_goals
    unfold LoginDb.deleteSessions
    split <;> rfl

theorem kept_createSession {session : Session} (h : db.createSession session = some db') :
    Kept X u w₁ w₂ db db' := by
  unfold LoginDb.createSession at h
  split at h
  · cases h
    exact .of_eq rfl rfl
  · cases h

theorem kept_rotate (id newToken : List UInt8) :
    Kept X u w₁ w₂ db (db.rotateCsrfToken id newToken) := by
  refine .of_eq ?_ ?_
  all_goals
    unfold LoginDb.rotateCsrfToken
    split <;> rfl

theorem Kept.trans {db'' : LoginDb} (h : Kept X u w₁ w₂ db db') (h' : Kept X u w₁ w₂ db' db'') :
    Kept X u w₁ w₂ db db'' :=
  ⟨fun v => (h'.ids v).trans (h.ids v), h.failures.trans h'.failures, fun hl => h'.locked (h.locked hl)⟩

/-! ## What a login knows -/

variable (X u w₁ w₂)

def LoginStage.user : LoginStage → Option User
  | .found r | .unlocked r _ | .wrong r _ | .recorded r _ | .locking r _ | .lockUntil r _ _
  | .correct r _ | .attemptsCleared r _ | .lockCleared r _ | .lastLoginSet r _
  | .drawn r _ _ _ _ => some r
  | .start | .ipPassed | .unchecked _ | .done _ _ => none

/-- What holds of the logins of the user. After a guess in the window there are only three ways to
go on: not to find enough failures, to be about to lock the account, or to have locked it. -/
def LoginStage.Guessing (db : LoginDb) (clock : Int) : LoginStage → Prop
  | .wrong _ c | .recorded _ c | .locking _ c => c.time ≤ clock
  | .lockUntil _ c until_ =>
    c.time ≤ clock ∧ (c.guess w₁ w₂ = 1 → isLocked X.toCrates w₂ (some until_) = true)
  | .correct _ _ | .attemptsCleared _ _ | .lockCleared _ _ | .lastLoginSet _ _ | .drawn _ _ _ _ _ =>
    False
  | .done (some c) reply =>
    c.guess w₁ w₂ = 1 → reply = invalidCredentials ∨ db.LockedPast X.toCrates u w₂
  | _ => True

structure LoginFits (db : LoginDb) (clock : Int) (call : LoginCall) (stage : LoginStage) : Prop where
  known : ∀ r, stage.user = some r → r.username = call.username ∧ db.idOf call.username = some r.id
  guessing : call.username = u → stage.Guessing X u w₁ w₂ db clock

variable {X u w₁ w₂}

theorem LoginFits.mono {clock clock' : Int} {call : LoginCall} {stage : LoginStage}
    (h : LoginFits X u w₁ w₂ db clock call stage) (hkept : Kept X u w₁ w₂ db db')
    (hclock : clock ≤ clock') : LoginFits X u w₁ w₂ db' clock' call stage := by
  refine ⟨fun r hr => ?_, fun hu => ?_⟩
  · rw [hkept.ids]
    exact h.known r hr
  have hold := h.guessing hu
  cases stage with
  | wrong | recorded | locking => exact hold.trans hclock
  | lockUntil r c until_ => exact ⟨hold.1.trans hclock, hold.2⟩
  | done check reply =>
    cases check with
    | none => trivial
    | some c => exact fun hc => (hold hc).imp_right hkept.locked
  | _ => exact hold

/-! ## One step -/

theorem isLocked_of_notEarlier {old : Option Text} {new : Text} (h : notEarlier X old new = true)
    (hold : isLocked X.toCrates w₂ old = true) : isLocked X.toCrates w₂ (some new) = true := by
  unfold isLocked at hold ⊢
  unfold notEarlier at h
  cases ht : old.bind X.parseRfc3339 with
  | none =>
    rw [ht] at hold
    cases hold
  | some t =>
    rw [ht] at hold h
    obtain ⟨t', ht', hle⟩ := (Option.any_eq_true _ _).1 h
    have hlt := of_decide_eq_true hold
    have hle := of_decide_eq_true hle
    rw [Option.bind_some, ht']
    exact decide_eq_true (by omega)

theorem of_onUser {p : LoginCall → LoginStage → Bool} {call : LoginCall} {stage : LoginStage}
    (h : onUser u p (.login call stage) = true) (hu : call.username = u) : p call stage = true := by
  rcases Bool.or_eq_true_iff.1 h with hne | hp
  · exact absurd hu (of_decide_eq_true hne)
  · exact hp

section Step

variable {inp : Tick} {call : LoginCall} {stage : LoginStage} {clock : Int}

theorem LoginFits.id_ne (h : LoginFits X u w₁ w₂ db clock call stage) {r row : User}
    (hr : stage.user = some r) (hu : call.username ≠ u) (hrow : db.row u = some row) :
    row.id ≠ r.id := by
  intro hid
  have hid' : db.idOf u = some r.id := by
    unfold LoginDb.idOf
    rw [hrow, Option.map_some, hid]
  exact hu (LoginDb.idOf_inj hid' (h.known r hr).2)

variable {q : LoginDb × LoginStage}

theorem LoginMove.kept (hmove : LoginMove X cfg inp call db stage q) (hw : db.writable = true)
    (h : LoginFits X u w₁ w₂ db clock call stage)
    (hgrow : call.username = u → lockGrows X cfg u db inp.now stage = true) :
    Kept X u w₁ w₂ db q.1 := by
  cases hmove with
  | recordUnchecked | record => exact kept_record _ _ _
  | @locked r c until_ =>
    refine kept_setLockedUntil hw fun row hrow hid hlocked => ?_
    by_cases hu : call.username = u
    · have hall : (db.row u).all (fun r => notEarlier X r.lockedUntil until_) = true := hgrow hu
      rw [hrow] at hall
      exact isLocked_of_notEarlier hall hlocked
    · exact absurd hid (h.id_ne rfl hu hrow)
  | @clearAttempts r c =>
    refine kept_delete fun a ha => decide_eq_false fun hname => ?_
    refine h.guessing ?_
    rw [← (h.known r rfl).1, ← hname, ha.1]
  | clearLock =>
    refine kept_setLockedUntil hw fun row hrow hid _ => ?_
    exact absurd hid (h.id_ne rfl (fun hu => h.guessing hu) hrow)
  | lastLogin =>
    refine kept_updateUser ?_ hw ?_ fun _ _ _ hlocked => hlocked
    all_goals exact fun _ => rfl
  | create _ _ hcreated => exact kept_createSession hcreated
  | _ => exact .refl db

theorem resetStep_kept (hw : db.writable = true) (call : ResetCall) (stage : ResetStage) :
    Kept X u w₁ w₂ db (resetStep X inp call db stage).1 := by
  cases stage with
  | start =>
    unfold resetStep
    dsimp only
    split
    · exact .refl db
    · split <;> exact .refl db
  | target r =>
    unfold resetStep
    dsimp only
    split <;> exact .refl db
  | hashed r hash =>
    unfold resetStep LoginDb.resetPassword
    dsimp only
    rw [if_pos hw]
    have hhash : Kept X u w₁ w₂ db (db.setPasswordHash r.id hash) := by
      refine kept_updateUser ?_ hw ?_ fun _ _ _ hlocked => hlocked
      all_goals exact fun _ => rfl
    exact hhash.trans (kept_deleteSessions _)
  | stored r hash => exact kept_rotate _ _
  | done reply => exact .refl db

theorem pruneStep_kept (hX : Chrono X.toCrates) (hnow : inp.now ≤ w₂)
    (hwindow : w₂ < w₁ + minutes cfg.lockoutDurationMinutes) (hne : w₁ ≤ w₂) (stage : PruneStage) :
    Kept X u w₁ w₂ db (pruneStep X cfg inp db stage).1 := by
  cases stage with
  | expiredSessions => exact kept_deleteSessions _
  | idleSessions => exact kept_deleteSessions _
  | loginAttempts =>
    refine kept_delete fun a ha => decide_eq_false ?_
    obtain ⟨-, t, hwt, hyear, htext⟩ := ha
    rw [htext]
    refine hX.not_lt hyear ?_
    unfold minutes at hwindow ⊢
    omega
  | done => exact .refl db

theorem LoginMove.user (hmove : LoginMove X cfg inp call db stage q) {r : User}
    (hr : q.2.user = some r) :
    stage.user = some r ∨ stage = .ipPassed ∧ db.row call.username = some r := by
  cases hmove with
  | read hrow =>
    cases hr
    exact .inr ⟨rfl, hrow⟩
  | refuse | ipPassed | unknown | noHash | recordUnchecked | spare | uncounted | locked | create
  | notCreated | done => cases hr
  | _ => exact .inl hr

theorem LoginMove.known (hmove : LoginMove X cfg inp call db stage q)
    (hkept : Kept X u w₁ w₂ db q.1) (h : LoginFits X u w₁ w₂ db clock call stage) {r : User}
    (hr : q.2.user = some r) :
    r.username = call.username ∧ q.1.idOf call.username = some r.id := by
  rw [hkept.ids]
  rcases hmove.user hr with hold | ⟨-, hrow⟩
  · exact h.known r hold
  refine ⟨LoginDb.username_of_row hrow, ?_⟩
  unfold LoginDb.idOf
  rw [hrow]
  rfl

theorem lockedPast_setLockedUntil (hw : db.writable = true) {r : User} {until_ : Text}
    (hid : db.idOf u = some r.id) (hlocked : isLocked X.toCrates w₂ (some until_) = true) :
    (db.setLockedUntil r.id (some until_)).LockedPast X.toCrates u w₂ := by
  obtain ⟨row, hrow, hrowid⟩ := Option.map_eq_some_iff.1 hid
  refine ⟨{ row with lockedUntil := some until_ }, ?_, hlocked⟩
  unfold LoginDb.setLockedUntil
  rw [LoginDb.row_updateUser hw, hrow, Option.map_some, if_pos hrowid]
  exact fun _ => rfl

theorem PasswordCheck.of_guess {c : PasswordCheck} (h : c.guess w₁ w₂ = 1) :
    w₁ ≤ c.time ∧ c.time ≤ w₂ := by
  unfold PasswordCheck.guess at h
  split at h
  next hin => exact hin.2
  next => cases h

theorem LoginMove.guessing (hmove : LoginMove X cfg inp call db stage q) (hX : Chrono X.toCrates)
    (hw : db.writable = true) (hclock : clock ≤ inp.now)
    (hwindow : w₂ < w₁ + minutes cfg.lockoutDurationMinutes)
    (h : LoginFits X u w₁ w₂ db clock call stage) (hu : call.username = u)
    (hwrong : stillWrong X call stage = true)
    (hgrow : lockGrows X cfg u db inp.now stage = true) :
    q.2.Guessing X u w₁ w₂ q.1 inp.now := by
  have hold := h.guessing hu
  cases hmove with
  | wrong => exact Int.le_refl _
  | correct hverify =>
    unfold stillWrong at hwrong
    dsimp only at hwrong
    rw [hverify] at hwrong
    cases hwrong
  | record | lock => exact hold.trans hclock
  | spare | uncounted => exact fun _ => .inl rfl
  | clock =>
    refine ⟨hold.trans hclock, fun hguess => ?_⟩
    unfold isLocked
    rw [Option.bind_some, hX.parse_text _ (of_decide_eq_true hgrow)]
    obtain ⟨hstart, -⟩ := PasswordCheck.of_guess hguess
    have htime := hold.trans hclock
    exact decide_eq_true (by omega)
  | locked =>
    refine fun hguess => .inr ?_
    refine lockedPast_setLockedUntil hw ?_ (hold.2 hguess)
    rw [← hu]
    exact (h.known _ rfl).2
  | create | notCreated => exact hold.elim
  | @done check reply =>
    cases check with
    | none => trivial
    | some c => exact hold
  | clearAttempts | clearLock | lastLogin | draw => exact hold
  | _ => trivial

/-! ## What a step weighs -/

variable (X w₁ w₂)

def LoginStage.recordedGuess : LoginStage → Nat
  | .wrong _ _ => 0
  | stage => stage.guess w₁ w₂

def LoginStage.spared : LoginStage → Nat
  | .done (some c) reply => if reply = invalidCredentials then c.guess w₁ w₂ else 0
  | _ => 0

/-- A guess, or a login that may come to one in the window. -/
def LoginStage.mayGuess : LoginStage → Nat
  | .found r => if isLocked X.toCrates w₂ r.lockedUntil then 0 else 1
  | .unlocked _ _ => 1
  | stage => stage.guess w₁ w₂

variable {X w₁ w₂}

theorem PasswordCheck.guess_le_one (c : PasswordCheck) : c.guess w₁ w₂ ≤ 1 := by
  unfold PasswordCheck.guess
  split <;> omega

theorem LoginStage.guess_le_mayGuess (stage : LoginStage) :
    stage.guess w₁ w₂ ≤ stage.mayGuess X w₁ w₂ := by
  cases stage with
  | found | unlocked => exact Nat.zero_le _
  | _ => exact Nat.le_refl _

theorem LoginStage.spared_le_recordedGuess (stage : LoginStage) :
    stage.spared w₁ w₂ ≤ stage.recordedGuess w₁ w₂ := by
  cases stage with
  | done check reply =>
    cases check with
    | none => exact Nat.zero_le _
    | some c =>
      unfold spared
      dsimp only
      split
      · exact Nat.le_refl _
      · exact Nat.zero_le _
  | _ => exact Nat.zero_le _

theorem LoginStage.Guessing.mayGuess_le (h : stage.Guessing X u w₁ w₂ db clock)
    (hfree : ¬ db.LockedPast X.toCrates u w₂) :
    stage.mayGuess X w₁ w₂ ≤ stage.spared w₁ w₂ + stage.inFlight := by
  have hcheck (c : PasswordCheck) : c.guess w₁ w₂ ≤ 0 + 1 := c.guess_le_one
  cases stage with
  | found r =>
    unfold mayGuess
    dsimp only
    split
    · exact Nat.zero_le _
    · exact Nat.le_refl _
  | unlocked r hash => exact Nat.le_refl _
  | done check reply =>
    cases check with
    | none => exact Nat.zero_le _
    | some c =>
      dsimp only [spared]
      split
      · exact Nat.le_refl _
      next hreply =>
        change c.guess w₁ w₂ ≤ 0
        by_contra hguess
        have hone : c.guess w₁ w₂ = 1 := by
          have hle : c.guess w₁ w₂ ≤ 1 := c.guess_le_one
          omega
        rcases h hone with hspared | hlocked
        · exact hreply hspared
        · exact hfree hlocked
  | wrong r c | recorded r c | locking r c | lockUntil r c | correct r c | attemptsCleared r c
  | lockCleared r c | lastLoginSet r c | drawn r c => exact hcheck c
  | _ => exact Nat.zero_le _

theorem LoginMove.inFlight_le (hmove : LoginMove X cfg inp call db stage q) :
    q.2.inFlight ≤ stage.inFlight := by
  cases hmove with
  | refuse | spare | uncounted | locked | create | notCreated | recordUnchecked => exact Nat.zero_le _
  | _ => exact Nat.le_refl _

theorem LoginMove.guess_le_of_late (hmove : LoginMove X cfg inp call db stage q)
    (hlate : w₂ < inp.now) : q.2.guess w₁ w₂ ≤ stage.guess w₁ w₂ := by
  cases hmove with
  | wrong =>
    refine Nat.le_of_eq (if_neg fun hin => ?_)
    have hle : inp.now ≤ w₂ := hin.2.2
    omega
  | refuse => exact Nat.zero_le _
  | _ => exact Nat.le_refl _

theorem LoginMove.mayGuess_le (hmove : LoginMove X cfg inp call db stage q) (hnow : inp.now ≤ w₂)
    (hu : call.username = u) (hlocked : q.1.LockedPast X.toCrates u w₂) :
    q.2.mayGuess X w₁ w₂ ≤ stage.mayGuess X w₁ w₂ := by
  cases hmove with
  | read hrow =>
    obtain ⟨row, hrow', hrowlocked⟩ := hlocked
    rw [hu, hrow', Option.some.injEq] at hrow
    subst hrow
    exact Nat.le_of_eq (if_pos hrowlocked)
  | unlocked hfree =>
    refine Nat.le_of_eq (if_neg fun hrow => ?_).symm
    rw [isLocked_anti hnow hrow] at hfree
    cases hfree
  | wrong => exact PasswordCheck.guess_le_one _
  | correct | refuse | noHash => exact Nat.zero_le _
  | _ => exact Nat.le_refl _

theorem LoginMove.recordedGuess_le (hmove : LoginMove X cfg inp call db stage q)
    (hw : db.writable = true) (hclock : clock ≤ inp.now) (hyear : FourDigitYear inp.now)
    (h : LoginFits X u w₁ w₂ db clock call stage) (hu : call.username = u)
    (hkept : Kept X u w₁ w₂ db q.1) :
    q.2.recordedGuess w₁ w₂ + db.failures X.toCrates u w₁ ≤
      stage.recordedGuess w₁ w₂ + q.1.failures X.toCrates u w₁ := by
  have hle := hkept.failures
  cases hmove with
  | @record r c =>
    change c.guess w₁ w₂ + _ ≤ 0 + _
    have hone : c.guess w₁ w₂ ≤ 1 := c.guess_le_one
    by_cases hguess : c.guess w₁ w₂ = 1
    · obtain ⟨hstart, -⟩ := PasswordCheck.of_guess hguess
      have htime : c.time ≤ clock := h.guessing hu
      have hname : r.username = u := (h.known r rfl).1.trans hu
      rw [hname, LoginDb.failures_record hw (by omega) hyear]
      omega
    · omega
  | wrong | refuse | correct => exact Nat.add_le_add (Nat.zero_le _) hle
  | _ => exact Nat.add_le_add_left hle _

theorem LoginMove.spared_le (hmove : LoginMove X cfg inp call db stage q) (hX : Chrono X.toCrates)
    (herror : db.attemptsError = none) (hnow : inp.now ≤ w₂)
    (hwindow : w₂ < w₁ + minutes cfg.lockoutDurationMinutes)
    (h : LoginFits X u w₁ w₂ db clock call stage) (hu : call.username = u) :
    q.2.spared w₁ w₂ ≤ stage.spared w₁ w₂ ∨
      (q.1.failures X.toCrates u w₁ : Int) < cfg.maxLoginAttempts := by
  cases hmove with
  | @spare r c n hcount hlt =>
    refine .inr ?_
    have hname : r.username = u := (h.known r rfl).1.trans hu
    rw [hname] at hcount
    have hfound : ∃ m, db.countRecentLoginAttempts u (lockoutSince X cfg inp) = .ok m ∧
        db.failures X.toCrates u w₁ ≤ m :=
      LoginDb.failures_le_count hX (by omega) herror
    obtain ⟨m, hm, hle⟩ := hfound
    rw [hcount, Except.ok.injEq] at hm
    change (db.failures X.toCrates u w₁ : Int) < _
    omega
  | uncounted hsome =>
    rw [herror] at hsome
    cases hsome
  | refuse => exact .inl (Nat.zero_le _)
  | create | notCreated => exact (h.guessing hu).elim
  | _ => exact .inl (Nat.le_refl _)

end Step

end Window

end Nanoguard.Console

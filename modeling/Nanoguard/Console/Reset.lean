import Nanoguard.Console.Lockout

/-!
# Sessions after a password reset

A reset stores the new hash and deletes the sessions of the user in one transaction. A login reads
the hash, checks the password against it and creates its session in steps of their own, so it can
create a session after the reset for a password that it has checked before.
-/

namespace Nanoguard.Console

open List Threads

section Step

variable {X : LoginCrates} {cfg : LoginConfig} {inp : Tick} {db : LoginDb} {uid : Int}

variable {call : LoginCall} {stage : LoginStage} {q : LoginDb × LoginStage}

theorem LoginMove.hashOf (hmove : LoginMove X cfg inp call db stage q) :
    q.1.hashOf uid = db.hashOf uid := by
  cases hmove with
  | recordUnchecked | record => exact LoginDb.hashOf_recordLoginAttempt
  | locked | clearLock => exact LoginDb.hashOf_setLockedUntil
  | clearAttempts => exact LoginDb.hashOf_deleteAttempts _
  | lastLogin => exact LoginDb.hashOf_updateLastLogin
  | create _ _ hcreated =>
    unfold LoginDb.hashOf
    rw [(LoginDb.of_createSession hcreated).2.2]
  | _ => rfl

/-- The session that a login has created, and the check of its password. -/
def ConsoleTask.created : ConsoleTask → Option (List UInt8 × PasswordCheck)
  | .login _ (.done (some c) (.loggedIn _ session)) => some (session.id, c)
  | _ => none

theorem created_of_unchecked (h : stage.check = none) :
    (ConsoleTask.login call stage).created = none := by
  cases stage with
  | done check reply =>
    change check = none at h
    rw [h]
    rfl
  | _ => rfl

theorem LoginMove.sessions (hmove : LoginMove X cfg inp call db stage q) :
    LoginDb.SessionsFrom db q.1 ∧
        (ConsoleTask.login call q.2).created = (ConsoleTask.login call stage).created ∨
      ∃ r c csrfToken expiresAt session, stage = .drawn r c session.id csrfToken expiresAt ∧
        session.userId = r.id ∧ session.id ∉ db.sessions.map Session.id ∧
        q.2 = .done (some c) (.loggedIn r session) ∧ q.1.sessions = db.sessions ++ [session] := by
  cases hmove with
  | refuse hcheck => exact .inl ⟨.refl db, (created_of_unchecked hcheck).symm⟩
  | recordUnchecked | record => exact .inl ⟨LoginDb.sessionsFrom_recordLoginAttempt, rfl⟩
  | locked | clearLock => exact .inl ⟨LoginDb.sessionsFrom_setLockedUntil, rfl⟩
  | clearAttempts => exact .inl ⟨LoginDb.sessionsFrom_deleteAttempts _, rfl⟩
  | lastLogin => exact .inl ⟨LoginDb.sessionsFrom_updateLastLogin, rfl⟩
  | @create r c id csrfToken expiresAt db' session huser hid hcreated =>
    subst hid
    obtain ⟨hnew, hsessions, -⟩ := LoginDb.of_createSession hcreated
    exact .inr ⟨r, c, csrfToken, expiresAt, session, rfl, huser, hnew, rfl, hsessions⟩
  | _ => exact .inl ⟨.refl db, rfl⟩

theorem resetStep_sessions (call : ResetCall) (stage : ResetStage) :
    LoginDb.SessionsFrom db (resetStep X inp call db stage).1 ∧
      ((resetStep X inp call db stage).1.hashOf uid = db.hashOf uid ∨
        ∀ x ∈ (resetStep X inp call db stage).1.sessions, x.userId ≠ uid) := by
  have hsame : LoginDb.SessionsFrom db db ∧
      (db.hashOf uid = db.hashOf uid ∨ ∀ x ∈ db.sessions, x.userId ≠ uid) :=
    ⟨.refl db, .inl rfl⟩
  cases stage with
  | start =>
    unfold resetStep
    dsimp only
    split
    · exact hsame
    · split <;> exact hsame
  | target r =>
    unfold resetStep
    dsimp only
    split <;> exact hsame
  | hashed r hash =>
    unfold resetStep
    dsimp only
    split
    next => exact hsame
    next db' hreset =>
      have hof : LoginDb.SessionsFrom db db' ∧ (uid ≠ r.id → db'.hashOf uid = db.hashOf uid) :=
        LoginDb.of_resetPassword hreset
      obtain ⟨hfrom, hhash⟩ := hof
      refine ⟨hfrom, ?_⟩
      by_cases hid : uid = r.id
      · subst hid
        exact .inr fun x hx => LoginDb.userId_ne_of_resetPassword hreset hx
      · exact .inl (hhash hid)
  | stored r hash =>
    exact ⟨LoginDb.sessionsFrom_rotateCsrfToken _ _, .inl (LoginDb.hashOf_rotateCsrfToken _ _)⟩
  | done reply => exact hsame

theorem pruneStep_sessions (stage : PruneStage) :
    LoginDb.SessionsFrom db (pruneStep X cfg inp db stage).1 ∧
      (pruneStep X cfg inp db stage).1.hashOf uid = db.hashOf uid := by
  cases stage with
  | expiredSessions =>
    exact ⟨LoginDb.sessionsFrom_deleteSessions _, LoginDb.hashOf_deleteSessions _⟩
  | idleSessions => exact ⟨LoginDb.sessionsFrom_deleteSessions _, LoginDb.hashOf_deleteSessions _⟩
  | loginAttempts => exact ⟨LoginDb.sessionsFrom_deleteAttempts _, LoginDb.hashOf_deleteAttempts _⟩
  | done => exact ⟨.refl db, rfl⟩

end Step

/-! ## Runs -/

/-- The login that has created a session, and the check of its password. -/
def CreatedWith (s : Sys LoginState ConsoleTask) (id : List UInt8) (c : PasswordCheck) : Prop :=
  ∃ (i : Nat) (t : ConsoleTask), s.threads[i]? = some t ∧ t.created = some (id, c)

/-- The id of a session is drawn at random; it has not been drawn before. -/
def freshId (s : Sys LoginState ConsoleTask) (id : List UInt8) : Bool :=
  s.threads.all fun t => decide (t.created.map Prod.fst ≠ some id)

/-- A session of the user is created with a new id, while the hash that was checked is still
stored. -/
def stillStored (uid : Int) (s : Sys LoginState ConsoleTask) : ConsoleTask → Bool
  | .login _ (.drawn r c id _ _) =>
    decide (r.id ≠ uid) || decide (s.shared.db.hashOf uid = some c.hash) && freshId s id
  | _ => true

def StillStored (uid : Int) (s : Sys LoginState ConsoleTask) : Act ConsoleCall Tick → Prop
  | .spawn _ => True
  | .run i _ => ∀ t ∈ s.threads[i]?, stillStored uid s t = true

instance (uid : Int) (s : Sys LoginState ConsoleTask) :
    ∀ a : Act ConsoleCall Tick, Decidable (StillStored uid s a)
  | .spawn _ => .isTrue trivial
  | .run i _ => inferInstanceAs (Decidable (∀ t ∈ s.threads[i]?, _))

/-- Every session of the user was created by a login, and the password was checked against the hash
that is stored. -/
def SessionsChecked (uid : Int) (s : Sys LoginState ConsoleTask) : Prop :=
  ∀ x ∈ s.shared.db.sessions, x.userId = uid →
    (∃ c, CreatedWith s x.id c) ∧
      ∀ c, CreatedWith s x.id c → s.shared.db.hashOf uid = some c.hash

section Run

variable {X : LoginCrates} {cfg : LoginConfig} {uid : Int} {s : Sys LoginState ConsoleTask}
  {id : List UInt8} {c : PasswordCheck}

theorem freshId_iff : freshId s id = true ↔ ∀ c, ¬ CreatedWith s id c := by
  unfold freshId
  rw [all_eq_true]
  constructor
  · rintro h c ⟨i, t, ht, hcreated⟩
    have hne := of_decide_eq_true (h t (mem_of_getElem? ht))
    rw [hcreated] at hne
    exact hne rfl
  · intro h t ht
    refine decide_eq_true fun heq => ?_
    obtain ⟨⟨id', c⟩, hcreated, rfl⟩ := Option.map_eq_some_iff.1 heq
    obtain ⟨i, hi⟩ := mem_iff_getElem?.1 ht
    exact h c ⟨i, t, hi, hcreated⟩

theorem finished_of_created {t : ConsoleTask} (h : t.created = some (id, c)) (inp : Tick)
    (st : LoginState) : ((consoleProgram X cfg).step inp st t).2 = t := by
  unfold ConsoleTask.created at h
  split at h
  · rfl
  · cases h

theorem CreatedWith.act (h : CreatedWith s id c) (a : Act ConsoleCall Tick) :
    CreatedWith (act (consoleProgram X cfg) s a) id c := by
  obtain ⟨i, t, ht, hcreated⟩ := h
  exact ⟨i, t, getElem?_act_of_finished ht (finished_of_created hcreated) a, hcreated⟩

theorem taskStep_sessions (inp : Tick) (db : LoginDb) (t : ConsoleTask) :
    (LoginDb.SessionsFrom db (taskStep X cfg inp db t).1 ∧
      (taskStep X cfg inp db t).2.created = t.created ∧
      ((taskStep X cfg inp db t).1.hashOf uid = db.hashOf uid ∨
        ∀ x ∈ (taskStep X cfg inp db t).1.sessions, x.userId ≠ uid)) ∨
      ∃ call r c csrfToken expiresAt session,
        t = .login call (.drawn r c session.id csrfToken expiresAt) ∧ session.userId = r.id ∧
        session.id ∉ db.sessions.map Session.id ∧
        (taskStep X cfg inp db t).2 = .login call (.done (some c) (.loggedIn r session)) ∧
        (taskStep X cfg inp db t).1.sessions = db.sessions ++ [session] ∧
        (taskStep X cfg inp db t).1.hashOf uid = db.hashOf uid := by
  cases t with
  | login call stage =>
    have hmove : LoginMove X cfg inp call db stage (loginStep X cfg inp call db stage) :=
      loginStep_move
    rcases hmove.sessions with ⟨hfrom, hcreated⟩ | ⟨r, c, csrfToken, expiresAt, x, rfl, huser, hnew, hq, hx⟩
    · exact .inl ⟨hfrom, hcreated, .inl hmove.hashOf⟩
    · refine .inr ⟨call, r, c, csrfToken, expiresAt, x, rfl, huser, hnew, ?_, hx, hmove.hashOf⟩
      exact congrArg (ConsoleTask.login call) hq
  | reset call stage =>
    obtain ⟨hfrom, hhash⟩ := resetStep_sessions (X := X) call stage
    exact .inl ⟨hfrom, rfl, hhash⟩
  | prune stage =>
    have hprune : LoginDb.SessionsFrom db (pruneStep X cfg inp db stage).1 ∧
        (pruneStep X cfg inp db stage).1.hashOf uid = db.hashOf uid :=
      pruneStep_sessions stage
    exact .inl ⟨hprune.1, rfl, .inl hprune.2⟩

theorem createdWith_spawn {call : ConsoleCall}
    (h : CreatedWith (act (consoleProgram X cfg) s (.spawn call)) id c) : CreatedWith s id c := by
  obtain ⟨j, u, hu, hcreated⟩ := h
  rcases threads_act hu with hold | ⟨_, call', _, rfl⟩ | ⟨_, _, habs, _⟩
  · exact ⟨j, u, hold, hcreated⟩
  · cases call' <;> cases hcreated
  · cases habs

section Act

variable {i : Nat} {inp : Tick} {t : ConsoleTask}

theorem db_run (ht : s.threads[i]? = some t) :
    (act (consoleProgram X cfg) s (.run i inp)).shared.db =
      (taskStep X cfg inp (s.shared.db.connected inp.dbError) t).1 := by
  rw [act_run_of_some ht]
  rfl

theorem createdWith_run (ht : s.threads[i]? = some t)
    (h : CreatedWith (act (consoleProgram X cfg) s (.run i inp)) id c) :
    CreatedWith s id c ∨
      (taskStep X cfg inp (s.shared.db.connected inp.dbError) t).2.created = some (id, c) := by
  obtain ⟨j, u, hu, hcreated⟩ := h
  rcases threads_act hu with hold | ⟨_, _, habs, _⟩ | ⟨inp', t', hact, ht', rfl⟩
  · exact .inl ⟨j, u, hold, hcreated⟩
  · cases habs
  cases hact
  rw [ht, Option.some.injEq] at ht'
  subst ht'
  exact .inr hcreated

theorem SessionsChecked.run_of_old (h : SessionsChecked uid s) (ht : s.threads[i]? = some t)
    (hfrom : LoginDb.SessionsFrom s.shared.db
      (taskStep X cfg inp (s.shared.db.connected inp.dbError) t).1)
    (hcreated : (taskStep X cfg inp (s.shared.db.connected inp.dbError) t).2.created = t.created)
    (hhash : (taskStep X cfg inp (s.shared.db.connected inp.dbError) t).1.hashOf uid =
      s.shared.db.hashOf uid) :
    SessionsChecked uid (act (consoleProgram X cfg) s (.run i inp)) := by
  intro x hx huser
  rw [db_run ht] at hx ⊢
  obtain ⟨y, hy, hid, hyuser⟩ := hfrom x hx
  obtain ⟨⟨c, hc⟩, hall⟩ := h y hy (hyuser.trans huser)
  rw [hid] at hc hall
  refine ⟨⟨c, hc.act _⟩, fun c' hc' => ?_⟩
  rw [hhash]
  apply hall
  rcases createdWith_run ht hc' with hold | hnew
  · exact hold
  · exact ⟨i, t, ht, hcreated ▸ hnew⟩

/-- A session that is created while the hash is stored is checked, and so are the others. -/
theorem SessionsChecked.run_of_new {call : LoginCall} {r : User} {csrfToken : List UInt8}
    {expiresAt : Text} {session : Session} (h : SessionsChecked uid s)
    (ht : s.threads[i]? = some (.login call (.drawn r c session.id csrfToken expiresAt)))
    (ha : StillStored uid s (.run i inp)) (huser : session.userId = r.id)
    (hnew : session.id ∉ s.shared.db.sessions.map Session.id)
    (hcreated : (taskStep X cfg inp (s.shared.db.connected inp.dbError)
      (.login call (.drawn r c session.id csrfToken expiresAt))).2.created = some (session.id, c))
    (hsessions : (act (consoleProgram X cfg) s (.run i inp)).shared.db.sessions =
      s.shared.db.sessions ++ [session])
    (hhash : (act (consoleProgram X cfg) s (.run i inp)).shared.db.hashOf uid =
      s.shared.db.hashOf uid) :
    SessionsChecked uid (act (consoleProgram X cfg) s (.run i inp)) := by
  intro x hx hxuser
  rw [hhash]
  rw [hsessions] at hx
  rcases mem_append.1 hx with hold | hx
  · obtain ⟨⟨c', hc'⟩, hall⟩ := h x hold hxuser
    refine ⟨⟨c', hc'.act _⟩, fun c'' hc'' => ?_⟩
    rcases createdWith_run ht hc'' with hbefore | hstep
    · exact hall c'' hbefore
    -- the id of the new session was not in the table
    rw [hcreated, Option.some.injEq, Prod.mk.injEq] at hstep
    rw [hstep.1] at hnew
    exact absurd (mem_map_of_mem hold) hnew
  rw [mem_singleton] at hx
  subst hx
  have hstored := ha _ ht
  unfold stillStored at hstored
  dsimp only at hstored
  rw [decide_eq_false (not_not_intro (huser.symm.trans hxuser)), Bool.false_or,
    Bool.and_eq_true, decide_eq_true_eq, freshId_iff] at hstored
  refine ⟨⟨c, i, _, ?_, hcreated⟩, fun c' hc' => ?_⟩
  · rw [act_run_of_some ht]
    exact getElem?_set_self (List.getElem?_eq_some_iff.1 ht).1
  rcases createdWith_run ht hc' with hbefore | hstep
  · exact absurd hbefore (hstored.2 c')
  · rw [hcreated, Option.some.injEq, Prod.mk.injEq] at hstep
    rw [← hstep.2]
    exact hstored.1

end Act

theorem sessionsChecked_act (s : Sys LoginState ConsoleTask) (a : Act ConsoleCall Tick)
    (h : SessionsChecked uid s) (ha : StillStored uid s a) :
    SessionsChecked uid (act (consoleProgram X cfg) s a) := by
  cases a with
  | spawn call =>
    intro x hx huser
    obtain ⟨⟨c, hc⟩, hall⟩ := h x hx huser
    exact ⟨⟨c, hc.act _⟩, fun c' hc' => hall c' (createdWith_spawn hc')⟩
  | run i inp =>
    cases ht : s.threads[i]? with
    | none =>
      rw [act_run_of_none ht]
      exact h
    | some t =>
      rcases taskStep_sessions inp (s.shared.db.connected inp.dbError) t with
        ⟨hfrom, hcreated, hhash | hnone⟩ | ⟨call, r, c, csrfToken, expiresAt, x, rfl, huser, hnew, hq, hx, hhash⟩
      · exact h.run_of_old ht hfrom hcreated hhash
      · intro x hx huser
        rw [db_run ht] at hx
        exact absurd huser (hnone x hx)
      refine h.run_of_new ht ha huser hnew ?_ ((congrArg (·.sessions) (db_run ht)).trans hx)
        ((congrArg (LoginDb.hashOf · uid) (db_run ht)).trans hhash)
      rw [hq]
      rfl

end Run

section Examples

def newHash : List UInt8 := Str.bytes "battery staple".toList

def resetDb : LoginDb :=
  { guessedDb with
    users := [guessedUser, { guessedUser with id := 2, username := "root".toList, role := "admin".toList }]
    userIds_nodup := by decide }

def resetCall : ResetCall where
  admin := { guessedUser with id := 2, username := "root".toList, role := "admin".toList }
  sessionId := []
  id := 1
  password := "battery staple".toList

def loginCall : LoginCall := ⟨[], "eve".toList, "correct horse".toList⟩

def stepsDrawing (i n : Nat) (second : Int) : List (Act ConsoleCall Tick) :=
  List.replicate n (.run i ⟨seconds second, none, [7], [8], .ok newHash⟩)

def beforeReset : Sys LoginState ConsoleTask :=
  ⟨⟨resetDb, 0⟩, [.reset resetCall (.hashed guessedUser newHash)]⟩

def afterReset : Sys LoginState ConsoleTask :=
  act (consoleProgram paddedCrates lockoutConfig) beforeReset
    (.run 0 ⟨seconds 1, none, [], [], .ok newHash⟩)

def newLogin : List (Act ConsoleCall Tick) :=
  .spawn (.login ⟨[], "eve".toList, "battery staple".toList⟩) :: stepsDrawing 1 9 2

/-- The login has checked the password when the reset comes, and creates its session afterwards. -/
def lateSession : List (Act ConsoleCall Tick) :=
  [.spawn (.login loginCall), .spawn (.reset resetCall)] ++ stepsDrawing 0 4 0 ++ stepsDrawing 1 4 1 ++
    stepsDrawing 0 5 2

def ConsoleTask.resetTo : ConsoleTask → Option (Int × Text)
  | .reset _ (.done (.ok reply)) => some reply
  | _ => none

end Examples

end Nanoguard.Console

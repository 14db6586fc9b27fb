import Nanoguard.Reload.Snapshot

/-!
# Settings that a reload ignores

The settings that the handles were opened with stay in effect until a restart. A reload compares the
file with the live configuration, which the last successful reload has replaced, and does not look at
`[audit].fsync_every_write`.
-/

namespace Nanoguard.Reload

open List

variable {runtime : RuntimeHandles} {w : World} {p : Pointer}

/-! ## Attempts one after the other -/

def reloadOnce (runtime : RuntimeHandles) (w : World) (p : Pointer) : Pointer × Attempt :=
  let read := reloadStep runtime w p .started
  let compared := reloadStep runtime w read.1 read.2
  let built := reloadStep runtime w compared.1 compared.2
  reloadStep runtime w built.1 built.2

def reloads (runtime : RuntimeHandles) (p : Pointer) (ws : List World) : Pointer :=
  ws.foldl (fun p w => (reloadOnce runtime w p).1) p

/-- The configuration that an attempt loads and the state it builds, if it succeeds. -/
def loaded (runtime : RuntimeHandles) (w : World) : Option (FullConfig × LiveState) := do
  let cfg ← w.readConfig.toOption
  guard (w.panics = false)
  let st ← (buildLive w.files cfg runtime).toOption
  return (cfg, st)

def lastLoaded (runtime : RuntimeHandles) (startup : StartupConfig) (ws : List World) :
    StartupConfig :=
  ws.foldl (fun last w => ((loaded runtime w).map fun x => x.1.startup).getD last) startup

theorem loaded_eq_some {cfg : FullConfig} {st : LiveState} :
    loaded runtime w = some (cfg, st) ↔
      w.readConfig = .ok cfg ∧ w.panics = false ∧ buildLive w.files cfg runtime = .ok st := by
  have htoOption {α : Type} (x : Except Text α) (a : α) : x.toOption = some a ↔ x = .ok a := by
    cases x <;> simp [Except.toOption]
  simp [loaded, Option.bind_eq_some_iff, htoOption]

theorem reloadOnce_of_loaded {cfg : FullConfig} {st : LiveState}
    (h : loaded runtime w = some (cfg, st)) :
    reloadOnce runtime w p = (⟨⟨st, p.reads⟩, p.live :: p.past, p.reads + 1⟩,
      .succeeded ⟨st, p.reads⟩ (restartOnlyDrift p.live.state.startup cfg.startup)) := by
  obtain ⟨hread, hpanics, hbuild⟩ := loaded_eq_some.1 h
  simp [reloadOnce, reloadStep, hread, hpanics, hbuild]

theorem live_of_not_loaded (h : loaded runtime w = none) :
    (reloadOnce runtime w p).1.live = p.live := by
  unfold loaded at h
  cases hread : w.readConfig with
  | error e => simp [reloadOnce, reloadStep, hread]
  | ok cfg =>
    cases hpanics : w.panics with
    | true => simp [reloadOnce, reloadStep, hread, hpanics]
    | false =>
      cases hbuild : buildLive w.files cfg runtime with
      | error e => simp [reloadOnce, reloadStep, hread, hpanics, hbuild]
      | ok st => simp [hread, hpanics, hbuild, Except.toOption] at h

theorem startup_buildLive {env : BuildEnv} {cfg : FullConfig} {st : LiveState}
    (h : buildLive env cfg runtime = .ok st) : st.startup = cfg.startup := by
  obtain ⟨app, -, happ⟩ := bind_eq_ok.1 h
  cases happ
  rfl

theorem startup_reloads (p : Pointer) (ws : List World) :
    (reloads runtime p ws).live.state.startup = lastLoaded runtime p.live.state.startup ws := by
  induction ws generalizing p with
  | nil => rfl
  | cons w ws ih =>
    have hstep : (reloadOnce runtime w p).1.live.state.startup =
        ((loaded runtime w).map fun x => x.1.startup).getD p.live.state.startup := by
      cases h : loaded runtime w with
      | none =>
        rw [live_of_not_loaded h]
        rfl
      | some x =>
        rw [reloadOnce_of_loaded h]
        exact startup_buildLive (loaded_eq_some.1 h).2.2
    change (reloads runtime _ ws).live.state.startup = lastLoaded runtime _ ws
    rw [ih, hstep]

/-! ## What is reported -/

/-- A setting that stays in effect until a restart. -/
structure RestartKey where
  name : String
  Value : Type
  [dec : DecidableEq Value]
  get : StartupConfig → Value

instance (k : RestartKey) : DecidableEq k.Value := k.dec

/-- The settings that `warn_on_restart_only_drift` compares. -/
def comparedKeys : List RestartKey :=
  [⟨"[nanoguard].listen", Text, (·.nanoguard.listen)⟩,
    ⟨"[nanoguard].log_level", Text, (·.nanoguard.logLevel)⟩,
    ⟨"[budget].enabled", Bool, (·.budget.enabled)⟩,
    ⟨"[budget].db_path", Text, (·.budget.dbPath)⟩,
    ⟨"[audit].enabled", Bool, (·.audit.enabled)⟩,
    ⟨"[audit].path", Text, (·.audit.path)⟩,
    ⟨"[audit].hash_only", Bool, (·.audit.hashOnly)⟩,
    ⟨"[auth].enabled", Bool, (·.auth.enabled)⟩,
    ⟨"[auth].env_marker", Char, (·.auth.envMarker)⟩,
    ⟨"[auth].cache_capacity", Nat, (·.auth.cacheCapacity)⟩,
    ⟨"[auth].cache_ttl_secs", Nat, (·.auth.cacheTtlSecs)⟩,
    ⟨"[auth].require_https", Bool, (·.auth.requireHttps)⟩]

/-- The audit log is opened with it, too. -/
def fsyncKey : RestartKey := ⟨"[audit].fsync_every_write", Bool, (·.audit.fsyncEveryWrite)⟩

/-- The settings that the running handles were opened with. `[budget].admin_api_key` is read from the
live configuration. -/
def restartKeys : List RestartKey := fsyncKey :: comparedKeys

/-- The report names exactly the settings of the file that are not in effect. -/
def Exact (inEffect file : StartupConfig) (reported : List String) : Prop :=
  ∀ key, key ∈ reported ↔ ∃ k ∈ restartKeys, k.get inEffect ≠ k.get file ∧ k.name = key

/-- No change is hidden: of the compared settings, the live one is in effect or the file has a third
value, and the file has the setting that is not compared as it is in effect. -/
def NothingHidden (inEffect live file : StartupConfig) : Prop :=
  fsyncKey.get file = fsyncKey.get inEffect ∧ ∀ k ∈ comparedKeys,
    k.get live = k.get inEffect ∨ k.get file ≠ k.get live ∧ k.get file ≠ k.get inEffect

theorem mem_restartOnlyDrift (live file : StartupConfig) (key : String) :
    key ∈ restartOnlyDrift live file ↔
      ∃ k ∈ comparedKeys, k.get live ≠ k.get file ∧ k.name = key := by
  simp [restartOnlyDrift, comparedKeys]

theorem nodup_restartKeys : (restartKeys.map RestartKey.name).Nodup := by decide

theorem name_injOn {k k' : RestartKey} (hk : k ∈ restartKeys) (hk' : k' ∈ restartKeys)
    (h : k.name = k'.name) : k = k' :=
  inj_on_of_nodup_map nodup_restartKeys hk hk' h

theorem exists_named_iff {keys : List RestartKey} (hkeys : keys ⊆ restartKeys) {k : RestartKey}
    (hk : k ∈ keys) {P : RestartKey → Prop} : (∃ k' ∈ keys, P k' ∧ k'.name = k.name) ↔ P k := by
  constructor
  · rintro ⟨k', hk', hP, hname⟩
    exact name_injOn (hkeys hk') (hkeys hk) hname ▸ hP
  · exact fun hP => ⟨k, hk, hP, rfl⟩

theorem ne_iff_ne_iff {α : Type} {x y z : α} : (x ≠ z ↔ y ≠ z) ↔ x = y ∨ z ≠ x ∧ z ≠ y := by
  by_cases hx : x = z
  · by_cases hy : y = z <;> simp [hx, eq_comm]
  · by_cases hy : y = z <;> simp [hx, hy, eq_comm]

theorem exact_iff (inEffect live file : StartupConfig) :
    Exact inEffect file (restartOnlyDrift live file) ↔ NothingHidden inEffect live file := by
  have hcompared : comparedKeys ⊆ restartKeys := subset_cons_self _ _
  have hsame (k : RestartKey) (hk : k ∈ comparedKeys) :
      (k.name ∈ restartOnlyDrift live file ↔
        ∃ k' ∈ restartKeys, k'.get inEffect ≠ k'.get file ∧ k'.name = k.name) ↔
      k.get live = k.get inEffect ∨ k.get file ≠ k.get live ∧ k.get file ≠ k.get inEffect := by
    rw [mem_restartOnlyDrift, exists_named_iff hcompared hk,
      exists_named_iff (List.Subset.refl _) (hcompared hk), ne_iff_ne_iff]
  have hfsync : fsyncKey.name ∉ restartOnlyDrift live file := by
    rw [mem_restartOnlyDrift]
    rintro ⟨k, hk, -, hname⟩
    have hnodup := nodup_restartKeys
    rw [restartKeys, map_cons, nodup_cons] at hnodup
    exact hnodup.1 (hname ▸ mem_map_of_mem hk)
  constructor
  · intro hexact
    refine ⟨?_, fun k hk => (hsame k hk).1 (hexact k.name)⟩
    by_contra hne
    exact hfsync ((hexact _).2 ⟨fsyncKey, mem_cons_self, Ne.symm hne, rfl⟩)
  · rintro ⟨hkept, hkeys⟩ key
    constructor
    · intro hkey
      obtain ⟨k, hk, -, rfl⟩ := (mem_restartOnlyDrift live file key).1 hkey
      exact ((hsame k hk).2 (hkeys k hk)).1 hkey
    · rintro ⟨k, hk, hne, rfl⟩
      rcases mem_cons.1 hk with rfl | hk
      · exact absurd hkept.symm hne
      · exact ((hsame k hk).2 (hkeys k hk)).2 ⟨k, mem_cons_of_mem _ hk, hne, rfl⟩

/-- **When a successful reload reports exactly what it ignores**: after any attempts, if no change
since the startup is hidden by the file that was loaded last. -/
theorem drift_reported_iff (live : LiveState) (earlier : List World) {cfg : FullConfig}
    {st : LiveState} (h : loaded runtime w = some (cfg, st)) :
    ∃ stored ignored,
      (reloadOnce runtime w (reloads runtime (started live).shared earlier)).2 =
        .succeeded stored ignored ∧
      (Exact live.startup cfg.startup ignored ↔
        NothingHidden live.startup (lastLoaded runtime live.startup earlier) cfg.startup) := by
  refine ⟨_, _, congrArg Prod.snd (reloadOnce_of_loaded h), ?_⟩
  rw [startup_reloads]
  exact exact_iff _ _ _

section Examples

def auditFull (hashOnly fsyncEveryWrite : Bool) : FullConfig :=
  let cfg := exampleFull true
  { cfg with
    startup := { cfg.startup with
      audit := { cfg.startup.audit with hashOnly, fsyncEveryWrite } } }

def auditWorld (hashOnly fsyncEveryWrite : Bool) : World :=
  exampleWorld (.ok (auditFull hashOnly fsyncEveryWrite))

theorem auditWorld_loaded :
    ∃ app, ∀ hashOnly fsyncEveryWrite,
      loaded exampleRuntime (auditWorld hashOnly fsyncEveryWrite) =
        some (auditFull hashOnly fsyncEveryWrite,
          ⟨app, true, (auditFull hashOnly fsyncEveryWrite).startup, exampleRuntime⟩) := by
  obtain ⟨app, hbuild⟩ := exampleFull_builds
  obtain ⟨app', happ, heq⟩ := bind_eq_ok.1 (hbuild true exampleRuntime)
  cases heq
  exact ⟨app, fun _ _ => loaded_eq_some.2 ⟨rfl, rfl, bind_eq_ok.2 ⟨app, happ, rfl⟩⟩⟩

/-- **A second reload of the same file reports nothing**, and a changed `fsync_every_write` is never
reported. -/
theorem drift_not_reported :
    ∃ live, Successful exampleRuntime live ∧
      (∃ stored, (reloadOnce exampleRuntime (auditWorld false false)
          (reloads exampleRuntime (started live).shared [auditWorld false false])).2 =
            .succeeded stored [] ∧
        (auditFull false false).startup.audit.hashOnly ≠ live.startup.audit.hashOnly) ∧
      ∃ stored, (reloadOnce exampleRuntime (auditWorld true true) (started live).shared).2 =
            .succeeded stored [] ∧
        (auditFull true true).startup.audit.fsyncEveryWrite ≠
          live.startup.audit.fsyncEveryWrite := by
  obtain ⟨app, hbuild⟩ := exampleFull_builds
  obtain ⟨app', hloaded⟩ := auditWorld_loaded
  have hsecond (p : Pointer) : restartOnlyDrift
      (reloads exampleRuntime p [auditWorld false false]).live.state.startup
      (auditFull false false).startup = [] := by
    rw [startup_reloads]
    simp only [lastLoaded, foldl_cons, foldl_nil, hloaded]
    rfl
  have hfalse := congrArg Prod.snd (reloadOnce_of_loaded (p := reloads exampleRuntime
    (started ⟨app, true, (exampleFull true).startup, exampleRuntime⟩).shared
    [auditWorld false false]) (hloaded false false))
  rw [hsecond] at hfalse
  exact ⟨_, ⟨_, _, hbuild true exampleRuntime⟩, ⟨_, hfalse, Bool.false_ne_true⟩,
    ⟨_, congrArg Prod.snd (reloadOnce_of_loaded (hloaded true true)), Bool.noConfusion⟩⟩

/-- The first reload that finds another value reports it. -/
theorem drift_reported_first :
    ∃ live, Successful exampleRuntime live ∧ ∃ stored ignored,
      (reloadOnce exampleRuntime (auditWorld false false)
          (reloads exampleRuntime (started live).shared [])).2 = .succeeded stored ignored ∧
        Exact live.startup (auditFull false false).startup ignored := by
  obtain ⟨app, hbuild⟩ := exampleFull_builds
  obtain ⟨app', hloaded⟩ := auditWorld_loaded
  refine ⟨_, ⟨_, _, hbuild true exampleRuntime⟩, ?_⟩
  obtain ⟨stored, ignored, hstep, hiff⟩ := drift_reported_iff
    ⟨app, true, (exampleFull true).startup, exampleRuntime⟩ [] (hloaded false false)
  exact ⟨stored, ignored, hstep, hiff.2 ⟨rfl, fun k _ => .inl rfl⟩⟩

end Examples

end Nanoguard.Reload

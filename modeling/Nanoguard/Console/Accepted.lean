import Nanoguard.Reload.FileRoles

/-!
# Files that the console accepts

The console chooses the validator of a file by its name; the proxy chooses the loader by the
configuration. A dictionary that is used as a dictionary and a policy that is used as the bundle load
if they are accepted (`accepts_of_checks`); of the configuration only the syntax is checked.
-/

namespace Nanoguard.Console

open Matcher (IwordBuilder IwordScanner)
open Reload

/-! ## Loading the configuration and the files -/

structure Site where
  env : BuildEnv
  parseToml : Text → Except Text Config
  /-- `NANOGUARD_CONFIG`, or `nanoguard.toml` -/
  configPath : Text
  hasFile : Text → Bool
  /-- the configuration from the environment, used if there is no file -/
  envConfig : Config

namespace Site

variable (site : Site)

def fromEnvOrDefault : Except Text Config :=
  if site.hasFile site.configPath then do
    let content ← (site.env.readToString site.configPath).mapError fun _ =>
      "reading config ".toList ++ site.configPath
    (site.parseToml content).mapError fun _ => "parsing config TOML".toList
  else .ok site.envConfig

def load (budget : Option BudgetStore) : Except Text AppState := do
  let cfg ← site.fromEnvOrDefault
  buildAppState site.env cfg budget

def validate (path content : Text) : ValidationResult :=
  validateByPath site.env.eng site.env.parseYaml site.parseToml path content

end Site

structure Edit where
  path : Text
  content : Text
  /-- the paths that lead to the file -/
  same : Text → Bool
  same_path : same path = true
  /-- the other crate reads dictionaries itself -/
  iword : IwordBuilder

/-- The site after the edit; all other files are unchanged. -/
def Site.edited (site : Site) (e : Edit) : Site :=
  { site with
    env :=
      { site.env with
        readToString := fun path =>
          if e.same path then .ok e.content else site.env.readToString path
        iword := e.iword }
    hasFile := fun path => e.same path || site.hasFile path }

/-! ## Names and roles -/

/-- The validator of the kind makes the checks of the role. -/
def FileKind.checks : FileKind → FileRole → Bool
  | _, .piiDict => true
  | .dict, .keywordDict => true
  | .policy, .bundle => true
  | _, _ => false

/-- The file can take the role: its validator has checked it for that, or the loader accepts it. -/
def Edit.Serves (e : Edit) (site : Site) (role : FileRole) : Prop :=
  (fileKind e.path).checks role = true ∨ role.Accepts site.env e.content

/-- What an edit of another file than the configuration has to meet. -/
structure Edit.Fits (e : Edit) (site : Site) (cfg : Config) : Prop where
  serves : ∀ file ∈ roles cfg, e.same file.2 = true → e.Serves site file.1
  /-- with `iword-rs`, the other crate takes the dictionaries and the phrases of the bundle -/
  iword : cfg.input.keyword.engine = "iword-rs".toList →
    (∃ path, e.same path = true ∧
      (path ∈ cfg.input.keyword.dictPaths ∨ (FileRole.bundle, path) ∈ roles cfg)) →
    EngineFits (site.edited e).env cfg

structure Edit.ConfigFits (e : Edit) (site : Site) (cfg : Config) : Prop where
  sound : Reload.Sound (site.edited e).env cfg
  serves : ∀ file ∈ roles cfg, e.same file.2 = true → e.Serves site file.1
  loads : ∀ file ∈ roles cfg, e.same file.2 = false → Loads site.env file

section Edits

variable {site : Site} {e : Edit} {cfg : Config} {budget : Option BudgetStore}

/-- **An accepted file loads in the roles that its validator checks.** -/
theorem accepts_of_checks {role : FileRole} (hvalid : (site.validate e.path e.content).valid = true)
    (hchecks : (fileKind e.path).checks role = true) : role.Accepts site.env e.content := by
  unfold Site.validate validateByPath at hvalid
  cases role with
  | piiDict => trivial
  | keywordDict =>
    cases hkind : fileKind e.path <;> rw [hkind] at hchecks hvalid
    case dict => exact hvalid
    all_goals cases hchecks
  | bundle =>
    cases hkind : fileKind e.path <;> rw [hkind] at hchecks hvalid
    case policy => exact hvalid
    all_goals cases hchecks
  | schema => cases hkind : fileKind e.path <;> rw [hkind] at hchecks <;> cases hchecks

theorem Edit.serves_iff {role : FileRole} (hvalid : (site.validate e.path e.content).valid = true) :
    e.Serves site role ↔ role.Accepts site.env e.content :=
  ⟨fun h => h.elim (accepts_of_checks hvalid) id, .inr⟩

theorem accepts_edited {role : FileRole} {content : Text} :
    role.Accepts (site.edited e).env content ↔ role.Accepts site.env content := by
  cases role <;> exact Iff.rfl

theorem read_edited_of_same {path : Text} (hsame : e.same path = true) :
    (site.edited e).env.readToString path = .ok e.content :=
  if_pos hsame

theorem read_edited {path : Text} (hsame : e.same path = false) :
    (site.edited e).env.readToString path = site.env.readToString path :=
  if_neg (Bool.not_eq_true _ ▸ hsame)

theorem loads_edited {file : FileRole × Text} :
    Loads (site.edited e).env file ↔
      (e.same file.2 = true → file.1.Accepts site.env e.content) ∧
        (e.same file.2 = false → Loads site.env file) := by
  unfold Loads
  simp only [accepts_edited]
  cases hsame : e.same file.2 with
  | true => simp [read_edited_of_same hsame]
  | false => simp [read_edited hsame]

theorem forall_loads_edited (hvalid : (site.validate e.path e.content).valid = true) :
    (∀ file ∈ roles cfg, Loads (site.edited e).env file) ↔
      (∀ file ∈ roles cfg, e.same file.2 = true → e.Serves site file.1) ∧
        ∀ file ∈ roles cfg, e.same file.2 = false → Loads site.env file := by
  simp only [loads_edited, Edit.serves_iff hvalid]
  exact ⟨fun h => ⟨fun file hfile => (h file hfile).1, fun file hfile => (h file hfile).2⟩,
    fun h file hfile => ⟨h.1 file hfile, h.2 file hfile⟩⟩

theorem fromEnvOrDefault_edited_of_config (hsame : e.same site.configPath = true) :
    (site.edited e).fromEnvOrDefault =
      (site.parseToml e.content).mapError fun _ => "parsing config TOML".toList := by
  have hfile : (site.edited e).hasFile (site.edited e).configPath = true :=
    Bool.or_eq_true_iff.2 (.inl hsame)
  have hread : (site.edited e).env.readToString (site.edited e).configPath = .ok e.content :=
    read_edited_of_same hsame
  unfold Site.fromEnvOrDefault
  rw [if_pos hfile, hread]
  rfl

theorem fromEnvOrDefault_edited (hsame : e.same site.configPath = false) :
    (site.edited e).fromEnvOrDefault = site.fromEnvOrDefault := by
  have hfile : (site.edited e).hasFile (site.edited e).configPath = site.hasFile site.configPath := by
    change (e.same site.configPath || site.hasFile site.configPath) = _
    rw [hsame, Bool.false_or]
  have hread : (site.edited e).env.readToString (site.edited e).configPath =
      site.env.readToString site.configPath := read_edited hsame
  unfold Site.fromEnvOrDefault
  rw [hfile, hread]
  rfl

theorem engineFits_edited
    (hiword : ∀ lists paths, (∀ path ∈ paths, e.same path = false) →
      e.iword lists paths = site.env.iword lists paths)
    (hdicts : ∀ path ∈ cfg.input.keyword.dictPaths, e.same path = false)
    (hbundle : ∀ path, (FileRole.bundle, path) ∈ roles cfg → e.same path = false)
    (h : EngineFits site.env cfg) : EngineFits (site.edited e).env cfg := by
  refine h.imp_right fun ⟨hengine, hbuild⟩ => ⟨hengine, ?_⟩
  have hpolicy : loadPolicy (site.edited e).env cfg = loadPolicy site.env cfg := by
    unfold loadPolicy
    cases hpath : cfg.bundlePath.filter fun p => !p.isEmpty with
    | none => rfl
    | some path =>
      have hmem : (FileRole.bundle, path) ∈ roles cfg :=
        (forall_roles_iff.1 fun _ hfile => hfile).1 path hpath
      have hread : (site.edited e).env.readToString path = site.env.readToString path :=
        read_edited (hbundle path hmem)
      dsimp only
      unfold Policy.fromPath
      rw [hread]
      rfl
  intro loaded hloaded
  rw [hpolicy] at hloaded
  obtain ⟨scanner, hscanner⟩ := hbuild loaded hloaded
  refine ⟨scanner, ?_⟩
  rw [← hscanner]
  apply hiword
  rw [(loadPolicy_settings hloaded).2.2]
  exact hdicts

end Edits

section Example

def inputToml : Text :=
  "[input.keyword]\ndict_paths = [\"dicts/block.txt\"]\ninline_block = []\ninline_alert = []\ninline_flag = []\n".toList

def oneBackendToml : Text :=
  "[backend]\nprovider = \"ollama\"\nendpoint = \"http://localhost:11434\"\n\n".toList ++ inputToml

def twoBackendsToml : Text :=
  "[backends.local]\nprovider = \"ollama\"\nendpoint = \"http://localhost:11434\"\n\n".toList ++
    "[backends.cloud]\nprovider = \"openai\"\nendpoint = \"https://api.openai.com\"\n\n".toList ++
    inputToml

def ollama : Backend.BackendConfig :=
  ⟨"ollama".toList, "http://localhost:11434".toList, none, none⟩

def openai : Backend.BackendConfig :=
  ⟨"openai".toList, "https://api.openai.com".toList, none, none⟩

def exampleSiteConfig (backend : Option Backend.BackendConfig)
    (backends : AList (fun _ : Text => Backend.BackendConfig)) : Config where
  input :=
    { enabled := true
      shadow := false
      keyword := ⟨"aho-corasick".toList, ["dicts/block.txt".toList], [], [], [], {}⟩
      pii := ⟨true, .mask, [], "bare".toList, ∅, false, "exact".toList⟩
      spotlight := ⟨false, "datamarking".toList, ["tool".toList], "<<UNTRUSTED>>".toList,
        "<</UNTRUSTED>>".toList, "^".toList, none⟩ }
  outputSchema := ⟨false, "log".toList, []⟩
  tools := ⟨false, none, [], [], [], []⟩
  bundlePath := none
  backend
  backends
  routing := ⟨none, []⟩

def oneBackend : Config := exampleSiteConfig (some ollama) ∅

def twoBackends : Config :=
  exampleSiteConfig none
    (((∅ : AList (fun _ : Text => Backend.BackendConfig)).insert "local".toList ollama).insert
      "cloud".toList openai)

@[irreducible]
def exampleParse (content : Text) : Except Text Config :=
  if content = oneBackendToml then .ok oneBackend
  else if content = twoBackendsToml then .ok twoBackends
  else .error []

@[irreducible]
def exampleFiles (path : Text) : Except Text Text :=
  if path = "nanoguard.toml".toList then .ok oneBackendToml
  else if path = "dicts/block.txt".toList then .ok "rm\t0\n".toList
  else .error "No such file or directory (os error 2)".toList

def exampleSite : Site where
  env :=
    { eng := .basic
      unicode := .ascii
      iword := fun _ _ => .error []
      readToString := exampleFiles
      parseYaml := fun _ => .error []
      json := ⟨fun _ => .error [], fun _ => []⟩
      compileSchema := fun _ => .error [] }
  parseToml := exampleParse
  configPath := "nanoguard.toml".toList
  hasFile path := path = "nanoguard.toml".toList || path = "dicts/block.txt".toList
  envConfig := oneBackend

def exampleEdit (path content : Text) : Edit where
  path
  content
  same p := p = path
  same_path := decide_eq_true rfl
  iword := fun _ _ => .error []

theorem twoBackendsToml_ne : twoBackendsToml ≠ oneBackendToml := by
  intro h
  have hhead : twoBackendsToml[8]? = oneBackendToml[8]? := congrArg (·[8]?) h
  revert hhead
  decide

theorem exampleParse_one : exampleParse oneBackendToml = .ok oneBackend := by
  unfold exampleParse
  exact if_pos rfl

theorem exampleParse_two : exampleParse twoBackendsToml = .ok twoBackends := by
  unfold exampleParse
  rw [if_neg twoBackendsToml_ne]
  exact if_pos rfl

theorem exampleFiles_config : exampleFiles "nanoguard.toml".toList = .ok oneBackendToml := by
  unfold exampleFiles
  exact if_pos rfl

theorem exampleFiles_dict : exampleFiles "dicts/block.txt".toList = .ok "rm\t0\n".toList := by
  unfold exampleFiles
  rw [if_neg (by decide)]
  exact if_pos rfl

theorem exampleSite_config : exampleSite.fromEnvOrDefault = .ok oneBackend := by
  have hread : exampleSite.env.readToString exampleSite.configPath = .ok oneBackendToml :=
    exampleFiles_config
  have hparse : exampleSite.parseToml oneBackendToml = .ok oneBackend := exampleParse_one
  exact bind_eq_ok.2 ⟨oneBackendToml, mapError_eq_ok.2 hread, mapError_eq_ok.2 hparse⟩

theorem exampleSite_loads : ∃ st, exampleSite.load none = .ok st := by
  refine bind_isOk_iff.2 ⟨oneBackend, exampleSite_config, ?_⟩
  refine buildAppState_isOk_iff.2 ⟨⟨.inl rfl, nofun, ?_⟩, ?_⟩
  · exact ⟨List.cons_ne_nil _ _, nofun, rfl⟩
  intro path hpath
  rw [List.mem_singleton.1 hpath]
  have hvalid : (validateDict .basic "rm\t0\n".toList).valid = true := by decide
  exact ⟨"rm\t0\n".toList, exampleFiles_dict, hvalid⟩

end Example

section Results

variable {site : Site} {e : Edit} {budget : Option BudgetStore}

/-- **When an accepted edit can be loaded.** -/
theorem accepted_edit_loads_iff (hprevious : ∃ st, site.load budget = .ok st)
    (hvalid : (site.validate e.path e.content).valid = true)
    (hiword : ∀ lists paths, (∀ path ∈ paths, e.same path = false) →
      e.iword lists paths = site.env.iword lists paths) :
    (∃ st, (site.edited e).load budget = .ok st) ↔
      (e.same site.configPath = true →
        ∃ cfg, site.parseToml e.content = .ok cfg ∧ e.ConfigFits site cfg) ∧
      (e.same site.configPath = false →
        ∀ cfg, site.fromEnvOrDefault = .ok cfg → e.Fits site cfg) := by
  unfold Site.load at hprevious ⊢
  rw [bind_isOk_iff] at hprevious ⊢
  obtain ⟨cfg, hcfg, hbuild⟩ := hprevious
  obtain ⟨hsound, hloads⟩ := buildAppState_isOk_iff.1 hbuild
  cases hsame : e.same site.configPath with
  | true =>
    rw [fromEnvOrDefault_edited_of_config hsame]
    simp only [mapError_eq_ok, buildAppState_isOk_iff, forall_loads_edited hvalid, forall_const,
      reduceCtorEq, false_implies, and_true]
    apply exists_congr
    intro cfg'
    apply and_congr_right
    intro _
    exact ⟨fun ⟨hs, hserves, hl⟩ => ⟨hs, hserves, hl⟩, fun h => ⟨h.sound, h.serves, h.loads⟩⟩
  | false =>
    rw [fromEnvOrDefault_edited hsame]
    simp only [buildAppState_isOk_iff, forall_loads_edited hvalid, forall_const, reduceCtorEq,
      false_implies, true_and]
    constructor
    · rintro ⟨cfg', hcfg', hsound', hserves, -⟩ cfg'' hcfg''
      cases hcfg'.symm.trans hcfg''
      exact ⟨hserves, fun _ _ => hsound'.engine⟩
    · intro h
      have hfits := h cfg hcfg
      refine ⟨cfg, hcfg, ⟨?_, hsound.models, hsound.pool⟩, hfits.serves, fun file hfile _ => hloads file hfile⟩
      by_cases htouched : ∃ path, e.same path = true ∧
          (path ∈ cfg.input.keyword.dictPaths ∨ (FileRole.bundle, path) ∈ roles cfg)
      · rcases hsound.engine with hac | ⟨hengine, -⟩
        · exact .inl hac
        · exact hfits.iword hengine htouched
      have huntouched : ∀ path, path ∈ cfg.input.keyword.dictPaths ∨
          (FileRole.bundle, path) ∈ roles cfg → e.same path = false := by
        intro path hpath
        by_contra hne
        exact htouched ⟨path, by simpa using hne, hpath⟩
      exact engineFits_edited hiword (fun path hpath => huntouched path (.inl hpath))
        (fun path hpath => huntouched path (.inr hpath)) hsound.engine

/-- A dictionary that is accepted is loaded. -/
theorem accepted_edit_loads_dict :
    let e := exampleEdit "dicts/block.txt".toList "mkfs\t0\n".toList
    isSafeEditablePath e.path = true ∧ (exampleSite.validate e.path e.content).valid = true ∧
      ∃ st, (exampleSite.edited e).load none = .ok st := by
  intro e
  have hvalid : (exampleSite.validate e.path e.content).valid = true := by decide
  have hconfig : e.same exampleSite.configPath = false := by decide
  refine ⟨by decide, hvalid, ?_⟩
  refine (accepted_edit_loads_iff exampleSite_loads hvalid fun _ _ _ => rfl).2 ⟨?_, ?_⟩
  · rw [hconfig]
    exact nofun
  intro _ cfg hcfg
  cases exampleSite_config.symm.trans hcfg
  have hengine : oneBackend.input.keyword.engine ≠ "iword-rs".toList := by decide
  refine ⟨?_, fun hiword => absurd hiword hengine⟩
  have hchecks : (fileKind e.path).checks .keywordDict = true := by decide
  exact forall_roles_iff.2 ⟨nofun, fun _ _ _ _ => .inl hchecks, nofun, nofun, nofun⟩

/-- **A configuration that is accepted and cannot be loaded.** -/
theorem accepted_not_loaded :
    let e := exampleEdit "nanoguard.toml".toList twoBackendsToml
    isSafeEditablePath e.path = true ∧ (exampleSite.validate e.path e.content).valid = true ∧
      (∃ st, exampleSite.load none = .ok st) ∧ ¬ ∃ st, (exampleSite.edited e).load none = .ok st := by
  intro e
  refine ⟨by decide, ?_, exampleSite_loads, ?_⟩
  · have hkind : fileKind e.path = .toml := by decide
    unfold Site.validate validateByPath
    rw [hkind]
    exact ValidationResult.valid_ofExcept.2 ⟨twoBackends, mapError_eq_ok.2 exampleParse_two⟩
  intro h
  obtain ⟨cfg, hcfg, hbuild⟩ := bind_isOk_iff.1 h
  have hconfig : e.same exampleSite.configPath = true := by decide
  rw [fromEnvOrDefault_edited_of_config hconfig, mapError_eq_ok] at hcfg
  cases exampleParse_two.symm.trans hcfg
  have hlength : (Backend.labels twoBackends.backend twoBackends.backends).length = 1 :=
    (buildAppState_isOk_iff.1 hbuild).1.pool.default
  revert hlength
  decide

end Results

end Nanoguard.Console

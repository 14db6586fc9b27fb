import Nanoguard.Console.Validate
import Nanoguard.Proxy.RedactComplete
import Nanoguard.Reload.Build

/-!
# When a state can be built

A configuration names files in several roles, and each role has its loader.
`buildAppState_isOk_iff`: a state can be built exactly if the configuration is sound by itself and
each file that it names can be read and is accepted in its role.
-/

namespace Nanoguard.Reload

open Console (ValidationResult checkDictPattern checkRegex validateDict validateDictLine
  validatePiiDict validatePiiDictLine validatePolicy)
open Matcher (AcScanner IwordScanner KeywordConfig Matchers NormalizeConfig acDictEntry
  acDictTarget_eq_ok loadAcDictFile loadAcDictLine parseRegexPattern)
open Redact (RedactRule Redactor compile defaultInlinePatterns_compile loadRedactorFile parseDictLine)
open Regex (Engine)

inductive FileRole where
  | bundle
  | keywordDict
  | piiDict
  | schema
  deriving DecidableEq, Repr

/-- The loader of the role takes the content. Lines of a PII dictionary that are not understood are
skipped, so every text is one. -/
def FileRole.Accepts (env : BuildEnv) : FileRole → Text → Prop
  | .bundle, content => (validatePolicy env.parseYaml content).valid = true
  | .keywordDict, content => (validateDict env.eng content).valid = true
  | .piiDict, _ => True
  | .schema, content => ∃ schemaJson validator, env.json.fromStr content = .ok schemaJson ∧
      env.compileSchema schemaJson = .ok validator

def Loads (env : BuildEnv) (file : FileRole × Text) : Prop :=
  ∃ content, env.readToString file.2 = .ok content ∧ file.1.Accepts env content

/-- The files that the build reads. With the engine `iword-rs` the other crate reads the keyword
dictionaries. -/
def roles (cfg : Config) : List (FileRole × Text) :=
  (cfg.bundlePath.filter fun p => !p.isEmpty).toList.map (FileRole.bundle, ·) ++
    (if cfg.input.keyword.engine = "aho-corasick".toList then
      cfg.input.keyword.dictPaths.map (FileRole.keywordDict, ·) else []) ++
    cfg.input.pii.dictPaths.map (FileRole.piiDict, ·) ++
    (if cfg.outputSchema.enabled then
      cfg.outputSchema.rules.map fun spec => (FileRole.schema, spec.schemaPath) else []) ++
    if cfg.tools.enabled then
      cfg.tools.schemas.map fun spec => (FileRole.schema, spec.schemaPath) else []

/-- The model pattern of a schema rule is none or compiles. -/
def ModelCompiles (eng : Engine) (spec : Guard.RuleSpec) : Prop :=
  ∀ p ∈ spec.modelPattern.filter fun p => !p.isEmpty, ∃ regex, eng.compile false p = some regex

/-- What the build asks of the keyword engine. -/
def EngineFits (env : BuildEnv) (cfg : Config) : Prop :=
  cfg.input.keyword.engine = "aho-corasick".toList ∨
    cfg.input.keyword.engine = "iword-rs".toList ∧
      ∀ loaded, loadPolicy env cfg = .ok loaded →
        ∃ scanner, IwordScanner.build env.iword loaded.1.input.keyword = .ok scanner

/-- What the build asks of a configuration besides its files. -/
structure Sound (env : BuildEnv) (cfg : Config) : Prop where
  engine : EngineFits env cfg
  models : cfg.outputSchema.enabled = true →
    ∀ spec ∈ cfg.outputSchema.rules, ModelCompiles env.eng spec
  pool : Backend.Fits (Backend.labels cfg.backend cfg.backends) cfg.routing

section Dictionaries

variable {eng : Engine} {U : Unicode} {readToString : Text → Except Text Text}
  {opts : NormalizeConfig} {path : Text} {rules : AcScanner}

theorem acDictEntry_isOk_iff {at_ pattern : Text} {idx : Nat} :
    (∃ entry, acDictEntry eng U opts at_ pattern = .ok entry) ↔
      checkDictPattern eng idx pattern = .ok () := by
  unfold acDictEntry checkDictPattern checkRegex
  cases parseRegexPattern pattern with
  | none => exact ⟨fun _ => rfl, fun _ => ⟨_, rfl⟩⟩
  | some body =>
    dsimp only
    cases eng.compile true body with
    | none => exact ⟨nofun, nofun⟩
    | some regex => exact ⟨fun _ => rfl, fun _ => ⟨_, rfl⟩⟩

theorem loadAcDictLine_isOk_iff {numbered : Text × Nat} :
    (∃ rules', loadAcDictLine eng U opts path rules numbered = .ok rules') ↔
      validateDictLine eng numbered = .ok () := by
  obtain ⟨rawLine, idx⟩ := numbered
  unfold loadAcDictLine validateDictLine
  dsimp only
  split
  · exact ⟨fun _ => rfl, fun _ => ⟨_, rfl⟩⟩
  cases (Str.splitChar '\t' (Str.trim rawLine)).map Str.trim with
  | nil => exact ⟨fun _ => rfl, fun _ => ⟨_, rfl⟩⟩
  | cons pattern cols =>
    dsimp only
    split
    · exact ⟨fun _ => rfl, fun _ => ⟨_, rfl⟩⟩
    rw [bind_isOk_iff, bind_eq_ok]
    constructor
    · rintro ⟨target, htarget, h⟩
      obtain ⟨entry, hentry, -⟩ := bind_isOk_iff.1 h
      exact ⟨target, acDictTarget_eq_ok.2 (acDictTarget_eq_ok.1 htarget),
        acDictEntry_isOk_iff.1 ⟨entry, hentry⟩⟩
    · rintro ⟨target, htarget, h⟩
      obtain ⟨entry, hentry⟩ := acDictEntry_isOk_iff.2 h
      exact ⟨target, acDictTarget_eq_ok.2 (acDictTarget_eq_ok.1 htarget),
        bind_isOk_iff.2 ⟨entry, hentry, _, rfl⟩⟩

theorem validateDict_valid_iff {content : Text} :
    (validateDict eng content).valid = true ↔
      ∀ numbered ∈ (Str.lines content).zipIdx, validateDictLine eng numbered = .ok () := by
  unfold validateDict
  rw [ValidationResult.valid_ofExcept, ← forM_eq_ok]
  exact ⟨fun ⟨_, h⟩ => h, fun h => ⟨_, h⟩⟩

theorem loadAcDictFile_isOk_iff :
    (∃ rules', loadAcDictFile eng U readToString opts rules path = .ok rules') ↔
      ∃ content, readToString path = .ok content ∧ (validateDict eng content).valid = true := by
  unfold loadAcDictFile
  rw [bind_isOk_iff]
  apply exists_congr
  intro content
  rw [validateDict_valid_iff]
  apply and_congr_right
  intro _
  apply foldlM_isOk_iff
  intro rules numbered
  exact loadAcDictLine_isOk_iff

theorem loadRedactorFile_isOk_iff {redactRules : List Redact.RedactRule} :
    (∃ rules', loadRedactorFile eng U readToString path redactRules = .ok rules') ↔
      ∃ content, readToString path = .ok content := by
  exact bind_isOk_of_total fun _ => ⟨_, rfl⟩

/-- The regex of a line of a PII dictionary: what stands between the first slash and the last one of
the first column. Blank lines, comments and lines without such a pattern have none. -/
def piiPattern (rawLine : Text) : Option Text :=
  let line := Str.trim rawLine
  if line.isEmpty || line.head? = some '#' then none
  else
    (((Str.splitChar '\t' line).head?.bind (Str.stripPrefix ['/'])).bind
      (Str.rsplitOnce '/')).bind fun (body, _) => if body.isEmpty then none else some body

theorem parseDictLine_eq (idx : Nat) (rawLine : Text) :
    ∃ entity, parseDictLine U idx rawLine = (piiPattern rawLine).map (Prod.mk entity) := by
  unfold parseDictLine piiPattern
  dsimp only
  split
  · exact ⟨[], rfl⟩
  cases ((Str.splitChar '\t' (Str.trim rawLine)).head?.bind (Str.stripPrefix ['/'])).bind
    (Str.rsplitOnce '/') with
  | none => exact ⟨[], rfl⟩
  | some parts =>
    dsimp only [Option.bind_some]
    split
    · exact ⟨[], rfl⟩
    · exact ⟨_, rfl⟩

theorem validatePiiDictLine_eq_ok {rawLine : Text} {idx : Nat} :
    validatePiiDictLine eng (rawLine, idx) = .ok () ↔
      ∀ body ∈ piiPattern rawLine, (eng.compile false body).isSome := by
  unfold validatePiiDictLine piiPattern
  dsimp only
  split
  · exact ⟨fun _ => nofun, fun _ => rfl⟩
  cases ((Str.splitChar '\t' (Str.trim rawLine)).head?.bind (Str.stripPrefix ['/'])).bind
    (Str.rsplitOnce '/') with
  | none => exact ⟨fun _ => nofun, fun _ => rfl⟩
  | some parts =>
    dsimp only [Option.bind_some]
    split
    · exact ⟨fun _ => nofun, fun _ => rfl⟩
    unfold checkRegex
    cases hcompile : eng.compile false parts.1 with
    | none =>
      refine ⟨nofun, fun h => ?_⟩
      have hsome := h parts.1 rfl
      rw [hcompile] at hsome
      cases hsome
    | some regex =>
      refine ⟨?_, fun _ => rfl⟩
      rintro - _ ⟨⟩
      rw [hcompile]
      rfl

def piiRule (eng : Engine) (U : Unicode) (numbered : Text × Nat) : Option RedactRule :=
  (parseDictLine U numbered.2 numbered.1).bind fun (entity, pattern) =>
    (compile eng entity pattern).toOption

theorem piiRule_of_valid {rawLine : Text} {idx : Nat}
    (hvalid : validatePiiDictLine eng (rawLine, idx) = .ok ()) :
    Option.Rel (fun body rule => eng.compile false body = some rule.regex) (piiPattern rawLine)
      (piiRule eng U (rawLine, idx)) := by
  obtain ⟨entity, hparse⟩ := parseDictLine_eq (U := U) idx rawLine
  have hcompiles := validatePiiDictLine_eq_ok.1 hvalid
  unfold piiRule
  dsimp only
  rw [hparse]
  cases hpattern : piiPattern rawLine with
  | none => exact .none
  | some body =>
    obtain ⟨regex, hregex⟩ := Option.isSome_iff_exists.1 (hcompiles body hpattern)
    dsimp only [Option.map_some, Option.bind_some]
    rw [show compile eng entity body = .ok ⟨entity, Redact.barePlaceholder entity, regex⟩ by
      unfold compile; rw [hregex]]
    exact .some hregex

end Dictionaries

/-- **The validators of dictionaries agree with the loaders.** A keyword dictionary is valid exactly
if it can be loaded. If a PII dictionary is valid, its loader adds one rule for each of its
patterns, in their order. -/
theorem dict_checks_agree (eng : Engine) (U : Unicode) (readToString : Text → Except Text Text)
    (path content : Text) (hread : readToString path = .ok content) :
    (∀ opts rules, (validateDict eng content).valid = true ↔
      ∃ rules', loadAcDictFile eng U readToString opts rules path = .ok rules') ∧
    ((validatePiiDict eng content).valid = true → ∀ rules, ∃ made,
      loadRedactorFile eng U readToString path rules = .ok (rules ++ made) ∧
        List.Forall₂ (fun body rule => eng.compile false body = some rule.regex)
          ((Str.lines content).filterMap piiPattern) made) := by
  constructor
  · intro opts rules
    rw [loadAcDictFile_isOk_iff, hread]
    exact ⟨fun h => ⟨content, rfl, h⟩, fun ⟨_, hcontent, h⟩ => by cases hcontent; exact h⟩
  · intro hvalid rules
    unfold validatePiiDict at hvalid
    obtain ⟨_, hlines⟩ := ValidationResult.valid_ofExcept.1 hvalid
    refine ⟨(Str.lines content).zipIdx.filterMap (piiRule eng U), ?_, ?_⟩
    · unfold loadRedactorFile
      rw [hread]
      rfl
    have hpatterns : (Str.lines content).filterMap piiPattern =
        (Str.lines content).zipIdx.filterMap (piiPattern ∘ Prod.fst) := by
      rw [← List.filterMap_map, List.zipIdx_map_fst]
    rw [hpatterns]
    -- both sides read the same lines, and each line is valid
    apply List.rel_filterMap (R := fun a b => a = b ∧ validatePiiDictLine eng a = .ok ())
    · rintro numbered _ ⟨rfl, hline⟩
      exact piiRule_of_valid hline
    · exact List.forall₂_same.2 fun numbered h => ⟨rfl, forM_eq_ok.1 hlines numbered h⟩

/-- A dictionary with a comment, a line without a pattern and a pattern with a label. -/
def ticketDict : Text := "# ids\nplain\n /a/\tticket \n".toList

theorem dict_checks_agree_ticket :
    (validatePiiDict .basic ticketDict).valid = true ∧
      (Str.lines ticketDict).filterMap piiPattern = ["a".toList] ∧
      ∃ made, loadRedactorFile .basic .ascii (fun _ => .ok ticketDict) [] [] = .ok ([] ++ made) ∧
        List.Forall₂ (fun body rule => Engine.basic.compile false body = some rule.regex)
          ((Str.lines ticketDict).filterMap piiPattern) made := by
  have hvalid : (validatePiiDict .basic ticketDict).valid = true := by decide +kernel
  exact ⟨hvalid, by decide +kernel,
    (dict_checks_agree .basic .ascii (fun _ => .ok ticketDict) [] ticketDict rfl).2 hvalid []⟩

section Parts

variable {env : BuildEnv} {cfg : Config}

theorem fromPath_isOk_iff {path : Text} :
    (∃ policy, Policy.fromPath env.parseYaml env.readToString path = .ok policy) ↔
      Loads env (.bundle, path) := by
  unfold Policy.fromPath
  rw [bind_isOk_iff]
  apply exists_congr
  intro content
  rw [mapError_eq_ok]
  exact and_congr_right fun _ => ValidationResult.valid_ofExcept.symm

theorem loadPolicy_isOk_iff :
    (∃ loaded, loadPolicy env cfg = .ok loaded) ↔
      ∀ path ∈ cfg.bundlePath.filter fun p => !p.isEmpty, Loads env (.bundle, path) := by
  unfold loadPolicy
  cases cfg.bundlePath.filter fun p => !p.isEmpty with
  | none => exact ⟨fun _ => nofun, fun _ => ⟨_, rfl⟩⟩
  | some path =>
    refine (bind_isOk_of_total fun _ => ⟨_, rfl⟩).trans (fromPath_isOk_iff.trans ?_)
    exact ⟨fun h _ hpath => Option.some.inj hpath ▸ h, fun h => h path rfl⟩

theorem loadPolicy_settings {loaded : Config × Option Policy.PolicyRuleIndex}
    (h : loadPolicy env cfg = .ok loaded) :
    loaded.1 = { cfg with input := { cfg.input with keyword := loaded.1.input.keyword } } ∧
      loaded.1.input.keyword.engine = cfg.input.keyword.engine ∧
      loaded.1.input.keyword.dictPaths = cfg.input.keyword.dictPaths := by
  unfold loadPolicy at h
  split at h
  · cases h
    exact ⟨rfl, rfl, rfl⟩
  obtain ⟨policy, -, h⟩ := bind_eq_ok.1 h
  cases h
  obtain ⟨hengine, -, hpaths⟩ := Policy.merge_settings policy cfg.input.keyword
  exact ⟨rfl, hengine, hpaths⟩

theorem acScanner_build_isOk_iff {keyword : KeywordConfig} :
    (∃ scanner, AcScanner.build env.eng env.unicode env.readToString keyword = .ok scanner) ↔
      ∀ path ∈ keyword.dictPaths, Loads env (.keywordDict, path) := by
  apply foldlM_isOk_iff
  intro rules path
  rw [mapError_isOk_iff]
  exact loadAcDictFile_isOk_iff

theorem matchers_build_isOk_iff {keyword : KeywordConfig} :
    (∃ m, Matchers.build env.eng env.unicode env.iword env.readToString keyword = .ok m) ↔
      keyword.engine = "aho-corasick".toList ∧
          (∀ path ∈ keyword.dictPaths, Loads env (.keywordDict, path)) ∨
        keyword.engine = "iword-rs".toList ∧
          ∃ scanner, IwordScanner.build env.iword keyword = .ok scanner := by
  unfold Matchers.build Matchers.buildWithEngine
  dsimp only
  split
  next hac =>
    have hne : keyword.engine ≠ "iword-rs".toList := by
      rw [hac]
      decide
    rw [← acScanner_build_isOk_iff]
    refine (bind_isOk_of_total fun _ => ⟨_, rfl⟩).trans (map_isOk_iff.trans ?_)
    exact ⟨fun h => .inl ⟨hac, h⟩, fun h => (h.resolve_right fun h => hne h.1).2⟩
  next hac =>
    split
    next hiword =>
      refine (bind_isOk_of_total fun _ => ⟨_, rfl⟩).trans (map_isOk_iff.trans ?_)
      exact ⟨fun h => .inr ⟨hiword, h⟩, fun h => (h.resolve_left fun h => hac h.1).2⟩
    next hiword =>
      constructor
      · rintro ⟨m, h⟩
        cases h
      · rintro (⟨hac', -⟩ | ⟨hiword', -⟩)
        · exact absurd hac' hac
        · exact absurd hiword' hiword

theorem buildRedactor_isOk_iff {pii : Config.PiiConfig} :
    (∃ redactor, buildRedactor env pii = .ok redactor) ↔
      ∀ path ∈ pii.dictPaths, Loads env (.piiDict, path) := by
  have hdicts : ∀ rules : List Redact.RedactRule,
      (∃ rules', pii.dictPaths.foldlM (fun rules path =>
        (loadRedactorFile env.eng env.unicode env.readToString path rules).mapError fun _ =>
          "loading redactor file ".toList ++ path) rules = .ok rules') ↔
        ∀ path ∈ pii.dictPaths, Loads env (.piiDict, path) := by
    apply foldlM_isOk_iff
    intro rules path
    rw [mapError_isOk_iff, loadRedactorFile_isOk_iff]
    exact exists_congr fun content => ⟨fun h => ⟨h, trivial⟩, And.left⟩
  obtain ⟨builtIn, hbuiltIn⟩ := mapM_ok_of_forall fun _ => defaultInlinePatterns_compile env.eng
  unfold buildRedactor Redactor.buildWithStyle
  rw [hbuiltIn]
  exact (bind_isOk_of_total fun _ => ⟨_, rfl⟩).trans (hdicts builtIn)

theorem loadRule_isOk_iff {spec : Guard.RuleSpec} :
    (∃ rule, Guard.loadRule env.eng env.readToString env.json env.compileSchema spec = .ok rule) ↔
      Loads env (.schema, spec.schemaPath) ∧ ModelCompiles env.eng spec := by
  constructor
  · rintro ⟨rule, h⟩
    obtain ⟨raw, hraw, h⟩ := bind_eq_ok.1 h
    obtain ⟨schemaJson, hjson, h⟩ := bind_eq_ok.1 h
    obtain ⟨schema, hschema, h⟩ := bind_eq_ok.1 h
    refine ⟨⟨raw, mapError_eq_ok.1 hraw, schemaJson, schema, mapError_eq_ok.1 hjson,
      mapError_eq_ok.1 hschema⟩, ?_⟩
    intro p hp
    rw [Option.mem_def.1 hp] at h
    cases hregex : env.eng.compile false p with
    | some regex => exact ⟨regex, rfl⟩
    | none =>
      dsimp only at h
      rw [hregex] at h
      cases h
  · rintro ⟨⟨raw, hraw, schemaJson, schema, hjson, hschema⟩, hmodel⟩
    refine bind_isOk_iff.2 ⟨raw, mapError_eq_ok.2 hraw, bind_isOk_iff.2 ⟨schemaJson,
      mapError_eq_ok.2 hjson, bind_isOk_iff.2 ⟨schema, mapError_eq_ok.2 hschema, ?_⟩⟩⟩
    cases hpattern : spec.modelPattern.filter fun p => !p.isEmpty with
    | none => exact ⟨_, rfl⟩
    | some p =>
      obtain ⟨regex, hregex⟩ := hmodel p hpattern
      dsimp only
      rw [hregex]
      exact ⟨_, rfl⟩

theorem buildSchema_isOk_iff {schema : Config.OutputSchemaConfig} :
    (∃ validator, buildSchema env schema = .ok validator) ↔
      (schema.enabled = true → ∀ spec ∈ schema.rules,
        Loads env (.schema, spec.schemaPath) ∧ ModelCompiles env.eng spec) := by
  unfold buildSchema
  split
  next henabled =>
    rw [forall_prop_of_true henabled]
    refine (bind_isOk_of_total fun _ => ⟨_, rfl⟩).trans (mapM_isOk_iff.trans ?_)
    exact forall₂_congr fun _ _ => loadRule_isOk_iff
  next henabled => exact ⟨fun _ h => absurd h henabled, fun _ => ⟨_, rfl⟩⟩

theorem loadToolSchema_isOk_iff {schemas : AList (fun _ : Text => Guard.Validator)}
    {spec : Config.ToolSchemaSpec} :
    (∃ schemas', loadToolSchema env schemas spec = .ok schemas') ↔
      Loads env (.schema, spec.schemaPath) := by
  constructor
  · rintro ⟨schemas', h⟩
    obtain ⟨raw, hraw, h⟩ := bind_eq_ok.1 h
    obtain ⟨schemaJson, hjson, h⟩ := bind_eq_ok.1 h
    obtain ⟨validator, hvalidator, -⟩ := bind_eq_ok.1 h
    exact ⟨raw, hraw, schemaJson, validator, hjson, hvalidator⟩
  · rintro ⟨raw, hraw, schemaJson, validator, hjson, hvalidator⟩
    exact bind_isOk_iff.2 ⟨raw, hraw, bind_isOk_iff.2 ⟨schemaJson, hjson,
      bind_isOk_iff.2 ⟨validator, hvalidator, _, rfl⟩⟩⟩

theorem buildToolGate_isOk_iff {tools : Config.ToolsConfig} {redactor : Redactor} :
    (∃ gate, buildToolGate env tools redactor = .ok gate) ↔
      (tools.enabled = true → ∀ spec ∈ tools.schemas, Loads env (.schema, spec.schemaPath)) := by
  unfold buildToolGate
  split
  next henabled =>
    have hload : (∃ schemas, tools.schemas.foldlM (loadToolSchema env) ∅ = .ok schemas) ↔
        ∀ spec ∈ tools.schemas, Loads env (.schema, spec.schemaPath) := by
      apply foldlM_isOk_iff
      intro schemas spec
      exact loadToolSchema_isOk_iff
    rw [forall_prop_of_true henabled, ← hload]
    exact bind_isOk_of_total fun _ => ⟨_, rfl⟩
  next henabled => exact ⟨fun _ h => absurd h henabled, fun _ => ⟨_, rfl⟩⟩

theorem forall_roles_iff {Q : FileRole × Text → Prop} :
    (∀ file ∈ roles cfg, Q file) ↔
      (∀ path ∈ cfg.bundlePath.filter fun p => !p.isEmpty, Q (.bundle, path)) ∧
      (cfg.input.keyword.engine = "aho-corasick".toList →
        ∀ path ∈ cfg.input.keyword.dictPaths, Q (.keywordDict, path)) ∧
      (∀ path ∈ cfg.input.pii.dictPaths, Q (.piiDict, path)) ∧
      (cfg.outputSchema.enabled = true →
        ∀ spec ∈ cfg.outputSchema.rules, Q (.schema, spec.schemaPath)) ∧
      (cfg.tools.enabled = true →
        ∀ spec ∈ cfg.tools.schemas, Q (.schema, spec.schemaPath)) := by
  unfold roles
  have hif : ∀ (c : Prop) [Decidable c] (files : List (FileRole × Text)),
      (∀ file ∈ if c then files else [], Q file) ↔ (c → ∀ file ∈ files, Q file) := by
    intro c _ files
    split
    next hc => exact ⟨fun h _ => h, fun h => h hc⟩
    next hc => exact ⟨fun _ h => absurd h hc, fun _ => nofun⟩
  simp only [List.forall_mem_append, List.forall_mem_map, hif, Option.mem_toList, Option.mem_def, and_assoc]

end Parts

/-- **A state can be built exactly if the configuration is sound and its files load.** -/
theorem buildAppState_isOk_iff {env : BuildEnv} {cfg : Config} {budget : Option BudgetStore} :
    (∃ st, buildAppState env cfg budget = .ok st) ↔
      Sound env cfg ∧ ∀ file ∈ roles cfg, Loads env file := by
  rw [forall_roles_iff]
  constructor
  · rintro ⟨st, h⟩
    obtain ⟨loaded, hloaded, h⟩ := bind_eq_ok.1 h
    obtain ⟨hrest, hengine, hpaths⟩ := loadPolicy_settings hloaded
    obtain ⟨matchers, hmatchers, h⟩ := bind_eq_ok.1 h
    obtain ⟨redactor, hredactor, h⟩ := bind_eq_ok.1 h
    obtain ⟨schema, hschema, h⟩ := bind_eq_ok.1 h
    obtain ⟨toolGate, htoolGate, h⟩ := bind_eq_ok.1 h
    obtain ⟨pool, hpool, -⟩ := bind_eq_ok.1 h
    have hmatchers := matchers_build_isOk_iff.1 ⟨matchers, hmatchers⟩
    rw [hengine, hpaths] at hmatchers
    rw [hrest] at hredactor hschema htoolGate hpool
    have hschema := buildSchema_isOk_iff.1 ⟨schema, hschema⟩
    refine ⟨⟨?_, fun henabled spec hspec => (hschema henabled spec hspec).2,
        Backend.resolve_isOk_iff.1 ⟨pool, hpool⟩⟩,
      loadPolicy_isOk_iff.1 ⟨loaded, hloaded⟩, ?_, buildRedactor_isOk_iff.1 ⟨redactor, hredactor⟩,
      fun henabled spec hspec => (hschema henabled spec hspec).1,
      buildToolGate_isOk_iff.1 ⟨toolGate, htoolGate⟩⟩
    · refine hmatchers.imp And.left fun ⟨hiword, hbuild⟩ => ⟨hiword, ?_⟩
      rintro loaded' hloaded'
      cases hloaded.symm.trans hloaded'
      exact hbuild
    intro hac
    rcases hmatchers with ⟨-, hdicts⟩ | ⟨hiword, -⟩
    · exact hdicts
    · rw [hiword] at hac
      exact absurd hac (by decide)
  · rintro ⟨hsound, hbundle, hdicts, hpii, hschemas, htools⟩
    obtain ⟨loaded, hloaded⟩ := loadPolicy_isOk_iff.2 hbundle
    obtain ⟨hrest, hengine, hpaths⟩ := loadPolicy_settings hloaded
    obtain ⟨matchers, hmatchers⟩ : ∃ m, Matchers.build env.eng env.unicode env.iword
        env.readToString loaded.1.input.keyword = .ok m := by
      rw [matchers_build_isOk_iff, hengine, hpaths]
      exact hsound.engine.imp (fun hac => ⟨hac, hdicts hac⟩)
        fun ⟨hiword, hbuild⟩ => ⟨hiword, hbuild loaded hloaded⟩
    obtain ⟨redactor, hredactor⟩ := buildRedactor_isOk_iff.2 hpii
    obtain ⟨schema, hschema⟩ := buildSchema_isOk_iff.2 fun henabled spec hspec =>
      ⟨hschemas henabled spec hspec, hsound.models henabled spec hspec⟩
    obtain ⟨toolGate, htoolGate⟩ : ∃ gate, buildToolGate env cfg.tools redactor = .ok gate :=
      buildToolGate_isOk_iff.2 htools
    obtain ⟨pool, hpool⟩ := Backend.resolve_isOk_iff.2 hsound.pool
    refine bind_isOk_iff.2 ⟨loaded, hloaded, bind_isOk_iff.2 ⟨matchers, hmatchers, ?_⟩⟩
    rw [hrest]
    exact bind_isOk_iff.2 ⟨redactor, hredactor, bind_isOk_iff.2 ⟨schema, hschema,
      bind_isOk_iff.2 ⟨toolGate, htoolGate, bind_isOk_iff.2 ⟨pool, hpool, _, rfl⟩⟩⟩⟩

end Nanoguard.Reload

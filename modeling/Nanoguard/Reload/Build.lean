import Nanoguard.AppState

/-!
# Building the server state

`buildAppState` makes a state from a configuration, at startup and again on every reload. It stops
at the first component that cannot be built. The files and the parsers and compilers of other crates
are parameters.
-/

namespace Nanoguard.Reload

open Guard (JsonText SchemaValidator ToolGate Validator)
open Matcher (IwordBuilder Matchers)
open Redact (PlaceholderStyle Redactor defaultInlinePatterns partitionByAction)
open Regex (Engine)

/-- What the build reads besides the configuration. -/
structure BuildEnv where
  eng : Engine
  unicode : Unicode
  iword : IwordBuilder
  readToString : Text → Except Text Text
  parseYaml : Text → Except Text Policy
  json : JsonText
  compileSchema : Json → Except Text Validator

/-! ## The parts that do not depend on the files -/

/-- Restoring needs distinct placeholders, so reversible redaction does not use bare ones. -/
def redactorStyle (pii : Config.PiiConfig) : PlaceholderStyle :=
  let configured := PlaceholderStyle.parseName pii.placeholderStyle
  if pii.reversible ∧ configured = .bare then .indexed else configured

def buildSpotlight (cfg : Config.SpotlightConfig) : Option Guard.SpotlightConfig :=
  if cfg.enabled then
    let method := (Guard.SpotlightMethod.parseName cfg.method).getD .datamarking
    let datamarkChar := cfg.datamarkChar.head?.getD '^'
    some
      { method
        untrustedRoles := cfg.untrustedRoles
        delimiterOpen := cfg.delimiterOpen
        delimiterClose := cfg.delimiterClose
        datamarkChar
        systemRider := cfg.systemRider.getD (Guard.defaultRider method datamarkChar) }
  else none

section Build

variable (env : BuildEnv)

/-! ## The parts read from files -/

/-- The configuration with the rules of the bundle, and the index of the bundle. -/
def loadPolicy (cfg : Config) : Except Text (Config × Option Policy.PolicyRuleIndex) :=
  match cfg.bundlePath.filter fun p => !p.isEmpty with
  | none => .ok (cfg, none)
  | some path => do
    let policy ← Policy.fromPath env.parseYaml env.readToString path
    let keyword := policy.mergeIntoKeywordConfig cfg.input.keyword
    return ({ cfg with input := { cfg.input with keyword } }, some (.fromPolicy policy))

def buildSchema (cfg : Config.OutputSchemaConfig) : Except Text (Option SchemaValidator) :=
  if cfg.enabled then do
    let rules ← Guard.loadRules env.eng env.readToString env.json env.compileSchema cfg.rules
    return some ⟨rules, .parseName cfg.onViolation⟩
  else .ok none

def loadToolSchema (schemas : AList (fun _ : Text => Validator)) (spec : Config.ToolSchemaSpec) :
    Except Text (AList (fun _ : Text => Validator)) := do
  let raw ← env.readToString spec.schemaPath
  let schemaJson ← env.json.fromStr raw
  let validator ← env.compileSchema schemaJson
  return schemas.insert spec.toolName validator

def buildToolGate (cfg : Config.ToolsConfig) (redactor : Redactor) :
    Except Text (Option ToolGate) :=
  if cfg.enabled then do
    let schemas ← cfg.schemas.foldlM (loadToolSchema env) ∅
    return some
      { allow := cfg.allow
        deny := cfg.deny
        schemas
        redactor
        rejectEntities := cfg.rejectEntities
        maskEntities := cfg.maskEntities }
  else .ok none

/-- The redactor of a configuration. It is made of the built-in patterns and the dictionaries. -/
def buildRedactor (pii : Config.PiiConfig) : Except Text Redactor :=
  Redactor.buildWithStyle env.eng env.unicode env.readToString defaultInlinePatterns pii.dictPaths
    (redactorStyle pii)

def buildAppState (cfg : Config) (budget : Option BudgetStore) : Except Text AppState := do
  let loaded ← loadPolicy env cfg
  let cfg := loaded.1
  let matchers ← Matchers.build env.eng env.unicode env.iword env.readToString cfg.input.keyword
  let redactor ← buildRedactor env cfg.input.pii
  let schema ← buildSchema env cfg.outputSchema
  let toolGate ← buildToolGate env cfg.tools redactor
  let pool ← Backend.resolve cfg.backend cfg.backends cfg.routing
  return {
    config := cfg
    matchers
    redactor
    piiActions :=
      partitionByAction redactor.entityNames cfg.input.pii.entities cfg.input.pii.action
    spotlight := buildSpotlight cfg.input.spotlight
    schema
    toolGate
    policy := loaded.2
    pool
    budget }

end Build

theorem buildAppState_parts {env : BuildEnv} {cfg : Config} {budget : Option BudgetStore}
    {st : AppState} (h : buildAppState env cfg budget = .ok st) :
    loadPolicy env cfg = .ok (st.config, st.policy) ∧
      Matchers.build env.eng env.unicode env.iword env.readToString st.config.input.keyword =
        .ok st.matchers ∧
      buildRedactor env st.config.input.pii = .ok st.redactor ∧
      st.piiActions = partitionByAction st.redactor.entityNames st.config.input.pii.entities
        st.config.input.pii.action := by
  obtain ⟨loaded, hloaded, h⟩ := bind_eq_ok.1 h
  obtain ⟨matchers, hmatchers, h⟩ := bind_eq_ok.1 h
  obtain ⟨redactor, hredactor, h⟩ := bind_eq_ok.1 h
  obtain ⟨schema, -, h⟩ := bind_eq_ok.1 h
  obtain ⟨toolGate, -, h⟩ := bind_eq_ok.1 h
  obtain ⟨pool, -, h⟩ := bind_eq_ok.1 h
  cases h
  exact ⟨hloaded, hmatchers, hredactor, rfl⟩

end Nanoguard.Reload

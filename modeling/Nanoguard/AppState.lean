import Nanoguard.Backend.Pool
import Nanoguard.Guard.Schema
import Nanoguard.Guard.Spotlight
import Nanoguard.Policy.Bundle

/-!
# Configuration and server state

The sections of the configuration that the request path reads, and the state built from them. The
sections for the server address, the output filter, the audit log, the budget database, client
authentication and the console are read elsewhere.
-/

namespace Nanoguard

open Guard (ToolGate)
open Matcher (KeywordConfig Matchers)
open Redact (ActionPartition PiiAction Redactor)

structure Config.PiiConfig where
  enabled : Bool
  action : PiiAction
  dictPaths : List Text
  placeholderStyle : Text
  entities : AList (fun _ : Text => PiiAction)
  reversible : Bool
  deanonymizeStrategy : Text

structure Config.SpotlightConfig where
  enabled : Bool
  method : Text
  untrustedRoles : List Text
  delimiterOpen : Text
  delimiterClose : Text
  datamarkChar : Text
  systemRider : Option Text

structure Config.InputConfig where
  enabled : Bool
  shadow : Bool
  keyword : KeywordConfig
  pii : Config.PiiConfig
  spotlight : Config.SpotlightConfig

structure Config.OutputSchemaConfig where
  enabled : Bool
  onViolation : Text
  rules : List Guard.RuleSpec

structure Config.ToolSchemaSpec where
  toolName : Text
  schemaPath : Text

structure Config.ToolsConfig where
  enabled : Bool
  allow : Option (List Text)
  deny : List Text
  schemas : List Config.ToolSchemaSpec
  rejectEntities : List Text
  maskEntities : List Text

structure Config where
  input : Config.InputConfig
  /-- the section `[output.schema]` -/
  outputSchema : Config.OutputSchemaConfig
  tools : Config.ToolsConfig
  /-- the bundle path of `[policies]` -/
  bundlePath : Option Text
  backend : Option Backend.BackendConfig
  backends : AList (fun _ : Text => Backend.BackendConfig)
  routing : Backend.RoutingConfig

/-! ## The budget -/

inductive BudgetCheck where
  | unlimited
  | ok (usage limit : Nat)
  | exceeded (usage limit : Nat)
  deriving DecidableEq, Repr

/-- A budget store at one moment. Each read may fail. -/
structure BudgetStore where
  getLimit : Text → Except Text (Option Nat)
  getUsage : Text → Except Text Nat

def BudgetStore.check (store : BudgetStore) (apiKey : Text) : Except Text BudgetCheck := do
  match ← store.getLimit apiKey with
  | none => return .unlimited
  | some limit =>
    let usage ← store.getUsage apiKey
    return if limit ≤ usage then .exceeded usage limit else .ok usage limit

/-! ## The state -/

structure AppState where
  config : Config
  matchers : Matchers
  redactor : Redactor
  piiActions : ActionPartition
  spotlight : Option Guard.SpotlightConfig
  schema : Option Guard.SchemaValidator
  toolGate : Option ToolGate
  policy : Option Policy.PolicyRuleIndex
  pool : Backend.BackendPool
  budget : Option BudgetStore

end Nanoguard

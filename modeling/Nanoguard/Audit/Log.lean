import Nanoguard.AppState

/-!
# The audit log

One line for each entry. An entry names the rule that refused a request, with the data of the policy
rule it comes from. The prompt is only kept as a digest.
-/

namespace Nanoguard.Audit

inductive Verdict where
  | allow
  | block
  deriving DecidableEq, Repr

structure AuditEntry where
  requestId : Text
  timestamp : Text
  apiKey : Text
  model : Text
  promptHash : Text
  verdict : Verdict
  matchedRule : Option Text
  ruleId : Option Text
  category : Option Text
  severity : Option Text
  compliance : List Text
  latencyUs : Nat
  deriving DecidableEq, Repr

/-- What an entry takes from outside: the identity of the request, the clock and the digest. -/
structure Stamp where
  requestId : Text
  timestamp : Text
  latencyUs : Nat
  /-- SHA-256 in hexadecimal digits -/
  hashPrompt : Text → Text

/-- The policy rule behind a match. A demoted rule is looked up without its mark. -/
def ruleMeta (st : AppState) (matchedRule : Option Text) : Option Policy.RuleMeta := do
  let idx ← st.policy
  let matched ← matchedRule
  let key := (Str.stripPrefix "shadow_block:".toList matched).getD matched
  (idx.lookupLiteral key).or (idx.lookupPlaceholder key)

def auditEntry (st : AppState) (stamp : Stamp) (apiKey model prompt : Text) (verdict : Verdict)
    (matchedRule : Option Text) : AuditEntry :=
  let rule := ruleMeta st matchedRule
  { requestId := stamp.requestId
    timestamp := stamp.timestamp
    apiKey
    model
    promptHash := stamp.hashPrompt prompt
    verdict
    matchedRule
    ruleId := rule.map (·.id)
    category := rule.map (·.category)
    severity := rule.map (·.severity)
    compliance := (rule.map (·.compliance)).getD []
    latencyUs := stamp.latencyUs }

def Verdict.name : Verdict → Text
  | .allow => "allow".toList
  | .block => "block".toList

/-- An entry as it is written. Data of a policy rule is left out if there is none. -/
def AuditEntry.toJson (entry : AuditEntry) : Json :=
  let optional (key : String) (value : Option Text) : List (Text × Json) :=
    (value.map fun text => (key.toList, Json.str text)).toList
  .obj ([("request_id".toList, .str entry.requestId), ("timestamp".toList, .str entry.timestamp),
    ("api_key".toList, .str entry.apiKey), ("model".toList, .str entry.model),
    ("prompt_hash".toList, .str entry.promptHash), ("verdict".toList, .str entry.verdict.name),
    ("matched_rule".toList, (entry.matchedRule.map Json.str).getD .null)] ++
    optional "rule_id" entry.ruleId ++ optional "category" entry.category ++
    optional "severity" entry.severity ++
    (if entry.compliance.isEmpty then []
      else [("compliance".toList, .arr (entry.compliance.map .str))]) ++
    [("latency_us".toList, .num (.posInt entry.latencyUs))])

end Nanoguard.Audit

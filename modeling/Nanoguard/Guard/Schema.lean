import Nanoguard.Guard.ToolGate

/-!
# Output schemas

The rules that say which answers are checked against which schema. A schema comes from a file; its
compiler is another crate's, and a compiled schema is the list of errors it reports for a value,
each with its path.
-/

namespace Nanoguard.Guard

open Regex (Engine)

abbrev Validator := Json → List Text

inductive ViolationAction where
  | reject
  | logOnly
  | repair
  deriving DecidableEq, Repr

def ViolationAction.parseName (s : Text) : ViolationAction :=
  let s := Str.toAsciiLowercase s
  if s = "reject".toList then .reject
  else if s = "repair".toList then .repair
  else .logOnly

structure RuleSpec where
  endpoint : Text
  modelPattern : Option Text
  schemaPath : Text
  name : Option Text

structure SchemaRule where
  endpoint : Text
  /-- `none` stands for any model -/
  modelPattern : Option Regex
  schema : Validator
  name : Text

structure SchemaValidator where
  rules : List SchemaRule
  onViolation : ViolationAction

/-- The first rule for the endpoint and the model. -/
def SchemaValidator.pick (v : SchemaValidator) (endpoint model : Text) : Option SchemaRule :=
  v.rules.find? fun r =>
    r.endpoint = endpoint && ((r.modelPattern.map fun re => re.isMatch model).getD true)

/-! ## Checking an answer -/

structure ValidationOutcome where
  passed : Bool
  errors : List Text
  /-- the value, if it was taken out of a wrapper -/
  extracted : Option Json

def validateValue (rule : SchemaRule) (value : Json) : ValidationOutcome :=
  let errors := rule.schema value
  { passed := errors.isEmpty, errors, extracted := none }

/-- The inside of a block in fences, without the line of the opening fence. -/
def fencedBody (trimmed : Text) : Option Text := do
  let rest ← Str.stripPrefix "```".toList trimmed
  let body :=
    match rest.findIdx? (· == '\n') with
    | some n => rest.drop (n + 1)
    | none => rest
  let stop ← Str.rfind "```".toList body
  return Str.trim (body.take stop)

/-- Take the JSON out of the wrappers that models put around it. -/
def extractJsonBlob (raw : Text) : Text :=
  let trimmed := Str.trim raw
  match fencedBody trimmed with
  | some body => body
  | none =>
    let isOpen := fun c => c == '\x7b' || c == '['
    let isClose := fun c => c == '\x7d' || c == ']'
    match trimmed.findIdx? isOpen, trimmed.reverse.findIdx? isClose with
    | some start, some fromEnd =>
      let stop := trimmed.length - 1 - fromEnd
      if start < stop then (trimmed.take (stop + 1)).drop start else trimmed
    | _, _ => trimmed

def validateResponseText (J : JsonText) (rule : SchemaRule) (raw : Text) : ValidationOutcome :=
  let cleaned := extractJsonBlob raw
  match J.fromStr cleaned with
  | .ok v => { validateValue rule v with extracted := if cleaned ≠ raw then some v else none }
  | .error e => { passed := false, errors := ["not valid JSON: ".toList ++ e], extracted := none }

example : extractJsonBlob "Here you go: [1, 2] Bye".toList = "[1, 2]".toList := by decide

section Load

variable (eng : Engine) (readToString : Text → Except Text Text) (J : JsonText)
  (compileSchema : Json → Except Text Validator)

def loadRule (spec : RuleSpec) : Except Text SchemaRule := do
  let raw ← (readToString spec.schemaPath).mapError fun _ =>
    "reading schema file ".toList ++ spec.schemaPath
  let schemaJson ← (J.fromStr raw).mapError fun _ =>
    "parsing schema JSON from ".toList ++ spec.schemaPath
  let schema ← (compileSchema schemaJson).mapError fun _ =>
    "compiling schema ".toList ++ spec.schemaPath
  let modelPattern ←
    match spec.modelPattern.filter fun p => !p.isEmpty with
    | none => .ok none
    | some p =>
      match eng.compile false p with
      | some regex => .ok (some regex)
      | none => .error ("compiling model pattern ".toList ++ p)
  return { endpoint := spec.endpoint, modelPattern, schema,
           name := spec.name.getD spec.schemaPath }

def loadRules (specs : List RuleSpec) : Except Text (List SchemaRule) :=
  specs.mapM (loadRule eng readToString J compileSchema)

end Load

end Nanoguard.Guard

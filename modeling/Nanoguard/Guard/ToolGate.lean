import Nanoguard.Proxy.Redact

/-!
# The tool gate

Decides about one tool call of a model: by its name, by the schema of its arguments, and by the
entities in the argument text.
-/

namespace Nanoguard.Guard

open Redact (Redactor)

/-- The JSON text functions of another crate. -/
structure JsonText where
  fromStr : Text → Except Text Json
  toText : Json → Text

/-- `Pattern::matches`: one star at the end or at the start. -/
def patternMatches (raw name : Text) : Bool :=
  match Str.stripSuffix ['*'] raw with
  | some head => decide (head <+: name)
  | none =>
    match Str.stripPrefix ['*'] raw with
    | some tail => decide (tail <:+ name)
    | none => raw == name

inductive ToolDecision where
  | allow
  | deny (reason : Text)
  | sanitize (redactedArgs : Json)

/-- A schema is the list of errors that its validator reports, each with its path. -/
structure ToolGate where
  /-- `none` allows everything that is not denied -/
  allow : Option (List Text)
  deny : List Text
  schemas : AList (fun _ : Text => Json → List Text)
  redactor : Redactor
  rejectEntities : List Text
  maskEntities : List Text

mutual

/-- Redact every string leaf. -/
def maskStringsInValue (redact : Text → Text) : Json → Json
  | .str s => .str (redact s)
  | .arr items => .arr (maskItems redact items)
  | .obj fields => .obj (maskFields redact fields)
  | value => value

def maskItems (redact : Text → Text) : List Json → List Json
  | [] => []
  | v :: items => maskStringsInValue redact v :: maskItems redact items

def maskFields (redact : Text → Text) : List (Text × Json) → List (Text × Json)
  | [] => []
  | (k, v) :: fields => (k, maskStringsInValue redact v) :: maskFields redact fields

end

namespace ToolGate

variable (J : JsonText) (gate : ToolGate)

def evaluate (name argsJsonStr : Text) : ToolDecision :=
  let tool := "tool `".toList ++ name ++ "`".toList
  if gate.deny.any (patternMatches · name) then .deny (tool ++ " is on the deny list".toList)
  else if gate.allow.any fun allow => !allow.any (patternMatches · name) then
    .deny (tool ++ " is not on the allow list".toList)
  else
    match J.fromStr argsJsonStr with
    | .error e => .deny (tool ++ " arguments are not valid JSON: ".toList ++ e)
    | .ok args =>
      let errors := ((gate.schemas.lookup name).map (· args)).getD []
      if !errors.isEmpty then
        .deny (tool ++ " arguments failed schema: ".toList ++ Str.join "; ".toList errors)
      else if !gate.rejectEntities.isEmpty &&
          gate.redactor.containsPiiIn argsJsonStr gate.rejectEntities then
        .deny (tool ++ " arguments contain rejected entity".toList)
      else if !gate.maskEntities.isEmpty &&
          gate.redactor.containsPiiIn argsJsonStr gate.maskEntities then
        .sanitize (maskStringsInValue (gate.redactor.redactTextIn · gate.maskEntities) args)
      else .allow

/-- A call as an object with `function.name` and the text `function.arguments`. -/
def evaluateOpenaiToolCall (tc : Json) : ToolDecision :=
  match tc.get "function".toList with
  | none => .deny "tool call missing function field".toList
  | some func =>
    match (func.get "name".toList).bind Json.asStr with
    | none => .deny "tool call missing function.name".toList
    | some name =>
      let argsRaw := ((func.get "arguments".toList).bind Json.asStr).getD "\x7b\x7d".toList
      gate.evaluate J name argsRaw

/-- A call as an object with `name` and the value `input`. -/
def evaluateAnthropicToolUse (tu : Json) : ToolDecision :=
  match (tu.get "name".toList).bind Json.asStr with
  | none => .deny "tool_use missing name".toList
  | some name => gate.evaluate J name (J.toText ((tu.get "input".toList).getD (.obj [])))

def denial (tc : Json) : Option Text :=
  match gate.evaluateOpenaiToolCall J tc with
  | .deny reason => some reason
  | _ => none

end ToolGate

end Nanoguard.Guard

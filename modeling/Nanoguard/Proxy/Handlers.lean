import Nanoguard.Audit.Log
import Nanoguard.Proxy.Anthropic
import Nanoguard.Proxy.StreamRestore
import Nanoguard.Proxy.Upstream

/-!
# The handlers of `/v1/chat/completions` and `/v1/messages`

From the request to the reply, with the audit entries and the spend records that are written on the
way. The input side is `chatInput` and `messagesInput`; this module adds the forwarding, the output
filter and the restoration of placeholders, the tool gate and the check against a schema. The two
handlers do these steps in different orders.
-/

namespace Nanoguard.Proxy

open Audit (AuditEntry Stamp Verdict auditEntry)
open Backend (BackendConfig)
open ClientAuth (ClientView)
open Guard (JsonText ToolGate ViolationAction validateResponseText)
open Matcher (OutputDictionary filterOutput)
open Vault (LocalVault)

section ToolCalls

variable (J : JsonText) (gate : ToolGate)

/-- The calls that are kept, with sanitized arguments, and a note for each call that is not. -/
def gateCalls : List Json → List Json × List Json
  | [] => ([], [])
  | tc :: calls =>
    let (kept, denials) := gateCalls calls
    match gate.evaluateOpenaiToolCall J tc with
    | .allow => (tc :: kept, denials)
    | .sanitize redactedArgs =>
      let tc := (tc.update "function".toList (fun st func =>
        (st, func.insert "arguments".toList (.str (J.toText redactedArgs)))) ()).2
      (tc :: kept, denials)
    | .deny reason =>
      let name := (((tc.get "function".toList).bind (·.get "name".toList)).bind Json.asStr).getD
        "?".toList
      (kept, .obj [("name".toList, .str name), ("reason".toList, .str reason)] :: denials)

def gateMessage (msg : Json) : Json :=
  match (msg.get "tool_calls".toList).bind Json.asArray with
  | none => msg
  | some calls =>
    let (kept, denials) := gateCalls J gate calls
    let msg := msg.insert "tool_calls".toList (.arr kept)
    if denials.isEmpty then msg else msg.insert "nanoguard_denied_tools".toList (.arr denials)

def applyToolGate (resp : Json) : Json :=
  (resp.update "choices".toList (fun st choices =>
    match choices with
    | .arr items => (st, .arr (items.map fun choice =>
        (choice.update "message".toList (fun st msg => (st, gateMessage J gate msg)) ()).2))
    | choices => (st, choices)) ()).2

end ToolCalls

/-! ## The schema of an answer -/

def firstContent (resp : Json) : Text :=
  ((((resp.get "choices".toList).bind Json.asArray).bind List.head?).bind messageContent).getD []

def setFirstContent (resp : Json) (content : Text) : Json :=
  (resp.update "choices".toList (fun st choices =>
    match choices with
    | .arr (first :: rest) => (st, .arr ((first.update "message".toList (fun st msg =>
        (st, msg.insert "content".toList (.str content))) ()).2 :: rest))
    | choices => (st, choices)) ()).2

/-- The rule that an answer breaks, and how; or the answer, if it keeps the rule or there is none. A
broken rule counts only if violations are rejected. -/
def checkSchema (J : JsonText) (st : AppState) (endpoint model : Text) (resp : Json) :
    Except (Text × List Text) Json :=
  match st.schema with
  | none => .ok resp
  | some validator =>
    match validator.pick endpoint model with
    | none => .ok resp
    | some rule =>
      let outcome := validateResponseText J rule (firstContent resp)
      if !outcome.passed then
        match validator.onViolation with
        | .reject => .error (rule.name, outcome.errors)
        | .logOnly | .repair => .ok resp
      else
        match outcome.extracted with
        | some value => .ok (setFirstContent resp (J.toText value))
        | none => .ok resp

/-! ## The surroundings of a handler -/

/-- What the handlers take from other crates and from the network. -/
structure ProxyEnv where
  unicode : Unicode
  json : JsonText
  fromSlice : Bytes → Except Text Json
  output : OutputDictionary
  /-- `Backend::forward_chat` -/
  send : BackendConfig → Json → Except Text BackendResponse

/-- The state as a request finds it. -/
structure Server where
  app : AppState
  /-- the switch of `[output]` -/
  outputEnabled : Bool
  /-- whether there is an audit log -/
  auditOpen : Bool

def Server.contentConfig (srv : Server) : ContentConfig where
  outputEnabled := srv.outputEnabled
  reversible := srv.app.config.input.pii.reversible
  deanonymizeStrategy := srv.app.config.input.pii.deanonymizeStrategy

def Server.writeAudit (srv : Server) (stamp : Stamp) (apiKey model prompt : Text) (verdict : Verdict)
    (matchedRule : Option Text) : List AuditEntry :=
  if srv.auditOpen then [auditEntry srv.app stamp apiKey model prompt verdict matchedRule] else []

/-- A reply, with what was written for it. -/
structure Handled (ρ : Type) where
  reply : ρ
  audit : List AuditEntry
  records : List SpendRecord

inductive ReplyBody where
  | json (body : Json)
  | bytes (body : Bytes)
  | stream (chunks : List Bytes)

def usageCount (resp : Json) (field : String) : Nat :=
  (((resp.get "usage".toList).bind (·.get field.toList)).bind Json.asU64).getD 0

/-! ## `/v1/chat/completions` -/

inductive ChatReply where
  | refused (refusal : Refusal)
  | exhausted (failed : Exhausted)
  | unreadable (error : Text)
  | schemaRejected (rule : Text) (errors : List Text)
  | streamed (status : Nat) (result : StreamResult)
  | answered (status : Nat) (body : Json)

def ChatReply.response : ChatReply → Nat × ReplyBody
  | .refused refusal => (refusal.chatResponse.1, .json refusal.chatResponse.2)
  | .exhausted failed =>
    match failed.last5xx with
    | some (status, body) => (status, .bytes body)
    | none => (502, .json (.obj [("error".toList, .obj [
        ("message".toList, .str (failed.lastErr.getD "all backends failed".toList)),
        ("type".toList, .str "api_error".toList),
        ("code".toList, .str "all_backends_failed".toList)])]))
  | .unreadable e => (502, .json (.obj [("error".toList, .str e)]))
  | .schemaRejected rule errors => (400, .json (.obj [("error".toList, .obj [
      ("message".toList, .str ("nanoguard: request blocked — response failed schema `".toList ++
        rule ++ "`: ".toList ++ Str.join "; ".toList errors)),
      ("type".toList, .str "content_filter".toList), ("code".toList, .str "blocked".toList)])]))
  | .streamed status result => (status, .stream result.sent)
  | .answered status body => (status, .json body)

section Chat

variable (E : ProxyEnv) (srv : Server) (stamp : Stamp) (now : Nat)

def gateAnswer (resp : Json) : Json :=
  match srv.app.toolGate with
  | some gate => applyToolGate E.json gate resp
  | none => resp

/-- The check of an answer that is not streamed. The schema sees the filtered and gated answer. -/
def checkChat (model : Text) (vault : LocalVault) (resp : Json) : Except (Text × List Text) Json :=
  let filtered := chatResponse E.unicode E.output srv.contentConfig vault.entryList resp
  checkSchema E.json srv.app "/v1/chat/completions".toList model (gateAnswer E srv filtered)

def finishChat (model : Text) (vault : LocalVault) (status : Nat) (resp : Json) : ChatReply :=
  match checkChat E srv model vault resp with
  | .error (rule, errors) => .schemaRejected rule errors
  | .ok body => .answered status body

def chatRecords (apiKey : Text) (resp : Json) : List SpendRecord :=
  if srv.app.budget.isSome then
    [{ apiKey
       promptTokens := usageCount resp "prompt_tokens"
       completionTokens := usageCount resp "completion_tokens"
       model := ((resp.get "model".toList).bind Json.asStr).getD "unknown".toList
       createdAt := now }]
  else []

def chatCompletions (client : Option ClientView) (body : Json) : Handled ChatReply :=
  let apiKey := chatApiKey client body
  let model := chatModel body
  let audit := srv.writeAudit stamp apiKey model (extractMessagesText body)
  match chatInput E.unicode srv.app client body with
  | .error refusal =>
    match refusal with
    | .blocked rule => ⟨.refused refusal, audit .block (some rule), []⟩
    | .piiRejected => ⟨.refused refusal, audit .block (some "pii".toList), []⟩
    | .budgetExceeded _ _ | .unrouted _ => ⟨.refused refusal, [], []⟩
  | .ok fwd =>
    match forward E.send fwd.body fwd.chain with
    | .error failed => ⟨.exhausted failed, [], []⟩
    | .ok resp =>
      if resp.isStream then
        -- the entry is written before the first chunk is read
        let result := chatStream E.json E.unicode E.output srv.contentConfig fwd.vault.entryList
          srv.app.budget.isSome srv.app.toolGate resp.failure resp.chunks
        ⟨.streamed resp.status result, audit .allow none, result.records apiKey now⟩
      else
        match resp.json E.fromSlice with
        | .error e => ⟨.unreadable e, [], []⟩
        | .ok json =>
          ⟨finishChat E srv model fwd.vault resp.status json, audit .allow none,
            chatRecords srv now apiKey json⟩

end Chat

/-! ## `/v1/messages` -/

inductive MessagesReply where
  | refused (refusal : MessagesRefusal)
  | exhausted (failed : Exhausted)
  | unreadable (error : Text)
  | schemaRejected (rule : Text)
  | answered (status : Nat) (body : Json)

def MessagesReply.response : MessagesReply → Nat × ReplyBody
  | .refused refusal => (refusal.response.1, .json refusal.response.2)
  | .exhausted failed => ((failed.last5xx.map Prod.fst).getD 502,
      apiError (failed.lastErr.getD "all backends failed".toList))
  | .unreadable e => (502, apiError e)
  | .schemaRejected rule =>
    (502, apiError ("response failed schema `".toList ++ rule ++ "`".toList))
  | .answered status body => (status, .json body)
where
  apiError (message : Text) : ReplyBody :=
    .json (MessagesRefusal.response.envelope "api_error" message)

def toolUseBlock (J : JsonText) (tc : Json) : Json :=
  let func := tc.get "function".toList
  let input := (((func.bind (·.get "arguments".toList)).bind Json.asStr).bind fun s =>
    (J.fromStr s).toOption).getD (.obj [])
  .obj [("type".toList, .str "tool_use".toList), ("id".toList, (tc.get "id".toList).getD .null),
    ("name".toList, (func.bind (·.get "name".toList)).getD (.str "unknown".toList)),
    ("input".toList, input)]

/-- The content blocks for a message and its text. There is always at least one. -/
def contentBlocks (J : JsonText) (message : Json) (text : Text) : List Json :=
  let textBlock (text : Text) := Json.obj [("type".toList, .str "text".toList),
    ("text".toList, .str text)]
  let texts := if text.isEmpty then [] else [textBlock text]
  let calls := (((message.get "tool_calls".toList).bind Json.asArray).getD []).map (toolUseBlock J)
  let denied := (message.get "nanoguard_denied_tools".toList).toList.map fun details =>
    Json.obj [("type".toList, .str "nanoguard_denied_tools".toList), ("details".toList, details)]
  let blocks := texts ++ calls ++ denied
  if blocks.isEmpty then [textBlock []] else blocks

section Messages

variable (E : ProxyEnv) (srv : Server) (now : Nat)

/-- The answer in the other format. -/
def messagesBody (model : Text) (vault : LocalVault) (resp : Json) : Json :=
  let message := (((((resp.get "choices".toList).bind Json.asArray).bind List.head?).bind
    (·.get "message".toList))).getD .null
  let raw := ((message.get "content".toList).bind Json.asStr).getD []
  let filtered := if srv.outputEnabled then filterOutput E.unicode E.output raw else raw
  let cfg := srv.contentConfig
  let text := if cfg.reversible then Guard.restore cfg.strategy vault filtered else filtered
  let usage (field : String) :=
    ((resp.get "usage".toList).bind (·.get field.toList)).getD (.num (.posInt 0))
  .obj [("id".toList, .str (((resp.get "id".toList).bind Json.asStr).getD "msg_nanoguard".toList)),
    ("type".toList, .str "message".toList), ("role".toList, .str "assistant".toList),
    ("model".toList, .str model), ("content".toList, .arr (contentBlocks E.json message text)),
    ("stop_reason".toList, .str (if (message.get "tool_calls".toList).isSome then
      "tool_use".toList else "end_turn".toList)),
    ("usage".toList, .obj [("input_tokens".toList, usage "prompt_tokens"),
      ("output_tokens".toList, usage "completion_tokens")])]

def finishMessages (model : Text) (vault : LocalVault) (status : Nat) (resp : Json) :
    MessagesReply :=
  let gated := gateAnswer E srv resp
  match checkSchema E.json srv.app "/v1/messages".toList model gated with
  | .error (rule, _) => .schemaRejected rule
  -- a cleaned answer is not used here
  | .ok _ => .answered status (messagesBody E srv model vault gated)

def messagesRecords (apiKey model : Text) (r : BackendResponse) (resp : Json) : List SpendRecord :=
  if r.isSuccess && srv.app.budget.isSome then
    [{ apiKey
       promptTokens := usageCount resp "prompt_tokens"
       completionTokens := usageCount resp "completion_tokens"
       model
       createdAt := now }]
  else []

/-- Nothing is written to the audit log. -/
def messages (client : Option ClientView) (req : AnthropicRequest) : Handled MessagesReply :=
  match messagesInput E.unicode srv.app client req with
  | .error refusal => ⟨.refused refusal, [], []⟩
  | .ok fwd =>
    match forward E.send fwd.body fwd.chain with
    | .error failed => ⟨.exhausted failed, [], []⟩
    | .ok resp =>
      match resp.json E.fromSlice with
      | .error e => ⟨.unreadable e, [], []⟩
      | .ok json =>
        ⟨finishMessages E srv req.model fwd.vault resp.status json, [],
          messagesRecords srv now (messagesApiKey client) req.model resp json⟩

end Messages

/-! ## Both endpoints -/

/-- A request for one of the two endpoints. -/
inductive Request where
  | chat (client : Option ClientView) (body : Json)
  | messages (client : Option ClientView) (req : AnthropicRequest)

inductive Reply where
  | chat (reply : ChatReply)
  | messages (reply : MessagesReply)

def handle (E : ProxyEnv) (srv : Server) (stamp : Stamp) (now : Nat) : Request → Handled Reply
  | .chat client body =>
    let h := chatCompletions E srv stamp now client body
    ⟨.chat h.reply, h.audit, h.records⟩
  | .messages client req =>
    let h := messages E srv now client req
    ⟨.messages h.reply, h.audit, h.records⟩

end Nanoguard.Proxy

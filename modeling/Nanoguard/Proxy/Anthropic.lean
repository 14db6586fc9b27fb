import Nanoguard.Proxy.InputPipeline

/-!
# The input side of `/v1/messages`

The adapter takes a request in another format, guards and redacts it there, and only then turns it
into a body for the backends. The system prompt is neither scanned nor redacted, and the blocks of a
message are redacted one by one.
-/

namespace Nanoguard.Proxy

open ClientAuth (ClientView)
open Vault (LocalVault)

structure AnthropicBlock where
  kind : Text
  text : Option Text
  deriving DecidableEq, Repr

inductive AnthropicContent where
  | text (s : Text)
  | blocks (bs : List AnthropicBlock)
  deriving DecidableEq, Repr

structure AnthropicMessage where
  role : Text
  content : AnthropicContent
  deriving DecidableEq, Repr

structure AnthropicRequest where
  model : Text
  messages : List AnthropicMessage
  maxTokens : Option Nat
  system : Option Text
  stream : Bool
  deriving DecidableEq, Repr

def AnthropicContent.texts : AnthropicContent → List Text
  | .text s => [s]
  | .blocks bs => bs.filterMap AnthropicBlock.text

def AnthropicContent.asText : AnthropicContent → Text
  | .text s => s
  | .blocks bs => Str.join [' '] (bs.filterMap AnthropicBlock.text)

def AnthropicRequest.userText (req : AnthropicRequest) : Text :=
  Str.join [' '] (req.messages.map fun m => m.content.asText)

section Mask

variable (st : AppState)

/-- Redact one text, with the vault in reversible mode. -/
def maskText (vault : LocalVault) (text : Text) : LocalVault × Text :=
  if st.config.input.pii.reversible then
    st.redactor.redactTextWithVault text st.piiActions.mask vault
  else (vault, st.redactor.redactTextIn text st.piiActions.mask)

def maskBlocks (vault : LocalVault) : List AnthropicBlock → LocalVault × List AnthropicBlock
  | [] => (vault, [])
  | b :: bs =>
    match b.text with
    | none =>
      let q := maskBlocks vault bs
      (q.1, b :: q.2)
    | some t =>
      let r := maskText st vault t
      let q := maskBlocks r.1 bs
      (q.1, { b with text := some r.2 } :: q.2)

def maskContent (vault : LocalVault) : AnthropicContent → LocalVault × AnthropicContent
  | .text s =>
    let r := maskText st vault s
    (r.1, .text r.2)
  | .blocks bs =>
    let r := maskBlocks st vault bs
    (r.1, .blocks r.2)

def maskMessages (vault : LocalVault) : List AnthropicMessage → LocalVault × List AnthropicMessage
  | [] => (vault, [])
  | m :: ms =>
    let r := maskContent st vault m.content
    let q := maskMessages r.1 ms
    (q.1, { m with content := r.2 } :: q.2)

def maskRequest (req : AnthropicRequest) : LocalVault × AnthropicRequest :=
  if st.config.input.pii.enabled && !st.piiActions.mask.isEmpty then
    let q := maskMessages st (newVault st) req.messages
    (q.1, { req with messages := q.2 })
  else (newVault st, req)

end Mask

/-! ## Translation -/

def oaiMessage (role text : Text) : Json :=
  .obj [("role".toList, .str role), ("content".toList, .str text)]

def oaiBody (model : Text) (stream : Bool) (maxTokens : Nat) (msgs : List (Text × Text)) : Json :=
  .obj [("model".toList, .str model),
    ("messages".toList, .arr (msgs.map fun m => oaiMessage m.1 m.2)),
    ("stream".toList, .bool stream), ("max_tokens".toList, .num (.posInt maxTokens))]

/-- The messages with their roles, the system prompt first. -/
def AnthropicRequest.oaiMessages (req : AnthropicRequest) : List (Text × Text) :=
  (req.system.toList.map fun s => ("system".toList, s)) ++
    req.messages.map fun m => (m.role, m.content.asText)

def AnthropicRequest.toOai (req : AnthropicRequest) : Json :=
  oaiBody req.model req.stream (req.maxTokens.getD 1024) req.oaiMessages

/-! ## The handler -/

inductive MessagesRefusal where
  | streamUnsupported
  | refused (refusal : Refusal)
  deriving DecidableEq, Repr

def MessagesRefusal.response : MessagesRefusal → Nat × Json
  | .streamUnsupported => (400, envelope "invalid_request_error"
      ("nanoguard: /v1/messages does not yet support stream=true; see README".toList))
  | .refused (.budgetExceeded usage limit) =>
    (429, envelope "rate_limit_error" (Refusal.budgetExceeded usage limit).message)
  | .refused refusal => (400, envelope "invalid_request_error" refusal.message)
where
  envelope (kind : String) (message : Text) : Json :=
    .obj [("type".toList, .str "error".toList), ("error".toList,
      .obj [("type".toList, .str kind.toList), ("message".toList, .str message)])]

def messagesApiKey (client : Option ClientView) : Text :=
  match client with
  | some view => view.budgetKey
  | none => "default".toList

section Handler

variable (U : Unicode) (st : AppState)

def messagesGuarded (client : Option ClientView) (req : AnthropicRequest) :
    Except Refusal Forward := do
  guardText U st req.userText
  let (vault, masked) := maskRequest st req
  let marked := spotlightBody st masked.toOai
  let chain ← checkAccess st (messagesApiKey client) req.model
  return ⟨marked, chain, vault⟩

def messagesInput (client : Option ClientView) (req : AnthropicRequest) :
    Except MessagesRefusal Forward :=
  if req.stream then .error .streamUnsupported
  else (messagesGuarded U st client req).mapError .refused

end Handler

end Nanoguard.Proxy

import Nanoguard.AppState
import Nanoguard.ClientAuth.Middleware

/-!
# The input side of `/v1/chat/completions`

Before a request is forwarded, its text is scanned for keywords and for entities that are rejected,
entities that are masked are redacted in the body, untrusted messages are marked, the budget of the
client is checked, and the backends for the model are looked up. The text that is scanned is the string
contents of the messages, joined by spaces.
-/

namespace Nanoguard.Proxy

open ClientAuth (ClientView)
open Matcher (InputVerdict Matchers)
open Redact (Redactor)
open Vault (LocalVault PlaceholderTemplate)

inductive Refusal where
  | blocked (rule : Text)
  | piiRejected
  | budgetExceeded (usage limit : Nat)
  | unrouted (model : Text)
  deriving DecidableEq, Repr

/-- What goes to the backends, and the vault that the answer is restored from. -/
structure Forward where
  body : Json
  chain : List Backend.BackendConfig
  vault : LocalVault

def Refusal.message : Refusal → Text
  | .blocked rule =>
    "nanoguard: request blocked — prompt injection detected (`".toList ++ rule ++ "`)".toList
  | .piiRejected => "nanoguard: request blocked — PII detected".toList
  | .budgetExceeded usage limit =>
    "nanoguard: token budget exceeded (".toList ++ Str.decimal usage ++ "/".toList ++
      Str.decimal limit ++ ")".toList
  | .unrouted model => "no backend configured for model `".toList ++ model ++ "`".toList

def Refusal.chatResponse (refusal : Refusal) : Nat × Json :=
  let (status, kind, code, param) := match refusal with
    | .blocked _ | .piiRejected => (400, "content_filter", "blocked", none)
    | .budgetExceeded _ _ => (429, "budget_exceeded", "budget_exceeded", none)
    | .unrouted _ => (400, "invalid_request_error", "model_unrouted", some "model")
  let param := param.toList.map fun (p : String) => ("param".toList, Json.str p.toList)
  (status, .obj [("error".toList, .obj ([("message".toList, .str refusal.message),
    ("type".toList, .str (String.toList kind))] ++ param ++
    [("code".toList, .str (String.toList code))]))])

def extractApiKey (body : Json) : Text :=
  ((body.get "user".toList).bind Json.asStr).getD "default".toList

def bodyMessages (body : Json) : List Json :=
  ((body.get "messages".toList).bind Json.asArray).getD []

def extractMessagesText (body : Json) : Text :=
  Str.join [' '] ((bodyMessages body).filterMap fun m => (m.get "content".toList).bind Json.asStr)

section Steps

variable (U : Unicode) (st : AppState)

def guardKeywords (text : Text) : Except Refusal Unit :=
  if st.config.input.enabled then
    match st.matchers.checkInputWithShadow U text st.config.input.shadow with
    | .blocked rule => .error (.blocked rule)
    | _ => .ok ()
  else .ok ()

def guardPii (text : Text) : Except Refusal Unit :=
  if st.config.input.pii.enabled && !st.piiActions.reject.isEmpty &&
      st.redactor.containsPiiIn text st.piiActions.reject then
    .error .piiRejected
  else .ok ()

/-- The checks that look at the text. -/
def guardText (text : Text) : Except Refusal Unit := do
  guardKeywords U st text
  guardPii st text

/-- The vault of a request; only one style of placeholders has its own template. -/
def newVault : LocalVault :=
  LocalVault.withStyle (match st.redactor.style with
    | .llmGuard => .llmGuard
    | _ => .indexed)

def maskBody (body : Json) : LocalVault × Json :=
  let vault := newVault st
  if st.config.input.pii.enabled && !st.piiActions.mask.isEmpty then
    if st.config.input.pii.reversible then
      let (vault, _, body) := st.redactor.redactMessagesWithVault body st.piiActions.mask vault
      (vault, body)
    else (vault, (st.redactor.redactMessagesIn body st.piiActions.mask).2)
  else (vault, body)

def spotlightBody (body : Json) : Json :=
  match st.spotlight with
  | some cfg => (Guard.Spotlight.apply cfg body).2
  | none => body

/-- The budget check; a budget that cannot be read does not refuse. -/
def checkBudget (apiKey : Text) : Except Refusal Unit :=
  match st.budget with
  | none => .ok ()
  | some store =>
    match store.check apiKey with
    | .ok (.exceeded usage limit) => .error (.budgetExceeded usage limit)
    | _ => .ok ()

def resolveChain (model : Text) : Except Refusal (List Backend.BackendConfig) :=
  let chain := st.pool.routeChain (some model)
  if chain.isEmpty then .error (.unrouted model) else .ok chain

/-- The checks that do not look at the text. -/
def checkAccess (apiKey model : Text) : Except Refusal (List Backend.BackendConfig) := do
  checkBudget st apiKey
  resolveChain st model

def chatApiKey (client : Option ClientView) (body : Json) : Text :=
  match client with
  | some view => view.budgetKey
  | none => extractApiKey body

def chatModel (body : Json) : Text :=
  ((body.get "model".toList).bind Json.asStr).getD "unknown".toList

def chatInput (client : Option ClientView) (body : Json) : Except Refusal Forward := do
  guardText U st (extractMessagesText body)
  let (vault, masked) := maskBody st body
  let marked := spotlightBody st masked
  let chain ← checkAccess st (chatApiKey client body) (chatModel body)
  return ⟨marked, chain, vault⟩

end Steps

/-! ## Refusing -/

section

variable {U : Unicode} {st : AppState}

/-- The text is refused by the guards that look at it. -/
def Offends (U : Unicode) (st : AppState) (text : Text) : Prop :=
  (st.config.input.enabled = true ∧ st.config.input.shadow = false ∧
      (st.matchers.checkInput U text).isBlocked = true) ∨
    (st.config.input.pii.enabled = true ∧
      st.redactor.containsPiiIn text st.piiActions.reject = true)

def Refused {α : Type} (outcome : Except Refusal α) : Prop := ∃ refusal, outcome = .error refusal

theorem refused_bind {α β : Type} (x : Except Refusal α) (f : α → Except Refusal β) :
    Refused (x >>= f) ↔ Refused x ∨ ∃ a, x = .ok a ∧ Refused (f a) := by
  unfold Refused
  cases x with
  | error refusal => simp [bind, Except.bind]
  | ok a => simp [bind, Except.bind]

theorem refused_guardKeywords (text : Text) :
    Refused (guardKeywords U st text) ↔
      st.config.input.enabled = true ∧ st.config.input.shadow = false ∧
        (st.matchers.checkInput U text).isBlocked = true := by
  unfold guardKeywords Matchers.checkInputWithShadow Refused
  cases st.config.input.enabled <;> cases st.config.input.shadow <;>
    cases st.matchers.checkInput U text <;> simp [InputVerdict.isBlocked]

theorem refused_guardPii (text : Text) :
    Refused (guardPii st text) ↔
      st.config.input.pii.enabled = true ∧
        st.redactor.containsPiiIn text st.piiActions.reject = true := by
  have hne : st.redactor.containsPiiIn text st.piiActions.reject = true →
      st.piiActions.reject.isEmpty = false := by
    unfold Redactor.containsPiiIn
    cases st.piiActions.reject with
    | nil => simp
    | cons e es => intro _; rfl
  unfold guardPii Refused
  split
  next h => simp_all
  next h =>
    simp only [reduceCtorEq, exists_false, false_iff, not_and]
    intro hpii hcontains
    exact h (by simp [hpii, hcontains, hne hcontains])

theorem refused_guardText (text : Text) : Refused (guardText U st text) ↔ Offends U st text := by
  unfold guardText Offends
  rw [refused_bind, refused_guardKeywords, refused_guardPii]
  constructor
  · intro h
    exact h.imp_right fun ⟨_, _, hpii⟩ => hpii
  · intro h
    cases hk : guardKeywords U st text with
    | error refusal => exact .inl ((refused_guardKeywords text).1 ⟨refusal, hk⟩)
    | ok u => exact h.imp_right fun hpii => ⟨u, rfl, hpii⟩

theorem refused_chatInput (client : Option ClientView) (body : Json) :
    Refused (chatInput U st client body) ↔
      Offends U st (extractMessagesText body) ∨
        Refused (checkAccess st (chatApiKey client body) (chatModel body)) := by
  unfold chatInput
  rw [refused_bind, refused_guardText]
  apply or_congr_right'
  intro hclean
  have hok : guardText U st (extractMessagesText body) = .ok () := by
    cases hguard : guardText U st (extractMessagesText body) with
    | error refusal => exact absurd ((refused_guardText _).1 ⟨refusal, hguard⟩) hclean
    | ok _ => rfl
  rw [hok]
  simp only [refused_bind]
  unfold Refused
  simp [pure, Except.pure]

end

end Nanoguard.Proxy

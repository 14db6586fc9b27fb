import Nanoguard.Proxy.Anthropic
import Nanoguard.Proxy.PromptScan

/-!
# Two endpoints, one pipeline?

A request to `/v1/messages` is compared with the translated body at `/v1/chat/completions`. The two
handlers share their checks but not the texts these are applied to: the second one scans the system
prompt too, and redacts whole messages, the system prompt included.
-/

namespace Nanoguard.Proxy

open List

open ClientAuth (ClientView)
open Vault (LocalVault)

section Bodies

variable {σ : Type}

def mapTexts (redact : σ → Text → σ × Text) (s : σ) : List (Text × Text) → σ × List (Text × Text)
  | [] => (s, [])
  | (role, text) :: msgs =>
    let r := redact s text
    let q := mapTexts redact r.1 msgs
    (q.1, (role, r.2) :: q.2)

theorem mapTexts_stateless (g : Text → Text) (s : σ) (msgs : List (Text × Text)) :
    mapTexts (fun s text => (s, g text)) s msgs = (s, msgs.map fun m => (m.1, g m.2)) := by
  induction msgs with
  | nil => rfl
  | cons m msgs ih => simp [mapTexts, ih]

theorem redactStr_str (redact : σ → Text → σ × Text) (s : σ × Bool) (text : Text) :
    (Redact.redactStr redact s (.str text)).1.1 = (redact s.1 text).1 ∧
      (Redact.redactStr redact s (.str text)).2 = .str (redact s.1 text).2 := by
  unfold Redact.redactStr
  by_cases h : (redact s.1 text).2 = text
  · simp [h]
  · simp [h]

theorem updateItems_oaiMessages (redact : σ → Text → σ × Text) (s : σ × Bool)
    (msgs : List (Text × Text)) :
    let q := Json.updateItems
      (fun st msg => msg.update "content".toList (Redact.redactContent redact) st) s
      (msgs.map fun m => oaiMessage m.1 m.2)
    q.1.1 = (mapTexts redact s.1 msgs).1 ∧
      q.2 = (mapTexts redact s.1 msgs).2.map fun m => oaiMessage m.1 m.2 := by
  induction msgs generalizing s with
  | nil => exact ⟨rfl, rfl⟩
  | cons m msgs ih =>
    have hmsg : (oaiMessage m.1 m.2).update "content".toList (Redact.redactContent redact) s =
        ((Redact.redactStr redact s (.str m.2)).1, .obj [("role".toList, .str m.1),
          ("content".toList, (Redact.redactStr redact s (.str m.2)).2)]) := rfl
    obtain ⟨hstate, hvalue⟩ := redactStr_str redact s m.2
    have hrest := ih (Redact.redactStr redact s (.str m.2)).1
    simp only [map_cons, Json.updateItems, hmsg, hvalue]
    rw [hstate] at hrest
    exact ⟨hrest.1, by rw [hrest.2]; rfl⟩

theorem redactMessagesBy_oaiBody (redact : σ → Text → σ × Text) (s : σ) (model : Text)
    (stream : Bool) (maxTokens : Nat) (msgs : List (Text × Text)) :
    (Redact.redactMessagesBy redact (oaiBody model stream maxTokens msgs) s).1.1 =
        (mapTexts redact s msgs).1 ∧
      (Redact.redactMessagesBy redact (oaiBody model stream maxTokens msgs) s).2 =
        oaiBody model stream maxTokens (mapTexts redact s msgs).2 := by
  obtain ⟨hstate, hitems⟩ := updateItems_oaiMessages redact (s, false) msgs
  refine ⟨hstate, ?_⟩
  unfold oaiBody
  rw [← hitems]
  rfl

end Bodies

section Shared

variable {U : Unicode} {st : AppState}

/-- The checks of a request that is scanned as `text` and sent as `sent`. -/
def pipeline (U : Unicode) (st : AppState) (apiKey model text : Text) (sent : LocalVault × Json) :
    Except Refusal Forward := do
  guardText U st text
  let chain ← checkAccess st apiKey model
  return ⟨sent.2, chain, sent.1⟩

/-- The same refusal, or the same message texts for the same backends. -/
def SameOutcome : Except MessagesRefusal Forward → Except Refusal Forward → Prop
  | .error (.refused refusal), .error refusal' => refusal = refusal'
  | .ok forward, .ok forward' =>
    forward.chain = forward'.chain ∧ promptTexts forward.body = promptTexts forward'.body
  | _, _ => False

/-- The refusals that look at the text. -/
def Refusal.isTextual : Refusal → Bool
  | .blocked _ | .piiRejected => true
  | .budgetExceeded _ _ | .unrouted _ => false

theorem isTextual_of_guardText {text : Text} {refusal : Refusal}
    (h : guardText U st text = .error refusal) : refusal.isTextual = true := by
  unfold guardText at h
  cases hkeywords : guardKeywords U st text with
  | error refusal' =>
    rw [hkeywords] at h
    cases h
    unfold guardKeywords at hkeywords
    grind [Refusal.isTextual]
  | ok u =>
    simp only [bind, Except.bind] at h
    unfold guardPii at h
    grind [Refusal.isTextual]

theorem not_isTextual_of_checkAccess {apiKey model : Text} {refusal : Refusal}
    (h : checkAccess st apiKey model = .error refusal) : refusal.isTextual = false := by
  unfold checkAccess at h
  cases hbudget : checkBudget st apiKey with
  | error refusal' =>
    rw [hbudget] at h
    cases h
    unfold checkBudget at hbudget
    grind [Refusal.isTextual]
  | ok u =>
    simp only [bind, Except.bind] at h
    unfold resolveChain at h
    grind [Refusal.isTextual]

theorem guardText_ne_checkAccess {text apiKey model : Text} {refusal refusal' : Refusal}
    (h : guardText U st text = .error refusal)
    (h' : checkAccess st apiKey model = .error refusal') : refusal ≠ refusal' := by
  intro heq
  have htext := isTextual_of_guardText h
  rw [heq, not_isTextual_of_checkAccess h'] at htext
  simp at htext

theorem sameOutcome_pipeline (apiKey model text text' : Text) (sent sent' : LocalVault × Json) :
    SameOutcome ((pipeline U st apiKey model text sent).mapError .refused)
        (pipeline U st apiKey model text' sent') ↔
      guardText U st text = guardText U st text' ∧
        (¬ Refused (guardText U st text) → ¬ Refused (checkAccess st apiKey model) →
          promptTexts sent.2 = promptTexts sent'.2) := by
  unfold pipeline
  cases hguard : guardText U st text with
  | error refusal =>
    have hrefused : Refused (.error refusal : Except Refusal Unit) := ⟨refusal, rfl⟩
    cases hguard' : guardText U st text' with
    | error refusal' => simp [SameOutcome, bind, Except.bind, Except.mapError, hrefused]
    | ok u =>
      cases haccess : checkAccess st apiKey model with
      | error refusal' =>
        have hne := guardText_ne_checkAccess hguard haccess
        simp [SameOutcome, bind, Except.bind, Except.mapError, hne]
      | ok chain => simp [SameOutcome, bind, Except.bind, Except.mapError, pure, Except.pure]
  | ok u =>
    cases hguard' : guardText U st text' with
    | error refusal' =>
      cases haccess : checkAccess st apiKey model with
      | error refusal =>
        have hne := (guardText_ne_checkAccess hguard' haccess).symm
        simp [SameOutcome, bind, Except.bind, Except.mapError, hne]
      | ok chain => simp [SameOutcome, bind, Except.bind, Except.mapError, pure, Except.pure]
    | ok u' =>
      cases haccess : checkAccess st apiKey model with
      | error refusal => simp [SameOutcome, bind, Except.bind, Except.mapError, Refused]
      | ok chain =>
        simp [SameOutcome, bind, Except.bind, Except.mapError, pure, Except.pure, Refused]

end Shared

section Chat

variable {U : Unicode} {st : AppState}

/-- The redaction of the texts of a translated request at the chat endpoint. -/
def maskOai (st : AppState) (msgs : List (Text × Text)) : LocalVault × List (Text × Text) :=
  if st.config.input.pii.enabled && !st.piiActions.mask.isEmpty then
    mapTexts (maskText st) (newVault st) msgs
  else (newVault st, msgs)

theorem maskBody_oaiBody (model : Text) (stream : Bool) (maxTokens : Nat)
    (msgs : List (Text × Text)) :
    maskBody st (oaiBody model stream maxTokens msgs) =
      ((maskOai st msgs).1, oaiBody model stream maxTokens (maskOai st msgs).2) := by
  unfold maskBody maskOai
  split
  · by_cases hrev : st.config.input.pii.reversible = true
    · have hmap : maskText st = fun vault text =>
          st.redactor.redactTextWithVault text st.piiActions.mask vault :=
        funext₂ fun _ _ => if_pos hrev
      obtain ⟨hvault, hbody⟩ := redactMessagesBy_oaiBody (maskText st) (newVault st) model stream
        maxTokens msgs
      rw [if_pos hrev]
      unfold Redact.Redactor.redactMessagesWithVault
      rw [← hmap, ← hvault, ← hbody]
    have hmap : maskText st = fun vault text =>
        (vault, st.redactor.redactTextIn text st.piiActions.mask) :=
      funext₂ fun _ _ => if_neg hrev
    rw [if_neg hrev, hmap, mapTexts_stateless]
    unfold Redact.Redactor.redactMessagesIn
    rw [(redactMessagesBy_oaiBody _ () model stream maxTokens msgs).2, mapTexts_stateless]
  · rfl

theorem extractMessagesText_oaiBody (model : Text) (stream : Bool) (maxTokens : Nat)
    (msgs : List (Text × Text)) :
    extractMessagesText (oaiBody model stream maxTokens msgs) =
      Str.join [' '] (msgs.map Prod.snd) := by
  have hmsgs : bodyMessages (oaiBody model stream maxTokens msgs) =
      msgs.map fun m => oaiMessage m.1 m.2 := rfl
  unfold extractMessagesText
  rw [hmsgs, filterMap_map]
  have hcontent : ((fun m : Json => (m.get "content".toList).bind Json.asStr) ∘
      fun m : Text × Text => oaiMessage m.1 m.2) = some ∘ Prod.snd := rfl
  rw [hcontent, filterMap_eq_map]

theorem chatInput_oaiBody (client : Option ClientView) (model : Text) (stream : Bool)
    (maxTokens : Nat) (msgs : List (Text × Text)) :
    chatInput U st client (oaiBody model stream maxTokens msgs) =
      pipeline U st (messagesApiKey client) model (Str.join [' '] (msgs.map Prod.snd))
        ((maskOai st msgs).1, spotlightBody st (oaiBody model stream maxTokens (maskOai st msgs).2)) := by
  have hkey : chatApiKey client (oaiBody model stream maxTokens msgs) = messagesApiKey client := by
    cases client <;> rfl
  have hmodel : chatModel (oaiBody model stream maxTokens msgs) = model := rfl
  unfold chatInput pipeline
  rw [extractMessagesText_oaiBody, maskBody_oaiBody, hkey, hmodel]

end Chat

/-! ## Comparison -/

/-- The texts that are sent for a request whose messages have been redacted to `msgs`. -/
def sentTexts (st : AppState) (req : AnthropicRequest) (msgs : List (Text × Text)) : List Text :=
  promptTexts (spotlightBody st (oaiBody req.model req.stream (req.maxTokens.getD 1024) msgs))

/-- The guards give one answer with and without the system prompt, and if the request gets past all
checks, redacting message by message and redacting block by block lead to the same texts. -/
structure PipelinesAgree (U : Unicode) (st : AppState) (client : Option ClientView)
    (req : AnthropicRequest) : Prop where
  guards : guardText U st req.userText =
    guardText U st (Str.join [' '] (req.oaiMessages.map Prod.snd))
  texts : ¬ Refused (guardText U st req.userText) →
    ¬ Refused (checkAccess st (messagesApiKey client) req.model) →
    sentTexts st req (maskRequest st req).2.oaiMessages =
      sentTexts st req (maskOai st req.oaiMessages).2

section Compare

variable {U : Unicode} {st : AppState}

theorem maskRequest_toOai (req : AnthropicRequest) :
    (maskRequest st req).2.toOai = oaiBody req.model req.stream (req.maxTokens.getD 1024)
      (maskRequest st req).2.oaiMessages := by
  unfold maskRequest AnthropicRequest.toOai
  split <;> rfl

theorem messagesInput_eq (client : Option ClientView) {req : AnthropicRequest}
    (hstream : req.stream = false) :
    messagesInput U st client req =
      (pipeline U st (messagesApiKey client) req.model req.userText
        ((maskRequest st req).1, spotlightBody st (maskRequest st req).2.toOai)).mapError
          .refused := by
  unfold messagesInput
  rw [hstream]
  rfl

end Compare

section Plain

variable (st : AppState)

theorem maskBlocks_textless {bs : List AnthropicBlock} (h : bs.filterMap AnthropicBlock.text = [])
    (vault : LocalVault) : maskBlocks st vault bs = (vault, bs) := by
  induction bs with
  | nil => rfl
  | cons b bs ih =>
    cases hb : b.text with
    | none =>
      rw [filterMap_cons_none hb] at h
      simp only [maskBlocks, hb, ih h]
    | some t =>
      rw [filterMap_cons_some hb] at h
      simp at h

theorem maskBlocks_single {bs : List AnthropicBlock} {t : Text}
    (h : bs.filterMap AnthropicBlock.text = [t]) (vault : LocalVault) :
    (maskBlocks st vault bs).1 = (maskText st vault t).1 ∧
      (maskBlocks st vault bs).2.filterMap AnthropicBlock.text = [(maskText st vault t).2] := by
  induction bs with
  | nil => simp at h
  | cons b bs ih =>
    cases hb : b.text with
    | none =>
      rw [filterMap_cons_none hb] at h
      obtain ⟨hvault, htexts⟩ := ih h
      simp only [maskBlocks, hb]
      exact ⟨hvault, by rw [filterMap_cons_none hb, htexts]⟩
    | some t' =>
      rw [filterMap_cons_some hb] at h
      obtain ⟨rfl, hrest⟩ := List.cons.inj h
      simp [maskBlocks, hb, maskBlocks_textless st hrest, hrest]

theorem maskContent_single {c : AnthropicContent} (h : c.texts.length = 1) (vault : LocalVault) :
    (maskContent st vault c).1 = (maskText st vault c.asText).1 ∧
      (maskContent st vault c).2.asText = (maskText st vault c.asText).2 := by
  cases c with
  | text s => exact ⟨rfl, rfl⟩
  | blocks bs =>
    obtain ⟨t, ht⟩ := length_eq_one_iff.1 h
    have hbs : bs.filterMap AnthropicBlock.text = [t] := ht
    have htext : (AnthropicContent.blocks bs).asText = t := by
      have hjoin : Str.join [' '] [t] = t := intercalate_singleton
      rw [AnthropicContent.asText, hbs, hjoin]
    obtain ⟨hvault, htexts⟩ := maskBlocks_single st hbs vault
    rw [htext]
    refine ⟨hvault, ?_⟩
    simp only [maskContent, AnthropicContent.asText, htexts]
    exact intercalate_singleton

theorem maskMessages_single {ms : List AnthropicMessage}
    (h : ∀ m ∈ ms, m.content.texts.length = 1) (vault : LocalVault) :
    (maskMessages st vault ms).2.map (fun m => (m.role, m.content.asText)) =
      (mapTexts (maskText st) vault (ms.map fun m => (m.role, m.content.asText))).2 := by
  induction ms generalizing vault with
  | nil => rfl
  | cons m ms ih =>
    obtain ⟨hvault, htext⟩ := maskContent_single st (h m mem_cons_self) vault
    have hrest := ih (forall_mem_cons.1 h).2 (maskContent st vault m.content).1
    simp only [maskMessages, map_cons, mapTexts, htext]
    rw [hrest, hvault]

/-- **Plain requests are treated alike**: without a system prompt, and with one text in each
message, the pipelines agree. -/
theorem pipelinesAgree_of_plain (U : Unicode) (client : Option ClientView)
    {req : AnthropicRequest} (hsystem : req.system = none)
    (hplain : ∀ m ∈ req.messages, m.content.texts.length = 1) :
    PipelinesAgree U st client req := by
  have hmsgs : req.oaiMessages = req.messages.map fun m => (m.role, m.content.asText) := by
    unfold AnthropicRequest.oaiMessages
    rw [hsystem]
    rfl
  constructor
  · rw [hmsgs, map_map]
    rfl
  · intro _ _
    unfold maskRequest maskOai
    split
    · rw [hmsgs, ← maskMessages_single st hplain]
      rw [hsystem]
      rfl
    · rfl

end Plain

section Examples

def exampleRequest (system : Option Text) : AnthropicRequest where
  model := "m".toList
  messages := [⟨"user".toList, .blocks [⟨"image".toList, none⟩, ⟨"text".toList, some "hi".toList⟩]⟩]
  maxTokens := none
  system := system
  stream := false

end Examples

end Nanoguard.Proxy

import Nanoguard.Proxy.Handlers
import Nanoguard.Proxy.PromptScan

/-!
# The shape that a schema guarantees

What is checked is the JSON inside the text of the first choice, without the prose or the fence
around it. `chat_completions` checks the text it sends and sends the JSON alone (`checkSchema_ok`);
`messages` checks the text of the backend, and then filters it, restores it and sends it whole.
-/

namespace Nanoguard.Proxy

open List

open Guard (JsonText SchemaRule extractJsonBlob validateResponseText)
open Matcher (filterOutput maskedSpans)
open Vault (LocalVault)

/-- The text is JSON and satisfies the schema of the rule. -/
def Conforms (J : JsonText) (rule : SchemaRule) (text : Text) : Prop :=
  ∃ v, J.fromStr text = .ok v ∧ rule.schema v = []

/-- The rule is picked, and violations are rejected. -/
def Rejecting (st : AppState) (endpoint model : Text) (rule : SchemaRule) : Prop :=
  ∃ validator, st.schema = some validator ∧ validator.pick endpoint model = some rule ∧
    validator.onViolation = .reject

section FirstText

def firstText (resp : Json) : Option Text :=
  (((resp.get "choices".toList).bind Json.asArray).bind List.head?).bind messageContent

theorem firstContent_eq (resp : Json) : firstContent resp = (firstText resp).getD [] := rfl

theorem firstText_eq_some {resp : Json} {text : Text} : firstText resp = some text ↔
    ∃ first rest msg, resp.get "choices".toList = some (.arr (first :: rest)) ∧
      first.get "message".toList = some msg ∧ msg.get "content".toList = some (.str text) := by
  constructor
  · intro h
    obtain ⟨first, hfirst, hcontent⟩ := Option.bind_eq_some_iff.1 h
    obtain ⟨items, hitems, hhead⟩ := Option.bind_eq_some_iff.1 hfirst
    obtain ⟨choices, hchoices, harray⟩ := Option.bind_eq_some_iff.1 hitems
    obtain ⟨content, hfield, hstr⟩ := Option.bind_eq_some_iff.1 hcontent
    obtain ⟨msg, hmsg, hcontent⟩ := Option.bind_eq_some_iff.1 hfield
    cases choices with
    | arr items' =>
      cases harray
      obtain ⟨rest, rfl⟩ := head?_eq_some_iff.1 hhead
      cases content with
      | str text' =>
        cases hstr
        exact ⟨first, rest, msg, hchoices, hmsg, hcontent⟩
      | _ => cases hstr
    | _ => cases harray
  · rintro ⟨first, rest, msg, hchoices, hmsg, hcontent⟩
    unfold firstText messageContent
    rw [hchoices]
    change ((first.get "message".toList).bind (·.get "content".toList)).bind Json.asStr = _
    rw [hmsg]
    change (msg.get "content".toList).bind Json.asStr = _
    rw [hcontent]
    rfl

theorem firstText_setFirstContent {resp : Json} {text : Text} (h : firstText resp = some text)
    (new : Text) : firstText (setFirstContent resp new) = some new := by
  obtain ⟨first, rest, msg, hchoices, hmsg, hcontent⟩ := firstText_eq_some.1 h
  have hset := (Json.update_of_some (f := fun (st : Unit) msg =>
    (st, Json.insert msg "content".toList (.str new))) () hmsg).2.1
  exact firstText_eq_some.2 ⟨_, rest, msg.insert "content".toList (.str new),
    (Json.update_of_some () hchoices).2.1, hset, Json.get_insert_self hcontent⟩

theorem get_content_gateMessage (J : JsonText) (gate : Guard.ToolGate) (msg : Json) :
    (gateMessage J gate msg).get "content".toList = msg.get "content".toList := by
  have hcalls : "content".toList ≠ "tool_calls".toList := by decide
  have hdenied : "content".toList ≠ "nanoguard_denied_tools".toList := by decide
  unfold gateMessage
  split
  · rfl
  dsimp only
  split
  · exact Json.get_insert_ne hcalls
  · rw [Json.get_insert_ne hdenied, Json.get_insert_ne hcalls]

theorem firstText_gateAnswer (E : ProxyEnv) (srv : Server) (resp : Json) :
    firstText (gateAnswer E srv resp) = firstText resp := by
  unfold gateAnswer
  cases srv.app.toolGate with
  | none => rfl
  | some gate =>
    dsimp only
    unfold firstText applyToolGate
    cases hchoices : resp.get "choices".toList with
    | none => rw [Json.update_of_none () hchoices, hchoices]
    | some choices =>
      generalize hstep : (fun (st : Unit) (choices : Json) => _) = step
      have hself := (Json.update_of_some (f := step) () hchoices).2.1
      rw [hself]
      subst hstep
      cases choices with
      | arr items =>
        cases items with
        | nil => rfl
        | cons first rest =>
          simp only [Option.bind_some, Json.asArray, map_cons, head?_cons]
          unfold messageContent
          cases hmsg : first.get "message".toList with
          | none => rw [Json.update_of_none () hmsg, hmsg]
          | some msg =>
            have hgated := (Json.update_of_some
              (f := fun st msg => (st, gateMessage E.json gate msg)) () hmsg).2.1
            rw [hgated, Option.bind_some, Option.bind_some, get_content_gateMessage]
      | _ => rfl

end FirstText

section Check

variable {J : JsonText} {rule : SchemaRule} {raw : Text}

theorem passed_iff : (validateResponseText J rule raw).passed = true ↔
    Conforms J rule (extractJsonBlob raw) := by
  unfold validateResponseText Conforms
  dsimp only
  split
  next v hv =>
    rw [hv]
    simp [Guard.validateValue]
  next e he =>
    rw [he]
    simp

theorem extracted_eq {v : Json} (hv : J.fromStr (extractJsonBlob raw) = .ok v) :
    (validateResponseText J rule raw).extracted =
      if extractJsonBlob raw ≠ raw then some v else none := by
  unfold validateResponseText
  dsimp only
  rw [hv]

/-- An answer that gets through has the JSON inside its text checked, and is changed to the JSON
alone. -/
theorem checkSchema_ok {st : AppState} {endpoint model : Text} {resp out : Json}
    (hrule : Rejecting st endpoint model rule)
    (h : checkSchema J st endpoint model resp = .ok out) :
    Conforms J rule (extractJsonBlob (firstContent resp)) ∧
      (extractJsonBlob (firstContent resp) = firstContent resp ∧ out = resp ∨
        ∃ v, J.fromStr (extractJsonBlob (firstContent resp)) = .ok v ∧
          out = setFirstContent resp (J.toText v)) := by
  obtain ⟨validator, hvalidator, hpick, hreject⟩ := hrule
  unfold checkSchema at h
  simp only [hvalidator, hpick, hreject] at h
  split at h
  · cases h
  next hpassed =>
    have hconforms : Conforms J rule (extractJsonBlob (firstContent resp)) :=
      passed_iff.1 (by simpa using hpassed)
    refine ⟨hconforms, ?_⟩
    obtain ⟨v, hv, -⟩ := hconforms
    rw [extracted_eq hv] at h
    by_cases hsame : extractJsonBlob (firstContent resp) = firstContent resp
    · simp only [hsame, ne_eq] at h
      cases h
      exact .inl ⟨hsame, rfl⟩
    · simp only [ne_eq, hsame] at h
      cases h
      exact .inr ⟨v, hv, rfl⟩

end Check

section TextBlock

def isTextBlock (block : Json) : Bool :=
  ((block.get "type".toList).bind Json.asStr) == some "text".toList

def textBlock (body : Json) : Option Text :=
  ((((body.get "content".toList).bind Json.asArray).getD []).find? isTextBlock).bind fun block =>
    (block.get "text".toList).bind Json.asStr

theorem isTextBlock_cons (kind : Text) (fields : List (Text × Json)) :
    isTextBlock (.obj (("type".toList, .str kind) :: fields)) = (kind == "text".toList) := by
  rfl

theorem isTextBlock_toolUse (J : JsonText) (tc : Json) :
    isTextBlock (toolUseBlock J tc) = false := by
  unfold toolUseBlock
  dsimp only
  rw [isTextBlock_cons]
  decide

theorem find_contentBlocks (J : JsonText) (message : Json) (text : Text) :
    ((contentBlocks J message text).find? isTextBlock).bind
        (fun block => (block.get "text".toList).bind Json.asStr) = some text ∨
      (contentBlocks J message text).find? isTextBlock = none ∧ text = [] := by
  unfold contentBlocks
  dsimp only
  by_cases htext : text = []
  · subst htext
    rw [if_pos isEmpty_nil]
    split
    · left
      rfl
    right
    refine ⟨?_, rfl⟩
    rw [find?_eq_none]
    intro block hblock
    rcases mem_append.1 hblock with hcall | hdenied
    · obtain ⟨tc, -, rfl⟩ := mem_map.1 hcall
      rw [isTextBlock_toolUse]
      decide
    · obtain ⟨details, -, rfl⟩ := mem_map.1 hdenied
      rw [isTextBlock_cons]
      decide
  · left
    rw [if_neg (mt List.isEmpty_iff.1 htext)]
    rfl

end TextBlock

section Messages

variable (E : ProxyEnv) (srv : Server) (vault : LocalVault)

/-- What the output filter and the restoration make of a text. -/
def servedText (raw : Text) : Text :=
  let filtered := if srv.outputEnabled then filterOutput E.unicode E.output raw else raw
  let cfg := srv.contentConfig
  if cfg.reversible then Guard.restore cfg.strategy vault filtered else filtered

/-- Nothing in the text is masked, and nothing can be restored. -/
def Untouched (raw : Text) : Prop :=
  (srv.outputEnabled = false ∨ maskedSpans E.unicode E.output raw = []) ∧
    (srv.contentConfig.reversible = false ∨ Vault.entries vault = [])

variable {E srv vault}

theorem servedText_of_untouched {raw : Text} (h : Untouched E srv vault raw) :
    servedText E srv vault raw = raw := by
  have hfilter : (if srv.outputEnabled then filterOutput E.unicode E.output raw else raw) = raw := by
    rcases h.1 with hoff | hspans
    · rw [if_neg (by simp [hoff])]
    have hfiltered : filterOutput E.unicode E.output raw = raw := by
      rw [Matcher.filterOutput_eq, Matcher.masked_unmarked, Matcher.map_fst_markOutput]
      intro x hx
      unfold Matcher.markOutput at hx
      rw [hspans] at hx
      obtain ⟨y, -, rfl⟩ := mem_map.1 hx
      rfl
    rw [hfiltered, ite_self]
  unfold servedText
  dsimp only
  rw [hfilter]
  rcases h.2 with hoff | hnone
  · rw [if_neg (by simp [hoff])]
  have hrestore : Guard.restore srv.contentConfig.strategy vault raw = raw := by
    unfold Guard.restore Vault.isEmpty
    rw [hnone]
    rfl
  rw [hrestore, ite_self]

theorem textBlock_messagesBody (model : Text) (resp : Json) :
    textBlock (messagesBody E srv model vault resp) =
        some (servedText E srv vault (firstContent resp)) ∨
      textBlock (messagesBody E srv model vault resp) = none ∧
        servedText E srv vault (firstContent resp) = [] := by
  set message := (((((resp.get "choices".toList).bind Json.asArray).bind List.head?).bind
    (·.get "message".toList))).getD .null with hmessage
  have hraw : ((message.get "content".toList).bind Json.asStr).getD [] = firstContent resp := by
    unfold firstContent messageContent
    rw [hmessage]
    cases ((resp.get "choices".toList).bind Json.asArray).bind List.head? with
    | none => rfl
    | some first =>
      rw [Option.bind_some, Option.bind_some]
      cases first.get "message".toList <;> rfl
  have hcontent : (messagesBody E srv model vault resp).get "content".toList =
      some (.arr (contentBlocks E.json message (servedText E srv vault (firstContent resp)))) := by
    rw [← hraw]
    rfl
  unfold textBlock
  rw [hcontent]
  rcases find_contentBlocks E.json message (servedText E srv vault (firstContent resp)) with
    hfound | ⟨hnone, hempty⟩
  · exact .inl hfound
  refine .inr ⟨?_, hempty⟩
  change (List.find? isTextBlock (contentBlocks E.json message _)).bind _ = none
  rw [hnone]
  rfl

end Messages

section Examples

def objectRule (endpoint : Text) : SchemaRule where
  endpoint := endpoint
  modelPattern := none
  schema v := match v with
    | .obj _ => []
    | _ => ["/: not an object".toList]
  name := "object".toList

def objectServer : Server where
  app := { exampleState with schema := some ⟨[objectRule "/v1/chat/completions".toList,
    objectRule "/v1/messages".toList], .reject⟩ }
  outputEnabled := false
  auditOpen := false

def objectEnv : ProxyEnv where
  unicode := .ascii
  json := compactJson
  fromSlice _ := .error []
  output := .plain
  send _ _ := .error []

def textAnswer (text : Text) : Json :=
  .obj [("choices".toList, .arr [.obj [("message".toList, .obj [("content".toList, .str text)])]])]

theorem objectServer_rejects (endpoint : Text) (h : endpoint = "/v1/chat/completions".toList ∨
    endpoint = "/v1/messages".toList) :
    Rejecting objectServer.app endpoint "m".toList (objectRule endpoint) := by
  rcases h with rfl | rfl
  · exact ⟨_, rfl, rfl, rfl⟩
  · exact ⟨_, rfl, rfl, rfl⟩

end Examples

end Nanoguard.Proxy

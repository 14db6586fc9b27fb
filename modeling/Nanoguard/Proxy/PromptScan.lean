import Nanoguard.Matcher.NormalForm
import Nanoguard.Proxy.InputPipeline

/-!
# What is scanned and what is forwarded

Redaction walks over string contents and over the text parts of array contents; the scanned text is
made of the string contents alone. A string content that offends by itself makes the request refused
(`offends_of_content`), a text part need not.
-/

namespace Nanoguard.Proxy

open List

open ClientAuth (ClientView)

/-! ## The texts of a prompt -/

def partTexts (parts : List Json) : List Text :=
  parts.filterMap fun part => (part.get "text".toList).bind Json.asStr

def contentTexts : Json → List Text
  | .str text => [text]
  | .arr parts => partTexts parts
  | _ => []

/-- Every text that redaction takes for a part of the prompt. -/
def promptTexts (body : Json) : List Text :=
  (bodyMessages body).flatMap fun m => ((m.get "content".toList).map contentTexts).getD []

def bodyPartTexts (body : Json) : List Text :=
  (bodyMessages body).flatMap fun m =>
    (((m.get "content".toList).bind Json.asArray).map partTexts).getD []

section Visit

variable {σ : Type} (redact : σ → Text → σ × Text)

theorem redactStr_state (st : σ × Bool) (value : Json) :
    (Redact.redactStr redact st value).1.1 =
      value.asStr.toList.foldl (fun s t => (redact s t).1) st.1 := by
  cases value with
  | str text =>
    unfold Redact.redactStr
    dsimp only
    split <;> rfl
  | _ => rfl

theorem redactContent_state (st : σ × Bool) (content : Json) :
    (Redact.redactContent redact st content).1.1 =
      (contentTexts content).foldl (fun s t => (redact s t).1) st.1 := by
  cases content with
  | arr parts =>
    have hpart (st : σ × Bool) (part : Json) :
        (part.update "text".toList (Redact.redactStr redact) st).1.1 =
          ((part.get "text".toList).bind Json.asStr).toList.foldl (fun s t => (redact s t).1)
            st.1 := by
      rw [Json.update_foldl Prod.fst _ (redactStr_state redact)]
      cases part.get "text".toList <;> rfl
    have hitems := Json.updateItems_foldl Prod.fst _ hpart st parts
    rw [← filterMap_eq_flatMap_toList] at hitems
    exact hitems
  | str text => exact redactStr_state redact st (.str text)
  | _ => rfl

theorem redactMessagesBy_state (body : Json) (s : σ) :
    (Redact.redactMessagesBy redact body s).1.1 =
      (promptTexts body).foldl (fun s t => (redact s t).1) s := by
  have hmsg (st : σ × Bool) (msg : Json) :
      (msg.update "content".toList (Redact.redactContent redact) st).1.1 =
        (((msg.get "content".toList).map contentTexts).getD []).foldl (fun s t => (redact s t).1)
          st.1 :=
    Json.update_foldl Prod.fst _ (redactContent_state redact) msg _ st
  unfold Redact.redactMessagesBy
  rw [Json.update_foldl Prod.fst (fun s t => (redact s t).1)
    (g := fun messages => (messages.asArray.getD []).flatMap
      fun m => ((m.get "content".toList).map contentTexts).getD [])]
  · unfold promptTexts bodyMessages
    cases body.get "messages".toList <;> rfl
  · intro st messages
    cases messages with
    | arr msgs => exact Json.updateItems_foldl Prod.fst _ hmsg st msgs
    | _ => rfl

end Visit

/-- A redaction that changes nothing and notes each text it is given. -/
def noteText (seen : List Text) (text : Text) : List Text × Text := (seen ++ [text], text)

theorem promptTexts_visited (body : Json) :
    (Redact.redactMessagesBy noteText body []).1.1 = promptTexts body := by
  rw [redactMessagesBy_state]
  unfold noteText
  rw [foldl_append_eq_append]
  exact flatMap_singleton' _

/-! ## Offending texts -/

section

variable {U : Unicode} {st : AppState}

/-- The rules that refuse a text do not depend on its ends. -/
structure RulesStable (st : AppState) : Prop where
  keywords : st.matchers.input.BlockStable
  entities : ∀ rule ∈ st.redactor.rules, rule.entity ∈ st.piiActions.reject →
    Str.WordStable rule.regex.isMatch

theorem Offends.of_wordsOf (hst : RulesStable st) {t u : Text} (h : Str.WordsOf t u)
    (hoff : Offends U st t) : Offends U st u := by
  apply hoff.imp
  · intro ⟨henabled, hshadow, hblock⟩
    exact ⟨henabled, hshadow, Matcher.Matchers.checkInput_wordsOf hst.keywords h hblock⟩
  · intro ⟨henabled, hcontains⟩
    refine ⟨henabled, ?_⟩
    unfold Redact.Redactor.containsPiiIn at hcontains ⊢
    rw [any_eq_true] at hcontains ⊢
    obtain ⟨rule, hrule, hhit⟩ := hcontains
    rw [Bool.and_eq_true, decide_eq_true_eq] at hhit
    refine ⟨rule, hrule, ?_⟩
    rw [Bool.and_eq_true, decide_eq_true_eq]
    exact ⟨hhit.1, hst.entities rule hrule hhit.1 t u h hhit.2⟩

theorem mem_promptTexts {body : Json} {t : Text} (h : t ∈ promptTexts body) :
    Str.WordsOf t (extractMessagesText body) ∨ t ∈ bodyPartTexts body := by
  obtain ⟨m, hm, ht⟩ := mem_flatMap.1 h
  cases hc : m.get "content".toList with
  | none =>
    rw [hc] at ht
    simp at ht
  | some content =>
    rw [hc, Option.map_some, Option.getD_some] at ht
    cases content with
    | str text =>
      left
      rw [contentTexts, mem_singleton] at ht
      apply Str.wordsOf_join
      exact mem_filterMap.2 ⟨m, hm, by rw [hc, ht]; rfl⟩
    | arr parts =>
      right
      exact mem_flatMap.2 ⟨m, hm, by rw [hc]; exact ht⟩
    | _ => simp [contentTexts] at ht

theorem mem_promptTexts_of_part {body : Json} {t : Text} (h : t ∈ bodyPartTexts body) :
    t ∈ promptTexts body := by
  obtain ⟨m, hm, ht⟩ := mem_flatMap.1 h
  refine mem_flatMap.2 ⟨m, hm, ?_⟩
  cases hc : m.get "content".toList with
  | none =>
    rw [hc] at ht
    simp at ht
  | some content =>
    rw [hc] at ht
    cases content with
    | arr parts => exact ht
    | _ => simp [Json.asArray] at ht

/-- **Which prompts with an offending text are refused**: all of them, exactly if an offending text
part comes with string contents that offend, or with a budget or a model that refuses. -/
theorem offending_prompt_refused_iff (U : Unicode) (st : AppState) (hst : RulesStable st)
    (client : Option ClientView) (body : Json) :
    ((∃ t ∈ promptTexts body, Offends U st t) → Refused (chatInput U st client body)) ↔
      ((∃ t ∈ bodyPartTexts body, Offends U st t) →
        Offends U st (extractMessagesText body) ∨
          Refused (checkAccess st (chatApiKey client body) (chatModel body))) := by
  rw [refused_chatInput]
  constructor
  · intro h ⟨t, ht, hoff⟩
    exact h ⟨t, mem_promptTexts_of_part ht, hoff⟩
  · intro h ⟨t, ht, hoff⟩
    rcases mem_promptTexts ht with hwords | hpart
    · exact .inl (hoff.of_wordsOf hst hwords)
    · exact h ⟨t, hpart, hoff⟩

end

section Joined

open Matcher

def stringContents (body : Json) : List Text :=
  (bodyMessages body).filterMap fun m => (m.get "content".toList).bind Json.asStr

/-- **Scanning the joined conversation loses nothing.** -/
theorem joined_contents_scanned (U : Unicode) (hlower : ∀ c, PlainLowercase U c)
    (opts : NormalizeConfig) (s : AcScanner) (msgs : List Text)
    (hplain : (∀ t ∈ msgs, Str.isAscii t = true) ∨ opts.nfkc = false) (body : Json)
    (hbody : stringContents body = msgs) :
    normalizeWith U opts (extractMessagesText body) =
        Str.join [' '] ((msgs.map (normalizeWith U opts)).filter (!·.isEmpty)) ∧
      ∀ t ∈ msgs, (AhoCorasick.find s.block.words (normalizeWith U opts t)).isSome = true →
        ((Matchers.mk (.ac s) opts).checkInput U (extractMessagesText body)).isBlocked = true := by
  have hjoin : extractMessagesText body = Str.join [' '] msgs := by
    rw [← hbody]
    rfl
  rw [hjoin]
  refine ⟨normalizeWith_join hlower hplain, ?_⟩
  intro t ht hliteral
  obtain ⟨word, hword, hin⟩ := AhoCorasick.find_isSome.1 hliteral
  refine (AcScanner.isBlocked_check s _).trans ((Bucket.hit_isSome s.block _).2 (.inl ?_))
  exact ⟨word, hword, hin.trans (normalizeWith_join_isInfix ht)⟩

/-- A blank message, one that is blocked, and an empty one. -/
theorem joined_contents_scanned_three :
    ((Matchers.mk (.ac ⟨⟨["jailbreak".toList], []⟩, ⟨[], []⟩, ⟨[], []⟩⟩)
        ⟨true, true, true, true⟩).checkInput .ascii " \n J-a-1-L-break  now ".toList).isBlocked =
      true := by
  have hlower : ∀ c, PlainLowercase .ascii c := by
    intro c hupper
    have hascii : c.toNat < 128 := by
      have hle : c.val ≤ 'Z'.val := by
        have hrange : decide (c.val ≥ 'A'.val ∧ c.val ≤ 'Z'.val) = true := hupper
        exact (of_decide_eq_true hrange).2
      exact Nat.lt_of_le_of_lt (UInt32.le_iff_toNat_le.1 hle) (by decide)
    exact plainLowercase_of_ascii hascii hupper
  let content (t : String) : Json := .obj [("content".toList, .str t.toList)]
  let body : Json := .obj [("messages".toList,
    .arr [content " \n", content "J-a-1-L-break  now", content ""])]
  have hscan := joined_contents_scanned .ascii hlower ⟨true, true, true, true⟩
    ⟨⟨["jailbreak".toList], []⟩, ⟨[], []⟩, ⟨[], []⟩⟩
    [" \n".toList, "J-a-1-L-break  now".toList, []] (.inl (by decide)) body rfl
  exact hscan.2 "J-a-1-L-break  now".toList (by decide) (by decide)

end Joined

section Examples

def exampleConfig : Config where
  input :=
    { enabled := true
      shadow := false
      keyword := ⟨"aho-corasick".toList, [], ["jailbreak".toList], [], [], {}⟩
      pii := ⟨true, .mask, [], "bare".toList, ∅, false, "exact".toList⟩
      spotlight := ⟨false, "datamarking".toList, ["tool".toList], [], [], "^".toList, none⟩ }
  outputSchema := ⟨false, "log".toList, []⟩
  tools := ⟨false, none, [], [], [], []⟩
  bundlePath := none
  backend := some ⟨"openai".toList, "http://localhost".toList, none, none⟩
  backends := ∅
  routing := ⟨none, []⟩

def exampleState : AppState where
  config := exampleConfig
  matchers := ⟨.ac ⟨⟨["jailbreak".toList], []⟩, ⟨[], []⟩, ⟨[], []⟩⟩, {}⟩
  redactor := ⟨[], .bare⟩
  piiActions := ⟨[], [], []⟩
  spotlight := none
  schema := none
  toolGate := none
  policy := none
  pool := ⟨(∅ : AList fun _ : Text => Backend.BackendConfig).insert "default".toList
    ⟨"openai".toList, "http://localhost".toList, none, none⟩, [], "default".toList⟩
  budget := none

def exampleBody (content : Json) : Json :=
  .obj [("model".toList, .str "m".toList), ("messages".toList,
    .arr [.obj [("role".toList, .str "user".toList), ("content".toList, content)]])]

theorem exampleState_stable : RulesStable exampleState where
  keywords := by
    intro rule hrule
    simp at hrule
  entities := by
    intro rule hrule
    simp [exampleState] at hrule

theorem exampleState_offends : Offends .ascii exampleState "a JailBreak".toList :=
  .inl ⟨rfl, rfl, by decide⟩

/-- With a string content the prompt is refused. -/
theorem offending_prompt_refused_string :
    Refused (chatInput .ascii exampleState none (exampleBody (.str "a JailBreak".toList))) := by
  apply (offending_prompt_refused_iff .ascii exampleState exampleState_stable none _).2
  · intro h
    obtain ⟨t, ht, -⟩ := h
    have hnone : bodyPartTexts (exampleBody (.str "a JailBreak".toList)) = [] := by decide
    rw [hnone] at ht
    simp at ht
  · exact ⟨"a JailBreak".toList, by decide, exampleState_offends⟩

/-- **An offending text part is forwarded**: the same text in an array content is not scanned. -/
theorem offending_part_forwarded :
    let body := exampleBody (.arr [.obj [("type".toList, .str "text".toList),
      ("text".toList, .str "a JailBreak".toList)]])
    "a JailBreak".toList ∈ promptTexts body ∧ Offends .ascii exampleState "a JailBreak".toList ∧
      ∃ forward, chatInput .ascii exampleState none body = .ok forward ∧
        promptTexts forward.body = ["a JailBreak".toList] :=
  ⟨by decide, exampleState_offends, _, rfl, by decide⟩

end Examples

end Nanoguard.Proxy

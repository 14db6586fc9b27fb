import Nanoguard.Proxy.PromptScan

/-!
# What a request keeps when it is rewritten

A request is redacted and then spotlighted. Redaction changes the texts of its messages only.
Spotlighting changes the texts of untrusted messages, all of them, and if there was one it adds the
rider to the messages.
-/

namespace Nanoguard.Proxy

open List

open Json (OnField OnItems)
open Guard (SpotlightConfig)
open Guard.Spotlight

variable {msg msg' body : Json} {msgs msgs' : List Json}

/-! ## Changes of texts -/

/-- A string is changed as `R` says; something else stays. -/
def OnText (R : Text → Text → Prop) (j j' : Json) : Prop :=
  (j.asStr = none ∧ j' = j) ∨ ∃ t t', j = .str t ∧ j' = .str t' ∧ R t t'

/-- The texts of a content are changed as `R` says: the content itself or the texts of its parts. -/
inductive OnContent (R : Text → Text → Prop) : Json → Json → Prop
  | parts {items items' : List Json} (h : List.Forall₂ (OnField "text".toList (OnText R)) items items') :
      OnContent R (.arr items) (.arr items')
  | single {j j' : Json} (harr : j.asArray = none) (h : OnText R j j') : OnContent R j j'

def OnMessage (R : Text → Text → Prop) : Json → Json → Prop := OnField "content".toList (OnContent R)

/-- The texts of the messages of a body are changed as `R` says, and nothing else is. -/
def OnTexts (R : Text → Text → Prop) : Json → Json → Prop :=
  OnField "messages".toList (OnItems (OnMessage R))

def messageTexts (msg : Json) : List Text := ((msg.get "content".toList).map contentTexts).getD []

section OnTexts

variable {R : Text → Text → Prop}

theorem OnText.eq_of_none {j j' : Json} (h : OnText R j j') (hnone : j.asStr = none) : j' = j := by
  rcases h with ⟨-, rfl⟩ | ⟨t, t', rfl, -, -⟩
  · rfl
  · cases hnone

theorem eq_of_partTexts_nil {parts parts' : List Json}
    (h : List.Forall₂ (OnField "text".toList (OnText R)) parts parts') (hnil : partTexts parts = []) :
    parts' = parts := by
  unfold partTexts at hnil
  rw [filterMap_eq_nil_iff] at hnil
  induction h with
  | nil => rfl
  | @cons part part' parts parts' hpart _ ih =>
    have hhead : part' = part := by
      refine hpart.eq_of_fixed fun v v' hget hv => hv.eq_of_none ?_
      have hpart := hnil part mem_cons_self
      rw [hget] at hpart
      exact hpart
    rw [hhead, ih (forall_mem_cons.1 hnil).2]

theorem OnContent.eq_of_nil {j j' : Json} (h : OnContent R j j') (hnil : contentTexts j = []) :
    j' = j := by
  cases h with
  | parts h => rw [eq_of_partTexts_nil h hnil]
  | single harr h =>
    cases j with
    | str t => cases hnil
    | _ => exact h.eq_of_none rfl

theorem OnMessage.eq_of_nil (h : OnMessage R msg msg') (hnil : messageTexts msg = []) :
    msg' = msg := by
  refine h.eq_of_fixed fun content content' hget hcontent => hcontent.eq_of_nil ?_
  unfold messageTexts at hnil
  rw [hget] at hnil
  exact hnil

theorem OnMessage.role_eq (h : OnMessage R msg msg') : role msg' = role msg := by
  unfold role
  rw [h.get_ne (by decide)]

theorem map_role_of_forall₂ {S : Json → Json → Prop} (hS : ∀ m m', S m m' → role m' = role m)
    (h : List.Forall₂ S msgs msgs') : msgs'.map role = msgs.map role := by
  induction h with
  | nil => rfl
  | cons hmsg _ ih => rw [map_cons, map_cons, hS _ _ hmsg, ih]

theorem OnTexts.roles {body' : Json} (h : OnTexts R body body') :
    (bodyMessages body').map role = (bodyMessages body).map role := by
  unfold bodyMessages
  cases hget : body.get "messages".toList with
  | none => rw [h.get_of_none hget, hget]
  | some messages =>
    obtain ⟨messages', hget', hitems⟩ := h.get_of_some hget
    rw [hget']
    rcases hitems with ⟨-, rfl⟩ | ⟨msgs, msgs', rfl, rfl, hmsgs⟩
    · rfl
    · exact map_role_of_forall₂ (fun _ _ hmsg => hmsg.role_eq) hmsgs

end OnTexts

section Redaction

variable {σ : Type} (redact : σ → Text → σ × Text)

/-- A text becomes its redaction, in some state. -/
def RedactedBy (t t' : Text) : Prop := ∃ s, t' = (redact s t).2

theorem onText_redactStr (st : σ × Bool) (j : Json) :
    OnText (RedactedBy redact) j (Redact.redactStr redact st j).2 := by
  cases j with
  | str t =>
    refine .inr ⟨t, (redact st.1 t).2, rfl, ?_, st.1, rfl⟩
    unfold Redact.redactStr
    dsimp only
    by_cases hsame : (redact st.1 t).2 ≠ t
    · rw [if_pos hsame]
    · -- a text that redaction leaves alone is its own redaction
      rw [if_neg hsame, not_not.1 hsame]
  | _ => exact .inl ⟨rfl, rfl⟩

theorem onContent_redactContent (st : σ × Bool) (j : Json) :
    OnContent (RedactedBy redact) j (Redact.redactContent redact st j).2 := by
  cases j with
  | arr parts =>
    refine .parts (Json.atItems_updateItems (fun st part => ?_) st parts)
    exact Json.onField_update (onText_redactStr redact st) part
  | str t => exact .single rfl (onText_redactStr redact st (.str t))
  | _ => exact .single rfl (.inl ⟨rfl, rfl⟩)

theorem onTexts_redactMessagesBy (body : Json) (s : σ) :
    OnTexts (RedactedBy redact) body (Redact.redactMessagesBy redact body s).2 := by
  refine Json.onField_update (fun messages => ?_) body
  cases messages with
  | arr msgs =>
    refine .inr ⟨msgs, _, rfl, rfl, Json.atItems_updateItems (fun st msg => ?_) _ msgs⟩
    exact Json.onField_update (onContent_redactContent redact st) msg
  | _ => exact .inl ⟨rfl, rfl⟩

end Redaction

section Marking

variable (cfg : SpotlightConfig)

/-- The role of a message is untrusted; a message without a role has the empty one. -/
def Untrusted (msg : Json) : Prop := (role msg).getD [] ∈ cfg.untrustedRoles

instance (msg : Json) : Decidable (Untrusted cfg msg) :=
  inferInstanceAs (Decidable (_ ∈ cfg.untrustedRoles))

/-- All texts of an untrusted message are transformed; another message stays. -/
structure Transformed (msg msg' : Json) : Prop where
  untrusted : Untrusted cfg msg → OnMessage (fun t t' => t' = transformContent cfg t) msg msg'
  trusted : ¬ Untrusted cfg msg → msg' = msg

/-- Some text is transformed. -/
def HasUntrustedText (msgs : List Json) : Prop :=
  ∃ msg ∈ msgs, Untrusted cfg msg ∧ messageTexts msg ≠ []

variable {cfg}

theorem Transformed.role_eq (h : Transformed cfg msg msg') : role msg' = role msg := by
  by_cases hrole : Untrusted cfg msg
  · exact (h.untrusted hrole).role_eq
  · rw [h.trusted hrole]

theorem eq_of_not_hasUntrustedText {marked : List Json}
    (h : List.Forall₂ (Transformed cfg) msgs marked) (hnone : ¬ HasUntrustedText cfg msgs) :
    marked = msgs := by
  induction h with
  | nil => rfl
  | @cons msg msg' msgs marked hmsg _ ih =>
    have hhead : msg' = msg := by
      by_cases hrole : Untrusted cfg msg
      · refine (hmsg.untrusted hrole).eq_of_nil ?_
        by_contra hne
        exact hnone ⟨msg, mem_cons_self, hrole, hne⟩
      · exact hmsg.trusted hrole
    have htail : ¬ HasUntrustedText cfg msgs := by
      rintro ⟨m, hm, htext⟩
      exact hnone ⟨m, mem_cons_of_mem msg hm, htext⟩
    rw [hhead, ih htail]

variable (cfg)

theorem onText_spotlightStr (wrapped : Bool) (j : Json) :
    OnText (fun t t' => t' = transformContent cfg t) j (spotlightStr cfg wrapped j).2 := by
  cases j with
  | str t => exact .inr ⟨t, _, rfl, rfl, rfl⟩
  | _ => exact .inl ⟨rfl, rfl⟩

theorem onContent_spotlightContent (wrapped : Bool) (j : Json) :
    OnContent (fun t t' => t' = transformContent cfg t) j (spotlightContent cfg wrapped j).2 := by
  cases j with
  | arr parts =>
    refine .parts (Json.atItems_updateItems (fun st part => ?_) wrapped parts)
    exact Json.onField_update (onText_spotlightStr cfg st) part
  | str t => exact .single rfl (onText_spotlightStr cfg wrapped (.str t))
  | _ => exact .single rfl (.inl ⟨rfl, rfl⟩)

theorem spotlightMessage_of_untrusted (h : Untrusted cfg msg) (wrapped : Bool) :
    spotlightMessage cfg wrapped msg =
      msg.update "content".toList (spotlightContent cfg) wrapped := if_pos h

theorem spotlightMessage_of_trusted (h : ¬ Untrusted cfg msg) (wrapped : Bool) :
    spotlightMessage cfg wrapped msg = (wrapped, msg) := if_neg h

theorem marked_spotlightMessage (wrapped : Bool) (msg : Json) :
    Transformed cfg msg (spotlightMessage cfg wrapped msg).2 := by
  by_cases hrole : Untrusted cfg msg
  · rw [spotlightMessage_of_untrusted cfg hrole]
    exact ⟨fun _ => Json.onField_update (onContent_spotlightContent cfg wrapped) msg,
      fun hnot => absurd hrole hnot⟩
  · rw [spotlightMessage_of_trusted cfg hrole]
    exact ⟨fun h => absurd h hrole, fun _ => rfl⟩

/-! The flag is set by the first text, whatever it was before. -/

theorem spotlightStr_flag (wrapped : Bool) (j : Json) :
    (spotlightStr cfg wrapped j).1 = j.asStr.toList.foldl (fun _ _ => true) wrapped := by
  cases j <;> rfl

theorem spotlightContent_flag (wrapped : Bool) (j : Json) :
    (spotlightContent cfg wrapped j).1 = (contentTexts j).foldl (fun _ _ => true) wrapped := by
  cases j with
  | arr parts =>
    have hpart (wrapped : Bool) (part : Json) :
        (part.update "text".toList (spotlightStr cfg) wrapped).1 =
          ((part.get "text".toList).bind Json.asStr).toList.foldl (fun _ _ => true) wrapped := by
      refine (Json.update_foldl id _ (spotlightStr_flag cfg) part _ wrapped).trans ?_
      cases part.get "text".toList <;> rfl
    have hitems := Json.updateItems_foldl id _ hpart wrapped parts
    rw [← filterMap_eq_flatMap_toList] at hitems
    exact hitems
  | _ => rfl

theorem spotlightMessage_flag (wrapped : Bool) (msg : Json) :
    (spotlightMessage cfg wrapped msg).1 =
      (if Untrusted cfg msg then messageTexts msg else []).foldl (fun _ _ => true) wrapped := by
  by_cases hrole : Untrusted cfg msg
  · rw [spotlightMessage_of_untrusted cfg hrole, if_pos hrole]
    exact Json.update_foldl id _ (spotlightContent_flag cfg) msg _ wrapped
  · rw [spotlightMessage_of_trusted cfg hrole, if_neg hrole]
    rfl

theorem foldl_true_iff {γ : Type} (l : List γ) :
    l.foldl (fun _ _ => true) false = true ↔ l ≠ [] := by
  cases l with
  | nil => simp
  | cons a l =>
    have htrue (l : List γ) : l.foldl (fun _ _ => true) true = true := by
      induction l with
      | nil => rfl
      | cons _ _ ih => exact ih
    simp [htrue]

theorem spotlightMessages_flag (msgs : List Json) :
    (Json.updateItems (spotlightMessage cfg) false msgs).1 = true ↔ HasUntrustedText cfg msgs := by
  have hflag : (Json.updateItems (spotlightMessage cfg) false msgs).1 = _ :=
    Json.updateItems_foldl id _ (spotlightMessage_flag cfg) false msgs
  rw [hflag, id_eq, foldl_true_iff, Ne, flatMap_eq_nil_iff]
  push Not
  refine exists_congr fun msg => and_congr_right fun _ => ?_
  by_cases hrole : Untrusted cfg msg
  · rw [if_pos hrole]
    exact (and_iff_right hrole).symm
  · rw [if_neg hrole]
    exact iff_of_false (fun h => h rfl) fun h => hrole h.1

end Marking

section Rider

/-- A system message with a string or an array content. -/
def TakesRider (msg : Json) : Prop :=
  role msg = some "system".toList ∧
    ∃ content, msg.get "content".toList = some content ∧
      (content.asStr.isSome ∨ content.asArray.isSome)

/-- The rider stands at the end of a content. -/
inductive WithRider (rider : Text) : Json → Json → Prop
  | text (t : Text) : WithRider rider (.str t) (.str (t ++ "\n\n".toList ++ rider))
  | part (parts : List Json) : WithRider rider (.arr parts)
      (.arr (parts ++ [.obj [("type".toList, .str "text".toList), ("text".toList, .str rider)]]))

/-- The rider is in the first message that takes it, or in a new first message. -/
inductive RiderAdded (rider : Text) : List Json → List Json → Prop
  | system {before after : List Json} {msg msg' : Json} (hbefore : ∀ m ∈ before, ¬ TakesRider m)
      (htakes : TakesRider msg) (h : OnField "content".toList (WithRider rider) msg msg') :
      RiderAdded rider (before ++ msg :: after) (before ++ msg' :: after)
  | fresh {msgs : List Json} (hnone : ∀ m ∈ msgs, ¬ TakesRider m) : RiderAdded rider msgs
      (.obj [("role".toList, .str "system".toList), ("content".toList, .str rider)] :: msgs)

variable (rider : Text)

theorem addRider_some {content content' : Json} (h : addRider rider content = some content') :
    WithRider rider content content' := by
  cases content with
  | str t =>
    cases h
    exact .text t
  | arr parts =>
    cases h
    exact .part parts
  | _ => cases h

theorem addRider_none {content : Json} (h : addRider rider content = none) :
    ¬ (content.asStr.isSome ∨ content.asArray.isSome) := by
  cases content with
  | str t => cases h
  | arr parts => cases h
  | _ => simp [Json.asStr, Json.asArray]

/-- What one message makes of the rider. -/
def riderContent (msg : Json) : Option Json :=
  if role msg = some "system".toList then (msg.get "content".toList).bind (addRider rider) else none

theorem riderContent_none (h : riderContent rider msg = none) : ¬ TakesRider msg := by
  rintro ⟨hrole, content, hget, htakes⟩
  unfold riderContent at h
  rw [if_pos hrole, hget] at h
  exact addRider_none rider h htakes

theorem riderContent_some {content' : Json} (h : riderContent rider msg = some content') :
    TakesRider msg ∧ ∃ content, msg.get "content".toList = some content ∧
      WithRider rider content content' := by
  unfold riderContent at h
  split at h
  next hrole =>
    obtain ⟨content, hget, hadd⟩ := Option.bind_eq_some_iff.1 h
    have hwith := addRider_some rider hadd
    refine ⟨⟨hrole, content, hget, ?_⟩, content, hget, hwith⟩
    cases hwith with
    | text t => exact .inl rfl
    | part parts => exact .inr rfl
  · cases h

theorem addToSystem_cons (msg : Json) (msgs : List Json) :
    addToSystem rider (msg :: msgs) =
      match riderContent rider msg with
      | some content =>
        some ((msg.update "content".toList (fun (_ : Unit) _ => ((), content)) ()).2 :: msgs)
      | none => (addToSystem rider msgs).map (msg :: ·) := rfl

theorem addToSystem_none (h : addToSystem rider msgs = none) : ∀ m ∈ msgs, ¬ TakesRider m := by
  induction msgs with
  | nil => exact nofun
  | cons msg msgs ih =>
    rw [addToSystem_cons] at h
    cases hrider : riderContent rider msg with
    | some content =>
      rw [hrider] at h
      cases h
    | none =>
      rw [hrider] at h
      rw [forall_mem_cons]
      exact ⟨riderContent_none rider hrider, ih (Option.map_eq_none_iff.1 h)⟩

theorem addToSystem_some (h : addToSystem rider msgs = some msgs') :
    ∃ before msg msg' after, msgs = before ++ msg :: after ∧ msgs' = before ++ msg' :: after ∧
      (∀ m ∈ before, ¬ TakesRider m) ∧ TakesRider msg ∧
        OnField "content".toList (WithRider rider) msg msg' := by
  induction msgs generalizing msgs' with
  | nil => cases h
  | cons msg msgs ih =>
    rw [addToSystem_cons] at h
    cases hrider : riderContent rider msg with
    | some content' =>
      rw [hrider] at h
      cases h
      obtain ⟨htakes, content, hget, hwith⟩ := riderContent_some rider hrider
      exact ⟨[], msg, _, msgs, rfl, rfl, nofun, htakes, Json.onField_update_of_some () hget hwith⟩
    | none =>
      rw [hrider] at h
      obtain ⟨rest, hrest, rfl⟩ := Option.map_eq_some_iff.1 h
      obtain ⟨before, m, m', after, rfl, rfl, hbefore, htakes, hcontent⟩ := ih hrest
      -- the message found further on is still the first one
      exact ⟨msg :: before, m, m', after, rfl, rfl,
        forall_mem_cons.2 ⟨riderContent_none rider hrider, hbefore⟩, htakes, hcontent⟩

theorem riderAdded_injectSystemRider {rider : Text} (hrider : rider ≠ []) (msgs : List Json) :
    RiderAdded rider msgs (injectSystemRider rider msgs) := by
  unfold injectSystemRider
  rw [if_neg (by rwa [List.isEmpty_iff])]
  cases hadd : addToSystem rider msgs with
  | none => exact .fresh (addToSystem_none rider hadd)
  | some msgs' =>
    obtain ⟨before, msg, msg', after, rfl, rfl, hbefore, htakes, hcontent⟩ :=
      addToSystem_some rider hadd
    exact .system hbefore htakes hcontent

theorem RiderAdded.roles {rider : Text} (h : RiderAdded rider msgs msgs') :
    msgs'.map role = msgs.map role ∨
      msgs'.map role = some "system".toList :: msgs.map role := by
  cases h with
  | @system before after msg msg' _ _ hcontent =>
    have hrole : role msg' = role msg := by
      unfold role
      rw [hcontent.get_ne (by decide)]
    refine .inl ?_
    rw [map_append, map_append, map_cons, map_cons, hrole]
  | fresh _ => exact .inr rfl

end Rider

section Rewrite

variable (cfg : SpotlightConfig)

/-- The untrusted messages are marked, and the rider is added if a text was transformed. -/
def SpotlitList (msgs msgs' : List Json) : Prop :=
  ∃ marked, List.Forall₂ (Transformed cfg) msgs marked ∧
    (HasUntrustedText cfg msgs ∧ cfg.systemRider ≠ [] → RiderAdded cfg.systemRider marked msgs') ∧
    (¬ (HasUntrustedText cfg msgs ∧ cfg.systemRider ≠ []) → msgs' = marked)

/-- A list of messages is spotlighted; something else stays. -/
def SpotlitMessages (j j' : Json) : Prop :=
  (j.asArray = none ∧ j' = j) ∨
    ∃ msgs msgs', j = .arr msgs ∧ j' = .arr msgs' ∧ SpotlitList cfg msgs msgs'

variable {cfg}

theorem SpotlitList.roles (h : SpotlitList cfg msgs msgs') :
    msgs'.map role = msgs.map role ∨
      msgs'.map role = some "system".toList :: msgs.map role := by
  obtain ⟨marked, hmarked, hrider, hplain⟩ := h
  rw [← map_role_of_forall₂ (fun _ _ hmsg => hmsg.role_eq) hmarked]
  by_cases hadd : HasUntrustedText cfg msgs ∧ cfg.systemRider ≠ []
  · exact (hrider hadd).roles
  · exact .inl (by rw [hplain hadd])

theorem SpotlitList.eq_of_none (h : SpotlitList cfg msgs msgs')
    (hnone : ¬ HasUntrustedText cfg msgs) : msgs' = msgs := by
  obtain ⟨marked, hmarked, -, hplain⟩ := h
  rw [hplain fun hadd => hnone hadd.1, eq_of_not_hasUntrustedText hmarked hnone]

variable (cfg)

theorem spotlitList_spotlightMessages (msgs : List Json) :
    SpotlitList cfg msgs
      (if (Json.updateItems (spotlightMessage cfg) false msgs).1 then
        injectSystemRider cfg.systemRider (Json.updateItems (spotlightMessage cfg) false msgs).2
      else (Json.updateItems (spotlightMessage cfg) false msgs).2) := by
  have hflag := spotlightMessages_flag cfg msgs
  refine ⟨(Json.updateItems (spotlightMessage cfg) false msgs).2,
    Json.atItems_updateItems (marked_spotlightMessage cfg) false msgs, ?_, ?_⟩
  · rintro ⟨htext, hrider⟩
    rw [if_pos (hflag.2 htext)]
    exact riderAdded_injectSystemRider hrider _
  intro hnone
  by_cases htext : HasUntrustedText cfg msgs
  · -- an empty rider is not added
    have hempty : cfg.systemRider = [] := by
      by_contra hrider
      exact hnone ⟨htext, hrider⟩
    rw [if_pos (hflag.2 htext), hempty]
    rfl
  · rw [if_neg (fun h => htext (hflag.1 h))]

/-- **Spotlighting marks the untrusted messages and adds the rider**, and changes nothing else. -/
theorem spotlit_apply (body : Json) :
    OnField "messages".toList (SpotlitMessages cfg) body (apply cfg body).2 := by
  refine Json.onField_update (fun messages => ?_) body
  cases messages with
  | arr msgs => exact .inr ⟨msgs, _, rfl, rfl, spotlitList_spotlightMessages cfg msgs⟩
  | _ => exact .inl ⟨rfl, rfl⟩

theorem apply_flag (body : Json) :
    (apply cfg body).1 = true ↔ HasUntrustedText cfg (bodyMessages body) := by
  have hnil : ¬ HasUntrustedText cfg [] := fun ⟨msg, hmem, _⟩ => not_mem_nil hmem
  unfold apply bodyMessages
  cases hget : body.get "messages".toList with
  | none =>
    rw [Json.update_of_none false hget]
    exact iff_of_false Bool.false_ne_true hnil
  | some messages =>
    rw [(Json.update_of_some false hget).1]
    cases messages with
    | arr msgs => exact spotlightMessages_flag cfg msgs
    | _ => exact iff_of_false Bool.false_ne_true hnil

theorem apply_of_not_flag (h : (apply cfg body).1 = false) : (apply cfg body).2 = body := by
  have hnone : ¬ HasUntrustedText cfg (bodyMessages body) := by
    rw [← apply_flag, h]
    exact Bool.false_ne_true
  refine (spotlit_apply cfg body).eq_of_fixed fun messages messages' hget hspotlit => ?_
  rcases hspotlit with ⟨-, rfl⟩ | ⟨msgs, msgs', rfl, rfl, hlist⟩
  · rfl
  · unfold bodyMessages at hnone
    rw [hget] at hnone
    rw [hlist.eq_of_none hnone]

theorem apply_roles (body : Json) :
    (bodyMessages (apply cfg body).2).map role = (bodyMessages body).map role ∨
      (bodyMessages (apply cfg body).2).map role =
        some "system".toList :: (bodyMessages body).map role := by
  have hspotlit := spotlit_apply cfg body
  unfold bodyMessages
  cases hget : body.get "messages".toList with
  | none =>
    rw [hspotlit.get_of_none hget, hget]
    exact .inl rfl
  | some messages =>
    obtain ⟨messages', hget', hmessages⟩ := hspotlit.get_of_some hget
    rw [hget']
    rcases hmessages with ⟨-, rfl⟩ | ⟨msgs, msgs', rfl, rfl, hlist⟩
    · exact .inl rfl
    · exact hlist.roles

/-- What happens to a body that is redacted and then spotlighted. -/
structure Rewritten (R : Text → Text → Prop) (body redacted : Json) : Prop where
  texts : OnTexts R body redacted
  spotlit : OnField "messages".toList (SpotlitMessages cfg) redacted (apply cfg redacted).2
  flag : (apply cfg redacted).1 = true ↔ HasUntrustedText cfg (bodyMessages redacted)
  unchanged : (apply cfg redacted).1 = false → (apply cfg redacted).2 = redacted
  fields : ∀ key, key ≠ "messages".toList → (apply cfg redacted).2.get key = body.get key
  roles : (bodyMessages (apply cfg redacted).2).map role = (bodyMessages body).map role ∨
    (bodyMessages (apply cfg redacted).2).map role =
      some "system".toList :: (bodyMessages body).map role

theorem rewritten_of_onTexts {R : Text → Text → Prop} {redacted : Json}
    (h : OnTexts R body redacted) : Rewritten cfg R body redacted where
  texts := h
  spotlit := spotlit_apply cfg redacted
  flag := apply_flag cfg redacted
  unchanged := apply_of_not_flag cfg
  fields key hkey := ((spotlit_apply cfg redacted).get_ne hkey).trans (h.get_ne hkey)
  roles := by
    rw [← h.roles]
    exact apply_roles cfg redacted

/-- **A rewritten request differs in the texts of its messages and by the rider**, with and without
a vault. -/
theorem rewrite_frame (r : Redact.Redactor) (entities : List Text) {V : Type} [Vault V] (vault : V)
    (body : Json) :
    Rewritten cfg (fun t t' => t' = r.redactTextIn t entities) body
        (r.redactMessagesIn body entities).2 ∧
      Rewritten cfg (fun t t' => ∃ v : V, t' = (r.redactTextWithVault t entities v).2) body
        (r.redactMessagesWithVault body entities vault).2.2 := by
  constructor
  · refine rewritten_of_onTexts cfg ?_
    have h := onTexts_redactMessagesBy (fun (_ : Unit) t => ((), r.redactTextIn t entities)) body ()
    have hR : RedactedBy (fun (_ : Unit) t => ((), r.redactTextIn t entities)) =
        fun t t' => t' = r.redactTextIn t entities := by
      funext t t'
      exact propext ⟨fun ⟨_, h⟩ => h, fun h => ⟨(), h⟩⟩
    rw [hR] at h
    exact h
  · exact rewritten_of_onTexts cfg (onTexts_redactMessagesBy _ body vault)

end Rewrite

end Nanoguard.Proxy

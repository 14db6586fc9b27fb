import Nanoguard.Guard.Restore
import Nanoguard.Lib.Json
import Nanoguard.Matcher.Output

/-!
# The contents of an answer that is not streamed

`filter_response_json` and `deanon_response_json` rewrite the strings `choices[].message.content` of
an answer: first the output filter, if it is on, then the restoration of placeholders, if there is
something to restore.
-/

namespace Nanoguard.Proxy

open Guard (MatchingStrategy strategyFromName)
open Matcher (OutputDictionary filterOutput)

/-- The settings that decide what happens to the contents of an answer. -/
structure ContentConfig where
  outputEnabled : Bool
  reversible : Bool
  deanonymizeStrategy : Text

def ContentConfig.strategy (cfg : ContentConfig) : MatchingStrategy :=
  strategyFromName cfg.deanonymizeStrategy

def messageContent (choice : Json) : Option Text :=
  ((choice.get "message".toList).bind (·.get "content".toList)).bind Json.asStr

def messageContents (resp : Json) : List Text :=
  (((resp.get "choices".toList).bind Json.asArray).getD []).filterMap messageContent

section Rewrite

variable (f : Text → Text)

def mapContent (content : Json) : Json :=
  match content with
  | .str text => .str (f text)
  | content => content

def mapMessageContent (choice : Json) : Json :=
  (choice.update "message".toList (fun st msg =>
    msg.update "content".toList (fun st content => (st, mapContent f content)) st) ()).2

def mapMessageContents (resp : Json) : Json :=
  (resp.update "choices".toList (fun st choices =>
    match choices with
    | .arr items => (st, .arr (items.map (mapMessageContent f)))
    | choices => (st, choices)) ()).2

theorem messageContent_map (choice : Json) :
    messageContent (mapMessageContent f choice) = (messageContent choice).map f := by
  unfold mapMessageContent messageContent
  cases hmsg : choice.get "message".toList with
  | none =>
    rw [Json.update_of_none () hmsg, hmsg]
    rfl
  | some msg =>
    obtain ⟨-, hself, -⟩ := Json.update_of_some (f := fun st msg =>
      msg.update "content".toList (fun st content => (st, mapContent f content)) st) () hmsg
    rw [hself, Option.bind_some, Option.bind_some]
    cases hcontent : msg.get "content".toList with
    | none =>
      rw [Json.update_of_none () hcontent, hcontent]
      rfl
    | some content =>
      obtain ⟨-, hself', -⟩ := Json.update_of_some
        (f := fun st content => (st, mapContent f content)) () hcontent
      rw [hself']
      cases content <;> rfl

theorem messageContents_map (resp : Json) :
    messageContents (mapMessageContents f resp) = (messageContents resp).map f := by
  have hitems : ∀ items : List Json, (items.map (mapMessageContent f)).filterMap messageContent =
      (items.filterMap messageContent).map f := by
    intro items
    rw [List.filterMap_map, List.map_filterMap]
    exact List.filterMap_congr fun choice _ => messageContent_map f choice
  unfold mapMessageContents messageContents
  cases hchoices : resp.get "choices".toList with
  | none =>
    rw [Json.update_of_none () hchoices, hchoices]
    rfl
  | some choices =>
    generalize hstep : (fun (st : Unit) (choices : Json) => _) = step
    obtain ⟨-, hself, -⟩ := Json.update_of_some (f := step) () hchoices
    rw [hself]
    subst hstep
    cases choices with
    | arr items => exact hitems items
    | _ => rfl

end Rewrite

section Response

variable (U : Unicode) (output : OutputDictionary) (cfg : ContentConfig)
  (entries : List (Text × Text))

def filterResponseJson (resp : Json) : Json := mapMessageContents (filterOutput U output) resp

def deanonResponseJson (resp : Json) : Json :=
  mapMessageContents (fun content => cfg.strategy.restore content entries) resp

/-- What `chat_completions` does to the texts of an answer. -/
def chatResponse (resp : Json) : Json :=
  let filtered := if cfg.outputEnabled then filterResponseJson U output resp else resp
  if cfg.reversible then
    if entries.isEmpty then filtered else deanonResponseJson cfg entries filtered
  else filtered

theorem messageContents_chatResponse (hrev : cfg.reversible = true) (resp : Json) :
    messageContents (chatResponse U output cfg entries resp) =
      (messageContents resp).map fun content =>
        cfg.strategy.restore (if cfg.outputEnabled then filterOutput U output content else content)
          entries := by
  have hfiltered : messageContents
      (if cfg.outputEnabled then filterResponseJson U output resp else resp) =
        (messageContents resp).map fun content =>
          if cfg.outputEnabled then filterOutput U output content else content := by
    by_cases henabled : cfg.outputEnabled = true
    · simp only [if_pos henabled]
      exact messageContents_map _ resp
    · simp only [if_neg henabled, List.map_id']
  unfold chatResponse
  dsimp only
  rw [if_pos hrev]
  by_cases hempty : entries = []
  · rw [if_pos (List.isEmpty_iff.2 hempty), hfiltered, hempty]
    simp only [MatchingStrategy.restore_nil]
  · rw [if_neg (mt List.isEmpty_iff.1 hempty), deanonResponseJson, messageContents_map, hfiltered,
      List.map_map]
    rfl

end Response

end Nanoguard.Proxy

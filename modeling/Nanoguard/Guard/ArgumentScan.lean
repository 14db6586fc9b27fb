import Nanoguard.Guard.ToolGate
import Nanoguard.Lib.JsonCodec

/-!
# What the tool gate scans

The name of the tool and the schema are judged on the parsed arguments, the entities on the text as
it was received. Texts of one value may differ in their escapes, their blanks and the spelling of
their numbers, and so may the decisions.
-/

namespace Nanoguard.Guard

open Redact (Redactor)

inductive DecisionKind where
  | allow
  | deny
  | sanitize
  deriving DecidableEq, Repr

def ToolDecision.kind : ToolDecision → DecisionKind
  | .allow => .allow
  | .deny _ => .deny
  | .sanitize _ => .sanitize

mutual

/-- Every string inside a value, keys included. -/
def decodedStrings : Json → List Text
  | .str s => [s]
  | .arr items => itemStrings items
  | .obj fields => fieldStrings fields
  | _ => []

def itemStrings : List Json → List Text
  | [] => []
  | v :: items => decodedStrings v ++ itemStrings items

def fieldStrings : List (Text × Json) → List Text
  | [] => []
  | (k, v) :: fields => k :: decodedStrings v ++ fieldStrings fields

end

namespace ToolGate

/-- Some pattern of one of the entities matches the text. -/
def Shows (gate : ToolGate) (entities : List Text) (text : Text) : Prop :=
  ∃ rule ∈ gate.redactor.rules, rule.entity ∈ entities ∧ rule.regex.isMatch text = true

/-- The call is denied whatever entities it has: for its name or for the shape of its arguments. -/
def Refuses (gate : ToolGate) (name : Text) (args : Json) : Prop :=
  gate.deny.any (patternMatches · name) = true ∨
    gate.allow.any (fun allow => !allow.any (patternMatches · name)) = true ∨
      ∃ schema, gate.schemas.lookup name = some schema ∧ schema args ≠ []

section Evaluate

variable {J : JsonText} {gate : ToolGate} {name text text' : Text} {args : Json}

theorem containsPiiIn_iff {entities : List Text} :
    gate.redactor.containsPiiIn text entities = true ↔ gate.Shows entities text := by
  unfold Redactor.containsPiiIn Shows
  simp only [List.any_eq_true, Bool.and_eq_true, decide_eq_true_eq]

theorem shows_iff {entities : List Text} :
    (!entities.isEmpty && gate.redactor.containsPiiIn text entities) = true ↔
      gate.Shows entities text := by
  rw [Bool.and_eq_true, containsPiiIn_iff, Bool.not_eq_true']
  refine ⟨And.right, fun hshows => ⟨?_, hshows⟩⟩
  obtain ⟨rule, -, hrule, -⟩ := hshows
  rw [List.isEmpty_eq_false_iff]
  exact List.ne_nil_of_mem hrule

theorem refuses_iff : gate.Refuses name args ↔
    gate.deny.any (patternMatches · name) = true ∨
      gate.allow.any (fun allow => !allow.any (patternMatches · name)) = true ∨
        (!(((gate.schemas.lookup name).map (· args)).getD []).isEmpty) = true := by
  unfold Refuses
  cases gate.schemas.lookup name with
  | none => simp
  | some schema => simp

theorem kind_evaluate (gate : ToolGate) (name : Text) (hparse : J.fromStr text = .ok args) :
    (gate.evaluate J name text).kind = .deny ∧
        (gate.Refuses name args ∨ gate.Shows gate.rejectEntities text) ∨
      (gate.evaluate J name text).kind = .sanitize ∧ ¬ gate.Refuses name args ∧
        ¬ gate.Shows gate.rejectEntities text ∧ gate.Shows gate.maskEntities text ∨
      (gate.evaluate J name text).kind = .allow ∧ ¬ gate.Refuses name args ∧
        ¬ gate.Shows gate.rejectEntities text ∧ ¬ gate.Shows gate.maskEntities text := by
  unfold evaluate
  rw [hparse, refuses_iff, ← shows_iff, ← shows_iff]
  dsimp only
  split
  next hdeny => exact .inl ⟨rfl, .inl (.inl hdeny)⟩
  next hdeny =>
    split
    next hallow => exact .inl ⟨rfl, .inl (.inr (.inl hallow))⟩
    next hallow =>
      split
      next hschema => exact .inl ⟨rfl, .inl (.inr (.inr hschema))⟩
      next hschema =>
        have hrefuses := not_or.2 ⟨hdeny, not_or.2 ⟨hallow, hschema⟩⟩
        split
        next hreject => exact .inl ⟨rfl, .inr hreject⟩
        next hreject =>
          split
          next hmask => exact .inr (.inl ⟨rfl, hrefuses, hreject, hmask⟩)
          next hmask => exact .inr (.inr ⟨rfl, hrefuses, hreject, hmask⟩)

theorem kind_eq_deny_iff (hparse : J.fromStr text = .ok args) :
    (gate.evaluate J name text).kind = .deny ↔
      gate.Refuses name args ∨ gate.Shows gate.rejectEntities text := by
  rcases kind_evaluate gate name hparse with
    ⟨hkind, h⟩ | ⟨hkind, hrefuses, hreject, -⟩ | ⟨hkind, hrefuses, hreject, -⟩
  · exact ⟨fun _ => h, fun _ => hkind⟩
  all_goals
    rw [hkind]
    exact ⟨nofun, fun h => absurd h (not_or.2 ⟨hrefuses, hreject⟩)⟩

theorem kind_eq_sanitize_iff (hparse : J.fromStr text = .ok args) :
    (gate.evaluate J name text).kind = .sanitize ↔
      ¬ (gate.Refuses name args ∨ gate.Shows gate.rejectEntities text) ∧
        gate.Shows gate.maskEntities text := by
  rcases kind_evaluate gate name hparse with
    ⟨hkind, h⟩ | ⟨hkind, hrefuses, hreject, hmask⟩ | ⟨hkind, hrefuses, hreject, hmask⟩
  · rw [hkind]
    exact ⟨nofun, fun h' => absurd h h'.1⟩
  · exact ⟨fun _ => ⟨not_or.2 ⟨hrefuses, hreject⟩, hmask⟩, fun _ => hkind⟩
  · rw [hkind]
    exact ⟨nofun, fun h => absurd h.2 hmask⟩

theorem kind_eq_iff (a b : DecisionKind) :
    a = b ↔ (a = .deny ↔ b = .deny) ∧ (a = .sanitize ↔ b = .sanitize) := by
  cases a <;> cases b <;> simp

end Evaluate

end ToolGate

section Examples

def messageArgs : Json := .obj [("to".toList, .str "a@b.co".toList)]

def plainArgs : Text := Json.print messageArgs

def escapedArgs : Text := "\x7b\"to\":\"a\\u0040b.co\"\x7d".toList

/-- The parser of the printed texts, with the one escape that is needed here. -/
def escapeJson : JsonText :=
  ⟨fun t => if t = escapedArgs then .ok messageArgs else Json.parse t, Json.print⟩

def addressGate : ToolGate where
  allow := none
  deny := []
  schemas := ∅
  redactor := ⟨(Redact.defaultInlinePatterns.take 1).filterMap (Redact.dictRule .basic), .bare⟩
  rejectEntities := ["EMAIL".toList]
  maskEntities := []

theorem escapeJson_plain : escapeJson.fromStr plainArgs = .ok messageArgs := by
  have hne : plainArgs ≠ escapedArgs := by decide +kernel
  have hparse : Json.parse plainArgs = .ok messageArgs := Json.parse_print (by decide)
  unfold escapeJson
  dsimp only
  rw [if_neg hne, hparse]

theorem escapeJson_escaped : escapeJson.fromStr escapedArgs = .ok messageArgs := by
  unfold escapeJson
  dsimp only
  rw [if_pos rfl]

end Examples

end Nanoguard.Guard

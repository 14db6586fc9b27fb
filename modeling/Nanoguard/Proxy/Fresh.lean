import Nanoguard.Guard.Restore
import Nanoguard.Guard.RoundTrip
import Nanoguard.Proxy.Anthropic
import Nanoguard.Proxy.PromptScan

/-!
# Placeholders that the prompt already has

The vault of a request numbers the values of each entity from one on and does not look at the texts
of the prompt. A user may have typed a text in brackets that is then issued as a placeholder; where
the model repeats it, the value of the placeholder appears instead.
-/

namespace Nanoguard.Proxy

open Guard (MatchingStrategy brackets)
open Vault (LocalVault PlaceholderTemplate)

inductive Prompt where
  | chat (body : Json)
  | messages (req : AnthropicRequest)

def Prompt.texts : Prompt → List Text
  | .chat body => promptTexts body
  | .messages req => req.messages.flatMap fun m => m.content.texts

def Prompt.vault (st : AppState) : Prompt → LocalVault
  | .chat body => (maskBody st body).1
  | .messages req => (maskRequest st req).1

section Statements

variable (strategy : MatchingStrategy) (v : LocalVault) (texts : List Text)

/-- No placeholder of the vault occurs in a text. -/
def Fresh : Prop := ∀ p, (v.get p).isSome → ∀ text ∈ texts, ¬ p <:+: text

/-- A text in brackets that occurs in one of the texts stays as it is, wherever it stands in an
answer. -/
def Echoed : Prop :=
  ∀ text ∈ texts, ∀ w, brackets.slot w <:+: text → ∀ entries, entries.Perm v.entryList →
    ∀ x y, strategy.restore (x ++ (brackets.slot w ++ y)) entries =
      strategy.restore x entries ++ (brackets.slot w ++ strategy.restore y entries)

/-- No text has what the strategy takes for the placeholder of an entity with a number up to the
number of its values. -/
def NotTyped : Prop :=
  ∀ text ∈ texts, ∀ entity k, 1 ≤ k → k ≤ v.valueCount entity →
    ∀ q, strategy.Matches (v.style.format entity (k % 2 ^ 32)) q → ¬ q <:+: text

end Statements

/-! ## What redaction does to the vault -/

/-- The vaults of a redaction. -/
structure Issuing (v : LocalVault) : Prop where
  numbered : v.Numbered
  slots : ∀ {p o}, v.get p = some o → brackets.IsSlot p

theorem issuing_withStyle (style : PlaceholderTemplate) : Issuing (LocalVault.withStyle style) where
  numbered := LocalVault.numbered_withStyle style
  slots := (Guard.sound_withStyle style).slots

theorem Issuing.store {v : LocalVault} (hv : Issuing v) {entity : Text}
    (hentity : brackets.Plain entity) (value : Text) : Issuing (v.store entity value).1 where
  numbered := hv.numbered.store entity value
  slots := by
    intro p o hp
    rcases LocalVault.of_get_store hp with hp | ⟨rfl, -⟩
    · exact hv.slots hp
    · exact Guard.isSlot_format _ hentity _

theorem Issuing.rewrite {v : LocalVault} (hv : Issuing v) {rule : Redact.RedactRule}
    (hrule : brackets.Plain rule.entity) (text : Text) :
    Issuing (rule.rewrite Vault.store v text).1 := by
  have hrun := (Guard.rewrites_rule rule v text).splices (B := fun _ => True) (I := Issuing)
    (R := fun _ _ => True) (fun _ _ h => h) ?_ hv trivial
  · exact hrun.1
  · intro v value hv _
    exact ⟨hv.store hrule value, trivial⟩

section Run

variable {st : AppState}
  (hnames : ∀ rule ∈ st.redactor.rulesIn st.piiActions.mask, brackets.Plain rule.entity)

include hnames

theorem Issuing.redactTextWithVault {v : LocalVault} (hv : Issuing v) (text : Text) :
    Issuing (st.redactor.redactTextWithVault text st.piiActions.mask v).1 := by
  refine List.foldlRecOn (motive := fun acc : LocalVault × Text => Issuing acc.1) _ _ hv ?_
  intro acc hacc rule hrule
  exact hacc.rewrite (hnames rule hrule) _

theorem Issuing.maskText {v : LocalVault} (hv : Issuing v) (text : Text) :
    Issuing (maskText st v text).1 := by
  unfold Proxy.maskText
  split
  · exact hv.redactTextWithVault hnames text
  · exact hv

theorem Issuing.maskBlocks {v : LocalVault} (hv : Issuing v) (bs : List AnthropicBlock) :
    Issuing (maskBlocks st v bs).1 := by
  induction bs generalizing v with
  | nil => exact hv
  | cons b bs ih =>
    unfold Proxy.maskBlocks
    cases b.text with
    | none => exact ih hv
    | some t => exact ih (hv.maskText hnames t)

theorem Issuing.maskMessages {v : LocalVault} (hv : Issuing v) (ms : List AnthropicMessage) :
    Issuing (maskMessages st v ms).1 := by
  induction ms generalizing v with
  | nil => exact hv
  | cons m ms ih =>
    apply ih
    cases m.content with
    | text s => exact hv.maskText hnames s
    | blocks bs => exact hv.maskBlocks hnames bs

/-- **At the end of a request the vault has numbered the values it was given.** -/
theorem issuing_vault (prompt : Prompt) : Issuing (prompt.vault st) := by
  have hnew : Issuing (newVault st) := issuing_withStyle _
  cases prompt with
  | chat body =>
    change Issuing (maskBody st body).1
    unfold maskBody
    dsimp only
    split
    · split
      · unfold Redact.Redactor.redactMessagesWithVault
        dsimp only
        rw [redactMessagesBy_state]
        refine List.foldlRecOn _ _ hnew ?_
        intro v hv text _
        exact hv.redactTextWithVault hnames text
      · exact hnew
    · exact hnew
  | messages req =>
    change Issuing (maskRequest st req).1
    unfold maskRequest
    split
    · exact hnew.maskMessages hnames _
    · exact hnew

end Run

/-! ## Freshness -/

theorem fresh_of_notTyped {strategy : MatchingStrategy} {v : LocalVault} {texts : List Text}
    (hv : Issuing v) (h : NotTyped strategy v texts) : Fresh v texts := by
  intro p hp text htext
  obtain ⟨entity, k, hpos, hle, rfl⟩ := (hv.numbered.issued p).1 hp
  exact h text htext entity k hpos hle _ (strategy.matches_self _)

theorem echoed_of_notTyped {strategy : MatchingStrategy} {v : LocalVault} {texts : List Text}
    (hv : Issuing v) (h : NotTyped strategy v texts) : Echoed strategy v texts := by
  intro text htext w hw entries hperm x y
  have hget : ∀ e ∈ entries, v.get e.1 = some e.2 :=
    fun e he => LocalVault.mem_entryList.1 (hperm.subset he)
  refine MatchingStrategy.restore_append_bracketed (fun e he => hv.slots (hget e he)) ?_ x y
  intro e he p hp hin
  obtain ⟨entity, k, hpos, hle, hkey⟩ :=
    (hv.numbered.issued e.1).1 (Option.isSome_of_eq_some (hget e he))
  rw [hkey] at hp
  exact h text htext entity k hpos hle p hp (hin.trans hw)

section Examples

def mailState : AppState :=
  { exampleState with
    config := { exampleConfig with
      input := { exampleConfig.input with
        pii := ⟨true, .mask, [], "indexed".toList, ∅, true, "exact".toList⟩ } }
    redactor := Guard.emailRedactor
    piiActions := ⟨["EMAIL".toList], [], []⟩ }

def mailPrompt (text : String) : Prompt := .chat (exampleBody (.str text.toList))

end Examples

end Nanoguard.Proxy

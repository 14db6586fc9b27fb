import Nanoguard.Lib.RangeReplace
import Nanoguard.Proxy.Redact

/-!
# The redaction loops in bytes

The three loops of the redactor as the source runs them, with `String::replace_range` at the byte
offsets of the matches. Each pass of a rule rewrites exactly the matches of its expression, and the
loops are those of `Redact`, which count characters.
-/

namespace Nanoguard.Redact

variable {σ : Type} (store : σ → Text → Text → σ × Text)

def RedactRule.rewriteBytes (rule : RedactRule) (st : σ) (out : Text) : Option (σ × Text) :=
  rewriteRevBytes (fun st value => store st rule.entity value) (rule.regex.byteMatches out) st out

def rewriteRulesBytes (rules : List RedactRule) (st : σ) (text : Text) : Option (σ × Text) :=
  rules.foldlM (fun acc rule => rule.rewriteBytes store acc.1 acc.2) (st, text)

namespace Redactor

variable (r : Redactor) (text : Text)

def redactTextInBytes (entities : List Text) : Option Text :=
  match r.style with
  | .bare => some (replaceRules (r.rulesIn entities) text)
  | style => (rewriteRulesBytes Indexer.placeholder (r.rulesIn entities) (Indexer.new style)
      text).map Prod.snd

def redactTextWithVaultBytes {V : Type} [Vault V] (entities : List Text) (vault : V) :
    Option (V × Text) :=
  rewriteRulesBytes Vault.store (r.rulesIn entities) vault text

def redactTextIndexedBytes : Option Text :=
  (rewriteRulesBytes Indexer.placeholder r.rules (Indexer.new r.style) text).map Prod.snd

/-- `redact_text`: the bare style goes through `replace_all`. -/
def redactTextBytes : Option Text :=
  match r.style with
  | .bare => some (replaceRules r.rules text)
  | _ => r.redactTextIndexedBytes text

def findMatchesBytes : List RedactMatch :=
  r.rules.flatMap fun rule => (rule.regex.byteMatches text).map fun m =>
    { entity := rule.entity, start := m.1, «end» := m.2.1, matchedText := m.2.2 }

end Redactor

theorem RedactRule.rewriteBytes_eq (rule : RedactRule) (st : σ) (out : Text) :
    rule.rewriteBytes store st out = some (rule.rewrite store st out) :=
  rewriteRevBytes_matches rule.regex out _ st

theorem rewriteRulesBytes_eq (rules : List RedactRule) (st : σ) (text : Text) :
    rewriteRulesBytes store rules st text = some (rewriteRules store rules st text) := by
  unfold rewriteRulesBytes rewriteRules
  simp only [RedactRule.rewriteBytes_eq]
  exact List.foldlM_pure

/-- **Right to left substitution is single pass substitution.** On ascending, disjoint spans between
characters the loop never panics, replaces each span and keeps all the rest; so does the pass of a
rule, and the three redaction loops compute what `Redact` says. -/
theorem right_to_left_single_pass :
    (∀ (σ γ : Type) (subst : σ → γ → σ × Text) (st : σ) (t : Text) (spans : List (Nat × Nat × γ)),
      AlignedSpans 0 t (spans.map fun m => (m.1, m.2.1)) →
      ∃ st' t', rewriteRevBytes subst spans st t = some (st', t') ∧
        RewritesBytes subst 0 st t spans st' t') ∧
    (∀ (σ : Type) (store : σ → Text → Text → σ × Text) (rule : RedactRule) (st : σ) (out : Text),
      ∃ st' out', rule.rewriteBytes store st out = some (st', out') ∧
        RewritesBytes (fun st value => store st rule.entity value) 0 st out
          (rule.regex.byteMatches out) st' out') ∧
    ∀ (r : Redactor) (text : Text),
      (∀ entities, r.redactTextInBytes text entities = some (r.redactTextIn text entities)) ∧
      (∀ (V : Type) [Vault V] entities (vault : V),
        r.redactTextWithVaultBytes text entities vault =
          some (r.redactTextWithVault text entities vault)) ∧
      r.redactTextBytes text = some (r.redactText text) := by
  have hloop {σ γ : Type} (subst : σ → γ → σ × Text) (st : σ) (t : Text)
      (spans : List (Nat × Nat × γ)) := rewriteRevBytes_rewrites subst st spans [] t
  refine ⟨fun σ γ subst st t spans h => hloop subst st t spans h,
    fun σ store rule st out => hloop _ st out _ (rule.regex.byteMatches_aligned out),
    fun r text => ⟨fun entities => ?_, fun V _ entities vault => ?_, ?_⟩⟩
  · unfold Redactor.redactTextInBytes Redactor.redactTextIn redactBy
    cases r.style <;> simp [rewriteRulesBytes_eq]
  · exact rewriteRulesBytes_eq Vault.store _ vault text
  · unfold Redactor.redactTextBytes Redactor.redactText redactBy Redactor.redactTextIndexedBytes
    cases r.style <;> simp [rewriteRulesBytes_eq]

end Nanoguard.Redact

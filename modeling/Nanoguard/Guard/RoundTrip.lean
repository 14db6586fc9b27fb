import Nanoguard.Guard.Deanonymize
import Nanoguard.Proxy.RedactComplete

/-!
# The round trip of reversible redaction

A text without brackets is redacted through a vault and restored from the entries of the vault, in
any order. Each rule runs on the text with the placeholders of the rules before it, so its matches
may lie in a placeholder; restoring then depends on the order of the entries.
-/

namespace Nanoguard.Guard

open List

open Redact (Redactor RedactRule rewriteRules)
open Vault (LocalVault PlaceholderTemplate)

/-- In the redaction with the given rules no match has a bracket or lies between brackets. -/
def Untouched : List RedactRule → LocalVault → Text → Prop
  | [], _, _ => True
  | rule :: rules, vault, text =>
    (∀ span ∈ rule.regex.findIter text, brackets.Clear text span) ∧
      Untouched rules (rule.rewrite Vault.store vault text).1
        (rule.rewrite Vault.store vault text).2

instance decidableUntouched : ∀ (rules : List RedactRule) (vault : LocalVault) (text : Text),
    Decidable (Untouched rules vault text)
  | [], _, _ => isTrue trivial
  | _ :: rules, _, _ =>
    have := decidableUntouched rules
    inferInstanceAs (Decidable (_ ∧ _))

/-! ## Placeholders are slots -/

theorem plain_decimal (n : Nat) : brackets.Plain (Str.decimal n) := by
  constructor
  all_goals
    intro h
    cases Str.isDigit_of_mem_decimal h

theorem isSlot_format (style : PlaceholderTemplate) {entity : Text} (h : brackets.Plain entity)
    (idx : Nat) : brackets.IsSlot (style.format entity idx) := by
  obtain ⟨stem, hplain, hstem⟩ : ∃ stem, brackets.Plain stem ∧ style.stem = '[' :: stem := by
    cases style with
    | llmGuard => exact ⟨"REDACTED_".toList, by decide, rfl⟩
    | indexed => exact ⟨[], by decide, rfl⟩
  refine ⟨stem ++ (entity ++ ("_".toList ++ Str.decimal idx)), ?_, ?_⟩
  · simp only [Delims.plain_append]
    exact ⟨hplain, h, by decide, plain_decimal idx⟩
  rw [PlaceholderTemplate.format_eq, hstem]
  unfold Delims.slot
  simp only [append_assoc]
  rfl

section Redaction

variable {L : List (Text × Text)} {v : LocalVault} {text : Text}

/-- What holds in every vault of the redaction. -/
structure Sound (v : LocalVault) : Prop where
  wf : v.Wf
  slots : ∀ {p o}, v.get p = some o → brackets.IsSlot p

theorem sound_withStyle (style : PlaceholderTemplate) : Sound (LocalVault.withStyle style) where
  wf := LocalVault.wf_withStyle style
  slots h := by
    simp [LocalVault.withStyle, LocalVault.get] at h

theorem Sound.store (hv : Sound v) {entity value : Text} (hentity : brackets.Plain entity)
    (hsize : (v.store entity value).1.size < 2 ^ 32) :
    Sound (v.store entity value).1 ∧
      (v.store entity value).1.get (v.store entity value).2 = some value := by
  obtain ⟨hwf, hget⟩ := hv.wf.store hsize
  refine ⟨⟨hwf, ?_⟩, hget⟩
  intro p o hp
  rcases LocalVault.of_get_store hp with hp | ⟨hp, -⟩
  · exact hv.slots hp
  · rw [hp]
    exact isSlot_format _ hentity _

/-- A vault within bounds: few enough pairs for the counters, and no entries beyond `L`. -/
def Within (L : List (Text × Text)) (v : LocalVault) : Prop :=
  v.size < 2 ^ 32 ∧ ∀ p o, v.get p = some o → (p, o) ∈ L

theorem Within.of_store {entity value : Text} (h : Within L (v.store entity value).1) :
    Within L v := by
  obtain ⟨hsize, hentries⟩ := h
  have := LocalVault.size_store v entity value
  exact ⟨by omega, fun p o hget => hentries p o (LocalVault.get_store hget)⟩

theorem rewrites_rule (rule : RedactRule) (v : LocalVault) (text : Text) :
    Rewrites (fun v value => LocalVault.store v rule.entity value) id 0 v text
      (rule.regex.findIter text) (rule.rewrite Vault.store v text).1
      (rule.rewrite Vault.store v text).2 := by
  obtain ⟨v', t', hrev, hrew⟩ := rewriteRev_rewrites
    (fun v value => LocalVault.store v rule.entity value) id v (rule.regex.findIter text) [] text
    (by simpa using rule.regex.spans_ok text)
  have hrewrite : rule.rewrite Vault.store v text = (v', t') := hrev
  rw [hrewrite]
  exact hrew

theorem splices_rule {rule : RedactRule} (hentity : brackets.Plain rule.entity) (hv : Sound v)
    (hwithin : Within L (rule.rewrite Vault.store v text).1) :
    Sound (rule.rewrite Vault.store v text).1 ∧
      Splices (fun m q => (q, m) ∈ L) 0 text (rule.regex.findIter text)
        (rule.rewrite Vault.store v text).2 := by
  refine (rewrites_rule rule v text).splices (fun _ _ => Within.of_store) ?_ hv hwithin
  intro v m hv hwithin
  obtain ⟨hsound, hget⟩ := hv.store hentity hwithin.1
  exact ⟨hsound, hwithin.2 _ _ hget⟩

theorem within_of_rewriteRules {rules : List RedactRule}
    (h : Within L (rewriteRules Vault.store rules v text).1) : Within L v := by
  induction rules generalizing v text with
  | nil => exact h
  | cons rule rules ih => exact (rewrites_rule rule v text).down (fun _ _ => Within.of_store) (ih h)

/-- The output expands to `u` exactly when the text does and no match touches a placeholder. -/
theorem expands_rewriteRules {rules : List RedactRule}
    (hnames : ∀ rule ∈ rules, brackets.Plain rule.entity) (hv : Sound v) (text : Text)
    (hwithin : Within L (rewriteRules Vault.store rules v text).1) :
    Sound (rewriteRules Vault.store rules v text).1 ∧ (brackets.Entries L → ∀ u,
      (brackets.Expands L (rewriteRules Vault.store rules v text).2 u ↔
        brackets.Expands L text u ∧ Untouched rules v text)) := by
  induction rules generalizing v text with
  | nil => exact ⟨hv, fun _ u => ⟨fun h => ⟨h, trivial⟩, fun h => h.1⟩⟩
  | cons rule rules ih =>
    have hrule : brackets.Plain rule.entity := hnames rule mem_cons_self
    obtain ⟨hv', hsplices⟩ := splices_rule hrule hv (within_of_rewriteRules hwithin)
    obtain ⟨hfinal, hexpands⟩ :=
      ih (forall_mem_cons.1 hnames).2 hv' _ hwithin
    refine ⟨hfinal, fun hL u => ?_⟩
    have hpass := Delims.expands_splices hL hsplices [] u rfl rfl
    exact (hexpands hL u).trans ((and_congr_left' hpass).trans and_assoc)

end Redaction

/-! ## The round trip -/

theorem restore_eq_replaceAll {entries : List (Text × Text)} (h : ∀ e ∈ entries, e.1 ≠ [])
    (output : Text) : Exact.restore output entries = Delims.replaceAll output entries := by
  induction entries generalizing output with
  | nil => rfl
  | cons e entries ih =>
    unfold Exact.restore Delims.replaceAll at ih ⊢
    rw [foldl_cons, foldl_cons, Str.replace_of_contains (h e mem_cons_self),
      ih (forall_mem_cons.1 h).2]

/-- **The original comes back in every order of the entries exactly when no match touches a
placeholder.** -/
theorem roundTrip_iff (r : Redactor) (style : PlaceholderTemplate) (entities : List Text)
    (text : Text) (htext : brackets.Plain text)
    (hnames : ∀ rule ∈ r.rulesIn entities, brackets.Plain rule.entity)
    (hsize : (r.redactTextWithVault text entities (LocalVault.withStyle style)).1.size < 2 ^ 32) :
    (∀ entries, entries.Perm
        (Vault.entries (r.redactTextWithVault text entities (LocalVault.withStyle style)).1) →
      Exact.restore (r.redactTextWithVault text entities (LocalVault.withStyle style)).2 entries =
        text) ↔
      Untouched (r.rulesIn entities) (LocalVault.withStyle style) text := by
  unfold Redactor.redactTextWithVault at hsize ⊢
  generalize hout : rewriteRules Vault.store (r.rulesIn entities) (LocalVault.withStyle style) text =
    out at hsize
  have hwithin : Within out.1.entryList out.1 := ⟨hsize, fun _ _ => LocalVault.mem_entryList.2⟩
  rw [← hout] at hwithin
  obtain ⟨hsound, hexpands⟩ := expands_rewriteRules hnames (sound_withStyle style) text hwithin
  rw [hout] at hsound hexpands
  have hL : brackets.Entries out.1.entryList :=
    ⟨fun e he => hsound.slots (LocalVault.mem_entryList.1 he), LocalVault.nodup_entryList _⟩
  have hrestore : ∀ entries, entries.Perm out.1.entryList →
      Exact.restore out.2 entries = Delims.replaceAll out.2 entries :=
    fun entries hperm => restore_eq_replaceAll (fun e he => (hL.slots e (hperm.subset he)).ne_nil) _
  constructor
  · intro hall
    have hexp := Delims.expands_of_replaceAll hL htext fun entries hperm => by
      rw [← hrestore entries hperm]
      exact hall entries hperm
    exact ((hexpands hL text).1 hexp).2
  · intro huntouched entries hperm
    have hexp := (hexpands hL text).2 ⟨.of_plain htext, huntouched⟩
    rw [hrestore entries hperm]
    exact Delims.replaceAll_eq (hL.perm hperm) (hexp.mono fun e he => hperm.symm.subset he)

section Examples

def emailRedactor : Redactor :=
  ⟨(Redact.defaultInlinePatterns.take 1).filterMap (Redact.dictRule .basic), .indexed⟩

/-- An address comes back. -/
theorem roundTrip_email :
    let out := emailRedactor.redactTextWithVault "mail a@b.co".toList ["EMAIL".toList]
      (LocalVault.withStyle .indexed)
    out.2 = "mail [EMAIL_1]".toList ∧ ∀ entries, entries.Perm (Vault.entries out.1) →
      Exact.restore out.2 entries = "mail a@b.co".toList :=
  ⟨by decide +kernel, (roundTrip_iff emailRedactor .indexed ["EMAIL".toList] "mail a@b.co".toList
    (by decide) (by decide +kernel) (by decide +kernel)).2 (by decide +kernel)⟩

def patText : Text := "github_pat_".toList ++ List.replicate 82 'a'

def patEntities : List Text := ["GITHUB_FINE_GRAINED_PAT".toList, "TOKEN".toList]

def patRules : List RedactRule :=
  (Redact.defaultInlinePatterns.filter fun p => decide (p.1 ∈ patEntities)).filterMap
    (Redact.dictRule .basic)

/-- **A placeholder is taken for a token**: the second rule matches inside the placeholder of the
first. -/
theorem nested_placeholder_left :
    ∃ r, Redactor.buildWithStyle .basic .ascii (fun _ => .error []) Redact.defaultInlinePatterns []
        .llmGuard = .ok r ∧
      brackets.Plain patText ∧
      let out := r.redactTextWithVault patText patEntities (LocalVault.withStyle .llmGuard)
      ∃ entries, entries.Perm (Vault.entries out.1) ∧
        Exact.restore out.2 entries = "[REDACTED_GITHUB_FINE_GRAINED_PAT_1]".toList ∧
        Exact.restore out.2 entries ≠ patText := by
  obtain ⟨r, hbuild, -⟩ := Redact.buildWithStyle_default .basic .ascii (fun _ => .error []) .llmGuard
  have hrules : r.rulesIn patEntities = patRules := by
    rw [Redactor.rulesIn_build hbuild, flatMap_nil, append_nil]
    rfl
  refine ⟨r, hbuild, by decide, ?_⟩
  unfold Redactor.redactTextWithVault
  rw [hrules]
  have hleft : Exact.restore
      (rewriteRules Vault.store patRules (LocalVault.withStyle .llmGuard) patText).2
      (Vault.entries (rewriteRules Vault.store patRules (LocalVault.withStyle .llmGuard)
        patText).1).reverse = "[REDACTED_GITHUB_FINE_GRAINED_PAT_1]".toList := by
    decide +kernel
  refine ⟨_, reverse_perm _, hleft, ?_⟩
  rw [hleft]
  decide

end Examples

end Nanoguard.Guard

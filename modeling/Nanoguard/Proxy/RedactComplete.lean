import Nanoguard.Proxy.Redact

/-!
# Redaction by the built-in patterns is complete

The text of the redaction becomes a list of characters that say whether the redaction inserted them
(`Marked`). Every built-in pattern asserts `\b` at both its ends and cannot cross a bracket. So a match
in the rewritten text that holds an original character lies in one gap between two replaced matches,
and was there before (`match_of_rewritten`).
-/

namespace Nanoguard.Redact

open List Regex

/-! ## Marks -/

/-- A text that knows which of its characters were inserted. -/
abbrev Marked := List (Char × Bool)

def erase (M : Marked) : Text := M.map Prod.fst

def original (t : Text) : Marked := t.map (·, false)

def inserted (p : Text) : Marked := p.map (·, true)

@[simp] theorem erase_append (M N : Marked) : erase (M ++ N) = erase M ++ erase N :=
  map_append

@[simp] theorem erase_cons (c : Char × Bool) (M : Marked) : erase (c :: M) = c.1 :: erase M := rfl

@[simp] theorem length_erase (M : Marked) : (erase M).length = M.length := length_map _

@[simp] theorem erase_original (t : Text) : erase (original t) = t := by
  simp [erase, original, Function.comp_def]

@[simp] theorem erase_inserted (p : Text) : erase (inserted p) = p := by
  simp [erase, inserted, Function.comp_def]

theorem not_mem_of_erase {M : Marked} {c : Char} {b : Bool} (h : c ∉ erase M) : (c, b) ∉ M :=
  fun hm => h (mem_map_of_mem hm)

section Instrumented

variable {σ : Type}

def RedactRule.rewriteMarked (store : σ → Text → Text → σ × Text) (rule : RedactRule) (st : σ)
    (out : Marked) : σ × Marked :=
  rewriteRev (fun st value =>
    let (st, placeholder) := store st rule.entity value
    (st, inserted placeholder)) (rule.regex.matches (erase out)) st out

def RedactRule.replaceMarked (rule : RedactRule) (out : Marked) : Marked :=
  replaceFrom (fun span => inserted (expand (rule.regex.capture (erase out) span)
    rule.placeholder)) 0 (rule.regex.findIter (erase out)) out

def rewriteRulesMarked (store : σ → Text → Text → σ × Text) (rules : List RedactRule) (st : σ)
    (text : Marked) : σ × Marked :=
  rules.foldl (fun acc rule => rule.rewriteMarked store acc.1 acc.2) (st, text)

def replaceRulesMarked (rules : List RedactRule) (text : Marked) : Marked :=
  rules.foldl (fun out rule => rule.replaceMarked out) text

def redactByMarked (style : PlaceholderStyle) (rules : List RedactRule) (text : Marked) : Marked :=
  match style with
  | .bare => replaceRulesMarked rules text
  | style => (rewriteRulesMarked Indexer.placeholder rules (Indexer.new style) text).2

def Redactor.redactTextInMarked (r : Redactor) (text : Text) (entities : List Text) : Marked :=
  redactByMarked r.style (r.rulesIn entities) (original text)

def Redactor.redactTextWithVaultMarked {V : Type} [Vault V] (r : Redactor) (text : Text)
    (entities : List Text) (vault : V) : V × Marked :=
  rewriteRulesMarked Vault.store (r.rulesIn entities) vault (original text)

/-! Erasing the marks gives the uninstrumented redaction. -/

theorem RedactRule.erase_rewriteMarked (store : σ → Text → Text → σ × Text) (rule : RedactRule)
    (st : σ) (M : Marked) :
    rule.rewrite store st (erase M) =
      ((rule.rewriteMarked store st M).1, erase (rule.rewriteMarked store st M).2) := by
  exact rewriteRev_map Prod.fst (fun st v => by simp [inserted, Function.comp_def]) _ st M

theorem erase_rewriteRulesMarked (store : σ → Text → Text → σ × Text) (rules : List RedactRule)
    (st : σ) (M : Marked) :
    rewriteRules store rules st (erase M) =
      ((rewriteRulesMarked store rules st M).1, erase (rewriteRulesMarked store rules st M).2) := by
  unfold rewriteRules rewriteRulesMarked
  induction rules generalizing st M with
  | nil => rfl
  | cons rule rules ih =>
    rw [foldl_cons, RedactRule.erase_rewriteMarked]
    exact ih _ _

theorem RedactRule.erase_replaceMarked (rule : RedactRule) (M : Marked) :
    rule.regex.replaceAll (erase M) rule.placeholder = erase (rule.replaceMarked M) := by
  exact replaceFrom_map Prod.fst (fun span => by simp [inserted, Function.comp_def]) _ 0 M

theorem erase_replaceRulesMarked (rules : List RedactRule) (M : Marked) :
    replaceRules rules (erase M) = erase (replaceRulesMarked rules M) := by
  unfold replaceRules replaceRulesMarked
  induction rules generalizing M with
  | nil => rfl
  | cons rule rules ih =>
    rw [foldl_cons, RedactRule.erase_replaceMarked]
    exact ih _

theorem erase_redactByMarked (style : PlaceholderStyle) (rules : List RedactRule) (M : Marked) :
    redactBy style rules (erase M) = erase (redactByMarked style rules M) := by
  cases style with
  | bare => exact erase_replaceRulesMarked rules M
  | indexed => exact congrArg Prod.snd (erase_rewriteRulesMarked _ rules _ M)
  | llmGuard => exact congrArg Prod.snd (erase_rewriteRulesMarked _ rules _ M)

end Instrumented

/-! ## One pass -/

/-- A pattern that asserts a boundary at both ends and cannot cross a bracket. -/
structure Guarded (T : CharTables) (e : Re) : Prop where
  minLen_pos : 0 < e.minLen
  startsB : e.startsB = true
  endsB : e.endsB = true
  avoidsOpen : e.avoids T '[' = true
  avoidsClose : e.avoids T ']' = true

def Bracketed (p : Text) : Prop := ∃ q, p = '[' :: (q ++ [']'])

section Pass

variable {T : CharTables} {σ : Type} {e₀ e : Re} {subst : σ → Text → σ × Marked} {st st' : σ}
  {M M' : Marked}

/-- **No match is opened.** After a pass of the pattern `e₀`, a match of `e` that holds an original
character was a match before, and `e` is another pattern. The left contexts before and after may
differ at a boundary. -/
theorem match_of_rewritten (h₀ : Guarded T e₀) (he : Guarded T e)
    (hsubst : ∀ st v, ∃ p, Bracketed p ∧ (subst st v).2 = inserted p) {pos : Nat}
    {spans : List (Nat × Nat)} (hrw : Rewrites subst erase pos st M spans st' M') {l l' : Text}
    (hcuts : Cuts T e₀ pos l (erase M) spans) (hl : l' = l ∨ T.isBoundary l (erase M) = true)
    {a x b : Marked} (hx : M' = a ++ (x ++ b))
    (hm : Match T e ((erase a).reverse ++ l') (erase x) (erase b)) (ho : ∃ c ∈ x, c.2 = false) :
    e ≠ e₀ ∧ ∃ a₀ b₀, M = a₀ ++ (x ++ b₀) ∧
      Match T e ((erase a₀).reverse ++ l) (erase x) (erase b₀) := by
  have hne : erase x ≠ [] := hm.ne_nil he.minLen_pos
  induction hrw generalizing l l' a with
  | nil =>
    subst hx
    have hold : Match T e ((erase a).reverse ++ l) (erase x) (erase b ++ []) :=
      Match.of_piece (by simpa using hm) hne (by simpa using hl) (.inl rfl)
    rw [append_nil] at hold
    refine ⟨fun heq => ?_, a, b, rfl, hold⟩
    subst heq
    exact hcuts.done_inv (erase a) (erase x ++ erase b) (erase x) (erase b) (by simp)
      (by simp [hne]) (by simp) hold
  | @cons pos st st' g m t t' spans hrw ih =>
    rw [erase_append, erase_append, ← length_erase g, ← length_erase m] at hcuts
    obtain ⟨hgap, hmatch, hrest⟩ := hcuts.cut_inv
    obtain ⟨_, ⟨q, rfl⟩, hp⟩ := hsubst st' (erase m)
    have hsplit : a ++ (x ++ b) = g ++ ('[', true) :: (inserted q ++ (']', true) :: t') := by
      rw [← hx, hp]
      simp [inserted]
    -- the match cannot cross the brackets of the placeholder
    rcases infix_side_of_not_mem hsplit (not_mem_of_erase (hm.not_mem_of_avoids he.avoidsOpen)) with
      ⟨v, rfl, rfl⟩ | ⟨a', rfl, hin⟩
    · have hold : Match T e ((erase a).reverse ++ l) (erase x) (erase v ++ (erase m ++ erase t)) := by
        refine Match.of_piece (by simpa using hm) hne ?_ (.inr ?_)
        · simpa using hl
        · simpa using hmatch.boundary_start h₀.startsB
      refine ⟨fun heq => ?_, a, v ++ (m ++ t), by simp, by simpa using hold⟩
      subst heq
      exact hgap (erase a) (erase x ++ erase v) (erase x) _ (by simp) (by simp [hne]) (by simp) hold
    rcases infix_side_of_not_mem hin.symm
      (not_mem_of_erase (hm.not_mem_of_avoids he.avoidsClose)) with ⟨v, hq, -⟩ | ⟨a'', rfl, rfl⟩
    · obtain ⟨c, hc, hc'⟩ := ho
      have hins : c ∈ inserted q := by
        rw [hq]
        simp [hc]
      obtain ⟨d, -, rfl⟩ := mem_map.1 hins
      cases hc'
    · have hbd := hmatch.boundary_end h₀.endsB
      obtain ⟨hee, a₀, b₀, rfl, hold⟩ := ih (by simpa using hrest) (.inr hbd) rfl
        (by simpa [append_assoc] using hm)
      exact ⟨hee, g ++ (m ++ a₀), b₀, by simp, by simpa using hold⟩

/-- Every match of the pattern consists of inserted characters. -/
def Clean (T : CharTables) (e : Re) (M : Marked) : Prop :=
  ∀ a x b, M = a ++ (x ++ b) → Match T e (erase a).reverse (erase x) (erase b) →
    ∀ c ∈ x, c.2 = true

theorem Clean.of_rewritten (h₀ : Guarded T e₀) (he : Guarded T e)
    (hsubst : ∀ st v, ∃ p, Bracketed p ∧ (subst st v).2 = inserted p)
    (hrw : Rewrites subst erase 0 st M ((e₀.toRegex T).findIter (erase M)) st' M')
    (hclean : e = e₀ ∨ Clean T e M) : Clean T e M' := by
  intro a x b hx hm c hc
  by_contra hfalse
  obtain ⟨hne, a₀, b₀, hsplit, hold⟩ := match_of_rewritten h₀ he hsubst hrw
    (e₀.toRegex_cuts T h₀.minLen_pos _) (.inl rfl) hx (by simpa using hm)
    ⟨c, hc, by simpa using hfalse⟩
  rcases hclean with heq | hclean
  · exact hne heq
  · exact hfalse (hclean a₀ x b₀ hsplit (by simpa using hold) c hc)

/-- The rule compiles the guarded pattern `e`. -/
structure RuleGuarded (T : CharTables) (e : Re) (rule : RedactRule) : Prop where
  regex_eq : rule.regex = e.toRegex T
  guarded : Guarded T e

variable {rule : RedactRule}

theorem RedactRule.rewriteMarked_rewrites (rule : RedactRule) (store : σ → Text → Text → σ × Text)
    (st : σ) (M : Marked) :
    Rewrites (fun st value => ((store st rule.entity value).1,
        inserted (store st rule.entity value).2)) erase 0 st M (rule.regex.findIter (erase M))
      (rule.rewriteMarked store st M).1 (rule.rewriteMarked store st M).2 := by
  obtain ⟨st', M', hrev, hrw⟩ := rewriteRev_rewrites (fun st value =>
    ((store st rule.entity value).1, inserted (store st rule.entity value).2)) erase st
    (rule.regex.findIter (erase M)) [] M (by simpa using rule.regex.spans_ok (erase M))
  have hpass : rule.rewriteMarked store st M = (st', M') := by
    unfold RedactRule.rewriteMarked Regex.matches
    simp only [erase, slice_map]
    exact hrev
  rw [hpass]
  exact hrw

theorem RedactRule.replaceMarked_rewrites (rule : RedactRule) (hdollar : '$' ∉ rule.placeholder)
    (M : Marked) :
    Rewrites (fun (_ : Unit) _ => ((), inserted rule.placeholder)) erase 0 () M
      (rule.regex.findIter (erase M)) () (rule.replaceMarked M) :=
  replaceFrom_rewrites (fun _ => inserted rule.placeholder) erase
    (fun span => inserted (expand (rule.regex.capture (erase M) span) rule.placeholder))
    (rule.regex.findIter (erase M)) [] M (by simpa using rule.regex.spans_ok (erase M))
    (fun span _ => by rw [expand_of_no_dollar _ hdollar])

theorem Clean.rewriteMarked {store : σ → Text → Text → σ × Text} (h₀ : RuleGuarded T e₀ rule)
    (he : Guarded T e) (hstore : ∀ st v, Bracketed (store st rule.entity v).2)
    (hclean : e = e₀ ∨ Clean T e M) : Clean T e (rule.rewriteMarked store st M).2 := by
  have hrw := rule.rewriteMarked_rewrites store st M
  rw [h₀.regex_eq] at hrw
  exact Clean.of_rewritten h₀.guarded he (fun st v => ⟨_, hstore st v, rfl⟩) hrw hclean

end Pass

/-! ## All styles by one loop -/

namespace Indexer

def withStyle (ix : Indexer) (style : PlaceholderStyle) : Indexer := { ix with style := style }

def index (ix : Indexer) (entity value : Text) : Nat :=
  match ix.seen.lookup (entity, value) with
  | some idx => idx
  | none => ((ix.next.lookup entity).getD 0 + 1) % 2 ^ 32

/-- What stands between the brackets of a placeholder. -/
def name (style : PlaceholderStyle) (entity : Text) (idx : Nat) : Text :=
  match style with
  | .indexed => entity ++ "_".toList ++ Str.decimal idx
  | .llmGuard => "REDACTED_".toList ++ entity ++ "_".toList ++ Str.decimal idx
  | .bare => entity

theorem format_eq (style : PlaceholderStyle) (entity : Text) (idx : Nat) :
    format style entity idx = '[' :: (name style entity idx ++ [']']) := by
  cases style with
  | bare => rfl
  | indexed => rfl
  | llmGuard => rfl

theorem placeholder_withStyle (ix : Indexer) (style : PlaceholderStyle) (entity value : Text) :
    (ix.withStyle style).placeholder entity value =
      ((ix.placeholder entity value).1.withStyle style,
        format style entity (ix.index entity value)) := by
  unfold placeholder index
  change (match ix.seen.lookup (entity, value) with | some idx => _ | none => _) = _
  cases ix.seen.lookup (entity, value) with
  | some idx => rfl
  | none => rfl

theorem placeholder_bare {ix : Indexer} (h : ix.style = .bare) (entity value : Text) :
    (ix.placeholder entity value).1.style = .bare ∧
      (ix.placeholder entity value).2 = barePlaceholder entity := by
  have hself : ix = ix.withStyle .bare := by
    unfold withStyle
    rw [← h]
  rw [hself, placeholder_withStyle]
  exact ⟨rfl, rfl⟩

end Indexer

/-- A rule whose bare placeholder is its entity in brackets, and is not read as a template. -/
structure PlainRule (rule : RedactRule) : Prop where
  bare : rule.placeholder = barePlaceholder rule.entity
  dollar : '$' ∉ rule.placeholder

theorem RedactRule.replaceMarked_eq {rule : RedactRule} (hrule : PlainRule rule) {ix : Indexer}
    (hix : ix.style = .bare) (M : Marked) :
    (rule.rewriteMarked Indexer.placeholder ix M).1.style = .bare ∧
      (rule.rewriteMarked Indexer.placeholder ix M).2 = rule.replaceMarked M := by
  refine Rewrites.congr (R := fun ix (_ : Unit) => ix.style = .bare) (fun ix _ v hstyle => ?_) hix
    (rule.rewriteMarked_rewrites Indexer.placeholder ix M)
    (rule.replaceMarked_rewrites hrule.dollar M)
  obtain ⟨hstyle', htext⟩ := Indexer.placeholder_bare hstyle rule.entity v
  exact ⟨hstyle', by rw [htext, hrule.bare]⟩

theorem replaceRulesMarked_eq {rules : List RedactRule} (hrules : ∀ rule ∈ rules, PlainRule rule)
    {ix : Indexer} (hix : ix.style = .bare) (M : Marked) :
    replaceRulesMarked rules M = (rewriteRulesMarked Indexer.placeholder rules ix M).2 := by
  induction rules generalizing ix M with
  | nil => rfl
  | cons rule rules ih =>
    obtain ⟨hstyle, htext⟩ := RedactRule.replaceMarked_eq (hrules rule mem_cons_self) hix M
    have hrest := ih (forall_mem_cons.1 hrules).2 hstyle (rule.replaceMarked M)
    rw [← htext] at hrest
    unfold replaceRulesMarked rewriteRulesMarked at hrest ⊢
    rw [foldl_cons, ← htext]
    exact hrest

/-- **Every style is the indexing loop**, also the one that replaces by a template. -/
theorem redactByMarked_eq {rules : List RedactRule} (hrules : ∀ rule ∈ rules, PlainRule rule)
    (style : PlaceholderStyle) (M : Marked) :
    redactByMarked style rules M =
      (rewriteRulesMarked Indexer.placeholder rules (Indexer.new style) M).2 := by
  cases style with
  | bare => exact replaceRulesMarked_eq hrules rfl M
  | indexed => rfl
  | llmGuard => rfl

/-! ## All passes -/

theorem Indexer.bracketed_placeholder (ix : Indexer) (entity value : Text) :
    Bracketed (ix.placeholder entity value).2 := by
  unfold Indexer.placeholder
  split
  · exact ⟨_, format_eq _ _ _⟩
  · exact ⟨_, format_eq _ _ _⟩

theorem LocalVault.bracketed_store (v : Vault.LocalVault) (entity value : Text) :
    Bracketed (Vault.store v entity value).2 := by
  have hstore : (Vault.store v entity value).2 = _ := v.store_snd entity value
  rw [hstore]
  unfold Vault.PlaceholderTemplate.format
  cases v.style with
  | llmGuard => exact ⟨"REDACTED_".toList ++ entity ++ "_".toList ++ _, by simp; rfl⟩
  | indexed => exact ⟨entity ++ "_".toList ++ _, by simp; rfl⟩

section Run

variable {T : CharTables} {σ : Type} {rules : List RedactRule}

theorem clean_rewriteRules {store : σ → Text → Text → σ × Text}
    (hstore : ∀ st entity v, Bracketed (store st entity v).2)
    (hrules : ∀ rule ∈ rules, ∃ e, RuleGuarded T e rule) (st : σ) (M : Marked) :
    ∀ rule ∈ rules, ∀ e, RuleGuarded T e rule →
      Clean T e (rewriteRulesMarked store rules st M).2 := by
  apply foldl_establish
    (P := fun rule (acc : σ × Marked) => ∀ e, RuleGuarded T e rule → Clean T e acc.2)
  · intro acc rule hrule e he
    exact Clean.rewriteMarked he he.guarded (fun st v => hstore st _ v) (.inl rfl)
  · intro acc rule hrule rule' hrule' hclean e he
    obtain ⟨e₀, h₀⟩ := hrules rule hrule
    exact Clean.rewriteMarked h₀ he.guarded (fun st v => hstore st _ v) (.inr (hclean e he))

theorem clean_redactBy (style : PlaceholderStyle)
    (hrules : ∀ rule ∈ rules, ∃ e, RuleGuarded T e rule) (hplain : ∀ rule ∈ rules, PlainRule rule)
    (M : Marked) :
    ∀ rule ∈ rules, ∀ e, RuleGuarded T e rule → Clean T e (redactByMarked style rules M) := by
  rw [redactByMarked_eq hplain]
  exact clean_rewriteRules Indexer.bracketed_placeholder hrules _ M

end Run

/-! ## The built-in patterns -/

def isGuarded (e : Re) : Bool :=
  decide (0 < e.minLen) && e.startsB && e.endsB && e.avoids .ascii '[' && e.avoids .ascii ']'

theorem guarded_of_isGuarded (T : CharTables) {e : Re} (h : isGuarded e = true) : Guarded T e := by
  simp only [isGuarded, Bool.and_eq_true, decide_eq_true_eq] at h
  obtain ⟨⟨⟨⟨hlen, hs⟩, hend⟩, hopen⟩, hclose⟩ := h
  refine ⟨hlen, hs, hend, ?_, ?_⟩
  · rw [Re.avoids_ascii T (by decide), hopen]
  · rw [Re.avoids_ascii T (by decide), hclose]

theorem defaultInlinePatterns_guarded (T : CharTables) {p : Text × Text}
    (hp : p ∈ defaultInlinePatterns) : ∃ e, parse p.2 = some e ∧ Guarded T e := by
  have hall : (defaultInlinePatterns.all fun p => (parse p.2).any isGuarded) = true := by
    decide +kernel
  obtain ⟨e, he, hguard⟩ := (Option.any_eq_true _ _).1 (all_eq_true.1 hall p hp)
  exact ⟨e, he, guarded_of_isGuarded T hguard⟩

theorem compile_of_parse (eng : Engine) {entity pattern : Text} {e : Re}
    (h : parse pattern = some e) : compile eng entity pattern = .ok
      ⟨entity, barePlaceholder entity, e.toRegex eng.tables⟩ := by
  unfold compile
  rw [eng.compile_parse pattern e h]

theorem defaultInlinePatterns_compile (eng : Engine) {p : Text × Text}
    (hp : p ∈ defaultInlinePatterns) : ∃ rule, compile eng p.1 p.2 = .ok rule := by
  obtain ⟨e, he, -⟩ := defaultInlinePatterns_guarded eng.tables hp
  exact ⟨_, compile_of_parse eng he⟩

theorem buildWithStyle_default (eng : Engine) (U : Unicode)
    (readToString : Text → Except Text Text) (style : PlaceholderStyle) :
    ∃ r, Redactor.buildWithStyle eng U readToString defaultInlinePatterns [] style = .ok r ∧
      r.style = style := by
  obtain ⟨rules, hrules⟩ := mapM_ok_of_forall fun _ => defaultInlinePatterns_compile eng
  refine ⟨⟨rules, style⟩, ?_, rfl⟩
  unfold Redactor.buildWithStyle
  rw [hrules]
  rfl

theorem mem_rules_default {eng : Engine} {U : Unicode} {readToString : Text → Except Text Text}
    {style : PlaceholderStyle} {r : Redactor}
    (hbuild : Redactor.buildWithStyle eng U readToString defaultInlinePatterns [] style = .ok r)
    (rule : RedactRule) :
    rule ∈ r.rules ↔ ∃ p ∈ defaultInlinePatterns, compile eng p.1 p.2 = .ok rule := by
  rw [Redactor.mem_rules_build hbuild, flatMap_nil, append_nil]

theorem defaultInlinePatterns_no_dollar {p : Text × Text} (hp : p ∈ defaultInlinePatterns) :
    '$' ∉ barePlaceholder p.1 := by
  have hall : (defaultInlinePatterns.all fun p => decide ('$' ∉ barePlaceholder p.1)) = true := by
    decide +kernel
  exact of_decide_eq_true (all_eq_true.1 hall p hp)

/-- Names of entities that can stand in every text: printable, without brackets and dollar signs. -/
def isSafeName (name : Text) : Bool :=
  name.all fun c => decide (32 ≤ c.toNat) && decide (c ∉ ['[', ']', '$'])

theorem defaultInlinePatterns_safe {p : Text × Text} (hp : p ∈ defaultInlinePatterns) :
    ∀ c ∈ p.1, 32 ≤ c.toNat ∧ c ∉ ['[', ']', '$'] := by
  have hall : (defaultInlinePatterns.all fun p => isSafeName p.1) = true := by decide +kernel
  intro c hc
  have hc' := all_eq_true.1 (all_eq_true.1 hall p hp) c hc
  rwa [Bool.and_eq_true, decide_eq_true_eq, decide_eq_true_eq] at hc'

/-- What the rules of the built-in redactor are like. -/
structure BuiltInRule (T : CharTables) (rule : RedactRule) : Prop where
  guarded : ∃ e, RuleGuarded T e rule
  bare : rule.placeholder = barePlaceholder rule.entity
  dollar : '$' ∉ rule.placeholder
  safe : ∀ c ∈ rule.entity, 32 ≤ c.toNat ∧ c ∉ ['[', ']', '$']

theorem builtInRule_of_mem {eng : Engine} {U : Unicode} {readToString : Text → Except Text Text}
    {style : PlaceholderStyle} {r : Redactor}
    (hbuild : Redactor.buildWithStyle eng U readToString defaultInlinePatterns [] style = .ok r)
    {rule : RedactRule} (hrule : rule ∈ r.rules) : BuiltInRule eng.tables rule := by
  obtain ⟨p, hp, hcomp⟩ := (mem_rules_default hbuild rule).1 hrule
  obtain ⟨e, he, hg⟩ := defaultInlinePatterns_guarded eng.tables hp
  rw [compile_of_parse eng he, Except.ok.injEq] at hcomp
  subst hcomp
  exact ⟨⟨e, rfl, hg⟩, rfl, defaultInlinePatterns_no_dollar hp, defaultInlinePatterns_safe hp⟩

theorem BuiltInRule.plain {T : CharTables} {rule : RedactRule} (h : BuiltInRule T rule) :
    PlainRule rule := ⟨h.bare, h.dollar⟩

def builtInRedactor : Redactor := ⟨defaultInlinePatterns.filterMap (dictRule .basic), .bare⟩

theorem builtInRedactor_build (U : Unicode) (readToString : Text → Except Text Text) :
    Redactor.buildWithStyle .basic U readToString defaultInlinePatterns [] .bare =
      .ok builtInRedactor := by
  obtain ⟨r, hbuild, hstyle⟩ := buildWithStyle_default .basic U readToString .bare
  have hrules := Redactor.rules_build hbuild
  rw [flatMap_nil, append_nil] at hrules
  have hr : r = builtInRedactor := by
    unfold builtInRedactor
    rw [← hrules, ← hstyle]
  rw [hbuild, hr]

/-- **Redaction is complete.** In what `redact_text_in` and `redact_text_with_vault` return, every
match of a masked built-in pattern consists of characters that the redaction inserted. -/
theorem redact_complete (eng : Engine) (U : Unicode) (readToString : Text → Except Text Text)
    (style : PlaceholderStyle) :
    ∃ r, Redactor.buildWithStyle eng U readToString defaultInlinePatterns [] style = .ok r ∧
      ∀ (text : Text) (entities : List Text) (vault : Vault.LocalVault),
        erase (r.redactTextInMarked text entities) = r.redactTextIn text entities ∧
        erase (r.redactTextWithVaultMarked text entities vault).2 =
          (r.redactTextWithVault text entities vault).2 ∧
        ∀ p ∈ defaultInlinePatterns, p.1 ∈ entities → ∃ e, parse p.2 = some e ∧
          Clean eng.tables e (r.redactTextInMarked text entities) ∧
          Clean eng.tables e (r.redactTextWithVaultMarked text entities vault).2 := by
  obtain ⟨r, hbuild, -⟩ := buildWithStyle_default eng U readToString style
  have hrules := mem_rules_default hbuild
  refine ⟨r, hbuild, fun text entities vault => ⟨?_, ?_, ?_⟩⟩
  · unfold Redactor.redactTextIn Redactor.redactTextInMarked
    rw [← erase_redactByMarked, erase_original]
  · have herase := erase_rewriteRulesMarked Vault.store (r.rulesIn entities) vault (original text)
    rw [erase_original] at herase
    exact (congrArg Prod.snd herase).symm
  have hbuiltIn (rule : RedactRule) (hrule : rule ∈ r.rulesIn entities) :
      BuiltInRule eng.tables rule := builtInRule_of_mem hbuild (mem_filter.1 hrule).1
  have hguard : ∀ rule ∈ r.rulesIn entities, ∃ e, RuleGuarded eng.tables e rule :=
    fun rule hrule => (hbuiltIn rule hrule).guarded
  intro p hp hmask
  obtain ⟨e, he, hg⟩ := defaultInlinePatterns_guarded eng.tables hp
  have hcomp : compile eng p.1 p.2 = _ := compile_of_parse eng he
  have hmem : _ ∈ r.rulesIn entities :=
    mem_filter.2 ⟨(hrules _).2 ⟨p, hp, hcomp⟩, decide_eq_true hmask⟩
  exact ⟨e, he, clean_redactBy r.style hguard (fun rule hrule => (hbuiltIn rule hrule).plain)
      _ _ hmem e ⟨rfl, hg⟩,
    clean_rewriteRules LocalVault.bracketed_store hguard vault _ _ hmem e ⟨rfl, hg⟩⟩

end Nanoguard.Redact

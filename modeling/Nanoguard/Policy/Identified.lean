import Nanoguard.Policy.Enforcement

/-!
# Identifying a blocking rule

When a literal of the block list is found, the matcher reports the literal as it was normalised. The
audit log looks it up in the index of the bundle, whose keys are the patterns as they stand there, in
ASCII lower case.
-/

namespace Nanoguard.Policy

open List

open AhoCorasick (find?_of_reported reported reported_self)
open Matcher (AcScanner InputScanner IwordBuilder KeywordConfig Matchers NormalizeConfig normalizeWith)
open PolicyRuleIndex (addRule)
open Regex (Engine)

section Index

variable {policy : Policy} {rule : Rule} {key word : Text}

/-- The rule is a literal with the key. -/
def Rule.hasKey (key : Text) (rule : Rule) : Bool :=
  (regexBody rule.pattern).isNone && decide (Str.toAsciiLowercase rule.pattern = key)

theorem lookup_addRule (idx : PolicyRuleIndex) (rule : Rule) (key : Text) :
    (addRule idx rule).byLiteral.lookup key =
      if rule.hasKey key then some (.fromRule rule) else idx.byLiteral.lookup key := by
  unfold addRule Rule.hasKey
  cases regexBody rule.pattern with
  | some body => rfl
  | none =>
    by_cases hkey : Str.toAsciiLowercase rule.pattern = key
    · simp [hkey]
    · simp [hkey, AList.lookup_insert_ne (Ne.symm hkey)]

theorem lookup_foldl_addRule (rules : List Rule) (idx : PolicyRuleIndex) (key : Text) :
    (rules.foldl addRule idx).byLiteral.lookup key =
      ((rules.reverse.find? (Rule.hasKey key)).map .fromRule).or (idx.byLiteral.lookup key) := by
  induction rules generalizing idx with
  | nil => rfl
  | cons rule rules ih =>
    rw [foldl_cons, ih, lookup_addRule, reverse_cons, find?_append]
    cases rules.reverse.find? (Rule.hasKey key) with
    | some last => rfl
    | none => cases hkey : rule.hasKey key <;> simp [hkey]

theorem lookupLiteral_eq (policy : Policy) (word : Text) :
    (PolicyRuleIndex.fromPolicy policy).lookupLiteral word =
      (policy.rules.reverse.find? (Rule.hasKey (Str.toAsciiLowercase word))).map .fromRule := by
  unfold PolicyRuleIndex.lookupLiteral PolicyRuleIndex.fromPolicy
  rw [lookup_foldl_addRule]
  exact Option.or_none

theorem checkRule_ok {seenIds : List Text} (h : checkRule seenIds rule = .ok ()) :
    rule.id ∉ seenIds := by
  unfold checkRule at h
  simp only [guard_eq_ok] at h
  exact h.2.1

theorem ids_nodup_of_checkRules {seenIds : List Text} {rules : List Rule}
    (h : checkRules seenIds rules = .ok ()) :
    (rules.map Rule.id).Nodup ∧ ∀ rule ∈ rules, rule.id ∉ seenIds := by
  induction rules generalizing seenIds with
  | nil => exact ⟨nodup_nil, nofun⟩
  | cons rule rules ih =>
    obtain ⟨_, hrule, hrules⟩ := bind_eq_ok.1 h
    obtain ⟨hnodup, hnew⟩ := ih hrules
    refine ⟨nodup_cons.2 ⟨fun hmem => ?_, hnodup⟩, ?_⟩
    · obtain ⟨other, hother, hid⟩ := mem_map.1 hmem
      exact hnew other hother (hid ▸ mem_cons_self)
    · rw [forall_mem_cons]
      exact ⟨checkRule_ok hrule, fun other hother hseen =>
        hnew other hother (mem_cons_of_mem _ hseen)⟩

theorem ids_nodup (h : policy.validate = .ok ()) : (policy.rules.map Rule.id).Nodup := by
  unfold validate at h
  split at h
  · cases h
  · exact (ids_nodup_of_checkRules h).1

/-- The rule has the key of the word, and no later literal has it. -/
structure KeyFits (policy : Policy) (word : Text) (rule : Rule) : Prop where
  key : Str.toAsciiLowercase rule.pattern = Str.toAsciiLowercase word
  last : ∃ before after, policy.rules = before ++ rule :: after ∧
    ∀ later ∈ after, regexBody later.pattern = none →
      Str.toAsciiLowercase later.pattern ≠ Str.toAsciiLowercase word

theorem lookupLiteral_eq_some_iff (hvalid : policy.validate = .ok ()) (hrule : rule ∈ policy.rules)
    (hlit : regexBody rule.pattern = none) :
    (PolicyRuleIndex.fromPolicy policy).lookupLiteral word = some (.fromRule rule) ↔
      KeyFits policy word rule := by
  have hfound : (PolicyRuleIndex.fromPolicy policy).lookupLiteral word = some (.fromRule rule) ↔
      policy.rules.reverse.find? (Rule.hasKey (Str.toAsciiLowercase word)) = some rule := by
    rw [lookupLiteral_eq]
    constructor
    · intro h
      obtain ⟨other, hother, hinfo⟩ := Option.map_eq_some_iff.1 h
      have hid : other.id = rule.id := congrArg RuleMeta.id hinfo
      have hmem := mem_reverse.1 (mem_of_find?_eq_some hother)
      rw [hother, inj_on_of_nodup_map (ids_nodup hvalid) hmem hrule hid]
    · intro h
      rw [h]
      rfl
  rw [hfound, find?_eq_some_iff_append]
  unfold Rule.hasKey
  simp only [hlit, Option.isNone_none, Bool.true_and, decide_eq_true_eq]
  constructor
  · rintro ⟨hkey, after, before, hsplit, hafter⟩
    refine ⟨hkey, before.reverse, after.reverse, ?_, fun later hlater hlaterLit hsame => ?_⟩
    · have hrules := congrArg List.reverse hsplit
      rw [reverse_reverse] at hrules
      rw [hrules]
      simp
    · have hnot := hafter later (mem_reverse.1 hlater)
      simp [hlaterLit, hsame] at hnot
  · rintro ⟨hkey, before, after, hsplit, hafter⟩
    refine ⟨hkey, after.reverse, before.reverse, by rw [hsplit]; simp, fun later hlater => ?_⟩
    have hnot := hafter later (mem_reverse.1 hlater)
    cases hlaterLit : regexBody later.pattern with
    | some body => simp
    | none => simpa using hnot hlaterLit

end Index

/-! ## Blocking -/

/-- The engine blocks the text because of a literal of the block list. -/
structure BlocksBy (U : Unicode) (m : Matchers) (s : AcScanner) (text word : Text) : Prop where
  verdict : m.checkInput U text = .blocked word
  literal : reported s.block.words (normalizeWith U m.normalize text) = some word

/-- Whenever the engine blocks because of a literal rule of the bundle, the word that it reports leads
to the data of that rule. -/
def Identified (U : Unicode) (m : Matchers) (s : AcScanner) (policy : Policy) : Prop :=
  ∀ rule ∈ policy.rules, regexBody rule.pattern = none → rule.action = .block → ∀ text,
    BlocksBy U m s text (normalizeWith U m.normalize rule.pattern) →
      (PolicyRuleIndex.fromPolicy policy).lookupLiteral (normalizeWith U m.normalize rule.pattern) =
        some (.fromRule rule)

/-- No word that is tried before it is a beginning of the word. -/
def Reportable (words : List Text) (word : Text) : Prop :=
  (words.find? fun w => decide (w <+: word)) = some word

theorem blocksBy_of_reported {U : Unicode} {m : Matchers} {s : AcScanner} (hs : m.input = .ac s)
    {text word : Text}
    (h : reported s.block.words (normalizeWith U m.normalize text) = some word) :
    BlocksBy U m s text word := by
  refine ⟨?_, h⟩
  have hhit : s.block.hit (normalizeWith U m.normalize text) = some word := by
    unfold Matcher.Bucket.hit
    rw [show (AhoCorasick.find s.block.words (normalizeWith U m.normalize text)).bind
      (s.block.words[·]?) = some word from h]
    rfl
  unfold Matchers.checkInput InputScanner.check
  rw [hs]
  dsimp only
  unfold AcScanner.check
  rw [hhit]

/-- **A blocking rule is identified exactly if** each literal block rule that can be reported has the
key of its normal form in the index, and no later literal has it. -/
theorem blocking_rule_identified_iff (eng : Engine) (U : Unicode) (iword : IwordBuilder)
    (readToString : Text → Except Text Text) (keyword : KeywordConfig) (policy : Policy)
    (m : Matchers) (hvalid : policy.validate = .ok ())
    (hbuild : Matchers.build eng U iword readToString (mergeIntoKeywordConfig policy keyword) =
      .ok m)
    (hengine : keyword.engine = "aho-corasick".toList) :
    ∃ s, m.input = .ac s ∧ (Identified U m s policy ↔
      ∀ rule ∈ policy.rules, regexBody rule.pattern = none → rule.action = .block →
        Reportable s.block.words (normalizeWith U m.normalize rule.pattern) →
          KeyFits policy (normalizeWith U m.normalize rule.pattern) rule) := by
  have hmerged : (mergeIntoKeywordConfig policy keyword).engine = "aho-corasick".toList :=
    (merge_settings policy keyword).1.trans hengine
  unfold Matchers.build Matchers.buildWithEngine at hbuild
  dsimp only at hbuild
  rw [if_pos hmerged] at hbuild
  obtain ⟨input, hinput, hm⟩ := bind_eq_ok.1 hbuild
  obtain ⟨s, hs, rfl⟩ := map_eq_ok.1 hinput
  cases hm
  refine ⟨s, rfl, ?_⟩
  unfold Identified
  refine forall₂_congr fun rule hrule => forall₂_congr fun hlit hblock => ?_
  rw [lookupLiteral_eq_some_iff hvalid hrule hlit]
  constructor
  · -- the text that is the pattern itself shows the rule
    intro hall hreportable
    exact hall rule.pattern (blocksBy_of_reported rfl (reported_self hreportable))
  · intro hall text hblocks
    exact hall (find?_of_reported hblocks.literal)

/-! ## Two phrases -/

/-- The keyword settings of a proxy whose only words are those of its bundle. -/
def bundleOnly : KeywordConfig := ⟨"aho-corasick".toList, [], [], [], [], {}⟩

def matchersOf (words : List Text) : Matchers := ⟨.ac ⟨⟨words, []⟩, ⟨[], []⟩, ⟨[], []⟩⟩, {}⟩

/-- A lower case word is identified. -/
theorem blocking_rule_identified_phrase : ∃ s, (matchersOf ["jailbreak".toList]).input = .ac s ∧
    Identified .ascii (matchersOf ["jailbreak".toList]) s ⟨1, [phraseRule]⟩ := by
  obtain ⟨s, hs, hiff⟩ := blocking_rule_identified_iff .basic .ascii (fun _ _ => .error [])
    (fun _ => .ok []) bundleOnly ⟨1, [phraseRule]⟩ (matchersOf ["jailbreak".toList]) rfl rfl rfl
  refine ⟨s, hs, hiff.2 fun rule hrule _ _ _ => ?_⟩
  rw [mem_singleton.1 hrule]
  exact ⟨rfl, [], [], rfl, nofun⟩

/-- Two spaces, which the matcher takes for one. -/
def spacedRule : Rule :=
  ⟨"SQL-1".toList, "injection".toList, "high".toList, "drop  table".toList, .block, none, []⟩

/-- **A rule with two spaces blocks and is not identified.** -/
theorem spaced_rule_not_identified : ∃ m s,
    Matchers.build .basic .ascii (fun _ _ => .error []) (fun _ => .ok [])
      (mergeIntoKeywordConfig ⟨1, [spacedRule]⟩ bundleOnly) = .ok m ∧
    validate ⟨1, [spacedRule]⟩ = .ok () ∧ m.input = .ac s ∧
    BlocksBy .ascii m s "drop  table".toList "drop table".toList ∧
    (PolicyRuleIndex.fromPolicy ⟨1, [spacedRule]⟩).lookupLiteral "drop table".toList = none ∧
    ¬ Identified .ascii m s ⟨1, [spacedRule]⟩ := by
  have hblocks : BlocksBy .ascii (matchersOf ["drop table".toList])
      ⟨⟨["drop table".toList], []⟩, ⟨[], []⟩, ⟨[], []⟩⟩ "drop  table".toList "drop table".toList :=
    ⟨rfl, rfl⟩
  refine ⟨matchersOf ["drop table".toList], _, rfl, rfl, rfl, hblocks, rfl, fun hall => ?_⟩
  have hfound := hall spacedRule (mem_singleton.2 rfl) rfl rfl _ hblocks
  cases hfound

end Nanoguard.Policy

import Mathlib.Data.List.Dedup
import Nanoguard.Proxy.RedactComplete
import Nanoguard.Reload.Build

/-!
# Enforcement of a policy bundle

The keyword rules of a bundle reach the matcher through the merged configuration. The redact rules
reach nothing: `build_app_state` never asks for `redactor_patterns_from_policy`.
-/

namespace Nanoguard.Policy

open List

open Redact (PiiAction compile)
open Reload

def actionOf (pii : Config.PiiConfig) (entity : Text) : PiiAction :=
  (pii.entities.lookup entity).getD pii.action

/-- The entities and patterns that the redactor is built from. -/
def ownPatterns (env : BuildEnv) (cfg : Config) : List (Text × Text) :=
  Redact.defaultInlinePatterns ++
    cfg.input.pii.dictPaths.flatMap (Redact.dictPatterns env.unicode env.readToString)

section Enforced

variable (env : BuildEnv) (cfg : Config) (st : AppState) (rule : Rule)

/-- A redact rule whose entity is masked is one of the passes over every request text: its matches
are replaced by placeholders of its entity. -/
def RedactEnforced : Prop :=
  ∀ entity body, redactPattern rule = some (entity, body) →
    actionOf cfg.input.pii entity = .mask →
    ∃ r ∈ st.redactor.rulesIn st.piiActions.mask,
      r.entity = entity ∧ env.eng.compile false body = some r.regex

/-- A literal keyword rule gives at least its verdict on every text that contains it. -/
def KeywordEnforced : Prop :=
  ∀ target, regexBody rule.pattern = none → rule.action.target = some target →
    cfg.input.keyword.engine = "aho-corasick".toList →
    cfg.input.keyword.normalize.separators = false →
    ∀ text, Str.isAscii text = true → rule.pattern <:+: text →
      target.level ≤ (st.matchers.checkInput env.unicode text).level

def Enforced : Prop := RedactEnforced env cfg st rule ∧ KeywordEnforced env cfg st rule

/-- A redact rule whose entity is masked repeats a pattern that the redactor has anyway. -/
def RepeatsOwn : Prop :=
  ∀ entity body, redactPattern rule = some (entity, body) →
    actionOf cfg.input.pii entity = .mask →
    ∃ own ∈ ownPatterns env cfg, own.1 = entity ∧
      (env.eng.compile false body).isSome ∧
      env.eng.compile false own.2 = env.eng.compile false body

end Enforced

section Build

variable {env : BuildEnv} {cfg : Config} {budget : Option BudgetStore} {st : AppState}
  {policy : Policy} {path : Text}

theorem config_of_build (hpath : cfg.bundlePath = some path) (hne : path ≠ [])
    (hload : fromPath env.parseYaml env.readToString path = .ok policy)
    (hbuild : buildAppState env cfg budget = .ok st) :
    st.config.input.keyword = policy.mergeIntoKeywordConfig cfg.input.keyword ∧
      st.config.input.pii = cfg.input.pii := by
  have hpolicy := (buildAppState_parts hbuild).1
  have hfilter : (cfg.bundlePath.filter fun p => !p.isEmpty) = some path := by
    rw [hpath]
    simp [hne]
  unfold loadPolicy at hpolicy
  rw [hfilter] at hpolicy
  dsimp only at hpolicy
  rw [hload] at hpolicy
  have hconfig : _ = st.config := congrArg Prod.fst (Except.ok.inj hpolicy)
  rw [← hconfig]
  exact ⟨rfl, rfl⟩

theorem mem_masked_rules (hpii : st.config.input.pii = cfg.input.pii)
    (hbuild : buildAppState env cfg budget = .ok st) (r : Redact.RedactRule) :
    r ∈ st.redactor.rulesIn st.piiActions.mask ↔
      actionOf cfg.input.pii r.entity = .mask ∧
        ∃ own ∈ ownPatterns env cfg, compile env.eng own.1 own.2 = .ok r := by
  obtain ⟨-, -, hredactor, hactions⟩ := buildAppState_parts hbuild
  rw [hpii] at hredactor hactions
  have hrules := Redact.Redactor.mem_rules_build hredactor r
  unfold Redact.Redactor.rulesIn
  rw [mem_filter, decide_eq_true_eq, hrules, hactions]
  unfold Redact.partitionByAction
  dsimp only
  rw [mem_filter, decide_eq_true_eq]
  constructor
  · rintro ⟨hown, -, hmask⟩
    exact ⟨hmask, hown⟩
  · rintro ⟨hmask, hown⟩
    refine ⟨hown, ?_, hmask⟩
    unfold Redact.Redactor.entityNames
    rw [mem_dedup]
    exact mem_map_of_mem (hrules.2 hown)

theorem compile_eq_ok {eng : Regex.Engine} {entity pattern : Text} {r : Redact.RedactRule} :
    compile eng entity pattern = .ok r ↔
      eng.compile false pattern = some r.regex ∧ r.entity = entity ∧
        r.placeholder = Redact.barePlaceholder entity := by
  unfold compile
  cases eng.compile false pattern with
  | none => simp
  | some regex =>
    constructor
    · intro h
      cases h
      exact ⟨rfl, rfl, rfl⟩
    · rintro ⟨hregex, hentity, hplace⟩
      cases r
      simp_all

theorem redactEnforced_iff (hpii : st.config.input.pii = cfg.input.pii)
    (hbuild : buildAppState env cfg budget = .ok st) (rule : Rule) :
    RedactEnforced env cfg st rule ↔ RepeatsOwn env cfg rule := by
  unfold RedactEnforced RepeatsOwn
  refine forall₄_congr fun entity body _ hmask => ?_
  constructor
  · rintro ⟨r, hr, hentity, hbody⟩
    obtain ⟨-, own, hown, hcompile⟩ := (mem_masked_rules hpii hbuild r).1 hr
    obtain ⟨hregex, hown_entity, -⟩ := compile_eq_ok.1 hcompile
    exact ⟨own, hown, by rw [← hown_entity, hentity], by rw [hbody]; rfl, by rw [hregex, hbody]⟩
  · rintro ⟨own, hown, rfl, hsome, hsame⟩
    obtain ⟨regex, hregex⟩ := Option.isSome_iff_exists.1 hsome
    refine ⟨⟨own.1, Redact.barePlaceholder own.1, regex⟩, ?_, rfl, hregex⟩
    exact (mem_masked_rules hpii hbuild _).2
      ⟨hmask, own, hown, compile_eq_ok.2 ⟨by rw [hsame, hregex], rfl, rfl⟩⟩

theorem keywordEnforced (hkeyword : st.config.input.keyword =
      policy.mergeIntoKeywordConfig cfg.input.keyword)
    (hbuild : buildAppState env cfg budget = .ok st) {rule : Rule} (hrule : rule ∈ policy.rules) :
    KeywordEnforced env cfg st rule := by
  intro target hlit htarget hengine hsep text hascii hin
  obtain ⟨-, hmatchers, -, -⟩ := buildAppState_parts hbuild
  rw [hkeyword] at hmatchers
  obtain ⟨hengine', hnormalize', -⟩ := merge_settings policy cfg.input.keyword
  exact Matcher.Matchers.level_checkInput hmatchers (by rw [hengine', hengine])
    (by rw [hnormalize', hsep]) (.inl (mem_inline_merge _ hrule hlit htarget)) (.inl hascii) hin

/-- **A bundle is enforced exactly when its redact rules repeat patterns of the redactor.** -/
theorem policy_enforced_iff (env : BuildEnv) (cfg : Config) (budget : Option BudgetStore)
    (path : Text) (policy : Policy) (st : AppState) (hpath : cfg.bundlePath = some path)
    (hne : path ≠ []) (hload : fromPath env.parseYaml env.readToString path = .ok policy)
    (hbuild : buildAppState env cfg budget = .ok st) :
    (∀ rule ∈ policy.rules, Enforced env cfg st rule) ↔
      ∀ rule ∈ policy.rules, RepeatsOwn env cfg rule := by
  obtain ⟨hkeyword, hpii⟩ := config_of_build hpath hne hload hbuild
  refine forall₂_congr fun rule hrule => ?_
  rw [← redactEnforced_iff hpii hbuild]
  exact ⟨fun h => h.1, fun h => ⟨h, keywordEnforced hkeyword hbuild hrule⟩⟩

end Build

section Examples

def ticketRule : Rule :=
  ⟨"TICKET-1".toList, "pii".toList, "high".toList, "/tk-\\d+/".toList, .redact,
    some "TICKET".toList, []⟩

def phraseRule : Rule :=
  ⟨"INJ-1".toList, "injection".toList, "high".toList, "jailbreak".toList, .block, none, []⟩

def exampleEnv (rule : Rule) : BuildEnv where
  eng := .basic
  unicode := .ascii
  iword := fun _ _ => .error []
  readToString := fun _ => .ok []
  parseYaml := fun _ => .ok ⟨1, [rule]⟩
  json := ⟨fun _ => .error [], fun _ => []⟩
  compileSchema := fun _ => .error []

def exampleConfig : Config where
  input :=
    { enabled := true
      shadow := false
      keyword := ⟨"aho-corasick".toList, [], [], [], [], {}⟩
      pii := ⟨true, .log, [], "bare".toList, (∅ : AList _).insert "TICKET".toList .mask, false,
        "exact".toList⟩
      spotlight := ⟨false, "datamarking".toList, ["tool".toList], [], [], "^".toList, none⟩ }
  outputSchema := ⟨false, "log".toList, []⟩
  tools := ⟨false, none, [], [], [], []⟩
  bundlePath := some "policy.yaml".toList
  backend := some ⟨"openai".toList, "http://localhost".toList, none, none⟩
  backends := ∅
  routing := ⟨none, []⟩

theorem exampleEnv_builds {rule : Rule} (hrule : rule = phraseRule ∨ rule = ticketRule) :
    ∃ st, buildAppState (exampleEnv rule) exampleConfig none = .ok st := by
  obtain ⟨r, hr, -⟩ := Redact.buildWithStyle_default (exampleEnv rule).eng (exampleEnv rule).unicode
    (exampleEnv rule).readToString .bare
  rcases hrule with rfl | rfl
  all_goals
    exact ⟨_, bind_eq_ok.2 ⟨_, rfl, bind_eq_ok.2 ⟨_, rfl, bind_eq_ok.2 ⟨r, hr,
      bind_eq_ok.2 ⟨_, rfl, bind_eq_ok.2 ⟨_, rfl, bind_eq_ok.2 ⟨_, rfl, rfl⟩⟩⟩⟩⟩⟩⟩

/-- A bundle with a phrase is enforced. -/
theorem policy_enforced_phrase :
    ∃ st, buildAppState (exampleEnv phraseRule) exampleConfig none = .ok st ∧
      ∀ rule ∈ [phraseRule], Enforced (exampleEnv phraseRule) exampleConfig st rule := by
  obtain ⟨st, hbuild⟩ := exampleEnv_builds (.inl rfl)
  refine ⟨st, hbuild, ?_⟩
  apply (policy_enforced_iff _ _ none "policy.yaml".toList ⟨1, [phraseRule]⟩ st rfl (by decide) rfl
    hbuild).2
  intro rule hrule entity body hpattern
  rw [mem_singleton.1 hrule] at hpattern
  cases hpattern

/-- **A redact rule is loaded and ignored**: its entity is masked, and every text is left as it is,
also one with a match. -/
theorem redact_rule_ignored :
    ∃ st regex, buildAppState (exampleEnv ticketRule) exampleConfig none = .ok st ∧
      redactPattern ticketRule = some ("TICKET".toList, "tk-\\d+".toList) ∧
      actionOf exampleConfig.input.pii "TICKET".toList = .mask ∧
      (exampleEnv ticketRule).eng.compile false "tk-\\d+".toList = some regex ∧
      regex.isMatch "see tk-12".toList = true ∧
      (∀ text, st.redactor.redactTextIn text st.piiActions.mask = text) ∧
      ¬ Enforced (exampleEnv ticketRule) exampleConfig st ticketRule := by
  obtain ⟨st, hbuild⟩ := exampleEnv_builds (.inr rfl)
  have hpii : st.config.input.pii = exampleConfig.input.pii :=
    (config_of_build rfl (cons_ne_nil _ _) rfl hbuild).2
  -- the redactor has no pattern for the only masked entity
  have hother : ∀ own ∈ ownPatterns (exampleEnv ticketRule) exampleConfig,
      actionOf exampleConfig.input.pii own.1 ≠ .mask := by
    decide
  have hnone : st.redactor.rulesIn st.piiActions.mask = [] := by
    rw [eq_nil_iff_forall_not_mem]
    intro r hr
    obtain ⟨hmask, own, hown, hcompile⟩ := (mem_masked_rules hpii hbuild r).1 hr
    rw [(compile_eq_ok.1 hcompile).2.1] at hmask
    exact hother own hown hmask
  refine ⟨st, _, hbuild, rfl, rfl, rfl, by decide, ?_, ?_⟩
  · intro text
    unfold Redact.Redactor.redactTextIn Redact.redactBy
    rw [hnone]
    cases st.redactor.style <;> rfl
  · intro henforced
    obtain ⟨r, hr, -⟩ := henforced.1 _ _ rfl rfl
    rw [hnone] at hr
    cases hr

end Examples

end Nanoguard.Policy

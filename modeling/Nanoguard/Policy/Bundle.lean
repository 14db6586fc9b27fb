import Mathlib.Data.List.AList
import Nanoguard.Matcher.Scanner

/-!
# Policy bundles

A bundle is a list of rules with stable ids. A pattern in slashes is a regex, any other pattern a
literal phrase. `mergeIntoKeywordConfig` hands the literal keyword rules to the matcher's
configuration, `redactorPatternsFromPolicy` lists the regex rules for the redactor.
-/

namespace Nanoguard

open List

open Matcher (KeywordConfig RuleTarget)

inductive Policy.RuleAction where
  | block
  | alert
  | flag
  | redact
  | reject
  | log
  deriving DecidableEq, Repr

structure Policy.Rule where
  id : Text
  category : Text
  severity : Text
  pattern : Text
  action : Policy.RuleAction
  /-- the entity, required for `redact` -/
  placeholder : Option Text
  compliance : List Text
  deriving DecidableEq, Repr

structure Policy where
  version : Nat
  rules : List Policy.Rule
  deriving DecidableEq, Repr

namespace Policy

def regexBody (p : Text) : Option Text :=
  (Str.stripPrefix ['/'] p).bind (Str.stripSuffix ['/'])

/-- The checks of one rule, after rules with the ids `seenIds`. -/
def checkRule (seenIds : List Text) (rule : Rule) : Except Text Unit :=
  if rule.id.isEmpty then .error "rule has empty id".toList
  else if rule.id ∈ seenIds then
    .error ("duplicate rule id `".toList ++ rule.id ++ "`".toList)
  else if rule.pattern.isEmpty then
    .error ("rule `".toList ++ rule.id ++ "` has empty pattern".toList)
  else if rule.action = .redact ∧ rule.placeholder = none then
    .error ("rule `".toList ++ rule.id ++ "` action=redact requires `placeholder` field".toList)
  else .ok ()

def checkRules : List Text → List Rule → Except Text Unit
  | _, [] => .ok ()
  | seenIds, rule :: rules => do
    checkRule seenIds rule
    checkRules (rule.id :: seenIds) rules

def validate (policy : Policy) : Except Text Unit :=
  if policy.version ≠ 1 then
    .error ("unsupported policy version ".toList ++ Str.decimal policy.version ++
      " (expected 1)".toList)
  else checkRules [] policy.rules

def fromYamlStr (parseYaml : Text → Except Text Policy) (s : Text) : Except Text Policy := do
  let policy ← (parseYaml s).mapError fun _ => "parsing policy YAML".toList
  policy.validate
  return policy

def fromPath (parseYaml : Text → Except Text Policy) (readToString : Text → Except Text Text)
    (path : Text) : Except Text Policy := do
  let raw ← (readToString path).mapError fun _ => "reading policy bundle ".toList ++ path
  fromYamlStr parseYaml raw

/-! ## The rule index -/

structure RuleMeta where
  id : Text
  category : Text
  severity : Text
  compliance : List Text
  deriving DecidableEq, Repr

def RuleMeta.fromRule (rule : Rule) : RuleMeta :=
  ⟨rule.id, rule.category, rule.severity, rule.compliance⟩

structure PolicyRuleIndex where
  byLiteral : AList (fun _ : Text => RuleMeta)
  byRegex : AList (fun _ : Text => RuleMeta)
  byPlaceholder : AList (fun _ : Text => RuleMeta)

namespace PolicyRuleIndex

def addRule (idx : PolicyRuleIndex) (rule : Rule) : PolicyRuleIndex :=
  let info := RuleMeta.fromRule rule
  match regexBody rule.pattern with
  | some body =>
    { idx with
      byRegex := idx.byRegex.insert body info
      byPlaceholder :=
        match rule.placeholder with
        | some p => idx.byPlaceholder.insert p info
        | none => idx.byPlaceholder }
  | none =>
    { idx with byLiteral := idx.byLiteral.insert (Str.toAsciiLowercase rule.pattern) info }

def fromPolicy (policy : Policy) : PolicyRuleIndex := policy.rules.foldl addRule ⟨∅, ∅, ∅⟩

def lookupLiteral (idx : PolicyRuleIndex) (matchedText : Text) : Option RuleMeta :=
  idx.byLiteral.lookup (Str.toAsciiLowercase matchedText)

def lookupRegex (idx : PolicyRuleIndex) (body : Text) : Option RuleMeta := idx.byRegex.lookup body

def lookupPlaceholder (idx : PolicyRuleIndex) (placeholder : Text) : Option RuleMeta :=
  idx.byPlaceholder.lookup placeholder

end PolicyRuleIndex

/-! ## Handing out the rules -/

/-- A literal keyword rule goes into the list of its action; the others are passed over. -/
def mergeRule (keyword : KeywordConfig) (rule : Rule) : KeywordConfig :=
  if (regexBody rule.pattern).isSome then keyword
  else
    match rule.action with
    | .block => { keyword with inlineBlock := keyword.inlineBlock ++ [rule.pattern] }
    | .alert => { keyword with inlineAlert := keyword.inlineAlert ++ [rule.pattern] }
    | .flag => { keyword with inlineFlag := keyword.inlineFlag ++ [rule.pattern] }
    | .redact | .reject | .log => keyword

def mergeIntoKeywordConfig (policy : Policy) (keyword : KeywordConfig) : KeywordConfig :=
  policy.rules.foldl mergeRule keyword

def RuleAction.target : RuleAction → Option RuleTarget
  | .block => some .block
  | .alert => some .alert
  | .flag => some .flag
  | .redact | .reject | .log => none

section Merge

variable {target : RuleTarget} {rule : Rule}

theorem mem_inline_mergeRule (keyword : KeywordConfig) (hlit : regexBody rule.pattern = none)
    (htarget : rule.action.target = some target) :
    rule.pattern ∈ (mergeRule keyword rule).inline target := by
  unfold mergeRule
  rw [hlit]
  cases haction : rule.action with
  | block | alert | flag =>
    rw [haction] at htarget
    cases htarget
    exact mem_append_right _ (mem_singleton_self _)
  | redact | reject | log =>
    rw [haction] at htarget
    cases htarget

theorem mergeRule_keeps {keyword : KeywordConfig} {word : Text} (h : word ∈ keyword.inline target)
    (rule : Rule) : word ∈ (mergeRule keyword rule).inline target := by
  unfold mergeRule
  split
  · exact h
  split
  · cases target with
    | block => exact mem_append_left _ h
    | alert | flag => exact h
  · cases target with
    | alert => exact mem_append_left _ h
    | block | flag => exact h
  · cases target with
    | flag => exact mem_append_left _ h
    | block | alert => exact h
  all_goals exact h

theorem mem_inline_merge {policy : Policy} (keyword : KeywordConfig) (hrule : rule ∈ policy.rules)
    (hlit : regexBody rule.pattern = none) (htarget : rule.action.target = some target) :
    rule.pattern ∈ (mergeIntoKeywordConfig policy keyword).inline target := by
  refine foldl_establish (P := fun rule keyword => ∀ target, regexBody rule.pattern = none →
    rule.action.target = some target → rule.pattern ∈ keyword.inline target) ?_ ?_ keyword rule
      hrule target hlit htarget
  · intro keyword rule _ target hlit htarget
    exact mem_inline_mergeRule keyword hlit htarget
  · intro keyword rule _ rule' _ h target hlit htarget
    exact mergeRule_keeps (h target hlit htarget) rule

theorem mergeRule_settings (keyword : KeywordConfig) (rule : Rule) :
    (mergeRule keyword rule).engine = keyword.engine ∧
      (mergeRule keyword rule).normalize = keyword.normalize ∧
      (mergeRule keyword rule).dictPaths = keyword.dictPaths := by
  unfold mergeRule
  split
  · exact ⟨rfl, rfl, rfl⟩
  · split <;> exact ⟨rfl, rfl, rfl⟩

theorem merge_settings (policy : Policy) (keyword : KeywordConfig) :
    (mergeIntoKeywordConfig policy keyword).engine = keyword.engine ∧
      (mergeIntoKeywordConfig policy keyword).normalize = keyword.normalize ∧
      (mergeIntoKeywordConfig policy keyword).dictPaths = keyword.dictPaths := by
  unfold mergeIntoKeywordConfig
  induction policy.rules generalizing keyword with
  | nil => exact ⟨rfl, rfl, rfl⟩
  | cons rule rules ih =>
    obtain ⟨hengine, hnormalize, hpaths⟩ := mergeRule_settings keyword rule
    rw [foldl_cons, (ih _).1, (ih _).2.1, (ih _).2.2]
    exact ⟨hengine, hnormalize, hpaths⟩

end Merge

def redactPattern (rule : Rule) : Option (Text × Text) :=
  if rule.action ≠ .redact then none
  else (regexBody rule.pattern).bind fun body => rule.placeholder.map fun p => (p, body)

def redactorPatternsFromPolicy (policy : Policy) : List (Text × Text) :=
  policy.rules.filterMap redactPattern

end Policy

end Nanoguard

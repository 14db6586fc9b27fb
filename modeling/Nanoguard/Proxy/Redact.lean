import Nanoguard.Guard.Vault
import Nanoguard.Lib.Json
import Nanoguard.Lib.Results
import Nanoguard.Lib.Rewrite

/-!
# The entity-named redactor

A `Redactor` is a list of rules, each an entity name with a compiled pattern. A pass of one rule
replaces all its matches by placeholders; the rules run one after the other. Offsets count characters
where the source counts bytes, and a set of entity names is a list.
-/

namespace Nanoguard.Redact

open List

open Regex (Engine)

inductive PlaceholderStyle where
  | bare
  | indexed
  | llmGuard
  deriving DecidableEq, Repr

variable {inline : List (Text × Text)} {dictPaths : List Text} {style : PlaceholderStyle}

def PlaceholderStyle.parseName (s : Text) : PlaceholderStyle :=
  let s := Str.toAsciiLowercase s
  if s = "indexed".toList then .indexed
  else if s = "llm_guard".toList ∨ s = "llmguard".toList then .llmGuard
  else .bare

structure RedactRule where
  entity : Text
  /-- the bare placeholder; the indexed styles do not use it -/
  placeholder : Text
  regex : Regex

structure Redactor where
  rules : List RedactRule
  style : PlaceholderStyle

structure RedactMatch where
  entity : Text
  start : Nat
  «end» : Nat
  matchedText : Text
  deriving DecidableEq, Repr

def barePlaceholder (entity : Text) : Text := "[".toList ++ entity ++ "]".toList

section Build

variable (eng : Engine) (U : Unicode) (readToString : Text → Except Text Text)

def compile (entity pattern : Text) : Except Text RedactRule :=
  match eng.compile false pattern with
  | some regex => .ok { entity, placeholder := barePlaceholder entity, regex }
  | none => .error ("compiling redactor pattern for ".toList ++ entity ++ ": `".toList ++ pattern ++
      "`".toList)

/-- The entity and the pattern of the dictionary line number `idx`, counted from zero. -/
def parseDictLine (idx : Nat) (rawLine : Text) : Option (Text × Text) :=
  let line := Str.trim rawLine
  if line.isEmpty || line.head? = some '#' then none
  else
    let cols := Str.splitChar '\t' line
    match ((cols.head?.bind (Str.stripPrefix ['/'])).bind (Str.rsplitOnce '/')) with
    | none => none
    | some (stripped, _) =>
      if stripped.isEmpty then none
      else
        let entityLabel := Str.trim (cols.tail.head?.getD [])
        -- a numeric label is the severity column of the older dictionaries
        let entity :=
          if entityLabel.isEmpty || (Str.parseU32 entityLabel).isSome then
            "PII_".toList ++ Str.decimal (idx + 1)
          else Str.toUppercase U entityLabel
        some (entity, stripped)

/-- Lines whose pattern does not compile are skipped. -/
def loadRedactorFile (path : Text) (rules : List RedactRule) : Except Text (List RedactRule) := do
  let content ← readToString path
  return rules ++ (Str.lines content).zipIdx.filterMap fun (line, idx) =>
    (parseDictLine U idx line).bind fun (entity, pattern) => (compile eng entity pattern).toOption

def Redactor.buildWithStyle (inline : List (Text × Text)) (dictPaths : List Text)
    (style : PlaceholderStyle) : Except Text Redactor := do
  let rules ← inline.mapM fun (entity, pattern) => compile eng entity pattern
  let rules ← dictPaths.foldlM (fun rules path =>
    (loadRedactorFile eng U readToString path rules).mapError fun _ =>
      "loading redactor file ".toList ++ path) rules
  return { rules, style }

def Redactor.build (inline : List (Text × Text)) (dictPaths : List Text) : Except Text Redactor :=
  Redactor.buildWithStyle eng U readToString inline dictPaths .bare

def dictPatterns (path : Text) : List (Text × Text) :=
  match readToString path with
  | .ok content => (Str.lines content).zipIdx.filterMap fun (line, idx) => parseDictLine U idx line
  | .error _ => []

end Build

section Rules

variable {eng : Engine} {U : Unicode} {readToString : Text → Except Text Text}

def dictRule (eng : Engine) (p : Text × Text) : Option RedactRule := (compile eng p.1 p.2).toOption

theorem dictRule_eq_some {p : Text × Text} {rule : RedactRule} :
    dictRule eng p = some rule ↔ compile eng p.1 p.2 = .ok rule := by
  unfold dictRule
  cases compile eng p.1 p.2 <;> simp [Except.toOption]

theorem loadRedactorFile_eq {path : Text} {rules rules' : List RedactRule}
    (h : loadRedactorFile eng U readToString path rules = .ok rules') :
    rules' = rules ++ (dictPatterns U readToString path).filterMap (dictRule eng) := by
  obtain ⟨content, hread, h⟩ := bind_eq_ok.1 h
  cases h
  unfold dictPatterns
  rw [hread, filterMap_filterMap]
  rfl

theorem Redactor.rules_build {r : Redactor}
    (h : Redactor.buildWithStyle eng U readToString inline dictPaths style = .ok r) :
    r.rules = (inline ++ dictPaths.flatMap (dictPatterns U readToString)).filterMap
      (dictRule eng) := by
  obtain ⟨rules, hrules, h⟩ := bind_eq_ok.1 h
  obtain ⟨rules', hrules', h⟩ := bind_eq_ok.1 h
  cases h
  have hload := foldlM_ok_append (fun _ _ _ h => loadRedactorFile_eq (mapError_eq_ok.1 h)) hrules'
  have hinline : rules = inline.filterMap (dictRule eng) := mapM_ok_eq hrules
  rw [filterMap_append, filterMap_flatMap, ← hinline]
  exact hload

theorem Redactor.mem_rules_build {r : Redactor}
    (h : Redactor.buildWithStyle eng U readToString inline dictPaths style = .ok r)
    (rule : RedactRule) : rule ∈ r.rules ↔
      ∃ p ∈ inline ++ dictPaths.flatMap (dictPatterns U readToString),
        compile eng p.1 p.2 = .ok rule := by
  rw [Redactor.rules_build h, mem_filterMap]
  exact exists_congr fun p => and_congr_right fun _ => dictRule_eq_some

end Rules

def defaultInlinePatterns : List (Text × Text) :=
  [("EMAIL".toList,
      "\\b[A-Za-z0-9._%+\\-]+@[A-Za-z0-9.\\-]+\\.[A-Za-z]\x7b2,\x7d\\b".toList),
    ("SSN".toList, "\\b\\d\x7b3\x7d-\\d\x7b2\x7d-\\d\x7b4\x7d\\b".toList),
    ("CARD".toList,
      "\\b\\d\x7b4\x7d[- ]?\\d\x7b4\x7d[- ]?\\d\x7b4\x7d[- ]?\\d\x7b4\x7d\\b".toList),
    ("AWS_ACCESS_KEY_ID".toList, "\\bAKIA[0-9A-Z]\x7b16\x7d\\b".toList),
    ("GITHUB_PAT".toList, "\\bghp_[A-Za-z0-9]\x7b36\x7d\\b".toList),
    ("GITHUB_FINE_GRAINED_PAT".toList, "\\bgithub_pat_[A-Za-z0-9_]\x7b82\x7d\\b".toList),
    ("OPENAI_KEY".toList, "\\bsk-[A-Za-z0-9]\x7b20,\x7d\\b".toList),
    ("ANTHROPIC_KEY".toList, "\\bsk-ant-[A-Za-z0-9_\\-]\x7b80,\x7d\\b".toList),
    ("STRIPE_KEY".toList, "\\b(?:sk|rk)_live_[A-Za-z0-9]\x7b20,\x7d\\b".toList),
    ("GOOGLE_API_KEY".toList, "\\bAIza[0-9A-Za-z_\\-]\x7b35\x7d\\b".toList),
    ("JWT".toList, "\\beyJ[A-Za-z0-9_\\-]+\\.[A-Za-z0-9_\\-]+\\.[A-Za-z0-9_\\-]+\\b".toList),
    ("SLACK_TOKEN".toList, "\\bxox[abpors]-[A-Za-z0-9-]\x7b10,\x7d\\b".toList),
    ("TOKEN".toList, "\\b[A-Za-z0-9_\\-]\x7b32,\x7d\\b".toList)]

/-! ## Placeholders of one call -/

/-- Assigns placeholders to pairs of an entity and a value. -/
structure Indexer where
  style : PlaceholderStyle
  seen : AList (fun _ : Text × Text => Nat)
  next : AList (fun _ : Text => Nat)

namespace Indexer

def new (style : PlaceholderStyle) : Indexer := ⟨style, ∅, ∅⟩

def format (style : PlaceholderStyle) (entity : Text) (idx : Nat) : Text :=
  match style with
  | .indexed => "[".toList ++ entity ++ "_".toList ++ Str.decimal idx ++ "]".toList
  | .llmGuard => "[REDACTED_".toList ++ entity ++ "_".toList ++ Str.decimal idx ++ "]".toList
  | .bare => barePlaceholder entity

def placeholder (ix : Indexer) (entity value : Text) : Indexer × Text :=
  match ix.seen.lookup (entity, value) with
  | some idx => (ix, format ix.style entity idx)
  | none =>
    let idx := ((ix.next.lookup entity).getD 0 + 1) % 2 ^ 32
    ({ ix with next := ix.next.insert entity idx, seen := ix.seen.insert (entity, value) idx },
      format ix.style entity idx)

end Indexer

section RedactText

variable {σ : Type}

/-- One rule: its matches are replaced from right to left, so that offsets stay valid. -/
def RedactRule.rewrite (store : σ → Text → Text → σ × Text) (rule : RedactRule) (st : σ)
    (out : Text) : σ × Text :=
  rewriteRev (fun st value => store st rule.entity value) (rule.regex.matches out) st out

/-- The loop over the rules, each on the text its predecessors left. -/
def rewriteRules (store : σ → Text → Text → σ × Text) (rules : List RedactRule) (st : σ)
    (text : Text) : σ × Text :=
  rules.foldl (fun acc rule => rule.rewrite store acc.1 acc.2) (st, text)

/-- The same loop for placeholders without an index. -/
def replaceRules (rules : List RedactRule) (text : Text) : Text :=
  rules.foldl (fun out rule => rule.regex.replaceAll out rule.placeholder) text

/-- Redact with all the given rules in one of the styles. -/
def redactBy (style : PlaceholderStyle) (rules : List RedactRule) (text : Text) : Text :=
  match style with
  | .bare => replaceRules rules text
  | style => (rewriteRules Indexer.placeholder rules (Indexer.new style) text).2

namespace Redactor

variable (r : Redactor)

def ruleCount : Nat := r.rules.length

/-- The rules whose entity is in the set. -/
def rulesIn (entities : List Text) : List RedactRule :=
  r.rules.filter fun rule => decide (rule.entity ∈ entities)

def entityNames : List Text := (r.rules.map RedactRule.entity).dedup

def containsPii (text : Text) : Bool := r.rules.any fun rule => rule.regex.isMatch text

def containsPiiIn (text : Text) (entities : List Text) : Bool :=
  r.rules.any fun rule => decide (rule.entity ∈ entities) && rule.regex.isMatch text

def redactText (text : Text) : Text := redactBy r.style r.rules text

def redactTextIn (text : Text) (entities : List Text) : Text :=
  redactBy r.style (r.rulesIn entities) text

def redactTextWithVault {V : Type} [Vault V] (text : Text) (entities : List Text) (vault : V) :
    V × Text :=
  rewriteRules Vault.store (r.rulesIn entities) vault text

def findMatches (text : Text) : List RedactMatch :=
  r.rules.flatMap fun rule => (rule.regex.matches text).map fun m =>
    { entity := rule.entity, start := m.1, «end» := m.2.1, matchedText := m.2.2 }

end Redactor

end RedactText

theorem Redactor.rulesIn_build {eng : Engine} {U : Unicode} {readToString : Text → Except Text Text}
    {r : Redactor} (h : Redactor.buildWithStyle eng U readToString inline dictPaths style = .ok r)
    (entities : List Text) :
    r.rulesIn entities =
      ((inline ++ dictPaths.flatMap (dictPatterns U readToString)).filter
        fun p => decide (p.1 ∈ entities)).filterMap (dictRule eng) := by
  unfold Redactor.rulesIn
  rw [Redactor.rules_build h]
  rw [filter_filterMap, filterMap_filter]
  refine filterMap_congr fun p _ => ?_
  -- the rule of a pattern has its entity
  unfold dictRule compile
  cases eng.compile false p.2 with
  | none => simp [Except.toOption]
  | some regex => simp [Except.toOption, Option.filter]

section RedactMessages

variable {σ : Type}

/-- Redact a string in place; the flag records a change. -/
def redactStr (redact : σ → Text → σ × Text) (st : σ × Bool) (value : Json) :
    (σ × Bool) × Json :=
  match value with
  | .str text =>
    let (s, redacted) := redact st.1 text
    if redacted ≠ text then ((s, true), .str redacted) else ((s, st.2), value)
  | _ => (st, value)

/-- A content is a string or an array of parts. -/
def redactContent (redact : σ → Text → σ × Text) (st : σ × Bool) (content : Json) :
    (σ × Bool) × Json :=
  match content with
  | .arr parts =>
    let (st, parts) := Json.updateItems
      (fun st part => part.update "text".toList (redactStr redact) st) st parts
    (st, .arr parts)
  | content => redactStr redact st content

/-- The walk over `messages[].content` that the three functions below share. -/
def redactMessagesBy (redact : σ → Text → σ × Text) (body : Json) (st : σ) : (σ × Bool) × Json :=
  body.update "messages".toList (fun st messages =>
    match messages with
    | .arr msgs =>
      let (st, msgs) := Json.updateItems
        (fun st msg => msg.update "content".toList (redactContent redact) st) st msgs
      (st, .arr msgs)
    | messages => (st, messages)) (st, false)

namespace Redactor

variable (r : Redactor)

def redactMessages (body : Json) : Bool × Json :=
  let (st, body) := redactMessagesBy (fun _ text => ((), r.redactText text)) body ()
  (st.2, body)

def redactMessagesIn (body : Json) (entities : List Text) : Bool × Json :=
  let (st, body) := redactMessagesBy (fun _ text => ((), r.redactTextIn text entities)) body ()
  (st.2, body)

def redactMessagesWithVault {V : Type} [Vault V] (body : Json) (entities : List Text)
    (vault : V) : V × Bool × Json :=
  let (st, body) := redactMessagesBy
    (fun vault text => r.redactTextWithVault text entities vault) body vault
  (st.1, st.2, body)

end Redactor

end RedactMessages

/-! ## Actions per entity -/

inductive PiiAction where
  | mask
  | reject
  | log
  deriving DecidableEq, Repr

structure ActionPartition where
  mask : List Text
  reject : List Text
  log : List Text
  deriving DecidableEq, Repr

def partitionByAction (allEntities : List Text) (overrides : AList (fun _ : Text => PiiAction))
    (defaultAction : PiiAction) : ActionPartition :=
  let actionOf (entity : Text) := (overrides.lookup entity).getD defaultAction
  { mask := allEntities.filter fun e => actionOf e = .mask
    reject := allEntities.filter fun e => actionOf e = .reject
    log := allEntities.filter fun e => actionOf e = .log }

end Nanoguard.Redact

import Nanoguard.Lib.AhoCorasick
import Nanoguard.Lib.Results
import Nanoguard.Lib.Rewrite
import Nanoguard.Matcher.Normalize

/-!
# Keyword scanners

An input scanner gives a verdict on a normalised text. The default engine searches literal phrases
and regexes in three buckets, block before alert before flag. The older engine is a dictionary of
another crate, taken as a parameter.
-/

namespace Nanoguard.Matcher

open List

open Regex (Engine)

inductive InputVerdict where
  | blocked (rule : Text)
  | alert (rule : Text)
  | flagged (rule : Text)
  | clean
  deriving DecidableEq, Repr

structure KeywordConfig where
  engine : Text
  dictPaths : List Text
  inlineBlock : List Text
  inlineAlert : List Text
  inlineFlag : List Text
  normalize : NormalizeConfig

/-! ## The aho-corasick engine -/

structure RegexRule where
  pattern : Text
  regex : Regex

inductive RuleTarget where
  | block
  | alert
  | flag
  deriving DecidableEq, Repr

/-- The rules with one verdict. -/
structure Bucket where
  words : List Text
  regexes : List RegexRule

structure AcScanner where
  block : Bucket
  alert : Bucket
  flag : Bucket

def Bucket.addLiteral (b : Bucket) (word : Text) : Bucket := { b with words := b.words ++ [word] }

def Bucket.addRegex (b : Bucket) (rule : RegexRule) : Bucket :=
  { b with regexes := b.regexes ++ [rule] }

def AcScanner.modify (s : AcScanner) (target : RuleTarget) (f : Bucket → Bucket) : AcScanner :=
  match target with
  | .block => { s with block := f s.block }
  | .alert => { s with alert := f s.alert }
  | .flag => { s with flag := f s.flag }

def parseRegexPattern (pattern : Text) : Option Text :=
  ((Str.stripPrefix ['/'] pattern).bind (Str.stripSuffix ['/'])).filter fun p => !p.isEmpty

section Build

variable (eng : Engine) (U : Unicode) (readToString : Text → Except Text Text)

/-- The bucket whose number stands in the column after the pattern. -/
def acDictTarget (at_ : Text) (cols : List Text) : Except Text RuleTarget :=
  match cols with
  | [] => .error (at_ ++ "missing key".toList)
  | key :: _ =>
    match Str.parseU32 key with
    | none => .error (at_ ++ "invalid key `".toList ++ key ++ "`".toList)
    | some 0 => .ok .block
    | some 1 => .ok .alert
    | some 2 => .ok .flag
    | some other =>
      .error (at_ ++ "unsupported key `".toList ++ Str.decimal other ++ "`".toList)

/-- How the pattern of a line enters its bucket. -/
def acDictEntry (opts : NormalizeConfig) (at_ pattern : Text) : Except Text (Bucket → Bucket) :=
  match parseRegexPattern pattern with
  | some regexPattern =>
    match eng.compile true regexPattern with
    | none => .error (at_ ++ "invalid regex `".toList ++ regexPattern ++ "`".toList)
    | some regex => .ok (·.addRegex ⟨regexPattern, regex⟩)
  | none => .ok (·.addLiteral (normalizeWith U opts pattern))

def loadAcDictLine (opts : NormalizeConfig) (path : Text) (rules : AcScanner)
    (numbered : Text × Nat) : Except Text AcScanner :=
  let (rawLine, idx) := numbered
  let at_ := path ++ ":".toList ++ Str.decimal (idx + 1) ++ ": ".toList
  let line := Str.trim rawLine
  if line.isEmpty || line.head? = some '#' then .ok rules
  else
    match (Str.splitChar '\t' line).map Str.trim with
    | [] => .ok rules
    | pattern :: cols =>
      if pattern.isEmpty then .ok rules
      else do
        let target ← acDictTarget at_ cols
        let entry ← acDictEntry eng U opts at_ pattern
        return rules.modify target entry

def loadAcDictFile (opts : NormalizeConfig) (rules : AcScanner) (path : Text) :
    Except Text AcScanner := do
  let content ← readToString path
  (Str.lines content).zipIdx.foldlM (loadAcDictLine eng U opts path) rules

def AcScanner.build (cfg : KeywordConfig) : Except Text AcScanner :=
  let literals (words : List Text) : Bucket := ⟨words.map (normalizeWith U cfg.normalize), []⟩
  cfg.dictPaths.foldlM (fun rules path =>
    (loadAcDictFile eng U readToString cfg.normalize rules path).mapError fun _ =>
      "loading dictionary file ".toList ++ path)
    ⟨literals cfg.inlineBlock, literals cfg.inlineAlert, literals cfg.inlineFlag⟩

end Build

/-- The rule reported for a text, literals before regexes. -/
def Bucket.hit (b : Bucket) (norm : Text) : Option Text :=
  ((AhoCorasick.find b.words norm).bind (b.words[·]?)).or
    ((b.regexes.find? fun r => r.regex.isMatch norm).map RegexRule.pattern)

def AcScanner.check (s : AcScanner) (norm : Text) : InputVerdict :=
  match s.block.hit norm with
  | some rule => .blocked rule
  | none =>
    match s.alert.hit norm with
    | some rule => .alert rule
    | none =>
      match s.flag.hit norm with
      | some rule => .flagged rule
      | none => .clean

/-! ## The iword engine -/

inductive IwordKey where
  | block
  | alert
  | flag
  | other (key : Nat)
  deriving DecidableEq, Repr

/-- A dictionary of the other crate, in the mode the scanner uses. -/
structure IwordScanner where
  /-- the matches with the given key: position and length -/
  scanKey : IwordKey → Text → List (Nat × Nat)
  /-- the key of the text with the printed score -/
  classify : Text → Option (IwordKey × Text)

/-- Word lists with their keys and dictionary files give a dictionary. -/
abbrev IwordBuilder := List (List Text × IwordKey) → List Text → Except Text IwordScanner

def IwordScanner.build (iword : IwordBuilder) (cfg : KeywordConfig) : Except Text IwordScanner :=
  let lists :=
    [(cfg.inlineBlock, IwordKey.block), (cfg.inlineAlert, .alert), (cfg.inlineFlag, .flag)]
  iword (lists.filter fun l => !l.1.isEmpty) cfg.dictPaths

def IwordScanner.check (s : IwordScanner) (norm : Text) : InputVerdict :=
  let word (m : Nat × Nat) := (norm.drop m.1).take m.2
  match (s.scanKey .block norm).head? with
  | some m => .blocked (word m)
  | none =>
    match (s.scanKey .alert norm).head? with
    | some m => .alert (word m)
    | none =>
      match s.classify norm with
      | some (.flag, score) => .flagged ("score=".toList ++ score)
      | _ => .clean

/-! ## Matchers -/

inductive InputScanner where
  | ac (scanner : AcScanner)
  | iword (scanner : IwordScanner)

def InputScanner.check : InputScanner → Text → InputVerdict
  | .ac s => s.check
  | .iword s => s.check

def InputScanner.engineName : InputScanner → Text
  | .ac _ => "aho-corasick".toList
  | .iword _ => "iword-rs".toList

structure Matchers where
  input : InputScanner
  normalize : NormalizeConfig

namespace Matchers

section Build

variable (eng : Engine) (U : Unicode) (iword : IwordBuilder)
  (readToString : Text → Except Text Text)

def buildWithEngine (cfg : KeywordConfig) (engine : Text) : Except Text Matchers := do
  let input ←
    if engine = "aho-corasick".toList then
      InputScanner.ac <$> AcScanner.build eng U readToString cfg
    else if engine = "iword-rs".toList then InputScanner.iword <$> IwordScanner.build iword cfg
    else .error ("unknown keyword engine `".toList ++ engine ++
      "` (expected `iword-rs` or `aho-corasick`)".toList)
  return ⟨input, cfg.normalize⟩

def build (cfg : KeywordConfig) : Except Text Matchers :=
  buildWithEngine eng U iword readToString cfg cfg.engine

end Build

variable (U : Unicode) (m : Matchers)

def checkInput (text : Text) : InputVerdict := m.input.check (normalizeWith U m.normalize text)

/-- In shadow mode a block is demoted to a flag. -/
def checkInputWithShadow (text : Text) (shadow : Bool) : InputVerdict :=
  match m.checkInput U text, shadow with
  | .blocked rule, true => .flagged ("shadow_block:".toList ++ rule)
  | verdict, _ => verdict

end Matchers

/-! ## Blocking a part of a text -/

def InputVerdict.isBlocked : InputVerdict → Bool
  | .blocked _ => true
  | _ => false

/-- The rules that block do not depend on the ends of the text. -/
def InputScanner.BlockStable : InputScanner → Prop
  | .ac s => ∀ rule ∈ s.block.regexes, Str.WordStable rule.regex.isMatch
  | .iword s => Str.WordStable fun t => !(s.scanKey .block t).isEmpty

theorem Bucket.hit_isSome (b : Bucket) (norm : Text) :
    (b.hit norm).isSome ↔
      (∃ word ∈ b.words, word <:+: norm) ∨ ∃ r ∈ b.regexes, r.regex.isMatch norm = true := by
  have hbind : ((AhoCorasick.find b.words norm).bind (b.words[·]?)).isSome =
      (AhoCorasick.find b.words norm).isSome := by
    cases hfind : AhoCorasick.find b.words norm with
    | none => rfl
    | some i => simp [AhoCorasick.find_lt hfind]
  unfold Bucket.hit
  rw [Option.isSome_or, hbind, Option.isSome_map, Bool.or_eq_true, AhoCorasick.find_isSome,
    find?_isSome]

theorem AcScanner.isBlocked_check (s : AcScanner) (norm : Text) :
    (s.check norm).isBlocked = (s.block.hit norm).isSome := by
  unfold AcScanner.check
  cases s.block.hit norm with
  | some rule => rfl
  | none =>
    cases s.alert.hit norm with
    | some rule => rfl
    | none => cases s.flag.hit norm <;> rfl

theorem IwordScanner.isBlocked_check (s : IwordScanner) (norm : Text) :
    (s.check norm).isBlocked = !(s.scanKey .block norm).isEmpty := by
  unfold IwordScanner.check
  cases s.scanKey .block norm with
  | cons m ms => rfl
  | nil =>
    cases (s.scanKey .alert norm).head? with
    | some m => rfl
    | none =>
      cases s.classify norm with
      | none => rfl
      | some r => rcases r with ⟨key, score⟩; cases key <;> rfl

theorem InputScanner.check_wordsOf {s : InputScanner} (hs : s.BlockStable) {t u : Text}
    (h : Str.WordsOf t u) (hblock : (s.check t).isBlocked = true) :
    (s.check u).isBlocked = true := by
  cases s with
  | ac s =>
    simp only [InputScanner.check, AcScanner.isBlocked_check, Bucket.hit_isSome] at hblock ⊢
    rcases hblock with ⟨word, hword, hin⟩ | ⟨r, hr, hmatch⟩
    · exact .inl ⟨word, hword, hin.trans h.contained⟩
    · exact .inr ⟨r, hr, hs r hr t u h hmatch⟩
  | iword s =>
    simp only [InputScanner.check, IwordScanner.isBlocked_check] at hblock ⊢
    exact hs t u h hblock

theorem Matchers.checkInput_wordsOf {U : Unicode} {m : Matchers} (hm : m.input.BlockStable)
    {t u : Text} (h : Str.WordsOf t u) (hblock : (m.checkInput U t).isBlocked = true) :
    (m.checkInput U u).isBlocked = true :=
  InputScanner.check_wordsOf hm (normalizeWith_wordsOf h) hblock

/-! ## The verdict of one rule -/

/-- Verdicts from the mildest to the strongest. -/
def InputVerdict.level : InputVerdict → Nat
  | .clean => 0
  | .flagged _ => 1
  | .alert _ => 2
  | .blocked _ => 3

def RuleTarget.level : RuleTarget → Nat
  | .flag => 1
  | .alert => 2
  | .block => 3

theorem RuleTarget.level_le (target : RuleTarget) : target.level ≤ 3 := by
  cases target <;> decide

def AcScanner.bucket (s : AcScanner) : RuleTarget → Bucket
  | .block => s.block
  | .alert => s.alert
  | .flag => s.flag

def KeywordConfig.inline (cfg : KeywordConfig) : RuleTarget → List Text
  | .block => cfg.inlineBlock
  | .alert => cfg.inlineAlert
  | .flag => cfg.inlineFlag

/-- A dictionary line with a phrase that is not a regex. -/
def DictPhrase (target : RuleTarget) (phrase rawLine : Text) : Prop :=
  (Str.trim rawLine).head? ≠ some '#' ∧ phrase ≠ [] ∧ parseRegexPattern phrase = none ∧
    ∃ cols, (Str.splitChar '\t' (Str.trim rawLine)).map Str.trim = phrase :: cols ∧
      acDictTarget [] cols = .ok target

/-- The phrases of the configuration with one verdict: inline and in the dictionary files. -/
def KeywordConfig.Phrase (cfg : KeywordConfig) (readToString : Text → Except Text Text)
    (target : RuleTarget) (phrase : Text) : Prop :=
  phrase ∈ cfg.inline target ∨
    ∃ path ∈ cfg.dictPaths, ∃ content, readToString path = .ok content ∧
      ∃ line ∈ Str.lines content, DictPhrase target phrase line

theorem AcScanner.level_check {s : AcScanner} {target : RuleTarget} {norm : Text}
    (h : ((s.bucket target).hit norm).isSome = true) : target.level ≤ (s.check norm).level := by
  unfold AcScanner.check
  cases hblock : s.block.hit norm with
  | some rule => exact RuleTarget.level_le target
  | none =>
    cases halert : s.alert.hit norm with
    | some rule =>
      cases target with
      | block => simp [AcScanner.bucket, hblock] at h
      | alert => exact le_rfl
      | flag => exact Nat.le_succ 1
    | none =>
      cases target with
      | block => simp [AcScanner.bucket, hblock] at h
      | alert => simp [AcScanner.bucket, halert] at h
      | flag =>
        obtain ⟨rule, hrule⟩ := Option.isSome_iff_exists.1 h
        have hflag : s.flag.hit norm = some rule := hrule
        rw [hflag]
        exact le_rfl

section Load

variable {eng : Engine} {U : Unicode} {readToString : Text → Except Text Text}
  {opts : NormalizeConfig} {word : Text} {target : RuleTarget} {rules rules' : AcScanner}

theorem AcScanner.mem_words_modify (h : word ∈ (rules.bucket target).words) (target' : RuleTarget)
    {f : Bucket → Bucket} (hf : ∀ b, word ∈ b.words → word ∈ (f b).words) :
    word ∈ ((rules.modify target' f).bucket target).words := by
  cases target <;> cases target' <;> first | exact h | exact hf _ h

theorem acDictEntry_keeps {at_ pattern : Text} {entry : Bucket → Bucket}
    (hentry : acDictEntry eng U opts at_ pattern = .ok entry) (b : Bucket) (h : word ∈ b.words) :
    word ∈ (entry b).words := by
  unfold acDictEntry at hentry
  split at hentry
  · split at hentry
    · cases hentry
    · cases hentry
      exact h
  · cases hentry
    exact mem_append_left _ h

theorem loadAcDictLine_keeps {path : Text} {numbered : Text × Nat}
    (h : word ∈ (rules.bucket target).words)
    (hload : loadAcDictLine eng U opts path rules numbered = .ok rules') :
    word ∈ (rules'.bucket target).words := by
  unfold loadAcDictLine at hload
  dsimp only at hload
  split at hload
  · cases hload
    exact h
  split at hload
  · cases hload
    exact h
  split at hload
  · cases hload
    exact h
  obtain ⟨target', -, hload⟩ := bind_eq_ok.1 hload
  obtain ⟨entry, hentry, hload⟩ := bind_eq_ok.1 hload
  cases hload
  exact AcScanner.mem_words_modify h target' (acDictEntry_keeps hentry)

theorem loadAcDictFile_keeps {path : Text} (h : word ∈ (rules.bucket target).words)
    (hload : loadAcDictFile eng U readToString opts rules path = .ok rules') :
    word ∈ (rules'.bucket target).words := by
  obtain ⟨content, -, hload⟩ := bind_eq_ok.1 hload
  exact foldlM_ok_inv (fun _ _ _ => loadAcDictLine_keeps) h hload

theorem AcScanner.mem_words_addLiteral (rules : AcScanner) (target : RuleTarget) (word : Text) :
    word ∈ ((rules.modify target (·.addLiteral word)).bucket target).words := by
  cases target <;> exact mem_append_right _ (mem_singleton_self word)

theorem acDictTarget_eq_ok {at_ : Text} {cols : List Text} :
    acDictTarget at_ cols = .ok target ↔ acDictTarget [] cols = .ok target := by
  unfold acDictTarget
  cases cols with
  | nil => simp
  | cons key cols =>
    dsimp only
    split <;> simp

theorem loadAcDictLine_phrase {path : Text} {idx : Nat} {line : Text}
    (hline : DictPhrase target word line)
    (hload : loadAcDictLine eng U opts path rules (line, idx) = .ok rules') :
    normalizeWith U opts word ∈ (rules'.bucket target).words := by
  obtain ⟨hhead, hne, hliteral, cols, hcols, htarget⟩ := hline
  have hempty : (Str.trim line).isEmpty = false := by
    rw [← Bool.not_eq_true, List.isEmpty_iff]
    intro hnil
    rw [hnil] at hcols
    have hword : word = [] := (List.cons.inj hcols).1.symm
    exact hne hword
  unfold loadAcDictLine at hload
  dsimp only at hload
  rw [hempty, if_neg (by simpa using hhead), hcols] at hload
  dsimp only at hload
  rw [if_neg (by simpa using hne)] at hload
  obtain ⟨target', htarget', hload⟩ := bind_eq_ok.1 hload
  obtain ⟨entry, hentry, hload⟩ := bind_eq_ok.1 hload
  have heq : Except.ok target' = Except.ok (ε := Text) target :=
    (acDictTarget_eq_ok.1 htarget').symm.trans htarget
  cases heq
  unfold acDictEntry at hentry
  rw [hliteral] at hentry
  cases hentry
  cases hload
  exact AcScanner.mem_words_addLiteral rules target _

theorem loadAcDictFile_phrase {path content line : Text} (hread : readToString path = .ok content)
    (hmem : line ∈ Str.lines content) (hline : DictPhrase target word line)
    (hload : loadAcDictFile eng U readToString opts rules path = .ok rules') :
    normalizeWith U opts word ∈ (rules'.bucket target).words := by
  obtain ⟨content', hread', hload⟩ := bind_eq_ok.1 hload
  rw [hread] at hread'
  cases hread'
  obtain ⟨idx, hidx⟩ : ∃ idx, (line, idx) ∈ (Str.lines content).zipIdx := by
    obtain ⟨i, hi, hget⟩ := mem_iff_getElem.1 hmem
    exact ⟨i, mem_zipIdx_iff_getElem?.2 (by simp [hi, hget])⟩
  exact foldlM_ok_of_mem (fun _ _ _ => loadAcDictLine_keeps) hidx
    (fun _ _ => loadAcDictLine_phrase hline) hload

theorem AcScanner.mem_words_build {cfg : KeywordConfig} {s : AcScanner}
    (hbuild : AcScanner.build eng U readToString cfg = .ok s)
    (hword : cfg.Phrase readToString target word) :
    normalizeWith U cfg.normalize word ∈ (s.bucket target).words := by
  have hkeep : ∀ rules path rules',
      normalizeWith U cfg.normalize word ∈ (AcScanner.bucket rules target).words →
        ((loadAcDictFile eng U readToString cfg.normalize rules path).mapError fun _ =>
          "loading dictionary file ".toList ++ path) = .ok rules' →
        normalizeWith U cfg.normalize word ∈ (rules'.bucket target).words :=
    fun _ _ _ h hload => loadAcDictFile_keeps h (mapError_eq_ok.1 hload)
  rcases hword with hword | ⟨path, hpath, content, hread, line, hmem, hline⟩
  · refine foldlM_ok_inv hkeep ?_ hbuild
    cases target <;> exact mem_map_of_mem hword
  · exact foldlM_ok_of_mem hkeep hpath
      (fun _ _ hload => loadAcDictFile_phrase hread hmem hline (mapError_eq_ok.1 hload)) hbuild

theorem Matchers.level_checkInput {iword : IwordBuilder} {cfg : KeywordConfig} {m : Matchers}
    (hbuild : Matchers.build eng U iword readToString cfg = .ok m)
    (hengine : cfg.engine = "aho-corasick".toList) (hsep : cfg.normalize.separators = false)
    (hword : cfg.Phrase readToString target word) {text : Text}
    (hplain : Str.isAscii text = true ∨ cfg.normalize.nfkc = false) (hin : word <:+: text) :
    target.level ≤ (m.checkInput U text).level := by
  unfold Matchers.build Matchers.buildWithEngine at hbuild
  rw [if_pos hengine] at hbuild
  obtain ⟨input, hinput, hm⟩ := bind_eq_ok.1 hbuild
  obtain ⟨s, hs, rfl⟩ := map_eq_ok.1 hinput
  cases hm
  refine AcScanner.level_check ?_
  rw [Bucket.hit_isSome]
  exact .inl ⟨_, AcScanner.mem_words_build hs hword, normalizeWith_isInfix hsep hplain hin⟩

theorem InputVerdict.isBlocked_iff_level (verdict : InputVerdict) :
    verdict.isBlocked = true ↔ RuleTarget.block.level ≤ verdict.level := by
  cases verdict <;> simp [InputVerdict.isBlocked, InputVerdict.level, RuleTarget.level]

/-- **No block phrase slips through as written**: a text that contains one, inline or of a
dictionary file, is blocked whatever stands around it. -/
theorem checkInput_blocked_of_phrase (eng : Engine) (U : Unicode) (iword : IwordBuilder)
    (readToString : Text → Except Text Text) (cfg : KeywordConfig) (m : Matchers)
    (hbuild : Matchers.build eng U iword readToString cfg = .ok m)
    (hengine : cfg.engine = "aho-corasick".toList) (hsep : cfg.normalize.separators = false)
    (text : Text) (hplain : Str.isAscii text = true ∨ cfg.normalize.nfkc = false)
    (hphrase : ∃ phrase, cfg.Phrase readToString .block phrase ∧ phrase <:+: text) :
    (m.checkInput U text).isBlocked = true := by
  obtain ⟨phrase, hphrase, hin⟩ := hphrase
  rw [InputVerdict.isBlocked_iff_level]
  exact Matchers.level_checkInput hbuild hengine hsep hphrase hplain hin

def examplePhrases : KeywordConfig where
  engine := "aho-corasick".toList
  dictPaths := ["words.tsv".toList]
  inlineBlock := ["Leak  it".toList]
  inlineAlert := []
  inlineFlag := []
  normalize := ⟨false, true, false, true⟩

/-- A phrase of a dictionary file, in a text of another script. -/
theorem checkInput_blocked_of_dict_phrase :
    ∃ m, Matchers.build .basic .ascii (fun _ _ => .error [])
        (fun _ => .ok "# words\nDrop 7ables\t0".toList) examplePhrases = .ok m ∧
      (m.checkInput .ascii "é: Drop 7ables é".toList).isBlocked = true := by
  refine ⟨_, rfl, ?_⟩
  refine checkInput_blocked_of_phrase .basic .ascii (fun _ _ => .error [])
    (fun _ => .ok "# words\nDrop 7ables\t0".toList) examplePhrases _ rfl rfl rfl _ (.inr rfl) ?_
  refine ⟨"Drop 7ables".toList, .inr ?_, "é: ".toList, " é".toList, by decide⟩
  refine ⟨_, mem_singleton_self _, _, rfl, "Drop 7ables\t0".toList, by decide, ?_⟩
  exact ⟨by decide, by decide, by decide, ["0".toList], by decide, rfl⟩

end Load

end Nanoguard.Matcher

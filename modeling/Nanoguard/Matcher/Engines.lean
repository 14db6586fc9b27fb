import Nanoguard.Matcher.Settled

/-!
# The two keyword engines

Both engines scan the normalised text. The default engine normalises its phrases too; the older one
is given them as they are configured. With inline phrases for blocks and alerts only, the level of a
verdict is the same function of the text in both, of the normalised phrases in one and of the raw
phrases in the other.
-/

namespace Nanoguard.Matcher

open List

open Regex (Engine)

/-- The dictionary reports the occurrences of its words, and it classifies texts under keys of its
words only. -/
def IwordBuilder.Literal (iword : IwordBuilder) : Prop :=
  ∀ lists, ∃ s, iword lists [] = .ok s ∧
    (∀ key text i n, (i, n) ∈ s.scanKey key text ↔
      i ≤ text.length ∧
        ∃ words, (words, key) ∈ lists ∧ ∃ w ∈ words, w.length = n ∧ w <+: text.drop i) ∧
    ∀ text key score, s.classify text = some (key, score) → ∃ words, (words, key) ∈ lists

def occursIn (phrases : List Text) (norm : Text) : Bool := phrases.any fun p => decide (p <:+: norm)

/-- The level of a text in which the phrases are searched. -/
def gradeOf (blocks alerts : List Text) (norm : Text) : Nat :=
  if occursIn blocks norm then 3 else if occursIn alerts norm then 2 else 0

/-- What the phrases of a configuration have to be like. -/
structure SameLiterals (U : Unicode) (cfg : KeywordConfig) : Prop where
  /-- a block phrase, normalised, contains a block phrase -/
  block : ∀ p ∈ cfg.inlineBlock, ∃ q ∈ cfg.inlineBlock, q <:+: normalizeWith U cfg.normalize p
  /-- an alert phrase, normalised, contains a phrase -/
  alert : ∀ p ∈ cfg.inlineAlert, ∃ q ∈ cfg.inlineBlock ++ cfg.inlineAlert,
    q <:+: normalizeWith U cfg.normalize p
  /-- a block phrase outside ASCII occurs beside a normalised one -/
  foreignBlock : ∀ q ∈ cfg.inlineBlock, Str.isAscii q = false → ∀ text,
    q <:+: normalizeWith U cfg.normalize text →
      ∃ p ∈ cfg.inlineBlock, normalizeWith U cfg.normalize p <:+: normalizeWith U cfg.normalize text
  foreignAlert : ∀ q ∈ cfg.inlineAlert, Str.isAscii q = false → ∀ text,
    q <:+: normalizeWith U cfg.normalize text →
      ∃ p ∈ cfg.inlineBlock ++ cfg.inlineAlert,
        normalizeWith U cfg.normalize p <:+: normalizeWith U cfg.normalize text

section Level

variable (eng : Engine) (U : Unicode) {iword : IwordBuilder}
  (readToString : Text → Except Text Text) {cfg : KeywordConfig}

theorem occursIn_iff {phrases : List Text} {norm : Text} :
    occursIn phrases norm = true ↔ ∃ p ∈ phrases, p <:+: norm := by
  simp [occursIn]

theorem Bucket.isSome_hit_literals (words : List Text) (norm : Text) :
    ((⟨words, []⟩ : Bucket).hit norm).isSome = occursIn words norm := by
  rw [Bool.eq_iff_iff, Bucket.hit_isSome, occursIn_iff]
  simp

theorem AcScanner.level_eq (s : AcScanner) (norm : Text) :
    (s.check norm).level =
      if (s.block.hit norm).isSome then 3 else if (s.alert.hit norm).isSome then 2
      else if (s.flag.hit norm).isSome then 1 else 0 := by
  unfold AcScanner.check
  cases s.block.hit norm with
  | some rule => rfl
  | none =>
    cases s.alert.hit norm with
    | some rule => rfl
    | none => cases s.flag.hit norm <;> rfl

theorem IwordScanner.level_eq {s : IwordScanner} {norm : Text}
    (hflag : ∀ score, s.classify norm ≠ some (.flag, score)) :
    (s.check norm).level =
      if (s.scanKey .block norm).isEmpty then if (s.scanKey .alert norm).isEmpty then 0 else 2
      else 3 := by
  unfold IwordScanner.check
  cases s.scanKey .block norm with
  | cons m ms => rfl
  | nil =>
    cases s.scanKey .alert norm with
    | cons m ms => rfl
    | nil =>
      cases hclass : s.classify norm with
      | none => rfl
      | some r =>
        rcases r with ⟨key, score⟩
        cases key with
        | flag => exact absurd hclass (hflag score)
        | block => rfl
        | alert => rfl
        | other n => rfl

theorem level_ac (iword : IwordBuilder) (hdict : cfg.dictPaths = []) (hflag : cfg.inlineFlag = []) :
    ∃ m, Matchers.buildWithEngine eng U iword readToString cfg "aho-corasick".toList = .ok m ∧
      ∀ text, (m.checkInput U text).level =
        gradeOf (cfg.inlineBlock.map (normalizeWith U cfg.normalize))
          (cfg.inlineAlert.map (normalizeWith U cfg.normalize))
          (normalizeWith U cfg.normalize text) := by
  unfold Matchers.buildWithEngine AcScanner.build
  rw [hdict, hflag]
  refine ⟨_, rfl, ?_⟩
  intro text
  change (AcScanner.check _ _).level = _
  rw [AcScanner.level_eq, Bucket.isSome_hit_literals, Bucket.isSome_hit_literals,
    Bucket.isSome_hit_literals]
  rfl

theorem infix_iff_exists_drop {w text : Text} :
    w <:+: text ↔ ∃ i, i ≤ text.length ∧ w <+: text.drop i := by
  constructor
  · rintro ⟨a, b, rfl⟩
    refine ⟨a.length, by simp, ?_⟩
    rw [append_assoc, drop_left]
    exact prefix_append w b
  · rintro ⟨i, -, h⟩
    exact h.isInfix.trans (drop_suffix i text).isInfix

theorem scanKey_isEmpty {s : IwordScanner} {lists : List (List Text × IwordKey)} {key : IwordKey}
    {words : List Text}
    (hscan : ∀ text i n, (i, n) ∈ s.scanKey key text ↔ i ≤ text.length ∧
      ∃ ws, (ws, key) ∈ lists ∧ ∃ w ∈ ws, w.length = n ∧ w <+: text.drop i)
    (hwords : ∀ ws, (ws, key) ∈ lists ↔ ws = words ∧ ws ≠ []) (norm : Text) :
    (s.scanKey key norm).isEmpty = !occursIn words norm := by
  rw [← Bool.not_inj_iff, Bool.not_not, Bool.eq_iff_iff, Bool.not_eq_true', occursIn_iff,
    isEmpty_eq_false_iff_exists_mem]
  constructor
  · rintro ⟨⟨i, n⟩, hm⟩
    obtain ⟨hi, ws, hws, w, hw, -, hpre⟩ := (hscan norm i n).1 hm
    obtain ⟨rfl, -⟩ := (hwords ws).1 hws
    exact ⟨w, hw, infix_iff_exists_drop.2 ⟨i, hi, hpre⟩⟩
  · rintro ⟨w, hw, hin⟩
    obtain ⟨i, hi, hpre⟩ := infix_iff_exists_drop.1 hin
    refine ⟨(i, w.length), (hscan norm i w.length).2 ⟨hi, words, ?_, w, hw, rfl, hpre⟩⟩
    exact (hwords words).2 ⟨rfl, ne_nil_of_mem hw⟩

theorem level_iword (hiword : iword.Literal) (hdict : cfg.dictPaths = [])
    (hflag : cfg.inlineFlag = []) :
    ∃ m, Matchers.buildWithEngine eng U iword readToString cfg "iword-rs".toList = .ok m ∧
      ∀ text, (m.checkInput U text).level =
        gradeOf cfg.inlineBlock cfg.inlineAlert (normalizeWith U cfg.normalize text) := by
  let lists : List (List Text × IwordKey) :=
    [(cfg.inlineBlock, IwordKey.block), (cfg.inlineAlert, .alert), (cfg.inlineFlag, .flag)].filter
      fun l => !l.1.isEmpty
  obtain ⟨s, hs, hscan, hclassify⟩ := hiword lists
  have hbuild : IwordScanner.build iword cfg = .ok s := by
    unfold IwordScanner.build
    rw [hdict]
    exact hs
  refine ⟨⟨.iword s, cfg.normalize⟩, ?_, ?_⟩
  · unfold Matchers.buildWithEngine
    rw [hbuild]
    rfl
  intro text
  have hnoflag (score : Text) :
      s.classify (normalizeWith U cfg.normalize text) ≠ some (.flag, score) := by
    intro hclass
    obtain ⟨words, hmem⟩ := hclassify _ _ _ hclass
    simp [lists, hflag] at hmem
  have hblock (ws : List Text) : (ws, .block) ∈ lists ↔ ws = cfg.inlineBlock ∧ ws ≠ [] := by
    simp [lists]
  have halert (ws : List Text) : (ws, .alert) ∈ lists ↔ ws = cfg.inlineAlert ∧ ws ≠ [] := by
    simp [lists]
  change (s.check (normalizeWith U cfg.normalize text)).level = _
  rw [IwordScanner.level_eq hnoflag, scanKey_isEmpty (hscan .block) hblock,
    scanKey_isEmpty (hscan .alert) halert, gradeOf]
  cases occursIn cfg.inlineBlock (normalizeWith U cfg.normalize text) <;>
    cases occursIn cfg.inlineAlert (normalizeWith U cfg.normalize text) <;> rfl

theorem gradeOf_map_eq_iff {f : Text → Text} {blocks alerts : List Text} {norm : Text} :
    gradeOf (blocks.map f) (alerts.map f) norm = gradeOf blocks alerts norm ↔
      ((∃ p ∈ blocks, f p <:+: norm) ↔ ∃ q ∈ blocks, q <:+: norm) ∧
      (¬ (∃ p ∈ blocks, f p <:+: norm) →
        ((∃ p ∈ alerts, f p <:+: norm) ↔ ∃ q ∈ alerts, q <:+: norm)) := by
  have hmap (phrases : List Text) :
      occursIn (phrases.map f) norm = true ↔ ∃ p ∈ phrases, f p <:+: norm := by
    simp [occursIn]
  simp only [← hmap, ← occursIn_iff]
  unfold gradeOf
  cases occursIn (blocks.map f) norm <;> cases occursIn (alerts.map f) norm <;>
    cases occursIn blocks norm <;> cases occursIn alerts norm <;> simp

end Level

section Agree

variable {U : Unicode} {cfg : KeywordConfig}

theorem gradeOf_eq_of_sameLiterals (hU : LowersToLetters U) (h : SameLiterals U cfg) (text : Text) :
    gradeOf (cfg.inlineBlock.map (normalizeWith U cfg.normalize))
        (cfg.inlineAlert.map (normalizeWith U cfg.normalize)) (normalizeWith U cfg.normalize text) =
      gradeOf cfg.inlineBlock cfg.inlineAlert (normalizeWith U cfg.normalize text) := by
  rw [gradeOf_map_eq_iff]
  -- an ASCII phrase that is found is its own normal form
  have hself (q : Text) (hin : q <:+: normalizeWith U cfg.normalize text)
      (hascii : Str.isAscii q = true) :
      normalizeWith U cfg.normalize q <:+: normalizeWith U cfg.normalize text :=
    (normalizeWith_isInfix_self hU hin hascii).trans hin
  have hblock : (∃ p ∈ cfg.inlineBlock,
      normalizeWith U cfg.normalize p <:+: normalizeWith U cfg.normalize text) ↔
      ∃ q ∈ cfg.inlineBlock, q <:+: normalizeWith U cfg.normalize text := by
    constructor
    · rintro ⟨p, hp, hin⟩
      obtain ⟨q, hq, hqp⟩ := h.block p hp
      exact ⟨q, hq, hqp.trans hin⟩
    · rintro ⟨q, hq, hin⟩
      cases hascii : Str.isAscii q with
      | true => exact ⟨q, hq, hself q hin hascii⟩
      | false => exact h.foreignBlock q hq hascii text hin
  refine ⟨hblock, fun hnone => ⟨?_, ?_⟩⟩
  · rintro ⟨p, hp, hin⟩
    obtain ⟨q, hq, hqp⟩ := h.alert p hp
    rcases mem_append.1 hq with hq | hq
    · exact absurd (hblock.2 ⟨q, hq, hqp.trans hin⟩) hnone
    · exact ⟨q, hq, hqp.trans hin⟩
  rintro ⟨q, hq, hin⟩
  cases hascii : Str.isAscii q with
  | true => exact ⟨q, hq, hself q hin hascii⟩
  | false =>
    obtain ⟨p, hp, hpin⟩ := h.foreignAlert q hq hascii text hin
    rcases mem_append.1 hp with hp | hp
    · exact absurd ⟨p, hp, hpin⟩ hnone
    · exact ⟨p, hp, hpin⟩

/-- The texts that show it: the phrases themselves, and those with a phrase outside ASCII. -/
theorem sameLiterals_of_gradeOf_eq (h : ∀ text,
    gradeOf (cfg.inlineBlock.map (normalizeWith U cfg.normalize))
        (cfg.inlineAlert.map (normalizeWith U cfg.normalize)) (normalizeWith U cfg.normalize text) =
      gradeOf cfg.inlineBlock cfg.inlineAlert (normalizeWith U cfg.normalize text)) :
    SameLiterals U cfg := by
  have h (text : Text) := gradeOf_map_eq_iff.1 (h text)
  constructor
  · intro p hp
    exact (h p).1.1 ⟨p, hp, infix_rfl⟩
  · intro p hp
    by_cases hblock : ∃ q ∈ cfg.inlineBlock,
        normalizeWith U cfg.normalize q <:+: normalizeWith U cfg.normalize p
    · obtain ⟨q, hq, hin⟩ := (h p).1.1 hblock
      exact ⟨q, mem_append_left _ hq, hin⟩
    · obtain ⟨q, hq, hin⟩ := ((h p).2 hblock).1 ⟨p, hp, infix_rfl⟩
      exact ⟨q, mem_append_right _ hq, hin⟩
  · intro q hq _ text hin
    exact (h text).1.2 ⟨q, hq, hin⟩
  · intro q hq _ text hin
    by_cases hblock : ∃ p ∈ cfg.inlineBlock,
        normalizeWith U cfg.normalize p <:+: normalizeWith U cfg.normalize text
    · obtain ⟨p, hp, hpin⟩ := hblock
      exact ⟨p, mem_append_left _ hp, hpin⟩
    · obtain ⟨p, hp, hpin⟩ := ((h text).2 hblock).2 ⟨q, hq, hin⟩
      exact ⟨p, mem_append_right _ hp, hpin⟩

/-- **When the two engines agree**: with inline phrases for blocks and alerts only, exactly if
normalising does not take the phrases apart. -/
theorem engines_agree_iff (eng : Engine) (U : Unicode) (hU : LowersToLetters U)
    (iword : IwordBuilder) (hiword : iword.Literal) (readToString : Text → Except Text Text)
    (cfg : KeywordConfig) (hdict : cfg.dictPaths = []) (hflag : cfg.inlineFlag = []) :
    (∃ ac iw,
      Matchers.buildWithEngine eng U iword readToString cfg "aho-corasick".toList = .ok ac ∧
      Matchers.buildWithEngine eng U iword readToString cfg "iword-rs".toList = .ok iw ∧
      ∀ text, (ac.checkInput U text).level = (iw.checkInput U text).level) ↔
    SameLiterals U cfg := by
  obtain ⟨ac, hac, hlevel⟩ := level_ac eng U readToString iword hdict hflag
  obtain ⟨iw, hiw, hlevel'⟩ := level_iword eng U readToString hiword hdict hflag
  constructor
  · rintro ⟨ac', iw', hac', hiw', hagree⟩
    cases hac.symm.trans hac'
    cases hiw.symm.trans hiw'
    apply sameLiterals_of_gradeOf_eq
    intro text
    rw [← hlevel, ← hlevel', hagree]
  · intro hsame
    refine ⟨ac, iw, hac, hiw, ?_⟩
    intro text
    rw [hlevel, hlevel', gradeOf_eq_of_sameLiterals hU hsame]

def IwordScanner.literal (lists : List (List Text × IwordKey)) : IwordScanner where
  scanKey key text :=
    (List.range (text.length + 1)).flatMap fun i =>
      (((lists.filter (·.2 = key)).flatMap (·.1)).filter fun w => decide (w <+: text.drop i)).map
        fun w => (i, w.length)
  classify _ := none

def IwordBuilder.plain : IwordBuilder := fun lists _ => .ok (.literal lists)

theorem IwordBuilder.plain_literal : IwordBuilder.plain.Literal := by
  intro lists
  refine ⟨_, rfl, ?_, ?_⟩
  · intro key text i n
    simp only [IwordScanner.literal, mem_flatMap, mem_range, mem_map,
      mem_filter, decide_eq_true_eq, Prod.mk.injEq, Prod.exists]
    constructor
    · rintro ⟨j, hj, w, ⟨⟨ws, key', ⟨hmem, rfl⟩, hw⟩, hpre⟩, rfl, rfl⟩
      exact ⟨Nat.lt_succ_iff.1 hj, ws, hmem, w, hw, rfl, hpre⟩
    · rintro ⟨hi, ws, hmem, w, hw, rfl, hpre⟩
      exact ⟨i, Nat.lt_succ_of_le hi, w, ⟨⟨ws, key, ⟨hmem, rfl⟩, hw⟩, hpre⟩, rfl, rfl⟩
  · intro text key score hclass
    cases hclass

def inlinePhrases (blocks alerts : List Text) : KeywordConfig where
  engine := "aho-corasick".toList
  dictPaths := []
  inlineBlock := blocks
  inlineAlert := alerts
  inlineFlag := []
  normalize := ⟨true, true, true, false⟩

/-- Phrases in small letters, one of them with a space in front. -/
theorem engines_agree_small_letters :
    ∃ ac iw,
      Matchers.buildWithEngine .basic .ascii .plain (fun _ => .error [])
        (inlinePhrases ["leak".toList, " leak".toList] ["e-mail".toList]) "aho-corasick".toList =
          .ok ac ∧
      Matchers.buildWithEngine .basic .ascii .plain (fun _ => .error [])
        (inlinePhrases ["leak".toList, " leak".toList] ["e-mail".toList]) "iword-rs".toList =
          .ok iw ∧
      ∀ text, (ac.checkInput .ascii text).level = (iw.checkInput .ascii text).level := by
  refine (engines_agree_iff .basic .ascii lowersToLetters_ascii .plain IwordBuilder.plain_literal
    (fun _ => .error []) _ rfl rfl).2 ?_
  have hascii : ∀ q ∈ ["leak".toList, " leak".toList, "e-mail".toList], Str.isAscii q = true := by
    decide
  constructor
  · decide
  · decide
  · intro q hq hforeign
    rw [hascii q (mem_append_left _ hq)] at hforeign
    cases hforeign
  · intro q hq hforeign
    rw [hascii q (mem_append_right ["leak".toList, " leak".toList] hq)] at hforeign
    cases hforeign

/-- **A phrase with a capital letter**: the default engine blocks a text that the other one passes. -/
theorem engines_disagree_on_capital :
    ∃ ac iw,
      Matchers.buildWithEngine .basic .ascii .plain (fun _ => .error [])
        (inlinePhrases ["Leak".toList] []) "aho-corasick".toList = .ok ac ∧
      Matchers.buildWithEngine .basic .ascii .plain (fun _ => .error [])
        (inlinePhrases ["Leak".toList] []) "iword-rs".toList = .ok iw ∧
      ac.checkInput .ascii "Leak".toList = .blocked "leak".toList ∧
      iw.checkInput .ascii "Leak".toList = .clean := by
  refine ⟨_, _, rfl, rfl, ?_, ?_⟩
  · decide
  · decide

end Agree

end Nanoguard.Matcher

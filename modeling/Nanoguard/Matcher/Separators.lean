import Nanoguard.Matcher.Settled

/-!
# Turning on the collapsing of separators

With separator collapsing, phrases and texts are both collapsed, each by itself. The text around a
phrase can make a run of the phrase long enough to be collapsed, and then the phrase is no longer
found.
-/

namespace Nanoguard.Matcher

open List

open Regex (Engine)

def KeywordConfig.withSeparators (cfg : KeywordConfig) (separators : Bool) : KeywordConfig :=
  { cfg with normalize := { cfg.normalize with separators } }

/-- A text or phrase as it is compared without collapsing. -/
def uncollapsed (U : Unicode) (cfg : KeywordConfig) (text : Text) : Text :=
  normalizeWith U (cfg.withSeparators false).normalize text

/-- Some separator is kept when the text is collapsed alone but may go with more text around it: it
stands between letters or ends, and letters and separators alternate from it up to an end. -/
def hasLooseSeparator (text : Text) : Bool := separatorRuns.looseIn [] text

/-- Every ASCII text that is blocked without collapsing is blocked with it. -/
def CollapsingKeepsBlocks (eng : Engine) (U : Unicode) (iword : IwordBuilder)
    (readToString : Text → Except Text Text) (cfg : KeywordConfig) : Prop :=
  ∃ off on, Matchers.build eng U iword readToString (cfg.withSeparators false) = .ok off ∧
    Matchers.build eng U iword readToString (cfg.withSeparators true) = .ok on ∧
    ∀ text, Str.isAscii text = true → (off.checkInput U text).isBlocked = true →
      (on.checkInput U text).isBlocked = true

section Stages

variable {U : Unicode} {opts : NormalizeConfig}

theorem pushChars_separators (separators : Bool) (p : Bool) (text : Text) :
    pushChars U { opts with separators } p text = pushChars U opts p text := by
  induction text generalizing p with
  | nil => rfl
  | cons ch text ih =>
    rw [pushChars, ih]
    rfl

theorem normalizeWith_collapse (text : Text) :
    normalizeWith U { opts with separators := true } text =
      collapseSeparators (normalizeWith U { opts with separators := false } text) := by
  have hbase (separators : Bool) (t : Text) :
      baseNormalize U { opts with separators } t = baseNormalize U opts t := by
    unfold baseNormalize
    rw [pushChars_separators]
  unfold normalizeWith
  simp only [hbase]
  rfl

theorem isAscii_uncollapsed {cfg : KeywordConfig} {text : Text} (h : Str.isAscii text = true) :
    Str.isAscii (uncollapsed U cfg text) = true := by
  have hstage : nfkcStage U (cfg.withSeparators false).normalize text = text :=
    nfkcStage_of_plain (.inl h)
  unfold uncollapsed normalizeWith
  rw [hstage]
  exact isAscii_baseNormalize h

end Stages

section Blocks

variable {eng : Engine} {U : Unicode} {iword : IwordBuilder}
  {readToString : Text → Except Text Text} {cfg : KeywordConfig}

theorem isBlocked_inline (eng : Engine) (U : Unicode) (iword : IwordBuilder)
    (readToString : Text → Except Text Text) (cfg : KeywordConfig)
    (hengine : cfg.engine = "aho-corasick".toList) (hdict : cfg.dictPaths = []) :
    ∃ m, Matchers.build eng U iword readToString cfg = .ok m ∧
      ∀ text, (m.checkInput U text).isBlocked = true ↔
        ∃ p ∈ cfg.inlineBlock,
          normalizeWith U cfg.normalize p <:+: normalizeWith U cfg.normalize text := by
  unfold Matchers.build Matchers.buildWithEngine AcScanner.build
  rw [if_pos hengine, hdict]
  refine ⟨_, rfl, ?_⟩
  intro text
  change (AcScanner.check _ _).isBlocked = true ↔ _
  rw [AcScanner.isBlocked_check, Bucket.hit_isSome]
  simp

theorem collapsingKeepsBlocks_iff (hengine : cfg.engine = "aho-corasick".toList)
    (hdict : cfg.dictPaths = []) (blocks : List Text) :
    CollapsingKeepsBlocks eng U iword readToString { cfg with inlineBlock := blocks } ↔
      ∀ text, Str.isAscii text = true →
        (∃ p ∈ blocks, uncollapsed U cfg p <:+: uncollapsed U cfg text) →
        ∃ p ∈ blocks, collapseSeparators (uncollapsed U cfg p) <:+:
          collapseSeparators (uncollapsed U cfg text) := by
  obtain ⟨off, hoff, hblocked⟩ := isBlocked_inline eng U iword readToString
    ({ cfg with inlineBlock := blocks }.withSeparators false) hengine hdict
  obtain ⟨on, hon, hblocked'⟩ := isBlocked_inline eng U iword readToString
    ({ cfg with inlineBlock := blocks }.withSeparators true) hengine hdict
  have hblocked' (text : Text) : (on.checkInput U text).isBlocked = true ↔
      ∃ p ∈ blocks, collapseSeparators (uncollapsed U cfg p) <:+:
        collapseSeparators (uncollapsed U cfg text) := by
    have hcollapse (t : Text) : collapseSeparators (uncollapsed U cfg t) =
        normalizeWith U (cfg.withSeparators true).normalize t := (normalizeWith_collapse t).symm
    simp only [hcollapse]
    exact hblocked' text
  constructor
  · rintro ⟨off', on', hoff', hon', hkeeps⟩ text hascii hfound
    cases hoff.symm.trans hoff'
    cases hon.symm.trans hon'
    exact (hblocked' text).1 (hkeeps text hascii ((hblocked text).2 hfound))
  · intro hkeeps
    refine ⟨off, on, hoff, hon, ?_⟩
    intro text hascii hblock
    exact (hblocked' text).2 (hkeeps text hascii ((hblocked text).1 hblock))

theorem uncollapsed_framed (hU : LowersToLetters U) {p : Text}
    (hascii : Str.isAscii (uncollapsed U cfg p) = true) :
    Str.isAscii (separatorRuns.framed 'x' '-' (uncollapsed U cfg p)) = true ∧
      uncollapsed U cfg (separatorRuns.framed 'x' '-' (uncollapsed U cfg p)) =
        separatorRuns.framed 'x' '-' (uncollapsed U cfg p) := by
  have hsettled : Settled (cfg.withSeparators false).normalize (uncollapsed U cfg p) :=
    settled_normalizeWith hU _ p
  generalize uncollapsed U cfg p = q at hascii hsettled
  have hbeside (last : Option Char) : ∀ c ∈ separatorRuns.beside 'x' '-' last,
      c.toNat < 128 ∧ settledChar (cfg.withSeparators false).normalize c = true ∧ c ≠ ' ' := by
    intro c hc
    have hleet (opts : NormalizeConfig) (d : Char) (hd : leetFold d = d) :
        (!opts.leet || leetFold d == d) = true := by
      simp [hd]
    rcases Runs.mem_beside hc with rfl | rfl
    · exact ⟨by decide, by rw [settledChar, hleet _ _ rfl]; rfl, by decide⟩
    · exact ⟨by decide, by rw [settledChar, hleet _ _ rfl]; rfl, by decide⟩
  have hframed : Str.isAscii (separatorRuns.framed 'x' '-' q) = true := by
    unfold Runs.framed
    unfold Str.isAscii at hascii ⊢
    rw [all_append, all_append, hascii, all_reverse, Bool.true_and,
      Bool.and_eq_true, all_eq_true, all_eq_true]
    exact ⟨fun c hc => decide_eq_true (hbeside _ c hc).1,
      fun c hc => decide_eq_true (hbeside _ c hc).1⟩
  refine ⟨hframed, ?_⟩
  have hsettled : Settled (cfg.withSeparators false).normalize (separatorRuns.framed 'x' '-' q) :=
    hsettled.surround (fun c hc => (hbeside _ c (mem_reverse.1 hc)).2)
      fun c hc => (hbeside _ c hc).2
  unfold uncollapsed normalizeWith
  rw [nfkcStage_of_plain (.inl hframed)]
  refine hsettled.baseNormalize_eq_self hframed ?_ ?_
  · rw [Runs.head?_framed]
    decide
  · rw [Runs.getLast?_framed]
    decide

/-- **When collapsing hides nothing**: every ASCII text that is blocked without collapsing is
blocked with it, exactly if none of the block phrases has a loose separator. -/
theorem collapsing_keeps_iff (eng : Engine) (U : Unicode) (hU : LowersToLetters U)
    (iword : IwordBuilder) (readToString : Text → Except Text Text) (cfg : KeywordConfig)
    (hengine : cfg.engine = "aho-corasick".toList) (hdict : cfg.dictPaths = [])
    (phrases : Text → Prop) :
    (∀ blocks, (∀ p ∈ blocks, phrases p) →
      CollapsingKeepsBlocks eng U iword readToString { cfg with inlineBlock := blocks }) ↔
    ∀ p, phrases p → Str.isAscii (uncollapsed U cfg p) = true →
      hasLooseSeparator (uncollapsed U cfg p) = false := by
  constructor
  · intro hkeeps p hp hascii
    rw [← Bool.not_eq_true]
    intro hloose
    -- the phrase between long runs is found without collapsing only
    obtain ⟨hframed, hself⟩ := uncollapsed_framed hU hascii
    have hfound := (collapsingKeepsBlocks_iff hengine hdict [p]).1
      (hkeeps [p] (forall_mem_singleton.2 hp)) _ hframed
    rw [hself] at hfound
    obtain ⟨p', hp', hin⟩ := hfound ⟨p, mem_singleton_self p, Runs.infix_framed _⟩
    obtain rfl := mem_singleton.1 hp'
    rw [collapseSeparators_eq, collapseSeparators_eq] at hin
    exact Runs.not_infix_of_loose rfl rfl hloose hin
  · intro hloose blocks hblocks
    refine (collapsingKeepsBlocks_iff hengine hdict blocks).2 ?_
    rintro text hascii ⟨p, hp, hin⟩
    refine ⟨p, hp, ?_⟩
    have hpart : Str.isAscii (uncollapsed U cfg p) = true :=
      Str.isAscii_of_isInfix (isAscii_uncollapsed hascii) hin
    rw [collapseSeparators_eq, collapseSeparators_eq]
    exact Runs.infix_of_not_loose (hloose p (hblocks p hp) hpart) hin

def collapsingExample : KeywordConfig where
  engine := "aho-corasick".toList
  dictPaths := []
  inlineBlock := []
  inlineAlert := []
  inlineFlag := []
  normalize := ⟨true, true, false, true⟩

/-- A separator between longer words is not loose, and a run of four letters keeps none. -/
theorem collapsing_keeps_coop :
    CollapsingKeepsBlocks .basic .ascii (fun _ _ => .error []) (fun _ => .error [])
      { collapsingExample with inlineBlock := ["Co-op plan".toList, "l-e-a-k".toList] } := by
  refine (collapsing_keeps_iff .basic .ascii lowersToLetters_ascii (fun _ _ => .error [])
    (fun _ => .error []) collapsingExample rfl rfl
    (· ∈ ["Co-op plan".toList, "l-e-a-k".toList])).2 ?_ _ fun p hp => hp
  intro p hp _
  revert p
  decide

/-- **A phrase that a longer run hides**: the text is blocked as long as nothing is collapsed. -/
theorem collapsing_hides_run :
    ∃ off on,
      Matchers.build .basic .ascii (fun _ _ => .error []) (fun _ => .error [])
        ({ collapsingExample with inlineBlock := ["a-b-c".toList] }.withSeparators false) =
          .ok off ∧
      Matchers.build .basic .ascii (fun _ _ => .error []) (fun _ => .error [])
        ({ collapsingExample with inlineBlock := ["a-b-c".toList] }.withSeparators true) =
          .ok on ∧
      off.checkInput .ascii "a-b-c-d".toList = .blocked "a-b-c".toList ∧
      on.checkInput .ascii "a-b-c-d".toList = .clean := by
  refine ⟨_, _, rfl, rfl, ?_, ?_⟩
  · decide
  · decide

end Blocks

end Nanoguard.Matcher

import Nanoguard.Lib.Words

/-!
# Text normalisation

Both keyword engines scan a normalised text: compatibility-normalised, folded, in lower case, with
single spaces, and with separators inside letter runs removed, as far as the flags ask for it.
-/

namespace Nanoguard.Matcher

open List

structure NormalizeConfig where
  nfkc : Bool := true
  zeroWidth : Bool := true
  separators : Bool := false
  leet : Bool := false
  deriving DecidableEq, Repr

def isZeroWidth (ch : Char) : Bool :=
  ch.toNat == 0x200B || ch.toNat == 0x200C || ch.toNat == 0x200D || ch.toNat == 0x2060 ||
    ch.toNat == 0xFEFF

def leetFold (ch : Char) : Char :=
  match ch with
  | '0' => 'o'
  | '1' | '|' => 'i'
  | '3' => 'e'
  | '4' | '@' => 'a'
  | '5' | '$' => 's'
  | '7' => 't'
  | '8' => 'b'
  | _ => ch

def isSeparator (ch : Char) : Bool :=
  ch == '-' || ch == '.' || ch == '_' || ch == '*' || ch == '~'

section

variable (U : Unicode) (opts : NormalizeConfig)

/-- A space is pushed unless one has just been pushed. -/
def pushSpace (prevSpace : Bool) : Text × Bool := (if prevSpace then [] else [' '], true)

/-- A character after leet folding. -/
def pushFolded (prevSpace : Bool) (ch : Char) : Text × Bool :=
  if ch == '\n' || ch == '\r' || ch == '\t' then pushSpace prevSpace
  else if U.isUppercase ch then (U.toLowercase ch, false)
  else if ch == ' ' then pushSpace prevSpace
  else ([ch], false)

/-- One round of the loop of `base_normalize`: what is pushed, and the new `prev_space`. -/
def pushChar (prevSpace : Bool) (ch : Char) : Text × Bool :=
  if opts.zeroWidth && isZeroWidth ch then ([], prevSpace)
  else pushFolded U prevSpace (if opts.leet then leetFold ch else ch)

/-- The loop: everything that is pushed, and the last `prev_space`. -/
def pushChars (prevSpace : Bool) : Text → Text × Bool
  | [] => ([], prevSpace)
  | ch :: text =>
    let step := pushChar U opts prevSpace ch
    let rest := pushChars step.2 text
    (step.1 ++ rest.1, rest.2)

def popSpace (out : Text) : Text := if out.getLast? = some ' ' then out.dropLast else out

def baseNormalize (text : Text) : Text := popSpace (pushChars U opts true text).1

end

/-- The further letters of a run that begins with a letter before `text`: each after a separator. -/
def runLetters : Text → Text
  | sep :: ch :: text =>
    if isSeparator sep && ch.isAlphanum then ch :: runLetters text else []
  | _ => []

/-- The loop of `collapse_separators`. `skip` characters are passed over because they belong to the
run found last. Only runs of at least four letters are collapsed. -/
def collapseGo : Nat → Text → Text
  | _, [] => []
  | 0, ch :: text =>
    let letters := runLetters text
    if ch.isAlphanum && 3 ≤ letters.length then
      ch :: letters ++ collapseGo (2 * letters.length) text
    else ch :: collapseGo 0 text
  | skip + 1, _ :: text => collapseGo skip text

def collapseSeparators (text : Text) : Text := collapseGo 0 text

section

variable (U : Unicode) (opts : NormalizeConfig)

/-- Compatibility normalisation is skipped for ASCII texts, which it would not change. -/
def nfkcStage (text : Text) : Text :=
  if opts.nfkc && !Str.isAscii text then U.nfkc text else text

def normalizeWith (text : Text) : Text :=
  let stage2 := baseNormalize U opts (nfkcStage U opts text)
  if opts.separators then collapseSeparators stage2 else stage2

end

/-! ## The loop of `base_normalize` -/

section

variable {U : Unicode} {opts : NormalizeConfig}

theorem pushChars_append (p : Bool) (a b : Text) :
    pushChars U opts p (a ++ b) =
      ((pushChars U opts p a).1 ++ (pushChars U opts (pushChars U opts p a).2 b).1,
        (pushChars U opts (pushChars U opts p a).2 b).2) := by
  induction a generalizing p with
  | nil => rfl
  | cons ch a ih =>
    rw [cons_append, pushChars, pushChars]
    simp only [ih, append_assoc]

theorem pushChar_space (p : Bool) : pushChar U opts p ' ' = pushSpace p := by
  have hupper : U.isUppercase ' ' = false := U.isUppercase_ascii ' ' (by decide)
  have hleet : (if opts.leet then leetFold ' ' else ' ') = ' ' := by
    cases opts.leet <;> rfl
  have hzero : isZeroWidth ' ' = false := rfl
  unfold pushChar pushFolded
  simp [hzero, hleet, hupper]

theorem pushSpace_eq (p : Bool) : (pushSpace p).1 = [] ∧ p = true ∨ (pushSpace p).1 = [' '] := by
  cases p
  · exact .inr rfl
  · exact .inl ⟨rfl, rfl⟩

/-- What a round does with a character: drop it, take it for a space, or push something. -/
theorem pushChar_cases (U : Unicode) (opts : NormalizeConfig) (ch : Char) :
    (∀ p, pushChar U opts p ch = ([], p)) ∨ (∀ p, pushChar U opts p ch = pushSpace p) ∨
      ∃ out, ∀ p, pushChar U opts p ch = (out, false) := by
  unfold pushChar
  by_cases hzero : (opts.zeroWidth && isZeroWidth ch) = true
  · exact .inl fun p => if_pos hzero
  right
  simp only [if_neg hzero]
  generalize (if opts.leet then leetFold ch else ch) = folded
  unfold pushFolded
  by_cases hbreak : (folded == '\n' || folded == '\r' || folded == '\t') = true
  · exact .inl fun p => if_pos hbreak
  simp only [if_neg hbreak]
  by_cases hupper : U.isUppercase folded = true
  · exact .inr ⟨_, fun p => if_pos hupper⟩
  simp only [if_neg hupper]
  by_cases hspace : (folded == ' ') = true
  · exact .inl fun p => if_pos hspace
  · exact .inr ⟨_, fun p => if_neg hspace⟩

theorem pushChar_of_space {p : Bool} {ch : Char} (h : (pushChar U opts p ch).2 = true) :
    (pushChar U opts p ch).1 = [] ∧ p = true ∨ (pushChar U opts p ch).1 = [' '] := by
  rcases pushChar_cases U opts ch with hdrop | hspace | ⟨out, hout⟩
  · rw [hdrop] at h ⊢
    exact .inl ⟨rfl, h⟩
  · rw [hspace]
    exact pushSpace_eq p
  · rw [hout] at h
    simp at h

theorem pushChars_of_space {p : Bool} {text : Text} (h : (pushChars U opts p text).2 = true) :
    (pushChars U opts p text).1 = [] ∧ p = true ∨
      ∃ out, (pushChars U opts p text).1 = out ++ [' '] := by
  induction text generalizing p with
  | nil => exact .inl ⟨rfl, h⟩
  | cons ch text ih =>
    rw [pushChars] at h ⊢
    rcases ih h with ⟨hnil, hp⟩ | ⟨out, hout⟩
    · simp only [hnil, append_nil]
      apply (pushChar_of_space hp).imp_right
      intro hone
      exact ⟨[], hone⟩
    · exact .inr ⟨(pushChar U opts p ch).1 ++ out, by simp [hout]⟩

theorem popSpace_append {b : Text} (hb : b ≠ []) (a : Text) :
    popSpace (a ++ b) = a ++ popSpace b := by
  unfold popSpace
  rw [getLast?_append_of_ne_nil a hb]
  split
  · rw [dropLast_append_of_ne_nil hb]
  · rfl

theorem popSpace_eq (out : Text) : out = popSpace out ∨ out = popSpace out ++ [' '] := by
  unfold popSpace
  split
  next h =>
    obtain ⟨init, rfl⟩ := getLast?_eq_some_iff.1 h
    simp
  next => exact .inl rfl

theorem popSpace_isInfix (out : Text) : popSpace out <:+: out := by
  rcases popSpace_eq out with h | h
  · rw [← h]
  · exact ⟨[], [' '], by rw [nil_append, ← h]⟩

theorem startsSpace_popSpace (w : Text) : Str.StartsSpace (popSpace (' ' :: w)) := by
  cases w with
  | nil => exact .inl rfl
  | cons c w =>
    have := popSpace_append (cons_ne_nil c w) [' ']
    exact .inr ⟨_, this⟩

theorem pushChars_endsSpace {a : Text} (ha : Str.EndsSpace a) :
    (pushChars U opts true a).2 = true ∧ Str.EndsSpace (pushChars U opts true a).1 := by
  have hset : (pushChars U opts true a).2 = true := by
    rcases ha with rfl | ⟨a', rfl⟩
    · rfl
    · rw [pushChars_append]
      simp [pushChars, pushChar_space, pushSpace]
  refine ⟨hset, ?_⟩
  exact (pushChars_of_space hset).imp_left And.left

theorem pushChars_startsSpace {t b : Text} (hb : Str.StartsSpace b)
    (hne : popSpace (pushChars U opts true t).1 ≠ []) :
    ∃ rest, Str.StartsSpace rest ∧
      popSpace (pushChars U opts true (t ++ b)).1 = popSpace (pushChars U opts true t).1 ++ rest := by
  rcases hb with rfl | ⟨b', rfl⟩
  · exact ⟨[], .inl rfl, by simp⟩
  rw [pushChars_append, pushChars, pushChar_space]
  generalize hy : (pushChars U opts true t).1 = y at hne
  generalize hq : (pushChars U opts true t).2 = q
  -- the pushed text is the popped one, a space, and something
  have hspace : ∃ w, y ++ ((pushSpace q).1 ++ (pushChars U opts (pushSpace q).2 b').1) =
      popSpace y ++ ' ' :: w := by
    rcases popSpace_eq y with hpop | hpop
    · have hq' : q = false := by
        cases q with
        | false => rfl
        | true =>
          rcases pushChars_of_space hq with ⟨hnil, -⟩ | ⟨out, hout⟩
          · rw [hy] at hnil
            rw [hnil] at hne
            exact absurd rfl hne
          · rw [hy] at hout
            rw [hout] at hpop
            simp [popSpace] at hpop
      subst hq'
      rw [← hpop]
      exact ⟨_, rfl⟩
    · refine ⟨(pushSpace q).1 ++ (pushChars U opts (pushSpace q).2 b').1, ?_⟩
      conv => lhs; rw [hpop]
      simp
  obtain ⟨w, hw⟩ := hspace
  exact ⟨popSpace (' ' :: w), startsSpace_popSpace w, by
    rw [hw, popSpace_append (cons_ne_nil _ _)]⟩

theorem baseNormalize_wordsOf {t u : Text} (h : Str.WordsOf t u) :
    Str.WordsOf (baseNormalize U opts t) (baseNormalize U opts u) := by
  obtain ⟨a, b, rfl, rfl | ⟨ha, hb⟩⟩ := h
  · exact .nil _
  by_cases hne : baseNormalize U opts t = []
  · rw [hne]
    exact .nil _
  have hset : (pushChars U opts true a).2 = true := (pushChars_endsSpace ha).1
  have hends : Str.EndsSpace (pushChars U opts true a).1 := (pushChars_endsSpace ha).2
  obtain ⟨rest, hrest, hpop⟩ := pushChars_startsSpace hb hne
  refine ⟨(pushChars U opts true a).1, rest, ?_, .inr ⟨hends, hrest⟩⟩
  have htail : (pushChars U opts true (t ++ b)).1 ≠ [] := by
    intro hnil
    rw [hnil] at hpop
    exact hne (append_eq_nil_iff.1 hpop.symm).1
  unfold baseNormalize
  rw [append_assoc, pushChars_append, hset, popSpace_append htail, hpop, append_assoc]

theorem pushChars_start (U : Unicode) (opts : NormalizeConfig) (p : Bool) (text : Text) :
    ∃ pre, (pushChars U opts p text).1 = pre ++ (pushChars U opts true text).1 := by
  induction text generalizing p with
  | nil => exact ⟨[], rfl⟩
  | cons ch text ih =>
    rw [pushChars, pushChars]
    rcases pushChar_cases U opts ch with hdrop | hspace | ⟨out, hout⟩
    · simp only [hdrop]
      exact ih p
    · simp only [hspace]
      exact ⟨(pushSpace p).1, rfl⟩
    · simp only [hout]
      exact ⟨[], rfl⟩

theorem baseNormalize_isInfix {t u : Text} (h : t <:+: u) :
    baseNormalize U opts t <:+: baseNormalize U opts u := by
  obtain ⟨a, b, rfl⟩ := h
  unfold baseNormalize
  rw [append_assoc, pushChars_append, pushChars_append]
  generalize (pushChars U opts true a).1 = x
  obtain ⟨pre, hpre⟩ := pushChars_start U opts (pushChars U opts true a).2 t
  rw [hpre]
  generalize (pushChars U opts true t).1 = y
  generalize (pushChars U opts (pushChars U opts (pushChars U opts true a).2 t).2 b).1 = z
  by_cases hz : z = []
  · subst hz
    by_cases hy : y = []
    · subst hy
      exact nil_infix
    · have happ : x ++ (pre ++ y ++ []) = x ++ pre ++ y := by simp
      rw [happ, popSpace_append hy]
      exact (suffix_append _ _).isInfix
  · have happ : x ++ (pre ++ y ++ z) = x ++ pre ++ y ++ z := by simp
    rw [happ, popSpace_append hz]
    apply (popSpace_isInfix y).trans
    exact ⟨x ++ pre, popSpace z, rfl⟩

end

/-! ## Separators -/

theorem runLetters_space : ∀ a b : Text, runLetters (a ++ ' ' :: b) = runLetters a
  | [], [] => rfl
  | [], _ :: _ => rfl
  | [sep], b => by
    have halnum : ' '.isAlphanum = false := rfl
    simp [runLetters, halnum]
  | sep :: ch :: a, b => by
    rw [cons_append, cons_append, runLetters, runLetters, runLetters_space a b]

theorem length_runLetters : ∀ a : Text, 2 * (runLetters a).length ≤ a.length
  | [] => Nat.le_refl 0
  | [_] => Nat.zero_le _
  | sep :: ch :: a => by
    rw [runLetters]
    split
    · have := length_runLetters a
      simp only [length_cons]
      omega
    · exact Nat.zero_le _

theorem collapseGo_space (skip : Nat) (a b : Text) (h : skip ≤ a.length) :
    collapseGo skip (a ++ ' ' :: b) = collapseGo skip a ++ ' ' :: collapseGo 0 b := by
  induction a generalizing skip with
  | nil =>
    have hskip : skip = 0 := Nat.le_zero.1 h
    subst hskip
    simp [collapseGo]
  | cons ch a ih =>
    cases skip with
    | zero =>
      rw [cons_append, collapseGo, collapseGo]
      simp only [runLetters_space]
      split
      · rw [ih _ (length_runLetters a)]
        simp
      · rw [ih 0 (Nat.zero_le _), cons_append]
    | succ skip =>
      exact ih skip (Nat.le_of_succ_le_succ h)

theorem collapseSeparators_space (a b : Text) :
    collapseSeparators (a ++ ' ' :: b) = collapseSeparators a ++ ' ' :: collapseSeparators b :=
  collapseGo_space 0 a b (Nat.zero_le _)

/-! ## All stages -/

section

variable {U : Unicode} {opts : NormalizeConfig}

theorem nfkcStage_eq (text : Text) :
    nfkcStage U opts text = if opts.nfkc then U.nfkc text else text := by
  unfold nfkcStage
  by_cases hnfkc : opts.nfkc = true
  · by_cases hascii : Str.isAscii text = true
    · have hsame : U.nfkc text = text := by
        apply U.nfkc_ascii
        intro c hc
        have := all_eq_true.1 hascii c hc
        simpa using this
      simp [hsame]
    · simp [hascii]
  · simp [hnfkc]

theorem nfkcStage_wordsOf {t u : Text} (h : Str.WordsOf t u) :
    Str.WordsOf (nfkcStage U opts t) (nfkcStage U opts u) := by
  rw [nfkcStage_eq, nfkcStage_eq]
  split
  · exact h.map_of_space (U.nfkc_ascii [] (by simp)) U.nfkc_space
  · exact h

/-- **Normalisation goes word by word**: a run of words of a text is normalised to a run of words
of the normalised text. -/
theorem normalizeWith_wordsOf {t u : Text} (h : Str.WordsOf t u) :
    Str.WordsOf (normalizeWith U opts t) (normalizeWith U opts u) := by
  have hbase : Str.WordsOf (baseNormalize U opts (nfkcStage U opts t))
      (baseNormalize U opts (nfkcStage U opts u)) := baseNormalize_wordsOf (nfkcStage_wordsOf h)
  unfold normalizeWith
  split
  · exact hbase.map_of_space rfl collapseSeparators_space
  · exact hbase

theorem nfkcStage_of_plain {text : Text} (h : Str.isAscii text = true ∨ opts.nfkc = false) :
    nfkcStage U opts text = text := by
  unfold nfkcStage
  rcases h with h | h <;> simp [h]

/-- A phrase of a text is found in the normalised text, if separators are kept. -/
theorem normalizeWith_isInfix (hsep : opts.separators = false) {t u : Text}
    (hplain : Str.isAscii u = true ∨ opts.nfkc = false) (h : t <:+: u) :
    normalizeWith U opts t <:+: normalizeWith U opts u := by
  have hpart : Str.isAscii t = true ∨ opts.nfkc = false :=
    hplain.imp_left fun hascii => Str.isAscii_of_isInfix hascii h
  unfold normalizeWith
  rw [nfkcStage_of_plain hpart, nfkcStage_of_plain hplain, hsep]
  exact baseNormalize_isInfix h

example :
    normalizeWith .ascii ⟨true, true, true, true⟩ "J-4-1-L-b-r-3-4-k  N0W\t".toList =
      "jailbreak now".toList := by decide

end

end Nanoguard.Matcher

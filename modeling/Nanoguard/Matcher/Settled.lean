import Nanoguard.Lib.Runs
import Nanoguard.Matcher.NormalForm

/-!
# Normalised texts

The loop of `collapse_separators` drops the separators of the runs with four letters or more, and none
is left in its result. A normalised text is settled: of its ASCII characters none would be folded, and
it has no two spaces in a row. So an ASCII part of it is its own normal form, but for a space at an end.
-/

namespace Nanoguard.Matcher

open List

variable {text : Text} {ch c d : Char} {p : Bool}

/-! ## Collapsing separators -/

/-- Letters and separators as `collapse_separators` takes them. -/
def separatorRuns : Runs Char where
  sep := isSeparator
  letter := Char.isAlphanum
  long := 4
  letter_of_sep c hc := by
    simp only [isSeparator, Bool.or_eq_true, beq_iff_eq] at hc
    rcases hc with (((rfl | rfl) | rfl) | rfl) | rfl <;> rfl

theorem runLetters_eq (text : Text) : runLetters text = separatorRuns.letters text := by
  induction text using runLetters.induct with
  | case1 sep ch text h ih =>
    rw [runLetters, if_pos h, ih]
    exact (if_pos h).symm
  | case2 sep ch text h =>
    rw [runLetters, if_neg h]
    exact (if_neg h).symm
  | case3 text htext =>
    rw [runLetters, Runs.letters] <;> exact htext

theorem collapseGo_skip (skip : Nat) (text : Text) :
    collapseGo skip text = collapseGo 0 (text.drop skip) := by
  induction text generalizing skip with
  | nil => cases skip <;> rfl
  | cons ch text ih =>
    cases skip with
    | zero => rfl
    | succ skip =>
      exact ih skip

theorem collapseGo_of_long (h : ch.isAlphanum = true ∧ 3 ≤ (runLetters text).length) :
    collapseGo 0 (ch :: text) =
      ch :: runLetters text ++ collapseGo 0 (text.drop (2 * (runLetters text).length)) := by
  rw [collapseGo, collapseGo_skip (2 * _)]
  simp [h]

theorem collapseGo_of_not_long (h : ¬ (ch.isAlphanum = true ∧ 3 ≤ (runLetters text).length)) :
    collapseGo 0 (ch :: text) = ch :: collapseGo 0 text := by
  rw [collapseGo, if_neg (by simpa using h)]

theorem collapseGo_eq {before : Text} (h : separatorRuns.Apart before text) :
    collapseGo 0 text = separatorRuns.kept before text [] := by
  -- along the scan, no run that would be collapsed reaches into what has been passed
  induction hn : text.length using Nat.strong_induction_on generalizing before text with
  | _ n ih =>
    subst hn
    cases text with
    | nil => rfl
    | cons ch text =>
      rw [Runs.kept_step h]
      by_cases hlong : ch.isAlphanum = true ∧ 3 ≤ (runLetters text).length
      · rw [collapseGo_of_long hlong]
        rw [runLetters_eq] at hlong ⊢
        obtain ⟨hrest, ch', before', hch', hkept⟩ :=
          Runs.kept_run (R := separatorRuns) before text hlong.1 (by change 4 ≤ _; omega)
        rw [hkept, ih _ ?_ (Runs.apart_of_letters_nil hch' hrest) rfl]
        · rfl
        · rw [length_drop, length_cons]
          omega
      rw [collapseGo_of_not_long hlong, ih _ (Nat.lt_succ_self _) (h.step fun hch => ?_) rfl]
      rw [runLetters_eq] at hlong
      have hshort := not_and.1 hlong hch
      change _ < 4
      omega

theorem collapseSeparators_eq (text : Text) :
    collapseSeparators text = separatorRuns.kept [] text [] :=
  collapseGo_eq (Runs.apart_nil_left text)

theorem collapseSeparators_sublist (text : Text) : (collapseSeparators text).Sublist text := by
  rw [collapseSeparators_eq]
  exact Runs.kept_sublist [] text []

theorem mem_runLetters (h : c ∈ runLetters text) : c.isAlphanum = true := by
  induction text using runLetters.induct with
  | case1 sep ch text hrun ih =>
    rw [runLetters, if_pos hrun] at h
    rw [Bool.and_eq_true] at hrun
    rcases mem_cons.1 h with rfl | h
    · exact hrun.2
    · exact ih h
  | case2 sep ch text hrun =>
    rw [runLetters, if_neg hrun] at h
    exact absurd h not_mem_nil
  | case3 text htext =>
    rw [runLetters] at h
    · exact absurd h not_mem_nil
    · exact htext

theorem collapseSeparators_idem (text : Text) :
    collapseSeparators (collapseSeparators text) = collapseSeparators text := by
  rw [collapseSeparators_eq, collapseSeparators_eq]
  exact Runs.kept_kept [] text

theorem collapseSeparators_of_isInfix {t u : Text} (h : t <:+: collapseSeparators u) :
    collapseSeparators t = t := by
  have hself := collapseSeparators_idem u
  rw [collapseSeparators_eq] at hself ⊢
  exact Runs.kept_eq_self_of_infix hself h

/-! ## Settled texts -/

/-- Lower case is never empty, and what is ASCII in it are small letters. -/
def LowersToLetters (U : Unicode) : Prop :=
  ∀ c, U.isUppercase c = true →
    U.toLowercase c ≠ [] ∧ ∀ d ∈ U.toLowercase c, d.toNat < 128 → d.isLower = true

theorem lowersToLetters_ascii : LowersToLetters .ascii := by
  intro c hupper
  refine ⟨cons_ne_nil _ _, ?_⟩
  intro d hd _
  obtain rfl := mem_singleton.1 hd
  rcases Str.toLower_cases c with ⟨hnot, -⟩ | ⟨hge, hle⟩
  · have hupper : c.isUpper = true := hupper
    rw [hnot] at hupper
    exact absurd hupper Bool.false_ne_true
  · exact Bool.and_eq_true_iff.2 ⟨decide_eq_true hge, decide_eq_true hle⟩

/-- An ASCII character that the loop pushes as it is, or takes for a space if it is one. -/
def settledChar (opts : NormalizeConfig) (c : Char) : Bool :=
  !c.isUpper && !(c == '\n' || c == '\r' || c == '\t') && (!opts.leet || leetFold c == c)

structure Settled (opts : NormalizeConfig) (t : Text) : Prop where
  chars : ∀ c ∈ t, c.toNat < 128 → settledChar opts c = true
  spaces : t.IsChain fun a b => a ≠ ' ' ∨ b ≠ ' '

section Settled

variable {U : Unicode} {opts : NormalizeConfig} {t u : Text}

theorem Settled.isInfix (hu : Settled opts u) (h : t <:+: u) : Settled opts t :=
  ⟨fun c hc => hu.chars c (h.subset hc), hu.spaces.infix h⟩

theorem Settled.head_of_space (h : Settled opts (' ' :: t)) : t.head? ≠ some ' ' := by
  intro hhead
  rcases (isChain_cons.1 h.spaces).1 ' ' hhead with hne | hne <;> exact hne rfl

theorem LowersToLetters.plainLowercase (hU : LowersToLetters U) (c : Char) :
    PlainLowercase U c := by
  intro hupper
  obtain ⟨hne, hletters⟩ := hU c hupper
  exact ⟨hne, fun hspace => absurd (hletters ' ' hspace (by decide)) (by decide)⟩

theorem leetFold_idem (c : Char) : leetFold (leetFold c) = leetFold c := by
  by_cases h : leetFold c = c
  · rw [h, h]
  · unfold leetFold at h
    split at h
    all_goals first | rfl | exact absurd rfl h

theorem settledChar_space (opts : NormalizeConfig) : settledChar opts ' ' = true := by
  have hleet : (!opts.leet || leetFold ' ' == ' ') = true := by
    cases opts.leet <;> rfl
  rw [settledChar, hleet]
  rfl

theorem settledChar_of_isLower (h : c.isLower = true) : settledChar opts c = true := by
  have hrange : 97 ≤ c.toNat ∧ c.toNat ≤ 122 := by
    obtain ⟨hlo, hhi⟩ := Bool.and_eq_true_iff.1 h
    exact ⟨of_decide_eq_true hlo, of_decide_eq_true hhi⟩
  have hupper : c.isUpper = false := by
    rw [← Bool.not_eq_true]
    intro hupper
    have hle : c.val ≤ 'Z'.val := (of_decide_eq_true hupper).2
    have hle : c.toNat ≤ 90 := hle
    omega
  have hbreak : (c == '\n' || c == '\r' || c == '\t') = false := by
    rw [← Bool.not_eq_true]
    simp only [Bool.or_eq_true, beq_iff_eq]
    rintro ((rfl | rfl) | rfl) <;> exact absurd h (by decide)
  have hleet : leetFold c = c := by
    unfold leetFold
    split
    all_goals first | rfl | exact absurd h (by decide)
  simp [settledChar, hupper, hbreak, hleet]

theorem mem_pushChar (h : d ∈ (pushChar U opts p ch).1) :
    (opts.zeroWidth && isZeroWidth ch) = false ∧
      ∃ folded, folded = (if opts.leet then leetFold ch else ch) ∧
        (d = ' ' ∨ U.isUppercase folded = true ∧ d ∈ U.toLowercase folded ∨
          d = folded ∧ U.isUppercase folded = false ∧
            (folded == '\n' || folded == '\r' || folded == '\t') = false) := by
  have hspace (h : d ∈ (pushSpace p).1) : d = ' ' := by
    cases p with
    | true => exact absurd h not_mem_nil
    | false => exact mem_singleton.1 h
  unfold pushChar at h
  split at h
  next => exact absurd h not_mem_nil
  next hzero =>
    refine ⟨by simpa using hzero, _, rfl, ?_⟩
    generalize (if opts.leet then leetFold ch else ch) = folded at h
    unfold pushFolded at h
    split at h
    next => exact .inl (hspace h)
    next hbreak =>
      split at h
      next hupper => exact .inr (.inl ⟨hupper, h⟩)
      next hupper =>
        split at h
        next => exact .inl (hspace h)
        next =>
          rw [Bool.not_eq_true] at hupper hbreak
          exact .inr (.inr ⟨mem_singleton.1 h, hupper, hbreak⟩)

theorem mem_pushChars (h : d ∈ (pushChars U opts p text).1) :
    ∃ q, ∃ ch ∈ text, d ∈ (pushChar U opts q ch).1 := by
  induction text generalizing p with
  | nil => exact absurd h not_mem_nil
  | cons ch text ih =>
    rcases mem_append.1 h with h | h
    · exact ⟨p, ch, mem_cons_self, h⟩
    · obtain ⟨q, ch', hch', hd⟩ := ih h
      exact ⟨q, ch', mem_cons_of_mem _ hch', hd⟩

theorem settledChar_of_mem_pushChar (hU : LowersToLetters U) (h : d ∈ (pushChar U opts p ch).1)
    (hascii : d.toNat < 128) : settledChar opts d = true := by
  obtain ⟨-, folded, hfolded, rfl | ⟨hupper, hd⟩ | ⟨rfl, hupper, hbreak⟩⟩ := mem_pushChar h
  · exact settledChar_space opts
  · exact settledChar_of_isLower ((hU folded hupper).2 d hd hascii)
  have hleet : (!opts.leet || leetFold d == d) = true := by
    rw [hfolded]
    cases opts.leet with
    | true => simp [leetFold_idem]
    | false => rfl
  rw [U.isUppercase_ascii d hascii] at hupper
  rw [settledChar, hleet, hupper, hbreak]
  rfl

theorem toNat_of_mem_pushChar (hch : ch.toNat < 128) (h : d ∈ (pushChar U opts p ch).1) :
    d.toNat < 128 := by
  obtain ⟨-, folded, hfolded, hd⟩ := mem_pushChar h
  have hascii : folded.toNat < 128 := by
    rw [hfolded]
    split
    · rcases leetFold_eq ch with hsame | hascii
      · rw [hsame]
        exact hch
      · exact hascii
    · exact hch
  rcases hd with rfl | ⟨-, hd⟩ | ⟨rfl, -⟩
  · decide
  · rw [U.toLowercase_ascii folded hascii, mem_singleton] at hd
    rw [hd]
    rcases Str.toLower_cases folded with ⟨-, hsame⟩ | ⟨-, hle⟩
    · rw [hsame]
      exact hascii
    · omega
  · exact hascii

theorem isAscii_baseNormalize (h : Str.isAscii text = true) :
    Str.isAscii (baseNormalize U opts text) = true := by
  refine Str.isAscii_of_isInfix (all_eq_true.2 fun d hd => ?_) (popSpace_isInfix _)
  obtain ⟨q, ch, hch, hd⟩ := mem_pushChars hd
  have hascii : ch.toNat < 128 := by simpa using all_eq_true.1 h ch hch
  exact decide_eq_true (toNat_of_mem_pushChar hascii hd)

theorem singleSpaced_normalizeWith (hplain : ∀ c, PlainLowercase U c) (opts : NormalizeConfig)
    (text : Text) : Str.SingleSpaced (normalizeWith U opts text) := by
  have hpieces : PlainPieces (pieces U opts (nfkcStage U opts text)) :=
    plainPieces_pieces fun c _ => .inr (hplain c)
  have hwords : ∀ w ∈ normalWords U opts (nfkcStage U opts text), w ≠ [] ∧ ' ' ∉ w := by
    intro w hw
    exact ⟨Str.ne_nil_of_mem_pieceWords hw,
      Str.notMem_of_mem_pieceWords not_mem_nil (fun s hs => (hpieces s hs).2) hw⟩
  unfold normalizeWith
  dsimp only
  rw [baseNormalize_eq fun c _ => .inr (hplain c)]
  split
  · have hjoin (ws : List Text) : collapseSeparators (Str.join [' '] ws) =
        Str.join [' '] (ws.map collapseSeparators) := Str.map_join rfl collapseSeparators_space ws
    rw [hjoin]
    apply Str.singleSpaced_join
    intro w hw
    obtain ⟨w, hmem, rfl⟩ := mem_map.1 hw
    obtain ⟨hne, hspace⟩ := hwords w hmem
    refine ⟨?_, fun h => hspace ((collapseSeparators_sublist w).subset h)⟩
    rw [ne_eq, ← List.isEmpty_iff, collapseSeparators_isEmpty, List.isEmpty_iff]
    exact hne
  · exact Str.singleSpaced_join hwords

theorem mem_pushChars_of_mem_normalizeWith (hc : c ∈ normalizeWith U opts text) :
    ∃ q ch, c ∈ (pushChar U opts q ch).1 := by
  have hbase : c ∈ baseNormalize U opts (nfkcStage U opts text) := by
    unfold normalizeWith at hc
    dsimp only at hc
    split at hc
    · exact (collapseSeparators_sublist _).subset hc
    · exact hc
  obtain ⟨q, ch, -, hpushed⟩ := mem_pushChars ((popSpace_isInfix _).subset hbase)
  exact ⟨q, ch, hpushed⟩

theorem settled_normalizeWith (hU : LowersToLetters U) (opts : NormalizeConfig) (text : Text) :
    Settled opts (normalizeWith U opts text) := by
  refine ⟨fun c hc hascii => ?_, (singleSpaced_normalizeWith hU.plainLowercase opts text).chain⟩
  obtain ⟨q, ch, hpushed⟩ := mem_pushChars_of_mem_normalizeWith hc
  exact settledChar_of_mem_pushChar hU hpushed hascii

/-! ## Characters that the loop pushes as they are -/

/-- A character that is neither dropped nor changed, but may be taken for a space. -/
structure FixedChar (U : Unicode) (opts : NormalizeConfig) (c : Char) : Prop where
  zero : (opts.zeroWidth && isZeroWidth c) = false
  fold : (if opts.leet then leetFold c else c) = c
  noBreak : (c == '\n' || c == '\r' || c == '\t') = false
  lower : U.isUppercase c = true → U.toLowercase c = [c]

theorem FixedChar.pushChar_eq (h : FixedChar U opts c) (p : Bool) :
    pushChar U opts p c = if c = ' ' then pushSpace p else ([c], false) := by
  by_cases hspace : c = ' '
  · rw [if_pos hspace, hspace, pushChar_space]
  unfold pushChar pushFolded
  rw [h.zero, h.fold, h.noBreak]
  cases hupper : U.isUppercase c with
  | true => simp [h.lower hupper, hspace]
  | false => simp

theorem pushChars_of_fixed (hchars : ∀ c ∈ t, FixedChar U opts c)
    (hspaces : t.IsChain fun a b => a ≠ ' ' ∨ b ≠ ' ') (hp : p = true → t.head? ≠ some ' ') :
    (pushChars U opts p t).1 = t := by
  induction t generalizing p with
  | nil => rfl
  | cons c t ih =>
    rw [forall_mem_cons] at hchars
    obtain ⟨hnext, htail⟩ := isChain_cons.1 hspaces
    rw [pushChars, hchars.1.pushChar_eq]
    by_cases hspace : c = ' '
    · -- a space is pushed, and none follows
      subst hspace
      have hp : p = false := by
        cases p with
        | false => rfl
        | true => exact absurd rfl (hp rfl)
      subst hp
      refine congrArg (' ' :: ·) (ih hchars.2 htail fun _ hhead => ?_)
      rcases hnext ' ' hhead with hne | hne <;> exact hne rfl
    · rw [if_neg hspace]
      exact congrArg (c :: ·) (ih hchars.2 htail fun h => absurd h Bool.false_ne_true)

/-! ## Settled texts of ASCII characters -/

theorem fixedChar_of_settled (h : settledChar opts c = true) (hascii : c.toNat < 128) :
    FixedChar U opts c := by
  simp only [settledChar, Bool.and_eq_true, Bool.not_eq_true'] at h
  obtain ⟨⟨hupper, hbreak⟩, hleet⟩ := h
  refine ⟨?_, ?_, hbreak, ?_⟩
  · have hzero : isZeroWidth c = false := by
      simp only [isZeroWidth, Bool.or_eq_false_iff, beq_eq_false_iff_ne]
      omega
    rw [hzero, Bool.and_false]
  · cases hopt : opts.leet with
    | true => simpa [hopt] using hleet
    | false => rfl
  · rw [U.isUppercase_ascii c hascii, hupper]
    exact fun h => absurd h Bool.false_ne_true

theorem Settled.pushChars_eq (ht : Settled opts t) (hascii : Str.isAscii t = true)
    (hp : p = true → t.head? ≠ some ' ') : (pushChars U opts p t).1 = t := by
  refine pushChars_of_fixed (fun c hc => ?_) ht.spaces hp
  have hlt := Str.toNat_of_isAscii hascii hc
  exact fixedChar_of_settled (ht.chars c hc hlt) hlt

/-- But for a space at an end, an ASCII part of a settled text is its own normal form. -/
theorem Settled.baseNormalize_isInfix_self (ht : Settled opts t) (hascii : Str.isAscii t = true) :
    baseNormalize U opts t <:+: t := by
  by_cases hhead : t.head? = some ' '
  · obtain ⟨rest, rfl⟩ := head?_eq_some_iff.1 hhead
    have hsuffix : rest <:+: ' ' :: rest := (suffix_cons ' ' rest).isInfix
    have hloop : (pushChars U opts true (' ' :: rest)).1 = rest := by
      rw [pushChars, pushChar_space]
      exact (ht.isInfix hsuffix).pushChars_eq hascii fun _ => ht.head_of_space
    unfold baseNormalize
    rw [hloop]
    exact (popSpace_isInfix rest).trans hsuffix
  · unfold baseNormalize
    rw [ht.pushChars_eq hascii fun _ => hhead]
    exact popSpace_isInfix t

theorem Settled.baseNormalize_eq_self (ht : Settled opts t) (hascii : Str.isAscii t = true)
    (hhead : t.head? ≠ some ' ') (hlast : t.getLast? ≠ some ' ') : baseNormalize U opts t = t := by
  unfold baseNormalize
  rw [ht.pushChars_eq hascii fun _ => hhead, popSpace, if_neg hlast]

theorem Settled.surround {a b : Text} (ht : Settled opts t)
    (ha : ∀ c ∈ a, settledChar opts c = true ∧ c ≠ ' ')
    (hb : ∀ c ∈ b, settledChar opts c = true ∧ c ≠ ' ') : Settled opts (a ++ (t ++ b)) := by
  constructor
  · intro c hc hascii
    rw [mem_append, mem_append] at hc
    rcases hc with hc | hc | hc
    · exact (ha c hc).1
    · exact ht.chars c hc hascii
    · exact (hb c hc).1
  · have hspace {w : Text} (hw : ∀ c ∈ w, settledChar opts c = true ∧ c ≠ ' ') :
        w.IsChain fun a b => a ≠ ' ' ∨ b ≠ ' ' :=
      Str.isChain_of_notMem fun hmem => (hw ' ' hmem).2 rfl
    refine (hspace ha).append (ht.spaces.append (hspace hb) ?_) ?_
    · intro _ _ y hy
      exact .inr (hb y (mem_of_head? hy)).2
    · intro x hx _ _
      exact .inl (ha x (mem_of_getLast? hx)).2

theorem normalizeWith_isInfix_self (hU : LowersToLetters U) (h : t <:+: normalizeWith U opts text)
    (hascii : Str.isAscii t = true) : normalizeWith U opts t <:+: t := by
  have hself : baseNormalize U opts (nfkcStage U opts t) <:+: t := by
    rw [nfkcStage_of_plain (.inl hascii)]
    exact ((settled_normalizeWith hU opts text).isInfix h).baseNormalize_isInfix_self hascii
  unfold normalizeWith
  cases hsep : opts.separators with
  | false => exact hself
  | true =>
    have hin : baseNormalize U opts (nfkcStage U opts t) <:+:
        collapseSeparators (baseNormalize U opts (nfkcStage U opts text)) := by
      unfold normalizeWith at h
      rw [hsep] at h
      exact hself.trans h
    rw [if_pos rfl, collapseSeparators_of_isInfix hin]
    exact hself

end Settled

end Nanoguard.Matcher

import Nanoguard.Matcher.Settled

/-!
# Normalising twice

A normalised text is in normal form: its characters are pushed as they are and its spaces are single.
So the loop leaves it alone, and no run is left to collapse. What is assumed of the tables of lower
case letters is `LowersPlainly`.
-/

namespace Nanoguard.Matcher

variable {U : Unicode} {opts : NormalizeConfig} {text : Text} {c ch : Char} {p : Bool}

/-- Lower case is never empty, has no white space, no zero-width character and nothing to fold, and
is its own lower case. -/
structure LowersPlainly (U : Unicode) : Prop where
  ne_nil : ∀ c, U.isUppercase c = true → U.toLowercase c ≠ []
  plain : ∀ c, U.isUppercase c = true → ∀ d ∈ U.toLowercase c,
    Str.isWhitespace d = false ∧ isZeroWidth d = false ∧ leetFold d = d ∧ U.toLowercase d = [d]

structure IsNormalForm (opts : NormalizeConfig) (t : Text) : Prop extends Str.SingleSpaced t where
  noBreak : ∀ c ∈ t, c ≠ '\t' ∧ c ≠ '\n' ∧ c ≠ '\r'
  noZeroWidth : opts.zeroWidth = true → ∀ c ∈ t, isZeroWidth c = false
  noLeet : opts.leet = true → ∀ c ∈ t, leetFold c = c
  noUpper : ∀ c ∈ t, c.isUpper = false

theorem LowersPlainly.plainLowercase (hU : LowersPlainly U) (c : Char) : PlainLowercase U c := by
  intro hupper
  refine ⟨hU.ne_nil c hupper, fun hspace => ?_⟩
  exact absurd (hU.plain c hupper ' ' hspace).1 (by decide)

theorem isZeroWidth_leetFold (h : isZeroWidth ch = false) : isZeroWidth (leetFold ch) = false := by
  rcases leetFold_eq ch with hsame | hascii
  · rw [hsame, h]
  · simp only [isZeroWidth, Bool.or_eq_false_iff, beq_eq_false_iff_ne]
    omega

theorem fixedChar_space : FixedChar U opts ' ' :=
  fixedChar_of_settled (settledChar_space opts) (by decide)

theorem fixedChar_of_mem_pushChar (hU : LowersPlainly U) (h : c ∈ (pushChar U opts p ch).1) :
    FixedChar U opts c := by
  obtain ⟨hzero, folded, hfolded, rfl | ⟨hupper, hc⟩ | ⟨rfl, hupper, hbreak⟩⟩ := mem_pushChar h
  · exact fixedChar_space
  · obtain ⟨hspace, hwidth, hleet, hlower⟩ := hU.plain folded hupper c hc
    refine ⟨by rw [hwidth, Bool.and_false], by rw [hleet, ite_self], ?_, fun _ => hlower⟩
    rw [← Bool.not_eq_true]
    simp only [Bool.or_eq_true, beq_iff_eq]
    rintro ((rfl | rfl) | rfl) <;> exact absurd hspace (by decide)
  refine ⟨?_, ?_, hbreak, fun h => absurd (hupper.symm.trans h) Bool.false_ne_true⟩
  · rw [Bool.and_eq_false_iff] at hzero ⊢
    refine hzero.imp_right fun hch => ?_
    rw [hfolded]
    split
    · exact isZeroWidth_leetFold hch
    · exact hch
  · rw [hfolded]
    cases opts.leet with
    | true => exact leetFold_idem ch
    | false => rfl

theorem FixedChar.isUpper_eq (h : FixedChar U opts c) : c.isUpper = false := by
  rw [← Bool.not_eq_true]
  intro hupper
  have hle : c.val ≤ 'Z'.val := (of_decide_eq_true hupper).2
  have hascii : c.toNat < 128 := Nat.lt_of_le_of_lt hle (by decide)
  have hlower := h.lower (by rw [U.isUppercase_ascii c hascii, hupper])
  rw [U.toLowercase_ascii c hascii, List.singleton_inj] at hlower
  exact absurd hupper (by rw [← hlower, Str.isUpper_toLower]; exact Bool.false_ne_true)

theorem isAscii_normalizeWith (h : Str.isAscii text = true) :
    Str.isAscii (normalizeWith U opts text) = true := by
  have hbase : Str.isAscii (baseNormalize U opts (nfkcStage U opts text)) = true := by
    rw [nfkcStage_of_plain (.inl h)]
    exact isAscii_baseNormalize h
  unfold normalizeWith
  dsimp only
  split
  · refine List.all_eq_true.2 fun c hc => ?_
    exact List.all_eq_true.1 hbase c ((collapseSeparators_sublist _).subset hc)
  · exact hbase

/-- **Normalising reaches a normal form**: under every choice of flags a second pass changes nothing,
and what each flag asks for has been done. -/
theorem normalize_with_normal_form (hU : LowersPlainly U) (opts : NormalizeConfig) (text : Text)
    (h : Str.isAscii text = true ∨ opts.nfkc = false) :
    normalizeWith U opts (normalizeWith U opts text) = normalizeWith U opts text ∧
      IsNormalForm opts (normalizeWith U opts text) := by
  have hspaced := singleSpaced_normalizeWith hU.plainLowercase opts text
  have hfixed : ∀ c ∈ normalizeWith U opts text, FixedChar U opts c := by
    intro c hc
    obtain ⟨q, ch, hpushed⟩ := mem_pushChars_of_mem_normalizeWith hc
    exact fixedChar_of_mem_pushChar hU hpushed
  refine ⟨?_, hspaced, fun c hc => ?_, fun hzero c hc => ?_, fun hleet c hc => ?_,
    fun c hc => (hfixed c hc).isUpper_eq⟩
  · have hstage : nfkcStage U opts (normalizeWith U opts text) = normalizeWith U opts text :=
      nfkcStage_of_plain (h.imp_left isAscii_normalizeWith)
    have hbase : baseNormalize U opts (normalizeWith U opts text) = normalizeWith U opts text := by
      unfold baseNormalize
      rw [pushChars_of_fixed hfixed hspaced.chain fun _ => hspaced.head, popSpace,
        if_neg hspaced.last]
    rw [normalizeWith, hstage, hbase]
    split
    next hsep => simp only [normalizeWith, if_pos hsep, collapseSeparators_idem]
    next => rfl
  · have hbreak := (hfixed c hc).noBreak
    simp only [Bool.or_eq_false_iff, beq_eq_false_iff_ne] at hbreak
    exact ⟨hbreak.2, hbreak.1⟩
  · simpa [hzero] using (hfixed c hc).zero
  · simpa [hleet] using (hfixed c hc).fold

theorem lowersPlainly_ascii : LowersPlainly .ascii := by
  refine ⟨fun c _ => List.cons_ne_nil _ _, fun c hupper d hd => ?_⟩
  obtain rfl := List.mem_singleton.1 hd
  rcases Str.toLower_cases c with ⟨hnot, -⟩ | hrange
  · exact absurd (hnot.symm.trans hupper) Bool.false_ne_true
  generalize c.toLower = d at hrange
  have hlower : d.isLower = true :=
    Bool.and_eq_true_iff.2 ⟨decide_eq_true hrange.1, decide_eq_true hrange.2⟩
  have hsettled : settledChar { leet := true } d = true := settledChar_of_isLower hlower
  have hnot : ¬ (d.val ≥ 'A'.val ∧ d.val ≤ 'Z'.val) := fun h => absurd h.2 (Nat.not_le.2
    (Nat.lt_of_lt_of_le (by decide) hrange.1))
  refine ⟨?_, ?_, ?_, ?_⟩
  · simp only [Str.isWhitespace, Bool.or_eq_false_iff, Bool.and_eq_false_iff,
      beq_eq_false_iff_ne, decide_eq_false_iff_not]
    omega
  · simp only [isZeroWidth, Bool.or_eq_false_iff, beq_eq_false_iff_ne]
    omega
  · simpa [settledChar] using (Bool.and_eq_true_iff.1 hsettled).2
  · exact congrArg ([·]) (dif_neg hnot)

theorem normalize_with_normal_form_ascii :
    normalizeWith .ascii { separators := true, leet := true }
        (normalizeWith .ascii { separators := true, leet := true } "\tJ-a-1-L  br3ak ".toList) =
      "jail break".toList := by
  have h := normalize_with_normal_form lowersPlainly_ascii { separators := true, leet := true }
    "\tJ-a-1-L  br3ak ".toList (.inl (by decide))
  exact h.1.trans (by decide)

end Nanoguard.Matcher

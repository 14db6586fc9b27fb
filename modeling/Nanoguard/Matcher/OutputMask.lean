import Nanoguard.Matcher.Output
import Nanoguard.Lib.Balance

/-!
# Which phrases the output filter masks

A phrase occurs in a text, in whatever letter case, where the lowercase characters are those of the
phrase. An occurrence is masked exactly if the match at its own place is. Two things can go wrong: a
phrase with a capital is never found in the copy, and a match behind an opening bracket is left alone
also if that bracket is never closed.
-/

namespace Nanoguard.Matcher

open List

open Guard (brackets)

def hasCapital (w : Text) : Bool := w.any Char.isUpper

/-- The characters from `s` to `e` are the phrase, in some letter case. -/
def OccursAt (U : Unicode) (text w : Text) (s e : Nat) : Prop :=
  s ≤ e ∧ e ≤ text.length ∧
    ((text.drop s).take (e - s)).flatMap (lowercaseOf U) = Str.toAsciiLowercase w

/-- In the result there is an asterisk for each byte of the characters from `s` to `e`. -/
def Starred (text result : Text) (s e : Nat) : Prop :=
  ∃ a b, result = a ++ (List.replicate (Str.len ((text.drop s).take (e - s))) '*' ++ b) ∧
    Str.len a = Str.len (text.take s)

/-- The dictionary reports every occurrence of a word that does not overlap a reported one. -/
def Exhaustive (output : OutputDictionary) : Prop :=
  ∀ t w i, w ∈ outputWords → w <+: t.drop i →
    ∃ m ∈ output.scan t, m.position < i + w.length ∧ i < m.position + m.length

def Lowers (U : Unicode) : Prop := ∀ c, ∀ d ∈ U.toLowercase c, d.isUpper = false

section Positions

variable {U : Unicode} {text w : Text} {s e : Nat}

/-- Where the copy of the character at `s` starts. -/
def lowerPos (U : Unicode) (text : Text) (s : Nat) : Nat :=
  ((text.take s).flatMap (lowercaseOf U)).length

theorem lowered_eq (U : Unicode) (text : Text) :
    (lowerWithByteMap U text).1 = text.flatMap (lowercaseOf U) :=
  map_fst_lowerTagged text

theorem lt_lowerPos_iff {k i : Nat} {lc : Char} (hs : s ≤ text.length)
    (h : (lowerTagged U text)[k]? = some (lc, i)) : k < lowerPos U text s ↔ i < s := by
  have hsplit : lowerTagged U text =
      lowerTagged U (text.take s) ++ ((text.drop s).zipIdx s).flatMap fun p =>
        (lowercaseOf U p.1).map fun lc => (lc, p.2) := by
    have hzip : (text.take s ++ text.drop s).zipIdx 0 = _ := zipIdx_append
    rw [take_append_drop, length_take, Nat.min_eq_left hs, Nat.zero_add] at hzip
    unfold lowerTagged
    rw [hzip, flatMap_append]
  have hlen : (lowerTagged U (text.take s)).length = lowerPos U text s := by
    rw [lowerPos, ← map_fst_lowerTagged, length_map]
  rw [hsplit] at h
  constructor
  · intro hk
    rw [getElem?_append_left (hlen ▸ hk)] at h
    obtain ⟨c, hc, -⟩ := mem_lowerTagged.1 (mem_of_getElem? h)
    exact Nat.lt_of_lt_of_le (List.getElem?_eq_some_iff.1 hc).1 (length_take_le _ _)
  · intro hi
    by_contra hk
    rw [getElem?_append_right (hlen ▸ Nat.not_lt.1 hk)] at h
    obtain ⟨⟨c, j⟩, hmem, htag⟩ := mem_flatMap.1 (mem_of_getElem? h)
    obtain ⟨_, -, heq⟩ := mem_map.1 htag
    cases heq
    exact absurd (le_snd_of_mem_zipIdx hmem) (Nat.not_le.2 hi)

theorem lowerPos_lt (hs : s < text.length) : lowerPos U text s < lowerPos U text (s + 1) := by
  unfold lowerPos
  rw [take_add_one, getElem?_eq_getElem hs, flatMap_append]
  have := length_pos_of_ne_nil (lowercaseOf_ne_nil (U := U) text[s])
  simpa using this

theorem lowerPos_length (U : Unicode) (text : Text) :
    lowerPos U text text.length = (lowerWithByteMap U text).1.length := by
  rw [lowered_eq, lowerPos, take_length]

theorem lowerPos_le (U : Unicode) (text : Text) (s : Nat) :
    lowerPos U text s ≤ (lowerWithByteMap U text).1.length := by
  rw [lowered_eq]
  conv_rhs => rw [← take_append_drop s text, flatMap_append, length_append]
  exact Nat.le_add_right _ _

theorem getD_map_lowerPos (hs : s ≤ text.length) :
    (lowerWithByteMap U text).2.getD (lowerPos U text s) 0 = s := by
  rcases Nat.lt_or_eq_of_le hs with hlt | rfl
  · have hlen : (lowerWithByteMap U text).1.length = (lowerTagged U text).length :=
      length_map _
    have hpos := Nat.lt_of_lt_of_le (lowerPos_lt (U := U) hlt) (lowerPos_le U text (s + 1))
    obtain ⟨⟨lc, i⟩, hget⟩ : ∃ x, (lowerTagged U text)[lowerPos U text s]? = some x :=
      ⟨_, getElem?_eq_getElem (hlen ▸ hpos)⟩
    have hge := mt (lt_lowerPos_iff hs hget).2 (Nat.lt_irrefl _)
    have hlt' := (lt_lowerPos_iff hlt hget).1 (lowerPos_lt hlt)
    rw [getD_map_of_some hget]
    omega
  · rw [lowerPos_length, getD_map_length]

theorem OccursAt.prefix_drop (h : OccursAt U text w s e) :
    Str.toAsciiLowercase w <+: (lowerWithByteMap U text).1.drop (lowerPos U text s) ∧
      lowerPos U text e = lowerPos U text s + w.length := by
  obtain ⟨hse, -, hocc⟩ := h
  have hdrop : text.drop s = (text.drop s).take (e - s) ++ text.drop e := by
    have htail : text.drop e = (text.drop s).drop (e - s) := by
      rw [drop_drop, Nat.add_sub_cancel' hse]
    rw [htail, take_append_drop]
  have hlower : (lowerWithByteMap U text).1 = (text.take s).flatMap (lowercaseOf U) ++
      (Str.toAsciiLowercase w ++ (text.drop e).flatMap (lowercaseOf U)) := by
    rw [lowered_eq, ← hocc, ← flatMap_append, ← hdrop, ← flatMap_append, take_append_drop]
  constructor
  · rw [hlower, lowerPos, drop_left]
    exact prefix_append _ _
  · have htake : text.take e = text.take s ++ (text.drop s).take (e - s) := by
      rw [← take_add, Nat.add_sub_cancel' hse]
    rw [lowerPos, htake, flatMap_append, length_append, hocc, Str.toAsciiLowercase, length_map]
    rfl

end Positions

/-! ## Overlaps -/

/-- The words are not empty and have no character that the filter reads or writes. -/
theorem outputWord_chars : ∀ w ∈ outputWords, 0 < w.length ∧ Str.toAsciiLowercase w ≠ [] ∧
    (hasCapital w = false → Str.toAsciiLowercase w = w) ∧ '*' ∉ Str.toAsciiLowercase w ∧
    '[' ∉ Str.toAsciiLowercase w ∧ ']' ∉ Str.toAsciiLowercase w := by
  decide +kernel

theorem words_apart : ∀ w ∈ outputWords, hasCapital w = false → ∀ v ∈ outputWords,
    (∀ d < w.length, (w.drop d <+: Str.toAsciiLowercase v ∨ Str.toAsciiLowercase v <+: w.drop d) →
      d = 0 ∧ w = v) ∧
    (∀ d < v.length, ((Str.toAsciiLowercase v).drop d <+: w ∨ w <+: (Str.toAsciiLowercase v).drop d) →
      d = 0 ∧ w = v) := by
  decide +kernel

/-- Two words that overlap in a text stand at the same place, if shifted copies of them differ. -/
theorem overlap_eq {t w v : Text} {i j : Nat} (hw : w ∈ outputWords) (hcap : hasCapital w = false)
    (hv : v ∈ outputWords) (hi : w <+: t.drop i) (hj : Str.toAsciiLowercase v <+: t.drop j)
    (hij : i < j + v.length) (hji : j < i + w.length) : i = j ∧ w = v := by
  obtain ⟨hleft, hright⟩ := words_apart w hw hcap v hv
  rcases Nat.le_total i j with hle | hle
  · have hdrop : w.drop (j - i) <+: t.drop j := by
      have hshift := hi.drop (j - i)
      rwa [drop_drop, Nat.add_sub_cancel' hle] at hshift
    obtain ⟨hzero, heq⟩ := hleft (j - i) (by omega) ( prefix_or_prefix_of_prefix hdrop hj)
    exact ⟨by omega, heq⟩
  have hdrop : (Str.toAsciiLowercase v).drop (i - j) <+: t.drop i := by
    have hshift := hj.drop (i - j)
    rwa [drop_drop, Nat.add_sub_cancel' hle] at hshift
  obtain ⟨hzero, heq⟩ := hright (i - j) (by omega) ( prefix_or_prefix_of_prefix hdrop hi)
  exact ⟨by omega, heq⟩

section Marks

variable {U : Unicode} {output : OutputDictionary} {text w : Text} {s e i : Nat}

theorem isUpper_of_mem_lowered (hU : Lowers U) {d : Char}
    (hd : d ∈ (lowerWithByteMap U text).1) : d.isUpper = false := by
  rw [lowered_eq] at hd
  obtain ⟨c, -, hd⟩ := mem_flatMap.1 hd
  unfold lowercaseOf at hd
  split at hd
  · rename_i hempty
    obtain rfl := mem_singleton.1 hd
    by_contra hup
    have hascii : d.toNat < 128 := by
      rw [Bool.not_eq_false] at hup
      have := Str.toNat_of_isAlpha (c := d) (Bool.or_eq_true_iff.2 (.inl hup))
      omega
    rw [U.toLowercase_ascii d hascii] at hempty
    cases hempty
  · exact hU c d hd

theorem hasCapital_lowered (hU : Lowers U) (text : Text) (i n : Nat) :
    hasCapital (((lowerWithByteMap U text).1.drop i).take n) = false := by
  unfold hasCapital
  rw [any_eq_false]
  intro d hd
  have := isUpper_of_mem_lowered hU (mem_of_mem_drop (mem_of_mem_take hd))
  simp [this]

theorem match_eq_of_overlap (hU : Lowers U) (hw : w ∈ outputWords) (hocc : OccursAt U text w s e)
    {m : OutputMatch} (hm : m ∈ output.scan (lowerWithByteMap U text).1)
    (hstart : m.position < lowerPos U text e) (hend : lowerPos U text s < m.position + m.length) :
    hasCapital w = false ∧ m = ⟨lowerPos U text s, w.length⟩ := by
  obtain ⟨hpre, hpos⟩ := hocc.prefix_drop
  have hcap := hasCapital_lowered hU text m.position m.length
  have hword := output.word hm
  have hlen : (((lowerWithByteMap U text).1.drop m.position).take m.length).length = m.length := by
    have := output.within hm
    rw [length_take, length_drop]
    omega
  obtain ⟨heq, hsame⟩ := overlap_eq hword hcap hw ( take_prefix _ _) hpre (by omega) (by omega)
  rw [hsame] at hcap hlen
  refine ⟨hcap, ?_⟩
  cases m
  simp only [OutputMatch.mk.injEq]
  exact ⟨heq, hlen.symm⟩

/-- **An occurrence is masked as a whole or not at all**: if its match is not left alone. -/
theorem mark_iff (hU : Lowers U) (hout : Exhaustive output) (hw : w ∈ outputWords)
    (hocc : OccursAt U text w s e) (hi : s ≤ i) (hie : i < e) :
    (∃ span ∈ maskedSpans U output text, span.1 ≤ i ∧ i < span.2) ↔
      hasCapital w = false ∧ isInsideBrackets text s = false := by
  have he := hocc.2.1
  obtain ⟨hpre, hpos⟩ := hocc.prefix_drop
  have hspan : ((lowerWithByteMap U text).2.getD (lowerPos U text s) 0,
      (lowerWithByteMap U text).2.getD (lowerPos U text s + w.length) 0) = (s, e) := by
    rw [← hpos, getD_map_lowerPos (by omega), getD_map_lowerPos he]
  constructor
  · rintro ⟨span, hmem, hstart, hend⟩
    obtain ⟨m, hm, rfl, hinside⟩ := mem_maskedSpans.1 hmem
    obtain ⟨k, lc, hk, hge, hlt⟩ := exists_tag_in_match (output.within hm)
      (getElem?_eq_getElem (by omega)) hstart hend
    have hke := (lt_lowerPos_iff he hk).2 hie
    have hks := mt (lt_lowerPos_iff (by omega) hk).1 (Nat.not_lt.2 hi)
    obtain ⟨hcap, rfl⟩ := match_eq_of_overlap hU hw hocc hm (by omega) (by omega)
    rw [getD_map_lowerPos (by omega)] at hinside
    exact ⟨hcap, hinside⟩
  · rintro ⟨hcap, hinside⟩
    have hlower : Str.toAsciiLowercase w = w := (outputWord_chars w hw).2.2.1 hcap
    rw [hlower] at hpre
    obtain ⟨m, hm, hstart, hend⟩ := hout _ w _ hw hpre
    obtain ⟨-, rfl⟩ := match_eq_of_overlap hU hw hocc hm (hpos ▸ hstart) hend
    refine ⟨(s, e), mem_maskedSpans.2 ⟨_, hm, hspan.symm, hinside⟩, hi, hie⟩

/-! ## Asterisks -/

theorem masked_of_marked {cs : List (Char × Bool)} (h : ∀ x ∈ cs, x.2 = true) :
    masked cs = List.replicate (Str.len (cs.map Prod.fst)) '*' := by
  induction cs with
  | nil => rfl
  | cons x cs ih =>
    obtain ⟨c, mark⟩ := x
    obtain rfl : mark = true := h (c, mark) mem_cons_self
    rw [masked_cons, ih (forall_mem_cons.1 h).2, map_cons, Utf8.len_cons,
      maskChar, replicate_append_replicate]

variable (U output) in
theorem take_markOutput (text : Text) (s : Nat) :
    ((markOutput U output text).take s).map Prod.fst = text.take s := by
  rw [map_take, map_fst_markOutput]

variable (U output) in
theorem drop_markOutput (text : Text) (s : Nat) :
    ((markOutput U output text).drop s).map Prod.fst = text.drop s := by
  rw [map_drop, map_fst_markOutput]

theorem filterOutput_split (text : Text) (s : Nat) :
    filterOutput U output text = masked ((markOutput U output text).take s) ++
      masked ((markOutput U output text).drop s) := by
  rw [filterOutput_eq, ← masked_append, take_append_drop]

variable (U output) in
theorem len_masked_take (text : Text) (s : Nat) :
    Str.len (masked ((markOutput U output text).take s)) = Str.len (text.take s) := by
  rw [len_masked, take_markOutput]

theorem starred_of_marks (h : ∀ i, s ≤ i → i < e →
    ∃ span ∈ maskedSpans U output text, span.1 ≤ i ∧ i < span.2) :
    Starred text (filterOutput U output text) s e := by
  have hmarked : ∀ x ∈ ((markOutput U output text).drop s).take (e - s), x.2 = true := by
    intro x hx
    obtain ⟨k, hk⟩ := getElem?_of_mem hx
    have hlt : k < e - s := by
      have := (List.getElem?_eq_some_iff.1 hk).1
      rw [length_take] at this
      omega
    rw [getElem?_take_of_lt hlt, getElem?_drop] at hk
    exact (getElem?_markOutput hk).2.2 (h (s + k) (by omega) (by omega))
  refine ⟨_, masked (((markOutput U output text).drop s).drop (e - s)), ?_,
    len_masked_take U output text s⟩
  rw [filterOutput_split text s, ← drop_markOutput U output text s, ← map_take,
    ← masked_of_marked hmarked]
  refine congrArg (_ ++ ·) ?_
  rw [← masked_append, take_append_drop]

theorem OccursAt.notMem {d : Char} (hocc : OccursAt U text w s e) (hd : d.toNat < 128)
    (hlower : d.toLower = d) (hw : d ∉ Str.toAsciiLowercase w) :
    d ∉ (text.drop s).take (e - s) := by
  intro hmem
  rw [← hocc.2.2] at hw
  refine hw (mem_flatMap.2 ⟨d, hmem, ?_⟩)
  rw [lowercaseOf_ascii hd, hlower]
  exact mem_cons_self

theorem OccursAt.lt (hw : w ∈ outputWords) (hocc : OccursAt U text w s e) : s < e := by
  rcases Nat.lt_or_eq_of_le hocc.1 with hlt | rfl
  · exact hlt
  · have hnil : Str.toAsciiLowercase w = [] := by simpa using hocc.2.2.symm
    exact absurd hnil (outputWord_chars w hw).2.1

theorem mark_of_starred (hw : w ∈ outputWords) (hocc : OccursAt U text w s e)
    (h : Starred text (filterOutput U output text) s e) :
    ∃ span ∈ maskedSpans U output text, span.1 ≤ s ∧ s < span.2 := by
  have hse := hocc.lt hw
  obtain ⟨a, b, hres, hlen⟩ := h
  rw [filterOutput_split text s] at hres
  obtain ⟨-, hrest⟩ :=
    Utf8.append_inj_len hres ((len_masked_take U output text s).trans hlen.symm)
  have hs : s < (markOutput U output text).length := by
    rw [← length_map (f := Prod.fst), map_fst_markOutput]
    exact Nat.lt_of_lt_of_le hse hocc.2.1
  have hget : (markOutput U output text)[s]? = some (markOutput U output text)[s] :=
    getElem?_eq_getElem hs
  rw [drop_eq_getElem_cons hs] at hrest
  generalize (markOutput U output text)[s] = x at hget hrest
  obtain ⟨c, mark⟩ := x
  obtain ⟨hc, hmark⟩ := getElem?_markOutput hget
  obtain ⟨k, hk⟩ : ∃ k, e - s = k + 1 := ⟨e - s - 1, by omega⟩
  have hocc' : (text.drop s).take (e - s) = c :: (text.drop (s + 1)).take k := by
    obtain ⟨hlt, rfl⟩ := List.getElem?_eq_some_iff.1 hc
    rw [hk, drop_eq_getElem_cons hlt, take_succ_cons]
  refine hmark.1 ?_
  cases mark with
  | true => rfl
  | false =>
    -- an unmarked character stands for itself
    obtain ⟨n, hn⟩ : ∃ n, Str.len ((text.drop s).take (e - s)) = n + 1 := by
      rw [hocc', Utf8.len_cons]
      exact Nat.exists_eq_succ_of_ne_zero (by have := c.utf8Size_pos; omega)
    rw [hn] at hrest
    obtain rfl : c = '*' := (List.cons.inj hrest).1
    have hnot := hocc.notMem (by decide) (by decide) (outputWord_chars w hw).2.2.2.1
    rw [hocc'] at hnot
    exact absurd mem_cons_self hnot

theorem OccursAt.plain (hw : w ∈ outputWords) (hocc : OccursAt U text w s e) :
    brackets.Plain ((text.drop s).take (e - s)) := by
  obtain ⟨-, -, -, -, hop, hcl⟩ := outputWord_chars w hw
  exact ⟨hocc.notMem (by decide) (by decide) hop, hocc.notMem (by decide) (by decide) hcl⟩

/-- **When every occurrence outside of brackets is masked**: if the phrases with capitals are all
enclosed in brackets, and no other phrase stands behind a bracket that is never closed. -/
theorem filterOutput_masks_iff (hU : Lowers U) (hout : Exhaustive output) (text : Text) :
    (∀ w ∈ outputWords, ∀ s e, OccursAt U text w s e → ¬ brackets.Enclosed text s e →
      Starred text (filterOutput U output text) s e) ↔
    ∀ w ∈ outputWords, ∀ s e, OccursAt U text w s e →
      (hasCapital w = true → brackets.Enclosed text s e) ∧
      (hasCapital w = false → ¬ brackets.Dangling text s) := by
  constructor
  · intro hmask w hw s e hocc
    have hstar := fun hnot => (mark_iff hU hout hw hocc le_rfl (hocc.lt hw)).1
      (mark_of_starred hw hocc (hmask w hw s e hocc hnot))
    constructor
    · intro hcap
      by_contra hnot
      exact absurd (hstar hnot).1 (by simp [hcap])
    · intro hcap hdang
      have hinside := (hstar (Delims.not_enclosed_of_dangling hocc.1 hdang)).2
      obtain ⟨x, y, htake, hy, -⟩ := hdang
      rw [isInsideBrackets_of_plain hy htake] at hinside
      cases hinside
  · intro hcond w hw s e hocc hnot
    obtain ⟨hcapital, hplain⟩ := hcond w hw s e hocc
    have hcap : hasCapital w = false := Bool.eq_false_iff.2 fun htrue => hnot (hcapital htrue)
    refine starred_of_marks fun i hi hie => (mark_iff hU hout hw hocc hi hie).2 ⟨hcap, ?_⟩
    by_contra hinside
    rw [Bool.not_eq_false] at hinside
    obtain ⟨x, y, htake, hy⟩ := isInsideBrackets_iff.1 hinside
    exact hnot (Delims.enclosed_of_not_dangling hocc.1 hocc.2.1 htake hy (hocc.plain hw)
      (hplain hcap))

end Marks

/-! ## The plain search on ASCII -/

theorem lowers_ascii : Lowers .ascii := by
  intro c d hd
  obtain rfl := mem_singleton.1 hd
  exact Str.isUpper_toLower c

theorem exhaustive_plain : Exhaustive .plain := by
  intro t w i hw hpre
  have hpos := (outputWord_chars w hw).1
  have hlen := hpre.length_le
  rw [length_drop] at hlen
  refine ⟨⟨i, w.length⟩, ?_, Nat.lt_add_of_pos_right hpos, Nat.lt_add_of_pos_right hpos⟩
  refine mem_flatMap.2 ⟨i, mem_range.2 (by omega), ?_⟩
  exact mem_map.2 ⟨w, mem_filter.2 ⟨hw, decide_eq_true hpre⟩, rfl⟩

/-- A phrase in capitals is masked. -/
theorem filterOutput_masks_ssn :
    Starred "SSN".toList (filterOutput .ascii .plain "SSN".toList) 0 3 := by
  have hcond : ∀ w ∈ outputWords, ∀ s e, OccursAt .ascii "SSN".toList w s e →
      (hasCapital w = true → brackets.Enclosed "SSN".toList s e) ∧
      (hasCapital w = false → ¬ brackets.Dangling "SSN".toList s) := by
    intro w hw s e hocc
    constructor
    · -- the phrases with capitals are longer than the text
      intro hcap
      have hall : ∀ w ∈ outputWords, hasCapital w = true → 3 < w.length := by decide +kernel
      have hlong := hall w hw hcap
      have hlen : lowerPos .ascii "SSN".toList e ≤ 3 := lowerPos_le .ascii "SSN".toList e
      have hend := hocc.prefix_drop.2
      omega
    · rintro - ⟨x, y, htake, -⟩
      have hmem : '[' ∈ "SSN".toList :=
        mem_of_mem_take (i := s) (by rw [htake]; simp [brackets])
      revert hmem
      decide
  have hocc : OccursAt .ascii "SSN".toList "ssn".toList 0 3 := ⟨by decide, by decide, by decide⟩
  refine (filterOutput_masks_iff lowers_ascii exhaustive_plain _).2 hcond _ (by decide) 0 3 hocc ?_
  rintro ⟨x, mid, v, h, -⟩
  have hmem : '[' ∈ "SSN".toList := h ▸ by simp [brackets]
  revert hmem
  decide

/-- Behind a bracket that is never closed the phrase stays, and a phrase with a capital stays
everywhere. -/
theorem filterOutput_leaks :
    (OccursAt .ascii "[SSN".toList "ssn".toList 1 4 ∧ ¬ brackets.Enclosed "[SSN".toList 1 4 ∧
      ¬ Starred "[SSN".toList (filterOutput .ascii .plain "[SSN".toList) 1 4) ∧
    (OccursAt .ascii "I cannot".toList "I cannot".toList 0 8 ∧
      ¬ brackets.Enclosed "I cannot".toList 0 8 ∧
      ¬ Starred "I cannot".toList (filterOutput .ascii .plain "I cannot".toList) 0 8) := by
  have hopen : ∀ {t : Text} {s e : Nat}, ']' ∉ t → ¬ brackets.Enclosed t s e := by
    rintro t s e hnot ⟨x, mid, v, rfl, -⟩
    exact hnot (by simp [brackets])
  have hplain : ∀ {t u : Text} {s e n : Nat}, Str.len ((t.drop s).take (e - s)) = n + 1 →
      '*' ∉ u → ¬ Starred t u s e := by
    rintro t u s e n hlen hnot ⟨a, b, rfl, -⟩
    exact hnot (by simp [hlen])
  have hssn : filterOutput .ascii .plain "[SSN".toList = "[SSN".toList := by decide +kernel
  have hcannot : filterOutput .ascii .plain "I cannot".toList = "I cannot".toList := by
    decide +kernel
  rw [hssn, hcannot]
  refine ⟨⟨⟨by decide, by decide, by decide⟩, hopen (by decide), ?_⟩,
    ⟨by decide, by decide, by decide⟩, hopen (by decide), ?_⟩
  · exact hplain (n := 2) (by decide) (by decide)
  · exact hplain (n := 7) (by decide) (by decide)

end Nanoguard.Matcher

import Mathlib.Logic.Relation
import Nanoguard.Matcher.Scanner

/-!
# The words of a normalised text

The loop of `base_normalize` drops a character, takes it for a blank, or pushes something for it.
Its result is the words between the blanks, joined by single spaces, so what changes neither the words
nor their letters does not change the verdict.
-/

namespace Nanoguard.Matcher

open List

variable {c : Char} {ts : List Text}

/-- What the loop does with a character: `none` is a blank. -/
def charPieces (U : Unicode) (opts : NormalizeConfig) (ch : Char) : List (Option Text) :=
  if opts.zeroWidth && isZeroWidth ch then []
  else
    let ch := if opts.leet then leetFold ch else ch
    if ch == '\n' || ch == '\r' || ch == '\t' || ch == ' ' then [none]
    else if U.isUppercase ch then [some (U.toLowercase ch)]
    else [some [ch]]

def pieces (U : Unicode) (opts : NormalizeConfig) (text : Text) : List (Option Text) :=
  text.flatMap (charPieces U opts)

def normalWords (U : Unicode) (opts : NormalizeConfig) (text : Text) : List Text :=
  Str.pieceWords [] (pieces U opts text)

/-- Lower case is never empty and has no spaces. -/
def PlainLowercase (U : Unicode) (c : Char) : Prop :=
  U.isUppercase c = true → U.toLowercase c ≠ [] ∧ ' ' ∉ U.toLowercase c

section Loop

def pushPieces (prevSpace : Bool) : List (Option Text) → Text
  | [] => []
  | none :: ps => (pushSpace prevSpace).1 ++ pushPieces true ps
  | some s :: ps => s ++ pushPieces false ps

variable {U : Unicode} {opts : NormalizeConfig}

theorem pushChars_eq (p : Bool) (text : Text) :
    (pushChars U opts p text).1 = pushPieces p (pieces U opts text) := by
  induction text generalizing p with
  | nil => rfl
  | cons ch text ih =>
    rw [pushChars, pieces, flatMap_cons, ← pieces]
    rw [ih]
    unfold pushChar charPieces
    split
    · rfl
    dsimp only
    generalize (if opts.leet then leetFold ch else ch) = folded
    unfold pushFolded
    by_cases hbreak : (folded == '\n' || folded == '\r' || folded == '\t') = true
    · simp [hbreak, pushPieces, pushSpace]
    by_cases hspace : folded = ' '
    · subst hspace
      have hupper : U.isUppercase ' ' = false := U.isUppercase_ascii ' ' (by decide)
      simp [hupper, pushPieces, pushSpace]
    · cases hupper : U.isUppercase folded <;> simp [hbreak, hspace, pushPieces]

/-- Pieces are not empty and have no spaces. -/
def PlainPieces (ps : List (Option Text)) : Prop := ∀ s, some s ∈ ps → s ≠ [] ∧ ' ' ∉ s

theorem plainLowercase_of_ascii (hc : c.toNat < 128) : PlainLowercase U c := by
  intro hupper
  rw [U.toLowercase_ascii c hc]
  refine ⟨cons_ne_nil _ _, ?_⟩
  rw [mem_singleton]
  intro hspace
  rcases Str.toLower_cases c with ⟨-, hsame⟩ | ⟨hge, -⟩
  · rw [U.isUppercase_ascii c hc, ← hsame, ← hspace] at hupper
    exact absurd hupper (by decide)
  · rw [← hspace] at hge
    exact absurd hge (by decide)

theorem leetFold_eq (c : Char) : leetFold c = c ∨ (leetFold c).toNat < 128 := by
  unfold leetFold
  split
  all_goals first | exact .inl rfl | exact .inr (by decide)

theorem plainPieces_pieces {text : Text}
    (h : ∀ c ∈ text, opts.zeroWidth = true ∧ isZeroWidth c = true ∨ PlainLowercase U c) :
    PlainPieces (pieces U opts text) := by
  intro s hs
  obtain ⟨c, hc, hs⟩ := mem_flatMap.1 hs
  unfold charPieces at hs
  split at hs
  · exact absurd hs not_mem_nil
  rename_i hzero
  have hplain : PlainLowercase U (if opts.leet then leetFold c else c) := by
    have hself : PlainLowercase U c := (h c hc).resolve_left (by simpa using hzero)
    split
    · rcases leetFold_eq c with hsame | hascii
      · rw [hsame]
        exact hself
      · exact plainLowercase_of_ascii hascii
    · exact hself
  generalize (if opts.leet then leetFold c else c) = folded at hplain hs
  dsimp only at hs
  split at hs
  · simp at hs
  next hblank =>
    split at hs
    next hupper =>
      cases mem_singleton.1 hs
      exact hplain hupper
    next =>
      cases mem_singleton.1 hs
      simp only [Bool.or_eq_true, beq_iff_eq, not_or] at hblank
      refine ⟨cons_ne_nil _ _, ?_⟩
      rw [mem_singleton]
      exact fun hspace => hblank.2 hspace.symm

theorem popSpace_of_not_mem {out : Text} (h : ' ' ∉ out) : popSpace out = out := by
  unfold popSpace
  rw [if_neg]
  intro hlast
  exact h (mem_of_getLast? hlast)

theorem popSpace_pushPieces {ps : List (Option Text)} (h : PlainPieces ps) :
    (∀ cur, cur ≠ [] → ' ' ∉ cur →
      popSpace (cur ++ pushPieces false ps) = Str.join [' '] (Str.pieceWords cur ps)) ∧
    popSpace (pushPieces true ps) = Str.join [' '] (Str.pieceWords [] ps) ∧
    popSpace (' ' :: pushPieces true ps) =
      if Str.pieceWords [] ps = [] then [] else ' ' :: Str.join [' '] (Str.pieceWords [] ps) := by
  induction ps with
  | nil =>
    refine ⟨?_, rfl, rfl⟩
    intro cur hcur hspace
    simp [pushPieces, Str.pieceWords, hcur, popSpace_of_not_mem hspace, Str.join]
  | cons p ps ih =>
    have hps : PlainPieces ps := fun s hs => h s (mem_cons_of_mem _ hs)
    obtain ⟨hword, hstart, hspaced⟩ := ih hps
    cases p with
    | none =>
      refine ⟨?_, hstart, hspaced⟩
      intro cur hcur hspace
      have hkeep : [cur].filter (!·.isEmpty) = [cur] := by simp [hcur]
      rw [Str.pieceWords, hkeep]
      change popSpace (cur ++ (' ' :: pushPieces true ps)) = _
      rw [popSpace_append (cons_ne_nil _ _), hspaced, singleton_append]
      by_cases hnil : Str.pieceWords [] ps = []
      · rw [hnil]
        simp [Str.join]
      · rw [if_neg hnil, Str.join_cons_of_ne_nil _ _ hnil, singleton_append]
    | some s =>
      obtain ⟨hs, hnospace⟩ := h s mem_cons_self
      have hfirst : popSpace (pushPieces true (some s :: ps)) =
          Str.join [' '] (Str.pieceWords [] (some s :: ps)) := hword s hs hnospace
      refine ⟨?_, hfirst, ?_⟩
      · intro cur hcur hspace
        rw [pushPieces, ← append_assoc]
        apply hword
        · exact append_ne_nil_of_left_ne_nil hcur s
        · rw [mem_append]
          exact fun hmem => hmem.elim hspace hnospace
      have hne : pushPieces true (some s :: ps) ≠ [] :=
        append_ne_nil_of_left_ne_nil hs _
      have hwords : Str.pieceWords [] (some s :: ps) ≠ [] := Str.pieceWords_ne_nil hs ps
      rw [if_neg hwords, ← hfirst]
      exact popSpace_append hne [' ']

theorem baseNormalize_eq {text : Text}
    (h : ∀ c ∈ text, opts.zeroWidth = true ∧ isZeroWidth c = true ∨ PlainLowercase U c) :
    baseNormalize U opts text = Str.join [' '] (normalWords U opts text) := by
  unfold baseNormalize normalWords
  rw [pushChars_eq]
  exact (popSpace_pushPieces (plainPieces_pieces h)).2.1

end Loop

section Blanks

variable {U : Unicode} {opts : NormalizeConfig}

def isBlank (c : Char) : Bool := c == ' ' || c == '\t' || c == '\r' || c == '\n'

theorem isBlank_cases (h : isBlank c = true) : c = ' ' ∨ c = '\t' ∨ c = '\r' ∨ c = '\n' := by
  simpa [isBlank, or_assoc] using h

theorem charPieces_blank (h : isBlank c = true) : charPieces U opts c = [none] := by
  have hzero : isZeroWidth c = false := by
    rcases isBlank_cases h with rfl | rfl | rfl | rfl <;> rfl
  have hleet : (if opts.leet then leetFold c else c) = c := by
    rcases isBlank_cases h with rfl | rfl | rfl | rfl <;> cases opts.leet <;> rfl
  unfold charPieces
  rw [hzero, Bool.and_false, hleet]
  rcases isBlank_cases h with rfl | rfl | rfl | rfl <;> rfl

theorem pieces_append (a b : Text) : pieces U opts (a ++ b) = pieces U opts a ++ pieces U opts b :=
  flatMap_append

theorem pieces_blanks {ws : Text} (h : ∀ c ∈ ws, isBlank c = true) :
    pieces U opts ws = List.replicate ws.length none := by
  induction ws with
  | nil => rfl
  | cons c ws ih =>
    have ih := ih (forall_mem_cons.1 h).2
    rw [pieces, flatMap_cons, charPieces_blank (h c mem_cons_self), ← pieces, ih]
    rfl

end Blanks

section Join

variable {U : Unicode} {opts : NormalizeConfig}

theorem normalWords_join (ts : List Text) :
    normalWords U opts (Str.join [' '] ts) = (ts.map (normalWords U opts)).flatten := by
  induction ts with
  | nil => rfl
  | cons t ts ih =>
    by_cases hts : ts = []
    · rw [hts]
      simp [Str.join]
    have hpieces : pieces U opts (t ++ ([' '] ++ Str.join [' '] ts)) =
        pieces U opts t ++ none :: pieces U opts (Str.join [' '] ts) := by
      have hspace : pieces U opts [' '] = [none] :=
        pieces_blanks (forall_mem_singleton.2 rfl)
      rw [pieces_append, pieces_append, hspace]
      rfl
    rw [Str.join_cons_of_ne_nil _ t hts, normalWords, hpieces, Str.pieceWords_append,
      ← normalWords, ← normalWords, ih]
    rfl

theorem collapseSeparators_isEmpty (text : Text) :
    (collapseSeparators text).isEmpty = text.isEmpty := by
  cases text with
  | nil => rfl
  | cons c text =>
    unfold collapseSeparators
    rw [collapseGo]
    split <;> rfl

theorem baseNormalize_join (h : ∀ c, PlainLowercase U c) :
    baseNormalize U opts (Str.join [' '] ts) =
      Str.join [' '] ((ts.map (baseNormalize U opts)).filter (!·.isEmpty)) := by
  have hwords (text : Text) :
      baseNormalize U opts text = Str.join [' '] (normalWords U opts text) :=
    baseNormalize_eq fun c _ => .inr (h c)
  have hmap : ts.map (baseNormalize U opts) =
      (ts.map (normalWords U opts)).map (Str.join [' ']) := by
    rw [map_map]
    exact map_congr_left fun text _ => hwords text
  rw [hwords, normalWords_join, hmap]
  apply Str.join_flatten
  intro ws hws w hw
  obtain ⟨text, -, rfl⟩ := mem_map.1 hws
  exact Str.ne_nil_of_mem_pieceWords hw

/-- **Texts that are joined by spaces are normalised one by one**, and empty results disappear. -/
theorem normalizeWith_join (hlower : ∀ c, PlainLowercase U c)
    (hplain : (∀ t ∈ ts, Str.isAscii t = true) ∨ opts.nfkc = false) :
    normalizeWith U opts (Str.join [' '] ts) =
      Str.join [' '] ((ts.map (normalizeWith U opts)).filter (!·.isEmpty)) := by
  have hjoin : Str.isAscii (Str.join [' '] ts) = true ∨ opts.nfkc = false :=
    hplain.imp_left (Str.isAscii_join (by decide))
  -- each text skips the first stage, as the joined one does
  have heach (t : Text) (ht : t ∈ ts) : normalizeWith U opts t =
      if opts.separators then collapseSeparators (baseNormalize U opts t)
      else baseNormalize U opts t := by
    unfold normalizeWith
    rw [nfkcStage_of_plain (hplain.imp_left (· t ht))]
  rw [map_congr_left heach]
  unfold normalizeWith
  rw [nfkcStage_of_plain hjoin, baseNormalize_join hlower]
  cases opts.separators with
  | false => rfl
  | true =>
    have hcollapse (us : List Text) : collapseSeparators (Str.join [' '] us) =
        Str.join [' '] (us.map collapseSeparators) := Str.map_join rfl collapseSeparators_space us
    have hempty : (fun t => !(collapseSeparators t).isEmpty) = fun t : Text => !t.isEmpty := by
      funext t
      rw [collapseSeparators_isEmpty]
    have hfilter (us : List Text) : (us.map collapseSeparators).filter (!·.isEmpty) =
        (us.filter (!·.isEmpty)).map collapseSeparators := by
      rw [filter_map]
      exact congrArg (fun p => (us.filter p).map collapseSeparators) hempty
    have hmap : ts.map (fun t => collapseSeparators (baseNormalize U opts t)) =
        (ts.map (baseNormalize U opts)).map collapseSeparators := by
      rw [map_map]
      rfl
    simp only [if_true]
    rw [hcollapse, hmap, hfilter]

theorem normalizeWith_join_isInfix {t : Text} (ht : t ∈ ts) :
    normalizeWith U opts t <:+: normalizeWith U opts (Str.join [' '] ts) :=
  (normalizeWith_wordsOf (Str.wordsOf_join ht)).contained

end Join

/-! ## Changes that a reader would not notice -/

/-- A zero-width character is inserted, a letter changes its case, a run of blanks is replaced by
another one, or a run of blanks is added at an end. -/
inductive Obfuscates : Text → Text → Prop
  | insert (a b : Text) (c : Char) (hc : isZeroWidth c = true) : Obfuscates (a ++ b) (a ++ c :: b)
  | recase (a b : Text) (c c' : Char) (hc : c.isAlpha = true) (hc' : c'.isAlpha = true)
      (hcase : c.toLower = c'.toLower) : Obfuscates (a ++ c :: b) (a ++ c' :: b)
  | respace (a b ws ws' : Text) (hne : ws ≠ []) (hne' : ws' ≠ [])
      (hws : ∀ c ∈ ws, isBlank c = true) (hws' : ∀ c ∈ ws', isBlank c = true) :
      Obfuscates (a ++ ws ++ b) (a ++ ws' ++ b)
  | lead (t ws : Text) (hws : ∀ c ∈ ws, isBlank c = true) : Obfuscates t (ws ++ t)
  | trail (t ws : Text) (hws : ∀ c ∈ ws, isBlank c = true) : Obfuscates t (t ++ ws)

section Obfuscated

variable {U : Unicode} {opts : NormalizeConfig} {t u : Text}

/-- ASCII characters with zero-width characters between them. -/
def Typed (t : Text) : Prop := ∀ c ∈ t, c.toNat < 128 ∨ isZeroWidth c = true

theorem typed_append {a b : Text} : Typed (a ++ b) ↔ Typed a ∧ Typed b := forall_mem_append

theorem typed_cons {b : Text} :
    Typed (c :: b) ↔ (c.toNat < 128 ∨ isZeroWidth c = true) ∧ Typed b := forall_mem_cons

theorem typed_blanks {ws : Text} (h : ∀ c ∈ ws, isBlank c = true) : Typed ws := by
  intro c hc
  rcases isBlank_cases (h c hc) with rfl | rfl | rfl | rfl <;> exact .inl (by decide)

theorem Obfuscates.typed (h : Obfuscates t u) (ht : Typed t) : Typed u := by
  cases h with
  | insert a b c hc =>
    rw [typed_append] at ht ⊢
    exact ⟨ht.1, typed_cons.2 ⟨.inr hc, ht.2⟩⟩
  | recase a b c c' hc hc' hcase =>
    rw [typed_append, typed_cons] at ht ⊢
    have hascii : c'.toNat < 128 := by
      have := Str.toNat_of_isAlpha hc'
      omega
    exact ⟨ht.1, .inl hascii, ht.2.2⟩
  | respace a b ws ws' hne hne' hws hws' =>
    rw [typed_append, typed_append] at ht ⊢
    exact ⟨⟨ht.1.1, typed_blanks hws'⟩, ht.2⟩
  | lead _ ws hws => exact typed_append.2 ⟨typed_blanks hws, ht⟩
  | trail _ ws hws => exact typed_append.2 ⟨ht, typed_blanks hws⟩

theorem charPieces_letter (h : c.isAlpha = true) : charPieces U opts c = [some [c.toLower]] := by
  have hrange := Str.toNat_of_isAlpha h
  have hascii : c.toNat < 128 := by omega
  have hzero : isZeroWidth c = false := by
    simp only [isZeroWidth, Bool.or_eq_false_iff, beq_eq_false_iff_ne]
    omega
  have hleet : (if opts.leet then leetFold c else c) = c := by
    split
    · unfold leetFold
      split
      all_goals first | rfl | exact absurd h (by decide)
    · rfl
  have hblank : (c == '\n' || c == '\r' || c == '\t' || c == ' ') = false := by
    rw [← Bool.not_eq_true]
    intro hblank
    simp only [Bool.or_eq_true, beq_iff_eq] at hblank
    rcases hblank with ((rfl | rfl) | rfl) | rfl <;> exact absurd h (by decide)
  unfold charPieces
  rw [hzero, Bool.and_false, hleet]
  simp only [Bool.false_eq_true, if_false, hblank]
  rw [U.isUppercase_ascii c hascii, U.toLowercase_ascii c hascii]
  split
  · rfl
  next hupper =>
    have hsame : c.toLower = c := by
      exact dif_neg fun hrange => hupper (decide_eq_true hrange)
    rw [hsame]

theorem Obfuscates.normalWords_eq (hzero : opts.zeroWidth = true) (h : Obfuscates t u) :
    normalWords U opts u = normalWords U opts t := by
  unfold normalWords
  cases h with
  | insert a b c hc =>
    have hdropped : charPieces U opts c = [] := by
      unfold charPieces
      rw [hzero, hc]
      rfl
    rw [pieces_append, pieces_append, pieces, pieces, pieces, flatMap_cons, hdropped, nil_append]
  | recase a b c c' hc hc' hcase =>
    rw [pieces_append, pieces_append, pieces, pieces, pieces, flatMap_cons, flatMap_cons,
      charPieces_letter hc, charPieces_letter hc', hcase]
  | respace a b ws ws' hne hne' hws hws' =>
    rw [pieces_append, pieces_append, pieces_append, pieces_append, pieces_blanks hws,
      pieces_blanks hws', Str.pieceWords_append_blanks (mt length_eq_zero_iff.1 hne),
      Str.pieceWords_append_blanks (mt length_eq_zero_iff.1 hne')]
  | lead _ ws hws => rw [pieces_append, pieces_blanks hws, Str.pieceWords_blanks]
  | trail _ ws hws => rw [pieces_append, pieces_blanks hws, Str.pieceWords_trailing]

theorem normalizeWith_typed (hnfkc : ∀ t, Typed t → U.nfkc t = t) (hzero : opts.zeroWidth = true)
    (ht : Typed t) : normalizeWith U opts t =
      if opts.separators then collapseSeparators (Str.join [' '] (normalWords U opts t))
      else Str.join [' '] (normalWords U opts t) := by
  have hstage : nfkcStage U opts t = t := by
    rw [nfkcStage_eq, hnfkc t ht, ite_self]
  unfold normalizeWith
  rw [hstage, baseNormalize_eq]
  intro c hc
  exact (ht c hc).symm.imp (⟨hzero, ·⟩) plainLowercase_of_ascii

/-- **Obfuscation does not change the verdict**, whatever the rules and the other flags are. -/
theorem checkInput_obfuscated (U : Unicode) (hnfkc : ∀ t, Typed t → U.nfkc t = t) (m : Matchers)
    (hzero : m.normalize.zeroWidth = true) (t u : Text) (hascii : Str.isAscii t = true)
    (h : Relation.ReflTransGen Obfuscates t u) : m.checkInput U u = m.checkInput U t := by
  have htyped : Typed t := by
    intro c hc
    exact .inl (by simpa using all_eq_true.1 hascii c hc)
  -- along the changes the words stay the same
  have hsame : Typed u ∧ normalWords U m.normalize u = normalWords U m.normalize t := by
    induction h with
    | refl => exact ⟨htyped, rfl⟩
    | tail _ hstep ih => exact ⟨hstep.typed ih.1, (hstep.normalWords_eq hzero).trans ih.2⟩
  unfold Matchers.checkInput
  rw [normalizeWith_typed hnfkc hzero hsame.1, normalizeWith_typed hnfkc hzero htyped, hsame.2]

def exampleMatchers : Matchers :=
  ⟨.ac ⟨⟨["jailbreak now".toList], []⟩, ⟨[], []⟩, ⟨[], []⟩⟩, ⟨true, true, true, true⟩⟩

theorem checkInput_obfuscated_phrase :
    Relation.ReflTransGen Obfuscates "jailbreak now".toList "\t jAil\u200bbreak\r\nnow".toList ∧
      exampleMatchers.checkInput .ascii "\t jAil\u200bbreak\r\nnow".toList =
        .blocked "jailbreak now".toList := by
  have hcase : Obfuscates "jailbreak now".toList "jAilbreak now".toList := by
    simpa using Obfuscates.recase "j".toList "ilbreak now".toList 'a' 'A' rfl rfl rfl
  have hzero : Obfuscates "jAilbreak now".toList "jAil\u200bbreak now".toList := by
    simpa using Obfuscates.insert "jAil".toList "break now".toList '\u200b' rfl
  have hspace : Obfuscates "jAil\u200bbreak now".toList "jAil\u200bbreak\r\nnow".toList := by
    simpa using Obfuscates.respace "jAil\u200bbreak".toList "now".toList [' '] ['\r', '\n']
      (cons_ne_nil _ _) (cons_ne_nil _ _) (by simp [isBlank]) (by simp [isBlank])
  have hlead : Obfuscates "jAil\u200bbreak\r\nnow".toList
      "\t jAil\u200bbreak\r\nnow".toList := by
    simpa using Obfuscates.lead "jAil\u200bbreak\r\nnow".toList ['\t', ' '] (by simp [isBlank])
  have hchain := (((Relation.ReflTransGen.single hcase).tail hzero).tail hspace).tail hlead
  refine ⟨hchain, ?_⟩
  rw [checkInput_obfuscated .ascii (fun _ _ => rfl) exampleMatchers rfl _ _ (by decide) hchain]
  decide

end Obfuscated

end Nanoguard.Matcher

import Nanoguard.Guard.ArgumentScan
import Nanoguard.Lib.JsonLayout
import Nanoguard.Lib.RegexSplit
import Nanoguard.Proxy.GatedAnswer
import Nanoguard.Proxy.RedactComplete

/-!
# Sanitized arguments

The gate looks for entities in the text of the arguments and masks the strings of the parsed value.
Keys and numbers are printed as they were, and a control character is printed as a backslash and
letters, which may complete a match. The characters that frame the values, and the backslash, are in no
match of a built-in pattern and are no word characters.
-/

namespace Nanoguard.Redact

open List Regex

variable {c : Char} {M : Marked} {e : Re} {masked : Json}

section Separators

variable {T : CharTables} {e : Re}

theorem clean_nil : Clean T e [] := by
  intro a x b hx _ c hc
  have hempty : x = [] := (append_eq_nil_iff.1 (append_eq_nil_iff.1 hx.symm).2).1
  rw [hempty] at hc
  cases hc

theorem clean_append_cons_iff {d : Char × Bool} (hd : Separates T e d.1) (A B : Marked) :
    Clean T e (A ++ d :: B) ↔ Clean T e A ∧ Clean T e B := by
  constructor
  · intro h
    refine ⟨?_, ?_⟩
    · rintro a x b rfl hm
      refine h a x (b ++ d :: B) (by simp) ?_
      rw [erase_append, erase_cons, match_right_iff hd.notWord]
      exact hm
    rintro a x b rfl hm
    refine h (A ++ d :: a) x b (by simp) ?_
    rw [erase_append, erase_cons, List.reverse_append, reverse_cons, append_assoc,
      singleton_append, match_left_iff hd.notWord]
    exact hm
  · rintro ⟨hA, hB⟩ a x b hx hm
    have havoid : d ∉ x := not_mem_of_erase (hm.not_mem_of_avoids hd.avoids)
    rcases infix_side_of_not_mem hx.symm havoid with ⟨v, rfl, rfl⟩ | ⟨a', rfl, rfl⟩
    · rw [erase_append, erase_cons, match_right_iff hd.notWord] at hm
      exact hA a x v rfl hm
    · rw [erase_append, erase_cons, List.reverse_append, reverse_cons, append_assoc,
        singleton_append, match_left_iff hd.notWord] at hm
      exact hB a' x b rfl hm

theorem clean_splits {seps : List Char} (hsep : ∀ c ∈ seps, Separates T e c) :
    Layout.Splits (Clean T e) (seps.map (·, false)) where
  nil := clean_nil
  iff d hd A B := by
    obtain ⟨c, hc, rfl⟩ := mem_map.1 hd
    exact clean_append_cons_iff (hsep c hc) A B

end Separators

section NoMatch

variable {T : CharTables} {e : Re}

def NoMatch (T : CharTables) (e : Re) (t : Text) : Prop :=
  ∀ a x b, t = a ++ (x ++ b) → ¬ Match T e a.reverse x b

theorem clean_original_iff (hlen : 0 < e.minLen) (t : Text) :
    Clean T e (original t) ↔ NoMatch T e t := by
  constructor
  · rintro h a x b rfl hm
    obtain ⟨c, y, rfl⟩ := exists_cons_of_ne_nil (hm.ne_nil hlen)
    have hins := h (original a) (original (c :: y)) (original b) (by simp [original])
      (by simpa using hm) (c, false) mem_cons_self
    cases hins
  · intro h a x b hx hm
    have ht : t = erase a ++ (erase x ++ erase b) := by
      rw [← erase_original t, hx, erase_append, erase_append]
    exact absurd hm (h _ _ _ ht)

theorem noMatch_of_length {t : Text} (h : t.length < e.minLen) : NoMatch T e t := by
  rintro a x b rfl hm
  have hle := hm.minLen_le
  simp only [length_append] at h
  omega

end NoMatch

section Inserted

variable {σ : Type} {rules : List RedactRule} {M : Marked}

/-- Brackets stand where inserted characters meet original ones. -/
def Walled (M : Marked) : Prop := M.IsChain fun c d => c.2 = d.2 ∨ c.1 = ']' ∨ d.1 = '['

theorem walled_of_mark {b : Bool} (h : ∀ c ∈ M, c.2 = b) : Walled M :=
  (pairwise_of_forall_mem_list fun c hc d hd => .inl ((h c hc).trans (h d hd).symm)).isChain

theorem Walled.original_run {c : Char} {x : Marked} (h : Walled ((c, false) :: x)) (hc : c ≠ ']')
    (hopen : '[' ∉ erase x) (hclose : ']' ∉ erase x) : x = original (erase x) := by
  induction x generalizing c with
  | nil => rfl
  | cons d x ih =>
    obtain ⟨d, m⟩ := d
    simp only [erase_cons, mem_cons, not_or] at hopen hclose
    obtain ⟨hnext, hrest⟩ := isChain_cons_cons.1 h
    obtain rfl : false = m := hnext.resolve_right (not_or.2 ⟨hc, Ne.symm hopen.1⟩)
    exact congrArg _ (ih hrest (Ne.symm hclose.1) hopen.2 hclose.2)

/-- Inserted characters are printable and walled. -/
structure Tidy (M : Marked) : Prop where
  printable : ∀ c ∈ M, c.2 = true → 32 ≤ c.1.toNat
  walled : Walled M

theorem tidy_original (t : Text) : Tidy (original t) := by
  have hmark : ∀ c ∈ original t, c.2 = false := by
    intro c hc
    obtain ⟨d, -, rfl⟩ := mem_map.1 hc
    rfl
  refine ⟨fun c hc h => ?_, walled_of_mark hmark⟩
  rw [hmark c hc] at h
  cases h

theorem Tidy.tail {c : Char × Bool} (h : Tidy (c :: M)) : Tidy M where
  printable d hd := h.printable d (mem_cons_of_mem c hd)
  walled := h.walled.tail

/-- A placeholder that can be told from the text. -/
structure TidyName (p : Text) : Prop where
  bracketed : Bracketed p
  printable : ∀ c ∈ p, 32 ≤ c.toNat

theorem Tidy.rewritten {subst : σ → Text → σ × Marked}
    (hsubst : ∀ st v, ∃ p, TidyName p ∧ (subst st v).2 = inserted p) {pos : Nat} {st st' : σ}
    {spans : List (Nat × Nat)} {M' : Marked} (hrw : Rewrites subst erase pos st M spans st' M')
    (h : Tidy M) : Tidy M' := by
  refine ⟨fun c hc hins => ?_, ?_⟩
  · rcases hrw.mem hc with hold | ⟨st, v, hnew⟩
    · exact h.printable c hold hins
    obtain ⟨p, hp, hsub⟩ := hsubst st v
    rw [hsub] at hnew
    obtain ⟨d, hd, rfl⟩ := mem_map.1 hnew
    exact hp.printable d hd
  replace h := h.walled
  induction hrw with
  | nil => exact h
  | @cons pos st st' g m t t' spans hrw ih =>
    obtain ⟨hg, hmt, -⟩ := isChain_append.1 h
    obtain ⟨p, ⟨⟨q, rfl⟩, -⟩, hp⟩ := hsubst st' (erase m)
    have hname : Walled (inserted ('[' :: (q ++ [']']))) := by
      refine walled_of_mark (b := true) fun c hc => ?_
      obtain ⟨d, -, rfl⟩ := mem_map.1 hc
      rfl
    rw [hp]
    -- the brackets of the placeholder are at both joints
    refine isChain_append.2 ⟨hg, isChain_append.2 ⟨hname, ih hmt.right_of_append, ?_⟩, ?_⟩
    · intro c hc d _
      simp only [inserted, map_cons, map_append, map_nil, ← cons_append,
        getLast?_concat, Option.mem_some_iff] at hc
      subst hc
      exact .inr (.inl rfl)
    intro c _ d hd
    simp only [inserted, map_cons, cons_append, head?_cons, Option.mem_some_iff] at hd
    subst hd
    exact .inr (.inr rfl)

theorem Tidy.rewriteRules {store : σ → Text → Text → σ × Text}
    (hstore : ∀ rule ∈ rules, ∀ st v, TidyName (store st rule.entity v).2) (st : σ) (h : Tidy M) :
    Tidy (rewriteRulesMarked store rules st M).2 := by
  induction rules generalizing st M with
  | nil => exact h
  | cons rule rules ih =>
    have hpass := rule.rewriteMarked_rewrites store st M
    refine ih (forall_mem_cons.1 hstore).2 _ ?_
    exact h.rewritten (fun st v => ⟨_, hstore rule mem_cons_self st v, rfl⟩) hpass

theorem printable_of_all {s : Text} (h : (s.all fun c => decide (32 ≤ c.toNat)) = true) :
    ∀ c ∈ s, 32 ≤ c.toNat :=
  fun c hc => of_decide_eq_true (all_eq_true.1 h c hc)

theorem printable_format {entity : Text} (h : ∀ c ∈ entity, 32 ≤ c.toNat) (style : PlaceholderStyle)
    (idx : Nat) : ∀ c ∈ Indexer.format style entity idx, 32 ≤ c.toNat := by
  have hdigits : ∀ c ∈ Str.decimal idx, 32 ≤ c.toNat := by
    intro c hc
    have hdigit := Str.isDigit_of_mem_decimal hc
    rw [Char.isDigit_iff_toNat] at hdigit
    exact Nat.le_trans (by decide) hdigit.1
  have hopen : ∀ c ∈ "[".toList, 32 ≤ c.toNat := printable_of_all rfl
  have hclose : ∀ c ∈ "]".toList, 32 ≤ c.toNat := printable_of_all rfl
  unfold Indexer.format barePlaceholder
  cases style with
  | bare =>
    simp only [forall_mem_append]
    exact ⟨⟨hopen, h⟩, hclose⟩
  | indexed =>
    simp only [forall_mem_append]
    exact ⟨⟨⟨⟨hopen, h⟩, printable_of_all rfl⟩, hdigits⟩, hclose⟩
  | llmGuard =>
    simp only [forall_mem_append]
    exact ⟨⟨⟨⟨printable_of_all rfl, h⟩, printable_of_all rfl⟩, hdigits⟩, hclose⟩

theorem tidyName_placeholder {entity : Text} (h : ∀ c ∈ entity, 32 ≤ c.toNat) (ix : Indexer)
    (value : Text) : TidyName (ix.placeholder entity value).2 := by
  refine ⟨ix.bracketed_placeholder entity value, ?_⟩
  unfold Indexer.placeholder
  split
  · exact printable_format h _ _
  · exact printable_format h _ _

theorem Tidy.redactBy {T : CharTables} (style : PlaceholderStyle)
    (hrules : ∀ rule ∈ rules, BuiltInRule T rule) (h : Tidy M) :
    Tidy (redactByMarked style rules M) := by
  rw [redactByMarked_eq fun rule hrule => (hrules rule hrule).plain]
  exact h.rewriteRules (fun rule hrule => tidyName_placeholder fun c hc =>
    ((hrules rule hrule).safe c hc).1) _

end Inserted

section Escapes

variable {T : CharTables} {e : Re}

/-- The escapes of a character are inserted if the character was. -/
def escapeMarked (M : Marked) : Marked := M.flatMap fun c => (Json.escapeShort c.1).map (·, c.2)

theorem escapeMarked_cons (c : Char × Bool) (M : Marked) :
    escapeMarked (c :: M) = (Json.escapeShort c.1).map (·, c.2) ++ escapeMarked M :=
  flatMap_cons

theorem escapeMarked_append (M N : Marked) :
    escapeMarked (M ++ N) = escapeMarked M ++ escapeMarked N :=
  flatMap_append

theorem erase_escapeMarked (M : Marked) : erase (escapeMarked M) = Json.escapeText (erase M) := by
  unfold erase escapeMarked Json.escapeText
  rw [map_flatMap, flatMap_map]
  simp only [map_map, Function.comp_def, map_id']

/-- What an escape has behind its backslash. -/
def escapeLetters (c : Char) : Text := (Json.escapeShort c).tail

def Escaped (c : Char) : Prop := c = '"' ∨ c = '\\' ∨ c.toNat < 32

theorem escapeShort_plain (h : ¬ Escaped c) : Json.escapeShort c = [c] := by
  simp only [Escaped, not_or] at h
  obtain ⟨hquote, hslash, hcontrol⟩ := h
  have hne (d : Char) (hd : d.toNat < 32) : c ≠ d := by
    rintro rfl
    exact hcontrol hd
  unfold Json.escapeShort
  rw [if_neg (not_or.2 ⟨hquote, hslash⟩), if_neg (hne _ (by decide)), if_neg (hne _ (by decide)),
    if_neg (hne _ (by decide)), if_neg (hne _ (by decide)), if_neg (hne _ (by decide)),
    if_neg hcontrol]

theorem escapeShort_escaped (h : Escaped c) :
    Json.escapeShort c = '\\' :: escapeLetters c ∧ (escapeLetters c).length ≤ 5 := by
  unfold escapeLetters Json.escapeShort
  split_ifs with hquote _ _ _ _ _ hcontrol
  all_goals try exact ⟨rfl, by simp⟩
  rcases h with h | h | h
  · exact absurd (.inl h) hquote
  · exact absurd (.inr h) hquote
  · exact absurd h hcontrol

theorem escapeLetters_self (h : Escaped c) (hcontrol : ¬ c.toNat < 32) : escapeLetters c = [c] := by
  rcases h with rfl | rfl | h
  · rfl
  · rfl
  · exact absurd h hcontrol

theorem escapeMarked_plain (h : ∀ c ∈ M, ¬ Escaped c.1) : escapeMarked M = M := by
  induction M with
  | nil => rfl
  | cons c M ih =>
    rw [escapeMarked_cons, escapeShort_plain (h c mem_cons_self), ih (forall_mem_cons.1 h).2]
    rfl

/-- Behind a control character stand original characters that complete a match with the letters of
its escape. -/
def EscapeJoins (T : CharTables) (e : Re) (M : Marked) : Prop :=
  ∃ a c u b l₁ l₂, M = a ++ (c, false) :: (original u ++ b) ∧ c.toNat < 32 ∧
    escapeLetters c = l₁ ++ l₂ ∧ Match T e l₁.reverse (l₂ ++ u) (erase b)

theorem EscapeJoins.cons (c : Char × Bool) (h : EscapeJoins T e M) : EscapeJoins T e (c :: M) := by
  obtain ⟨a, d, u, b, l₁, l₂, rfl, hrest⟩ := h
  exact ⟨c :: a, d, u, b, l₁, l₂, rfl, hrest⟩

/-- Letters in front of a clean text show nothing unless they are part of a match or begin one. -/
theorem Clean.letters (h : Clean T e M) {L : Text} (hlen : L.length < e.minLen)
    (hjoin : ∀ l₁ l₂ x b, L = l₁ ++ l₂ → M = x ++ b → ¬ Match T e l₁.reverse (l₂ ++ erase x) (erase b))
    :
    Clean T e (original L ++ M) := by
  intro a x b hx hm
  rcases append_eq_append_iff.1 hx with ⟨a', rfl, hM⟩ | ⟨L', hL, hxb⟩
  · cases a' with
    | nil => exact absurd (by simpa using hm) (hjoin L [] x b (by simp) (by simpa using hM))
    | cons d a' =>
      -- the letters are not next to the match
      have hfar : Match T e ((erase (d :: a')).reverse ++ L.reverse) (erase x) (erase b) := by
        simpa using hm
      refine h (d :: a') x b hM ((match_congr ?_ rfl).1 hfar)
      rw [head?_append_of_ne_nil _ (by simp)]
  have hL' : L = erase a ++ erase L' := by rw [← erase_append, ← hL, erase_original]
  rcases append_eq_append_iff.1 hxb with ⟨L'', rfl, rfl⟩ | ⟨x', rfl, rfl⟩
  · have hle := hm.minLen_le
    rw [hL'] at hlen
    simp only [length_append, erase_append] at hlen hle
    omega
  · refine absurd ?_ (hjoin (erase a) (erase L') x' b hL' rfl)
    rw [← erase_append]
    exact hm

theorem match_escapeText_iff (hsep : ∀ c, Escaped c → T.isWord c = false) {l m : Text} (r : Text) :
    Match T e l m (Json.escapeText r) ↔ Match T e l m r := by
  refine match_congr rfl ?_
  cases r with
  | nil => rfl
  | cons c r =>
    have hprint : Json.escapeText (c :: r) = Json.escapeShort c ++ Json.escapeText r :=
      flatMap_cons
    rw [hprint]
    by_cases hc : Escaped c
    · rw [(escapeShort_escaped hc).1]
      simp [hsep c hc, hsep '\\' (.inr (.inl rfl))]
    · rw [escapeShort_plain hc]
      rfl

section

variable (hsep : ∀ c, Escaped c → Separates T e c) (hlen : 5 < e.minLen)
  (hopen : e.avoids T '[' = true) (hclose : e.avoids T ']' = true)

include hlen hopen hclose in
theorem Clean.behind_control (h : Clean T e M) (hM : Tidy ((c, false) :: M)) (hc : c.toNat < 32)
    (hjoin : ¬ EscapeJoins T e ((c, false) :: M)) :
    Clean T e (original (escapeLetters c) ++ M) := by
  have hletters := (escapeShort_escaped (.inr (.inr hc))).2
  refine h.letters (by omega) ?_
  rintro l₁ l₂ x b hl rfl hmatch
  have hrun : x = original (erase x) := by
    have hwalled : Walled ((c, false) :: x ++ b) := hM.walled
    refine Walled.original_run hwalled.left_of_append ?_ ?_ ?_
    · rintro rfl
      exact absurd hc (by decide)
    · exact fun hx => hmatch.not_mem_of_avoids hopen (mem_append_right l₂ hx)
    · exact fun hx => hmatch.not_mem_of_avoids hclose (mem_append_right l₂ hx)
  have hsplit : (c, false) :: (x ++ b) = [] ++ (c, false) :: (original (erase x) ++ b) := by
    rw [← hrun]
    rfl
  exact hjoin ⟨[], c, erase x, b, l₁, l₂, hsplit, hc, hl, hmatch⟩

include hsep hlen hopen hclose in
theorem Clean.escape (hM : Tidy M) (hjoin : ¬ EscapeJoins T e M) (A : Marked)
    (h : Clean T e (A ++ M)) : Clean T e (A ++ escapeMarked M) := by
  -- `A` is what is printed already and not behind a separator
  induction M generalizing A with
  | nil => exact h
  | cons c M ih =>
    obtain ⟨c, m⟩ := c
    have hjoin' : ¬ EscapeJoins T e M := fun hj => hjoin (hj.cons (c, m))
    have hrest := ih hM.tail hjoin'
    rw [escapeMarked_cons]
    by_cases hc : Escaped c
    · obtain ⟨hA, hclean⟩ := (clean_append_cons_iff (d := (c, m)) (hsep c hc) A M).1 h
      rw [(escapeShort_escaped hc).1, map_cons, cons_append,
        clean_append_cons_iff (d := ('\\', m)) (hsep _ (.inr (.inl rfl)))]
      refine ⟨hA, ?_⟩
      by_cases hcontrol : c.toNat < 32
      · obtain rfl : m = false := by
          by_contra hm
          exact absurd hcontrol
            (Nat.not_lt.2 (hM.printable (c, m) mem_cons_self (by simpa using hm)))
        exact hrest (original (escapeLetters c))
          (hclean.behind_control hlen hopen hclose hM hcontrol hjoin)
      · rw [escapeLetters_self hc hcontrol]
        exact (clean_append_cons_iff (d := (c, m)) (hsep c hc) [] (escapeMarked M)).2
          ⟨clean_nil, hrest [] hclean⟩
    · rw [escapeShort_plain hc, ← append_assoc]
      rw [append_cons] at h
      exact hrest _ h

include hsep hlen hopen hclose in
/-- **A clean text is clean as it is printed** exactly if no escape joins what follows it. -/
theorem clean_escapeMarked_iff (hM : Tidy M) (h : Clean T e M) :
    Clean T e (escapeMarked M) ↔ ¬ EscapeJoins T e M := by
  constructor
  · rintro hclean ⟨a, c, u, b, l₁, l₂, rfl, hc, hl, hmatch⟩
    have hplain : escapeMarked (original u) = original u := by
      refine escapeMarked_plain fun d hd hesc => ?_
      obtain ⟨d, hdu, rfl⟩ := mem_map.1 hd
      exact hmatch.not_mem_of_avoids (hsep d hesc).avoids (mem_append_right l₂ hdu)
    rw [escapeMarked_append, escapeMarked_cons, (escapeShort_escaped (.inr (.inr hc))).1, hl,
      escapeMarked_append, hplain, map_cons, cons_append,
      clean_append_cons_iff (d := ('\\', false)) (hsep _ (.inr (.inl rfl)))] at hclean
    have hins := hclean.2 (original l₁) (original (l₂ ++ u)) (escapeMarked b) (by simp [original])
      (by
        rw [erase_original, erase_original, erase_escapeMarked,
          match_escapeText_iff fun c hc => (hsep c hc).notWord]
        exact hmatch)
    obtain ⟨d, x, hx⟩ := exists_cons_of_ne_nil (hmatch.ne_nil (by omega))
    rw [hx] at hins
    cases hins (d, false) mem_cons_self
  · exact fun hjoin => Clean.escape hsep hlen hopen hclose hM hjoin [] h

end

end Escapes

section BuiltIn

variable {eng : Engine} {U : Unicode} {readToString : Text → Except Text Text}
  {style : PlaceholderStyle} {r : Redactor}

/-- The frame of JSON, and what is printed with a backslash. -/
def separators : Text := '\\' :: (Layout.frame ++ (List.range 32).map Char.ofNat)

theorem mem_separators (h : Escaped c) : c ∈ separators := by
  rcases h with rfl | rfl | h
  · decide
  · decide
  · refine mem_cons_of_mem _ (mem_append_right _ ?_)
    exact mem_map.2 ⟨c.toNat, mem_range.2 h, Char.ofNat_toNat c⟩

theorem defaultInlinePatterns_separates (T : CharTables) {p : Text × Text}
    (hp : p ∈ defaultInlinePatterns) (he : parse p.2 = some e) :
    (∀ c ∈ separators, Separates T e c) ∧ 5 < e.minLen := by
  have hall : (defaultInlinePatterns.all fun p => (parse p.2).all fun e =>
      separators.all (e.avoids .ascii) && decide (5 < e.minLen)) = true := by
    decide +kernel
  have hseparators : separators.all (fun c =>
      decide (c.toNat < 128 ∧ (c.isAlphanum || c == '_') = false)) = true := by
    decide +kernel
  have hp' := all_eq_true.1 hall p hp
  rw [he, Option.all_some, Bool.and_eq_true, all_eq_true, decide_eq_true_eq] at hp'
  refine ⟨fun c hc => ?_, hp'.2⟩
  have hascii := of_decide_eq_true (all_eq_true.1 hseparators c hc)
  refine ⟨?_, ?_⟩
  · rw [Re.avoids_ascii T hascii.1]
    exact hp'.1 c hc
  · rw [T.isWord_ascii c hascii.1]
    exact hascii.2

theorem clean_redactTextIn
    (hbuild : Redactor.buildWithStyle eng U readToString defaultInlinePatterns [] style = .ok r)
    (entities : List Text) {p : Text × Text} (hp : p ∈ defaultInlinePatterns)
    (hmem : p.1 ∈ entities) (he : parse p.2 = some e) (text : Text) :
    Clean eng.tables e (r.redactTextInMarked text entities) := by
  have hrules : ∀ rule ∈ r.rulesIn entities, BuiltInRule eng.tables rule := fun rule hrule =>
    builtInRule_of_mem hbuild (mem_filter.1 hrule).1
  have hrule : _ ∈ r.rulesIn entities := mem_filter.2
    ⟨(mem_rules_default hbuild _).2 ⟨p, hp, compile_of_parse eng he⟩, decide_eq_true hmem⟩
  obtain ⟨e', he', hg⟩ := defaultInlinePatterns_guarded eng.tables hp
  obtain rfl : e = e' := Option.some.inj (he.symm.trans he')
  exact clean_redactBy r.style (fun rule h => (hrules rule h).guarded)
    (fun rule h => (hrules rule h).plain) _ _ hrule e ⟨rfl, hg⟩

theorem tidy_redactTextIn
    (hbuild : Redactor.buildWithStyle eng U readToString defaultInlinePatterns [] style = .ok r)
    (entities : List Text) (text : Text) : Tidy (r.redactTextInMarked text entities) :=
  (tidy_original text).redactBy (T := eng.tables) r.style fun _ hrule =>
    builtInRule_of_mem hbuild (mem_filter.1 hrule).1

end BuiltIn

end Nanoguard.Redact

namespace Nanoguard.Proxy

open List
open Guard (JsonText ToolGate maskStringsInValue maskItems maskFields)
open Redact
open Regex (CharTables Engine Re Separates parse)

section Print

variable (num : Number → Text) (mask : Text → Marked)

/-- The layout of sanitized arguments. Only what stands for a match was inserted. -/
def sanitizedLayout : Layout (Char × Bool) where
  chr c := (c, false)
  str s := escapeMarked (mask s)
  key k := original (Json.escapeText k)
  num n := original (num n)

mutual

theorem print_maskStrings (L : Layout Char) (redact : Text → Text) : ∀ j : Json,
    L.print (maskStringsInValue redact j) = { L with str := fun s => L.str (redact s) }.print j
  | .null => rfl
  | .bool true => rfl
  | .bool false => rfl
  | .num _ => rfl
  | .str _ => rfl
  | .arr [] => rfl
  | .arr (j :: items) => by
    rw [maskStringsInValue, maskItems, Layout.print, print_maskStrings L redact j,
      printItems_maskItems L redact items]
    rfl
  | .obj [] => rfl
  | .obj ((k, j) :: fields) => by
    rw [maskStringsInValue, maskFields, Layout.print, print_maskStrings L redact j,
      printFields_maskFields L redact fields]
    rfl

theorem printItems_maskItems (L : Layout Char) (redact : Text → Text) : ∀ items : List Json,
    L.printItems (maskItems redact items) =
      { L with str := fun s => L.str (redact s) }.printItems items
  | [] => rfl
  | j :: items => by
    rw [maskItems, Layout.printItems, print_maskStrings L redact j,
      printItems_maskItems L redact items]
    rfl

theorem printFields_maskFields (L : Layout Char) (redact : Text → Text) :
    ∀ fields : List (Text × Json), L.printFields (maskFields redact fields) =
      { L with str := fun s => L.str (redact s) }.printFields fields
  | [] => rfl
  | (k, j) :: fields => by
    rw [maskFields, Layout.printFields, print_maskStrings L redact j,
      printFields_maskFields L redact fields]
    rfl

end

theorem erase_sanitized {redact : Text → Text} (hmask : ∀ s, erase (mask s) = redact s) (args : Json) :
    erase ((sanitizedLayout num mask).print args) =
      (Json.compact num).print (maskStringsInValue redact args) := by
  have hlayout : (sanitizedLayout num mask).map Prod.fst =
      { Json.compact num with str := fun s => (Json.compact num).str (redact s) } := by
    unfold Layout.map sanitizedLayout Json.compact
    congr 1
    · funext s
      exact (erase_escapeMarked (mask s)).trans (by rw [hmask])
    · funext k
      exact erase_original _
    · funext n
      exact erase_original _
  rw [print_maskStrings, ← hlayout, Layout.print_map]
  rfl

/-- Nothing shows in the arguments: not in a key, not in a number, and in no string an escape joins
characters that the redaction leaves. -/
structure NothingShows (T : CharTables) (e : Re) (args : Json) : Prop where
  keys : ∀ k, .key k ∈ args.atoms → NoMatch T e (Json.escapeText k)
  numbers : ∀ n, .num n ∈ args.atoms → NoMatch T e (num n)
  strings : ∀ s, .str s ∈ args.atoms → ¬ EscapeJoins T e (mask s)

theorem clean_print_iff {T : CharTables} (hsep : ∀ c ∈ separators, Separates T e c)
    (hlen : 5 < e.minLen) (hclean : ∀ s, Clean T e (mask s)) (htidy : ∀ s, Tidy (mask s))
    (args : Json) :
    Clean T e ((sanitizedLayout num mask).print args) ↔ NothingShows num mask T e args := by
  have hpos : 0 < e.minLen := by omega
  have hsplits : Layout.Splits (Clean T e) (Layout.frame.map (sanitizedLayout num mask).chr) :=
    clean_splits fun c hc => hsep c (mem_cons_of_mem _ (mem_append_left _ hc))
  have hstring (s : Text) : Clean T e (escapeMarked (mask s)) ↔ ¬ EscapeJoins T e (mask s) :=
    clean_escapeMarked_iff (fun c hc => hsep c (mem_separators hc)) hlen
      (hsep '[' (by decide)).avoids (hsep ']' (by decide)).avoids (htidy s) (hclean s)
  rw [Layout.print_splits hsplits]
  constructor
  · intro h
    exact ⟨fun k hk => (clean_original_iff hpos _).1 (h _ hk),
      fun n hn => (clean_original_iff hpos _).1 (h _ hn), fun s hs => (hstring s).1 (h _ hs)⟩
  · intro h a ha
    -- a literal is shorter than a match
    have hliteral (t : Text) (ht : t.length ≤ 5) : Clean T e (original t) :=
      (clean_original_iff hpos t).2 (noMatch_of_length (by omega))
    cases a with
    | null => exact hliteral ['n', 'u', 'l', 'l'] (by decide)
    | bool b =>
      cases b with
      | true => exact hliteral ['t', 'r', 'u', 'e'] (by decide)
      | false => exact hliteral ['f', 'a', 'l', 's', 'e'] (by decide)
    | num n => exact (clean_original_iff hpos _).2 (h.numbers n ha)
    | key k => exact (clean_original_iff hpos _).2 (h.keys k ha)
    | str s => exact (hstring s).2 (h.strings s ha)

end Print

section Call

variable {J : JsonText} {gate : ToolGate}

def callArguments (J : JsonText) (tc : Json) : Option Json :=
  (tc.get "function".toList).bind fun func =>
    (J.fromStr (((func.get "arguments".toList).bind Json.asStr).getD "\x7b\x7d".toList)).toOption

theorem evaluate_sanitize {name text : Text} (h : gate.evaluate J name text = .sanitize masked) :
    ∃ args, J.fromStr text = .ok args ∧
      masked = maskStringsInValue (gate.redactor.redactTextIn · gate.maskEntities) args := by
  unfold ToolGate.evaluate at h
  dsimp only at h
  split at h
  · cases h
  split at h
  · cases h
  split at h
  · cases h
  next args hparse =>
    refine ⟨args, hparse, ?_⟩
    split at h
    · cases h
    split at h
    · cases h
    split at h
    · cases h
      rfl
    · cases h

theorem call_sanitize {tc : Json} (h : gate.evaluateOpenaiToolCall J tc = .sanitize masked) :
    ∃ args, callArguments J tc = some args ∧
      masked = maskStringsInValue (gate.redactor.redactTextIn · gate.maskEntities) args := by
  unfold ToolGate.evaluateOpenaiToolCall at h
  unfold callArguments
  cases hfunc : tc.get "function".toList with
  | none =>
    rw [hfunc] at h
    cases h
  | some func =>
    rw [hfunc] at h
    dsimp only at h
    cases hname : (func.get "name".toList).bind Json.asStr with
    | none =>
      rw [hname] at h
      cases h
    | some name =>
      rw [hname] at h
      obtain ⟨args, hparse, hmasked⟩ := evaluate_sanitize h
      refine ⟨args, ?_, hmasked⟩
      rw [Option.bind_some, hparse]
      rfl

theorem gateCalls_sanitize {tc : Json} (h : gate.evaluateOpenaiToolCall J tc = .sanitize masked)
    (calls : List Json) :
    ∃ tc', (gateCalls J gate (tc :: calls)).1 = tc' :: (gateCalls J gate calls).1 ∧
      (tc'.get "function".toList).bind (·.get "arguments".toList) = some (.str (J.toText masked)) := by
  refine ⟨_, by rw [gateCalls, h], ?_⟩
  rcases survives_sanitize h with ⟨hallow, -⟩ | ⟨args, hargs, hfunction⟩
  · rw [h] at hallow
    cases hallow
  obtain rfl : masked = args := by
    rw [h] at hargs
    cases hargs
    rfl
  obtain ⟨func, fields, hfunc, -⟩ := exists_obj_of_sanitize h
  obtain ⟨func', hfunc', hreplaced⟩ := hfunction.get_of_some hfunc
  rw [hfunc']
  exact hreplaced.1

end Call

/-- **When sanitized arguments show nothing.** -/
theorem sanitized_clean_iff (eng : Engine) (U : Unicode) (readToString : Text → Except Text Text)
    (style : PlaceholderStyle) (r : Redactor)
    (hbuild : Redactor.buildWithStyle eng U readToString defaultInlinePatterns [] style = .ok r)
    (J : JsonText) (num : Number → Text) (hJ : ∀ j, J.toText j = (Json.compact num).print j)
    (gate : ToolGate) (hgate : gate.redactor = r) (tc masked : Json)
    (hdecision : gate.evaluateOpenaiToolCall J tc = .sanitize masked) (calls : List Json) :
    ∃ args tc', callArguments J tc = some args ∧
      (gateCalls J gate (tc :: calls)).1 = tc' :: (gateCalls J gate calls).1 ∧
      (tc'.get "function".toList).bind (·.get "arguments".toList) = some (.str (erase
        ((sanitizedLayout num (r.redactTextInMarked · gate.maskEntities)).print args))) ∧
      ∀ p ∈ defaultInlinePatterns, p.1 ∈ gate.maskEntities → ∀ e, parse p.2 = some e →
        (Clean eng.tables e
            ((sanitizedLayout num (r.redactTextInMarked · gate.maskEntities)).print args) ↔
          NothingShows num (r.redactTextInMarked · gate.maskEntities) eng.tables e args) := by
  obtain ⟨args, hargs, hmasked⟩ := call_sanitize hdecision
  obtain ⟨tc', hcalls, htext⟩ := gateCalls_sanitize hdecision calls
  refine ⟨args, tc', hargs, hcalls, ?_, fun p hp hmem e he => ?_⟩
  · have herase (s : Text) :
        erase (r.redactTextInMarked s gate.maskEntities) = r.redactTextIn s gate.maskEntities := by
      unfold Redactor.redactTextInMarked Redactor.redactTextIn
      rw [← erase_redactByMarked, erase_original]
    rw [htext, hJ, hmasked, hgate, erase_sanitized num _ herase]
  · obtain ⟨hsep, hlen⟩ := defaultInlinePatterns_separates eng.tables hp he
    exact clean_print_iff num _ hsep hlen (clean_redactTextIn hbuild gate.maskEntities hp hmem he)
      (tidy_redactTextIn hbuild gate.maskEntities) args

section Examples

def maskingGate : ToolGate where
  allow := none
  deny := []
  schemas := ∅
  redactor := builtInRedactor
  rejectEntities := []
  maskEntities := ["EMAIL".toList]

def layoutJson : JsonText := ⟨Json.parse, (Json.compact Json.printNumber).print⟩

def callWith (args : Json) : Json :=
  .obj [("function".toList, .obj [("name".toList, .str "send".toList),
    ("arguments".toList, .str (Json.print args))])]

theorem shows_of_builtIn {entities : List Text} {text : Text}
    (h : ∃ p ∈ defaultInlinePatterns, p.1 ∈ entities ∧ ∃ e ∈ parse p.2,
      (e.toRegex .ascii).isMatch text = true) : maskingGate.Shows entities text := by
  obtain ⟨p, hp, hentity, e, he, hmatch⟩ := h
  have hrule : (⟨p.1, barePlaceholder p.1, e.toRegex .ascii⟩ : RedactRule) ∈
      builtInRedactor.rules :=
    (mem_rules_default (builtInRedactor_build .ascii fun _ => .error []) _).2
      ⟨p, hp, compile_of_parse .basic he⟩
  exact ⟨_, hrule, hentity, hmatch⟩

theorem callWith_sanitized {args : Json} (hvalid : args.valid = true)
    (hshows : maskingGate.Shows maskingGate.maskEntities (Json.print args)) :
    callArguments layoutJson (callWith args) = some args ∧
      maskingGate.evaluateOpenaiToolCall layoutJson (callWith args) = .sanitize
        (maskStringsInValue (maskingGate.redactor.redactTextIn · maskingGate.maskEntities) args) := by
  have hparse : layoutJson.fromStr (Json.print args) = .ok args := Json.parse_print hvalid
  have hargs : callArguments layoutJson (callWith args) = some args := by
    change (layoutJson.fromStr (Json.print args)).toOption = some args
    rw [hparse]
    rfl
  refine ⟨hargs, ?_⟩
  have hrefuses : ¬ maskingGate.Refuses "send".toList args := by
    rw [ToolGate.refuses_iff]
    exact fun h => by rcases h with h | h | h <;> cases h
  have hreject : ¬ maskingGate.Shows maskingGate.rejectEntities (Json.print args) :=
    fun ⟨_, _, hmem, _⟩ => not_mem_nil hmem
  have hkind : (maskingGate.evaluate layoutJson "send".toList (Json.print args)).kind = .sanitize :=
    (ToolGate.kind_eq_sanitize_iff hparse).2 ⟨not_or.2 ⟨hrefuses, hreject⟩, hshows⟩
  change maskingGate.evaluate layoutJson "send".toList (Json.print args) = _
  cases hdecision : maskingGate.evaluate layoutJson "send".toList (Json.print args) with
  | sanitize masked =>
    obtain ⟨args', hparse', rfl⟩ := evaluate_sanitize hdecision
    rw [hparse, Except.ok.injEq] at hparse'
    rw [hparse']
  | _ =>
    rw [hdecision] at hkind
    cases hkind

def addressValue : Json := .obj [("to".toList, .str "a@b.co".toList)]

def addressKey : Json := .obj [("a@b.co".toList, .bool true)]

/-- A masked string leaves nothing. -/
theorem sanitized_value :
    ∃ tc', (gateCalls layoutJson maskingGate [callWith addressValue]).1 =
        tc' :: (gateCalls layoutJson maskingGate []).1 ∧
      (tc'.get "function".toList).bind (·.get "arguments".toList) = some (.str (erase
        ((sanitizedLayout Json.printNumber
          (builtInRedactor.redactTextInMarked · maskingGate.maskEntities)).print addressValue))) ∧
      ∀ p ∈ defaultInlinePatterns, p.1 ∈ maskingGate.maskEntities → ∀ e, parse p.2 = some e →
        Clean .ascii e ((sanitizedLayout Json.printNumber
          (builtInRedactor.redactTextInMarked · maskingGate.maskEntities)).print addressValue) := by
  have hshows : maskingGate.Shows maskingGate.maskEntities (Json.print addressValue) :=
    shows_of_builtIn (by decide +kernel)
  obtain ⟨hargs, hdecision⟩ := callWith_sanitized (by decide) hshows
  obtain ⟨args, tc', hargs', hcalls, htext, hiff⟩ := sanitized_clean_iff .basic Unicode.ascii
    (fun _ => .error []) .bare builtInRedactor (builtInRedactor_build _ _) layoutJson
    Json.printNumber (fun _ => rfl) maskingGate rfl (callWith addressValue) _ hdecision []
  obtain rfl : addressValue = args := Option.some.inj (hargs.symm.trans hargs')
  refine ⟨tc', hcalls, htext, fun p hp hentity e he => ?_⟩
  have hlen := (defaultInlinePatterns_separates .ascii hp he).2
  refine (hiff p hp hentity e he).2 ⟨?_, ?_, ?_⟩
  · intro k hk
    obtain rfl : k = "to".toList := by simpa [addressValue, Json.atoms, Json.fieldAtoms] using hk
    exact noMatch_of_length (Nat.lt_trans (by decide) hlen)
  · intro n hn
    simp [addressValue, Json.atoms, Json.fieldAtoms] at hn
  rintro s hs ⟨a, c, u, b, _, _, hsplit, hcontrol, -⟩
  obtain rfl : s = "a@b.co".toList := by simpa [addressValue, Json.atoms, Json.fieldAtoms] using hs
  have hplain : (builtInRedactor.redactTextInMarked "a@b.co".toList maskingGate.maskEntities).all
      (fun c => decide (¬ c.1.toNat < 32)) = true := by
    decide +kernel
  rw [hsplit] at hplain
  exact of_decide_eq_true (all_eq_true.1 hplain (c, false) (by simp)) hcontrol

/-- **An address as a key is left as it is** by the gate that masks addresses. -/
theorem sanitized_key_shows :
    maskingGate.evaluateOpenaiToolCall layoutJson (callWith addressKey) = .sanitize addressKey ∧
      ∃ p ∈ defaultInlinePatterns, p.1 ∈ maskingGate.maskEntities ∧ ∃ e, parse p.2 = some e ∧
        ¬ Clean .ascii e ((sanitizedLayout Json.printNumber
          (builtInRedactor.redactTextInMarked · maskingGate.maskEntities)).print addressKey) := by
  have hshows : maskingGate.Shows maskingGate.maskEntities (Json.print addressKey) :=
    shows_of_builtIn (by decide +kernel)
  refine ⟨(callWith_sanitized (by decide) hshows).2, ?_⟩
  have hmatch : ∃ p ∈ defaultInlinePatterns, p.1 ∈ maskingGate.maskEntities ∧ ∃ e ∈ parse p.2,
      ("a@b.co".toList.reverse ++ "\x7b\"".toList.reverse, "\":true\x7d".toList) ∈
        e.run .ascii "\x7b\"".toList.reverse "a@b.co\":true\x7d".toList := by
    decide +kernel
  obtain ⟨p, hp, hmem, e, he, hrun⟩ := hmatch
  refine ⟨p, hp, hmem, e, he, fun hclean => ?_⟩
  obtain ⟨m, hm, -, hmatch⟩ := Regex.mem_run_iff.1 hrun
  obtain rfl : m = "a@b.co".toList := (append_cancel_right hm).symm
  have hins := hclean (original "\x7b\"".toList) (original "a@b.co".toList)
    (original "\":true\x7d".toList) rfl (by simpa using hmatch) ('a', false) mem_cons_self
  cases hins

end Examples

end Nanoguard.Proxy

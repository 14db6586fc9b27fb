import Nanoguard.Guard.Deanonymize
import Nanoguard.Lib.Utf8

/-!
# The output filter

`filterOutput` masks the words of a fixed dictionary in an answer. The words are searched in a
lowercase copy of the text, and a match is projected back to the characters it comes from. A match
that starts between brackets is left alone, so that placeholders survive.
-/

namespace Nanoguard.Matcher

open List

open Guard (brackets)

variable {cs : List (Char × Bool)} {c : Char} {i : Nat}

/-- The words of the dictionary. The first three are to be masked. -/
def outputWords : List Text :=
  ["ssn".toList, "social security".toList, "credit card".toList, "I cannot".toList,
    "As an AI".toList, "I'm not able".toList]

structure OutputMatch where
  position : Nat
  length : Nat
  deriving DecidableEq, Repr

/-- The dictionary of the other crate, in the mode the filter uses: what it reports are occurrences
of its words. -/
structure OutputDictionary where
  scan : Text → List OutputMatch
  within : ∀ {t m}, m ∈ scan t → m.position + m.length ≤ t.length
  word : ∀ {t m}, m ∈ scan t → (t.drop m.position).take m.length ∈ outputWords

section Filter

variable (U : Unicode) (output : OutputDictionary)

/-- `char::to_lowercase`, never empty. -/
def lowercaseOf (ch : Char) : Text := if (U.toLowercase ch).isEmpty then [ch] else U.toLowercase ch

/-- The characters of the lowercase copy, with the positions they come from. -/
def lowerTagged (text : Text) : List (Char × Nat) :=
  text.zipIdx.flatMap fun (ch, i) => (lowercaseOf U ch).map fun lc => (lc, i)

/-- The lowercase copy, and for each position in it the position in the text. -/
def lowerWithByteMap (text : Text) : Text × List Nat :=
  let tagged := lowerTagged U text
  (tagged.map Prod.fst, tagged.map Prod.snd ++ [text.length])

/-- The nearest bracket before the position is an opening one. -/
def isInsideBrackets (text : Text) (pos : Nat) : Bool :=
  match (text.take pos).reverse.find? fun c => c = '[' || c = ']' with
  | some c => c = '['
  | none => false

def maskedSpans (text : Text) : List (Nat × Nat) :=
  let (lowered, map) := lowerWithByteMap U text
  ((output.scan lowered).map fun m =>
    (map.getD m.position 0, map.getD (m.position + m.length) 0)).filter
      fun span => !isInsideBrackets text span.1

/-- Each character, with whether it lies in a span to be masked. -/
def markOutput (text : Text) : List (Char × Bool) :=
  let spans := maskedSpans U output text
  text.zipIdx.map fun (c, i) => (c, spans.any fun span => span.1 ≤ i && i < span.2)

/-- Every byte of a marked character becomes an asterisk. -/
def maskChar : Char × Bool → Text
  | (c, true) => List.replicate c.utf8Size '*'
  | (c, false) => [c]

def masked (cs : List (Char × Bool)) : Text := cs.flatMap maskChar

def filterOutput (text : Text) : Text :=
  let (lowered, _) := lowerWithByteMap U text
  if (output.scan lowered).isEmpty then text else masked (markOutput U output text)

end Filter

section

variable {U : Unicode} {output : OutputDictionary} {text : Text}

theorem map_fst_markOutput (text : Text) : (markOutput U output text).map Prod.fst = text := by
  unfold markOutput
  rw [map_map]
  exact zipIdx_map_fst 0 text

theorem masked_unmarked (h : ∀ x ∈ cs, x.2 = false) : masked cs = cs.map Prod.fst := by
  induction cs with
  | nil => rfl
  | cons x cs ih =>
    obtain ⟨c, b⟩ := x
    have hb : b = false := h (c, b) mem_cons_self
    subst hb
    have := ih (forall_mem_cons.1 h).2
    unfold masked at this ⊢
    rw [flatMap_cons, this]
    rfl

theorem filterOutput_eq (text : Text) : filterOutput U output text = masked (markOutput U output text) := by
  unfold filterOutput
  dsimp only
  split
  next hempty =>
    rw [List.isEmpty_iff] at hempty
    have hspans : maskedSpans U output text = [] := by
      unfold maskedSpans
      simp only [hempty, map_nil, filter_nil]
    rw [masked_unmarked, map_fst_markOutput]
    intro x hx
    unfold markOutput at hx
    rw [hspans] at hx
    obtain ⟨y, -, rfl⟩ := mem_map.1 hx
    rfl
  next => rfl

/-! ## What a match covers -/

theorem map_fst_lowerTagged (text : Text) :
    (lowerTagged U text).map Prod.fst = text.flatMap (lowercaseOf U) := by
  unfold lowerTagged
  rw [map_flatMap, ← zipIdx_map_fst 0 text, flatMap_map]
  simp [Function.comp_def]

theorem mem_maskedSpans {span : Nat × Nat} :
    span ∈ maskedSpans U output text ↔ ∃ m ∈ output.scan (lowerWithByteMap U text).1,
      span = ((lowerWithByteMap U text).2.getD m.position 0,
        (lowerWithByteMap U text).2.getD (m.position + m.length) 0) ∧
      isInsideBrackets text span.1 = false := by
  unfold maskedSpans
  rw [mem_filter, mem_map, Bool.not_eq_true']
  constructor
  · rintro ⟨⟨m, hm, rfl⟩, hinside⟩
    exact ⟨m, hm, rfl, hinside⟩
  · rintro ⟨m, hm, rfl, hinside⟩
    exact ⟨⟨m, hm, rfl⟩, hinside⟩

theorem lowercaseOf_ne_nil (ch : Char) : lowercaseOf U ch ≠ [] := by
  unfold lowercaseOf
  split
  · exact cons_ne_nil _ _
  · next h => simpa using h

theorem lowercaseOf_ascii (hc : c.toNat < 128) : lowercaseOf U c = [c.toLower] := by
  unfold lowercaseOf
  rw [U.toLowercase_ascii c hc]
  rfl

theorem lowercaseOf_bracket (hc : c = '[' ∨ c = ']') : lowercaseOf U c = [c] := by
  have hascii : c.toNat < 128 := by rcases hc with rfl | rfl <;> decide
  have hlower : c.toLower = c := by rcases hc with rfl | rfl <;> decide
  rw [lowercaseOf_ascii hascii, hlower]

theorem mem_lowerTagged {lc : Char} :
    (lc, i) ∈ lowerTagged U text ↔ ∃ c, text[i]? = some c ∧ lc ∈ lowercaseOf U c := by
  unfold lowerTagged
  rw [mem_flatMap]
  constructor
  · rintro ⟨⟨c, j⟩, hc, hmem⟩
    obtain ⟨lc', hlc, heq⟩ := mem_map.1 hmem
    cases heq
    exact ⟨c, mk_mem_zipIdx_iff_getElem?.1 hc, hlc⟩
  · rintro ⟨c, hc, hlc⟩
    exact ⟨(c, i), mk_mem_zipIdx_iff_getElem?.2 hc, mem_map.2 ⟨lc, hlc, rfl⟩⟩

theorem lowerTagged_sorted (text : Text) : (lowerTagged U text).Pairwise fun x y => x.2 ≤ y.2 := by
  unfold lowerTagged
  rw [pairwise_flatMap]
  refine ⟨?_, ?_⟩
  · rintro ⟨ch, i⟩ -
    rw [pairwise_map]
    exact pairwise_of_forall fun _ _ => le_rfl
  have hsorted : text.zipIdx.Pairwise fun x y => x.2 < y.2 := by
    rw [← pairwise_map (f := Prod.snd) (R := fun i j => i < j), zipIdx_map_snd]
    exact pairwise_lt_range'
  refine hsorted.imp ?_
  rintro ⟨ch, i⟩ ⟨ch', j⟩ hlt x hx y hy
  obtain ⟨_, -, rfl⟩ := mem_map.1 hx
  obtain ⟨_, -, rfl⟩ := mem_map.1 hy
  exact Nat.le_of_lt hlt

theorem tag_le {k k' : Nat} {x y : Char × Nat} (hx : (lowerTagged U text)[k]? = some x)
    (hy : (lowerTagged U text)[k']? = some y) (hle : k ≤ k') : x.2 ≤ y.2 := by
  rcases Nat.lt_or_eq_of_le hle with hlt | rfl
  · obtain ⟨hk, rfl⟩ := List.getElem?_eq_some_iff.1 hx
    obtain ⟨hk', rfl⟩ := List.getElem?_eq_some_iff.1 hy
    exact pairwise_iff_getElem.1 (lowerTagged_sorted text) k k' hk hk' hlt
  · rw [hx] at hy
    cases hy
    exact le_rfl

theorem getD_map_of_some {k : Nat} {x : Char × Nat} (h : (lowerTagged U text)[k]? = some x) :
    (lowerWithByteMap U text).2.getD k 0 = x.2 := by
  obtain ⟨hk, rfl⟩ := List.getElem?_eq_some_iff.1 h
  unfold lowerWithByteMap
  dsimp only
  rw [getD_eq_getElem?_getD, getElem?_append_left (by simpa using hk), getElem?_map, h]
  rfl

theorem getD_map_length (text : Text) :
    (lowerWithByteMap U text).2.getD (lowerWithByteMap U text).1.length 0 = text.length := by
  unfold lowerWithByteMap
  simp

theorem exists_tag_in_match {position length : Nat}
    (hwithin : position + length ≤ (lowerWithByteMap U text).1.length) (hc : text[i]? = some c)
    (hstart : (lowerWithByteMap U text).2.getD position 0 ≤ i)
    (hend : i < (lowerWithByteMap U text).2.getD (position + length) 0) :
    ∃ k lc, (lowerTagged U text)[k]? = some (lc, i) ∧ position ≤ k ∧ k < position + length := by
  have hlen : (lowerWithByteMap U text).1.length = (lowerTagged U text).length := length_map _
  have hpos : 0 < length := by
    by_contra hzero
    obtain rfl : length = 0 := by omega
    exact Nat.not_lt_of_le hstart hend
  obtain ⟨lc, rest, hlc⟩ := exists_cons_of_ne_nil (lowercaseOf_ne_nil (U := U) c)
  have hmem : (lc, i) ∈ lowerTagged U text :=
    mem_lowerTagged.2 ⟨c, hc, hlc ▸ mem_cons_self⟩
  obtain ⟨k, hk⟩ := getElem?_of_mem hmem
  have hklt : k < (lowerTagged U text).length := (List.getElem?_eq_some_iff.1 hk).1
  -- the copy of the character is not behind the match
  have hbefore : k < position + length := by
    by_contra hge
    obtain ⟨x, hx⟩ : ∃ x, (lowerTagged U text)[position + length]? = some x :=
      ⟨_, getElem?_eq_getElem (by omega)⟩
    have hle := tag_le hx hk (by omega)
    rw [getD_map_of_some hx] at hend
    omega
  -- and if it starts before the match, the match starts with a part of it
  rcases Nat.lt_or_ge k position with hlt | hge
  · obtain ⟨⟨lc', j⟩, hx⟩ : ∃ x, (lowerTagged U text)[position]? = some x :=
      ⟨_, getElem?_eq_getElem (by omega)⟩
    have hle : i ≤ j := tag_le hk hx (by omega)
    rw [getD_map_of_some hx] at hstart
    obtain rfl : j = i := Nat.le_antisymm hstart hle
    exact ⟨position, lc', hx, le_rfl, by omega⟩
  · exact ⟨k, lc, hk, hge, hbefore⟩

theorem exists_in_match {position length : Nat}
    (hwithin : position + length ≤ (lowerWithByteMap U text).1.length) (hc : text[i]? = some c)
    (hstart : (lowerWithByteMap U text).2.getD position 0 ≤ i)
    (hend : i < (lowerWithByteMap U text).2.getD (position + length) 0) :
    ∃ lc ∈ lowercaseOf U c, lc ∈ ((lowerWithByteMap U text).1.drop position).take length := by
  obtain ⟨k, lc, hk, hge, hlt⟩ := exists_tag_in_match hwithin hc hstart hend
  obtain ⟨c', hc', hlc⟩ := mem_lowerTagged.1 (mem_of_getElem? hk)
  rw [hc] at hc'
  cases hc'
  refine ⟨lc, hlc, ?_⟩
  have hget : (((lowerWithByteMap U text).1.drop position).take length)[k - position]? =
      some lc := by
    rw [getElem?_take_of_lt (by omega), getElem?_drop, Nat.add_sub_cancel' hge]
    unfold lowerWithByteMap
    rw [getElem?_map, hk]
    rfl
  exact mem_of_getElem? hget

theorem plain_of_mem_outputWords {w : Text} (h : w ∈ outputWords) : brackets.Plain w := by
  have hall : ∀ w ∈ outputWords, brackets.Plain w := by decide
  exact hall w h

theorem not_bracket_of_span {span : Nat × Nat} (h : span ∈ maskedSpans U output text)
    (hc : text[i]? = some c) (hstart : span.1 ≤ i) (hend : i < span.2) : c ≠ '[' ∧ c ≠ ']' := by
  obtain ⟨m, hm, rfl⟩ := mem_map.1 (mem_filter.1 h).1
  obtain ⟨lc, hlc, hmem⟩ := exists_in_match (output.within hm) hc hstart hend
  have hplain := plain_of_mem_outputWords (output.word hm)
  have hself : ∀ b, b = '[' ∨ b = ']' → c = b → lc = b := by
    rintro b hb rfl
    rw [lowercaseOf_bracket hb] at hlc
    exact mem_singleton.1 hlc
  constructor
  · intro hop
    obtain rfl := hself '[' (.inl rfl) hop
    exact hplain.1 hmem
  · intro hcl
    obtain rfl := hself ']' (.inr rfl) hcl
    exact hplain.2 hmem

/-! ## Marks and brackets -/

theorem getElem?_markOutput {x : Char × Bool} (h : (markOutput U output text)[i]? = some x) :
    text[i]? = some x.1 ∧
      (x.2 = true ↔ ∃ span ∈ maskedSpans U output text, span.1 ≤ i ∧ i < span.2) := by
  unfold markOutput at h
  rw [getElem?_map, Option.map_eq_some_iff] at h
  obtain ⟨⟨c, j⟩, hget, rfl⟩ := h
  rw [getElem?_zipIdx, Option.map_eq_some_iff] at hget
  obtain ⟨c', hc, heq⟩ := hget
  cases heq
  refine ⟨hc, ?_⟩
  simp

theorem ne_of_mem_markOutput (h : (c, true) ∈ markOutput U output text) : c ≠ '[' ∧ c ≠ ']' := by
  obtain ⟨i, hi⟩ := getElem?_of_mem h
  obtain ⟨hc, hmark⟩ := getElem?_markOutput hi
  obtain ⟨span, hspan, hstart, hend⟩ := hmark.1 rfl
  exact not_bracket_of_span hspan hc hstart hend

theorem isInsideBrackets_of_plain {x y : Text} (hy : brackets.Plain y) {pos : Nat} {text : Text}
    (h : text.take pos = x ++ '[' :: y) : isInsideBrackets text pos = true := by
  have hfind : (y.reverse.find? fun c => c = '[' || c = ']') = none := by
    rw [find?_eq_none]
    intro c hc
    have hmem : c ∈ y := mem_reverse.1 hc
    have hop : c ≠ '[' := by
      rintro rfl
      exact hy.1 hmem
    have hcl : c ≠ ']' := by
      rintro rfl
      exact hy.2 hmem
    simp [hop, hcl]
  unfold isInsideBrackets
  rw [h, List.reverse_append, reverse_cons, append_assoc, find?_append, hfind]
  rfl

theorem isInsideBrackets_iff {text : Text} {s : Nat} :
    isInsideBrackets text s = true ↔ ∃ x y, text.take s = x ++ '[' :: y ∧ brackets.Plain y := by
  constructor
  · intro h
    unfold isInsideBrackets at h
    split at h
    · rename_i c hfind
      obtain ⟨-, as, bs, hsplit, hplain⟩ := find?_eq_some_iff_append.1 hfind
      obtain rfl : c = '[' := of_decide_eq_true h
      refine ⟨bs.reverse, as.reverse, ?_, ?_, ?_⟩
      · simpa using congrArg List.reverse hsplit
      · exact fun hmem => absurd (hplain '[' (mem_reverse.1 hmem)) (by decide)
      · exact fun hmem => absurd (hplain ']' (mem_reverse.1 hmem)) (by decide)
    · cases h
  · rintro ⟨x, y, htake, hplain⟩
    exact isInsideBrackets_of_plain hplain htake

theorem unmarked_of_isSlot {A P B : List (Char × Bool)}
    (h : markOutput U output text = A ++ (P ++ B)) (hP : brackets.IsSlot (P.map Prod.fst)) :
    ∀ x ∈ P, x.2 = false := by
  obtain ⟨name, hname, hslot⟩ := hP
  have htext : text = A.map Prod.fst ++ (brackets.slot name ++ B.map Prod.fst) := by
    rw [← @map_fst_markOutput U output text, h, map_append, map_append, hslot]
  intro x hx
  obtain ⟨j, hj⟩ := getElem?_of_mem hx
  have hjlt : j < P.length := (List.getElem?_eq_some_iff.1 hj).1
  have hPlen : P.length = name.length + 2 := by
    have := congrArg List.length hslot
    simpa [Delims.slot] using this
  have hget : (markOutput U output text)[A.length + j]? = some x := by
    rw [h, getElem?_append_right (Nat.le_add_right _ _), Nat.add_sub_cancel_left,
      getElem?_append_left hjlt, hj]
  obtain ⟨-, hmark⟩ := getElem?_markOutput hget
  by_contra hmarked
  obtain ⟨span, hspan, hstart, hend⟩ := hmark.1 (by simpa using hmarked)
  have hopen : text[A.length]? = some '[' := by
    rw [htext, getElem?_append_right (by simp), length_map, Nat.sub_self]
    rfl
  -- the span starts behind the opening bracket, so it is left alone
  have hbehind : A.length < span.1 := by
    by_contra hle
    exact (not_bracket_of_span hspan hopen (by omega) (by omega)).1 rfl
  have hinside : isInsideBrackets text span.1 = true := by
    have htake : text.take span.1 =
        A.map Prod.fst ++ '[' :: name.take (span.1 - A.length - 1) := by
      obtain ⟨n, hn⟩ : ∃ n, span.1 = A.length + (n + 1) := ⟨span.1 - A.length - 1, by omega⟩
      have hshort : n ≤ name.length := by omega
      rw [hn, htext, take_append, length_map, Nat.add_sub_cancel_left,
        take_of_length_le (by simp)]
      unfold Delims.slot
      rw [cons_append, take_succ_cons, append_assoc, take_append_of_le_length hshort]
      rfl
    refine isInsideBrackets_of_plain ?_ htake
    exact ⟨fun h => hname.1 (mem_of_mem_take h), fun h => hname.2 (mem_of_mem_take h)⟩
  have hskip := (mem_filter.1 hspan).2
  rw [hinside] at hskip
  cases hskip

/-! ## Masking keeps brackets and lengths -/

def Respects (cs : List (Char × Bool)) : Prop := ∀ c, (c, true) ∈ cs → c ≠ '[' ∧ c ≠ ']'

theorem respects_append {cs' : List (Char × Bool)} :
    Respects (cs ++ cs') ↔ Respects cs ∧ Respects cs' := by
  unfold Respects
  simp only [mem_append]
  constructor
  · intro h
    exact ⟨fun c hc => h c (.inl hc), fun c hc => h c (.inr hc)⟩
  · rintro ⟨h, h'⟩ c (hc | hc)
    · exact h c hc
    · exact h' c hc

theorem respects_markOutput (text : Text) : Respects (markOutput U output text) :=
  fun _ hc => ne_of_mem_markOutput hc

theorem masked_append (cs cs' : List (Char × Bool)) : masked (cs ++ cs') = masked cs ++ masked cs' :=
  flatMap_append

theorem masked_cons (x : Char × Bool) (cs : List (Char × Bool)) :
    masked (x :: cs) = maskChar x ++ masked cs := rfl

theorem plain_replicate (n : Nat) : brackets.Plain (List.replicate n '*') := by
  constructor
  all_goals
    intro h
    cases eq_of_mem_replicate h

theorem inside_masked (h : Respects cs) (b : Bool) :
    brackets.inside b (masked cs) = brackets.inside b (cs.map Prod.fst) := by
  induction cs generalizing b with
  | nil => rfl
  | cons x cs ih =>
    obtain ⟨c, mark⟩ := x
    have ih' := ih fun c hc => h c (mem_cons_of_mem _ hc)
    rw [masked_cons, Delims.inside_append, map_cons, Delims.inside_cons, ih']
    cases mark with
    | false => rfl
    | true =>
      obtain ⟨hop, hcl⟩ : c ≠ brackets.op ∧ c ≠ brackets.cl := h c mem_cons_self
      rw [maskChar, Delims.inside_plain b (plain_replicate _), if_neg hop, if_neg hcl]

theorem len_masked (cs : List (Char × Bool)) : Str.len (masked cs) = Str.len (cs.map Prod.fst) := by
  induction cs with
  | nil => rfl
  | cons x cs ih =>
    obtain ⟨c, mark⟩ := x
    have hchar : Str.len (maskChar (c, mark)) = Str.len [c] := by
      cases mark with
      | false => rfl
      | true =>
        have hbytes : Str.bytes (List.replicate c.utf8Size '*') = List.replicate c.utf8Size 42 := by
          have hstars : ∀ n, Str.bytes (List.replicate n '*') = List.replicate n 42 := by
            intro n
            induction n with
            | zero => rfl
            | succ n ih =>
              rw [replicate_succ, Utf8.bytes_cons, ih]
              rfl
          exact hstars _
        unfold Str.len
        rw [maskChar, hbytes, length_replicate, Utf8.bytes_cons, Utf8.bytes_nil, append_nil,
          String.length_utf8EncodeChar]
    have hcons : c :: cs.map Prod.fst = [c] ++ cs.map Prod.fst := rfl
    rw [masked_cons, Utf8.len_append, ih, hchar, map_cons, hcons, Utf8.len_append]

theorem plain_masked (h : brackets.Plain (cs.map Prod.fst)) : brackets.Plain (masked cs) := by
  induction cs with
  | nil => exact h
  | cons x cs ih =>
    obtain ⟨c, mark⟩ := x
    obtain ⟨hop, hcl, hrest⟩ := Delims.plain_cons.1 h
    rw [masked_cons, Delims.plain_append]
    refine ⟨?_, ih hrest⟩
    cases mark with
    | false => exact Delims.plain_cons.2 ⟨hop, hcl, not_mem_nil, not_mem_nil⟩
    | true => exact plain_replicate _

theorem isSlot_masked (hcs : Respects cs) (h : brackets.IsSlot (cs.map Prod.fst)) :
    brackets.IsSlot (masked cs) := by
  obtain ⟨name, hname, hslot⟩ := h
  obtain ⟨⟨c, m⟩, cs, rfl, hc, hrest⟩ := map_eq_cons_iff.1 hslot
  obtain ⟨mid, l, rfl, hmid, hl⟩ := map_eq_append_iff.1 hrest
  obtain ⟨⟨d, n⟩, rfl, hd⟩ := map_eq_singleton_iff.1 hl
  obtain rfl : c = '[' := hc
  obtain rfl : d = ']' := hd
  have hopen : m = false := by
    by_contra hm
    rw [Bool.not_eq_false] at hm
    subst hm
    exact (hcs '[' mem_cons_self).1 rfl
  have hclose : n = false := by
    by_contra hn
    rw [Bool.not_eq_false] at hn
    subst hn
    exact (hcs ']' (mem_cons_of_mem _ (mem_append_right _ mem_cons_self))).2 rfl
  subst hopen hclose
  rw [← hmid] at hname
  refine ⟨masked mid, plain_masked hname, ?_⟩
  rw [masked_cons, masked_append]
  rfl

theorem star_mem_masked (h : ¬ ∀ x ∈ cs, x.2 = false) : '*' ∈ masked cs := by
  have hmark : ∃ c, (c, true) ∈ cs := by
    by_contra hnone
    apply h
    rintro ⟨c, m⟩ hx
    cases m with
    | false => rfl
    | true => exact absurd ⟨c, hx⟩ hnone
  obtain ⟨c, hc⟩ := hmark
  refine mem_flatMap.2 ⟨_, hc, ?_⟩
  rw [maskChar, mem_replicate]
  exact ⟨Nat.ne_of_gt c.utf8Size_pos, rfl⟩

end

/-! ## A plain search -/

def occurrencesOfWords (t : Text) : List OutputMatch :=
  (List.range (t.length + 1)).flatMap fun i =>
    (outputWords.filter fun w => decide (w <+: t.drop i)).map fun w => ⟨i, w.length⟩

theorem mem_occurrencesOfWords {t : Text} {m : OutputMatch} (h : m ∈ occurrencesOfWords t) :
    m.position ≤ t.length ∧ ∃ w ∈ outputWords, m.length = w.length ∧ w <+: t.drop m.position := by
  obtain ⟨i, hi, hm⟩ := mem_flatMap.1 h
  obtain ⟨w, hw, rfl⟩ := mem_map.1 hm
  obtain ⟨hword, hpre⟩ := mem_filter.1 hw
  exact ⟨Nat.le_of_lt_succ (mem_range.1 hi), w, hword, rfl, of_decide_eq_true hpre⟩

def OutputDictionary.plain : OutputDictionary where
  scan := occurrencesOfWords
  within h := by
    obtain ⟨hpos, w, -, hlen, hpre⟩ := mem_occurrencesOfWords h
    have := hpre.length_le
    rw [List.length_drop] at this
    omega
  word h := by
    obtain ⟨-, w, hw, hlen, hpre⟩ := mem_occurrencesOfWords h
    rw [hlen, ← List.prefix_iff_eq_take.1 hpre]
    exact hw

end Nanoguard.Matcher

import Nanoguard.Matcher.Output
import Nanoguard.Lib.ByteMask

/-!
# The output filter on bytes

The filter as it runs: matches are byte ranges of the lowercase copy, the map has an entry for each
byte of the copy, and the masked text is a buffer of bytes that is decoded at the end. An index out
of range panics, here `none`. The map sends every byte of the copy to the position of a character of
the text, and does so in order.
-/

namespace Nanoguard.Matcher

open List

/-- `str::char_indices`, for a text that starts at the position `i`. -/
def charIndices : Nat → Text → List (Nat × Char)
  | _, [] => []
  | i, c :: t => (i, c) :: charIndices (i + c.utf8Size) t

/-- One character of the copy, with an entry of the map for each of its bytes. -/
def pushLowered (origIdx : Nat) (acc : Text × List Nat) (lc : Char) : Text × List Nat :=
  let lowered := acc.1 ++ [lc]
  (lowered, acc.2 ++ List.replicate (Str.len lowered - Str.len acc.1) origIdx)

def lowerBytes (U : Unicode) (text : Text) : Text × List Nat :=
  let acc := (charIndices 0 text).foldl
    (fun acc x => (lowercaseOf U x.2).foldl (pushLowered x.1) acc) ([], [])
  (acc.1, acc.2 ++ [Str.len text])

/-- `is_inside_brackets`, backwards from the position. -/
def insideBracketsAt (bytes : List UInt8) : Nat → Option Bool
  | 0 => some false
  | i + 1 => do
    let b ← bytes[i]?
    if b = 91 then return true
    if b = 93 then return false
    insideBracketsAt bytes i

/-- The byte range of the text that a match is projected to. -/
def projected (map : List Nat) (m : OutputMatch) : Option (Nat × Nat) := do
  let start ← map[m.position]?
  let stop ← map[m.position + m.length]?
  return (start, stop)

def maskMatch (bytes : List UInt8) (map : List Nat) (buf : List UInt8) (m : OutputMatch) :
    Option (List UInt8) := do
  let span ← projected map m
  if ← insideBracketsAt bytes span.1 then return buf
  ByteMask.fill 42 buf span

def maskBytes (U : Unicode) (text : Text) (found : List OutputMatch) : Option (List UInt8) :=
  found.foldlM (maskMatch (Str.bytes text) (lowerBytes U text).2) (Str.bytes text)

/-- `String::from_utf8_lossy`. `replaced` is what it makes of bytes that are not valid. -/
def fromUtf8Lossy (replaced : List UInt8 → Text) (bytes : List UInt8) : Text :=
  (Utf8.decode bytes).getD (replaced bytes)

/-- `filter_output`, for what the dictionary found in the lowercase copy. -/
def filterMatches (replaced : List UInt8 → Text) (U : Unicode) (text : Text)
    (found : List OutputMatch) : Option Text := do
  if found.isEmpty then return text
  let buf ← maskBytes U text found
  return fromUtf8Lossy replaced buf

section

variable {U : Unicode} {text : Text} {found : List OutputMatch}

/-! ## The map -/

theorem foldl_pushLowered (origIdx : Nat) (lcs : Text) (acc : Text × List Nat) :
    lcs.foldl (pushLowered origIdx) acc =
      (acc.1 ++ lcs, acc.2 ++ lcs.flatMap fun lc => List.replicate lc.utf8Size origIdx) := by
  induction lcs generalizing acc with
  | nil => simp
  | cons lc lcs ih =>
    have hstep : pushLowered origIdx acc lc =
        (acc.1 ++ [lc], acc.2 ++ List.replicate lc.utf8Size origIdx) := by
      unfold pushLowered
      dsimp only
      rw [Utf8.len_snoc, Nat.add_sub_cancel_left]
    rw [foldl_cons, hstep, ih, append_assoc, append_assoc]
    rfl

/-- The map, character by character of the copy. -/
def byteTags (text : Text) (tagged : List (Char × Nat)) : List Nat :=
  tagged.flatMap fun x => List.replicate x.1.utf8Size (Str.len (text.take x.2))

theorem foldl_charIndices {a t : Text} (htext : text = a ++ t) (acc : Text × List Nat) :
    (charIndices (Str.len a) t).foldl
        (fun acc x => (lowercaseOf U x.2).foldl (pushLowered x.1) acc) acc =
      (acc.1 ++ t.flatMap (lowercaseOf U),
        acc.2 ++ byteTags text ((t.zipIdx a.length).flatMap fun (ch, i) =>
          (lowercaseOf U ch).map fun lc => (lc, i))) := by
  induction t generalizing a acc with
  | nil => simp [charIndices, byteTags]
  | cons c t ih =>
    have hrest := ih (a := a ++ [c]) (htext.trans (by simp))
    have htags : byteTags text ((lowercaseOf U c).map fun lc => (lc, a.length)) =
        (lowercaseOf U c).flatMap fun lc => List.replicate lc.utf8Size (Str.len a) := by
      unfold byteTags
      simp only [flatMap_map, htext, take_left]
    rw [charIndices, foldl_cons, foldl_pushLowered, ← Utf8.len_snoc, hrest, zipIdx_cons,
      flatMap_cons, flatMap_cons, ← htags, length_append, append_assoc, append_assoc]
    unfold byteTags
    rw [flatMap_append]
    rfl

theorem lowerBytes_eq (U : Unicode) (text : Text) :
    lowerBytes U text =
      ((lowerTagged U text).map Prod.fst, byteTags text (lowerTagged U text) ++ [Str.len text]) := by
  have hfold := @foldl_charIndices U text [] text rfl ([], [])
  rw [map_fst_lowerTagged]
  exact congrArg (fun acc : Text × List Nat => (acc.1, acc.2 ++ [Str.len text])) hfold

theorem length_byteTags (text : Text) (tagged : List (Char × Nat)) :
    (byteTags text tagged).length = Str.len (tagged.map Prod.fst) := by
  induction tagged with
  | nil => rfl
  | cons x tagged ih =>
    unfold byteTags at ih ⊢
    rw [flatMap_cons, length_append, ih, length_replicate, map_cons, Utf8.len_cons]

theorem length_byteMap (U : Unicode) (text : Text) :
    (lowerBytes U text).2.length = Str.len (lowerBytes U text).1 + 1 := by
  rw [lowerBytes_eq, length_append, length_byteTags]
  rfl

theorem isBoundary_of_mem_byteMap {n : Nat} (h : n ∈ (lowerBytes U text).2) :
    Utf8.IsBoundary text n := by
  rw [lowerBytes_eq, mem_append, mem_singleton] at h
  rcases h with h | rfl
  · obtain ⟨x, -, hn⟩ := mem_flatMap.1 h
    rw [eq_of_mem_replicate hn]
    exact Utf8.isBoundary_take text x.2
  · exact ⟨text, [], (append_nil text).symm, rfl⟩

theorem byteMap_sorted (U : Unicode) (text : Text) : (lowerBytes U text).2.Pairwise (· ≤ ·) := by
  rw [lowerBytes_eq, pairwise_append]
  refine ⟨?_, pairwise_singleton _ _, ?_⟩
  · unfold byteTags
    rw [pairwise_flatMap]
    refine ⟨fun x _ => pairwise_replicate.2 (.inr le_rfl), ?_⟩
    refine (lowerTagged_sorted text).imp fun {x y} hxy m hm n hn => ?_
    rw [eq_of_mem_replicate hm, eq_of_mem_replicate hn]
    exact Utf8.len_take_mono text hxy
  intro n hn m hm
  have hmem : n ∈ (lowerBytes U text).2 := by
    rw [lowerBytes_eq]
    exact mem_append_left _ hn
  rw [mem_singleton.1 hm]
  exact (isBoundary_of_mem_byteMap hmem).le_len

theorem projected_of_within {m : OutputMatch}
    (h : m.position + m.length ≤ Str.len (lowerBytes U text).1) :
    ∃ start stop, projected (lowerBytes U text).2 m = some (start, stop) ∧ start ≤ stop ∧
      Utf8.IsBoundary text start ∧ Utf8.IsBoundary text stop := by
  have hlen := length_byteMap U text
  have hstop : m.position + m.length < (lowerBytes U text).2.length := by omega
  have hstart : m.position < (lowerBytes U text).2.length := by omega
  refine ⟨(lowerBytes U text).2[m.position], (lowerBytes U text).2[m.position + m.length],
    ?_, ?_, ?_, ?_⟩
  · rw [projected, getElem?_eq_getElem hstart, getElem?_eq_getElem hstop]
    rfl
  · rcases Nat.eq_zero_or_pos m.length with hzero | hpos
    · simp only [hzero, Nat.add_zero, le_refl]
    · exact pairwise_iff_getElem.1 (byteMap_sorted U text) _ _ hstart hstop (by omega)
  · exact isBoundary_of_mem_byteMap (getElem_mem hstart)
  · exact isBoundary_of_mem_byteMap (getElem_mem hstop)

/-! ## Brackets in front of a position -/

/-- The last bracket before the position is an opening one. -/
def OpenBefore (bytes : List UInt8) (pos : Nat) : Prop :=
  ∃ x y, bytes.take pos = x ++ 91 :: y ∧ 91 ∉ y ∧ 93 ∉ y

theorem not_openBefore_zero (bytes : List UInt8) : ¬ OpenBefore bytes 0 := by
  rintro ⟨x, y, h, -⟩
  simp at h

theorem openBefore_succ {bytes : List UInt8} {i : Nat} {b : UInt8} (hb : bytes[i]? = some b) :
    OpenBefore bytes (i + 1) ↔ b = 91 ∨ (b ≠ 93 ∧ OpenBefore bytes i) := by
  have htake : bytes.take (i + 1) = bytes.take i ++ [b] := by
    rw [take_add_one, hb]
    rfl
  unfold OpenBefore
  rw [htake]
  constructor
  · rintro ⟨x, y, h, hop, hcl⟩
    rcases eq_nil_or_concat y with rfl | ⟨y, d, rfl⟩
    · exact .inl (by simpa using (append_inj' h rfl).2)
    rw [concat_eq_append, ← cons_append, ← append_assoc] at h
    obtain ⟨hleft, hlast⟩ := append_inj' h rfl
    obtain rfl : b = d := by simpa using hlast
    refine .inr ⟨?_, x, y, hleft, ?_, ?_⟩
    · rintro rfl
      simp at hcl
    · exact fun hmem => hop (by simp [hmem])
    · exact fun hmem => hcl (by simp [hmem])
  · by_cases hb' : b = 91
    · rintro -
      exact ⟨bytes.take i, [], by rw [hb'], not_mem_nil, not_mem_nil⟩
    rintro (h | ⟨hne, x, y, h, hop, hcl⟩)
    · exact absurd h hb'
    · refine ⟨x, y ++ [b], by rw [h]; simp, ?_, ?_⟩
      · simp [hop, Ne.symm hb']
      · simp [hcl, Ne.symm hne]

theorem insideBracketsAt_eq {bytes : List UInt8} {pos : Nat} (h : pos ≤ bytes.length) :
    ∃ inside, insideBracketsAt bytes pos = some inside ∧ (inside = true ↔ OpenBefore bytes pos) := by
  induction pos with
  | zero => exact ⟨false, rfl, by simp [not_openBefore_zero]⟩
  | succ i ih =>
    have hb : bytes[i]? = some bytes[i] := getElem?_eq_getElem h
    obtain ⟨inside, hinside, hiff⟩ := ih (Nat.le_of_succ_le h)
    rw [insideBracketsAt, hb, openBefore_succ hb]
    by_cases hop : bytes[i] = 91
    · exact ⟨true, by simp [hop], by simp [hop]⟩
    · by_cases hcl : bytes[i] = 93
      · exact ⟨false, by simp [hcl], by simp [hcl]⟩
      · exact ⟨inside, by simp [hop, hcl, hinside], by simp [hop, hcl, hiff]⟩

/-! ## The loop -/

def maskedRanges (bytes : List UInt8) (map : List Nat) (found : List OutputMatch) :
    List (Nat × Nat) :=
  found.filterMap fun m =>
    (projected map m).filter fun span => insideBracketsAt bytes span.1 = some false

/-- The byte lies in the range of a match that does not start between brackets. -/
def MaskedAt (U : Unicode) (text : Text) (found : List OutputMatch) (i : Nat) : Prop :=
  ∃ m ∈ found, ∃ start stop, projected (lowerBytes U text).2 m = some (start, stop) ∧
    ¬ OpenBefore (Str.bytes text) start ∧ start ≤ i ∧ i < stop

def InRange (U : Unicode) (text : Text) (found : List OutputMatch) : Prop :=
  ∀ m ∈ found, m.position + m.length ≤ Str.len (lowerBytes U text).1

theorem mem_maskedRanges {bytes : List UInt8} {map : List Nat} {span : Nat × Nat} :
    span ∈ maskedRanges bytes map found ↔ ∃ m ∈ found, projected map m = some span ∧
      insideBracketsAt bytes span.1 = some false := by
  simp only [maskedRanges, mem_filterMap, Option.filter_eq_some_iff, decide_eq_true_eq]

theorem foldlM_maskMatch (h : InRange U text found) (buf : List UInt8) :
    found.foldlM (maskMatch (Str.bytes text) (lowerBytes U text).2) buf =
      (maskedRanges (Str.bytes text) (lowerBytes U text).2 found).foldlM
        (ByteMask.fill 42) buf := by
  induction found generalizing buf with
  | nil => rfl
  | cons m found ih =>
    have hrest := ih (forall_mem_cons.1 h).2
    obtain ⟨start, stop, hproj, -, hstart, -⟩ := projected_of_within (h m mem_cons_self)
    obtain ⟨inside, hinside, -⟩ := insideBracketsAt_eq hstart.le_len
    cases inside with
    | true =>
      have hstep : maskMatch (Str.bytes text) (lowerBytes U text).2 buf m = some buf := by
        simp [maskMatch, hproj, hinside]
      have hskip : maskedRanges (Str.bytes text) (lowerBytes U text).2 (m :: found) =
          maskedRanges (Str.bytes text) (lowerBytes U text).2 found :=
        filterMap_cons_none (by simp [hproj, hinside])
      rw [foldlM_cons, hstep, hskip]
      exact hrest buf
    | false =>
      have hstep : maskMatch (Str.bytes text) (lowerBytes U text).2 buf m =
          ByteMask.fill 42 buf (start, stop) := by
        simp [maskMatch, hproj, hinside]
      have htake : maskedRanges (Str.bytes text) (lowerBytes U text).2 (m :: found) =
          (start, stop) :: maskedRanges (Str.bytes text) (lowerBytes U text).2 found :=
        filterMap_cons_some (by simp [hproj, hinside])
      rw [foldlM_cons, hstep, htake]
      exact bind_congr hrest

theorem maskedRanges_good (h : InRange U text found) {span : Nat × Nat}
    (hspan : span ∈ maskedRanges (Str.bytes text) (lowerBytes U text).2 found) :
    span.1 ≤ span.2 ∧ Utf8.IsBoundary text span.1 ∧ Utf8.IsBoundary text span.2 := by
  obtain ⟨m, hm, hproj, -⟩ := mem_maskedRanges.1 hspan
  obtain ⟨start, stop, hproj', hle, hstart, hstop⟩ := projected_of_within (h m hm)
  rw [hproj, Option.some.injEq] at hproj'
  subst hproj'
  exact ⟨hle, hstart, hstop⟩

def maskedText (U : Unicode) (text : Text) (found : List OutputMatch) : Text :=
  ByteMask.mask (maskedRanges (Str.bytes text) (lowerBytes U text).2 found) 0 text

theorem bytes_maskedText (h : InRange U text found) :
    Str.bytes (maskedText U text found) =
      ByteMask.painted 42 (maskedRanges (Str.bytes text) (lowerBytes U text).2 found)
        (Str.bytes text) :=
  ByteMask.bytes_mask fun _ hspan => (maskedRanges_good h hspan).2

theorem maskBytes_eq (h : InRange U text found) :
    maskBytes U text found = some (Str.bytes (maskedText U text found)) := by
  rw [maskBytes, foldlM_maskMatch h, bytes_maskedText h]
  refine ByteMask.foldlM_fill fun span hspan => ?_
  obtain ⟨hle, -, hstop⟩ := maskedRanges_good h hspan
  exact ⟨hle, hstop.le_len⟩

theorem filterMatches_eq (replaced : List UInt8 → Text) (h : InRange U text found) :
    filterMatches replaced U text found = some (maskedText U text found) := by
  unfold filterMatches
  split
  · rename_i hempty
    obtain rfl := List.isEmpty_iff.1 hempty
    have hbytes : Str.bytes (maskedText U text []) = Str.bytes text := by
      rw [bytes_maskedText h]
      exact ByteMask.painted_nil 42 _
    rw [Utf8.bytes_injective hbytes]
    rfl
  · simp [maskBytes_eq h, fromUtf8Lossy]

theorem covered_iff (h : InRange U text found) (i : Nat) :
    ByteMask.Covered (maskedRanges (Str.bytes text) (lowerBytes U text).2 found) i ↔
      MaskedAt U text found i := by
  constructor
  · rintro ⟨span, hspan, hstart, hstop⟩
    obtain ⟨m, hm, hproj, hinside⟩ := mem_maskedRanges.1 hspan
    obtain ⟨-, hbound, -⟩ := maskedRanges_good h hspan
    obtain ⟨inside, hinside', hiff⟩ := insideBracketsAt_eq hbound.le_len
    rw [hinside, Option.some.injEq] at hinside'
    exact ⟨m, hm, span.1, span.2, hproj, fun hopen => by simp [← hinside', hopen] at hiff,
      hstart, hstop⟩
  · rintro ⟨m, hm, start, stop, hproj, hopen, hstart, hstop⟩
    obtain ⟨start', stop', hproj', -, hbound, -⟩ := projected_of_within (h m hm)
    rw [hproj, Option.some.injEq, Prod.mk.injEq] at hproj'
    obtain ⟨inside, hinside, hiff⟩ := insideBracketsAt_eq (hproj'.1 ▸ hbound).le_len
    have hout : inside = false := Bool.eq_false_iff.2 fun htrue => hopen (hiff.1 htrue)
    exact ⟨(start, stop), mem_maskedRanges.2 ⟨m, hm, hproj, hout ▸ hinside⟩, hstart, hstop⟩

/-- **The filter projects matches safely.** Each in-range match is projected to a range between
boundaries, the buffer stays an encoded text of the same length, and its bytes are asterisks where
it is masked and the old ones elsewhere. -/
theorem filterMatches_spec (replaced : List UInt8 → Text) (h : InRange U text found) :
    (∀ m ∈ found, ∃ start stop, projected (lowerBytes U text).2 m = some (start, stop) ∧
      start ≤ stop ∧ Utf8.IsBoundary text start ∧ Utf8.IsBoundary text stop) ∧
    ∃ result, maskBytes U text found = some (Str.bytes result) ∧
      filterMatches replaced U text found = some result ∧ Str.len result = Str.len text ∧
      ∀ i < Str.len text,
        (MaskedAt U text found i → (Str.bytes result)[i]? = some 42) ∧
        (¬ MaskedAt U text found i → (Str.bytes result)[i]? = (Str.bytes text)[i]?) := by
  refine ⟨fun m hm => projected_of_within (h m hm), maskedText U text found, maskBytes_eq h,
    filterMatches_eq replaced h, ?_, fun i hi => ?_⟩
  · unfold Str.len
    rw [bytes_maskedText h, ByteMask.length_painted]
  have hget : (Str.bytes text)[i]? = some (Str.bytes text)[i] := getElem?_eq_getElem hi
  rw [bytes_maskedText h, ByteMask.getElem?_painted, hget]
  exact ⟨fun hmask => congrArg some (if_pos ((covered_iff h i).2 hmask)),
    fun hmask => congrArg some (if_neg fun hcov => hmask ((covered_iff h i).1 hcov))⟩

/-- Behind a character of two bytes the word is masked in place. -/
theorem filterMatches_spec_accented :
    InRange .ascii "é SSN".toList [⟨3, 3⟩] ∧ ∃ result,
      filterMatches (fun _ => []) .ascii "é SSN".toList [⟨3, 3⟩] = some result ∧
      Str.len result = 6 ∧ (Str.bytes result)[3]? = some 42 := by
  have hrange : InRange .ascii "é SSN".toList [⟨3, 3⟩] := by
    unfold InRange
    decide
  obtain ⟨-, result, -, hresult, hlen, hbytes⟩ := filterMatches_spec (fun _ => []) hrange
  have hopen : ¬ OpenBefore (Str.bytes "é SSN".toList) 3 := by
    rintro ⟨x, y, htake, -⟩
    have hmem : 91 ∈ (Str.bytes "é SSN".toList).take 3 := htake ▸ by simp
    revert hmem
    decide
  refine ⟨hrange, result, hresult, hlen, (hbytes 3 (by decide)).1 ?_⟩
  exact ⟨⟨3, 3⟩, mem_cons_self, 3, 6, by decide, hopen, by decide, by decide⟩

/-! ## The filter on characters -/

/-- The match of a word, as the dictionary reports it: in bytes. -/
def OutputMatch.inBytes (lowered : Text) (m : OutputMatch) : OutputMatch where
  position := Str.len (lowered.take m.position)
  length := Str.len ((lowered.drop m.position).take m.length)

theorem getElem?_byteTags (text : Text) {tagged : List (Char × Nat)} {k : Nat} {x : Char × Nat}
    (h : tagged[k]? = some x) :
    (byteTags text tagged)[Str.len ((tagged.map Prod.fst).take k)]? =
      some (Str.len (text.take x.2)) := by
  obtain ⟨hk, rfl⟩ := List.getElem?_eq_some_iff.1 h
  have hsplit : byteTags text tagged =
      byteTags text (tagged.take k) ++ byteTags text (tagged.drop k) := by
    unfold byteTags
    rw [← flatMap_append, take_append_drop]
  rw [hsplit, ← map_take, ← length_byteTags text, getElem?_append_right le_rfl,
    Nat.sub_self, drop_eq_getElem_cons hk]
  unfold byteTags
  rw [flatMap_cons, getElem?_append_left (by simp [Char.utf8Size_pos]),
    getElem?_replicate_of_lt (Char.utf8Size_pos _)]

theorem getElem?_byteMap {k : Nat} (hk : k ≤ (lowerWithByteMap U text).1.length) :
    (lowerBytes U text).2[Str.len ((lowerWithByteMap U text).1.take k)]? =
      some (Str.len (text.take ((lowerWithByteMap U text).2.getD k 0))) := by
  have hlen : (lowerWithByteMap U text).1.length = (lowerTagged U text).length := length_map _
  have hlow : (lowerWithByteMap U text).1 = (lowerTagged U text).map Prod.fst := rfl
  rw [lowerBytes_eq]
  rcases Nat.lt_or_eq_of_le hk with hlt | rfl
  · obtain ⟨x, hget⟩ : ∃ x, (lowerTagged U text)[k]? = some x :=
      ⟨_, getElem?_eq_getElem (hlen ▸ hlt)⟩
    rw [getD_map_of_some hget]
    have htags := getElem?_byteTags text hget
    rw [getElem?_append_left, hlow, htags]
    exact (List.getElem?_eq_some_iff.1 htags).1
  · rw [take_length, hlow, ← length_byteTags text, getElem?_append_right le_rfl, Nat.sub_self]
    rw [← hlow, getD_map_length, take_length]
    rfl

theorem bytes_take_len (text : Text) (s : Nat) :
    (Str.bytes text).take (Str.len (text.take s)) = Str.bytes (text.take s) := by
  have hsplit : Str.bytes text = Str.bytes (text.take s) ++ Str.bytes (text.drop s) := by
    rw [← Utf8.bytes_append, take_append_drop]
  rw [hsplit]
  exact take_left

theorem openBefore_iff (text : Text) (s : Nat) :
    OpenBefore (Str.bytes text) (Str.len (text.take s)) ↔ isInsideBrackets text s = true := by
  have hop (t : Text) : 91 ∈ Str.bytes t ↔ '[' ∈ t := Utf8.mem_bytes_iff (by decide) rfl
  have hcl (t : Text) : 93 ∈ Str.bytes t ↔ ']' ∈ t := Utf8.mem_bytes_iff (by decide) rfl
  rw [isInsideBrackets_iff, OpenBefore, bytes_take_len]
  constructor
  · rintro ⟨x, y, hsplit, hopen, hclose⟩
    obtain ⟨a, c, b, ht, -, hc, rfl⟩ := Utf8.bytes_split (by decide) hsplit
    obtain rfl : c = '[' := Char.toNat_inj.1 hc
    exact ⟨a, b, ht, mt (hop b).2 hopen, mt (hcl b).2 hclose⟩
  · rintro ⟨a, b, ht, hopen, hclose⟩
    refine ⟨Str.bytes a, Str.bytes b, ?_, mt (hop b).1 hopen, mt (hcl b).1 hclose⟩
    rw [ht, Utf8.bytes_append]
    rfl

theorem insideBracketsAt_take (text : Text) (s : Nat) :
    insideBracketsAt (Str.bytes text) (Str.len (text.take s)) =
      some (isInsideBrackets text s) := by
  obtain ⟨inside, hinside, hiff⟩ := insideBracketsAt_eq (Utf8.isBoundary_take text s).le_len
  rw [hinside]
  exact congrArg some (Bool.eq_iff_iff.2 (hiff.trans (openBefore_iff text s)))

variable {output : OutputDictionary}

theorem projected_inBytes {m : OutputMatch}
    (h : m.position + m.length ≤ (lowerWithByteMap U text).1.length) :
    projected (lowerBytes U text).2 (m.inBytes (lowerWithByteMap U text).1) =
      some (Str.len (text.take ((lowerWithByteMap U text).2.getD m.position 0)),
        Str.len (text.take ((lowerWithByteMap U text).2.getD (m.position + m.length) 0))) := by
  have hend : Str.len ((lowerWithByteMap U text).1.take m.position) +
      Str.len (((lowerWithByteMap U text).1.drop m.position).take m.length) =
      Str.len ((lowerWithByteMap U text).1.take (m.position + m.length)) := by
    rw [← Utf8.len_append, ← take_add]
  unfold projected OutputMatch.inBytes
  rw [hend, getElem?_byteMap (by omega), getElem?_byteMap h]
  rfl

theorem mask_eq_masked (spans : List (Nat × Nat)) {a t : Text} (htext : text = a ++ t) :
    ByteMask.mask spans (Str.len a) t = masked ((t.zipIdx a.length).map fun (c, i) =>
      (c, decide (ByteMask.Covered spans (Str.len (text.take i))))) := by
  induction t generalizing a with
  | nil => rfl
  | cons c t ih =>
    have hrest := ih (a := a ++ [c]) (htext.trans (by simp))
    have htake : text.take a.length = a := by rw [htext, take_left]
    rw [ByteMask.mask, ← Utf8.len_snoc, hrest, zipIdx_cons, map_cons, masked_cons]
    dsimp only
    rw [htake]
    by_cases hcov : ByteMask.Covered spans (Str.len a)
    · simp [hcov, maskChar]
    · simp [hcov, maskChar]

def foundBytes (U : Unicode) (output : OutputDictionary) (text : Text) : List OutputMatch :=
  (output.scan (lowerWithByteMap U text).1).map (OutputMatch.inBytes (lowerWithByteMap U text).1)

theorem inRange_foundBytes (text : Text) : InRange U text (foundBytes U output text) := by
  intro m' hm'
  obtain ⟨m, -, rfl⟩ := mem_map.1 hm'
  have hlow : (lowerBytes U text).1 = (lowerWithByteMap U text).1 := by
    rw [lowerBytes_eq]
    rfl
  rw [hlow, OutputMatch.inBytes, ← Utf8.len_append, ← take_add]
  exact (Utf8.isBoundary_take _ _).le_len

theorem covered_foundBytes_iff {i : Nat} (hi : i < text.length) :
    ByteMask.Covered (maskedRanges (Str.bytes text) (lowerBytes U text).2
        (foundBytes U output text)) (Str.len (text.take i)) ↔
      ∃ span ∈ maskedSpans U output text, span.1 ≤ i ∧ i < span.2 := by
  have hrange (s e : Nat) : (Str.len (text.take s) ≤ Str.len (text.take i) ∧
      Str.len (text.take i) < Str.len (text.take e)) ↔ s ≤ i ∧ i < e := by
    rw [Utf8.len_take_le_iff hi, ← Nat.not_le, Utf8.len_take_le_iff hi, Nat.not_le]
  constructor
  · rintro ⟨span, hspan, hstart, hstop⟩
    obtain ⟨m', hm', hproj, hinside⟩ := mem_maskedRanges.1 hspan
    obtain ⟨m, hm, rfl⟩ := mem_map.1 hm'
    rw [projected_inBytes (output.within hm), Option.some.injEq] at hproj
    subst hproj
    rw [insideBracketsAt_take, Option.some.injEq] at hinside
    exact ⟨_, mem_maskedSpans.2 ⟨m, hm, rfl, hinside⟩, (hrange _ _).1 ⟨hstart, hstop⟩⟩
  · rintro ⟨span, hspan, hcov⟩
    obtain ⟨m, hm, rfl, hinside⟩ := mem_maskedSpans.1 hspan
    refine ⟨_, mem_maskedRanges.2 ⟨_, mem_map.2 ⟨m, hm, rfl⟩,
      projected_inBytes (output.within hm), ?_⟩, (hrange _ _).2 hcov⟩
    rw [insideBracketsAt_take, hinside]

/-- **The filter on bytes is the filter on characters** for what the dictionary finds. -/
theorem filterMatches_eq_filterOutput (replaced : List UInt8 → Text) :
    filterMatches replaced U text (foundBytes U output text) = some (filterOutput U output text) := by
  have hmask := mask_eq_masked (maskedRanges (Str.bytes text) (lowerBytes U text).2
    (foundBytes U output text)) (a := []) (t := text) rfl
  rw [filterMatches_eq replaced (inRange_foundBytes text), filterOutput_eq]
  refine congrArg some (hmask.trans (congrArg masked (map_congr_left ?_)))
  rintro ⟨c, i⟩ hx
  have hi : i < text.length :=
    (List.getElem?_eq_some_iff.1 (mk_mem_zipIdx_iff_getElem?.1 hx)).1
  refine congrArg (Prod.mk c) (Bool.eq_iff_iff.2 ?_)
  rw [decide_eq_true_iff, nil_append, covered_foundBytes_iff hi]
  simp

end

end Nanoguard.Matcher

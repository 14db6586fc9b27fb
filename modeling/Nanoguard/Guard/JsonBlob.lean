import Nanoguard.Guard.Schema
import Nanoguard.Lib.Utf8

/-!
# Taking JSON out of an answer

`extractJsonBlobAt` is the extraction with the byte positions and slices of the source; a slice out
of range or inside of a character panics, here `none`. It never does (`extractJsonBlobAt_eq`). Prose
around an object or an array is stripped, and a fence around a body.
-/

namespace Nanoguard.Guard

open List

variable {t a after : Text} {i : Nat} {c : Char} {p : Char → Bool}

def isOpen (c : Char) : Bool := c == '\x7b' || c == '['

def isClose (c : Char) : Bool := c == '\x7d' || c == ']'

/-- The body in fences; the inner `none` stands for no fences, the outer one for a panic. -/
def fencedBodyAt (trimmed : Text) : Option (Option Text) :=
  match Str.stripPrefix "```".toList trimmed with
  | none => some none
  | some rest => do
    let bodyStart := ((Utf8.find (· == '\n') rest).map (· + 1)).getD 0
    let body ← Utf8.sliceFrom rest bodyStart
    match Utf8.rfindStr "```".toList body with
    | some stop => do
      let inner ← Utf8.sliceTo body stop
      return some (Str.trim inner)
    | none => return none

def extractJsonBlobAt (raw : Text) : Option Text := do
  let trimmed := Str.trim raw
  match ← fencedBodyAt trimmed with
  | some body => return body
  | none =>
    match Utf8.find isOpen trimmed, Utf8.rfind isClose trimmed with
    | some start, some stop =>
      if start < stop then do
        let upTo ← Utf8.sliceTo trimmed (stop + 1)
        Utf8.sliceFrom upTo start
      else return trimmed
    | _, _ => return trimmed

/-! ## The parts of the extraction on characters -/

/-- What follows the line of the opening fence. -/
def behindTag (rest : Text) : Text :=
  match rest.findIdx? (· == '\n') with
  | some n => rest.drop (n + 1)
  | none => rest

/-- From the first opening bracket or brace to the last closing one. -/
def bracketed (trimmed : Text) : Text :=
  match trimmed.findIdx? isOpen, trimmed.reverse.findIdx? isClose with
  | some start, some fromEnd =>
    if start < trimmed.length - 1 - fromEnd then
      (trimmed.take (trimmed.length - 1 - fromEnd + 1)).drop start
    else trimmed
  | _, _ => trimmed

theorem fencedBody_eq (trimmed : Text) :
    fencedBody trimmed = (Str.stripPrefix "```".toList trimmed).bind fun rest =>
      (Str.rfind "```".toList (behindTag rest)).map fun stop =>
        Str.trim ((behindTag rest).take stop) := by
  unfold fencedBody
  cases Str.stripPrefix "```".toList trimmed with
  | none => rfl
  | some rest =>
    rw [Option.bind_some, Option.map_eq_bind]
    rfl

theorem extractJsonBlob_eq (raw : Text) :
    extractJsonBlob raw = (fencedBody (Str.trim raw)).getD (bracketed (Str.trim raw)) := by
  unfold extractJsonBlob
  dsimp only
  cases fencedBody (Str.trim raw) <;> rfl

/-! ## Positions -/

theorem sliceFrom_take (t : Text) (i : Nat) :
    Utf8.sliceFrom t (Str.len (t.take i)) = some (t.drop i) := by
  have h := Utf8.sliceFrom_len (t.take i) (t.drop i)
  rwa [take_append_drop] at h

theorem sliceTo_take (t : Text) (i : Nat) :
    Utf8.sliceTo t (Str.len (t.take i)) = some (t.take i) := by
  have h := Utf8.sliceTo_len (t.take i) (t.drop i)
  rwa [take_append_drop] at h

theorem len_take_succ (hc : t[i]? = some c) (hsize : c.utf8Size = 1) :
    Str.len (t.take i) + 1 = Str.len (t.take (i + 1)) := by
  rw [take_add_one, hc, Utf8.len_append, Option.toList_some, Utf8.len_cons, hsize]
  rfl

theorem getElem?_of_findIdx? (h : t.findIdx? p = some i) : ∃ c, t[i]? = some c ∧ p c = true := by
  obtain ⟨hi, hp, -⟩ := findIdx?_eq_some_iff_getElem.1 h
  exact ⟨t[i], getElem?_eq_getElem hi, hp⟩

theorem sliceFrom_behindTag (rest : Text) :
    Utf8.sliceFrom rest (((Utf8.find (· == '\n') rest).map (· + 1)).getD 0) =
      some (behindTag rest) := by
  unfold Utf8.find behindTag
  cases hfind : rest.findIdx? (· == '\n') with
  | none =>
    cases rest with
    | nil => rfl
    | cons c rest => rfl
  | some n =>
    obtain ⟨c, hc, hnl⟩ := getElem?_of_findIdx? hfind
    obtain rfl : c = '\n' := eq_of_beq hnl
    have hlen := len_take_succ hc (by decide)
    simp only [Option.map_some, hlen]
    exact sliceFrom_take rest (n + 1)

theorem fencedBodyAt_eq (trimmed : Text) : fencedBodyAt trimmed = some (fencedBody trimmed) := by
  rw [fencedBody_eq, fencedBodyAt]
  cases Str.stripPrefix "```".toList trimmed with
  | none => rfl
  | some rest =>
    simp only [sliceFrom_behindTag, Utf8.rfindStr, Option.bind_eq_bind, Option.bind_some]
    cases Str.rfind "```".toList (behindTag rest) with
    | none => rfl
    | some stop =>
      simp only [Option.map_some, sliceTo_take]
      rfl

theorem getElem?_of_reverse_findIdx? (h : t.reverse.findIdx? p = some i) :
    i < t.length ∧ ∃ c, t[t.length - 1 - i]? = some c ∧ p c = true := by
  obtain ⟨hi, hp, -⟩ := findIdx?_eq_some_iff_getElem.1 h
  have hlt : i < t.length := by simpa using hi
  rw [getElem_reverse] at hp
  exact ⟨hlt, _, getElem?_eq_getElem (by omega), hp⟩

/-- **The extraction does not panic**, and computes the one on characters. -/
theorem extractJsonBlobAt_eq (raw : Text) : extractJsonBlobAt raw = some (extractJsonBlob raw) := by
  rw [extractJsonBlob_eq]
  unfold extractJsonBlobAt bracketed
  simp only [fencedBodyAt_eq]
  generalize Str.trim raw = trimmed
  cases fencedBody trimmed with
  | some body => rfl
  | none =>
    simp only [Utf8.find, Utf8.rfind]
    cases hstart : trimmed.findIdx? isOpen with
    | none => rfl
    | some start =>
      cases hstop : trimmed.reverse.findIdx? isClose with
      | none => rfl
      | some fromEnd =>
        obtain ⟨hlt, c, hc, hclose⟩ := getElem?_of_reverse_findIdx? hstop
        have hsize : c.utf8Size = 1 := by
          rcases Bool.or_eq_true_iff.1 hclose with h | h
          · rw [eq_of_beq h]
            rfl
          · rw [eq_of_beq h]
            rfl
        have hlen := len_take_succ hc hsize
        have hiff : Str.len (trimmed.take start) <
            Str.len (trimmed.take (trimmed.length - 1 - fromEnd)) ↔
            start < trimmed.length - 1 - fromEnd := by
          obtain ⟨hslt, -⟩ := findIdx?_eq_some_iff_getElem.1 hstart
          rw [← Nat.not_le, Utf8.len_take_le_iff hslt, Nat.not_le]
        simp only [Option.map_some, hiff, hlen, sliceTo_take]
        split
        · have hinner := sliceFrom_take (trimmed.take (trimmed.length - 1 - fromEnd + 1)) start
          rwa [take_take, Nat.min_eq_left (by omega)] at hinner
        · rfl

/-! ## What is cut -/

/-- An opening bracket or brace comes before a closing one. -/
def Cut (t : Text) : Prop :=
  ∃ (i j : Nat) (o c : Char), i < j ∧ t[i]? = some o ∧ isOpen o = true ∧
    t[j]? = some c ∧ isClose c = true

theorem bracketed_of_not_cut (h : ¬ Cut t) : bracketed t = t := by
  unfold bracketed
  cases hstart : t.findIdx? isOpen with
  | none => rfl
  | some start =>
    cases hstop : t.reverse.findIdx? isClose with
    | none => rfl
    | some fromEnd =>
      obtain ⟨o, ho, hopen⟩ := getElem?_of_findIdx? hstart
      obtain ⟨-, c, hc, hclose⟩ := getElem?_of_reverse_findIdx? hstop
      exact if_neg fun hlt => h ⟨_, _, o, c, hlt, ho, hopen, hc, hclose⟩

theorem bracketed_of_cut (h : Cut t) : ∃ o u, bracketed t = o :: u ∧ isOpen o = true := by
  obtain ⟨i, j, o, c, hij, ho, hopen, hc, hclose⟩ := h
  obtain ⟨hi, rfl⟩ := List.getElem?_eq_some_iff.1 ho
  obtain ⟨hj, rfl⟩ := List.getElem?_eq_some_iff.1 hc
  obtain ⟨start, hstart⟩ : ∃ start, t.findIdx? isOpen = some start := by
    cases hfind : t.findIdx? isOpen with
    | none =>
      have := findIdx?_eq_none_iff.1 hfind _ (getElem_mem hi)
      rw [hopen] at this
      cases this
    | some start => exact ⟨start, rfl⟩
  obtain ⟨fromEnd, hstop⟩ : ∃ fromEnd, t.reverse.findIdx? isClose = some fromEnd := by
    cases hfind : t.reverse.findIdx? isClose with
    | none =>
      have := findIdx?_eq_none_iff.1 hfind _ (mem_reverse.2 (getElem_mem hj))
      rw [hclose] at this
      cases this
    | some fromEnd => exact ⟨fromEnd, rfl⟩
  obtain ⟨hslt, hso, hfirst⟩ := findIdx?_eq_some_iff_getElem.1 hstart
  obtain ⟨helt, -, hlast⟩ := findIdx?_eq_some_iff_getElem.1 hstop
  -- the first opening one is not behind `i`, the last closing one not before `j`
  have hle : start ≤ i := by
    by_contra hlt
    exact hfirst i (by omega) hopen
  have hge : fromEnd ≤ t.length - 1 - j := by
    by_contra hlt
    have hnot := hlast (t.length - 1 - j) (by omega)
    rw [getElem_reverse] at hnot
    have hidx : t.length - 1 - (t.length - 1 - j) = j := by omega
    simp only [hidx] at hnot
    exact hnot hclose
  have hlt : start < t.length - 1 - fromEnd := by omega
  unfold bracketed
  rw [hstart, hstop]
  refine ⟨t[start], (t.take (t.length - 1 - fromEnd + 1)).drop (start + 1), ?_, hso⟩
  dsimp only
  rw [if_pos hlt, drop_eq_getElem_cons (by rw [length_take]; omega), getElem_take]

/-! ## Wrappers -/

def Prose (t : Text) : Prop := ∀ c ∈ t, isOpen c = false ∧ isClose c = false

instance (t : Text) : Decidable (Prose t) :=
  List.decidableBAll (fun c => isOpen c = false ∧ isClose c = false) t

/-- The text of an object or an array: it starts with an opening bracket or brace and ends with a
closing one. -/
def Bracketed (t : Text) : Prop :=
  ∃ o mid c, t = o :: (mid ++ [c]) ∧ isOpen o = true ∧ isClose c = true

theorem not_whitespace_of_bracket (h : isOpen c = true ∨ isClose c = true) :
    Str.isWhitespace c = false ∧ c ≠ '\x60' := by
  unfold isOpen isClose at h
  rw [Bool.or_eq_true, Bool.or_eq_true] at h
  rcases h with (h | h) | (h | h) <;> rw [eq_of_beq h] <;> decide

theorem Bracketed.tight (h : Bracketed t) : Str.Tight t := by
  obtain ⟨o, mid, c, rfl, ho, hc⟩ := h
  exact ⟨⟨o, mid ++ [c], rfl, (not_whitespace_of_bracket (.inl ho)).1⟩,
    ⟨o :: mid, c, rfl, (not_whitespace_of_bracket (.inr hc)).1⟩⟩

theorem findIdx?_append_cons {u : Text} (ha : ∀ x ∈ a, p x = false) (hc : p c = true) :
    (a ++ c :: u).findIdx? p = some a.length := by
  rw [findIdx?_append, findIdx?_eq_none_iff.2 ha, findIdx?_cons, if_pos hc]
  simp

theorem bracketed_append {b : Text} (ha : Prose a) (hb : Prose b) (ht : Bracketed t) :
    bracketed (a ++ (t ++ b)) = t := by
  obtain ⟨o, mid, c, hocc, ho, hc⟩ := ht
  have hstart : (a ++ (t ++ b)).findIdx? isOpen = some a.length := by
    rw [hocc]
    exact findIdx?_append_cons (fun x hx => (ha x hx).1) ho
  have hstop : (a ++ (t ++ b)).reverse.findIdx? isClose = some b.length := by
    have hrev : (a ++ (t ++ b)).reverse = b.reverse ++ c :: ((o :: mid).reverse ++ a.reverse) := by
      simp [hocc]
    rw [hrev, ← length_reverse]
    exact findIdx?_append_cons (fun x hx => (hb x (mem_reverse.1 hx)).2) hc
  have hlen : t.length = mid.length + 2 := by simp [hocc]
  have hlast : (a ++ (t ++ b)).length - 1 - b.length = a.length + (t.length - 1) := by
    simp only [length_append]
    omega
  unfold bracketed
  rw [hstart, hstop]
  dsimp only
  rw [hlast, if_pos (by omega)]
  have htake : a.length + (t.length - 1) + 1 = a.length + t.length := by omega
  rw [htake, ← append_assoc, take_append_of_le_length (by simp),
    take_of_length_le (by simp), drop_left]

theorem fencedBody_of_not_prefix (h : ¬ "```".toList <+: t) : fencedBody t = none := by
  rw [fencedBody_eq, Str.stripPrefix, if_neg h]
  rfl

theorem not_fence_append (ha : ¬ "```".toList <+: a) (ht : Bracketed t) (b : Text) :
    ¬ "```".toList <+: a ++ (t ++ b) := by
  rintro ⟨r, hr⟩
  rcases Fence.cut_cases hr with ⟨d, rfl, -⟩ | ⟨x, d, hfence, hd⟩
  · exact ha (prefix_append _ _)
  obtain ⟨o, mid, c, rfl, ho, -⟩ := ht
  obtain rfl : o = x := by simpa using (List.cons.inj hd).1
  have hmem : o ∈ "```".toList := hfence ▸ mem_append_right _ mem_cons_self
  have hall : "```".toList.all (· == '\x60') = true := rfl
  exact (not_whitespace_of_bracket (.inl ho)).2 (eq_of_beq (all_eq_true.1 hall o hmem))

/-- **Prose around an object or an array is stripped.** -/
theorem extractJsonBlob_prose {before : Text} (hbefore : Prose before) (hafter : Prose after)
    (ht : Bracketed t) (hfence : ¬ "```".toList <+: Str.trimStart before) :
    extractJsonBlob (before ++ (t ++ after)) = t := by
  have hsub : Prose (Str.trimStart before) := fun c hc =>
    hbefore c (dropWhile_subset _ hc)
  have hsub' : Prose (Str.trimEnd after) := fun c hc =>
    hafter c ((Str.trimEnd_isPrefix after).subset hc)
  have hnot := not_fence_append hfence ht (Str.trimEnd after)
  rw [extractJsonBlob_eq, Str.trim_append ht.tight, fencedBody_of_not_prefix hnot,
    Option.getD_none, bracketed_append hsub hsub' ht]

theorem rfind_fence {body : Text} (hafter : '\x60' ∉ after) :
    Str.rfind "```".toList (body ++ ("```".toList ++ after)) = some body.length := by
  refine Str.rfind_eq_some (by simp) (by rw [drop_left]; exact prefix_append _ _) ?_
  rintro j hj ⟨r, hr⟩
  -- an occurrence further on would end with a backtick of the rest
  have hget : (body ++ ("```".toList ++ after))[j + 2]? = some '\x60' := by
    rw [← getElem?_drop, ← hr]
    rfl
  rw [← append_assoc, getElem?_append_right (by simp; omega)] at hget
  exact hafter (mem_of_getElem? hget)

theorem extractJsonBlob_fence {tag body : Text} (htag : '\n' ∉ tag) (hafter : '\x60' ∉ after) :
    extractJsonBlob ("```".toList ++ (tag ++ '\n' :: (body ++ ("```".toList ++ after)))) =
      Str.trim body := by
  have htight : Str.Tight ("```".toList ++ (tag ++ '\n' :: (body ++ "```".toList))) :=
    ⟨⟨'\x60', _, rfl, by decide⟩,
      ⟨"```".toList ++ (tag ++ '\n' :: (body ++ "``".toList)), '\x60', by simp, by decide⟩⟩
  have htrim := Str.trim_append htight [] after
  have hbody : behindTag (tag ++ '\n' :: (body ++ ("```".toList ++ Str.trimEnd after))) =
      body ++ ("```".toList ++ Str.trimEnd after) := by
    have hline : ∀ c ∈ tag, (c == '\n') = false := by
      intro c hc
      rw [beq_eq_false_iff_ne]
      rintro rfl
      exact htag hc
    unfold behindTag
    rw [findIdx?_append_cons hline rfl]
    dsimp only
    rw [← singleton_append, ← append_assoc, drop_left' (by simp)]
  have hrest : '\x60' ∉ Str.trimEnd after := fun hmem =>
    hafter ((Str.trimEnd_isPrefix after).subset hmem)
  have hstrip : fencedBody ("```".toList ++
      (tag ++ '\n' :: (body ++ ("```".toList ++ Str.trimEnd after)))) = some (Str.trim body) := by
    rw [fencedBody_eq, Str.stripPrefix, if_pos (prefix_append _ _), drop_left,
      Option.bind_some, hbody, rfind_fence hrest, Option.map_some, take_left]
  have hraw : Str.trim ("```".toList ++ (tag ++ '\n' :: (body ++ ("```".toList ++ after)))) =
      "```".toList ++ (tag ++ '\n' :: (body ++ ("```".toList ++ Str.trimEnd after))) := by
    simpa [Str.trimStart] using htrim
  rw [extractJsonBlob_eq, hraw, hstrip, Option.getD_some]

theorem fence_trim (h : "```".toList <+: Str.trimStart t) : "```".toList <+: Str.trim t := by
  obtain ⟨r, hr⟩ := h
  have hend := Str.trimEnd_append_cons (c := '\x60') (by decide) "``".toList r
  rw [Str.trim, ← hr]
  exact ⟨Str.trimEnd r, hend.symm⟩

/-- **Wrappers are stripped exactly**, and no text makes the extraction panic. -/
theorem extracts_wrapped :
    (∀ before t after, Prose before → Prose after → Bracketed t →
      ¬ "```".toList <+: Str.trim before →
      extractJsonBlobAt (before ++ (t ++ after)) = some t) ∧
    (∀ tag body after, '\n' ∉ tag → ¬ "```".toList <:+: body → '\x60' ∉ after →
      extractJsonBlobAt ("```".toList ++ (tag ++ '\n' :: (body ++ ("```".toList ++ after)))) =
        some (Str.trim body)) ∧
    ∀ raw, ∃ blob, extractJsonBlobAt raw = some blob := by
  refine ⟨?_, ?_, fun raw => ⟨_, extractJsonBlobAt_eq raw⟩⟩
  · intro before t after hbefore hafter ht hfence
    rw [extractJsonBlobAt_eq, extractJsonBlob_prose hbefore hafter ht]
    exact mt fence_trim hfence
  · intro tag body after htag _ hafter
    rw [extractJsonBlobAt_eq, extractJsonBlob_fence htag hafter]

theorem extracts_wrapped_object :
    extractJsonBlobAt "Sure: \x7b\x7d Bye".toList = some "\x7b\x7d".toList ∧
      extractJsonBlobAt "```json\n 1\n``` Bye".toList = some "1".toList :=
  ⟨extracts_wrapped.1 "Sure: ".toList "\x7b\x7d".toList " Bye".toList (by decide) (by decide)
      ⟨'\x7b', [], '\x7d', rfl, by decide, by decide⟩ (by decide),
    extracts_wrapped.2.1 "json".toList " 1\n".toList " Bye".toList (by decide) (by decide)
      (by decide)⟩

end Nanoguard.Guard

import Nanoguard.Lib.Utf8

/-!
# Overwriting ranges of an encoded text

A buffer of bytes is overwritten range by range (`fill`). If the buffer is an encoded text and the
ranges start and end at character boundaries, an asterisk for every byte leaves the encoding of a
text (`bytes_mask`).
-/

namespace Nanoguard.ByteMask

open List

variable {b : UInt8} {buf : List UInt8} {span : Nat × Nat} {spans : List (Nat × Nat)} {i : Nat}

/-- `buf[start..end].fill(b)`. A range out of order or behind the end of the buffer panics. -/
def fill (b : UInt8) (buf : List UInt8) (span : Nat × Nat) : Option (List UInt8) :=
  if span.1 ≤ span.2 ∧ span.2 ≤ buf.length then
    some (buf.take span.1 ++ (List.replicate (span.2 - span.1) b ++ buf.drop span.2))
  else none

def Covered (spans : List (Nat × Nat)) (i : Nat) : Prop := ∃ span ∈ spans, span.1 ≤ i ∧ i < span.2

instance (spans : List (Nat × Nat)) (i : Nat) : Decidable (Covered spans i) :=
  inferInstanceAs (Decidable (∃ span ∈ spans, span.1 ≤ i ∧ i < span.2))

/-- The buffer with `b` at the positions that are covered. -/
def painted (b : UInt8) (spans : List (Nat × Nat)) (buf : List UInt8) : List UInt8 :=
  buf.mapIdx fun i x => if Covered spans i then b else x

theorem covered_cons : Covered (span :: spans) i ↔ (span.1 ≤ i ∧ i < span.2) ∨ Covered spans i := by
  simp [Covered]

theorem not_covered_nil : ¬ Covered [] i := by
  simp [Covered]

theorem length_painted (b : UInt8) (spans : List (Nat × Nat)) (buf : List UInt8) :
    (painted b spans buf).length = buf.length :=
  length_mapIdx

theorem getElem?_painted (b : UInt8) (spans : List (Nat × Nat)) (buf : List UInt8) (i : Nat) :
    (painted b spans buf)[i]? = buf[i]?.map fun x => if Covered spans i then b else x :=
  getElem?_mapIdx

theorem painted_nil (b : UInt8) (buf : List UInt8) : painted b [] buf = buf := by
  refine ext_getElem? fun i => ?_
  rw [getElem?_painted]
  exact Option.map_id'

theorem fill_eq (hle : span.1 ≤ span.2) (hlen : span.2 ≤ buf.length) :
    fill b buf span = some (painted b [span] buf) := by
  rw [fill, if_pos ⟨hle, hlen⟩]
  refine congrArg some (ext_getElem? fun i => ?_)
  have hcov : Covered [span] i ↔ span.1 ≤ i ∧ i < span.2 := by simp [Covered]
  simp only [getElem?_painted, hcov]
  have htake : (buf.take span.1).length = span.1 := by
    rw [length_take]
    omega
  -- in front of the range, within it, behind it
  rcases Nat.lt_or_ge i span.1 with hi | hi
  · rw [getElem?_append_left (by omega), getElem?_take_of_lt hi]
    have hout : ¬ (span.1 ≤ i ∧ i < span.2) := by omega
    simp only [if_neg hout]
    exact Option.map_id'.symm
  rw [getElem?_append_right (by omega), htake]
  rcases Nat.lt_or_ge i span.2 with hi' | hi'
  · rw [getElem?_append_left (by rw [length_replicate]; omega),
      getElem?_replicate_of_lt (by omega), getElem?_eq_getElem (by omega)]
    exact congrArg some (if_pos ⟨hi, hi'⟩).symm
  rw [getElem?_append_right (by rw [length_replicate]; omega), length_replicate, getElem?_drop]
  have hout : ¬ (span.1 ≤ i ∧ i < span.2) := by omega
  have hidx : span.2 + (i - span.1 - (span.2 - span.1)) = i := by omega
  simp only [if_neg hout, hidx]
  exact Option.map_id'.symm

theorem painted_painted (b : UInt8) (span : Nat × Nat) (spans : List (Nat × Nat))
    (buf : List UInt8) : painted b spans (painted b [span] buf) = painted b (span :: spans) buf := by
  refine ext_getElem? fun i => ?_
  rw [getElem?_painted, getElem?_painted, getElem?_painted, Option.map_map]
  refine congrArg (fun f => buf[i]?.map f) (funext fun x => ?_)
  have hone : Covered [span] i ↔ span.1 ≤ i ∧ i < span.2 := by simp [Covered]
  by_cases hspans : Covered spans i
  · simp [hspans, covered_cons]
  · by_cases hspan : span.1 ≤ i ∧ i < span.2
    · simp [hspan, covered_cons]
    · simp [hspans, hone, covered_cons]

theorem foldlM_fill (h : ∀ span ∈ spans, span.1 ≤ span.2 ∧ span.2 ≤ buf.length) :
    spans.foldlM (fill b) buf = some (painted b spans buf) := by
  induction spans generalizing buf with
  | nil => rw [painted_nil]; rfl
  | cons span spans ih =>
    obtain ⟨hle, hlen⟩ := h span mem_cons_self
    rw [foldlM_cons, fill_eq hle hlen, Option.bind_eq_bind, Option.bind_some, ih, painted_painted]
    intro span' hmem
    rw [length_painted]
    exact h span' (mem_cons_of_mem _ hmem)

/-! ## Character boundaries -/

/-- The text with an asterisk for every byte of a character whose first byte is covered. The first
character stands at the position `off`. -/
def mask (spans : List (Nat × Nat)) : Nat → Text → Text
  | _, [] => []
  | off, c :: t =>
    (if Covered spans off then List.replicate c.utf8Size '*' else [c]) ++
      mask spans (off + c.utf8Size) t

theorem bytes_stars (n : Nat) : Str.bytes (List.replicate n '*') = List.replicate n 42 := by
  induction n with
  | zero => rfl
  | succ n ih =>
    rw [replicate_succ, Utf8.bytes_cons, ih]
    rfl

theorem covered_within {t a u : Text} {c : Char} {k : Nat}
    (h : ∀ span ∈ spans, Utf8.IsBoundary t span.1 ∧ Utf8.IsBoundary t span.2)
    (ht : t = a ++ c :: u) (hk : k < c.utf8Size) :
    Covered spans (Str.len a + k) ↔ Covered spans (Str.len a) := by
  refine exists_congr fun span => and_congr_right fun hspan => ?_
  have hstart := (h span hspan).1.not_inside ht
  have hend := (h span hspan).2.not_inside ht
  omega

theorem bytes_mask_append {a t : Text}
    (h : ∀ span ∈ spans, Utf8.IsBoundary (a ++ t) span.1 ∧ Utf8.IsBoundary (a ++ t) span.2) :
    Str.bytes (mask spans (Str.len a) t) =
      (Str.bytes t).mapIdx fun i x => if Covered spans (Str.len a + i) then 42 else x := by
  induction t generalizing a with
  | nil => rfl
  | cons c t ih =>
    have hsplit : a ++ c :: t = (a ++ [c]) ++ t := by simp
    have hrest := ih (a := a ++ [c]) (hsplit ▸ h)
    rw [Utf8.len_snoc] at hrest
    have hchar : Str.bytes (if Covered spans (Str.len a) then List.replicate c.utf8Size '*' else [c])
        = (String.utf8EncodeChar c).mapIdx
          fun i x => if Covered spans (Str.len a + i) then 42 else x := by
      refine ext_getElem? fun k => ?_
      rw [getElem?_mapIdx]
      rcases Nat.lt_or_ge k c.utf8Size with hk | hk
      · simp only [covered_within h rfl hk]
        split
        · rw [bytes_stars, getElem?_replicate_of_lt hk, getElem?_eq_getElem
            (by rw [String.length_utf8EncodeChar]; exact hk)]
          rfl
        · rw [Utf8.bytes_cons, Utf8.bytes_nil, append_nil, Option.map_id']
      rw [getElem?_eq_none, getElem?_eq_none]
      · rfl
      · rw [String.length_utf8EncodeChar]
        exact hk
      split
      · rw [bytes_stars, length_replicate]
        exact hk
      · rw [Utf8.bytes_cons, Utf8.bytes_nil, append_nil, String.length_utf8EncodeChar]
        exact hk
    rw [mask, Utf8.bytes_append, hrest, hchar, Utf8.bytes_cons, mapIdx_append,
      String.length_utf8EncodeChar]
    simp only [Nat.add_assoc, Nat.add_comm]

/-- **Ranges between boundaries leave an encoded text.** -/
theorem bytes_mask {t : Text}
    (h : ∀ span ∈ spans, Utf8.IsBoundary t span.1 ∧ Utf8.IsBoundary t span.2) :
    Str.bytes (mask spans 0 t) = painted 42 spans (Str.bytes t) := by
  have hmask := bytes_mask_append (a := []) (t := t) h
  simpa [painted, Str.len] using hmask

end Nanoguard.ByteMask

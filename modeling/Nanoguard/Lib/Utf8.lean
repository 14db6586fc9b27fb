import Nanoguard.Lib.RustStr

/-!
# UTF-8

`decode` is the strict decoder of the core library on lists of bytes. An ASCII byte of an encoded text
is an ASCII character of the text, so cutting at such a byte cuts the text (`bytes_split`).
-/

namespace Nanoguard.Utf8

open List

variable {t u : Text} {c : Char} {i : Nat}

/-- The text that the bytes encode, if they are valid. -/
def decode (bs : List UInt8) : Option Text := bs.toByteArray.utf8Decode?.map Array.toList

theorem toByteArray_bytes (t : Text) : (Str.bytes t).toByteArray = t.utf8Encode := rfl

@[simp] theorem decode_bytes (t : Text) : decode (Str.bytes t) = some t := by
  unfold decode
  rw [toByteArray_bytes, utf8Decode?_utf8Encode]
  rfl

theorem decode_eq_some_iff {bs : List UInt8} : decode bs = some t ↔ Str.bytes t = bs := by
  constructor
  · intro h
    obtain ⟨cs, hcs, rfl⟩ := Option.map_eq_some_iff.1 h
    have hsome : bs.toByteArray.utf8Decode?.isSome = true := by
      rw [hcs]
      rfl
    have henc := ByteArray.utf8Encode_get_utf8Decode? (b := bs.toByteArray) (h := hsome)
    have hget : bs.toByteArray.utf8Decode?.get hsome = cs := Option.get_of_eq_some hsome hcs
    rw [hget, ← toByteArray_bytes] at henc
    have := congrArg (fun b => b.data.toList) henc
    simpa using this
  · intro h
    rw [← h, decode_bytes]

@[simp] theorem bytes_nil : Str.bytes [] = [] := rfl

theorem bytes_cons (c : Char) (t : Text) :
    Str.bytes (c :: t) = String.utf8EncodeChar c ++ Str.bytes t := rfl

@[simp] theorem bytes_append (t u : Text) : Str.bytes (t ++ u) = Str.bytes t ++ Str.bytes u :=
  flatMap_append

@[simp] theorem len_append (t u : Text) : Str.len (t ++ u) = Str.len t + Str.len u := by
  unfold Str.len
  rw [bytes_append, length_append]

theorem len_cons (c : Char) (t : Text) : Str.len (c :: t) = c.utf8Size + Str.len t := by
  unfold Str.len
  rw [bytes_cons, length_append, String.length_utf8EncodeChar]

theorem len_snoc (t : Text) (c : Char) : Str.len (t ++ [c]) = Str.len t + c.utf8Size := by
  rw [len_append, len_cons]
  rfl

theorem length_le_bytes (t : Text) : t.length ≤ (Str.bytes t).length := by
  induction t with
  | nil => exact Nat.le_refl 0
  | cons c t ih =>
    rw [bytes_cons, length_append, length_cons, String.length_utf8EncodeChar]
    have := c.utf8Size_pos
    omega

theorem utf8EncodeChar_of_lt (h : c.toNat < 128) :
    String.utf8EncodeChar c = [UInt8.ofNat c.toNat] := by
  exact if_pos (Nat.le_of_lt_succ h)

theorem utf8EncodeChar_ascii (c : Char) :
    (c.toNat < 128 ∧ String.utf8EncodeChar c = [UInt8.ofNat c.toNat]) ∨
      ∀ b ∈ String.utf8EncodeChar c, 128 ≤ b.toNat := by
  by_cases hc : c.val.toNat ≤ 127
  · exact .inl ⟨Nat.lt_succ_of_le hc, utf8EncodeChar_of_lt (Nat.lt_succ_of_le hc)⟩
  -- the lead byte is at least 192, every continuation byte at least 128
  unfold String.utf8EncodeChar
  simp only [if_neg hc]
  split_ifs
  all_goals
    simp only [forall_mem_cons, UInt8.toNat_ofNat', not_mem_nil, false_imp_iff, implies_true,
      and_true]
    omega

theorem bytes_split {x y : List UInt8} {b : UInt8} (hb : b.toNat < 128)
    (h : Str.bytes t = x ++ b :: y) :
    ∃ t₁ c t₂, t = t₁ ++ c :: t₂ ∧ Str.bytes t₁ = x ∧ c.toNat = b.toNat ∧ Str.bytes t₂ = y := by
  induction t generalizing x with
  | nil => simp at h
  | cons c t ih =>
    rw [bytes_cons] at h
    rcases append_eq_append_iff.1 h with ⟨x', rfl, hx⟩ | ⟨x', henc, hx⟩
    · obtain ⟨t₁, d, t₂, rfl, h₁, hd, h₂⟩ := ih hx
      exact ⟨c :: t₁, d, t₂, rfl, by rw [bytes_cons, h₁], hd, h₂⟩
    rcases cons_eq_append_iff.1 hx with ⟨rfl, hy⟩ | ⟨x'', rfl, hy⟩
    · -- the cut is after all of `c`
      obtain ⟨t₁, d, t₂, rfl, h₁, hd, h₂⟩ := ih (x := []) (by rw [hy, nil_append])
      refine ⟨c :: t₁, d, t₂, rfl, ?_, hd, h₂⟩
      rw [bytes_cons, h₁, henc, append_nil, append_nil]
    -- the cut byte belongs to `c`
    rcases utf8EncodeChar_ascii c with ⟨hc, henc'⟩ | hlarge
    · rw [henc'] at henc
      rcases append_eq_singleton_iff.1 henc.symm with ⟨rfl, hb'⟩ | ⟨-, hb'⟩
      · obtain ⟨rfl, rfl⟩ := List.cons.inj hb'
        refine ⟨[], c, t, rfl, rfl, ?_, by simpa using hy.symm⟩
        rw [UInt8.toNat_ofNat']
        omega
      · simp at hb'
    · have := hlarge b (by simp [henc])
      omega

theorem mem_bytes_iff {b : UInt8} (hb : b.toNat < 128) (hc : c.toNat = b.toNat) :
    b ∈ Str.bytes t ↔ c ∈ t := by
  constructor
  · intro hmem
    obtain ⟨x, y, hxy⟩ := append_of_mem hmem
    obtain ⟨t₁, d, t₂, rfl, -, hd, -⟩ := bytes_split hb hxy
    have heq : d = c := Char.toNat_inj.1 (hd.trans hc.symm)
    exact heq ▸ mem_append_right t₁ mem_cons_self
  · intro hmem
    refine mem_flatMap.2 ⟨c, hmem, ?_⟩
    rw [utf8EncodeChar_of_lt (hc ▸ hb), hc, UInt8.ofNat_toNat]
    exact mem_cons_self

/-! ## Encodings are prefix free -/

theorem utf8EncodeChar_append_inj {d : Char} {x y : List UInt8}
    (h : String.utf8EncodeChar c ++ x = String.utf8EncodeChar d ++ y) : c = d := by
  have hc := @ByteArray.utf8DecodeChar?_utf8EncodeChar_append x.toByteArray c
  have hd := @ByteArray.utf8DecodeChar?_utf8EncodeChar_append y.toByteArray d
  rw [← toByteArray_append] at hc hd
  rw [h, hd] at hc
  exact (Option.some.inj hc).symm

theorem bytes_prefix_iff : Str.bytes t <+: Str.bytes u ↔ t <+: u := by
  constructor
  · intro h
    induction t generalizing u with
    | nil => exact nil_prefix
    | cons c t ih =>
      obtain ⟨r, hr⟩ := h
      rw [bytes_cons, append_assoc] at hr
      cases u with
      | nil => exact absurd (append_eq_nil_iff.1 hr).1 String.utf8EncodeChar_ne_nil
      | cons d u =>
        obtain rfl := utf8EncodeChar_append_inj hr
        exact (prefix_cons_inj c).2 (ih ⟨r, append_cancel_left hr⟩)
  · rintro ⟨r, rfl⟩
    rw [bytes_append]
    exact prefix_append _ _

theorem bytes_injective (h : Str.bytes t = Str.bytes u) : t = u := by
  have hdecode := decode_bytes t
  rw [h, decode_bytes] at hdecode
  exact (Option.some.inj hdecode).symm

/-! ## ASCII -/

theorem bytes_ascii (h : ∀ c ∈ t, c.toNat < 128) :
    Str.bytes t = t.map fun c => UInt8.ofNat c.toNat := by
  induction t with
  | nil => rfl
  | cons c t ih =>
    rw [bytes_cons, ih (forall_mem_cons.1 h).2, utf8EncodeChar_of_lt (h c mem_cons_self)]
    rfl

theorem eq_of_ascii_bytes (h : ∀ b ∈ Str.bytes t, b.toNat < 128) :
    t = (Str.bytes t).map fun b => Char.ofNat b.toNat := by
  have hascii : ∀ c ∈ t, c.toNat < 128 := by
    intro c hc
    rcases utf8EncodeChar_ascii c with ⟨hlt, -⟩ | hlarge
    · exact hlt
    obtain ⟨b, bs, hbs⟩ := exists_cons_of_ne_nil (String.utf8EncodeChar_ne_nil (c := c))
    have hb : b ∈ String.utf8EncodeChar c := hbs ▸ mem_cons_self
    have hlt := h b (mem_flatMap.2 ⟨c, hc, hb⟩)
    have hge := hlarge b hb
    omega
  rw [bytes_ascii hascii, map_map]
  refine (map_id t).symm.trans (map_congr_left fun c hc => ?_)
  have hmod : (UInt8.ofNat c.toNat).toNat = c.toNat := by
    rw [UInt8.toNat_ofNat', Nat.mod_eq_of_lt (Nat.lt_trans (hascii c hc) (by decide))]
  rw [Function.comp_apply, hmod, Char.ofNat_toNat]
  rfl

/-! ## Positions -/

/-- The position is where a character starts, or the end of the text. -/
def IsBoundary (t : Text) (i : Nat) : Prop := ∃ a b, t = a ++ b ∧ Str.len a = i

theorem IsBoundary.le_len (h : IsBoundary t i) : i ≤ Str.len t := by
  obtain ⟨a, b, rfl, rfl⟩ := h
  rw [len_append]
  exact Nat.le_add_right _ _

theorem append_inj_len {a b a' b' : Text} (h : a ++ b = a' ++ b') (hlen : Str.len a = Str.len a') :
    a = a' ∧ b = b' := by
  have hbytes := congrArg Str.bytes h
  rw [bytes_append, bytes_append] at hbytes
  obtain ⟨ha, hb⟩ := append_inj hbytes hlen
  exact ⟨bytes_injective ha, bytes_injective hb⟩

theorem IsBoundary.not_inside {a : Text} (h : IsBoundary t i) (ht : t = a ++ c :: u) :
    i ≤ Str.len a ∨ Str.len a + c.utf8Size ≤ i := by
  obtain ⟨a', b, rfl, rfl⟩ := h
  rcases Fence.cut_cases ht with ⟨d, rfl, -⟩ | ⟨x, d, rfl, hd⟩
  · rw [len_append]
    exact .inl (Nat.le_add_right _ _)
  · rw [len_append, len_cons, ← (List.cons.inj hd).1]
    omega

theorem isBoundary_take (text : Text) (i : Nat) : IsBoundary text (Str.len (text.take i)) :=
  ⟨text.take i, text.drop i, (take_append_drop i text).symm, rfl⟩

theorem len_take_mono (text : Text) {j : Nat} (h : i ≤ j) :
    Str.len (text.take i) ≤ Str.len (text.take j) := by
  obtain ⟨rest, hrest⟩ := take_prefix_take_left (l := text) h
  rw [← hrest, len_append]
  exact Nat.le_add_right _ _

theorem len_take_lt {text : Text} {j : Nat} (hij : i < j) (hi : i < text.length) :
    Str.len (text.take i) < Str.len (text.take j) := by
  have hstep : Str.len (text.take (i + 1)) = Str.len (text.take i) + text[i].utf8Size := by
    rw [take_add_one, getElem?_eq_getElem hi, len_append, Option.toList_some, len_cons]
    rfl
  have hpos := text[i].utf8Size_pos
  have hmono : Str.len (text.take (i + 1)) ≤ Str.len (text.take j) := len_take_mono text hij
  omega

theorem len_take_le_iff {text : Text} {s : Nat} (hi : i < text.length) :
    Str.len (text.take s) ≤ Str.len (text.take i) ↔ s ≤ i := by
  constructor
  · intro h
    by_contra hlt
    exact absurd (len_take_lt (Nat.lt_of_not_le hlt) hi) (Nat.not_lt.2 h)
  · exact len_take_mono text

def find (p : Char → Bool) (t : Text) : Option Nat :=
  (t.findIdx? p).map fun i => Str.len (t.take i)

def rfind (p : Char → Bool) (t : Text) : Option Nat :=
  (t.reverse.findIdx? p).map fun i => Str.len (t.take (t.length - 1 - i))

def rfindStr (p t : Text) : Option Nat := (Str.rfind p t).map fun i => Str.len (t.take i)

/-- `&t[i..]`. A position inside a character or behind the end has no slice. -/
def sliceFrom : Text → Nat → Option Text
  | t, 0 => some t
  | [], _ + 1 => none
  | c :: t, i + 1 => if c.utf8Size ≤ i + 1 then sliceFrom t (i + 1 - c.utf8Size) else none

theorem sliceFrom_len (a b : Text) : sliceFrom (a ++ b) (Str.len a) = some b := by
  induction a with
  | nil =>
    cases b with
    | nil => rfl
    | cons c b => rfl
  | cons c a ih =>
    obtain ⟨i, hi⟩ : ∃ i, c.utf8Size + Str.len a = i + 1 :=
      Nat.exists_eq_succ_of_ne_zero (by have := c.utf8Size_pos; omega)
    rw [len_cons, hi, cons_append, sliceFrom, if_pos (by omega), ← hi, Nat.add_sub_cancel_left]
    exact ih

def sliceTo : Text → Nat → Option Text
  | _, 0 => some []
  | [], _ + 1 => none
  | c :: t, i + 1 =>
    if c.utf8Size ≤ i + 1 then (sliceTo t (i + 1 - c.utf8Size)).map (c :: ·) else none

theorem sliceTo_len (a b : Text) : sliceTo (a ++ b) (Str.len a) = some a := by
  induction a with
  | nil =>
    cases b with
    | nil => rfl
    | cons c b => rfl
  | cons c a ih =>
    obtain ⟨i, hi⟩ : ∃ i, c.utf8Size + Str.len a = i + 1 :=
      Nat.exists_eq_succ_of_ne_zero (by have := c.utf8Size_pos; omega)
    rw [len_cons, hi, cons_append, sliceTo, if_pos (by omega), ← hi, Nat.add_sub_cancel_left, ih]
    rfl

end Nanoguard.Utf8

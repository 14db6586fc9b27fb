import Nanoguard.Guard.Restore
import Nanoguard.Lib.Utf8

/-!
# The scan of the case-insensitive strategy

`CaseInsensitive::restore` slides a window of bytes over the text and takes a character out of the
text where the window does not fit. Here the loop is on bytes, and a slice that would begin inside a
character makes it fail (`scanBytes`). It never does: a window that agrees with the needle up to case
covers as many whole characters (`fits_iff`).
-/

namespace Nanoguard.Guard

open List

/-! ## Bytes up to case -/

def lowerByte (b : UInt8) : UInt8 := if 65 ≤ b ∧ b ≤ 90 then b + 32 else b

def eqIgnoreCaseBytes (a b : List UInt8) : Bool := a.map lowerByte == b.map lowerByte

theorem lowerByte_of_ascii {n : Nat} (h : n < 128) :
    lowerByte (UInt8.ofNat n) = if 65 ≤ n ∧ n ≤ 90 then UInt8.ofNat (n + 32) else UInt8.ofNat n := by
  have hmod : (UInt8.ofNat n).toNat = n := by
    rw [UInt8.toNat_ofNat']
    omega
  have hupper : (65 ≤ UInt8.ofNat n ∧ UInt8.ofNat n ≤ 90) ↔ (65 ≤ n ∧ n ≤ 90) := by
    have hlo : (65 : UInt8).toNat = 65 := rfl
    have hhi : (90 : UInt8).toNat = 90 := rfl
    rw [UInt8.le_iff_toNat_le, UInt8.le_iff_toNat_le, hmod, hlo, hhi]
  unfold lowerByte
  by_cases hin : 65 ≤ n ∧ n ≤ 90
  · rw [if_pos (hupper.2 hin), if_pos hin]
    exact (UInt8.ofNat_add n 32).symm
  · rw [if_neg (mt hupper.1 hin), if_neg hin]

theorem lowerByte_of_large {b : UInt8} (h : 128 ≤ b.toNat) : lowerByte b = b := by
  refine if_neg fun hin => ?_
  have hle : b.toNat ≤ 90 := UInt8.le_iff_toNat_le.1 hin.2
  omega

theorem map_lowerByte_utf8EncodeChar (c : Char) :
    (String.utf8EncodeChar c).map lowerByte = String.utf8EncodeChar c.toLower := by
  rcases Utf8.utf8EncodeChar_ascii c with ⟨hascii, henc⟩ | hlarge
  · rw [henc, map_singleton, lowerByte_of_ascii hascii]
    have hval : c.val.toNat = c.toNat := rfl
    by_cases hup : 65 ≤ c.toNat ∧ c.toNat ≤ 90
    · have hlower : c.toLower.val.toNat = c.toNat + 32 := by
        unfold Char.toLower
        split
        next =>
          have hdiff : ('a'.val - 'A'.val).toNat = 32 := rfl
          rw [UInt32.toNat_add]
          omega
        next hnot => exact absurd hup hnot
      have hle : c.toLower.val.toNat ≤ 127 := by omega
      rw [if_pos hup]
      unfold String.utf8EncodeChar
      rw [if_pos hle, hlower]
    · have hlower : c.toLower = c := by
        exact dif_neg hup
      rw [if_neg hup, hlower, henc]
  · have hsame : c.toLower = c := by
      refine dif_neg fun hup => ?_
      have hle : c.toNat ≤ 90 := hup.2
      have henc : String.utf8EncodeChar c = [UInt8.ofNat c.toNat] := by
        exact if_pos (Nat.le_trans hle (by decide))
      have hbyte := hlarge (UInt8.ofNat c.toNat) (henc ▸ mem_singleton_self _)
      rw [UInt8.toNat_ofNat'] at hbyte
      omega
    rw [hsame]
    exact (map_congr_left fun b hb => lowerByte_of_large (hlarge b hb)).trans (map_id _)

theorem map_lowerByte_bytes (t : Text) :
    (Str.bytes t).map lowerByte = Str.bytes (Str.toAsciiLowercase t) := by
  induction t with
  | nil => rfl
  | cons c t ih =>
    rw [Utf8.bytes_cons, map_append, map_lowerByte_utf8EncodeChar, ih]
    rfl

/-- **A window of bytes fits exactly if the characters do**: the bytes at the front agree with those
of the needle up to case if and only if as many characters at the front do. -/
theorem fits_iff (needle t : Text) :
    ((Str.bytes needle).length ≤ (Str.bytes t).length ∧
      eqIgnoreCaseBytes ((Str.bytes t).take (Str.bytes needle).length) (Str.bytes needle) = true) ↔
      CaseInsensitive.eqIgnoreAsciiCase (t.take needle.length) needle = true := by
  have hwindow : ((Str.bytes needle).length ≤ (Str.bytes t).length ∧
      eqIgnoreCaseBytes ((Str.bytes t).take (Str.bytes needle).length) (Str.bytes needle) = true) ↔
        (Str.bytes needle).map lowerByte <+: (Str.bytes t).map lowerByte := by
    unfold eqIgnoreCaseBytes
    rw [beq_iff_eq, map_take, prefix_iff_eq_take, length_map, eq_comm]
    refine and_iff_right_of_imp fun heq => ?_
    have hlen := congrArg List.length heq
    rw [length_take, length_map, length_map] at hlen
    omega
  rw [hwindow, map_lowerByte_bytes, map_lowerByte_bytes, Utf8.bytes_prefix_iff, prefix_iff_eq_take]
  unfold CaseInsensitive.eqIgnoreAsciiCase Str.toAsciiLowercase
  rw [beq_iff_eq, map_take, length_map, eq_comm]

/-! ## The loop -/

namespace CaseInsensitive

/-- The loop at byte `i`, with the text built so far. It fails where a slice of the text begins
inside a character. -/
def scanBytes (needle : List UInt8) (original out : Text) : Nat → Nat → Text → Option Text
  | 0, _, _ => none
  | fuel + 1, i, buf =>
    let bytes := Str.bytes out
    if i < bytes.length then
      if i + needle.length ≤ bytes.length ∧
          eqIgnoreCaseBytes ((bytes.drop i).take needle.length) needle = true then
        scanBytes needle original out fuel (i + needle.length) (buf ++ original)
      else
        match (Utf8.sliceFrom out i).bind List.head? with
        | some ch => scanBytes needle original out fuel (i + ch.utf8Size) (buf ++ [ch])
        | none => none
    else some buf

def replaceBytes (out : Text) (e : Text × Text) : Option Text :=
  if e.1.isEmpty then some out
  else scanBytes (Str.bytes e.1) e.2 out (Str.len out + 1) 0 []

def restoreBytes (output : Text) (entries : List (Text × Text)) : Option Text :=
  entries.foldlM replaceBytes output

theorem len_of_eqIgnoreAsciiCase {q needle : Text} (h : eqIgnoreAsciiCase q needle = true) :
    Str.len q = Str.len needle := by
  have hbytes := congrArg Str.bytes (eq_of_beq h)
  rw [← map_lowerByte_bytes, ← map_lowerByte_bytes] at hbytes
  have hlen := congrArg List.length hbytes
  rwa [length_map, length_map] at hlen

theorem scanBytes_succ (needle original a b : Text) (fuel : Nat) (buf : Text) :
    let scan := scanBytes (Str.bytes needle) original (a ++ b)
    scan (fuel + 1) (Str.len a) buf =
      if 0 < Str.len b then
        if eqIgnoreAsciiCase (b.take needle.length) needle = true then
          scan fuel (Str.len a + Str.len needle) (buf ++ original)
        else
          match b.head? with
          | some ch => scan fuel (Str.len a + ch.utf8Size) (buf ++ [ch])
          | none => none
      else some buf := by
  have hdrop : (Str.bytes (a ++ b)).drop (Str.len a) = Str.bytes b := by
    rw [Utf8.bytes_append]
    exact drop_left
  have hlength : (Str.bytes (a ++ b)).length = Str.len a + Str.len b := Utf8.len_append a b
  intro scan
  dsimp only [scan]
  rw [scanBytes, hdrop, hlength, Utf8.sliceFrom_len]
  simp only [Nat.lt_add_right_iff_pos, Nat.add_le_add_iff_left, ← fits_iff]
  rfl

/-- **The position stays at the edge of a character**, and the loop builds what the scan over
characters does. -/
theorem scanBytes_eq {needle : Text} (hne : needle ≠ []) (original a b buf : Text) {fuel : Nat}
    (hfuel : Str.len b ≤ fuel) :
    scanBytes (Str.bytes needle) original (a ++ b) (fuel + 1) (Str.len a) buf =
      some (buf ++ replaceGo needle original 0 b) := by
  have hpos := Nat.lt_of_lt_of_le (length_pos_of_ne_nil hne) (Utf8.length_le_bytes needle)
  induction b using Str.piece_induction (Q := fun q => eqIgnoreAsciiCase q needle = true)
      (not_eqIgnoreAsciiCase_nil hne) generalizing a buf fuel with
  | nil =>
    have hend : ¬ 0 < Str.len [] := Nat.lt_irrefl 0
    rw [scanBytes_succ, if_neg hend, replaceGo, append_nil]
  | piece q t hq ih =>
    -- the window covers whole characters, so the position behind it is an edge again
    have hlen : Str.len q = (Str.bytes needle).length := len_of_eqIgnoreAsciiCase hq
    rw [Utf8.len_append] at hfuel
    obtain ⟨fuel, rfl⟩ := Nat.exists_eq_add_one_of_ne_zero (show fuel ≠ 0 by omega)
    rw [scanBytes_succ, if_pos (by rw [Utf8.len_append]; omega), ← length_of_eqIgnoreAsciiCase hq,
      take_left, if_pos hq, ← len_of_eqIgnoreAsciiCase hq, ← Utf8.len_append, ← append_assoc,
      ih (a ++ q) _ (by omega), replaceGo_append hq hne, append_assoc]
  | char c t hnot ih =>
    have hsize := c.utf8Size_pos
    have hfit : ¬ eqIgnoreAsciiCase ((c :: t).take needle.length) needle = true :=
      fun h => hnot _ h ( take_prefix _ _)
    rw [Utf8.len_cons] at hfuel
    obtain ⟨fuel, rfl⟩ := Nat.exists_eq_add_one_of_ne_zero (show fuel ≠ 0 by omega)
    rw [scanBytes_succ, if_pos (by rw [Utf8.len_cons]; omega), if_neg hfit, head?_cons]
    dsimp only
    rw [← Utf8.len_snoc, append_cons, ih (a ++ [c]) _ (by omega), replaceGo_cons hnot, append_assoc,
      singleton_append]

theorem replaceBytes_eq (out : Text) (e : Text × Text) :
    replaceBytes out e = some (MatchingStrategy.caseInsensitive.replaceEntry out e) := by
  have hround : MatchingStrategy.caseInsensitive.replaceEntry out e =
      if e.1.isEmpty then out else replaceGo e.1 e.2 0 out := rfl
  rw [hround]
  unfold replaceBytes
  split
  · rfl
  next hempty => exact scanBytes_eq (mt List.isEmpty_iff.2 hempty) e.2 [] out [] (Nat.le_refl _)

theorem restoreBytes_eq (output : Text) (entries : List (Text × Text)) :
    restoreBytes output entries = some (restore output entries) := by
  have hfold : restore output entries =
      entries.foldl MatchingStrategy.caseInsensitive.replaceEntry output := rfl
  clear hfold
  unfold restoreBytes
  induction entries generalizing output with
  | nil => rfl
  | cons e entries ih =>
    rw [foldlM_cons, replaceBytes_eq]
    exact ih _

end CaseInsensitive

/-! ## Agreement with the exact strategy -/

/-- In the pass of the exact strategy, no text has a case variant of the placeholder that is next
but the placeholder itself. -/
def NoVariants : Text → List (Text × Text) → Prop
  | _, [] => True
  | out, e :: entries =>
    (∀ q, q <:+: out → CaseInsensitive.eqIgnoreAsciiCase q e.1 = true → q = e.1) ∧
      NoVariants (MatchingStrategy.exact.replaceEntry out e) entries

theorem CaseInsensitive.replaceGo_eq_replace {key : Text} (hne : key ≠ []) (v : Text) {t : Text}
    (h : ∀ q, q <:+: t → eqIgnoreAsciiCase q key = true → q = key) :
    replaceGo key v 0 t = Str.replace t key v := by
  induction t using Str.piece_induction (Q := fun q => eqIgnoreAsciiCase q key = true)
      (not_eqIgnoreAsciiCase_nil hne) with
  | nil => exact (Str.replace_nil hne).symm
  | piece q t hq ih =>
    obtain rfl : q = key := h q (prefix_append q t).isInfix hq
    rw [replaceGo_append hq hne, Str.replace_append_self hne,
      ih fun q hin => h q (hin.trans (suffix_append _ t).isInfix)]
  | char c t hnot ih =>
    have hself : eqIgnoreAsciiCase key key = true := beq_self_eq_true _
    rw [replaceGo_cons hnot, Str.replace_cons (hnot key hself),
      ih fun q hin => h q (hin.trans (suffix_cons c t).isInfix)]

theorem restore_eq_of_noVariants {output : Text} {entries : List (Text × Text)}
    (hne : ∀ e ∈ entries, e.1 ≠ []) (h : NoVariants output entries) :
    CaseInsensitive.restore output entries = Exact.restore output entries := by
  have hfold : ∀ strategy : MatchingStrategy, strategy.restore output entries =
      entries.foldl strategy.replaceEntry output := fun strategy => strategy.restore_eq_foldl _ _
  refine (hfold .caseInsensitive).trans (Eq.trans ?_ (hfold .exact).symm)
  clear hfold
  induction entries generalizing output with
  | nil => rfl
  | cons e entries ih =>
    have hkey := hne e mem_cons_self
    have hround : MatchingStrategy.caseInsensitive.replaceEntry output e =
        MatchingStrategy.exact.replaceEntry output e := by
      have hscan : MatchingStrategy.caseInsensitive.replaceEntry output e =
          CaseInsensitive.replaceGo e.1 e.2 0 output := if_neg (mt List.isEmpty_iff.1 hkey)
      rw [hscan, CaseInsensitive.replaceGo_eq_replace hkey e.2 h.1]
      exact (Str.replace_of_contains hkey output).symm
    rw [foldl_cons, hround]
    exact ih (forall_mem_cons.1 hne).2 h.2

/-- **Case-insensitive restoration is safe and conservative**: it always returns, and where no
placeholder is empty and no text on the way has another case variant of the placeholder that is
next, it returns what the exact strategy does. -/
theorem caseInsensitive_safe (output : Text) (entries : List (Text × Text)) :
    ∃ restored, CaseInsensitive.restoreBytes output entries = some restored ∧
      ((∀ e ∈ entries, e.1 ≠ []) → NoVariants output entries →
        restored = Exact.restore output entries) :=
  ⟨_, CaseInsensitive.restoreBytes_eq output entries, restore_eq_of_noVariants⟩

theorem eq_of_windows {key out : Text}
    (h : ∀ i ≤ out.length,
      CaseInsensitive.eqIgnoreAsciiCase ((out.drop i).take key.length) key = true →
        (out.drop i).take key.length = key)
    (q : Text) (hin : q <:+: out) (hq : CaseInsensitive.eqIgnoreAsciiCase q key = true) :
    q = key := by
  obtain ⟨a, b, rfl⟩ := hin
  have hlen := CaseInsensitive.length_of_eqIgnoreAsciiCase hq
  have hwindow : ((a ++ q ++ b).drop a.length).take key.length = q := by
    rw [append_assoc, drop_left, ← hlen, take_left]
  have hfound := h a.length (by rw [append_assoc, length_append]; omega)
  rw [hwindow] at hfound
  exact hfound hq

theorem caseInsensitive_safe_accents :
    let entries : List (Text × Text) := [("[é_1]".toList, "x".toList)]
    (∀ e ∈ entries, e.1 ≠ []) ∧ NoVariants "à [é_1]".toList entries ∧
      CaseInsensitive.restoreBytes "à [é_1]".toList entries = some "à x".toList := by
  intro entries
  have hne : ∀ e ∈ entries, e.1 ≠ [] := by decide
  have hnone : NoVariants "à [é_1]".toList entries := ⟨eq_of_windows (by decide), trivial⟩
  obtain ⟨restored, hrestored, hagree⟩ := caseInsensitive_safe "à [é_1]".toList entries
  rw [hagree hne hnone] at hrestored
  exact ⟨hne, hnone, hrestored⟩

/-- An empty placeholder has no case variants. The exact strategy finds it around every character,
the other one passes over it. -/
theorem empty_placeholder_differs :
    let entries : List (Text × Text) := [([], "x".toList)]
    NoVariants "ab".toList entries ∧
      Exact.restore "ab".toList entries = "xaxbx".toList ∧
      CaseInsensitive.restoreBytes "ab".toList entries = some "ab".toList := by
  refine ⟨⟨fun q _ hq => ?_, trivial⟩, by decide, by decide⟩
  exact length_eq_zero_iff.1 (CaseInsensitive.length_of_eqIgnoreAsciiCase hq)

end Nanoguard.Guard

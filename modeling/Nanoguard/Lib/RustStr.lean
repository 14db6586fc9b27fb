import Mathlib.Algebra.Group.Int.Defs
import Mathlib.Algebra.Group.Nat.Defs
import Mathlib.Data.List.DropRight
import Nanoguard.Lib.Fence
import Nanoguard.Lib.Regex

/-!
# String operations

The operations of the standard string type that the program uses, on texts as lists of characters.
What depends on the Unicode tables beyond ASCII is a parameter (`Unicode`).
-/

namespace Nanoguard

open List

variable {t u a b : Text} {c : Char} {n : Nat}

instance : LawfulBEq Text := inferInstance

/-- The Unicode tables, with their values on ASCII. `nfkc` is compatibility normalisation; a
space takes part in no composition, so the two sides of a space are normalised apart. -/
structure Unicode where
  isUppercase : Char → Bool
  toLowercase : Char → Text
  toUppercase : Char → Text
  nfkc : Text → Text
  isUppercase_ascii : ∀ c : Char, c.toNat < 128 → isUppercase c = c.isUpper
  toLowercase_ascii : ∀ c : Char, c.toNat < 128 → toLowercase c = [c.toLower]
  toUppercase_ascii : ∀ c : Char, c.toNat < 128 → toUppercase c = [c.toUpper]
  nfkc_ascii : ∀ t : Text, (∀ c ∈ t, c.toNat < 128) → nfkc t = t
  nfkc_space : ∀ a b : Text, nfkc (a ++ ' ' :: b) = nfkc a ++ ' ' :: nfkc b

def Unicode.ascii : Unicode where
  isUppercase c := c.isUpper
  toLowercase c := [c.toLower]
  toUppercase c := [c.toUpper]
  nfkc t := t
  isUppercase_ascii _ _ := rfl
  toLowercase_ascii _ _ := rfl
  toUppercase_ascii _ _ := rfl
  nfkc_ascii _ _ := rfl
  nfkc_space _ _ := rfl

namespace Str

def isAscii (t : Text) : Bool := t.all fun c => decide (c.toNat < 128)

theorem toNat_of_isAscii (h : isAscii t = true) (hc : c ∈ t) : c.toNat < 128 :=
  of_decide_eq_true (all_eq_true.1 h c hc)

/-- `char::is_whitespace`: the characters with the property White_Space. -/
def isWhitespace (c : Char) : Bool :=
  let n := c.toNat
  (0x9 ≤ n && n ≤ 0xD) || n == 0x20 || n == 0x85 || n == 0xA0 || n == 0x1680 ||
    (0x2000 ≤ n && n ≤ 0x200A) || n == 0x2028 || n == 0x2029 || n == 0x202F || n == 0x205F ||
    n == 0x3000

def trimStart (t : Text) : Text := t.dropWhile isWhitespace

def trimEnd (t : Text) : Text := (t.reverse.dropWhile isWhitespace).reverse

def trim (t : Text) : Text := trimEnd (trimStart t)

theorem trimEnd_isPrefix (t : Text) : trimEnd t <+: t := rdropWhile_prefix isWhitespace t

theorem dropWhile_of_isPrefix {p : Char → Bool} (h : t <+: u) (hu : u.dropWhile p = u) :
    t.dropWhile p = t := by
  rw [dropWhile_eq_self_iff] at hu ⊢
  intro hl
  obtain ⟨r, rfl⟩ := h
  have hhead := hu (by simp; omega)
  simpa [getElem_append_left hl] using hhead

theorem dropEnds_dropEnds (p : Char → Bool) (t : Text) :
    (((t.dropWhile p).rdropWhile p).dropWhile p).rdropWhile p = (t.dropWhile p).rdropWhile p := by
  rw [dropWhile_of_isPrefix ( rdropWhile_prefix p _) (dropWhile_idempotent p t)]
  exact rdropWhile_idempotent p (t.dropWhile p)

@[simp] theorem trim_trim (t : Text) : trim (trim t) = trim t := dropEnds_dropEnds isWhitespace t

/-- The text starts and ends with a character that is not white space. -/
def Tight (t : Text) : Prop :=
  (∃ c u, t = c :: u ∧ isWhitespace c = false) ∧ ∃ u c, t = u ++ [c] ∧ isWhitespace c = false

theorem trimStart_append_cons (hc : isWhitespace c = false) (a u : Text) :
    trimStart (a ++ c :: u) = trimStart a ++ c :: u := by
  unfold trimStart
  induction a with
  | nil => exact dropWhile_cons_of_neg (by simp [hc])
  | cons d a ih =>
    rw [cons_append]
    by_cases hd : isWhitespace d = true
    · rw [dropWhile_cons_of_pos hd, dropWhile_cons_of_pos hd, ih]
    · rw [dropWhile_cons_of_neg hd, dropWhile_cons_of_neg hd]
      rfl

theorem trimEnd_append_cons (hc : isWhitespace c = false) (u b : Text) :
    trimEnd (u ++ c :: b) = u ++ c :: trimEnd b := by
  have hreverse := trimStart_append_cons hc b.reverse u.reverse
  unfold trimStart at hreverse
  unfold trimEnd
  rw [List.reverse_append, reverse_cons, append_assoc, singleton_append, hreverse]
  simp

theorem trim_append (ht : Tight t) (a b : Text) :
    trim (a ++ (t ++ b)) = trimStart a ++ (t ++ trimEnd b) := by
  obtain ⟨⟨c, u, hcu, hc⟩, u', d, hud, hd⟩ := ht
  have hstart : trimStart (a ++ (t ++ b)) = trimStart a ++ (t ++ b) := by
    rw [hcu, cons_append, trimStart_append_cons hc]
  have hend : trimEnd (trimStart a ++ (t ++ b)) = trimStart a ++ (t ++ trimEnd b) := by
    have hsplit := trimEnd_append_cons hd (trimStart a ++ u') b
    simpa [hud] using hsplit
  rw [trim, hstart, hend]

def toAsciiLowercase (t : Text) : Text := t.map Char.toLower

theorem toLower_cases (c : Char) :
    (c.isUpper = false ∧ c.toLower = c) ∨ 97 ≤ c.toLower.toNat ∧ c.toLower.toNat ≤ 122 := by
  unfold Char.toLower
  split
  next h =>
    right
    have hge : 65 ≤ c.val.toNat := h.1
    have hle : c.val.toNat ≤ 90 := h.2
    have hsum : (c.val + ('a'.val - 'A'.val)).toNat = c.val.toNat + 32 := by
      rw [UInt32.toNat_add]
      have hdiff : ('a'.val - 'A'.val).toNat = 32 := rfl
      omega
    change 97 ≤ (c.val + ('a'.val - 'A'.val)).toNat ∧ (c.val + ('a'.val - 'A'.val)).toNat ≤ 122
    omega
  next h => exact .inl ⟨decide_eq_false h, rfl⟩

theorem isUpper_toLower (c : Char) : c.toLower.isUpper = false := by
  rcases toLower_cases c with ⟨hupper, hsame⟩ | ⟨hge, -⟩
  · rw [hsame]
    exact hupper
  · have hle : 'Z'.toNat < c.toLower.toNat := Nat.lt_of_lt_of_le (by decide) hge
    exact decide_eq_false fun h => Nat.not_le.2 hle h.2

theorem toNat_of_isAlpha (h : c.isAlpha = true) :
    65 ≤ c.toNat ∧ c.toNat ≤ 90 ∨ 97 ≤ c.toNat ∧ c.toNat ≤ 122 := by
  have hcases : (decide (c.val ≥ 'A'.val ∧ c.val ≤ 'Z'.val) ||
      decide (c.val ≥ 'a'.val) && decide (c.val ≤ 'z'.val)) = true := h
  simpa [UInt32.le_iff_toNat_le] using hcases

theorem toNat_of_isAlphanum (h : c.isAlphanum = true) : c.toNat < 128 := by
  unfold Char.isAlphanum at h
  rw [Bool.or_eq_true] at h
  rcases h with halpha | hdigit
  · have hrange := toNat_of_isAlpha halpha
    omega
  · rw [Char.isDigit_iff_toNat] at hdigit
    exact Nat.lt_of_le_of_lt hdigit.2 (by decide)

def bytes (t : Text) : List UInt8 := t.flatMap String.utf8EncodeChar

def len (t : Text) : Nat := (bytes t).length

def stripPrefix (p t : Text) : Option Text :=
  if p <+: t then some (t.drop p.length) else none

def stripSuffix (p t : Text) : Option Text :=
  if p <:+ t then some (t.take (t.length - p.length)) else none

/-- `str::rfind`: where the last occurrence starts, counted in characters. -/
def rfind (p t : Text) : Option Nat :=
  (List.range (t.length + 1)).reverse.find? fun i => decide (p <+: t.drop i)

theorem find?_reverse_range {q : Nat → Bool} {i : Nat} (hi : i < n) (hq : q i = true)
    (hlast : ∀ j, i < j → q j = false) : (List.range n).reverse.find? q = some i := by
  induction n with
  | zero => exact absurd hi (Nat.not_lt_zero i)
  | succ n ih =>
    rw [range_succ, List.reverse_append, reverse_singleton, singleton_append]
    rcases Nat.lt_or_eq_of_le (Nat.le_of_lt_succ hi) with hlt | rfl
    · rw [find?_cons_of_neg (by simp [hlast n hlt])]
      exact ih hlt
    · exact find?_cons_of_pos hq

theorem rfind_eq_some {p : Text} {i : Nat} (hi : i ≤ t.length) (hp : p <+: t.drop i)
    (hlast : ∀ j, i < j → ¬ p <+: t.drop j) : rfind p t = some i :=
  find?_reverse_range (Nat.lt_succ_of_le hi) (decide_eq_true hp)
    fun j hj => decide_eq_false (hlast j hj)

def contains (t p : Text) : Bool := decide (p <:+: t)

/-- `str::split` at a character. -/
def splitChar (c : Char) (t : Text) : List Text := t.splitOn c

/-- `str::split` at a non-empty separator. `skip` characters are passed over because they belong
to the separator found last; `acc` is the current piece, reversed. -/
def splitStrGo (sep : Text) : Nat → Text → Text → List Text
  | _, acc, [] => [acc.reverse]
  | 0, acc, c :: t =>
    if sep <+: c :: t then acc.reverse :: splitStrGo sep (sep.length - 1) [] t
    else splitStrGo sep 0 (c :: acc) t
  | skip + 1, acc, _ :: t => splitStrGo sep skip acc t

def splitStr (sep t : Text) : List Text := splitStrGo sep 0 [] t

/-- `str::rsplit_once` at a character: the parts before and after its last occurrence. -/
def rsplitOnce (c : Char) (t : Text) : Option (Text × Text) :=
  if c ∈ t then
    let tail := (t.reverse.takeWhile (· != c)).reverse
    some (t.take (t.length - tail.length - 1), tail)
  else none

/-- `str::lines`: split at line feeds. A carriage return before one is dropped, and so is an empty
last line. -/
def lines (t : Text) : List Text :=
  let pieces := splitChar '\n' t
  let ended := pieces.dropLast.map fun l => (stripSuffix ['\r'] l).getD l
  ended ++ pieces.getLast?.toList.filter (!·.isEmpty)

/-- `str::parse::<u32>` -/
def parseU32 (t : Text) : Option Nat :=
  let digits := (stripPrefix ['+'] t).getD t
  if digits.isEmpty || !digits.all Char.isDigit then none
  else
    let n := digits.foldl (fun n c => 10 * n + (c.toNat - '0'.toNat)) 0
    if n < 2 ^ 32 then some n else none

def toUppercase (U : Unicode) (t : Text) : Text := t.flatMap U.toUppercase

/-- `str::replace`. `skip` characters are passed over because they belong to the occurrence found
last. An empty pattern occurs before every character and at the end. -/
def replaceGo (p v : Text) : Nat → Text → Text
  | 0, [] => if p = [] then v else []
  | 0, c :: t =>
    if p <+: c :: t then
      if p = [] then v ++ c :: replaceGo p v 0 t else v ++ replaceGo p v (p.length - 1) t
    else c :: replaceGo p v 0 t
  | _ + 1, [] => []
  | skip + 1, _ :: t => replaceGo p v skip t

def replace (t p v : Text) : Text := replaceGo p v 0 t

def join (sep : Text) (ts : List Text) : Text := sep.intercalate ts

def decimal (n : Nat) : Text := Nat.toDigits 10 n

/-! ## Splitting -/

variable {β : Type} {c : Char} {f : Text → Option β}

theorem splitStrGo_filterMap (hf : f [] = none) : ∀ acc t : Text,
    (splitStrGo [c, c] 0 acc t).flatMap (fun p => (splitChar c p).filterMap f) =
      (splitChar c (acc.reverse ++ t)).filterMap f
  | acc, [] => by simp [splitStrGo]
  | acc, [d] => by simp [splitStrGo]
  | acc, d :: e :: t => by
    rw [splitStrGo]
    split
    next h =>
      obtain ⟨t', ht'⟩ := h
      simp only [cons_append, nil_append, List.cons.injEq] at ht'
      obtain ⟨rfl, rfl, rfl⟩ := ht'
      have ih := splitStrGo_filterMap hf [] t'
      simp only [splitStrGo, flatMap_cons, length_cons, length_nil, ih]
      unfold splitChar
      rw [splitOn_append_cons_self, filterMap_append]
      simp [splitOn_cons_eq_if_modifyHead, hf]
    next h =>
      rw [splitStrGo_filterMap hf (d :: acc) (e :: t)]
      simp

theorem splitStr_filterMap (hf : f [] = none) (t : Text) :
    (splitStr [c, c] t).flatMap (fun p => (splitChar c p).filterMap f) =
      (splitChar c t).filterMap f :=
  splitStrGo_filterMap hf [] t

theorem isInfix_join (sep : Text) {ts : List Text} (h : t ∈ ts) : t <:+: join sep ts := by
  unfold join
  induction ts with
  | nil => cases h
  | cons u ts ih =>
    cases ts with
    | nil =>
      rw [mem_singleton.1 h, intercalate_singleton]
    | cons u' ts =>
      rw [intercalate_cons_cons]
      rcases mem_cons.1 h with rfl | h
      · exact ⟨[], _, by rw [nil_append, append_assoc]⟩
      · exact (ih h).trans (suffix_append _ _).isInfix

theorem isInfix_of_mem_splitChar (h : t ∈ splitChar c u) : t <:+: u := by
  have hjoin : join [c] (splitChar c u) = u := intercalate_splitOn c
  exact hjoin ▸ isInfix_join [c] h

theorem notMem_of_mem_splitChar (h : t ∈ splitChar c u) : c ∉ t := by
  unfold splitChar at h
  induction u generalizing t with
  | nil =>
    rw [splitOn_nil, mem_singleton] at h
    rw [h]
    exact not_mem_nil
  | cons d u ih =>
    rw [splitOn_cons_eq_if_modifyHead] at h
    obtain ⟨p, ps, hps⟩ : ∃ p ps, u.splitOn c = p :: ps :=
      exists_cons_of_ne_nil (splitOn_ne_nil c u)
    by_cases hd : (d == c) = true
    · rw [if_pos hd] at h
      rcases mem_cons.1 h with rfl | h
      · exact not_mem_nil
      · exact ih h
    rw [if_neg hd, hps] at h
    rw [hps] at ih
    rcases mem_cons.1 h with rfl | h
    · intro hmem
      rcases mem_cons.1 hmem with rfl | hmem
      · exact hd (beq_self_eq_true c)
      · exact ih mem_cons_self hmem
    · exact ih (mem_cons_of_mem p h)

/-! ## Lines -/

def OneLine (t : Text) : Prop := '\n' ∉ t ∧ '\r' ∉ t

instance (t : Text) : Decidable (OneLine t) := inferInstanceAs (Decidable (_ ∧ _))

@[simp] theorem oneLine_append : OneLine (t ++ u) ↔ OneLine t ∧ OneLine u := by
  unfold OneLine
  simp only [mem_append, not_or]
  tauto

@[simp] theorem oneLine_cons : OneLine (c :: t) ↔ c ≠ '\n' ∧ c ≠ '\r' ∧ OneLine t := by
  unfold OneLine
  simp only [mem_cons, not_or, eq_comm]
  tauto

theorem oneLine_nil : OneLine [] := ⟨not_mem_nil, not_mem_nil⟩

/-! ## The first and the last occurrence of a character -/

theorem first_inj (ha : c ∉ a) (hb : c ∉ b) (h : a ++ c :: t = b ++ c :: u) : a = b ∧ t = u := by
  rcases Fence.cut_cons_cases h with ⟨r, rfl, -⟩ | ⟨hab, -, htu⟩ | ⟨r, rfl, -⟩
  · exact absurd (mem_append_right a mem_cons_self) hb
  · exact ⟨hab, htu⟩
  · exact absurd (mem_append_right b mem_cons_self) ha

theorem last_inj (ht : c ∉ t) (hu : c ∉ u) (h : a ++ c :: t = b ++ c :: u) : a = b ∧ t = u := by
  rcases Fence.cut_cons_cases h with ⟨r, -, rfl⟩ | ⟨hab, -, htu⟩ | ⟨r, -, rfl⟩
  · exact absurd (mem_append_right r mem_cons_self) ht
  · exact ⟨hab, htu⟩
  · exact absurd (mem_append_right r mem_cons_self) hu

theorem rsplitOnce_append (hb : c ∉ b) : rsplitOnce c (a ++ c :: b) = some (a, b) := by
  have htail : ((a ++ c :: b).reverse.takeWhile (· != c)).reverse = b := by
    rw [List.reverse_append, reverse_cons, append_assoc,
      takeWhile_append_of_pos (by simpa using fun x hx (h : x = c) => hb (h ▸ hx))]
    simp
  unfold rsplitOnce
  rw [if_pos (mem_append_right _ mem_cons_self)]
  dsimp only
  rw [htail, length_append, length_cons,
    show a.length + (b.length + 1) - b.length - 1 = a.length by omega, take_left]

theorem rsplitOnce_eq_some_iff : rsplitOnce c t = some (a, b) ↔ t = a ++ c :: b ∧ c ∉ b := by
  constructor
  · intro h
    have hmem : c ∈ t := by
      by_contra hnot
      rw [rsplitOnce, if_neg hnot] at h
      cases h
    obtain ⟨b', a', hsplit, hb'⟩ := eq_append_cons_of_mem (mem_reverse.2 hmem)
    have ht : t = a'.reverse ++ c :: b'.reverse := by simpa using congrArg List.reverse hsplit
    have hnot : c ∉ b'.reverse := by simpa using hb'
    rw [ht, rsplitOnce_append hnot] at h
    cases h
    exact ⟨ht, hnot⟩
  · rintro ⟨rfl, hb⟩
    exact rsplitOnce_append hb

/-! ## Numbers in decimal -/

theorem decimal_injective {m : Nat} (h : decimal m = decimal n) : m = n := by
  have hparse := congrArg (fun digits => Nat.ofDigitChars 10 digits 0) h
  simpa [decimal] using hparse

theorem isDigit_of_mem_decimal {d : Char} (h : d ∈ decimal n) : d.isDigit = true :=
  Nat.isDigit_of_mem_toDigits (by omega) (by omega) h

section Replace

variable {p v : Text}

theorem replaceGo_drop (p v : Text) : ∀ (a t : Text),
    replaceGo p v a.length (a ++ t) = replaceGo p v 0 t
  | [], _ => rfl
  | _ :: a, t => replaceGo_drop p v a t

theorem replace_nil (hp : p ≠ []) : replace [] p v = [] := by
  unfold replace replaceGo
  rw [if_neg hp]

theorem replace_cons (h : ¬ p <+: c :: t) : replace (c :: t) p v = c :: replace t p v := by
  unfold replace
  rw [replaceGo, if_neg h]

theorem replace_append_self (hp : p ≠ []) (t : Text) :
    replace (p ++ t) p v = v ++ replace t p v := by
  cases p with
  | nil => exact absurd rfl hp
  | cons c p =>
    unfold replace
    have hpre : c :: p <+: c :: (p ++ t) := prefix_append (c :: p) t
    rw [cons_append, replaceGo, if_pos hpre, if_neg hp]
    exact congrArg _ (replaceGo_drop (c :: p) v p t)

theorem replace_of_not_isInfix (hp : p ≠ []) (h : ¬ p <:+: t) : replace t p v = t := by
  induction t with
  | nil => exact replace_nil hp
  | cons c t ih =>
    rw [replace_cons fun hpre => h hpre.isInfix,
      ih fun hin => h (hin.trans (suffix_cons c t).isInfix)]

theorem replace_of_contains (hp : p ≠ []) (t : Text) :
    (if contains t p then replace t p v else t) = replace t p v := by
  unfold contains
  by_cases hin : p <:+: t
  · rw [if_pos (decide_eq_true hin)]
  · rw [if_neg (by simpa using hin), replace_of_not_isInfix hp hin]

end Replace

end Str

end Nanoguard

import Mathlib.Data.List.Nodup
import Nanoguard.Lib.Json
import Nanoguard.Lib.RustStr

/-!
# JSON texts

A printer of JSON values on one line and a parser that inverts it. The printer is compact and escapes
quotes, backslashes and line ends; a float is printed by its bits, as an exponent of zero.
-/

namespace Nanoguard

open List

variable {j : Json} {t : Text}

def Number.valid : Number → Bool
  | .posInt n => decide (n < 2 ^ 64)
  | .negInt n => decide (-2 ^ 63 ≤ n ∧ n < 0)
  | .float bits => decide (bits.toNat / 2 ^ 52 % 2 ^ 11 ≠ 2 ^ 11 - 1)

namespace Json

mutual

/-- Keys are distinct, integers have 64 bits and floats are finite. -/
def valid : Json → Bool
  | .num n => n.valid
  | .arr items => validItems items
  | .obj fields => decide (fields.map Prod.fst).Nodup && validFields fields
  | _ => true

def validItems : List Json → Bool
  | [] => true
  | j :: items => valid j && validItems items

def validFields : List (Text × Json) → Bool
  | [] => true
  | (_, j) :: fields => valid j && validFields fields

end

section Frame

variable {key : Text} {R : Json → Json → Prop}

theorem validItems_of_forall₂ (hR : ∀ a b, R a b → a.valid = true → b.valid = true)
    {items items' : List Json} (h : List.Forall₂ R items items')
    (hvalid : validItems items = true) : validItems items' = true := by
  induction h with
  | nil => rfl
  | cons hab _ ih =>
    simp only [validItems, Bool.and_eq_true] at hvalid ⊢
    exact ⟨hR _ _ hab hvalid.1, ih hvalid.2⟩

theorem AtItems.valid (hR : ∀ a b, R a b → a.valid = true → b.valid = true) {j' : Json}
    (h : AtItems R j j') (hvalid : j.valid = true) : j'.valid = true := by
  rcases h with rfl | ⟨items, items', rfl, rfl, h⟩
  · exact hvalid
  · exact validItems_of_forall₂ hR h hvalid

theorem AtField.valid (hR : ∀ a b, R a b → a.valid = true → b.valid = true) {j' : Json}
    (h : AtField key R j j') (hvalid : j.valid = true) : j'.valid = true := by
  rcases h with rfl | ⟨fields, fields', rfl, rfl, h⟩
  · exact hvalid
  have hkeys : fields.map Prod.fst = fields'.map Prod.fst := by
    rw [← List.forall₂_eq_eq_eq, List.forall₂_map_left_iff, List.forall₂_map_right_iff]
    exact h.imp fun _ _ hab => hab.1
  have hfields : validFields fields = true → validFields fields' = true := by
    clear hvalid hkeys
    induction h with
    | nil => exact id
    | cons hab _ ih =>
      intro hvalid
      simp only [validFields, Bool.and_eq_true] at hvalid ⊢
      refine ⟨?_, ih hvalid.2⟩
      rcases hab.2 with heq | ⟨-, hrel⟩
      · exact heq ▸ hvalid.1
      · exact hR _ _ hrel hvalid.1
  simp only [Json.valid, Bool.and_eq_true] at hvalid ⊢
  exact ⟨hkeys ▸ hvalid.1, hfields hvalid.2⟩

end Frame

/-! ## Printing -/

def escapeChar (c : Char) : Text :=
  if c = '"' ∨ c = '\\' then ['\\', c]
  else if c = '\n' then ['\\', 'n']
  else if c = '\r' then ['\\', 'r']
  else [c]

def printString (s : Text) : Text := '"' :: (s.flatMap escapeChar ++ ['"'])

def printNumber : Number → Text
  | .posInt n => Str.decimal n
  | .negInt n => '-' :: Str.decimal n.natAbs
  | .float bits => '0' :: 'e' :: Str.decimal bits.toNat

mutual

def print : Json → Text
  | .null => ['n', 'u', 'l', 'l']
  | .bool true => ['t', 'r', 'u', 'e']
  | .bool false => ['f', 'a', 'l', 's', 'e']
  | .num n => printNumber n
  | .str s => printString s
  | .arr [] => ['[', ']']
  | .arr (j :: items) => '[' :: (print j ++ printItems items)
  | .obj [] => ['\x7b', '\x7d']
  | .obj ((k, j) :: fields) => '\x7b' :: (printString k ++ ':' :: (print j ++ printFields fields))

def printItems : List Json → Text
  | [] => [']']
  | j :: items => ',' :: (print j ++ printItems items)

def printFields : List (Text × Json) → Text
  | [] => ['\x7d']
  | (k, j) :: fields => ',' :: (printString k ++ ':' :: (print j ++ printFields fields))

end

/-! ## Parsing -/

def unescape (c : Char) : Char := if c = 'n' then '\n' else if c = 'r' then '\r' else c

/-- The string up to the closing quote, and what follows. -/
def parseString : Text → Option (Text × Text)
  | [] => none
  | [c] => if c = '"' then some ([], []) else none
  | c :: d :: t =>
    if c = '"' then some ([], d :: t)
    else if c = '\\' then (parseString t).map fun q => (unescape d :: q.1, q.2)
    else (parseString (d :: t)).map fun q => (c :: q.1, q.2)

def parseDigits (t : Text) : Option (Nat × Text) :=
  let (digits, rest) := t.span Char.isDigit
  if digits.isEmpty then none else some (Nat.ofDigitChars 10 digits 0, rest)

def parseNumber (t : Text) : Option (Json × Text) :=
  (parseDigits t).bind fun q =>
    match q.2 with
    | 'e' :: rest => (parseDigits rest).map fun q => (.num (.float (UInt64.ofNat q.1)), q.2)
    | rest => some (.num (.posInt q.1), rest)

mutual

def parseValue : Nat → Text → Option (Json × Text)
  | 0, _ => none
  | _ + 1, [] => none
  | fuel + 1, c :: t =>
    if c = 'n' then (Str.stripPrefix ['u', 'l', 'l'] t).map fun t => (.null, t)
    else if c = 't' then (Str.stripPrefix ['r', 'u', 'e'] t).map fun t => (.bool true, t)
    else if c = 'f' then (Str.stripPrefix ['a', 'l', 's', 'e'] t).map fun t => (.bool false, t)
    else if c = '"' then (parseString t).map fun q => (.str q.1, q.2)
    else if c = '[' then
      if t.head? = some ']' then some (.arr [], t.tail)
      else
        (parseValue fuel t).bind fun q =>
          (parseItems fuel q.2).map fun q' => (.arr (q.1 :: q'.1), q'.2)
    else if c = '\x7b' then
      if t.head? = some '\x7d' then some (.obj [], t.tail)
      else
        (parseField fuel t).bind fun q =>
          (parseFields fuel q.2).map fun q' => (.obj (q.1 :: q'.1), q'.2)
    else if c = '-' then
      (parseDigits t).map fun q => (.num (.negInt (-(q.1 : Int))), q.2)
    else parseNumber (c :: t)

def parseItems : Nat → Text → Option (List Json × Text)
  | 0, _ => none
  | _ + 1, [] => none
  | fuel + 1, c :: t =>
    if c = ']' then some ([], t)
    else if c = ',' then
      (parseValue fuel t).bind fun q =>
        (parseItems fuel q.2).map fun q' => (q.1 :: q'.1, q'.2)
    else none

def parseField : Nat → Text → Option ((Text × Json) × Text)
  | 0, _ => none
  | _ + 1, [] => none
  | fuel + 1, c :: t =>
    if c = '"' then
      (parseString t).bind fun key =>
        (Str.stripPrefix [':'] key.2).bind fun t =>
          (parseValue fuel t).map fun q => ((key.1, q.1), q.2)
    else none

def parseFields : Nat → Text → Option (List (Text × Json) × Text)
  | 0, _ => none
  | _ + 1, [] => none
  | fuel + 1, c :: t =>
    if c = '\x7d' then some ([], t)
    else if c = ',' then
      (parseField fuel t).bind fun q =>
        (parseFields fuel q.2).map fun q' => (q.1 :: q'.1, q'.2)
    else none

end

def parse (t : Text) : Except Text Json :=
  match parseValue t.length t with
  | some (j, []) => if j.valid then .ok j else .error ['i', 'n', 'v', 'a', 'l', 'i', 'd']
  | _ => .error ['s', 'y', 'n', 't', 'a', 'x']

/-! ## The parser inverts the printer -/

/-- What follows a printed value does not continue a number. -/
def Stops (t : Text) : Prop := ∀ c, t.head? = some c → c.isDigit = false ∧ c ≠ 'e'

theorem stops_nil : Stops [] := by
  intro c h
  cases h

theorem stops_cons {c : Char} (t : Text) (hd : c.isDigit = false) (he : c ≠ 'e') :
    Stops (c :: t) := by
  intro d h
  cases h
  exact ⟨hd, he⟩

theorem parseString_quote (t : Text) : parseString ('"' :: t) = some ([], t) := by
  cases t <;> rfl

theorem parseString_escapeChar (c d : Char) (t : Text) :
    parseString (escapeChar c ++ d :: t) =
      (parseString (d :: t)).map fun q => (c :: q.1, q.2) := by
  unfold escapeChar
  by_cases hquote : c = '"' ∨ c = '\\'
  · have hne : c ≠ 'n' ∧ c ≠ 'r' := by
      rcases hquote with rfl | rfl <;> decide
    simp [hquote, parseString, unescape, hne]
  obtain ⟨hq, hb⟩ := not_or.1 hquote
  by_cases hn : c = '\n'
  · simp [hn, parseString, unescape]
  · by_cases hr : c = '\r'
    · simp [hr, parseString, unescape]
    · simp [hq, hb, hn, hr, parseString]

theorem parseString_print (s t : Text) :
    parseString (s.flatMap escapeChar ++ '"' :: t) = some (s, t) := by
  induction s with
  | nil => exact parseString_quote t
  | cons c s ih =>
    obtain ⟨d, t', ht⟩ : ∃ d t', s.flatMap escapeChar ++ '"' :: t = d :: t' :=
      exists_cons_of_ne_nil (by simp)
    rw [flatMap_cons, append_assoc, ht, parseString_escapeChar, ← ht, ih]
    rfl

theorem span_digits {ds : Text} (hds : ∀ c ∈ ds, c.isDigit = true)
    (ht : ∀ c, t.head? = some c → c.isDigit = false) : (ds ++ t).span Char.isDigit = (ds, t) := by
  have hstop : t.takeWhile Char.isDigit = [] ∧ t.dropWhile Char.isDigit = t := by
    cases t with
    | nil => exact ⟨rfl, rfl⟩
    | cons c t => simp [ht c rfl]
  rw [span_eq_takeWhile_dropWhile, takeWhile_append_of_pos hds,
    dropWhile_append_of_pos hds, hstop.1, hstop.2, append_nil]

theorem parseDigits_decimal (n : Nat) (ht : Stops t) :
    parseDigits (Str.decimal n ++ t) = some (n, t) := by
  unfold parseDigits
  rw [span_digits (fun c hc => Str.isDigit_of_mem_decimal hc) fun c hc => (ht c hc).1]
  simp [Str.decimal]

theorem decimal_cons (n : Nat) : ∃ c t, Str.decimal n = c :: t ∧ c.isDigit = true := by
  obtain ⟨c, t, h⟩ := exists_cons_of_ne_nil (l := Str.decimal n) (by simp [Str.decimal])
  exact ⟨c, t, h, Str.isDigit_of_mem_decimal (h ▸ mem_cons_self)⟩

theorem ne_of_isDigit {c d : Char} (hc : c.isDigit = true) (hd : d.isDigit = false) : c ≠ d := by
  rintro rfl
  rw [hc] at hd
  cases hd

theorem parseNumber_decimal (n : Nat) (ht : Stops t) :
    parseNumber (Str.decimal n ++ t) = some (.num (.posInt n), t) := by
  unfold parseNumber
  rw [parseDigits_decimal n ht, Option.bind_some]
  dsimp only
  split
  next rest heq => exact absurd rfl (ht 'e' (by simp)).2
  next => rfl

theorem parseNumber_float (bits : UInt64) (ht : Stops t) :
    parseNumber ('0' :: 'e' :: (Str.decimal bits.toNat ++ t)) =
      some (.num (.float bits), t) := by
  change Option.map _ (parseDigits (Str.decimal bits.toNat ++ t)) = _
  rw [parseDigits_decimal _ ht, Option.map_some, UInt64.ofNat_toNat]

theorem print_cons (j : Json) : ∃ c t, print j = c :: t ∧ c ≠ ']' ∧ Str.isWhitespace c = false := by
  have hdigit : ∀ {c : Char}, c.isDigit = true → c ≠ ']' ∧ Str.isWhitespace c = false := by
    intro c hc
    refine ⟨ne_of_isDigit hc rfl, ?_⟩
    simp only [Char.isDigit, Bool.and_eq_true, decide_eq_true_eq] at hc
    have hn : 48 ≤ c.toNat ∧ c.toNat ≤ 57 := hc
    simp [Str.isWhitespace]
    omega
  cases j with
  | num n =>
    cases n with
    | posInt n =>
      obtain ⟨c, t, h, hc⟩ := decimal_cons n
      exact ⟨c, t, h, hdigit hc⟩
    | negInt n => exact ⟨'-', _, rfl, by decide, rfl⟩
    | float bits => exact ⟨'0', _, rfl, by decide, rfl⟩
  | null => exact ⟨'n', _, rfl, by decide, rfl⟩
  | bool b => cases b <;> exact ⟨_, _, rfl, by decide, rfl⟩
  | str s => exact ⟨'"', _, rfl, by decide, rfl⟩
  | arr items => cases items <;> exact ⟨'[', _, rfl, by decide, rfl⟩
  | obj fields => cases fields <;> exact ⟨'\x7b', _, rfl, by decide, rfl⟩

theorem parseValue_number {n : Number} (hn : n.valid = true) (fuel : Nat) (ht : Stops t) :
    parseValue (fuel + 1) (printNumber n ++ t) = some (.num n, t) := by
  cases n with
  | posInt n =>
    obtain ⟨c, t', h, hc⟩ := decimal_cons n
    have hne : ∀ d : Char, d.isDigit = false → c ≠ d := fun d hd => ne_of_isDigit hc hd
    have hparse := parseNumber_decimal n ht
    change parseValue (fuel + 1) (Str.decimal n ++ t) = _
    rw [h, cons_append] at hparse ⊢
    simp only [parseValue, hne 'n' rfl, hne 't' rfl, hne 'f' rfl, hne '"' rfl, hne '[' rfl,
      hne '\x7b' rfl, hne '-' rfl, if_false, hparse]
  | negInt n =>
    have hneg : -(n.natAbs : Int) = n := by
      have := (of_decide_eq_true hn).2
      omega
    have hparse := parseDigits_decimal n.natAbs ht
    change parseValue (fuel + 1) ('-' :: Str.decimal n.natAbs ++ t) = _
    generalize n.natAbs = m at hneg hparse
    simp [parseValue, hparse, hneg]
  | float bits =>
    have hparse := parseNumber_float bits ht
    simp [printNumber, parseValue, hparse]

theorem stops_printItems (items : List Json) (t : Text) : Stops (printItems items ++ t) := by
  cases items <;> exact stops_cons _ rfl (by decide)

theorem stops_printFields (fields : List (Text × Json)) (t : Text) :
    Stops (printFields fields ++ t) := by
  cases fields <;> exact stops_cons _ rfl (by decide)

theorem parseField_print {fuel : Nat} {k : Text} (h : parseValue fuel (print j ++ t) = some (j, t))
    :
    parseField (fuel + 1) (printString k ++ ':' :: (print j ++ t)) = some ((k, j), t) := by
  have hkey := parseString_print k (':' :: (print j ++ t))
  simp [printString, parseField, hkey, Str.stripPrefix, h]

mutual

theorem parseValue_print : ∀ (j : Json) (fuel : Nat) (t : Text), j.valid = true →
    (print j).length ≤ fuel → Stops t → parseValue fuel (print j ++ t) = some (j, t)
  | j, 0, _, _, hlen, _ => by
    obtain ⟨c, t', h, -⟩ := print_cons j
    rw [h] at hlen
    cases hlen
  | .null, fuel + 1, t, _, _, _ => by simp [print, parseValue, Str.stripPrefix]
  | .bool true, fuel + 1, t, _, _, _ => by simp [print, parseValue, Str.stripPrefix]
  | .bool false, fuel + 1, t, _, _, _ => by simp [print, parseValue, Str.stripPrefix]
  | .num n, fuel + 1, t, hvalid, _, ht => by
    rw [print]
    exact parseValue_number (by simpa [valid] using hvalid) fuel ht
  | .str s, fuel + 1, t, _, _, _ => by
    have hparse := parseString_print s t
    simp [print, printString, parseValue, hparse]
  | .arr [], fuel + 1, t, _, _, _ => by simp [print, parseValue]
  | .arr (j :: items), fuel + 1, t, hvalid, hlen, ht => by
    simp only [valid, validItems, Bool.and_eq_true] at hvalid
    simp only [print, length_cons, length_append] at hlen
    have hj := parseValue_print j fuel (printItems items ++ t) hvalid.1 (by omega)
      (stops_printItems items t)
    have hitems := parseItems_print items fuel t hvalid.2 (by omega)
    obtain ⟨c, t', hc, hne, -⟩ := print_cons j
    have hhead : (print j ++ (printItems items ++ t)).head? ≠ some ']' := by
      rw [hc]
      simpa using hne
    rw [print, cons_append, append_assoc, parseValue]
    simp only [Char.reduceEq, if_false, if_true, if_neg hhead, hj, hitems, Option.bind_some,
      Option.map_some]
  | .obj [], fuel + 1, t, _, _, _ => by simp [print, parseValue]
  | .obj ((k, j) :: fields), fuel + 1, t, hvalid, hlen, ht => by
    simp only [valid, validFields, Bool.and_eq_true] at hvalid
    simp only [print, length_cons, length_append] at hlen
    obtain ⟨fuel, rfl⟩ : ∃ k, fuel = k + 1 := Nat.exists_eq_succ_of_ne_zero (by omega)
    have hj := parseValue_print j fuel (printFields fields ++ t) hvalid.2.1 (by omega)
      (stops_printFields fields t)
    have hfields := parseFields_print fields (fuel + 1) t hvalid.2.2 (by omega)
    have hhead : (printString k ++ ':' :: (print j ++ (printFields fields ++ t))).head? ≠
        some '\x7d' := by
      simp [printString]
    have hfield := parseField_print (k := k) hj
    rw [print, cons_append, append_assoc, cons_append, append_assoc, parseValue]
    simp only [Char.reduceEq, if_false, if_true, if_neg hhead, hfield, hfields, Option.bind_some,
      Option.map_some]

theorem parseItems_print : ∀ (items : List Json) (fuel : Nat) (t : Text),
    validItems items = true → (printItems items).length ≤ fuel →
    parseItems fuel (printItems items ++ t) = some (items, t)
  | items, 0, _, _, hlen => by cases items <;> cases hlen
  | [], fuel + 1, t, _, _ => by simp [printItems, parseItems]
  | j :: items, fuel + 1, t, hvalid, hlen => by
    simp only [validItems, Bool.and_eq_true] at hvalid
    simp only [printItems, length_cons, length_append] at hlen
    have hj := parseValue_print j fuel (printItems items ++ t) hvalid.1 (by omega)
      (stops_printItems items t)
    have hitems := parseItems_print items fuel t hvalid.2 (by omega)
    simp [printItems, parseItems, hj, hitems]

theorem parseFields_print : ∀ (fields : List (Text × Json)) (fuel : Nat) (t : Text),
    validFields fields = true → (printFields fields).length ≤ fuel →
    parseFields fuel (printFields fields ++ t) = some (fields, t)
  | fields, 0, _, _, hlen => by cases fields <;> cases hlen
  | [], fuel + 1, t, _, _ => by simp [printFields, parseFields]
  | (k, j) :: fields, fuel + 1, t, hvalid, hlen => by
    simp only [validFields, Bool.and_eq_true] at hvalid
    simp only [printFields, length_cons, length_append] at hlen
    obtain ⟨fuel, rfl⟩ : ∃ k, fuel = k + 1 := Nat.exists_eq_succ_of_ne_zero (by omega)
    have hj := parseValue_print j fuel (printFields fields ++ t) hvalid.1 (by omega)
      (stops_printFields fields t)
    have hfields := parseFields_print fields (fuel + 1) t hvalid.2 (by omega)
    have hfield := parseField_print (k := k) hj
    simp [printFields, parseFields, hfield, hfields]

end

/-! ## One line -/

open Str (OneLine oneLine_nil)

theorem oneLine_decimal (n : Nat) : OneLine (Str.decimal n) := by
  constructor <;>
    intro h <;>
    cases Str.isDigit_of_mem_decimal h

theorem oneLine_printString (s : Text) : OneLine (printString s) := by
  have hescape : ∀ c, OneLine (escapeChar c) := by
    intro c
    unfold escapeChar
    split
    next h => rcases h with rfl | rfl <;> simp [oneLine_nil]
    next =>
      split
      next => simp [oneLine_nil]
      next hn =>
        split
        next => simp [oneLine_nil]
        next hr => simp [oneLine_nil, hn, hr]
  have hbody : OneLine (s.flatMap escapeChar) := by
    induction s with
    | nil => exact oneLine_nil
    | cons c s ih => exact Str.oneLine_append.2 ⟨hescape c, ih⟩
  simp [printString, hbody, oneLine_nil]

mutual

theorem oneLine_print : ∀ j : Json, OneLine (print j)
  | .null => by simp [print, oneLine_nil]
  | .bool true => by simp [print, oneLine_nil]
  | .bool false => by simp [print, oneLine_nil]
  | .num (.posInt n) => by simpa [print, printNumber] using oneLine_decimal n
  | .num (.negInt n) => by simpa [print, printNumber] using oneLine_decimal n.natAbs
  | .num (.float bits) => by simpa [print, printNumber] using oneLine_decimal bits.toNat
  | .str s => by simpa [print] using oneLine_printString s
  | .arr [] => by simp [print, oneLine_nil]
  | .arr (j :: items) => by simp [print, oneLine_print j, oneLine_printItems items]
  | .obj [] => by simp [print, oneLine_nil]
  | .obj ((k, j) :: fields) => by
    simp [print, oneLine_printString k, oneLine_print j, oneLine_printFields fields]

theorem oneLine_printItems : ∀ items : List Json, OneLine (printItems items)
  | [] => by simp [printItems, oneLine_nil]
  | j :: items => by simp [printItems, oneLine_print j, oneLine_printItems items]

theorem oneLine_printFields : ∀ fields : List (Text × Json), OneLine (printFields fields)
  | [] => by simp [printFields, oneLine_nil]
  | (k, j) :: fields => by
    simp [printFields, oneLine_printString k, oneLine_print j, oneLine_printFields fields]

end

theorem parse_print (h : j.valid = true) : parse (print j) = .ok j := by
  have hparse := parseValue_print j (print j).length [] h le_rfl stops_nil
  rw [append_nil] at hparse
  unfold parse
  rw [hparse]
  exact if_pos h

theorem valid_of_parse (h : parse t = .ok j) : j.valid = true := by
  unfold parse at h
  split at h
  next j' _ =>
    by_cases hvalid : j'.valid = true
    · rw [if_pos hvalid] at h
      cases h
      exact hvalid
    · rw [if_neg hvalid] at h
      cases h
  next => cases h

end Json

end Nanoguard

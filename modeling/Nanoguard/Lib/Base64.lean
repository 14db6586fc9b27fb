import Nanoguard.Lib.RustStr

/-!
# Base64

A decoder for the standard alphabet. It takes groups of four digits; only the last group may be
padded, and then the bits that the padding stands for are zero.
-/

namespace Nanoguard.Base64

def value (c : Char) : Option Nat :=
  if c.isUpper then some (c.toNat - 'A'.toNat)
  else if c.isLower then some (c.toNat - 'a'.toNat + 26)
  else if c.isDigit then some (c.toNat - '0'.toNat + 52)
  else if c = '+' then some 62
  else if c = '/' then some 63
  else none

def decodeOne (x y : Nat) : Option (List UInt8) :=
  let n := x * 64 + y
  if n % 16 = 0 then some [UInt8.ofNat (n / 16)] else none

def decodeTwo (x y z : Nat) : Option (List UInt8) :=
  let n := (x * 64 + y) * 64 + z
  if n % 4 = 0 then some [UInt8.ofNat (n / 2 ^ 10), UInt8.ofNat (n / 2 ^ 2)] else none

def decodeThree (x y z w : Nat) : List UInt8 :=
  let n := ((x * 64 + y) * 64 + z) * 64 + w
  [UInt8.ofNat (n / 2 ^ 16), UInt8.ofNat (n / 2 ^ 8), UInt8.ofNat n]

def decode : Text → Option (List UInt8)
  | [] => some []
  | a :: b :: c :: d :: t => do
    let x ← value a
    let y ← value b
    if d = '=' then
      if t ≠ [] then none
      else if c = '=' then decodeOne x y
      else decodeTwo x y (← value c)
    else
      let z ← value c
      let w ← value d
      let rest ← decode t
      return decodeThree x y z w ++ rest
  | _ => none

theorem ne_pad {c : Char} {v : Nat} (h : value c = some v) : c ≠ '=' := by
  rintro rfl
  cases h

section Groups

variable {a b c d : Char} {x y z w : Nat}

theorem decode_one (ha : value a = some x) (hb : value b = some y) :
    decode [a, b, '=', '='] = decodeOne x y := by
  simp [decode, ha, hb]

theorem decode_two (ha : value a = some x) (hb : value b = some y) (hc : value c = some z) :
    decode [a, b, c, '='] = decodeTwo x y z := by
  simp [decode, ha, hb, hc, ne_pad hc]

theorem decode_three (ha : value a = some x) (hb : value b = some y) (hc : value c = some z)
    (hd : value d = some w) (t : Text) :
    decode (a :: b :: c :: d :: t) = (decode t).map (decodeThree x y z w ++ ·) := by
  simp only [decode, ha, hb, hc, hd, ne_pad hd]
  cases decode t <;> rfl

end Groups

/-! ## The six bits at each place of a group -/

theorem ofNat_eq {n : Nat} {b : UInt8} : n % 256 = b.toNat → UInt8.ofNat n = b :=
  (UInt8.ofNat_eq_iff_mod_eq_toNat n b).2

theorem decodeThree_bits {a b c : UInt8} {n : Nat}
    (hn : n = a.toNat * 2 ^ 16 + b.toNat * 2 ^ 8 + c.toNat) :
    decodeThree (n / 2 ^ 18 % 64) (n / 2 ^ 12 % 64) (n / 2 ^ 6 % 64) (n / 2 ^ 0 % 64) =
      [a, b, c] := by
  have ha := a.toNat_lt
  have hb := b.toNat_lt
  have hc := c.toNat_lt
  have hjoin : ((n / 2 ^ 18 % 64 * 64 + n / 2 ^ 12 % 64) * 64 + n / 2 ^ 6 % 64) * 64 +
      n / 2 ^ 0 % 64 = n := by
    omega
  unfold decodeThree
  simp only [hjoin]
  rw [ofNat_eq (b := a) (by omega), ofNat_eq (b := b) (by omega), ofNat_eq (b := c) (by omega)]

theorem decodeTwo_bits {a b : UInt8} {n : Nat} (hn : n = a.toNat * 2 ^ 16 + b.toNat * 2 ^ 8) :
    decodeTwo (n / 2 ^ 18 % 64) (n / 2 ^ 12 % 64) (n / 2 ^ 6 % 64) = some [a, b] := by
  have ha := a.toNat_lt
  have hb := b.toNat_lt
  unfold decodeTwo
  rw [if_pos (by omega), ofNat_eq (b := a) (by omega), ofNat_eq (b := b) (by omega)]

theorem decodeOne_bits {a : UInt8} {n : Nat} (hn : n = a.toNat * 2 ^ 16) :
    decodeOne (n / 2 ^ 18 % 64) (n / 2 ^ 12 % 64) = some [a] := by
  have ha := a.toNat_lt
  unfold decodeOne
  rw [if_pos (by omega), ofNat_eq (b := a) (by omega)]

end Nanoguard.Base64

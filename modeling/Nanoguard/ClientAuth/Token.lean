import Nanoguard.ClientAuth.Store

/-!
# Wire tokens

`ng_<env>_<24 characters>`. The first ten characters are the key of the row in the store; the
digest of the whole string is what the row keeps. The random bytes of a new token are an input.
-/

namespace Nanoguard.ClientAuth

def isAsciiAlphanumeric (b : UInt8) : Bool :=
  (48 ≤ b && b ≤ 57) || (65 ≤ b && b ≤ 90) || (97 ≤ b && b ≤ 122)

def wirePrefix (wire : Text) : Text := wire.take 10

/-- The letters of a secret. The last one stands there three times. -/
def tokenAlphabet : Text := "abcdefghjkmnpqrstvwxyz23456789zz".toList

abbrev SecretBytes := { bytes : List UInt8 // bytes.length = 24 }

structure Token where
  wire : Text
  tokenPrefix : Text
  hash : Digest

def Token.generate (sha256 : Text → Digest) (envMarker : Char) (secretBytes : SecretBytes) : Token :=
  let secret := secretBytes.1.map fun b => tokenAlphabet.getD (b.toNat % 32) 'z'
  let wire := "ng_".toList ++ envMarker :: '_' :: secret
  { wire, tokenPrefix := wirePrefix wire, hash := sha256 wire }

structure PrefixedToken where
  wire : Text
  tokenPrefix : Text
  deriving DecidableEq, Repr

def PrefixedToken.parse (wire : Text) : Option PrefixedToken :=
  let bytes := Str.bytes wire
  if bytes.length ≠ 29 then none
  else if ¬ "ng_".toList <+: wire then none
  else if bytes[4]? ≠ some 95 then none
  else if ¬ bytes[3]?.any isAsciiAlphanumeric then none
  else if ¬ (bytes.drop 5).all isAsciiAlphanumeric then none
  else some { wire, tokenPrefix := wirePrefix wire }

/-- `parse` with its indexing: `none` stands for an index out of range. -/
def PrefixedToken.parseIndexed (wire : Text) : Option (Option PrefixedToken) :=
  let bytes := Str.bytes wire
  if bytes.length ≠ 29 then some none
  else if ¬ "ng_".toList <+: wire then some none
  else do
    if (← bytes[4]?) ≠ 95 then some none
    else if !isAsciiAlphanumeric (← bytes[3]?) then some none
    else if bytes.length < 5 then none
    else if !(bytes.drop 5).all isAsciiAlphanumeric then some none
    else return some { wire, tokenPrefix := wirePrefix wire }

/-- The comparison of digests takes constant time; its result is equality. -/
def verify (sha256 : Text → Digest) (wire : Text) (storedHash : List UInt8) : Bool :=
  (sha256 wire).1 == storedHash

theorem PrefixedToken.parse_eq_some {wire : Text} {t : PrefixedToken}
    (h : PrefixedToken.parse wire = some t) : t = ⟨wire, wirePrefix wire⟩ := by
  unfold parse at h
  simp only [Option.ite_none_left_eq_some] at h
  obtain ⟨-, -, -, -, -, h⟩ := h
  exact (Option.some.inj h).symm

end Nanoguard.ClientAuth

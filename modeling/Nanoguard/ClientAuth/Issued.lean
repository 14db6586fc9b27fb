import Nanoguard.ClientAuth.Runtime
import Nanoguard.ClientAuth.Token
import Nanoguard.Lib.Utf8

/-!
# Issued tokens

The parser takes exactly the strings of the form of a wire token, although it looks at bytes. So it
takes every token that is issued, and the token is the only string with its prefix that verifies.
-/

namespace Nanoguard.ClientAuth

open List

/-- `ng_<env>_<24 characters>`, all ASCII letters and digits. -/
def IsWire (wire : Text) : Prop :=
  ∃ env secret, wire = "ng_".toList ++ env :: '_' :: secret ∧ env.isAlphanum = true ∧
    secret.length = 24 ∧ ∀ c ∈ secret, c.isAlphanum = true

/-! ## The parser -/

theorem isAsciiAlphanumeric_iff (b : UInt8) :
    isAsciiAlphanumeric b = (Char.ofNat b.toNat).isAlphanum := by
  have hall : ∀ n < 256, isAsciiAlphanumeric (UInt8.ofNat n) = (Char.ofNat n).isAlphanum := by
    decide +kernel
  have hb := hall b.toNat b.toNat_lt
  rwa [UInt8.ofNat_toNat] at hb

theorem toNat_of_isAsciiAlphanumeric {b : UInt8} (h : isAsciiAlphanumeric b = true) :
    b.toNat < 128 := by
  unfold isAsciiAlphanumeric at h
  simp only [Bool.or_eq_true, Bool.and_eq_true, decide_eq_true_eq, UInt8.le_iff_toNat_le] at h
  have h57 : (57 : UInt8).toNat = 57 := rfl
  have h90 : (90 : UInt8).toNat = 90 := rfl
  have h122 : (122 : UInt8).toNat = 122 := rfl
  omega

namespace PrefixedToken

theorem parse_isSome_iff_bytes (wire : Text) : (parse wire).isSome ↔
    (Str.bytes wire).length = 29 ∧ "ng_".toList <+: wire ∧ (Str.bytes wire)[4]? = some 95 ∧
      (Str.bytes wire)[3]?.any isAsciiAlphanumeric = true ∧
      ((Str.bytes wire).drop 5).all isAsciiAlphanumeric = true := by
  unfold parse
  dsimp only
  split_ifs <;> simp_all

theorem isWire_of_bytes {rest : Text} {m : UInt8} {secret : List UInt8}
    (h : Str.bytes rest = m :: 95 :: secret) (hm : isAsciiAlphanumeric m = true)
    (hlen : secret.length = 24) (hsecret : ∀ b ∈ secret, isAsciiAlphanumeric b = true) :
    IsWire ("ng_".toList ++ rest) := by
  have hascii : ∀ b ∈ Str.bytes rest, b.toNat < 128 := by
    rw [h]
    simp only [forall_mem_cons]
    exact ⟨toNat_of_isAsciiAlphanumeric hm, by decide,
      fun b hb => toNat_of_isAsciiAlphanumeric (hsecret b hb)⟩
  have hrest := Utf8.eq_of_ascii_bytes hascii
  rw [h] at hrest
  rw [isAsciiAlphanumeric_iff] at hm
  refine ⟨_, _, congrArg _ hrest, hm, by rw [length_map, hlen], ?_⟩
  intro c hc
  obtain ⟨b, hb, rfl⟩ := mem_map.1 hc
  rw [← isAsciiAlphanumeric_iff]
  exact hsecret b hb

theorem parse_isSome_iff (wire : Text) : (parse wire).isSome ↔ IsWire wire := by
  rw [parse_isSome_iff_bytes]
  constructor
  · rintro ⟨hlen, ⟨rest, rfl⟩, hsep, hmarker, hsecret⟩
    have hbytes : Str.bytes ("ng_".toList ++ rest) = 110 :: 103 :: 95 :: Str.bytes rest :=
      Utf8.bytes_append _ _
    rw [hbytes] at hlen hsep hmarker hsecret
    obtain ⟨m, tail, hm⟩ : ∃ m tail, Str.bytes rest = m :: tail :=
      exists_cons_of_length_pos (by simp only [length_cons] at hlen; omega)
    obtain ⟨sep, secret, rfl⟩ : ∃ sep secret, tail = sep :: secret :=
      exists_cons_of_length_pos (by simp only [hm, length_cons] at hlen; omega)
    rw [hm] at hlen hsep hmarker hsecret
    obtain rfl : sep = 95 := Option.some.inj hsep
    exact isWire_of_bytes hm hmarker (by simpa using hlen) (all_eq_true.1 hsecret)
  · rintro ⟨env, secret, rfl, henv, hlen, hsecret⟩
    have hascii : ∀ c ∈ "ng_".toList ++ env :: '_' :: secret, c.toNat < 128 := by
      simp only [forall_mem_append, forall_mem_cons]
      exact ⟨fun c hc => Str.toNat_of_isAscii rfl hc, Str.toNat_of_isAlphanum henv, by decide,
        fun c hc => Str.toNat_of_isAlphanum (hsecret c hc)⟩
    have hbyte {c : Char} (hc : c.isAlphanum = true) :
        isAsciiAlphanumeric (UInt8.ofNat c.toNat) = true := by
      have hlt := Str.toNat_of_isAlphanum hc
      rw [isAsciiAlphanumeric_iff, UInt8.toNat_ofNat', Nat.mod_eq_of_lt (by omega), Char.ofNat_toNat]
      exact hc
    rw [Utf8.bytes_ascii hascii]
    refine ⟨by simp [hlen], prefix_append _ _, rfl, hbyte henv, ?_⟩
    rw [all_eq_true]
    intro b hb
    obtain ⟨c, hc, rfl⟩ := mem_map.1 (show b ∈ secret.map _ from hb)
    exact hbyte (hsecret c hc)

theorem parseIndexed_eq (wire : Text) : parseIndexed wire = some (parse wire) := by
  unfold parseIndexed parse
  dsimp only
  by_cases hlen : (Str.bytes wire).length = 29
  · split_ifs <;> simp_all
  · rw [if_pos hlen, if_pos hlen]

end PrefixedToken

section Generate

variable {sha256 : Text → Digest}

theorem isAlphanum_tokenAlphabet (n : Nat) :
    (tokenAlphabet.getD (n % 32) 'z').isAlphanum = true := by
  have hall : ∀ k < 32, (tokenAlphabet.getD k 'z').isAlphanum = true := by decide +kernel
  exact hall _ (Nat.mod_lt n (by decide))

theorem isWire_generate {envMarker : Char} (h : envMarker.isAlphanum = true) (bytes : SecretBytes) :
    IsWire (Token.generate sha256 envMarker bytes).wire := by
  refine ⟨envMarker, _, rfl, h, by rw [length_map, bytes.2], ?_⟩
  intro c hc
  obtain ⟨b, -, rfl⟩ := mem_map.1 hc
  exact isAlphanum_tokenAlphabet b.toNat

theorem isAlphanum_of_openWith {debug : Char → Text} {openDb : Except Text Table}
    {config : AuthConfig} {s : Shared} (h : Shared.openWith debug openDb config = .ok s) :
    config.envMarker.isAlphanum = true := by
  unfold Shared.openWith at h
  split at h
  · cases h
  next hmarker => simpa using hmarker

/-- The digest tells wire tokens apart. -/
def CollisionFree (sha256 : Text → Digest) : Prop :=
  ∀ wire wire', IsWire wire → IsWire wire' → sha256 wire = sha256 wire' → wire = wire'

theorem verify_iff {wire : Text} {hash : Digest} :
    verify sha256 wire hash.1 = true ↔ sha256 wire = hash := by
  unfold verify
  rw [beq_iff_eq, Subtype.ext_iff]

/-- **Issued tokens and the parser agree.** -/
theorem issued_token_verifies (sha256 : Text → Digest) (hsha : CollisionFree sha256)
    (debug : Char → Text) (openDb : Except Text Table) (config : AuthConfig) (s : Shared)
    (hopen : Shared.openWith debug openDb config = .ok s) :
    (∀ wire, PrefixedToken.parseIndexed wire = some (PrefixedToken.parse wire) ∧
      ((PrefixedToken.parse wire).isSome ↔ IsWire wire)) ∧
    ∀ bytes : SecretBytes, ∃ token, token = Token.generate sha256 config.envMarker bytes ∧
      PrefixedToken.parse token.wire = some ⟨token.wire, token.tokenPrefix⟩ ∧
      verify sha256 token.wire token.hash.1 = true ∧
      ∀ wire parsed, PrefixedToken.parse wire = some parsed →
        parsed.tokenPrefix = token.tokenPrefix → wire ≠ token.wire →
        verify sha256 wire token.hash.1 = false := by
  refine ⟨fun wire => ⟨PrefixedToken.parseIndexed_eq wire, PrefixedToken.parse_isSome_iff wire⟩, ?_⟩
  intro bytes
  have hwire : IsWire (Token.generate sha256 config.envMarker bytes).wire :=
    isWire_generate (isAlphanum_of_openWith hopen) bytes
  refine ⟨_, rfl, ?_, verify_iff.2 rfl, ?_⟩
  · obtain ⟨parsed, hparsed⟩ :=
      Option.isSome_iff_exists.1 ((PrefixedToken.parse_isSome_iff _).2 hwire)
    rw [hparsed, PrefixedToken.parse_eq_some hparsed]
    rfl
  · intro wire parsed hparsed _ hne
    have hwire' := (PrefixedToken.parse_isSome_iff wire).1 (Option.isSome_of_mem hparsed)
    rw [← Bool.not_eq_true, verify_iff]
    exact fun heq => hne (hsha _ _ hwire' hwire heq)

end Generate

def paddedBytes (wire : Text) : Digest :=
  ⟨(Str.bytes wire ++ List.replicate 32 0).take 32, by simp⟩

theorem collisionFree_paddedBytes : CollisionFree paddedBytes := by
  have hbytes {wire : Text} (h : IsWire wire) : (paddedBytes wire).1.take 29 = Str.bytes wire := by
    have hlen := ((PrefixedToken.parse_isSome_iff_bytes wire).1
      ((PrefixedToken.parse_isSome_iff wire).2 h)).1
    unfold paddedBytes
    rw [take_take]
    exact take_left' hlen
  intro wire wire' h h' heq
  have htake := congrArg (fun d : Digest => d.1.take 29) heq
  simp only [hbytes h, hbytes h'] at htake
  exact Utf8.bytes_injective htake

theorem issued_test_token :
    ∃ token, token = Token.generate paddedBytes 't' ⟨List.replicate 24 255, rfl⟩ ∧
      token.wire = "ng_t_zzzzzzzzzzzzzzzzzzzzzzzz".toList ∧
      PrefixedToken.parse token.wire = some ⟨token.wire, token.tokenPrefix⟩ ∧
      verify paddedBytes token.wire token.hash.1 = true := by
  obtain ⟨token, rfl, hparse, hverify, -⟩ := (issued_token_verifies paddedBytes
    collisionFree_paddedBytes (fun c => ['\'', c, '\'']) (.ok .empty) { envMarker := 't' } _ rfl).2
    ⟨List.replicate 24 255, rfl⟩
  exact ⟨_, rfl, by decide, hparse, hverify⟩

end Nanoguard.ClientAuth

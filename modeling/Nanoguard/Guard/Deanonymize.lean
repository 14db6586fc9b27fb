import Nanoguard.Guard.Vault
import Nanoguard.Lib.Slots

/-!
# Restoring originals

Puts the values of a vault back in place of its placeholders, one entry after the other, each on the
text the entries before it left behind. The order of the entries is that of a hash map.
-/

namespace Nanoguard.Guard

def brackets : Delims where
  op := '['
  cl := ']'
  ne := by decide

inductive MatchingStrategy where
  | exact
  | caseInsensitive
  deriving DecidableEq, Repr

def Exact.restore (output : Text) (entries : List (Text × Text)) : Text :=
  entries.foldl (fun out e => if Str.contains out e.1 then Str.replace out e.1 e.2 else out) output

namespace CaseInsensitive

/-- `[u8]::eq_ignore_ascii_case` on the bytes of two texts. -/
def eqIgnoreAsciiCase (a b : Text) : Bool := Str.toAsciiLowercase a == Str.toAsciiLowercase b

/-- The sliding window over the text. `skip` characters belong to the occurrence found last. -/
def replaceGo (needle original : Text) : Nat → Text → Text
  | _, [] => []
  | 0, c :: t =>
    if eqIgnoreAsciiCase ((c :: t).take needle.length) needle then
      original ++ replaceGo needle original (needle.length - 1) t
    else c :: replaceGo needle original 0 t
  | skip + 1, _ :: t => replaceGo needle original skip t

def restore (output : Text) (entries : List (Text × Text)) : Text :=
  entries.foldl (fun out e => if e.1.isEmpty then out else replaceGo e.1 e.2 0 out) output

end CaseInsensitive

def MatchingStrategy.restore : MatchingStrategy → Text → List (Text × Text) → Text
  | .exact => Exact.restore
  | .caseInsensitive => CaseInsensitive.restore

/-- Names that are not implemented or not known fall back to the exact strategy. -/
def strategyFromName (name : Text) : MatchingStrategy :=
  let name := Str.toAsciiLowercase name
  if name = "case_insensitive".toList ∨ name = "case-insensitive".toList then .caseInsensitive
  else .exact

def restore {V : Type} [Vault V] (strategy : MatchingStrategy) (vault : V) (output : Text) : Text :=
  if Vault.isEmpty vault then output else strategy.restore output (Vault.entries vault)

end Nanoguard.Guard

import Nanoguard.Policy.Bundle
import Nanoguard.Proxy.Redact

/-!
# Checking a file before it is written

The console checks a file by its name, with a validator for each family of files. The validators
for dictionaries repeat the checks of the loaders. The parsers of other crates are parameters.
-/

namespace Nanoguard.Console

open Matcher (acDictTarget parseRegexPattern)
open Regex (Engine)

structure ValidationResult where
  valid : Bool
  error : Option Text
  deriving DecidableEq, Repr

def ValidationResult.ofExcept {α : Type} : Except Text α → ValidationResult
  | .ok _ => ⟨true, none⟩
  | .error e => ⟨false, some e⟩

theorem ValidationResult.valid_ofExcept {α : Type} {r : Except Text α} :
    (ofExcept r).valid = true ↔ ∃ a, r = .ok a := by
  cases r with
  | ok a => exact ⟨fun _ => ⟨a, rfl⟩, fun _ => rfl⟩
  | error e => exact ⟨nofun, nofun⟩

/-! ## Dictionaries -/

def lineAt (idx : Nat) : Text := "line ".toList ++ Str.decimal (idx + 1) ++ ": ".toList

def checkRegex (eng : Engine) (caseInsensitive : Bool) (idx : Nat) (body : Text) :
    Except Text Unit :=
  match eng.compile caseInsensitive body with
  | some _ => .ok ()
  | none => .error (lineAt idx ++ "invalid regex `".toList ++ body ++ "`".toList)

def checkDictPattern (eng : Engine) (idx : Nat) (pattern : Text) : Except Text Unit :=
  match parseRegexPattern pattern with
  | some body => checkRegex eng true idx body
  | none => .ok ()

def validateDictLine (eng : Engine) (numbered : Text × Nat) : Except Text Unit :=
  let (rawLine, idx) := numbered
  let line := Str.trim rawLine
  if line.isEmpty || line.head? = some '#' then .ok ()
  else
    match (Str.splitChar '\t' line).map Str.trim with
    | [] => .ok ()
    | pattern :: cols =>
      if pattern.isEmpty then .ok ()
      else do
        let _ ← acDictTarget (lineAt idx) cols
        checkDictPattern eng idx pattern

def validateDict (eng : Engine) (content : Text) : ValidationResult :=
  .ofExcept ((Str.lines content).zipIdx.forM (validateDictLine eng))

def validatePiiDictLine (eng : Engine) (numbered : Text × Nat) : Except Text Unit :=
  let (rawLine, idx) := numbered
  let line := Str.trim rawLine
  if line.isEmpty || line.head? = some '#' then .ok ()
  else
    match ((Str.splitChar '\t' line).head?.bind (Str.stripPrefix ['/'])).bind
      (Str.rsplitOnce '/') with
    | none => .ok ()
    | some (stripped, _) => if stripped.isEmpty then .ok () else checkRegex eng false idx stripped

def validatePiiDict (eng : Engine) (content : Text) : ValidationResult :=
  .ofExcept ((Str.lines content).zipIdx.forM (validatePiiDictLine eng))

/-! ## Policies and the configuration -/

def validatePolicy (parseYaml : Text → Except Text Policy) (content : Text) : ValidationResult :=
  .ofExcept (Policy.fromYamlStr parseYaml content)

/-- Only the syntax and the types of the fields are checked. -/
def validateToml {α : Type} (parseToml : Text → Except Text α) (content : Text) :
    ValidationResult :=
  .ofExcept ((parseToml content).mapError fun _ => "parsing config TOML".toList)

/-! ## Names of files -/

inductive FileKind where
  | policy
  | toml
  | piiDict
  | dict
  | unknown
  deriving DecidableEq, Repr

def fileKind (path : Text) : FileKind :=
  let lower := Str.toAsciiLowercase path
  let endsWith (ext : Text) : Bool := decide (ext <:+ lower)
  if endsWith ".yaml".toList || endsWith ".yml".toList then .policy
  else if endsWith ".toml".toList then .toml
  else if Str.contains lower "pii".toList && endsWith ".txt".toList then .piiDict
  else if endsWith ".txt".toList then .dict
  else .unknown

def validateByPath {α : Type} (eng : Engine) (parseYaml : Text → Except Text Policy)
    (parseToml : Text → Except Text α) (path content : Text) : ValidationResult :=
  match fileKind path with
  | .policy => validatePolicy parseYaml content
  | .toml => validateToml parseToml content
  | .piiDict => validatePiiDict eng content
  | .dict => validateDict eng content
  | .unknown => ⟨false, some ("unknown file type for `".toList ++ path ++ "`".toList)⟩

inductive PathComponent where
  | rootDir
  | curDir
  | parentDir
  | normal (name : Text)
  deriving DecidableEq, Repr

/-- The components of a path. A dot counts only at the start. -/
def components (path : Text) : List PathComponent :=
  let segments := Str.splitChar '/' path
  let first : List PathComponent :=
    if path.head? = some '/' then [.rootDir]
    else if segments.head? = some ".".toList then [.curDir]
    else []
  first ++ segments.filterMap fun segment =>
    if segment.isEmpty || segment = ".".toList then none
    else if segment = "..".toList then some .parentDir
    else some (.normal segment)

/-- The path leads out of the directory that it starts in. -/
def leavesDir (path : Text) : Bool :=
  (components path).any fun c => c = .parentDir || c = .rootDir

def fileName (path : Text) : Option Text :=
  match (components path).getLast? with
  | some (.normal name) => some name
  | _ => none

def isSafeEditablePath (path : Text) : Bool :=
  !leavesDir path && (decide ("dicts/".toList <+: path) || decide ("policies/".toList <+: path) ||
    path = "nanoguard.toml".toList)

end Nanoguard.Console

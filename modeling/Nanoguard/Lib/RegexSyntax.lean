import Nanoguard.Lib.Regex

/-!
# Concrete syntax of patterns and replacement templates

`parse` reads literal characters, the escapes `\b` and `\d`, escaped punctuation, bracketed classes
with ranges, groups `(?:a|b)`, and the repetitions `?`, `*`, `+`, `{n}`, `{n,}` and `{n,m}` of a class.
It refuses everything else. `expand` reads a replacement template: `$name` and `${name}` stand for
capture groups and `$$` for a dollar sign. Parsers take their fuel from the length of the text.
-/

namespace Nanoguard.Regex

/-! ## Patterns -/

/-- The characters that an escape makes literal. -/
def isMeta (c : Char) : Bool := "\\.+*?()|[]\x7b\x7d^$#&-~".toList.contains c

/-- The characters with a meaning of their own outside a class. -/
def isOperator (c : Char) : Bool := "\\.+*?()|[]\x7b\x7d^$".toList.contains c

/-- The characters with a meaning of their own inside a class. -/
def isClassOperator (c : Char) : Bool := "[]\\&~^-".toList.contains c

/-- The items of a class up to its closing bracket. A dash is an item right before it. -/
def parseClass : Nat → Text → Option (List ClassItem × Text)
  | 0, _ => none
  | fuel + 1, s =>
    match s with
    | [] => none
    | ']' :: s => some ([], s)
    | '-' :: ']' :: s => some ([.range '-' '-'], s)
    | '\\' :: 'd' :: s => (parseClass fuel s).map fun (items, s) => (.digit :: items, s)
    | '\\' :: c :: s =>
      if isMeta c then (parseClass fuel s).map fun (items, s) => (.range c c :: items, s)
      else none
    | c :: '-' :: d :: s =>
      if isClassOperator c then none
      else if d = ']' then some ([.range c c, .range '-' '-'], s)
      else if isClassOperator d || d < c then none
      else (parseClass fuel s).map fun (items, s) => (.range c d :: items, s)
    | c :: s =>
      if isClassOperator c then none
      else (parseClass fuel s).map fun (items, s) => (.range c c :: items, s)

/-- A class after its opening bracket. A dash is an item right after it. -/
def parseItems (s : Text) : Option (List ClassItem × Text) :=
  match s with
  | '-' :: s => (parseClass s.length s).map fun (items, s) => (.range '-' '-' :: items, s)
  | s => (parseClass s.length s).filter fun (items, _) => !items.isEmpty

def parseNat (s : Text) : Option (Nat × Text) :=
  let digits := s.takeWhile Char.isDigit
  if digits.isEmpty then none
  else some (digits.foldl (fun n c => 10 * n + (c.toNat - '0'.toNat)) 0, s.drop digits.length)

/-- The bounds of a repetition, if one follows. -/
def parseBounds (s : Text) : Option (Option (Nat × Option Nat) × Text) :=
  match s with
  | '?' :: s => some (some (0, some 1), s)
  | '*' :: s => some (some (0, none), s)
  | '+' :: s => some (some (1, none), s)
  | '{' :: s =>
    match parseNat s with
    | some (lo, '}' :: s) => some (some (lo, some lo), s)
    | some (lo, ',' :: '}' :: s) => some (some (lo, none), s)
    | some (lo, ',' :: s) =>
      match parseNat s with
      | some (hi, '}' :: s) => if lo ≤ hi then some (some (lo, some hi), s) else none
      | _ => none
    | _ => none
  | s => some (none, s)

def repeated (items : List ClassItem) (s : Text) : Option (Re × Text) :=
  (parseBounds s).map fun
    | (none, s) => (.cls items, s)
    | (some (lo, hi), s) => (.rep items lo hi, s)

mutual

/-- Alternatives, up to a closing parenthesis or the end of the text. -/
def parseAlt : Nat → Text → Option (Re × Text)
  | 0, _ => none
  | fuel + 1, s =>
    match parseSeq fuel s with
    | some (a, '|' :: s) => (parseAlt fuel s).map fun (b, s) => (.alt a b, s)
    | r => r

def parseSeq : Nat → Text → Option (Re × Text)
  | 0, _ => none
  | fuel + 1, s =>
    match parseAtom fuel s with
    | none => none
    | some (a, s) =>
      match s with
      | [] => some (a, [])
      | '|' :: _ => some (a, s)
      | ')' :: _ => some (a, s)
      | s => (parseSeq fuel s).map fun (b, s) => (.seq a b, s)

def parseAtom : Nat → Text → Option (Re × Text)
  | 0, _ => none
  | fuel + 1, s =>
    match s with
    | '\\' :: 'b' :: s => some (.wordB, s)
    | '\\' :: 'd' :: s => repeated [.digit] s
    | '\\' :: c :: s => if isMeta c then repeated [.range c c] s else none
    | '[' :: s => (parseItems s).bind fun (items, s) => repeated items s
    | '(' :: '?' :: ':' :: s =>
      match parseAlt fuel s with
      | some (a, ')' :: s) => some (a, s)
      | _ => none
    | c :: s => if isOperator c then none else repeated [.range c c] s
    | [] => none

end

/-- The number of positions of the compiled expression, with bounded repetitions unrolled. -/
def Re.size : Re → Nat
  | .cls _ => 1
  | .wordB => 1
  | .seq a b => a.size + b.size
  | .alt a b => a.size + b.size
  | .rep _ lo hi => max lo (hi.getD (lo + 1))

/-- The expression a pattern text denotes, if it stays below the size limit of compilers. -/
def parse (s : Text) : Option Re :=
  match parseAlt (3 * s.length + 1) s with
  | some (e, []) => if e.size ≤ 256 then some e else none
  | _ => none

/-! ## Replacement templates -/

def isCapLetter (c : Char) : Bool := c == '_' || c.isAlphanum

/-- The group name at the start of a template after its dollar sign, and the rest. -/
def findCapRef (s : Text) : Option (Text × Text) :=
  match s with
  | '{' :: s =>
    let name := s.takeWhile (· != '}')
    if name.length < s.length then some (name, s.drop (name.length + 1)) else none
  | s =>
    let name := s.takeWhile isCapLetter
    if name.isEmpty then none else some (name, s.drop name.length)

def expandGo (capture : Text → Text) : Nat → Text → Text
  | 0, s => s
  | _ + 1, [] => []
  | fuel + 1, c :: s =>
    if c != '$' then c :: expandGo capture fuel s
    else if s.head? = some '$' then '$' :: expandGo capture fuel s.tail
    else
      match findCapRef s with
      | none => '$' :: expandGo capture fuel s
      | some (name, s) => capture name ++ expandGo capture fuel s

def expand (capture : Text → Text) (template : Text) : Text :=
  expandGo capture template.length template

theorem expand_of_no_dollar (capture : Text → Text) {template : Text} (h : '$' ∉ template) :
    expand capture template = template := by
  have go : ∀ (s : Text) (fuel : Nat), s.length ≤ fuel → '$' ∉ s →
      expandGo capture fuel s = s := by
    intro s
    induction s with
    | nil => intro fuel _ _; cases fuel <;> rfl
    | cons c s ih =>
      intro fuel hf hs
      cases fuel with
      | zero => cases hf
      | succ fuel =>
        have hc : (c != '$') = true := by
          simp only [bne_iff_ne]
          rintro rfl
          exact hs List.mem_cons_self
        rw [expandGo, ite_eq_left_iff.2 (fun hn => absurd hc hn),
          ih fuel (by simpa using hf) (fun hm => hs (List.mem_cons_of_mem _ hm))]
  exact go template _ (Nat.le_refl _) h

/-! ## Engines -/

/-- A regular expression engine. On the fragment that `parse` reads it runs the leftmost-first
search; nothing is said about other patterns. -/
structure Engine where
  tables : CharTables
  compile : Bool → Text → Option Regex
  compile_parse : ∀ p e, parse p = some e → compile false p = some (e.toRegex tables)

def Engine.basic : Engine where
  tables := .ascii
  compile _ p := (parse p).map (·.toRegex .ascii)
  compile_parse p e h := by rw [h]; rfl

end Nanoguard.Regex

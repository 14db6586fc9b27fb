import Nanoguard.Lib.JsonCodec

/-!
# How documents are spelled

The kind of a document shows in its first and its last character: `Spelled` says how. The parser
accepts nothing else (`spelled_of_parse`). `parseSpaced` is the parser with white space around the
document.
-/

namespace Nanoguard.Json

open List

variable {t rest : Text} {v : Json} {fuel : Nat}

def isSpace (c : Char) : Bool := c == ' ' || c == '\t' || c == '\n' || c == '\r'

/-- The text of a number, `true`, `false` or `null`. -/
def Scalar (t : Text) : Prop := t ≠ [] ∧ ∀ c ∈ t, c.isAlphanum = true ∨ c ∈ ['+', '-', '.']

/-- The text can stand for a value of this kind. -/
def Spelled : Json → Text → Prop
  | .obj _, t => ∃ mid, t = '\x7b' :: (mid ++ ['\x7d'])
  | .arr _, t => ∃ mid, t = '[' :: (mid ++ [']'])
  | .str _, t => ∃ mid, t = '"' :: (mid ++ ['"'])
  | _, t => Scalar t

theorem parseString_split {s : Text} (h : parseString t = some (s, rest)) :
    ∃ u, t = u ++ '"' :: rest := by
  induction t using parseString.induct generalizing s with
  | case1 => cases h
  | case2 =>
    cases h
    exact ⟨[], rfl⟩
  | case3 c hc =>
    rw [parseString, if_neg hc] at h
    cases h
  | case4 d t =>
    cases h
    exact ⟨[], rfl⟩
  | case5 d t hc ih =>
    obtain ⟨q, hq, heq⟩ := Option.map_eq_some_iff.1 h
    cases heq
    obtain ⟨u, rfl⟩ := ih hq
    exact ⟨'\\' :: d :: u, rfl⟩
  | case6 c d t hc hb ih =>
    rw [parseString, if_neg hc, if_neg hb] at h
    obtain ⟨q, hq, heq⟩ := Option.map_eq_some_iff.1 h
    cases heq
    obtain ⟨u, hu⟩ := ih hq
    exact ⟨c :: u, by rw [hu]; rfl⟩

theorem parseDigits_split {n : Nat} (h : parseDigits t = some (n, rest)) :
    ∃ ds, t = ds ++ rest ∧ ds ≠ [] ∧ ∀ c ∈ ds, c.isAlphanum = true := by
  unfold parseDigits at h
  rw [span_eq_takeWhile_dropWhile] at h
  dsimp only at h
  split at h
  · cases h
  rename_i hne
  cases h
  refine ⟨t.takeWhile Char.isDigit, takeWhile_append_dropWhile.symm, ?_, ?_⟩
  · intro hnil
    exact hne (by rw [hnil]; rfl)
  · intro c hc
    unfold Char.isAlphanum
    rw [mem_takeWhile_imp hc, Bool.or_true]

theorem parseNumber_split (h : parseNumber t = some (v, rest)) :
    ∃ n core, v = .num n ∧ t = core ++ rest ∧ Scalar core := by
  obtain ⟨⟨n, r⟩, hds, hq⟩ := Option.bind_eq_some_iff.1 h
  obtain ⟨ds, rfl, hne, hall⟩ := parseDigits_split hds
  dsimp only at hq
  split at hq
  · obtain ⟨⟨m, r'⟩, hds', heq⟩ := Option.map_eq_some_iff.1 hq
    cases heq
    obtain ⟨ds', rfl, -, hall'⟩ := parseDigits_split hds'
    refine ⟨_, ds ++ 'e' :: ds', rfl, by simp, by simp, fun c hc => .inl ?_⟩
    rcases mem_append.1 hc with hc | hc
    · exact hall c hc
    · rcases mem_cons.1 hc with rfl | hc
      · rfl
      · exact hall' c hc
  · cases hq
    exact ⟨_, ds, rfl, rfl, hne, fun c hc => .inl (hall c hc)⟩

theorem scalar_of_all (hne : t ≠ []) (h : t.all Char.isAlphanum = true) : Scalar t :=
  ⟨hne, fun c hc => .inl (all_eq_true.1 h c hc)⟩

theorem stripPrefix_split {p : Text} (h : Str.stripPrefix p t = some rest) : t = p ++ rest := by
  unfold Str.stripPrefix at h
  split at h
  · rename_i hp
    obtain ⟨r, rfl⟩ := hp
    simpa using h
  · cases h

/-- What the parser takes off a text: a value with its spelling, and lists up to their end. -/
structure Takes (fuel : Nat) : Prop where
  value : ∀ {t rest v}, parseValue fuel t = some (v, rest) → ∃ core, t = core ++ rest ∧ Spelled v core
  items : ∀ {t rest vs}, parseItems fuel t = some (vs, rest) → ∃ u, t = u ++ ']' :: rest
  field : ∀ {t rest f}, parseField fuel t = some (f, rest) → ∃ u, t = u ++ rest
  fields : ∀ {t rest fs}, parseFields fuel t = some (fs, rest) → ∃ u, t = u ++ '\x7d' :: rest

theorem takes_zero : Takes 0 := by
  constructor
  all_goals
    intros
    contradiction

theorem parseItems_succ (ih : Takes fuel) {vs : List Json}
    (h : parseItems (fuel + 1) t = some (vs, rest)) : ∃ u, t = u ++ ']' :: rest := by
  cases t with
  | nil => cases h
  | cons c t =>
    rw [parseItems] at h
    split at h
    · rename_i hc
      cases h
      exact ⟨[], by rw [hc]; rfl⟩
    split at h
    · obtain ⟨⟨v, r⟩, hv, h⟩ := Option.bind_eq_some_iff.1 h
      obtain ⟨⟨vs', r'⟩, hvs, heq⟩ := Option.map_eq_some_iff.1 h
      cases heq
      obtain ⟨core, rfl, -⟩ := ih.value hv
      obtain ⟨u, rfl⟩ : ∃ u, r = u ++ ']' :: r' := ih.items hvs
      exact ⟨c :: (core ++ u), by simp⟩
    · cases h

theorem parseField_succ (ih : Takes fuel) {f : Text × Json}
    (h : parseField (fuel + 1) t = some (f, rest)) : ∃ u, t = u ++ rest := by
  cases t with
  | nil => cases h
  | cons c t =>
    rw [parseField] at h
    split at h
    · obtain ⟨⟨key, r⟩, hkey, h⟩ := Option.bind_eq_some_iff.1 h
      obtain ⟨r', hcolon, h⟩ := Option.bind_eq_some_iff.1 h
      obtain ⟨⟨v, r''⟩, hv, heq⟩ := Option.map_eq_some_iff.1 h
      cases heq
      obtain ⟨u, rfl⟩ := parseString_split hkey
      obtain rfl := stripPrefix_split hcolon
      obtain ⟨core, rfl, -⟩ := ih.value hv
      exact ⟨c :: (u ++ '"' :: ':' :: core), by simp⟩
    · cases h

theorem parseFields_succ (ih : Takes fuel) {fs : List (Text × Json)}
    (h : parseFields (fuel + 1) t = some (fs, rest)) : ∃ u, t = u ++ '\x7d' :: rest := by
  cases t with
  | nil => cases h
  | cons c t =>
    rw [parseFields] at h
    split at h
    · rename_i hc
      cases h
      exact ⟨[], by rw [hc]; rfl⟩
    split at h
    · obtain ⟨⟨f, r⟩, hf, h⟩ := Option.bind_eq_some_iff.1 h
      obtain ⟨⟨fs', r'⟩, hfs, heq⟩ := Option.map_eq_some_iff.1 h
      cases heq
      obtain ⟨u, rfl⟩ := ih.field hf
      obtain ⟨u', rfl⟩ : ∃ u', r = u' ++ '\x7d' :: r' := ih.fields hfs
      exact ⟨c :: (u ++ u'), by simp⟩
    · cases h

theorem head?_split {c : Char} (h : t.head? = some c) : t = c :: t.tail := by
  cases t with
  | nil => cases h
  | cons d t =>
    cases h
    rfl

theorem parseValue_succ (ih : Takes fuel) (h : parseValue (fuel + 1) t = some (v, rest)) :
    ∃ core, t = core ++ rest ∧ Spelled v core := by
  cases t with
  | nil => cases h
  | cons c t =>
    rw [parseValue] at h
    split at h
    · obtain ⟨r, hr, heq⟩ := Option.map_eq_some_iff.1 h
      cases heq
      obtain rfl := stripPrefix_split hr
      rename_i hc
      exact ⟨['n', 'u', 'l', 'l'], by rw [hc]; rfl, scalar_of_all (cons_ne_nil _ _) rfl⟩
    split at h
    · obtain ⟨r, hr, heq⟩ := Option.map_eq_some_iff.1 h
      cases heq
      obtain rfl := stripPrefix_split hr
      rename_i hc
      exact ⟨['t', 'r', 'u', 'e'], by rw [hc]; rfl, scalar_of_all (cons_ne_nil _ _) rfl⟩
    split at h
    · obtain ⟨r, hr, heq⟩ := Option.map_eq_some_iff.1 h
      cases heq
      obtain rfl := stripPrefix_split hr
      rename_i hc
      exact ⟨['f', 'a', 'l', 's', 'e'], by rw [hc]; rfl, scalar_of_all (cons_ne_nil _ _) rfl⟩
    split at h
    · obtain ⟨⟨s, r⟩, hs, heq⟩ := Option.map_eq_some_iff.1 h
      cases heq
      obtain ⟨u, rfl⟩ := parseString_split hs
      rename_i hc
      exact ⟨'"' :: (u ++ ['"']), by rw [hc]; simp, u, rfl⟩
    split at h
    · rename_i hc
      split at h
      · rename_i hhead
        cases h
        exact ⟨['[', ']'], by rw [hc, head?_split hhead]; rfl, [], rfl⟩
      obtain ⟨⟨w, r⟩, hw, h⟩ := Option.bind_eq_some_iff.1 h
      obtain ⟨⟨vs, r'⟩, hvs, heq⟩ := Option.map_eq_some_iff.1 h
      cases heq
      obtain ⟨core, rfl, -⟩ := ih.value hw
      obtain ⟨u, rfl⟩ : ∃ u, r = u ++ ']' :: r' := ih.items hvs
      exact ⟨'[' :: ((core ++ u) ++ [']']), by rw [hc]; simp, core ++ u, rfl⟩
    split at h
    · rename_i hc
      split at h
      · rename_i hhead
        cases h
        exact ⟨['\x7b', '\x7d'], by rw [hc, head?_split hhead]; rfl, [], rfl⟩
      obtain ⟨⟨f, r⟩, hf, h⟩ := Option.bind_eq_some_iff.1 h
      obtain ⟨⟨fs, r'⟩, hfs, heq⟩ := Option.map_eq_some_iff.1 h
      cases heq
      obtain ⟨u, rfl⟩ := ih.field hf
      obtain ⟨u', rfl⟩ : ∃ u', r = u' ++ '\x7d' :: r' := ih.fields hfs
      exact ⟨'\x7b' :: ((u ++ u') ++ ['\x7d']), by rw [hc]; simp, u ++ u', rfl⟩
    split at h
    · obtain ⟨⟨n, r⟩, hds, heq⟩ := Option.map_eq_some_iff.1 h
      cases heq
      obtain ⟨ds, rfl, -, hall⟩ := parseDigits_split hds
      rename_i hc
      refine ⟨'-' :: ds, by rw [hc]; rfl, cons_ne_nil _ _, fun d hd => ?_⟩
      rcases mem_cons.1 hd with rfl | hd
      · exact .inr (by decide)
      · exact .inl (hall d hd)
    · obtain ⟨n, core, rfl, hcore, hscalar⟩ := parseNumber_split h
      exact ⟨core, hcore, hscalar⟩

theorem takes (fuel : Nat) : Takes fuel := by
  induction fuel with
  | zero => exact takes_zero
  | succ fuel ih =>
    exact ⟨parseValue_succ ih, parseItems_succ ih, parseField_succ ih, parseFields_succ ih⟩

/-- **The parser accepts documents that are spelled as their value says.** -/
theorem spelled_of_parse (h : parse t = .ok v) : Spelled v t := by
  unfold parse at h
  split at h
  · rename_i j hj
    obtain ⟨core, rfl, hspelled⟩ := (takes _).value hj
    split at h
    · cases h
      rw [append_nil]
      exact hspelled
    · cases h
  · cases h

/-! ## White space around a document -/

def stripSpace (t : Text) : Text := (t.dropWhile isSpace).rdropWhile isSpace

def parseSpaced (t : Text) : Except Text Json := parse (stripSpace t)

theorem stripSpace_split (t : Text) :
    ∃ ws ws', t = ws ++ (stripSpace t ++ ws') ∧ ∀ c ∈ ws ++ ws', isSpace c = true := by
  refine ⟨t.takeWhile isSpace, (t.dropWhile isSpace).rtakeWhile isSpace, ?_, ?_⟩
  · rw [stripSpace, rdropWhile_append_rtakeWhile, takeWhile_append_dropWhile]
  intro c hc
  rcases mem_append.1 hc with hc | hc
  · exact mem_takeWhile_imp hc
  · exact mem_rtakeWhile_imp hc

theorem stripSpace_stripSpace (t : Text) : stripSpace (stripSpace t) = stripSpace t :=
  Str.dropEnds_dropEnds isSpace t

end Nanoguard.Json

import Mathlib.Data.List.Basic
import Mathlib.Tactic.Common

/-!
# Leftmost-first regular expressions

The fragment with character classes, greedy repetition of a class, ordered alternation and the word
boundary `\b`. A position in a text is a pair of the text before it, reversed, and the text after it.

`Re.run` is the backtracking matcher and `Match` its declarative reading; `Re.scan` is the left to
right search for non-overlapping matches. A match is determined by its own characters and by the
boundaries it asserts (`Match.transfer`).
-/

namespace Nanoguard

open List

abbrev Text := List Char

namespace Regex

/-- The two Unicode properties a pattern can ask about, with their values on ASCII. -/
structure CharTables where
  isWord : Char → Bool
  isDigit : Char → Bool
  isWord_ascii : ∀ c : Char, c.toNat < 128 → isWord c = (c.isAlphanum || c == '_')
  isDigit_ascii : ∀ c : Char, c.toNat < 128 → isDigit c = c.isDigit

def CharTables.ascii : CharTables where
  isWord c := c.isAlphanum || c == '_'
  isDigit c := c.isDigit
  isWord_ascii _ _ := rfl
  isDigit_ascii _ _ := rfl

inductive ClassItem where
  | range (lo hi : Char)
  | digit
  deriving DecidableEq, Repr

/-- Abstract syntax. Repetition is greedy and ranges over a class. -/
inductive Re where
  | cls (items : List ClassItem)
  | wordB
  | seq (a b : Re)
  | alt (a b : Re)
  | rep (items : List ClassItem) (lo : Nat) (hi : Option Nat)
  deriving DecidableEq, Repr

variable {l r l' r' m : Text} {e : Re} {c : Char} {spans : List (Nat × Nat)} {pos : Nat}

namespace CharTables

variable (T : CharTables)

def inItem (c : Char) : ClassItem → Bool
  | .range lo hi => decide (lo ≤ c) && decide (c ≤ hi)
  | .digit => T.isDigit c

def inClass (items : List ClassItem) (c : Char) : Bool := items.any (T.inItem c)

/-- `\b`: exactly one of the two adjacent characters is a word character. -/
def isBoundary (l r : Text) : Bool := l.head?.any T.isWord != r.head?.any T.isWord

end CharTables

/-! ## The matcher -/

/-- All ways to take between `lo` and `hi` characters of a class, longest first. -/
def takeRep (p : Char → Bool) : Nat → Option Nat → Text → Text → List (Text × Text)
  | lo, _, l, [] => if lo = 0 then [(l, [])] else []
  | lo, hi, l, c :: r =>
    (if p c && hi != some 0 then takeRep p (lo - 1) (hi.map (· - 1)) (c :: l) r else []) ++
      (if lo = 0 then [(l, c :: r)] else [])

/-- The backtracking matcher: all positions a match starting at `(l, r)` can end at, in order of
preference. -/
def Re.run (T : CharTables) : Re → Text → Text → List (Text × Text)
  | .cls items, l, r =>
    match r with
    | c :: r => if T.inClass items c then [(c :: l, r)] else []
    | [] => []
  | .wordB, l, r => if T.isBoundary l r then [(l, r)] else []
  | .seq a b, l, r => (a.run T l r).flatMap fun p => b.run T p.1 p.2
  | .alt a b, l, r => a.run T l r ++ b.run T l r
  | .rep items lo hi, l, r => takeRep (T.inClass items) lo hi l r

/-- `Match T e l m r`: the expression `e` matches `m` between the reversed text `l` and the
text `r`. -/
inductive Match (T : CharTables) : Re → Text → Text → Text → Prop
  | cls {items : List ClassItem} {c : Char} {l r : Text} (h : T.inClass items c = true) :
      Match T (.cls items) l [c] r
  | wordB {l r : Text} (h : T.isBoundary l r = true) : Match T .wordB l [] r
  | seq {a b : Re} {l m₁ m₂ r : Text} (ha : Match T a l m₁ (m₂ ++ r))
      (hb : Match T b (m₁.reverse ++ l) m₂ r) : Match T (.seq a b) l (m₁ ++ m₂) r
  | altLeft {a b : Re} {l m r : Text} (h : Match T a l m r) : Match T (.alt a b) l m r
  | altRight {a b : Re} {l m r : Text} (h : Match T b l m r) : Match T (.alt a b) l m r
  | rep {items : List ClassItem} {lo : Nat} {hi : Option Nat} {l m r : Text}
      (hm : ∀ c ∈ m, T.inClass items c = true) (hlo : lo ≤ m.length)
      (hhi : ∀ n ∈ hi, m.length ≤ n) : Match T (.rep items lo hi) l m r

theorem mem_takeRep {p : Char → Bool} {lo : Nat} {hi : Option Nat} :
    (l', r') ∈ takeRep p lo hi l r ↔
      ∃ m, r = m ++ r' ∧ l' = m.reverse ++ l ∧ (∀ c ∈ m, p c = true) ∧ lo ≤ m.length ∧
        ∀ n ∈ hi, m.length ≤ n := by
  induction r generalizing lo hi l with
  | nil =>
    simp only [takeRep]
    constructor
    · intro h
      split at h
      · rename_i hlo
        simp only [mem_singleton, Prod.mk.injEq] at h
        exact ⟨[], by simp [h.2], by simp [h.1], by simp, by simp [hlo], by simp⟩
      · cases h
    · rintro ⟨m, hm, hl, -, hlo, -⟩
      obtain ⟨rfl, rfl⟩ := append_eq_nil_iff.1 hm.symm
      have : lo = 0 := by simpa using hlo
      simp [this, hl]
  | cons c r ih =>
    simp only [takeRep, mem_append]
    constructor
    · rintro (h | h)
      · split at h
        · rename_i hc
          simp only [Bool.and_eq_true, bne_iff_ne] at hc
          obtain ⟨m, rfl, rfl, hp, hlo, hhi⟩ := ih.1 h
          refine ⟨c :: m, rfl, by simp, ?_, by simp only [length_cons]; omega, ?_⟩
          · intro d hd
            rcases mem_cons.1 hd with rfl | hd
            · exact hc.1
            · exact hp d hd
          intro n hn
          subst hn
          have := hhi (n - 1) (by simp)
          have hn0 : n ≠ 0 := fun h0 => hc.2 (by rw [h0])
          simp only [length_cons]
          omega
        · cases h
      · split at h
        · rename_i hlo
          simp only [mem_singleton, Prod.mk.injEq] at h
          exact ⟨[], by simp [h.2], by simp [h.1], by simp, by simp [hlo], by simp⟩
        · cases h
    · rintro ⟨m, hm, rfl, hp, hlo, hhi⟩
      cases m with
      | nil =>
        have hlo0 : lo = 0 := by simpa using hlo
        simp [hlo0, hm]
      | cons d m =>
        obtain ⟨rfl, rfl⟩ := List.cons.inj hm
        left
        have hhi0 : hi ≠ some 0 := by
          intro h0
          have := hhi 0 (by simp [h0])
          simp at this
        rw [ite_eq_left_iff.2 (fun h => absurd (by simp [hp c mem_cons_self, hhi0]) h)]
        refine ih.2 ⟨m, rfl, by simp, (forall_mem_cons.1 hp).2, ?_, ?_⟩
        · simp only [length_cons] at hlo
          omega
        intro n hn
        obtain ⟨k, hk, rfl⟩ := Option.map_eq_some_iff.1 hn
        have := hhi k hk
        simp only [length_cons] at this
        omega

/-- **The matcher is sound and complete** for the declared matches. -/
theorem mem_run_iff {T : CharTables} {s : Text} :
    (l', r') ∈ e.run T l s ↔ ∃ m, s = m ++ r' ∧ l' = m.reverse ++ l ∧ Match T e l m r' := by
  induction e generalizing l s l' r' with
  | cls items =>
    simp only [Re.run]
    constructor
    · intro h
      split at h
      · split at h
        · rename_i hc
          simp only [mem_singleton, Prod.mk.injEq] at h
          exact ⟨_, by simp [h.2], by simp [h.1], .cls hc⟩
        · cases h
      · cases h
    · rintro ⟨m, rfl, rfl, h⟩
      cases h with
      | cls hc => simp [hc]
  | wordB =>
    simp only [Re.run]
    constructor
    · intro h
      split at h
      · rename_i hb
        simp only [mem_singleton] at h
        obtain ⟨rfl, rfl⟩ := h
        exact ⟨[], by simp, by simp, .wordB hb⟩
      · cases h
    · rintro ⟨m, rfl, rfl, h⟩
      cases h with
      | wordB hb => simp [hb]
  | seq a b iha ihb =>
    simp only [Re.run, mem_flatMap, Prod.exists]
    constructor
    · rintro ⟨l₁, r₁, h₁, h₂⟩
      obtain ⟨m₁, rfl, rfl, hm₁⟩ := iha.1 h₁
      obtain ⟨m₂, rfl, rfl, hm₂⟩ := ihb.1 h₂
      exact ⟨m₁ ++ m₂, by simp, by simp, .seq hm₁ hm₂⟩
    · rintro ⟨m, rfl, rfl, h⟩
      cases h with
      | seq ha hb =>
        rename_i m₁ m₂
        exact ⟨m₁.reverse ++ l, m₂ ++ r', iha.2 ⟨m₁, by simp, rfl, ha⟩,
          ihb.2 ⟨m₂, rfl, by simp, hb⟩⟩
  | alt a b iha ihb =>
    simp only [Re.run, mem_append, iha, ihb]
    constructor
    · rintro (⟨m, rfl, rfl, h⟩ | ⟨m, rfl, rfl, h⟩)
      · exact ⟨m, rfl, rfl, .altLeft h⟩
      · exact ⟨m, rfl, rfl, .altRight h⟩
    · rintro ⟨m, rfl, rfl, h⟩
      cases h with
      | altLeft h => exact .inl ⟨m, rfl, rfl, h⟩
      | altRight h => exact .inr ⟨m, rfl, rfl, h⟩
  | rep items lo hi =>
    simp only [Re.run, mem_takeRep]
    constructor
    · rintro ⟨m, rfl, rfl, hp, hlo, hhi⟩
      exact ⟨m, rfl, rfl, .rep hp hlo hhi⟩
    · rintro ⟨m, rfl, rfl, h⟩
      cases h with
      | rep hp hlo hhi => exact ⟨m, rfl, rfl, hp, hlo, hhi⟩

/-! ## Matches depend on their own characters and on boundaries -/

/-- Every class of the expression rejects `c`. -/
def Re.avoids (T : CharTables) (c : Char) : Re → Bool
  | .cls items => !T.inClass items c
  | .wordB => true
  | .seq a b => a.avoids T c && b.avoids T c
  | .alt a b => a.avoids T c && b.avoids T c
  | .rep items _ _ => !T.inClass items c

theorem CharTables.inClass_ascii (T : CharTables) (hc : c.toNat < 128) (items : List ClassItem) :
    T.inClass items c = CharTables.ascii.inClass items c := by
  unfold inClass
  congr 1
  funext item
  cases item with
  | range lo hi => rfl
  | digit => exact (T.isDigit_ascii c hc).trans rfl

theorem Re.avoids_ascii (T : CharTables) (hc : c.toNat < 128) (e : Re) :
    e.avoids T c = e.avoids .ascii c := by
  induction e with
  | cls items => simp only [avoids, T.inClass_ascii hc]
  | wordB => rfl
  | seq a b iha ihb => simp only [avoids, iha, ihb]
  | alt a b iha ihb => simp only [avoids, iha, ihb]
  | rep items lo hi => simp only [avoids, T.inClass_ascii hc]

def Re.minLen : Re → Nat
  | .cls _ => 1
  | .wordB => 0
  | .seq a b => a.minLen + b.minLen
  | .alt a b => min a.minLen b.minLen
  | .rep _ lo _ => lo

def Re.startsB : Re → Bool
  | .wordB => true
  | .seq a _ => a.startsB
  | _ => false

def Re.endsB : Re → Bool
  | .wordB => true
  | .seq _ b => b.endsB
  | _ => false

namespace Match

variable {T : CharTables} {e : Re} {l m r : Text}

theorem not_mem_of_avoids (h : Match T e l m r) (ha : e.avoids T c = true) : c ∉ m := by
  induction h with
  | cls hc =>
    simp only [Re.avoids] at ha
    intro hmem
    rw [mem_singleton] at hmem
    subst hmem
    rw [hc] at ha
    cases ha
  | wordB => simp
  | seq _ _ iha ihb =>
    simp only [Re.avoids, Bool.and_eq_true] at ha
    simp [iha ha.1, ihb ha.2]
  | altLeft _ ih =>
    simp only [Re.avoids, Bool.and_eq_true] at ha
    exact ih ha.1
  | altRight _ ih =>
    simp only [Re.avoids, Bool.and_eq_true] at ha
    exact ih ha.2
  | rep hm =>
    simp only [Re.avoids] at ha
    intro hmem
    rw [hm c hmem] at ha
    cases ha

theorem minLen_le (h : Match T e l m r) : e.minLen ≤ m.length := by
  induction h with
  | cls => simp [Re.minLen]
  | wordB => simp [Re.minLen]
  | seq _ _ iha ihb =>
    simp only [Re.minLen, length_append]
    omega
  | altLeft _ ih =>
    simp only [Re.minLen]
    omega
  | altRight _ ih =>
    simp only [Re.minLen]
    omega
  | rep _ hlo => exact hlo

theorem ne_nil (h : Match T e l m r) (hlen : 0 < e.minLen) : m ≠ [] := by
  rintro rfl
  have := h.minLen_le
  simp only [length_nil] at this
  omega

theorem boundary_start (h : Match T e l m r) (hs : e.startsB = true) :
    T.isBoundary l (m ++ r) = true := by
  induction h with
  | wordB hb => exact hb
  | seq _ _ iha _ => simpa using iha hs
  | _ => cases hs

theorem boundary_end (h : Match T e l m r) (hs : e.endsB = true) :
    T.isBoundary (m.reverse ++ l) r = true := by
  induction h with
  | wordB hb => exact hb
  | seq _ _ _ ihb => simpa using ihb hs
  | _ => cases hs

/-- **A match survives a change of context** that keeps every boundary it could have asserted. -/
theorem transfer (h : Match T e l m r)
    (hb : ∀ a b, m = a ++ b → T.isBoundary (a.reverse ++ l) (b ++ r) = true → T.isBoundary (a.reverse ++ l') (b ++ r') = true)
    :
    Match T e l' m r' := by
  induction h generalizing l' r' with
  | cls hc => exact .cls hc
  | wordB hw => exact .wordB (hb [] [] rfl hw)
  | seq _ _ iha ihb =>
    refine .seq (iha fun a b hab => ?_) (ihb fun a b hab => ?_)
    · subst hab
      simpa using hb a (b ++ _) (by simp)
    · subst hab
      simpa using hb (_ ++ a) b (by simp)
  | altLeft _ ih => exact .altLeft (ih hb)
  | altRight _ ih => exact .altRight (ih hb)
  | rep hm hlo hhi => exact .rep hm hlo hhi

end Match

namespace CharTables

theorem isBoundary_congr (T : CharTables) {a b : Text} (l r l' r' : Text) (ha : a ≠ [])
    (hb : b ≠ []) :
    T.isBoundary (a.reverse ++ l) (b ++ r) = T.isBoundary (a.reverse ++ l') (b ++ r') := by
  have ha' : a.reverse ≠ [] := by simpa using ha
  unfold isBoundary
  rw [head?_append_of_ne_nil _ ha', head?_append_of_ne_nil _ ha',
    head?_append_of_ne_nil _ hb, head?_append_of_ne_nil _ hb]

end CharTables

theorem Match.transfer_ends {T : CharTables} (h : Match T e l m r)
    (hs : T.isBoundary l (m ++ r) = true → T.isBoundary l' (m ++ r') = true)
    (he : T.isBoundary (m.reverse ++ l) r = true → T.isBoundary (m.reverse ++ l') r' = true) :
    Match T e l' m r' := by
  refine h.transfer fun a b hab hbd => ?_
  subst hab
  by_cases ha : a = []
  · subst ha
    simpa using hs (by simpa using hbd)
  by_cases hb : b = []
  · subst hb
    simpa using he (by simpa using hbd)
  · rw [T.isBoundary_congr l' r' l r ha hb]
    exact hbd

/-- **A match inside a piece of text** is still there when the piece is put back where all its
ends were boundaries. -/
theorem Match.of_piece {T : CharTables} {a b : Text} (h : Match T e (a.reverse ++ l') m (b ++ r'))
    (hm : m ≠ []) (hl : l' = l ∨ T.isBoundary l (a ++ (m ++ (b ++ r))) = true)
    (hr : r' = r ∨ T.isBoundary ((a ++ (m ++ b)).reverse ++ l) r = true) :
    Match T e (a.reverse ++ l) m (b ++ r) := by
  refine h.transfer_ends (fun hs => ?_) (fun he => ?_)
  · by_cases ha : a = []
    · subst ha
      rcases hl with rfl | hl
      · simpa [CharTables.isBoundary, head?_append_of_ne_nil _ hm] using hs
      · simpa using hl
    · have hmb : m ++ b ≠ [] := by simp [hm]
      rw [← append_assoc] at hs ⊢
      rw [T.isBoundary_congr l r l' r' ha hmb]
      exact hs
  · by_cases hb : b = []
    · subst hb
      rcases hr with rfl | hr
      · have hm' : m.reverse ≠ [] := by simpa using hm
        simpa [CharTables.isBoundary, head?_append_of_ne_nil _ hm'] using he
      · simpa using hr
    · have hma : a ++ m ≠ [] := by simp [hm]
      rw [← append_assoc, ← List.reverse_append] at he ⊢
      rw [T.isBoundary_congr l r l' r' hma hb]
      exact he

/-! ## Searching -/

/-- The search for successive non-overlapping matches, from left to right. `skip` characters are
passed over because they belong to the match found last; `last` is where that match ended. An
empty match right after the previous match is not reported. -/
def Re.scan (T : CharTables) (e : Re) : Nat → Text → Nat → Option Nat → Text → List (Nat × Nat)
  | pos, l, skip, last, [] =>
    if skip = 0 ∧ last ≠ some pos ∧ (e.run T l []) ≠ [] then [(pos, pos)] else []
  | pos, l, 0, last, c :: r =>
    match (e.run T l (c :: r)).head? with
    | none => e.scan T (pos + 1) (c :: l) 0 last r
    | some p =>
      let n := (c :: r).length - p.2.length
      if n = 0 then
        (if last = some pos then [] else [(pos, pos)]) ++
          e.scan T (pos + 1) (c :: l) 0 (some pos) r
      else (pos, pos + n) :: e.scan T (pos + 1) (c :: l) (n - 1) (some (pos + n)) r
  | pos, l, skip + 1, last, c :: r => e.scan T (pos + 1) (c :: l) skip last r

end Regex

/-- Spans in order, without overlap, between `lo` and `n`. -/
def SpansIn : Nat → Nat → List (Nat × Nat) → Prop
  | _, _, [] => True
  | lo, n, (s, e) :: spans => lo ≤ s ∧ s ≤ e ∧ e ≤ n ∧ SpansIn e n spans

theorem SpansIn.mono {lo lo' n : Nat} (h : SpansIn lo n spans) (hlo : lo' ≤ lo) :
    SpansIn lo' n spans := by
  cases spans with
  | nil => trivial
  | cons p spans =>
    obtain ⟨h₁, h₂, h₃, h₄⟩ := h
    exact ⟨by omega, h₂, h₃, h₄⟩

def shiftSpan (k : Nat) (span : Nat × Nat) : Nat × Nat := (k + span.1, k + span.2)

/-- A compiled regular expression: the successive non-overlapping matches of a text, and the text
of a capture group in one of them. -/
structure Regex where
  findIter : Text → List (Nat × Nat)
  capture : Text → Nat × Nat → Text → Text
  spans_ok : ∀ t, SpansIn 0 t.length (findIter t)

namespace Regex

def isMatch (re : Regex) (t : Text) : Bool := !(re.findIter t).isEmpty

theorem scan_spans (T : CharTables) (e : Re) (r : Text) :
    ∀ (pos : Nat) (l : Text) (skip : Nat) (last : Option Nat), skip ≤ r.length →
      SpansIn (pos + skip) (pos + r.length) (e.scan T pos l skip last r) := by
  induction r with
  | nil =>
    intro pos l skip last hs
    simp only [Re.scan]
    split
    · exact ⟨by omega, Nat.le_refl _, by simp, trivial⟩
    · trivial
  | cons c r ih =>
    intro pos l skip last hs
    simp only [length_cons] at hs ⊢
    cases skip with
    | zero =>
      simp only [Re.scan]
      have next : ∀ last, SpansIn pos (pos + (r.length + 1)) (e.scan T (pos + 1) (c :: l) 0 last r) :=
        fun last => by
          have := ih (pos + 1) (c :: l) 0 last (Nat.zero_le _)
          rw [show pos + 1 + r.length = pos + (r.length + 1) by omega] at this
          exact this.mono (by omega)
      cases hrun : (e.run T l (c :: r)).head? with
      | none => exact next last
      | some p =>
        simp only
        split
        · split
          · exact next _
          · exact ⟨by omega, Nat.le_refl _, by omega, next _⟩
        have hlen : (c :: r).length - p.2.length ≤ r.length + 1 := by
          simp only [length_cons]
          omega
        refine ⟨by omega, by omega, by omega, ?_⟩
        have := ih (pos + 1) (c :: l) ((c :: r).length - p.2.length - 1)
          (some (pos + ((c :: r).length - p.2.length))) (by omega)
        rw [show pos + 1 + r.length = pos + (r.length + 1) by omega] at this
        exact this.mono (by omega)
    | succ skip =>
      have := ih (pos + 1) (c :: l) skip last (by omega)
      rw [show pos + 1 + r.length = pos + (r.length + 1) by omega] at this
      exact this.mono (by omega)

/-- A reference to group `0` in digits. -/
def isGroupZero (name : Text) : Bool :=
  let digits := if name.head? = some '+' then name.tail else name
  !digits.isEmpty && digits.all (· == '0')

/-- The compiled form of an expression without capture groups: only group `0`, the whole match,
has a text. -/
def Re.toRegex (T : CharTables) (e : Re) : Regex where
  findIter t := e.scan T 0 [] 0 none t
  capture t span name := if isGroupZero name then (t.drop span.1).take (span.2 - span.1) else []
  spans_ok t := by simpa using scan_spans T e t 0 [] 0 none (Nat.zero_le _)

/-- No match starts before the end of `g` in the text `g ++ r` after `l`. -/
def NoStart (T : CharTables) (e : Re) (l g r : Text) : Prop :=
  ∀ a b m r', g = a ++ b → b ≠ [] → b ++ r = m ++ r' → ¬ Match T e (a.reverse ++ l) m r'

/-- The spans cut the text after `l` into gaps in which no match starts, and matches. -/
inductive Cuts (T : CharTables) (e : Re) : Nat → Text → Text → List (Nat × Nat) → Prop
  | done {pos : Nat} {l r : Text} (h : NoStart T e l r []) : Cuts T e pos l r []
  | cut {pos : Nat} {l g m r : Text} {spans : List (Nat × Nat)} (hg : NoStart T e l g (m ++ r))
      (hm : Match T e (g.reverse ++ l) m r)
      (hr : Cuts T e (pos + g.length + m.length) (m.reverse ++ (g.reverse ++ l)) r spans) :
      Cuts T e pos l (g ++ (m ++ r))
        ((pos + g.length, pos + g.length + m.length) :: spans)

theorem Cuts.done_inv {T : CharTables} {t : Text} (h : Cuts T e pos l t []) :
    NoStart T e l t [] := by
  cases h with
  | done hn => exact hn

theorem Cuts.cut_inv {T : CharTables} {g : Text}
    (h : Cuts T e pos l (g ++ (m ++ r)) ((pos + g.length, pos + g.length + m.length) :: spans)) :
    NoStart T e l g (m ++ r) ∧ Match T e (g.reverse ++ l) m r ∧
      Cuts T e (pos + g.length + m.length) (m.reverse ++ (g.reverse ++ l)) r spans := by
  generalize ht : g ++ (m ++ r) = t at h
  generalize hs : pos + g.length = s at h
  generalize he : s + m.length = e at h
  cases h with
  | cut hg hm hr =>
    obtain ⟨rfl, hmr⟩ := append_inj ht (by omega)
    obtain ⟨rfl, rfl⟩ := append_inj hmr (by omega)
    exact ⟨hg, hm, hr⟩

theorem NoStart.cons {T : CharTables} {g : Text}
    (h₀ : ∀ m r', c :: g ++ r = m ++ r' → ¬ Match T e l m r') (h : NoStart T e (c :: l) g r) :
    NoStart T e l (c :: g) r := by
  intro a b m r' hab hb hbr
  cases a with
  | nil =>
    obtain rfl : c :: g = b := hab
    exact h₀ m r' hbr
  | cons d a =>
    obtain ⟨rfl, rfl⟩ := List.cons.inj hab
    simpa using h a b m r' rfl hb hbr

/-- Passing over one character at which no match starts extends the first gap. -/
theorem Cuts.cons {T : CharTables} (h₀ : ∀ m r', c :: r = m ++ r' → ¬ Match T e l m r')
    (h : Cuts T e (pos + 1) (c :: l) r spans) : Cuts T e pos l (c :: r) spans := by
  generalize hpos : pos + 1 = p at h
  generalize hl : c :: l = l' at h
  cases h with
  | done hn =>
    subst hl
    exact .done (hn.cons (by simpa using h₀))
  | cut hg hm hr =>
    subst hl hpos
    rename_i g m r spans
    have key : Cuts T e pos l (c :: g ++ (m ++ r)) ((pos + (c :: g).length,
        pos + (c :: g).length + m.length) :: spans) :=
      .cut (hg.cons (by simpa using h₀)) (by simpa using hm)
        (by simpa [Nat.add_comm, Nat.add_left_comm] using hr)
    simpa [Nat.add_comm, Nat.add_left_comm] using key

theorem scan_skip (T : CharTables) (e : Re) (m r : Text) (pos : Nat) (l : Text)
    (last : Option Nat) :
    e.scan T pos l m.length last (m ++ r) =
      e.scan T (pos + m.length) (m.reverse ++ l) 0 last r := by
  induction m generalizing pos l with
  | nil => simp
  | cons c m ih =>
    simp only [length_cons, cons_append, Re.scan, ih, reverse_cons, append_assoc, nil_append]
    rw [show pos + 1 + m.length = pos + (m.length + 1) by omega]

/-- **The search cuts the text into gaps and matches**, for an expression without empty
matches. -/
theorem scan_cuts (T : CharTables) (e : Re) (hlen : 0 < e.minLen) (n : Nat) :
    ∀ (r : Text), r.length ≤ n → ∀ (pos : Nat) (l : Text) (last : Option Nat),
      Cuts T e pos l r (e.scan T pos l 0 last r) := by
  induction n with
  | zero =>
    intro r hr pos l last
    obtain rfl : r = [] := length_eq_zero_iff.1 (by omega)
    have hrun : e.run T l [] = [] := by
      rw [eq_nil_iff_forall_not_mem]
      rintro ⟨l', r'⟩ hmem
      obtain ⟨m, hm, -, hmatch⟩ := mem_run_iff.1 hmem
      exact hmatch.ne_nil hlen (append_eq_nil_iff.1 hm.symm).1
    simp only [Re.scan, hrun, ne_eq, not_true_eq_false, and_false]
    refine .done fun a b m r' hab hb => ?_
    exact absurd (append_eq_nil_iff.1 hab.symm).2 hb
  | succ n ih =>
    intro r hr pos l last
    cases r with
    | nil => exact ih [] (by simp) pos l last
    | cons c r =>
      simp only [length_cons] at hr
      simp only [Re.scan]
      cases hrun : e.run T l (c :: r) with
      | nil =>
        refine (ih r (by omega) (pos + 1) (c :: l) last).cons fun m r' hm hmatch => ?_
        have hmem : (m.reverse ++ l, r') ∈ e.run T l (c :: r) :=
          mem_run_iff.2 ⟨m, hm, rfl, hmatch⟩
        rw [hrun] at hmem
        cases hmem
      | cons p ps =>
        obtain ⟨l', r'⟩ := p
        obtain ⟨m, hm, -, hmatch⟩ := mem_run_iff.1 (hrun ▸ mem_cons_self : (l', r') ∈ _)
        have hne := hmatch.ne_nil hlen
        obtain ⟨d, m, rfl⟩ := exists_cons_of_ne_nil hne
        rw [cons_append] at hm
        obtain ⟨rfl, rfl⟩ := List.cons.inj hm
        have hn : (c :: (m ++ r')).length - r'.length = m.length + 1 := by
          simp only [length_cons, length_append]
          omega
        simp only [head?_cons, hn, Nat.add_sub_cancel, scan_skip]
        have hrest := ih r' (by simp only [length_append] at hr; omega)
          (pos + 1 + m.length) (m.reverse ++ c :: l) (some (pos + (m.length + 1)))
        have key : Cuts T e pos l ([] ++ (c :: m ++ r')) ((pos + 0, pos + 0 + (c :: m).length) ::
            e.scan T (pos + 1 + m.length) (m.reverse ++ c :: l) 0
              (some (pos + (m.length + 1))) r') :=
          .cut (fun a b _ _ hab hb => absurd (append_eq_nil_iff.1 hab.symm).2 hb)
            (by simpa using hmatch)
            (by simpa [Nat.add_comm, Nat.add_left_comm] using hrest)
        simpa [Nat.add_comm] using key

theorem Re.toRegex_cuts (T : CharTables) (e : Re) (hlen : 0 < e.minLen) (t : Text) :
    Cuts T e 0 [] t ((e.toRegex T).findIter t) :=
  scan_cuts T e hlen t.length t (Nat.le_refl _) 0 [] none

end Regex

end Nanoguard

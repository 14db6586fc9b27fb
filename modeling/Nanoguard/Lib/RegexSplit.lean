import Nanoguard.Lib.Regex

/-!
# Separators of a regular expression

A character that no class of an expression takes and that is no word character separates the text:
the matches on its two sides do not see each other.
-/

namespace Nanoguard

open List

/-- The matches of a text are those on the two sides of the character. -/
def Regex.SplitsAt (re : Regex) (c : Char) : Prop :=
  ∀ x y, re.findIter (x ++ c :: y) = re.findIter x ++ (re.findIter y).map (shiftSpan (x.length + 1))

namespace Regex

/-- The character is in no match and is not part of a word. -/
structure Separates (T : CharTables) (e : Re) (c : Char) : Prop where
  avoids : e.avoids T c = true
  notWord : T.isWord c = false

variable {T : CharTables} {e : Re} {c : Char} {l m r l' r' : Text}

/-! ## One match -/

theorem isBoundary_append_congr (hl : l.head?.any T.isWord = l'.head?.any T.isWord)
    (hr : r.head?.any T.isWord = r'.head?.any T.isWord) (a b : Text) :
    T.isBoundary (a ++ l) (b ++ r) = T.isBoundary (a ++ l') (b ++ r') := by
  have hhead {x y : Text} (h : x.head?.any T.isWord = y.head?.any T.isWord) (a : Text) :
      (a ++ x).head?.any T.isWord = (a ++ y).head?.any T.isWord := by
    cases a with
    | nil => exact h
    | cons d a => rfl
  unfold CharTables.isBoundary
  rw [hhead hl, hhead hr]

theorem match_congr (hl : l.head?.any T.isWord = l'.head?.any T.isWord)
    (hr : r.head?.any T.isWord = r'.head?.any T.isWord) : Match T e l m r ↔ Match T e l' m r' := by
  constructor
  · intro hm
    refine hm.transfer fun a b _ hbd => ?_
    rwa [isBoundary_append_congr hl.symm hr.symm]
  · intro hm
    refine hm.transfer fun a b _ hbd => ?_
    rwa [isBoundary_append_congr hl hr]

theorem any_head?_append_cons (h : T.isWord c = false) :
    (r ++ c :: r').head?.any T.isWord = r.head?.any T.isWord := by
  cases r with
  | nil => simp [h]
  | cons d r => rfl

theorem isBoundary_right (h : T.isWord c = false) :
    T.isBoundary l (r ++ c :: r') = T.isBoundary l r := by
  unfold CharTables.isBoundary
  rw [any_head?_append_cons h]

theorem isBoundary_left (h : T.isWord c = false) :
    T.isBoundary (l ++ c :: l') r = T.isBoundary l r := by
  unfold CharTables.isBoundary
  rw [any_head?_append_cons h]

theorem match_right_iff (h : T.isWord c = false) : Match T e l m (r ++ c :: r') ↔ Match T e l m r :=
  match_congr rfl (any_head?_append_cons h)

theorem match_left_iff (h : T.isWord c = false) : Match T e (l ++ c :: l') m r ↔ Match T e l m r :=
  match_congr (any_head?_append_cons h) rfl

/-! ## The matcher -/

theorem takeRep_right {p : Char → Bool} (hc : p c = false) (lo : Nat) (hi : Option Nat) (l x y : Text) :
    takeRep p lo hi l (x ++ c :: y) =
      (takeRep p lo hi l x).map fun q => (q.1, q.2 ++ c :: y) := by
  induction x generalizing lo hi l with
  | nil =>
    simp only [nil_append, takeRep, hc, Bool.false_and, Bool.false_eq_true, if_false]
    split <;> rfl
  | cons d x ih =>
    simp only [cons_append, takeRep, ih, map_append]
    congr 1
    · split <;> rfl
    · split <;> rfl

theorem takeRep_left (p : Char → Bool) (lo : Nat) (hi : Option Nat) (l l' x : Text) :
    takeRep p lo hi (l ++ l') x = (takeRep p lo hi l x).map fun q => (q.1 ++ l', q.2) := by
  induction x generalizing lo hi l with
  | nil =>
    simp only [takeRep]
    split <;> rfl
  | cons d x ih =>
    simp only [takeRep, ← cons_append, ih, map_append]
    congr 1
    · split <;> rfl
    · split <;> rfl

theorem run_right (hc : Separates T e c) (l x y : Text) :
    e.run T l (x ++ c :: y) = (e.run T l x).map fun q => (q.1, q.2 ++ c :: y) := by
  obtain ⟨havoid, hword⟩ := hc
  induction e generalizing l x with
  | cls items =>
    simp only [Re.avoids, Bool.not_eq_true'] at havoid
    cases x with
    | nil => simp [Re.run, havoid]
    | cons d x =>
      simp only [Re.run, cons_append]
      split <;> rfl
  | wordB =>
    simp only [Re.run, isBoundary_right hword]
    split <;> rfl
  | seq a b iha ihb =>
    simp only [Re.avoids, Bool.and_eq_true] at havoid
    simp only [Re.run, iha _ _ havoid.1, ihb _ _ havoid.2, flatMap_map, map_flatMap]
  | alt a b iha ihb =>
    simp only [Re.avoids, Bool.and_eq_true] at havoid
    simp only [Re.run, iha _ _ havoid.1, ihb _ _ havoid.2, map_append]
  | rep items lo hi =>
    simp only [Re.avoids, Bool.not_eq_true'] at havoid
    exact takeRep_right havoid lo hi l x y

theorem run_left (hword : T.isWord c = false) (l l' x : Text) :
    e.run T (l ++ c :: l') x = (e.run T l x).map fun q => (q.1 ++ c :: l', q.2) := by
  induction e generalizing l x with
  | cls items =>
    cases x with
    | nil => rfl
    | cons d x =>
      simp only [Re.run]
      split <;> rfl
  | wordB =>
    simp only [Re.run, isBoundary_left hword]
    split <;> rfl
  | seq a b iha ihb => simp only [Re.run, iha, ihb, flatMap_map, map_flatMap]
  | alt a b iha ihb => simp only [Re.run, iha, ihb, map_append]
  | rep items lo hi => exact takeRep_left _ lo hi l (c :: l') x

theorem run_nil (hlen : 0 < e.minLen) (l : Text) : e.run T l [] = [] := by
  rw [eq_nil_iff_forall_not_mem]
  rintro ⟨l', r'⟩ hmem
  obtain ⟨m, hm, -, hmatch⟩ := mem_run_iff.1 hmem
  exact hmatch.ne_nil hlen (append_eq_nil_iff.1 hm.symm).1

/-! ## The search -/

theorem scan_left (hword : T.isWord c = false) (l' r : Text) (pos : Nat) (l : Text) (skip : Nat)
    (last : Option Nat) :
    e.scan T pos (l ++ c :: l') skip last r = e.scan T pos l skip last r := by
  induction r generalizing pos l skip last with
  | nil =>
    simp only [Re.scan, run_left hword, ne_eq, map_eq_nil_iff]
  | cons d r ih =>
    cases skip with
    | zero =>
      simp only [Re.scan, run_left hword, head?_map]
      cases (e.run T l (d :: r)).head? with
      | none => exact ih (pos + 1) (d :: l) 0 last
      | some q =>
        simp only [Option.map_some]
        rw [← cons_append, ih, ih]
    | succ skip => exact ih (pos + 1) (d :: l) skip last

theorem scan_shift (k : Nat) (r : Text) (pos : Nat) (l : Text) (skip : Nat) (last : Option Nat) :
    e.scan T (k + pos) l skip (last.map (k + ·)) r =
      (e.scan T pos l skip last r).map (shiftSpan k) := by
  have hlast (last : Option Nat) (pos : Nat) :
      last.map (k + ·) = some (k + pos) ↔ last = some pos := by
    cases last with
    | none => simp
    | some n => simp
  induction r generalizing pos l skip last with
  | nil =>
    simp only [Re.scan, ne_eq, hlast]
    split <;> rfl
  | cons d r ih =>
    cases skip with
    | zero =>
      simp only [Re.scan, hlast]
      cases (e.run T l (d :: r)).head? with
      | none => exact ih (pos + 1) (d :: l) 0 last
      | some q =>
        dsimp only
        generalize (d :: r).length - q.2.length = n
        have hempty := ih (pos + 1) (d :: l) 0 (some pos)
        have hnext := ih (pos + 1) (d :: l) (n - 1) (some (pos + n))
        rw [Option.map_some, ← Nat.add_assoc] at hempty hnext
        rw [← Nat.add_assoc] at hnext
        split
        · rw [hempty]
          split <;> rfl
        · rw [hnext, map_cons, shiftSpan, ← Nat.add_assoc]
    | succ skip => exact ih (pos + 1) (d :: l) skip last

theorem scan_last (hlen : 0 < e.minLen) (r : Text) (pos : Nat) (l : Text) (skip : Nat)
    (last last' : Option Nat) : e.scan T pos l skip last r = e.scan T pos l skip last' r := by
  induction r generalizing pos l skip last last' with
  | nil => simp only [Re.scan, run_nil hlen, ne_eq, not_true_eq_false, and_false]
  | cons d r ih =>
    cases skip with
    | zero =>
      simp only [Re.scan]
      cases hrun : (e.run T l (d :: r)).head? with
      | none => exact ih (pos + 1) (d :: l) 0 last last'
      | some q =>
        obtain ⟨m, hm, -, hmatch⟩ := mem_run_iff.1 (mem_of_head? hrun)
        have hn : (d :: r).length - q.2.length ≠ 0 := by
          have hpos := length_pos_of_ne_nil (hmatch.ne_nil hlen)
          rw [hm, length_append]
          omega
        dsimp only
        rw [if_neg hn, if_neg hn]
    | succ skip => exact ih (pos + 1) (d :: l) skip last last'

theorem scan_append (hlen : 0 < e.minLen) (hc : Separates T e c) (y x : Text) (pos : Nat) (l : Text)
    (skip : Nat) (last : Option Nat) (hskip : skip ≤ x.length) :
    e.scan T pos l skip last (x ++ c :: y) = e.scan T pos l skip last x ++
      e.scan T (pos + x.length + 1) (c :: (x.reverse ++ l)) 0 none y := by
  induction x generalizing pos l skip last with
  | nil =>
    obtain rfl : skip = 0 := Nat.le_zero.1 hskip
    have hrun := run_right hc l [] y
    rw [nil_append] at hrun
    simp only [nil_append, Re.scan, hrun, run_nil hlen, ne_eq,
      not_true_eq_false, and_false]
    exact scan_last hlen y (pos + 1) (c :: l) 0 last none
  | cons d x ih =>
    have hnext (skip : Nat) (last : Option Nat) (hskip : skip ≤ x.length) :
        e.scan T (pos + 1) (d :: l) skip last (x ++ c :: y) =
          e.scan T (pos + 1) (d :: l) skip last x ++
            e.scan T (pos + (x.length + 1) + 1) (c :: ((d :: x).reverse ++ l)) 0 none y := by
      rw [ih _ _ _ _ hskip, Nat.add_right_comm pos 1, reverse_cons, append_assoc]
      rfl
    cases skip with
    | zero =>
      simp only [cons_append, Re.scan, length_cons]
      rw [← cons_append, run_right hc, head?_map]
      cases (e.run T l (d :: x)).head? with
      | none => exact hnext 0 last (Nat.zero_le _)
      | some q =>
        have hcut : (x ++ c :: y).length + 1 - (q.2 ++ c :: y).length =
            x.length + 1 - q.2.length := by
          simp only [length_append]
          omega
        have hn : x.length + 1 - q.2.length - 1 ≤ x.length := by omega
        simp only [Option.map_some, hcut]
        split
        · rw [hnext _ _ (Nat.zero_le _), append_assoc]
        · rw [hnext _ _ hn, cons_append]
    | succ skip => exact hnext skip last (by simpa using hskip)

theorem splitsAt_of_separates (hlen : 0 < e.minLen) (hc : Separates T e c) :
    (e.toRegex T).SplitsAt c := by
  intro x y
  have hleft : e.scan T (x.length + 1) (c :: x.reverse) 0 none y =
      e.scan T (x.length + 1) [] 0 none y := scan_left hc.notWord x.reverse y _ [] 0 none
  have hshift : e.scan T (x.length + 1) [] 0 none y =
      (e.scan T 0 [] 0 none y).map (shiftSpan (x.length + 1)) :=
    scan_shift (x.length + 1) y 0 [] 0 none
  change e.scan T 0 [] 0 none (x ++ c :: y) = _
  rw [scan_append hlen hc y x 0 [] 0 none (Nat.zero_le _), append_nil, Nat.zero_add, hleft, hshift]
  rfl

end Regex

end Nanoguard

import Mathlib.Data.List.Basic

/-!
# Runs of letters and separators

A run is a text in which letters and separators alternate. In a text the separators of long runs are
dropped (`kept`). More text around a part can lengthen a run but never cut one. A separator is loose
if it is kept but its run reaches an end of the text: what is kept of a part with one depends on what
stands around it.
-/

namespace Nanoguard

open List

structure Runs (α : Type) where
  sep : α → Bool
  letter : α → Bool
  /-- the number of letters that makes a run long -/
  long : Nat
  letter_of_sep : ∀ x, sep x = true → letter x = false

namespace Runs

variable {α : Type} (R : Runs α)

/-- The letters of the run that goes on with a text, each after a separator. -/
def letters : List α → List α
  | s :: c :: xs => if R.sep s && R.letter c then c :: letters xs else []
  | _ => []

/-- The text before a separator is given from its end. -/
def joins (before : List α) (x : α) (after : List α) : Bool :=
  let l := (R.letters (x :: before)).length
  let r := (R.letters (x :: after)).length
  0 < l && 0 < r && R.long ≤ l + r

/-- What is kept of a part of a text. -/
def kept (before : List α) : List α → List α → List α
  | [], _ => []
  | x :: mid, after =>
    if R.joins before x (mid ++ after) then kept (x :: before) mid after
    else x :: kept (x :: before) mid after

/-- The text goes on the run to its end. -/
def alternates : List α → Bool
  | [] => true
  | [s] => R.sep s
  | s :: c :: xs => R.sep s && R.letter c && alternates xs

/-- A separator that is kept, between letters or ends, whose run reaches an end. -/
def loose (before : List α) (x : α) (after : List α) : Bool :=
  R.sep x && before.head?.all R.letter && after.head?.all R.letter &&
    (R.alternates (x :: before) || R.alternates (x :: after)) && !R.joins before x after

def looseIn (before : List α) : List α → Bool
  | [] => false
  | x :: after => R.loose before x after || looseIn (x :: before) after

variable {R} {before mid after l r xs ys : List α} {s c x : α}

/-! ## Letters -/

theorem letters_cons_cons (hs : R.sep s = true) (hc : R.letter c = true) (xs : List α) :
    R.letters (s :: c :: xs) = c :: R.letters xs := by
  simp [letters, hs, hc]

theorem letters_of_not_sep (hs : R.sep s = false) (xs : List α) : R.letters (s :: xs) = [] := by
  cases xs with
  | nil => rfl
  | cons c xs => simp [letters, hs]

theorem sep_of_letter (hc : R.letter c = true) : R.sep c = false := by
  by_contra hsep
  simp [R.letter_of_sep c (by simpa using hsep)] at hc

theorem letters_of_letter (hc : R.letter c = true) (xs : List α) : R.letters (c :: xs) = [] :=
  letters_of_not_sep (sep_of_letter hc) xs

theorem letters_of_not_letter (hc : R.letter c = false) (s : α) (xs : List α) :
    R.letters (s :: c :: xs) = [] := by
  simp [letters, hc]

theorem length_letters_le (xs ys : List α) :
    (R.letters xs).length ≤ (R.letters (xs ++ ys)).length := by
  induction xs using letters.induct R with
  | case1 s c xs h ih =>
    rw [Bool.and_eq_true] at h
    rw [cons_append, cons_append, letters_cons_cons h.1 h.2, letters_cons_cons h.1 h.2]
    exact Nat.succ_le_succ ih
  | case2 s c xs h =>
    rw [letters, if_neg h]
    exact Nat.zero_le _
  | case3 xs hxs =>
    rw [letters]
    · exact Nat.zero_le _
    · exact hxs

theorem letters_append (h : R.alternates xs = false) (ys : List α) :
    R.letters (xs ++ ys) = R.letters xs := by
  induction xs using alternates.induct with
  | case1 => cases h
  | case2 s =>
    rw [singleton_append, letters_of_not_sep h, letters_of_not_sep h]
  | case3 s c xs ih =>
    rw [cons_append, cons_append, letters, letters]
    split
    next hsc =>
      rw [alternates, hsc] at h
      rw [ih h]
    next => rfl

/-! ## What is kept -/

theorem joins_iff : R.joins before x after = true ↔
    0 < (R.letters (x :: before)).length ∧ 0 < (R.letters (x :: after)).length ∧
      R.long ≤ (R.letters (x :: before)).length + (R.letters (x :: after)).length := by
  simp [joins, and_assoc]

theorem joins_append (h : R.joins before x after = true) (l r : List α) :
    R.joins (before ++ l) x (after ++ r) = true := by
  rw [joins_iff] at h ⊢
  have hl := length_letters_le (R := R) (x :: before) l
  have hr := length_letters_le (R := R) (x :: after) r
  rw [cons_append] at hl hr
  omega

theorem joins_of_not_sep (h : R.sep x = false) (before after : List α) :
    R.joins before x after = false := by
  simp [joins, letters_of_not_sep h]

theorem kept_append (before xs ys after : List α) :
    R.kept before (xs ++ ys) after =
      R.kept before xs (ys ++ after) ++ R.kept (xs.reverse ++ before) ys after := by
  induction xs generalizing before with
  | nil => rfl
  | cons x xs ih =>
    rw [cons_append, kept, kept, ih, append_assoc, reverse_cons, append_assoc]
    split <;> rfl

theorem kept_sublist (before mid after : List α) : (R.kept before mid after).Sublist mid := by
  induction mid generalizing before with
  | nil => exact List.Sublist.refl []
  | cons x mid ih =>
    rw [kept]
    split
    · exact (ih _).cons x
    · exact (ih _).cons_cons x

theorem kept_sublist_kept (before mid after l r : List α) :
    (R.kept (before ++ l) mid (after ++ r)).Sublist (R.kept before mid after) := by
  induction mid generalizing before with
  | nil => exact List.Sublist.refl []
  | cons x mid ih =>
    have ih := ih (x :: before)
    rw [kept, kept, ← append_assoc]
    by_cases h : R.joins before x (mid ++ after) = true
    · rw [if_pos h, if_pos (joins_append h l r)]
      exact ih
    split
    · exact ih.cons x
    · exact ih.cons_cons x

/-- A text of which everything is kept has no part of which less is kept. -/
theorem kept_eq_self_of_infix (ht : R.kept [] ys [] = ys) (h : xs <:+: ys) :
    R.kept [] xs [] = xs := by
  obtain ⟨u, v, rfl⟩ := h
  rw [kept_append, kept_append] at ht
  have hlen := congrArg List.length ht
  have hu := (kept_sublist (R := R) [] u (xs ++ (v ++ []))).length_le
  have hv := (kept_sublist (R := R) ((u ++ xs).reverse ++ []) v []).length_le
  have hpart := kept_sublist_kept (R := R) [] xs [] (u.reverse ++ []) (v ++ [])
  have hxs := kept_sublist (R := R) [] xs []
  simp only [nil_append, length_append] at hlen hu hv hpart
  exact hxs.eq_of_length_le (by have := hpart.length_le; omega)

theorem joins_comm (before after : List α) (x : α) :
    R.joins before x after = R.joins after x before := by
  rw [Bool.eq_iff_iff, joins_iff, joins_iff]
  omega

theorem reverse_kept (before mid after : List α) :
    (R.kept before mid after).reverse = R.kept after mid.reverse before := by
  induction mid generalizing before with
  | nil => rfl
  | cons x mid ih =>
    rw [reverse_cons, kept_append, reverse_reverse, ← ih, kept, kept,
      nil_append, joins_comm before]
    split
    · exact (append_nil _).symm
    · exact reverse_cons

/-- What is kept of a run does not get longer. -/
theorem length_letters_kept (before xs after : List α) :
    (R.letters (R.kept before xs after)).length ≤ (R.letters xs).length := by
  induction xs using letters.induct R generalizing before with
  | case1 s c xs h ih =>
    rw [Bool.and_eq_true] at h
    have hc := joins_of_not_sep (sep_of_letter h.2) (s :: before) (xs ++ after)
    rw [kept, kept, hc, letters_cons_cons h.1 h.2]
    split
    · rw [if_neg Bool.false_ne_true, letters_of_letter h.2]
      exact Nat.zero_le _
    · rw [if_neg Bool.false_ne_true, letters_cons_cons h.1 h.2]
      exact Nat.succ_le_succ (ih _)
  | case2 s c xs h =>
    have hnil (t : List α) : R.letters (s :: c :: t) = [] := by rw [letters, if_neg h]
    rw [kept, joins]
    by_cases hs : R.sep s = true
    · have hsep : R.letters (c :: s :: before) = [] :=
        letters_of_not_letter (R.letter_of_sep s hs) c before
      simp [kept, joins, hsep, hnil]
    · simp [letters_of_not_sep (by simpa using hs)]
  | case3 xs hxs =>
    rcases xs with _ | ⟨s, _ | ⟨c, xs⟩⟩
    · exact Nat.zero_le _
    · rw [kept]
      split <;> exact Nat.zero_le _
    · exact absurd rfl (hxs s c xs)

theorem joins_kept (h : R.joins before.reverse x xs = false) :
    R.joins (R.kept [] before (x :: xs)).reverse x (R.kept (x :: before.reverse) xs []) = false := by
  have hright := length_letters_kept (R := R) before.reverse (x :: xs) []
  have hleft := length_letters_kept (R := R) xs (x :: before.reverse) []
  rw [kept, append_nil, h, if_neg Bool.false_ne_true] at hright
  rw [kept, append_nil, joins_comm, h, if_neg Bool.false_ne_true, ← reverse_kept] at hleft
  rw [← Bool.not_eq_true, joins_iff] at h ⊢
  omega

/-- Nothing is left to drop. -/
theorem kept_kept (before xs : List α) :
    R.kept (R.kept [] before xs).reverse (R.kept before.reverse xs []) [] =
      R.kept before.reverse xs [] := by
  induction xs generalizing before with
  | nil => rfl
  | cons x xs ih =>
    have ih := ih (before ++ [x])
    rw [kept_append, reverse_append, reverse_append] at ih
    cases hjoins : R.joins before.reverse x xs with
    | true =>
      simp only [kept, append_nil, hjoins, nil_append] at ih ⊢
      exact ih
    | false =>
      simp only [kept, nil_append, append_nil, hjoins, joins_kept hjoins, Bool.false_eq_true,
        if_false, reverse_singleton, singleton_append] at ih ⊢
      rw [ih]

/-! ## Scanning a text -/

/-- Between two parts of a text that are scanned one after the other, no run is split that is long
enough to be joined. -/
def Apart (R : Runs α) (before rest : List α) : Prop :=
  ∀ c r, rest = c :: r → R.joins before c r = false ∧
    (R.letter c = true → R.letters before = [] ∨
      (R.letters before).length + (R.letters r).length + 1 < R.long)

theorem apart_nil_left (rest : List α) : R.Apart [] rest := by
  intro c r _
  exact ⟨rfl, fun _ => .inl rfl⟩

theorem Apart.step {rest : List α} (h : R.Apart before (c :: rest))
    (hshort : R.letter c = true → (R.letters rest).length + 1 < R.long) :
    R.Apart (c :: before) rest := by
  obtain ⟨hjoins, hletter⟩ := h c rest rfl
  rintro s r rfl
  constructor
  · by_cases hsc : R.sep s = true ∧ R.letter c = true
    · have hsum := hletter hsc.2
      have hrest := hshort hsc.2
      rw [← Bool.not_eq_true, joins_iff, letters_cons_cons hsc.1 hsc.2, length_cons]
      rcases hsum with hnil | hsum
      · rw [hnil, length_nil]
        omega
      · omega
    · have hnil : R.letters (s :: c :: before) = [] := by
        rw [letters, if_neg (by rwa [Bool.and_eq_true])]
      simp [joins, hnil]
  · intro hs
    by_cases hc : R.sep c = true
    · rw [← Bool.not_eq_true, joins_iff, letters_cons_cons hc hs, length_cons] at hjoins
      rw [← length_eq_zero_iff]
      omega
    · exact .inl (letters_of_not_sep (by simpa using hc) before)

theorem kept_step {rest : List α} (h : R.Apart before (c :: rest)) :
    R.kept before (c :: rest) [] = c :: R.kept (c :: before) rest [] := by
  rw [kept, append_nil, (h c rest rfl).1]
  rfl

theorem apart_of_letters_nil {rest : List α} (hc : R.letter c = true)
    (hrest : R.letters rest = []) : R.Apart (c :: before) rest := by
  rintro s r rfl
  refine ⟨?_, fun _ => .inl (letters_of_letter hc before)⟩
  simp [joins, hrest]

theorem kept_run (before rest : List α) (hc : R.letter c = true)
    (hlong : R.long ≤ 1 + (R.letters before).length + (R.letters rest).length) :
    R.letters (rest.drop (2 * (R.letters rest).length)) = [] ∧
      ∃ c' before', R.letter c' = true ∧
        R.kept (c :: before) rest [] =
          R.letters rest ++ R.kept (c' :: before') (rest.drop (2 * (R.letters rest).length)) [] := by
  induction rest using letters.induct R generalizing before c with
  | case1 s d rest h ih =>
    rw [Bool.and_eq_true] at h
    have hl : R.letters (s :: c :: before) = c :: R.letters before := letters_cons_cons h.1 hc _
    have hr : R.letters (s :: d :: rest) = d :: R.letters rest := letters_cons_cons h.1 h.2 _
    rw [hr, length_cons] at hlong
    have hjoins : R.joins (c :: before) s (d :: rest ++ []) = true := by
      rw [joins_iff, append_nil, hl, hr, length_cons, length_cons]
      omega
    have hd : R.joins (s :: c :: before) d (rest ++ []) = false := by
      simp [joins, letters_of_letter h.2]
    have hnext := ih (s :: c :: before) h.2 (by rw [hl, length_cons]; omega)
    rw [hr]
    refine ⟨hnext.1, ?_⟩
    obtain ⟨c', before', hc', heq⟩ := hnext.2
    refine ⟨c', before', hc', ?_⟩
    rw [kept, if_pos hjoins, kept, hd, heq]
    rfl
  | case2 s d rest h =>
    have hr : R.letters (s :: d :: rest) = [] := by rw [letters, if_neg h]
    rw [hr]
    exact ⟨hr, c, before, hc, rfl⟩
  | case3 rest hrest =>
    have hr : R.letters rest = [] := by
      rw [letters]
      exact hrest
    rw [hr]
    exact ⟨hr, c, before, hc, rfl⟩

section Maximal

variable (R)

/-- Letters with single separators between them. -/
inductive IsRun : List α → Prop
  | letter {c : α} (hc : R.letter c = true) : IsRun [c]
  | cons {c s : α} {xs : List α} (hc : R.letter c = true) (hs : R.sep s = true) (h : IsRun xs) :
      IsRun (c :: s :: xs)

/-- A run that neither the text before it nor the text after it goes on. -/
structure IsMaximalRun (before run after : List α) : Prop where
  isRun : R.IsRun run
  left : ∀ rest c s, before = rest ++ [c, s] → ¬ (R.letter c = true ∧ R.sep s = true)
  right : ∀ s c rest, after = s :: c :: rest → ¬ (R.sep s = true ∧ R.letter c = true)

/-- A separator inside a maximal run that is long. -/
def InLongRun (before : List α) (x : α) (after : List α) : Prop :=
  R.sep x = true ∧ ∃ pre l r post, before = pre ++ l ∧ after = r ++ post ∧
    R.IsMaximalRun pre (l ++ x :: r) post ∧ R.long ≤ (l ++ x :: r).countP R.letter

/-- What goes on a run: letters, each after a separator. -/
inductive GoesOn : List α → Prop
  | nil : GoesOn []
  | cons {s c : α} {xs : List α} (hs : R.sep s = true) (hc : R.letter c = true) (h : GoesOn xs) :
      GoesOn (s :: c :: xs)

variable {R}

theorem IsRun.goesOn (h : R.IsRun xs) (hs : R.sep s = true) : R.GoesOn (s :: xs) := by
  induction h generalizing s with
  | letter hc => exact .cons hs hc .nil
  | cons hc hs' _ ih => exact .cons hs hc (ih hs')

theorem GoesOn.isRun (h : R.GoesOn xs) (hc : R.letter c = true) : R.IsRun (c :: xs) := by
  induction h generalizing c with
  | nil => exact .letter hc
  | cons hs hc' _ ih => exact .cons hc hs (ih hc')

theorem GoesOn.concat (h : R.GoesOn xs) (hs : R.sep s = true) (hc : R.letter c = true) :
    R.GoesOn (xs ++ [s, c]) := by
  induction h with
  | nil => exact .cons hs hc .nil
  | cons hs' hc' _ ih => exact .cons hs' hc' ih

theorem GoesOn.reverse_append (h : R.GoesOn xs) (hrun : R.IsRun ys) :
    R.IsRun (xs.reverse ++ ys) := by
  induction h generalizing ys with
  | nil => exact hrun
  | cons hs hc _ ih =>
    rw [reverse_cons, reverse_cons, append_assoc, append_assoc]
    exact ih (.cons hc hs hrun)

theorem isRun_around (hx : R.sep x = true) :
    R.IsRun (l ++ x :: r) ↔ R.GoesOn (x :: l.reverse) ∧ R.GoesOn (x :: r) := by
  have hnot : ¬ R.letter x = true := by simp [R.letter_of_sep x hx]
  constructor
  · intro h
    generalize hxs : l ++ x :: r = xs at h
    induction h generalizing l with
    | letter hc =>
      cases l with
      | nil => cases hxs; exact absurd hc hnot
      | cons d l => simp at hxs
    | cons hc hs h ih =>
      rcases l with _ | ⟨d, _ | ⟨e, l⟩⟩
      · cases hxs
        exact absurd hc hnot
      · cases hxs
        exact ⟨.cons hx hc .nil, h.goesOn hx⟩
      cases hxs
      obtain ⟨hleft, hright⟩ := ih rfl
      refine ⟨?_, hright⟩
      rw [reverse_cons, reverse_cons, append_assoc]
      exact hleft.concat hs hc
  · rintro ⟨hleft, hright⟩
    generalize hl : l.reverse = l' at hleft
    obtain rfl : l = l'.reverse := by rw [← hl, reverse_reverse]
    cases hleft with
    | cons _ hc hleft =>
      rw [reverse_cons, append_assoc]
      exact hleft.reverse_append (hright.isRun hc)

theorem letters_eq_nil_iff :
    R.letters xs = [] ↔ ∀ s c rest, xs = s :: c :: rest → ¬ (R.sep s = true ∧ R.letter c = true) := by
  constructor
  · rintro h s c rest rfl ⟨hs, hc⟩
    rw [letters_cons_cons hs hc] at h
    cases h
  · intro h
    rcases xs with _ | ⟨s, _ | ⟨c, rest⟩⟩
    · rfl
    · rfl
    · rw [letters, if_neg]
      rw [Bool.and_eq_true]
      exact h s c rest rfl

theorem GoesOn.length_letters (h : R.GoesOn xs) (hys : R.letters ys = []) :
    (R.letters (xs ++ ys)).length = xs.countP R.letter := by
  induction h with
  | nil => rw [nil_append, hys]; rfl
  | cons hs hc _ ih =>
    rw [cons_append, cons_append, letters_cons_cons hs hc, length_cons, ih,
      countP_cons_of_neg (by simp [R.letter_of_sep _ hs]), countP_cons_of_pos hc]

theorem exists_goesOn (xs : List α) :
    ∃ run rest, xs = run ++ rest ∧ R.GoesOn run ∧ R.letters rest = [] := by
  induction xs using letters.induct R with
  | case1 s c xs h ih =>
    rw [Bool.and_eq_true] at h
    obtain ⟨run, rest, rfl, hrun, hrest⟩ := ih
    exact ⟨s :: c :: run, rest, rfl, .cons h.1 h.2 hrun, hrest⟩
  | case2 s c xs h => exact ⟨[], s :: c :: xs, rfl, .nil, by rw [letters, if_neg h]⟩
  | case3 xs hxs => exact ⟨[], xs, rfl, .nil, by rw [letters]; exact hxs⟩

theorem exists_goesOn_cons (h : 0 < (R.letters (x :: xs)).length) :
    ∃ run rest, xs = run ++ rest ∧ R.GoesOn (x :: run) ∧ R.letters rest = [] := by
  obtain ⟨run, rest, hxs, hrun, hrest⟩ := exists_goesOn (R := R) (x :: xs)
  rcases run with _ | ⟨y, run⟩
  · rw [hxs, nil_append, hrest] at h
    exact absurd h (Nat.lt_irrefl 0)
  · cases hxs
    exact ⟨run, rest, rfl, hrun, hrest⟩

theorem GoesOn.countP_pos (h : R.GoesOn (x :: xs)) : 0 < (x :: xs).countP R.letter := by
  cases h with
  | cons hs hc _ =>
    rw [countP_cons_of_neg (by simp [R.letter_of_sep _ hs]), countP_cons_of_pos hc]
    exact Nat.succ_pos _

theorem countP_around (hx : R.sep x = true) (l r : List α) :
    (l ++ x :: r).countP R.letter = (x :: l.reverse).countP R.letter + (x :: r).countP R.letter := by
  have hnot : ¬ R.letter x = true := by simp [R.letter_of_sep x hx]
  rw [countP_append, countP_cons_of_neg hnot, countP_cons_of_neg hnot, countP_reverse]

/-- **The separators that are dropped are those inside long maximal runs.** -/
theorem joins_iff_inLongRun :
    R.joins before.reverse x after = true ↔ R.InLongRun before x after := by
  rw [joins_iff]
  constructor
  · rintro ⟨hl, hr, hlong⟩
    obtain ⟨l', pre', hbefore, hleft, hpre⟩ := exists_goesOn_cons hl
    obtain ⟨r, post, rfl, hright, hpost⟩ := exists_goesOn_cons hr
    have hx : R.sep x = true := by
      cases hright with
      | cons hx _ _ => exact hx
    rw [hbefore, ← cons_append, ← cons_append, hleft.length_letters hpre,
      hright.length_letters hpost] at hlong
    obtain ⟨l, rfl⟩ := reverse_surjective l'
    refine ⟨hx, pre'.reverse, l, r, post, ?_, rfl,
      ⟨(isRun_around hx).2 ⟨hleft, hright⟩, ?_, letters_eq_nil_iff.1 hpost⟩, ?_⟩
    · rw [← reverse_reverse before, hbefore, List.reverse_append, reverse_reverse]
    · rintro rest c s hrest ⟨hc, hs⟩
      rw [reverse_eq_iff, List.reverse_append] at hrest
      exact letters_eq_nil_iff.1 hpre s c _ hrest ⟨hs, hc⟩
    · rw [countP_around hx]
      exact hlong
  · rintro ⟨hx, pre, l, r, post, rfl, rfl, hmax, hlong⟩
    obtain ⟨hleft, hright⟩ := (isRun_around hx).1 hmax.isRun
    have hpre : R.letters pre.reverse = [] := by
      refine letters_eq_nil_iff.2 fun s c rest hrest h => ?_
      rw [reverse_eq_iff, reverse_cons, reverse_cons, append_assoc] at hrest
      exact hmax.left _ c s hrest h.symm
    rw [List.reverse_append, ← cons_append, ← cons_append, hleft.length_letters hpre,
      hright.length_letters (letters_eq_nil_iff.2 hmax.right), ← countP_around hx]
    exact ⟨hleft.countP_pos, hright.countP_pos, hlong⟩

instance : Decidable (R.InLongRun before x after) := decidable_of_iff _ joins_iff_inLongRun

variable (R) in
/-- A text without the separators inside long maximal runs. -/
def withoutLong (before : List α) : List α → List α
  | [] => []
  | x :: after =>
    if R.InLongRun before x after then withoutLong (before ++ [x]) after
    else x :: withoutLong (before ++ [x]) after

theorem kept_eq_withoutLong (before xs : List α) :
    R.kept before.reverse xs [] = R.withoutLong before xs := by
  induction xs generalizing before with
  | nil => rfl
  | cons x xs ih =>
    have ih := ih (before ++ [x])
    rw [List.reverse_append, reverse_singleton, singleton_append] at ih
    simp only [kept, withoutLong, append_nil, ih, joins_iff_inLongRun]

end Maximal

/-! ## Surroundings -/

theorem length_letters_pos (hx : R.sep x = true) (hall : xs.head?.all R.letter = true)
    (hne : xs ≠ []) : 0 < (R.letters (x :: xs)).length := by
  cases xs with
  | nil => exact absurd rfl hne
  | cons c xs =>
    rw [letters_cons_cons hx (by simpa using hall)]
    exact Nat.succ_pos _

theorem head_letter_of_pos (hpos : 0 < (R.letters (x :: (xs ++ ys))).length) :
    xs.head?.all R.letter = true := by
  cases xs with
  | nil => rfl
  | cons c xs =>
    by_contra hc
    rw [cons_append, letters_of_not_letter (by simpa using hc)] at hpos
    exact absurd hpos (Nat.lt_irrefl 0)

theorem joins_of_not_loose (h : R.loose before x after = false) (l r : List α) :
    R.joins (before ++ l) x (after ++ r) = R.joins before x after := by
  by_cases hjoins : R.joins before x after = true
  · rw [hjoins, joins_append hjoins]
  rw [Bool.not_eq_true] at hjoins
  rw [hjoins, ← Bool.not_eq_true]
  intro hmore
  obtain ⟨hl, hr, hlong⟩ := joins_iff.1 hmore
  have hx : R.sep x = true := by
    by_contra hx
    rw [letters_of_not_sep (by simpa using hx)] at hl
    exact absurd hl (Nat.lt_irrefl 0)
  have hends : (R.alternates (x :: before) || R.alternates (x :: after)) = false := by
    rw [loose, hx, head_letter_of_pos hl, head_letter_of_pos hr, hjoins] at h
    simpa using h
  -- its run ends inside the text on both sides
  rw [Bool.or_eq_false_iff] at hends
  rw [← cons_append, letters_append hends.1] at hl hlong
  rw [← cons_append, letters_append hends.2] at hr hlong
  rw [← Bool.not_eq_true] at hjoins
  exact hjoins (joins_iff.2 ⟨hl, hr, hlong⟩)

/-- **A part without loose separators is treated the same in every surrounding.** -/
theorem kept_of_not_loose (h : R.looseIn before mid = false) (l r : List α) :
    R.kept (before ++ l) mid r = R.kept before mid [] := by
  induction mid generalizing before with
  | nil => rfl
  | cons x mid ih =>
    rw [looseIn, Bool.or_eq_false_iff] at h
    rw [kept, kept, joins_of_not_loose h.1, append_nil, ← cons_append, ih h.2]

theorem infix_of_not_loose (h : R.looseIn [] xs = false) (hin : xs <:+: ys) :
    R.kept [] xs [] <:+: R.kept [] ys [] := by
  obtain ⟨u, v, rfl⟩ := hin
  rw [kept_append, kept_append, append_nil, append_nil]
  have hsame := kept_of_not_loose h u.reverse v
  rw [nil_append] at hsame
  rw [hsame]
  exact ⟨_, _, rfl⟩

/-! ## The surrounding that takes a loose separator -/

theorem exists_loose (h : R.looseIn before mid = true) :
    ∃ u x v, mid = u ++ x :: v ∧ R.loose (u.reverse ++ before) x v = true := by
  induction mid generalizing before with
  | nil => cases h
  | cons x mid ih =>
    rw [looseIn, Bool.or_eq_true] at h
    rcases h with h | h
    · exact ⟨[], x, mid, rfl, h⟩
    · obtain ⟨u, y, v, rfl, hloose⟩ := ih h
      exact ⟨x :: u, y, v, rfl, by simpa using hloose⟩

/-- A run of one letter more than `n`. -/
def chain (x s : α) : Nat → List α
  | 0 => [x]
  | n + 1 => x :: s :: chain x s n

/-- The long run that is put beside a text that ends with the given element. -/
def beside (R : Runs α) (x s : α) (last : Option α) : List α :=
  if last.any R.letter then s :: chain x s R.long else chain x s R.long

def framed (R : Runs α) (x s : α) (xs : List α) : List α :=
  (R.beside x s xs.head?).reverse ++ (xs ++ R.beside x s xs.getLast?)

section Framed

variable {x₀ s₀ : α}

theorem chain_concat (n : Nat) : chain x₀ s₀ n ++ [s₀, x₀] = x₀ :: s₀ :: chain x₀ s₀ n := by
  induction n with
  | zero => rfl
  | succ n ih => rw [chain, cons_append, cons_append, ih]

theorem reverse_chain (n : Nat) : (chain x₀ s₀ n).reverse = chain x₀ s₀ n := by
  induction n with
  | zero => rfl
  | succ n ih =>
    rw [chain, reverse_cons, reverse_cons, ih, append_assoc]
    exact chain_concat n

theorem mem_chain {n : Nat} {y : α} (h : y ∈ chain x₀ s₀ n) : y = x₀ ∨ y = s₀ := by
  induction n with
  | zero => exact .inl (mem_singleton.1 h)
  | succ n ih =>
    rw [chain, mem_cons, mem_cons] at h
    exact h.elim .inl (·.elim .inr ih)

theorem mem_beside {last : Option α} {y : α} (h : y ∈ R.beside x₀ s₀ last) : y = x₀ ∨ y = s₀ := by
  unfold beside at h
  split at h
  · exact (mem_cons.1 h).elim .inr mem_chain
  · exact mem_chain h

theorem getLast?_beside (last : Option α) : (R.beside x₀ s₀ last).getLast? = some x₀ := by
  have hhead : (chain x₀ s₀ R.long).head? = some x₀ := by
    cases R.long <;> rfl
  have hchain : (chain x₀ s₀ R.long).getLast? = some x₀ := by
    rw [getLast?_eq_head?_reverse, reverse_chain, hhead]
  unfold beside
  split
  · rw [getLast?_cons, hchain]
    rfl
  · exact hchain

theorem beside_ne_nil (last : Option α) : R.beside x₀ s₀ last ≠ [] :=
  ne_nil_of_mem (mem_of_getLast? (getLast?_beside last))

theorem head?_framed (xs : List α) : (R.framed x₀ s₀ xs).head? = some x₀ := by
  rw [framed, head?_append_of_ne_nil _ (by simpa using beside_ne_nil _), head?_reverse,
    getLast?_beside]

theorem getLast?_framed (xs : List α) : (R.framed x₀ s₀ xs).getLast? = some x₀ := by
  rw [framed, ← append_assoc, getLast?_append_of_ne_nil _ (beside_ne_nil _), getLast?_beside]

theorem infix_framed (xs : List α) : xs <:+: R.framed x₀ s₀ xs :=
  ⟨_, _, append_assoc _ _ _⟩

theorem kept_framed (xs : List α) :
    R.kept [] (R.framed x₀ s₀ xs) [] =
      R.kept [] (R.beside x₀ s₀ xs.head?).reverse (xs ++ R.beside x₀ s₀ xs.getLast?) ++
        (R.kept (R.beside x₀ s₀ xs.head?) xs (R.beside x₀ s₀ xs.getLast?) ++
          R.kept (xs.reverse ++ R.beside x₀ s₀ xs.head?) (R.beside x₀ s₀ xs.getLast?) []) := by
  rw [framed, kept_append, kept_append (R := R) _ xs]
  simp only [append_nil, reverse_reverse]

variable (hx₀ : R.letter x₀ = true) (hs₀ : R.sep s₀ = true)
include hx₀ hs₀

theorem length_letters_chain (hs : R.sep s = true) (n : Nat) :
    (R.letters (s :: chain x₀ s₀ n)).length = n + 1 := by
  induction n generalizing s with
  | zero =>
    rw [chain, letters_cons_cons hs hx₀]
    rfl
  | succ n ih => rw [chain, letters_cons_cons hs hx₀, length_cons, ih hs₀]

theorem long_lt_letters_beside (h : R.alternates xs = true) (hne : xs ≠ []) :
    R.long < (R.letters (xs ++ R.beside x₀ s₀ xs.getLast?)).length := by
  induction xs using alternates.induct with
  | case1 => exact absurd rfl hne
  | case2 s =>
    have hs : R.letter s = false := R.letter_of_sep s h
    have hbeside : R.beside x₀ s₀ [s].getLast? = chain x₀ s₀ R.long := by
      simp [beside, hs]
    rw [hbeside, singleton_append, length_letters_chain hx₀ hs₀ h]
    exact Nat.lt_succ_self _
  | case3 s c xs ih =>
    rw [alternates, Bool.and_eq_true, Bool.and_eq_true] at h
    rw [cons_append, cons_append, letters_cons_cons h.1.1 h.1.2, length_cons]
    by_cases hnil : xs = []
    · subst hnil
      have hbeside : R.beside x₀ s₀ [s, c].getLast? = s₀ :: chain x₀ s₀ R.long := by
        simp [beside, h.1.2]
      rw [hbeside, nil_append, length_letters_chain hx₀ hs₀ hs₀]
      omega
    · have hlast : (s :: c :: xs).getLast? = xs.getLast? :=
        getLast?_append_of_ne_nil [s, c] hnil
      rw [hlast]
      exact Nat.lt_succ_of_lt (ih h.2 hnil)

theorem letters_beside_pos (hx : R.sep x = true) (hall : xs.head?.all R.letter = true) :
    0 < (R.letters (x :: xs ++ R.beside x₀ s₀ (x :: xs).getLast?)).length := by
  by_cases hnil : xs = []
  · subst hnil
    exact Nat.zero_lt_of_lt (long_lt_letters_beside hx₀ hs₀ hx (cons_ne_nil x []))
  · exact Nat.lt_of_lt_of_le (length_letters_pos hx hall hnil) (length_letters_le _ _)

theorem joins_of_loose (h : R.loose before x after = true) :
    R.joins (before ++ R.beside x₀ s₀ (x :: before).getLast?) x
      (after ++ R.beside x₀ s₀ (x :: after).getLast?) = true := by
  simp only [loose, Bool.and_eq_true, Bool.or_eq_true] at h
  obtain ⟨⟨⟨⟨hx, hbefore⟩, hafter⟩, hends⟩, -⟩ := h
  have hl := letters_beside_pos hx₀ hs₀ hx hbefore
  have hr := letters_beside_pos hx₀ hs₀ hx hafter
  refine joins_iff.2 ⟨hl, hr, ?_⟩
  rw [← cons_append, ← cons_append]
  rcases hends with hends | hends
  all_goals
    have := long_lt_letters_beside hx₀ hs₀ hends (cons_ne_nil _ _)
    omega

theorem countP_kept_chain (n : Nat) (hlong : R.long ≤ n + 1 + (R.letters before).length)
    (after : List α) : (R.kept before (chain x₀ s₀ n) after).countP R.sep = 0 := by
  have hsep := sep_of_letter hx₀
  induction n generalizing before with
  | zero => simp [chain, kept, hsep]
  | succ n ih =>
    have hl : (R.letters (s₀ :: x₀ :: before)).length = (R.letters before).length + 1 := by
      rw [letters_cons_cons hs₀ hx₀, length_cons]
    have hr := length_letters_le (R := R) (s₀ :: chain x₀ s₀ n) after
    rw [length_letters_chain hx₀ hs₀ hs₀, cons_append] at hr
    have hjoins : R.joins (x₀ :: before) s₀ (chain x₀ s₀ n ++ after) = true := by
      rw [joins_iff]
      omega
    rw [chain, kept, joins_of_not_sep hsep, if_neg Bool.false_ne_true, kept, if_pos hjoins,
      countP_cons_of_neg (by simp [hsep])]
    exact ih (by rw [hl]; omega)

theorem countP_kept_left (xs r : List α) :
    (R.kept [] (R.beside x₀ s₀ xs.head?).reverse (xs ++ r)).countP R.sep = 0 := by
  unfold beside
  split
  next hhead =>
    cases xs with
    | nil => cases hhead
    | cons c xs =>
      have hc : R.letter c = true := hhead
      have hjoins : R.joins (chain x₀ s₀ R.long) s₀ (c :: (xs ++ r)) = true := by
        rw [joins_iff, length_letters_chain hx₀ hs₀ hs₀, letters_cons_cons hs₀ hc, length_cons]
        omega
      rw [reverse_cons, reverse_chain, kept_append, countP_append,
        countP_kept_chain hx₀ hs₀ _ (by omega), reverse_chain]
      simp [hjoins, kept]
  next =>
    rw [reverse_chain]
    exact countP_kept_chain hx₀ hs₀ _ (by omega) _

theorem countP_kept_right (xs l : List α) :
    (R.kept (xs.reverse ++ l) (R.beside x₀ s₀ xs.getLast?) []).countP R.sep = 0 := by
  unfold beside
  split
  next hlast =>
    rw [getLast?_eq_head?_reverse] at hlast
    cases hrev : xs.reverse with
    | nil =>
      rw [hrev] at hlast
      cases hlast
    | cons c ys =>
      rw [hrev] at hlast
      have hc : R.letter c = true := hlast
      have hjoins : R.joins (c :: (ys ++ l)) s₀ (chain x₀ s₀ R.long) = true := by
        rw [joins_iff, length_letters_chain hx₀ hs₀ hs₀, letters_cons_cons hs₀ hc, length_cons]
        omega
      rw [cons_append, kept, append_nil, if_pos hjoins]
      exact countP_kept_chain hx₀ hs₀ _ (by omega) _
  next => exact countP_kept_chain hx₀ hs₀ _ (by omega) _

omit hx₀ hs₀ in
theorem countP_kept_lt {u v : List α} (hx : R.sep x = true)
    (hkept : R.joins u.reverse x v = false) (htaken : R.joins (u.reverse ++ l) x (v ++ r) = true) :
    (R.kept l (u ++ x :: v) r).countP R.sep < (R.kept [] (u ++ x :: v) []).countP R.sep := by
  have hu := (kept_sublist_kept (R := R) [] u (x :: v) l r).countP_le (p := R.sep)
  have hv := (kept_sublist_kept (R := R) (x :: u.reverse) v [] l r).countP_le (p := R.sep)
  rw [kept_append, kept_append, kept, kept, if_pos htaken, append_nil, append_nil,
    append_nil, if_neg (by simp [hkept]), countP_append, countP_append,
    countP_cons_of_pos hx]
  exact Nat.add_lt_add_of_le_of_lt hu (Nat.lt_succ_of_le hv)

/-- **Between long runs a part with a loose separator loses it**, so that what is kept of the part
is not found. -/
theorem not_infix_of_loose (h : R.looseIn [] xs = true) :
    ¬ R.kept [] xs [] <:+: R.kept [] (R.framed x₀ s₀ xs) [] := by
  obtain ⟨u, x, v, rfl, hloose⟩ := exists_loose h
  rw [append_nil] at hloose
  have hfirst : (x :: u.reverse).getLast? = (u ++ x :: v).head? := by
    cases u with
    | nil => rfl
    | cons y u => rw [reverse_cons, ← cons_append, getLast?_concat]; rfl
  have hlast : (x :: v).getLast? = (u ++ x :: v).getLast? :=
    (getLast?_append_of_ne_nil u (cons_ne_nil x v)).symm
  have htaken := joins_of_loose hx₀ hs₀ hloose
  rw [hfirst, hlast] at htaken
  simp only [loose, Bool.and_eq_true, Bool.not_eq_true'] at hloose
  have hlt := countP_kept_lt hloose.1.1.1.1 hloose.2 htaken
  have hleft := countP_kept_left hx₀ hs₀ (u ++ x :: v) (R.beside x₀ s₀ (u ++ x :: v).getLast?)
  have hright := countP_kept_right hx₀ hs₀ (u ++ x :: v) (R.beside x₀ s₀ (u ++ x :: v).head?)
  intro hin
  have hle := hin.sublist.countP_le (p := R.sep)
  rw [kept_framed, countP_append, countP_append] at hle
  omega

end Framed

end Runs

end Nanoguard

import Mathlib.Data.List.Basic

/-!
# The first results of a selection

A loop collects what a selection finds until it has enough. `take_window_iff` compares the first
results of one selection with those of another one that looks at a window of the input only.
-/

namespace Nanoguard.Selection

open List

variable {α β : Type}

/-- Collect what is found until there are `n`. -/
def collect (f : α → Option β) (n : Nat) : List α → List β → List β
  | [], found => found
  | a :: as, found =>
    match f a with
    | none => collect f n as found
    | some b =>
      let found := found ++ [b]
      if n ≤ found.length then found else collect f n as found

theorem collect_eq {f : α → Option β} {n : Nat} {as : List α} {found : List β}
    (h : found.length < n) :
    collect f n as found = found ++ (as.filterMap f).take (n - found.length) := by
  induction as generalizing found with
  | nil => simp [collect]
  | cons a as ih =>
    unfold collect
    cases hfa : f a with
    | none => rw [filterMap_cons_none hfa, ih h]
    | some b =>
      have hlength : (found ++ [b]).length = found.length + 1 := length_append
      obtain ⟨m, hm⟩ := Nat.exists_eq_add_of_lt h
      have hrest : n - found.length = m + 1 := by omega
      rw [filterMap_cons_some hfa, hrest, take_succ_cons]
      dsimp only
      split
      next hle =>
        have hzero : m = 0 := by omega
        rw [hzero, take_zero]
      next hlt =>
        rw [ih (Nat.lt_of_not_le hlt), hlength, append_assoc]
        have hm' : n - (found.length + 1) = m := by omega
        rw [hm']
        rfl

theorem collect_zero (f : α → Option β) (as : List α) : collect f 0 as [] = collect f 1 as [] := by
  induction as with
  | nil => rfl
  | cons a as ih =>
    unfold collect
    cases f a with
    | none => exact ih
    | some b => rfl

/-- Two selections that find the same in an element if they both find something, and otherwise
something that the other one finds nowhere. -/
structure Apart (f g : α → Option β) : Prop where
  same : ∀ a x y, f a = some x → g a = some y → x = y
  left : ∀ a b x, f a = some x → g a = none → g b ≠ some x
  right : ∀ a b x, g a = some x → f a = none → f b ≠ some x

/-- What a selection finds at a position: nothing outside of the window. -/
def within (w i : Nat) (g : α → Option β) (a : α) : Option β := if i < w then g a else none

theorem of_within {w i : Nat} {g : α → Option β} {a : α} {y : β} (h : within w i g a = some y) :
    g a = some y := by
  unfold within at h
  split at h
  · exact h
  · cases h

theorem within_succ (w i : Nat) (g : α → Option β) (a : α) :
    within w (i + 1) g a = within (w - 1) i g a := by
  unfold within
  congr 1
  exact propext ⟨fun h => by omega, fun h => by omega⟩

theorem filterMap_cons_eq (f : α → Option β) (a : α) (as : List α) :
    (a :: as).filterMap f = (f a).toList ++ as.filterMap f := by
  rw [filterMap_cons]
  cases f a <;> rfl

theorem filterMap_window_cons (g : α → Option β) (w : Nat) (a : α) (as : List α) :
    ((a :: as).take w).filterMap g = (within w 0 g a).toList ++ (as.take (w - 1)).filterMap g := by
  cases w with
  | zero => rfl
  | succ w => exact filterMap_cons_eq g a (as.take w)

/-- The two selections find the same at every position before `n` results. -/
def AgreeUpTo (f g : α → Option β) (n w : Nat) (as : List α) : Prop :=
  ∀ before a after, as = before ++ a :: after → (before.filterMap f).length < n →
    f a = within w before.length g a

theorem agreeUpTo_cons {f g : α → Option β} {n w : Nat} {a : α} {as : List α} (hn : 0 < n) :
    AgreeUpTo f g n w (a :: as) ↔
      f a = within w 0 g a ∧ AgreeUpTo f g (n - (f a).toList.length) (w - 1) as := by
  have hlength : ∀ before, ((a :: before).filterMap f).length < n ↔
      (before.filterMap f).length < n - (f a).toList.length := by
    intro before
    rw [filterMap_cons_eq, length_append]
    omega
  constructor
  · intro hall
    refine ⟨hall [] a as rfl hn, fun before b after has hbefore => ?_⟩
    rw [← within_succ]
    exact hall (a :: before) b after (by rw [has]; rfl) ((hlength before).2 hbefore)
  · rintro ⟨hhead, htail⟩ before b after has hbefore
    cases before with
    | nil =>
      cases has
      exact hhead
    | cons c before =>
      cases has
      rw [length_cons, within_succ]
      exact htail before b after rfl ((hlength before).1 hbefore)

/-- **The first results of two selections are the same exactly if the selections agree up to them.**
At the first difference one of them finds what the other one will not find any more. -/
theorem take_window_iff {f g : α → Option β} (h : Apart f g) (as : List α) (n w : Nat) :
    (as.filterMap f).take n = ((as.take w).filterMap g).take n ↔ AgreeUpTo f g n w as := by
  induction as generalizing n w with
  | nil => simp [AgreeUpTo]
  | cons a as ih =>
    rcases Nat.eq_zero_or_pos n with rfl | hn
    · simp [AgreeUpTo]
    obtain ⟨m, rfl⟩ := Nat.exists_eq_add_one.2 hn
    rw [agreeUpTo_cons hn, filterMap_cons_eq, filterMap_window_cons, ← ih]
    cases hf : f a with
    | none =>
      cases hg : within w 0 g a with
      | none => simp
      | some y =>
        refine ⟨fun heq => ?_, fun hsame => absurd hsame.1 nofun⟩
        have hy : y ∈ (as.filterMap f).take (m + 1) := by
          rw [show (as.filterMap f).take (m + 1) = _ from heq]
          exact mem_cons_self
        obtain ⟨b, -, hb⟩ := mem_filterMap.1 (mem_of_mem_take hy)
        exact absurd hb (h.right a b y (of_within hg) hf)
    | some x =>
      cases hg : within w 0 g a with
      | none =>
        refine ⟨fun heq => ?_, fun hsame => absurd hsame.1 nofun⟩
        have hx : x ∈ ((as.take (w - 1)).filterMap g).take (m + 1) := by
          rw [← show _ = ((as.take (w - 1)).filterMap g).take (m + 1) from heq]
          exact mem_cons_self
        obtain ⟨b, hb, hgb⟩ := mem_filterMap.1 (mem_of_mem_take hx)
        unfold within at hg
        split at hg
        next => exact absurd hgb (h.left a b x hf hg)
        next hw =>
          rw [show w - 1 = 0 by omega] at hb
          cases hb
      | some y =>
        simp

end Nanoguard.Selection

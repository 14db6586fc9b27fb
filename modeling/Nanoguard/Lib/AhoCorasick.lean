import Nanoguard.Lib.RustStr

/-!
# Multi-pattern search

The leftmost-first search for several phrases at once: the match that starts first, and among those
that start there the one of the first phrase in the list.
-/

namespace Nanoguard.AhoCorasick

open List

variable {text word : Text}

/-- The index of the first phrase that stands at the start of the text. -/
def matchHere (patterns : List Text) (text : Text) : Option Nat :=
  patterns.findIdx? fun p => decide (p <+: text)

def find (patterns : List Text) : Text → Option Nat
  | [] => matchHere patterns []
  | c :: text => (matchHere patterns (c :: text)).or (find patterns text)

variable {patterns : List Text}

theorem matchHere_isSome : (matchHere patterns text).isSome ↔ ∃ p ∈ patterns, p <+: text := by
  unfold matchHere
  simp

theorem find_isSome : (find patterns text).isSome ↔ ∃ p ∈ patterns, p <:+: text := by
  induction text with
  | nil =>
    rw [find, matchHere_isSome]
    simp
  | cons c text ih =>
    rw [find, Option.isSome_or, Bool.or_eq_true, matchHere_isSome, ih]
    constructor
    · intro h
      rcases h with ⟨p, hp, hpre⟩ | ⟨p, hp, hin⟩
      · exact ⟨p, hp, hpre.isInfix⟩
      · exact ⟨p, hp, infix_cons_iff.2 (.inr hin)⟩
    · intro h
      obtain ⟨p, hp, hin⟩ := h
      rcases infix_cons_iff.1 hin with hpre | hin
      · exact .inl ⟨p, hp, hpre⟩
      · exact .inr ⟨p, hp, hin⟩

theorem find_lt {i : Nat} (h : find patterns text = some i) : i < patterns.length := by
  induction text with
  | nil => exact (findIdx?_eq_some_iff_findIdx_eq.1 h).1
  | cons c text ih =>
    rcases Option.or_eq_some_iff.1 h with h | ⟨-, h⟩
    · exact (findIdx?_eq_some_iff_findIdx_eq.1 h).1
    · exact ih h

/-! ## The phrase that is reported -/

def reported (patterns : List Text) (text : Text) : Option Text :=
  (find patterns text).bind (patterns[·]?)

theorem matchHere_bind (patterns : List Text) (text : Text) :
    (matchHere patterns text).bind (patterns[·]?) =
      patterns.find? fun p => decide (p <+: text) :=
  find?_eq_bind_findIdx?_getElem?.symm

theorem exists_suffix_of_reported (h : reported patterns text = some word) :
    ∃ rest, (patterns.find? fun p => decide (p <+: rest)) = some word := by
  unfold reported at h
  induction text with
  | nil => exact ⟨[], (matchHere_bind patterns []).symm.trans h⟩
  | cons c text ih =>
    rw [find] at h
    cases hhere : matchHere patterns (c :: text) with
    | none =>
      rw [hhere] at h
      exact ih h
    | some i =>
      rw [hhere] at h
      refine ⟨c :: text, ?_⟩
      rw [← matchHere_bind, hhere]
      exact h

theorem find?_of_reported (h : reported patterns text = some word) :
    (patterns.find? fun p => decide (p <+: word)) = some word := by
  obtain ⟨rest, hrest⟩ := exists_suffix_of_reported h
  obtain ⟨hword, before, after, hpatterns, hbefore⟩ := find?_eq_some_iff_append.1 hrest
  refine find?_eq_some_iff_append.2
    ⟨decide_eq_true (prefix_refl word), before, after, hpatterns, fun p hp => ?_⟩
  have hnot := hbefore p hp
  simp only [Bool.not_eq_true', decide_eq_false_iff_not, decide_eq_true_eq] at hnot hword ⊢
  exact fun hpre => hnot (hpre.trans hword)

theorem reported_self (h : (patterns.find? fun p => decide (p <+: word)) = some word) :
    reported patterns word = some word := by
  rw [← matchHere_bind] at h
  unfold reported
  cases word with
  | nil => exact h
  | cons c word =>
    rw [find]
    cases hhere : matchHere patterns (c :: word) with
    | none =>
      rw [hhere] at h
      cases h
    | some i =>
      rw [hhere] at h
      exact h

end Nanoguard.AhoCorasick

import Mathlib.Data.List.Basic
import Mathlib.Data.List.Infix
import Mathlib.Tactic.Common

/-!
# Texts between markers

A text is fenced if the opening marker occurs nowhere but at the start and the closing one nowhere but
at the end. With a separator between a marker and the text, an occurrence of a marker lies on one side
of the separator or across it (`Straddles`).
-/

namespace Nanoguard.Fence

open List

variable {α : Type} {c : α} {m x y z a b t : List α}

/-! ## Two cuts of a list -/

theorem cut_cases (h : a ++ b = x ++ y) :
    (∃ r, x = a ++ r ∧ b = r ++ y) ∨ ∃ d r, a = x ++ d :: r ∧ y = d :: (r ++ b) := by
  rcases append_eq_append_iff.1 h with hleft | ⟨r, hr, hy⟩
  · exact .inl hleft
  · cases r with
    | nil => exact .inl ⟨[], by simpa using hr.symm, by simpa using hy.symm⟩
    | cons d r => exact .inr ⟨d, r, hr, hy⟩

theorem cut_cons_cases {d : α} (h : a ++ c :: b = x ++ d :: y) :
    (∃ r, x = a ++ c :: r ∧ b = r ++ d :: y) ∨ a = x ∧ c = d ∧ b = y ∨
      ∃ r, a = x ++ d :: r ∧ y = r ++ c :: b := by
  rcases cut_cases h with ⟨r, hx, hr⟩ | ⟨e, r, ha, hr⟩
  · cases r with
    | nil => exact .inr (.inl ⟨by simpa using hx.symm, List.cons.inj hr⟩)
    | cons e r =>
      obtain ⟨rfl, hb⟩ := List.cons.inj hr
      exact .inl ⟨r, hx, hb⟩
  · obtain ⟨rfl, hy⟩ := List.cons.inj hr
    exact .inr (.inr ⟨r, ha, hy⟩)

/-! ## Markers -/

def OnlyAtStart (m t : List α) : Prop := ∀ a b, t = a ++ (m ++ b) → a = []

def OnlyAtEnd (m t : List α) : Prop := ∀ a b, t = a ++ (m ++ b) → b = []

/-- `m` occurs across the separator `c` between `x` and `y`. -/
def Straddles (c : α) (m x y : List α) : Prop := ∃ p q, m = p ++ c :: q ∧ p <:+ x ∧ q <+: y

theorem not_straddles_of_notMem (h : c ∉ m) : ¬ Straddles c m x y := by
  rintro ⟨p, q, rfl, -⟩
  exact h (mem_append_right p mem_cons_self)

/-- Where an occurrence lies: before the separator, behind it, or across it. -/
theorem occurrence_cases (h : x ++ c :: y = a ++ (m ++ b)) :
    (∃ r, x = a ++ (m ++ r) ∧ b = r ++ c :: y) ∨
      (∃ r, a = x ++ c :: r ∧ y = r ++ (m ++ b)) ∨
      ∃ p q, m = p ++ c :: q ∧ x = a ++ p ∧ y = q ++ b := by
  rcases cut_cases h.symm with ⟨r, rfl, hr⟩ | ⟨d, r, rfl, hr⟩
  · rcases cut_cases hr with ⟨s, rfl, rfl⟩ | ⟨d, s, rfl, hs⟩
    · exact .inl ⟨s, rfl, rfl⟩
    · obtain ⟨rfl, rfl⟩ := List.cons.inj hs
      exact .inr (.inr ⟨r, s, rfl, rfl, rfl⟩)
  · obtain ⟨rfl, rfl⟩ := List.cons.inj hr
    exact .inr (.inl ⟨r, rfl, rfl⟩)

theorem isInfix_append_cons_iff : m <:+: x ++ c :: y ↔ m <:+: x ∨ m <:+: y ∨ Straddles c m x y := by
  constructor
  · rintro ⟨a, b, hab⟩
    rw [append_assoc] at hab
    rcases occurrence_cases hab.symm with ⟨r, rfl, -⟩ | ⟨r, -, rfl⟩ | ⟨p, q, rfl, rfl, rfl⟩
    · exact .inl ⟨a, r, append_assoc a m r⟩
    · exact .inr (.inl ⟨r, b, append_assoc r m b⟩)
    · exact .inr (.inr ⟨p, q, rfl, suffix_append a p, prefix_append q b⟩)
  · rintro (h | h | ⟨p, q, rfl, ⟨a, rfl⟩, ⟨b, rfl⟩⟩)
    · exact h.trans (prefix_append x _).isInfix
    · exact h.trans ((suffix_cons c y).trans (suffix_append x _)).isInfix
    · exact ⟨a, b, by simp⟩

theorem not_isInfix_append_cons_iff : ¬ m <:+: x ++ c :: y ↔
    ¬ m <:+: x ∧ ¬ m <:+: y ∧ ¬ Straddles c m x y := by
  rw [isInfix_append_cons_iff, not_or, not_or]

theorem onlyAtEnd_iff : OnlyAtEnd m (x ++ c :: m) ↔ ¬ m <:+: x ∧ ¬ Straddles c m x m := by
  constructor
  · intro h
    refine ⟨?_, ?_⟩
    · rintro ⟨a, b, rfl⟩
      have hnil := h a (b ++ c :: m) (by simp)
      exact absurd (append_eq_nil_iff.1 hnil).2 (cons_ne_nil c m)
    rintro ⟨p, q, hsplit, ⟨a, rfl⟩, ⟨b, hb⟩⟩
    -- the part behind the separator is shorter than the marker
    have hocc : a ++ p ++ c :: m = a ++ (m ++ b) := by
      calc a ++ p ++ c :: m = a ++ p ++ c :: (q ++ b) := by rw [hb]
        _ = a ++ (p ++ c :: q ++ b) := by simp
        _ = a ++ (m ++ b) := by rw [← hsplit]
    rw [h a b hocc, append_nil] at hb
    have hlen := congrArg List.length hsplit
    rw [hb, length_append, length_cons] at hlen
    omega
  · rintro ⟨hin, hstraddle⟩ a b hab
    rcases occurrence_cases hab with ⟨r, rfl, -⟩ | ⟨r, -, hr⟩ | ⟨p, q, rfl, rfl, hq⟩
    · exact absurd ⟨a, r, append_assoc a m r⟩ hin
    · have hlen := congrArg List.length hr
      rw [length_append, length_append] at hlen
      exact length_eq_zero_iff.1 (by omega)
    · exact absurd ⟨p, q, rfl, suffix_append a p, ⟨b, hq.symm⟩⟩ hstraddle

theorem onlyAtStart_iff (hm : m ≠ []) :
    OnlyAtStart m (m ++ c :: y) ↔ ¬ m <:+: y ∧ ¬ Straddles c m m y := by
  constructor
  · intro h
    refine ⟨?_, ?_⟩
    · rintro ⟨a, b, rfl⟩
      have hnil := h (m ++ c :: a) b (by simp)
      exact absurd (append_eq_nil_iff.1 hnil).1 hm
    rintro ⟨p, q, hsplit, ⟨a, ha⟩, ⟨b, rfl⟩⟩
    have hocc : m ++ c :: (q ++ b) = a ++ (m ++ b) := by
      calc m ++ c :: (q ++ b) = a ++ p ++ c :: (q ++ b) := by rw [ha]
        _ = a ++ (p ++ c :: q ++ b) := by simp
        _ = a ++ (m ++ b) := by rw [← hsplit]
    rw [h a b hocc, nil_append] at ha
    have hlen := congrArg List.length hsplit
    rw [ha, length_append, length_cons] at hlen
    omega
  · rintro ⟨hin, hstraddle⟩ a b hab
    rcases occurrence_cases hab with ⟨r, hr, -⟩ | ⟨r, -, rfl⟩ | ⟨p, q, rfl, hp, rfl⟩
    · have hlen := congrArg List.length hr
      rw [length_append, length_append] at hlen
      exact length_eq_zero_iff.1 (by omega)
    · exact absurd ⟨r, b, append_assoc r m b⟩ hin
    · exact absurd ⟨p, q, rfl, ⟨a, hp.symm⟩, prefix_append q b⟩ hstraddle

theorem behind (hc : c ∉ y) (h : y ++ z = a ++ (c :: m ++ b)) :
    ∃ r, a = y ++ r ∧ z = r ++ (c :: m ++ b) := by
  rcases cut_cases h with hleft | ⟨d, r, rfl, hr⟩
  · exact hleft
  · obtain ⟨rfl, -⟩ := List.cons.inj hr
    exact absurd (mem_append_right a mem_cons_self) hc

end Nanoguard.Fence

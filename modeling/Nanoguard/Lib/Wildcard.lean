import Mathlib.Data.List.Basic
import Mathlib.Data.List.Infix
import Mathlib.Tactic.Common

/-!
# Wildcards

A pattern in which one letter is a star stands for the texts that come from it by putting some text
in the place of each star (`Expands`). Stars at the start ask for a final part of the text (`expands_lead`)
and stars at the end for an initial part (`expands_trail`).
-/

namespace Nanoguard.Wildcard

open List

variable {α : Type} {star : α} {p q body t : List α}

/-- `Expands star p t`: putting a text in the place of each star of `p` gives `t`. -/
inductive Expands (star : α) : List α → List α → Prop
  | nil : Expands star [] []
  | star {p t : List α} (s : List α) (h : Expands star p t) : Expands star (star :: p) (s ++ t)
  | letter {c : α} {p t : List α} (hc : c ≠ star) (h : Expands star p t) :
      Expands star (c :: p) (c :: t)

theorem expands_append :
    Expands star (p ++ q) t ↔ ∃ a b, t = a ++ b ∧ Expands star p a ∧ Expands star q b := by
  constructor
  · intro h
    induction p generalizing t with
    | nil => exact ⟨[], t, rfl, .nil, h⟩
    | cons c p ih =>
      cases h with
      | star s h =>
        obtain ⟨a, b, rfl, ha, hb⟩ := ih h
        exact ⟨s ++ a, b, (append_assoc s a b).symm, .star s ha, hb⟩
      | letter hc h =>
        obtain ⟨a, b, rfl, ha, hb⟩ := ih h
        exact ⟨c :: a, b, rfl, .letter hc ha, hb⟩
  · rintro ⟨a, b, rfl, ha, hb⟩
    induction ha with
    | nil => exact hb
    | star s _ ih =>
      rw [append_assoc]
      exact .star s ih
    | letter hc _ ih => exact .letter hc ih

theorem expands_of_notMem (hp : star ∉ p) : Expands star p t ↔ t = p := by
  constructor
  · intro h
    induction h with
    | nil => rfl
    | star => exact absurd mem_cons_self hp
    | letter _ _ ih => rw [ih fun hmem => hp (mem_cons_of_mem _ hmem)]
  · rintro rfl
    induction t with
    | nil => exact .nil
    | cons c t ih =>
      exact .letter (fun hc => hp (hc ▸ mem_cons_self)) (ih fun hmem => hp (mem_cons_of_mem _ hmem))

theorem expands_self [DecidableEq α] (star : α) (p : List α) : Expands star p p := by
  induction p with
  | nil => exact .nil
  | cons c p ih =>
    by_cases hc : c = star
    · subst hc
      exact .star [c] ih
    · exact .letter hc ih

theorem expands_filter [DecidableEq α] (star : α) (p : List α) :
    Expands star p (p.filter (· ≠ star)) := by
  induction p with
  | nil => exact .nil
  | cons c p ih =>
    by_cases hc : c = star
    · subst hc
      rw [filter_cons_of_neg (by simp)]
      exact .star [] ih
    · rw [filter_cons_of_pos (by simpa using hc)]
      exact .letter hc ih

theorem expands_stars (n : Nat) (t : List α) : Expands star (List.replicate (n + 1) star) t := by
  have hnil : ∀ n, Expands star (List.replicate n star) [] := by
    intro n
    induction n with
    | zero => exact .nil
    | succ n ih => exact .star [] ih
  rw [← append_nil t]
  exact .star t (hnil n)

variable (hbody : star ∉ body)

include hbody

theorem expands_lead (n : Nat) :
    Expands star (List.replicate (n + 1) star ++ body) t ↔ body <:+ t := by
  rw [expands_append]
  constructor
  · rintro ⟨a, b, rfl, -, hb⟩
    rw [(expands_of_notMem hbody).1 hb]
    exact suffix_append a body
  · rintro ⟨a, rfl⟩
    exact ⟨a, body, rfl, expands_stars n a, (expands_of_notMem hbody).2 rfl⟩

theorem expands_trail (n : Nat) :
    Expands star (body ++ List.replicate (n + 1) star) t ↔ body <+: t := by
  rw [expands_append]
  constructor
  · rintro ⟨a, b, rfl, ha, -⟩
    rw [(expands_of_notMem hbody).1 ha]
    exact prefix_append body b
  · rintro ⟨b, rfl⟩
    exact ⟨body, b, rfl, (expands_of_notMem hbody).2 rfl, expands_stars n b⟩

end Nanoguard.Wildcard

import Nanoguard.Lib.Slots

/-!
# Balanced texts

A text is balanced if it closes what it opens and nothing else. A part of a text is enclosed if it
lies between two delimiters that match each other. A plain part behind an opening delimiter is
enclosed exactly if that delimiter is closed at some point.
-/

namespace Nanoguard.Delims

open List

variable (D : Delims)

/-- The text closes nothing that it did not open. -/
def KeepsOpen (t : Text) : Prop := ∀ p, p <+: t → p.count D.cl ≤ p.count D.op

def Balanced (t : Text) : Prop := t.count D.op = t.count D.cl ∧ D.KeepsOpen t

/-- The characters from `s` to `e` lie between two delimiters that match each other. -/
def Enclosed (text : Text) (s e : Nat) : Prop :=
  ∃ x mid v, text = x ++ D.op :: (mid ++ D.cl :: v) ∧ x.length < s ∧
    e ≤ x.length + 1 + mid.length ∧ D.Balanced mid

/-- The last delimiter in front of `s` opens, and it is never closed. -/
def Dangling (text : Text) (s : Nat) : Prop :=
  ∃ x y, text.take s = x ++ D.op :: y ∧ D.Plain y ∧ D.KeepsOpen (y ++ text.drop s)

variable {D} {t u : Text}

theorem keepsOpen_snoc {c : Char} (h : D.KeepsOpen t)
    (hc : (t ++ [c]).count D.cl ≤ (t ++ [c]).count D.op) : D.KeepsOpen (t ++ [c]) := by
  intro p hp
  rcases prefix_concat_iff.1 hp with rfl | hp
  · exact hc
  · exact h p hp

theorem closing_cases (t : Text) : D.KeepsOpen t ∨ ∃ z v, t = z ++ D.cl :: v ∧ D.Balanced z := by
  induction t using List.reverseRecOn with
  | nil =>
    left
    intro p hp
    rw [prefix_nil.1 hp]
    exact Nat.le_refl 0
  | append_singleton t c ih =>
    rcases ih with hopen | ⟨z, v, rfl, hz⟩
    · by_cases hc : (t ++ [c]).count D.cl ≤ (t ++ [c]).count D.op
      · exact .inl (keepsOpen_snoc hopen hc)
      -- the text closed nothing yet, so the new character is the one that does
      have hle := hopen t (prefix_refl t)
      have hcl : c = D.cl := by
        by_contra hne
        simp [hne] at hc
        omega
      refine .inr ⟨t, [], by rw [hcl], ?_, hopen⟩
      simp [hcl] at hc
      omega
    · exact .inr ⟨z, v ++ [c], by simp, hz⟩

theorem KeepsOpen.not_balanced (h : D.KeepsOpen (t ++ D.cl :: u)) : ¬ D.Balanced t := by
  intro ht
  have hle := h (t ++ [D.cl]) ⟨u, by simp⟩
  have heq := ht.1
  simp [D.ne.symm] at hle
  omega

theorem KeepsOpen.not_balanced_of_open {d : Text} (h : D.KeepsOpen (t ++ u)) :
    ¬ D.Balanced (d ++ D.op :: t) := by
  intro hbal
  have hd := hbal.2 d (prefix_append _ _)
  have ht := h t (prefix_append _ _)
  have heq := hbal.1
  simp [D.ne] at heq
  omega

theorem of_append_eq_cons {a b t u : Text} {c : Char} (h : a ++ b = t ++ c :: u)
    (hlt : t.length < a.length) : ∃ w, a = t ++ c :: w ∧ u = w ++ b := by
  rcases Fence.cut_cases h with ⟨w, rfl, -⟩ | ⟨x, w, rfl, hw⟩
  · rw [length_append] at hlt
    omega
  · obtain ⟨rfl, rfl⟩ := List.cons.inj hw
    exact ⟨w, rfl, rfl⟩

theorem not_enclosed_of_dangling {s e : Nat} (hse : s ≤ e) (h : D.Dangling t s) :
    ¬ D.Enclosed t s e := by
  rintro ⟨x', mid, v, ht, hx', he, hmid⟩
  obtain ⟨x, y, htake, hy, hopen⟩ := h
  have hsplit : t = x ++ D.op :: (y ++ t.drop s) := by
    rw [← cons_append, ← append_assoc, ← htake, take_append_drop]
  have hs : s = x.length + 1 + y.length := by
    have hlen := congrArg List.length htake
    have hlen' := congrArg List.length ht
    simp at hlen hlen'
    omega
  generalize t.drop s = r at hsplit hopen
  rw [ht] at hsplit
  rcases append_eq_append_iff.1 hsplit with ⟨d, rfl, hd⟩ | ⟨d, rfl, hd⟩
  · cases d with
    | nil =>
      rw [← (List.cons.inj hd).2] at hopen
      exact hopen.not_balanced hmid
    | cons c d =>
      -- the opening delimiter lies in the balanced part
      have hrest := (List.cons.inj hd).2
      rw [length_append, length_cons] at hs
      obtain ⟨w, rfl, hw⟩ := of_append_eq_cons hrest (by omega)
      rw [hw] at hopen
      exact hopen.not_balanced_of_open hmid
  · cases d with
    | nil =>
      rw [(List.cons.inj hd).2] at hopen
      exact hopen.not_balanced hmid
    | cons c d =>
      -- the balanced part starts behind the last delimiter
      have hrest := (List.cons.inj hd).2
      rw [length_append, length_cons] at hx'
      obtain ⟨w, rfl, -⟩ := of_append_eq_cons hrest (by omega)
      exact hy.1 (mem_append_right _ mem_cons_self)

/-- **Behind an opening delimiter, a plain part is enclosed unless the delimiter is never closed.** -/
theorem enclosed_of_not_dangling {x y : Text} {s e : Nat} (hse : s ≤ e) (he : e ≤ t.length)
    (htake : t.take s = x ++ D.op :: y) (hy : D.Plain y) (hpart : D.Plain ((t.drop s).take (e - s)))
    (h : ¬ D.Dangling t s) : D.Enclosed t s e := by
  have hsplit : t = x ++ D.op :: (y ++ t.drop s) := by
    rw [← cons_append, ← append_assoc, ← htake, take_append_drop]
  have hs : s = x.length + 1 + y.length := by
    have hlen := congrArg List.length htake
    simp at hlen
    omega
  rcases D.closing_cases (y ++ t.drop s) with hopen | ⟨mid, v, hmid, hbal⟩
  · exact absurd ⟨x, y, htake, hy, hopen⟩ h
  refine ⟨x, mid, v, hmid ▸ hsplit, by omega, ?_, hbal⟩
  -- up to `e` there is nothing that closes
  by_contra hlt
  have hcat : (y ++ (t.drop s).take (e - s)) ++ t.drop e = mid ++ D.cl :: v := by
    have hdrop : t.drop e = (t.drop s).drop (e - s) := by
      rw [drop_drop, Nat.add_sub_cancel' hse]
    rw [← hmid, append_assoc, hdrop, take_append_drop]
  obtain ⟨w, hw, -⟩ := of_append_eq_cons hcat (by simp; omega)
  have hmem : D.cl ∈ y ++ (t.drop s).take (e - s) :=
    hw ▸ mem_append_right _ mem_cons_self
  rcases mem_append.1 hmem with hin | hin
  · exact hy.2 hin
  · exact hpart.2 hin

end Nanoguard.Delims

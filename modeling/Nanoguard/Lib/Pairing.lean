import Mathlib.Combinatorics.Enumerative.DoubleCounting
import Mathlib.Data.Bool.Count
import Mathlib.Data.List.ReduceOption

/-!
# Pairing greedily

Each element of a list takes the first element of another list that is free and fits. The result is a
one-to-one pairing, and if what fits is what has the same key, no pairing is larger.
-/

namespace Nanoguard.Pairing

open List

variable {α β κ : Type} {R : α → β → Bool} {as : List α} {bs : List β} {used : List Bool}
  {ps : List (Option Nat)} {a : α} {i i' j : Nat}

def firstFree (R : α → β → Bool) (bs : List β) (used : List Bool) (a : α) : Option Nat :=
  (bs.zip used).findIdx? fun x => !x.2 && R a x.1

/-- What is used in the end, and the partner of each element. -/
def pairLoop (R : α → β → Bool) (bs : List β) : List Bool → List α → List Bool × List (Option Nat)
  | used, [] => (used, [])
  | used, a :: as =>
    match firstFree R bs used a with
    | some j =>
      let rest := pairLoop R bs (used.set j true) as
      (rest.1, some j :: rest.2)
    | none =>
      let rest := pairLoop R bs used as
      (rest.1, none :: rest.2)

/-- Each element has at most one partner, which fits, and no two have the same. -/
structure IsPairing (R : α → β → Bool) (as : List α) (bs : List β) (ps : List (Option Nat)) :
    Prop where
  length_eq : ps.length = as.length
  nodup : ps.reduceOption.Nodup
  fits : ∀ i j : Nat, ps[i]? = some (some j) →
    ∃ a b, as[i]? = some a ∧ bs[j]? = some b ∧ R a b = true

theorem mem_reduceOption_iff : j ∈ ps.reduceOption ↔ ∃ i : Nat, ps[i]? = some (some j) := by
  rw [reduceOption_mem_iff, mem_iff_getElem?]

theorem firstFree_eq_some (h : firstFree R bs used a = some j) :
    used[j]? = some false ∧ ∃ b, bs[j]? = some b ∧ R a b = true := by
  obtain ⟨hj, hfree, -⟩ := findIdx?_eq_some_iff_getElem.1 h
  rw [getElem_zip, Bool.and_eq_true, Bool.not_eq_true'] at hfree
  rw [length_zip] at hj
  exact ⟨List.getElem?_eq_some_iff.2 ⟨by omega, hfree.1⟩, _,
    List.getElem?_eq_some_iff.2 ⟨by omega, rfl⟩, hfree.2⟩

theorem used_of_firstFree_none (hlen : used.length = bs.length) (h : firstFree R bs used a = none)
    {b : β} (hb : bs[j]? = some b) (hR : R a b = true) : used[j]? = some true := by
  obtain ⟨hj, rfl⟩ := List.getElem?_eq_some_iff.1 hb
  have hmem : (bs[j], used[j]) ∈ bs.zip used :=
    mem_iff_getElem.2 ⟨j, by rw [length_zip]; omega, getElem_zip⟩
  have hnot := findIdx?_eq_none_iff.1 h _ hmem
  rw [hR, Bool.and_true, Bool.not_eq_false'] at hnot
  exact List.getElem?_eq_some_iff.2 ⟨by omega, hnot⟩

/-- What the loop does from any marks. -/
structure Paired (R : α → β → Bool) (as : List α) (bs : List β) (used used' : List Bool)
    (ps : List (Option Nat)) : Prop extends IsPairing R as bs ps where
  length_used : used'.length = used.length
  free : ∀ j ∈ ps.reduceOption, used[j]? = some false
  marks : ∀ j : Nat, used'[j]? = some true → used[j]? = some true ∨ j ∈ ps.reduceOption
  kept : ∀ j : Nat, used[j]? = some true → used'[j]? = some true
  count : used'.count true = used.count true + ps.reduceOption.length
  left : ∀ (i : Nat) a, as[i]? = some a → ps[i]? = some none →
    ∀ (j : Nat) b, bs[j]? = some b → R a b = true → used'[j]? = some true

theorem set_eq_false_iff (h : used[j]? = some false) (k : Nat) :
    (used.set j true)[k]? = some false ↔ used[k]? = some false ∧ k ≠ j := by
  rw [getElem?_set]
  split
  next heq =>
    subst heq
    simp
  next hne => simp [Ne.symm hne]

theorem set_eq_true_iff (h : used[j]? = some false) (k : Nat) :
    (used.set j true)[k]? = some true ↔ used[k]? = some true ∨ k = j := by
  rw [getElem?_set]
  split
  next heq =>
    subst heq
    simp [(List.getElem?_eq_some_iff.1 h).1]
  next hne => simp [Ne.symm hne]

theorem Paired.cons_some {used' : List Bool} (h : Paired R as bs (used.set j true) used' ps)
    (hfree : used[j]? = some false) (hfits : ∃ b, bs[j]? = some b ∧ R a b = true) :
    Paired R (a :: as) bs used used' (some j :: ps) := by
  have hnew : j ∉ ps.reduceOption := fun hmem => ((set_eq_false_iff hfree j).1 (h.free j hmem)).2 rfl
  refine ⟨⟨by simp [h.length_eq], ?_, ?_⟩, by rw [h.length_used, length_set], ?_, ?_, ?_, ?_, ?_⟩
  · exact nodup_cons.2 ⟨hnew, h.nodup⟩
  · rintro (_ | i) k hk
    · cases hk
      obtain ⟨b, hb, hR⟩ := hfits
      exact ⟨a, b, rfl, hb, hR⟩
    · exact h.fits i k hk
  · intro k hk
    rw [reduceOption_cons_of_some, mem_cons] at hk
    rcases hk with rfl | hk
    · exact hfree
    · exact ((set_eq_false_iff hfree k).1 (h.free k hk)).1
  · intro k hk
    rw [reduceOption_cons_of_some, mem_cons]
    rcases h.marks k hk with hk | hk
    · exact ((set_eq_true_iff hfree k).1 hk).imp_right .inl
    · exact .inr (.inr hk)
  · exact fun k hk => h.kept k ((set_eq_true_iff hfree k).2 (.inl hk))
  · obtain ⟨hj, hget⟩ := List.getElem?_eq_some_iff.1 hfree
    have hone : (used.set j true).count true = used.count true + 1 := by
      rw [count_set hj, hget]
      rfl
    rw [h.count, reduceOption_cons_of_some, length_cons]
    omega
  · rintro (_ | i) a' ha' hnone
    · cases hnone
    · exact h.left i a' ha' hnone

theorem Paired.cons_none {used' : List Bool} (h : Paired R as bs used used' ps)
    (hleft : ∀ (j : Nat) b, bs[j]? = some b → R a b = true → used[j]? = some true) :
    Paired R (a :: as) bs used used' (none :: ps) := by
  have hsame : (none :: ps).reduceOption = ps.reduceOption := reduceOption_cons_of_none ps
  refine ⟨⟨by simp [h.length_eq], hsame ▸ h.nodup, ?_⟩, h.length_used, hsame ▸ h.free,
    hsame ▸ h.marks, h.kept, hsame ▸ h.count, ?_⟩
  · rintro (_ | i) k hk
    · cases hk
    · exact h.fits i k hk
  rintro (_ | i) a' ha' hnone j b hb hR
  · cases ha'
    exact h.kept j (hleft j b hb hR)
  · exact h.left i a' ha' hnone j b hb hR

theorem paired_pairLoop (hlen : used.length = bs.length) :
    Paired R as bs used (pairLoop R bs used as).1 (pairLoop R bs used as).2 := by
  induction as generalizing used with
  | nil =>
    exact ⟨⟨rfl, nodup_nil, nofun⟩, rfl, nofun, fun _ h => .inl h, fun _ h => h, rfl, nofun⟩
  | cons a as ih =>
    unfold pairLoop
    split
    next j hj =>
      obtain ⟨hfree, hfits⟩ := firstFree_eq_some hj
      exact (ih (by rw [length_set, hlen])).cons_some hfree hfits
    next hnone => exact (ih hlen).cons_none fun j b => used_of_firstFree_none hlen hnone

/-! ## Pairing all -/

def pairAll (R : α → β → Bool) (as : List α) (bs : List β) : List Bool × List (Option Nat) :=
  pairLoop R bs (List.replicate bs.length false) as

theorem paired_pairAll (R : α → β → Bool) (as : List α) (bs : List β) :
    Paired R as bs (List.replicate bs.length false) (pairAll R as bs).1 (pairAll R as bs).2 :=
  paired_pairLoop (length_replicate ..)

theorem mem_of_used (h : (pairAll R as bs).1[j]? = some true) :
    j ∈ (pairAll R as bs).2.reduceOption := by
  rcases (paired_pairAll R as bs).marks j h with hstart | hmem
  · rw [getElem?_replicate] at hstart
    split at hstart <;> cases hstart
  · exact hmem

theorem counts_pairAll (R : α → β → Bool) (as : List α) (bs : List β) :
    (pairAll R as bs).2.reduceOption.length + ((pairAll R as bs).2.filter Option.isNone).length =
        as.length ∧
      (pairAll R as bs).2.reduceOption.length + (pairAll R as bs).1.count false = bs.length := by
  have h := paired_pairAll R as bs
  constructor
  · rw [← length_eq_reduceOption_length_add_filter_none, h.length_eq]
  · have hsum := count_false_add_count_true (pairAll R as bs).1
    have hstart : (List.replicate bs.length false).count true = 0 :=
      count_eq_zero.2 (by simp)
    rw [h.length_used, length_replicate, h.count] at hsum
    omega

theorem partner_inj (h : ps.reduceOption.Nodup) (hi : ps[i]? = some (some j))
    (hi' : ps[i']? = some (some j)) : i = i' := by
  induction ps generalizing i i' with
  | nil => cases hi
  | cons p ps ih =>
    have hnew (k : Nat) (hk : ps[k]? = some (some j)) : p ≠ some j := by
      rintro rfl
      rw [reduceOption_cons_of_some, nodup_cons] at h
      exact h.1 (mem_reduceOption_iff.2 ⟨k, hk⟩)
    have htail : ps.reduceOption.Nodup := h.sublist (by cases p <;> simp)
    rcases i with _ | i <;> rcases i' with _ | i'
    · rfl
    · exact absurd (Option.some.inj hi) (hnew i' hi')
    · exact absurd (Option.some.inj hi') (hnew i hi)
    · exact congrArg (· + 1) (ih htail hi hi')

section Keys

variable {f : α → κ} {g : β → κ}

/-- All with the key are used. -/
def Saturated (used : List Bool) (bs : List β) (g : β → κ) (k : κ) : Prop :=
  ∀ (j : Nat) b, bs[j]? = some b → g b = k → used[j]? = some true

/-- A pair of a pairing shares a member with a pair of the loop: what is used, if all with its key
are, and what uses it otherwise. -/
def Shares (R : α → β → Bool) (as : List α) (bs : List β) (g : β → κ) (ps : List (Option Nat))
    (j j' : Nat) : Prop :=
  ∃ b, bs[j]? = some b ∧ (Saturated (pairAll R as bs).1 bs g (g b) ∧ j = j' ∨
    ¬ Saturated (pairAll R as bs).1 bs g (g b) ∧
      ∃ i : Nat, ps[i]? = some (some j) ∧ (pairAll R as bs).2[i]? = some (some j'))

variable (hR : ∀ a b, R a b = true ↔ f a = g b)
include hR

theorem exists_shares (h : IsPairing R as bs ps) (hj : j ∈ ps.reduceOption) :
    ∃ j' ∈ (pairAll R as bs).2.reduceOption, Shares R as bs g ps j j' := by
  have hpaired := paired_pairAll R as bs
  obtain ⟨i, hi⟩ := mem_reduceOption_iff.1 hj
  obtain ⟨a, b, ha, hb, hfits⟩ := h.fits i j hi
  by_cases hsat : Saturated (pairAll R as bs).1 bs g (g b)
  · exact ⟨j, mem_of_used (hsat j b hb rfl), b, hb, .inl ⟨hsat, rfl⟩⟩
  have hfree := hsat
  simp only [Saturated, not_forall] at hfree
  obtain ⟨j₀, b₀, hb₀, hkey, hnot⟩ := hfree
  have hlt : i < (pairAll R as bs).2.length := by
    rw [hpaired.length_eq]
    exact (List.getElem?_eq_some_iff.1 ha).1
  -- something with the key is free, so the element has a partner
  cases hq : (pairAll R as bs).2[i] with
  | none =>
    refine absurd (hpaired.left i a ha ?_ j₀ b₀ hb₀ ?_) hnot
    · exact List.getElem?_eq_some_iff.2 ⟨hlt, hq⟩
    · exact (hR a b₀).2 (((hR a b).1 hfits).trans hkey.symm)
  | some j' =>
    have hget := List.getElem?_eq_some_iff.2 ⟨hlt, hq⟩
    exact ⟨j', mem_reduceOption_iff.2 ⟨i, hget⟩, b, hb, .inr ⟨hsat, i, hi, hget⟩⟩

theorem Shares.key_eq (h : IsPairing R as bs ps) {j' : Nat} {b : β} (hb : bs[j]? = some b)
    (hj : Shares R as bs g ps j j') : ∃ b', bs[j']? = some b' ∧ g b = g b' := by
  obtain ⟨b₁, hb₁, ⟨-, rfl⟩ | ⟨-, i, hi, hi'⟩⟩ := hj
  · exact ⟨b, hb, rfl⟩
  obtain ⟨a, b₂, ha, hb₂, hfits⟩ := h.fits i j hi
  obtain ⟨a', b', ha', hb', hfits'⟩ := (paired_pairAll R as bs).fits i j' hi'
  cases hb.symm.trans hb₂
  cases ha.symm.trans ha'
  exact ⟨b', hb', ((hR a b).1 hfits).symm.trans ((hR a b').1 hfits')⟩

theorem Shares.unique (h : IsPairing R as bs ps) {j₁ j₂ j' : Nat} (h₁ : Shares R as bs g ps j₁ j')
    (h₂ : Shares R as bs g ps j₂ j') : j₁ = j₂ := by
  obtain ⟨b₁, hb₁, hcase₁⟩ := h₁
  obtain ⟨b₂, hb₂, hcase₂⟩ := h₂
  obtain ⟨b', hb', hkey₁⟩ := Shares.key_eq hR h hb₁ ⟨b₁, hb₁, hcase₁⟩
  obtain ⟨b'', hb'', hkey₂⟩ := Shares.key_eq hR h hb₂ ⟨b₂, hb₂, hcase₂⟩
  cases hb'.symm.trans hb''
  rw [hkey₁] at hcase₁
  rw [hkey₂] at hcase₂
  rcases hcase₁ with ⟨hsat, rfl⟩ | ⟨hsat, i, hi, hi'⟩
  · rcases hcase₂ with ⟨-, rfl⟩ | ⟨hnot, -⟩
    · rfl
    · exact absurd hsat hnot
  rcases hcase₂ with ⟨hnot, -⟩ | ⟨-, k, hk, hk'⟩
  · exact absurd hnot hsat
  · obtain rfl := partner_inj (paired_pairAll R as bs).nodup hi' hk'
    exact Option.some.inj (Option.some.inj (hi.symm.trans hk))

/-- **If what fits is what has the same key, no pairing is larger**: every pair of another one shares
a member with a pair of this one, and no two the same. -/
theorem length_le_pairAll (h : IsPairing R as bs ps) :
    ps.reduceOption.length ≤ (pairAll R as bs).2.reduceOption.length := by
  rw [← toFinset_card_of_nodup h.nodup, ← toFinset_card_of_nodup (paired_pairAll R as bs).nodup]
  refine Finset.card_le_card_of_forall_subsingleton (Shares R as bs g ps) (fun j hj => ?_) ?_
  · obtain ⟨j', hj', hshares⟩ := exists_shares hR h (mem_toFinset.1 hj)
    exact ⟨j', mem_toFinset.2 hj', hshares⟩
  · intro j' _ j₁ h₁ j₂ h₂
    exact Shares.unique hR h h₁.2 h₂.2

end Keys

end Nanoguard.Pairing

import Mathlib.Data.List.AList
import Mathlib.Data.List.Sort

/-!
# Keeping the newest

Entries with times, of which the newest few are kept: they are sorted by their times
(`insertionSort_eq`), and all but the first few are removed (`mem_take_iff`, `lookup_eraseAll`).
-/

namespace Nanoguard.Retention

open List

variable {κ α : Type}

theorem insertionSort_eq {l kept : List (κ × Nat)} (hperm : l.Perm kept)
    (hkept : kept.Pairwise fun a b => b.2 < a.2) :
    l.insertionSort (fun a b => b.2 ≤ a.2) = kept := by
  have hsorted : (l.insertionSort fun a b => b.2 ≤ a.2).Perm kept :=
    (perm_insertionSort _ l).trans hperm
  refine hsorted.eq_of_pairwise ?_ (pairwise_insertionSort _ l) (hkept.imp fun h => Nat.le_of_lt h)
  intro a b ha hb hab hba
  -- two entries of one time are the same one
  have htimes : (kept.map Prod.snd).Nodup :=
    pairwise_map.2 (hkept.imp fun h => Nat.ne_of_gt h)
  exact inj_on_of_nodup_map htimes (hsorted.subset ha) hb (Nat.le_antisymm hba hab)

theorem notMem_drop_of_newest {l : List (κ × Nat)} {x : κ × Nat} {limit : Nat} (hnodup : l.Nodup)
    (hnewest : ∀ y ∈ l, y = x ∨ y.2 < x.2) (hlimit : 0 < limit) :
    x ∉ (l.insertionSort fun a b => b.2 ≤ a.2).drop limit := by
  intro hmem
  have hperm := perm_insertionSort (fun a b : κ × Nat => b.2 ≤ a.2) l
  have hsorted := pairwise_insertionSort (fun a b : κ × Nat => b.2 ≤ a.2) l
  cases hsort : l.insertionSort fun a b => b.2 ≤ a.2 with
  | nil =>
    rw [hsort, drop_nil] at hmem
    cases hmem
  | cons a rest =>
    rw [hsort] at hperm hsorted hmem
    obtain ⟨n, rfl⟩ := Nat.exists_eq_succ_of_ne_zero hlimit.ne'
    have hrest : x ∈ rest := mem_of_mem_drop hmem
    rcases hnewest a (hperm.subset mem_cons_self) with rfl | hlt
    · exact (nodup_cons.1 (hperm.nodup_iff.2 hnodup)).1 hrest
    · exact Nat.not_le.2 hlt ((pairwise_cons.1 hsorted).1 x hrest)

theorem mem_take_iff {kept : List (κ × α)} (hnodup : (kept.map Prod.fst).Nodup) (limit : Nat) {k : κ}
    {v : α} :
    (k, v) ∈ kept.take limit ↔ (k, v) ∈ kept ∧ k ∉ (kept.drop limit).map Prod.fst := by
  have hsplit : kept = kept.take limit ++ kept.drop limit := (take_append_drop limit kept).symm
  constructor
  · intro htaken
    refine ⟨mem_of_mem_take htaken, fun hdropped => ?_⟩
    rw [hsplit, map_append] at hnodup
    exact disjoint_of_nodup_append hnodup (mem_map_of_mem htaken) hdropped
  · rintro ⟨hmem, hnot⟩
    rw [hsplit] at hmem
    exact (mem_append.1 hmem).resolve_right fun hdropped =>
      hnot (mem_map_of_mem hdropped)

variable [DecidableEq κ]

def eraseAll (keys : List κ) (t : AList fun _ : κ => α) : AList fun _ : κ => α :=
  keys.foldl (fun t k => t.erase k) t

theorem lookup_eraseAll (keys : List κ) (t : AList fun _ : κ => α) (k : κ) :
    (eraseAll keys t).lookup k = if k ∈ keys then none else t.lookup k := by
  induction keys generalizing t with
  | nil => simp [eraseAll]
  | cons key keys ih =>
    have hstep : eraseAll (key :: keys) t = eraseAll keys (t.erase key) := rfl
    rw [hstep, ih]
    by_cases hk : k = key
    · subst hk
      simp
    · simp [hk]

end Nanoguard.Retention

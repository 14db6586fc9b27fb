import Mathlib.Data.List.AList
import Mathlib.Data.List.Induction
import Mathlib.Data.List.Sort
import Mathlib.Tactic.Common

/-!
# Accumulating by key

Items that carry a key are merged, one after the other, into the map entry of their key
(`accumulate`); `drain` takes the entries out again. An entry only sees the items of its own key, in
their order, however the items of different keys are interleaved.
-/

namespace Nanoguard

open List

variable {α β κ γ : Type} [DecidableEq κ]

/-- Merge each item into the entry of its key; `init` is the entry of a key not seen before. -/
def accumulate (key : α → κ) (merge : β → α → β) (init : β) (m : AList (fun _ : κ => β))
    (items : List α) : AList (fun _ : κ => β) :=
  items.foldl (fun m d => m.insert (key d) (merge ((m.lookup (key d)).getD init) d)) m

/-- Take the entries of `keys` out of the map, one after the other, and collect what `visit` makes
of them. -/
def drain (visit : β → Option γ) (init : β) (keys : List κ) (m : AList (fun _ : κ => β)) :
    AList (fun _ : κ => β) × List γ :=
  keys.foldl (fun acc k => (acc.1.erase k, acc.2 ++ (visit ((acc.1.lookup k).getD init)).toList))
    (m, [])

section Accumulate

variable {key : α → κ} {merge : β → α → β} {init : β} {m : AList (fun _ : κ => β)}

theorem accumulate_append (items items' : List α) :
    accumulate key merge init m (items ++ items') =
      accumulate key merge init (accumulate key merge init m items) items' :=
  foldl_append ..

theorem lookup_accumulate (items : List α) (k : κ) :
    (accumulate key merge init m items).lookup k =
      match items.filter fun d => key d = k with
      | [] => m.lookup k
      | ds => some (ds.foldl merge ((m.lookup k).getD init)) := by
  -- from the right: the last item is the one merged last
  induction items using List.reverseRecOn with
  | nil => rfl
  | append_singleton items d ih =>
    rw [accumulate_append, filter_append]
    unfold accumulate at ih ⊢
    simp only [foldl_cons, foldl_nil]
    by_cases hk : key d = k
    · subst hk
      rw [ih]
      cases hds : items.filter fun d' => key d' = key d with
      | nil => simp
      | cons d' ds => simp
    · rw [AList.lookup_insert_ne (Ne.symm hk), ih]
      cases hds : items.filter fun d' => key d' = k with
      | nil => simp [hk]
      | cons d' ds => simp [hk]

theorem lookup_accumulate_empty {items ds : List α} {k : κ}
    (h : (items.filter fun d => key d = k) = ds) (hne : ds ≠ []) :
    (accumulate key merge init ∅ items).lookup k = some (ds.foldl merge init) := by
  rw [lookup_accumulate, h]
  cases ds with
  | nil => exact absurd rfl hne
  | cons d ds => simp

theorem mem_accumulate_empty {items : List α} {k : κ} :
    k ∈ accumulate key merge init ∅ items ↔ ∃ d ∈ items, key d = k := by
  rw [← AList.lookup_isSome, lookup_accumulate]
  cases hds : items.filter fun d => key d = k with
  | nil =>
    simp only [AList.lookup_empty, Option.isSome_none, Bool.false_eq_true, false_iff]
    intro h
    obtain ⟨d, hd, hk⟩ := h
    rw [filter_eq_nil_iff] at hds
    exact hds d hd (by simp [hk])
  | cons d ds =>
    have hmem : d ∈ items.filter fun d => key d = k := by
      rw [hds]
      exact mem_cons_self
    obtain ⟨hd, hk⟩ := mem_filter.1 hmem
    simp only [Option.isSome_some, true_iff]
    exact ⟨d, hd, by simpa using hk⟩

end Accumulate

section Drain

variable {visit : β → Option γ} {init : β}

theorem drain_eq (keys : List κ) (hkeys : keys.Nodup) (m : AList (fun _ : κ => β)) :
    (drain visit init keys m).2 = keys.filterMap (fun k => visit ((m.lookup k).getD init)) ∧
      ∀ k, (drain visit init keys m).1.lookup k = if k ∈ keys then none else m.lookup k := by
  induction keys using List.reverseRecOn with
  | nil => exact ⟨rfl, fun k => by simp [drain]⟩
  | append_singleton keys k ih =>
    obtain ⟨hnodup, -, hdisj⟩ := nodup_append.1 hkeys
    obtain ⟨hout, hlookup⟩ := ih hnodup
    have hk : k ∉ keys := fun hmem => hdisj k hmem k (by simp) rfl
    unfold drain at hout hlookup ⊢
    rw [foldl_append]
    simp only [foldl_cons, foldl_nil]
    constructor
    · rw [hout, hlookup k, if_neg hk]
      cases hv : visit ((m.lookup k).getD init) with
      | none => simp [hv]
      | some v => simp [hv]
    · intro k'
      by_cases hkk : k' = k
      · subst hkk
        simp
      · rw [AList.lookup_erase_ne hkk, hlookup k']
        simp [hkk]

theorem alist_eq_empty {m : AList (fun _ : κ => β)} (h : ∀ k, m.lookup k = none) : m = ∅ := by
  apply AList.ext
  cases hm : m.entries with
  | nil => rfl
  | cons e es =>
    have hmem : e.1 ∈ m := by
      rw [AList.mem_keys]
      unfold AList.keys List.keys
      rw [hm]
      exact mem_cons_self
    have := AList.lookup_isSome.2 hmem
    rw [h e.1] at this
    cases this

theorem drain_sorted {m : AList (fun _ : Nat => β)} :
    drain visit init (m.keys.insertionSort (· ≤ ·)) m =
      (∅, (m.keys.insertionSort (· ≤ ·)).filterMap fun k => visit ((m.lookup k).getD init)) := by
  have hperm : (m.keys.insertionSort (· ≤ ·)).Perm m.keys := perm_insertionSort _ _
  obtain ⟨hout, hlookup⟩ := @drain_eq _ _ _ _ visit init _ (hperm.nodup_iff.2 m.keys_nodup) m
  apply Prod.ext
  · apply alist_eq_empty
    intro k
    rw [hlookup k]
    split
    · rfl
    · rename_i hk
      rw [hperm.mem_iff] at hk
      exact AList.lookup_eq_none.2 hk
  · exact hout

end Drain

end Nanoguard

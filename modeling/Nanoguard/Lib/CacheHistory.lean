import Mathlib.Data.List.AList
import Mathlib.Tactic.Common

/-!
# The history of a cache

What was asked of a cache, what it answered and which keys it pushed out, newest event first. `kept k`
is the value last inserted under `k` with the time of that insert, unless `k` was taken out since;
`lastUse k` numbers the last event that used `k`. Neither refers to how a cache stores its entries.
-/

namespace Nanoguard.CacheHistory

section Size

theorem length_entries {κ ν : Type} (m : AList (fun _ : κ => ν)) :
    m.entries.length = m.keys.length :=
  (List.length_map _).symm

variable {κ ν : Type} [DecidableEq κ] {m : AList (fun _ : κ => ν)} {k : κ}

theorem length_erase_of_mem (hk : k ∈ m) : (m.erase k).entries.length = m.entries.length - 1 := by
  rw [length_entries, length_entries, AList.keys_erase, List.length_erase_of_mem hk]

theorem length_erase_le (m : AList (fun _ : κ => ν)) (k : κ) :
    (m.erase k).entries.length ≤ m.entries.length := by
  rw [length_entries, length_entries, AList.keys_erase]
  exact List.length_erase_le

theorem length_insert_of_mem (hk : k ∈ m) (v : ν) :
    (m.insert k v).entries.length = m.entries.length := by
  rw [length_entries, length_entries, AList.keys_insert, List.length_cons,
    List.length_erase_of_mem hk]
  exact Nat.sub_add_cancel (List.length_pos_of_mem hk)

theorem length_insert_of_notMem (hk : k ∉ m) (v : ν) :
    (m.insert k v).entries.length = m.entries.length + 1 := by
  rw [AList.entries_insert_of_notMem hk, List.length_cons]

end Size

inductive Op (κ ν : Type) where
  | get (k : κ)
  | insert (k : κ) (v : ν)
  | invalidate (k : κ)
  | clear

structure Event (κ ν : Type) where
  now : Nat
  op : Op κ ν
  /-- what a `get` answered -/
  answer : Option ν
  /-- the keys that an `insert` pushed out -/
  evicted : List κ

variable {κ ν : Type} [DecidableEq κ]

def kept (k : κ) : List (Event κ ν) → Option (ν × Nat)
  | [] => none
  | e :: h =>
    match e.op with
    | .get _ => kept k h
    | .insert j v =>
      if j = k then some (v, e.now) else if k ∈ e.evicted then none else kept k h
    | .invalidate j => if j = k then none else kept k h
    | .clear => none

/-- The key an event uses: that of an insert, and that of a `get` which found it. -/
def Event.used (e : Event κ ν) : Option κ :=
  match e.op with
  | .get k => if e.answer.isSome then some k else none
  | .insert k _ => some k
  | _ => none

/-- The number of the last event that used `k`, counted from 1; 0 if there is none. -/
def lastUse (k : κ) : List (Event κ ν) → Nat
  | [] => 0
  | e :: h => if e.used = some k then h.length + 1 else lastUse k h

variable {e : Event κ ν} {h : List (Event κ ν)} {j k : κ}

theorem kept_cons_insert {v : ν} (he : e.op = .insert j v) (hjk : j ≠ k) :
    (k ∈ e.evicted → kept k (e :: h) = none) ∧
      (k ∉ e.evicted → kept k (e :: h) = kept k h) := by
  simp only [kept, he, if_neg hjk]
  exact ⟨fun hk => if_pos hk, fun hk => if_neg hk⟩

theorem lastUse_cons_of_used (hu : e.used = some k) : lastUse k (e :: h) = h.length + 1 :=
  if_pos hu

theorem lastUse_cons_of_not_used (hu : e.used ≠ some k) : lastUse k (e :: h) = lastUse k h :=
  if_neg hu

theorem lastUse_le_length (k : κ) (h : List (Event κ ν)) : lastUse k h ≤ h.length := by
  induction h with
  | nil => exact Nat.le_refl 0
  | cons e h ih =>
    unfold lastUse
    split
    · exact Nat.le_refl _
    · exact Nat.le_succ_of_le ih

/-- An event uses one key at most, so no two keys were last used at the same time. -/
theorem eq_of_lastUse_eq (hpos : 0 < lastUse j h) (heq : lastUse j h = lastUse k h) : j = k := by
  induction h with
  | nil => exact absurd hpos (Nat.lt_irrefl 0)
  | cons e h ih =>
    by_cases hj : e.used = some j <;> by_cases hk : e.used = some k
    · exact Option.some.inj (hj.symm.trans hk)
    · rw [lastUse_cons_of_used hj, lastUse_cons_of_not_used hk] at heq
      have := lastUse_le_length k h
      omega
    · rw [lastUse_cons_of_not_used hj, lastUse_cons_of_used hk] at heq
      have := lastUse_le_length j h
      omega
    · rw [lastUse_cons_of_not_used hj] at hpos heq
      rw [lastUse_cons_of_not_used hk] at heq
      exact ih hpos heq

end Nanoguard.CacheHistory

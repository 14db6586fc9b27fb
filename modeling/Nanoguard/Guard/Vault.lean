import Nanoguard.Lib.RustStr
import Mathlib.Data.List.AList

/-!
# The per-request vault

`LocalVault` maps placeholders to the values they stand for. Its three hash maps are association
lists with distinct keys; the order in which `entries` lists them is not specified, so results about
`entries` range over its permutations.
-/

namespace Nanoguard

open List

variable {i : Nat} {p o : Text}

/-- The trait `Vault`. -/
class Vault (V : Type) where
  store : V → Text → Text → V × Text
  get : V → Text → Option Text
  entries : V → List (Text × Text)

namespace Vault

def isEmpty {V : Type} [Vault V] (v : V) : Bool := (Vault.entries v).isEmpty

inductive PlaceholderTemplate where
  | llmGuard
  | indexed
  deriving DecidableEq, Repr

/-- `[REDACTED_<entity>_<idx>]` or `[<entity>_<idx>]`. -/
def PlaceholderTemplate.format (style : PlaceholderTemplate) (entity : Text) (idx : Nat) : Text :=
  match style with
  | .llmGuard => "[REDACTED_".toList ++ entity ++ "_".toList ++ Str.decimal idx ++ "]".toList
  | .indexed => "[".toList ++ entity ++ "_".toList ++ Str.decimal idx ++ "]".toList

def PlaceholderTemplate.stem : PlaceholderTemplate → Text
  | .llmGuard => "[REDACTED_".toList
  | .indexed => "[".toList

theorem PlaceholderTemplate.format_eq (style : PlaceholderTemplate) (entity : Text) (idx : Nat) :
    style.format entity idx =
      style.stem ++ (entity ++ ("_".toList ++ (Str.decimal idx ++ "]".toList))) := by
  unfold PlaceholderTemplate.format PlaceholderTemplate.stem
  cases style with
  | llmGuard => simp only [append_assoc]
  | indexed => simp only [append_assoc]

/-- Different pairs of an entity and an index have different placeholders: the index is what follows
the last underscore. -/
theorem PlaceholderTemplate.format_injective {style : PlaceholderTemplate} {e e' : Text} {i' : Nat}
    (h : style.format e i = style.format e' i') : e = e' ∧ i = i' := by
  rw [PlaceholderTemplate.format_eq, PlaceholderTemplate.format_eq] at h
  have hdec : ∀ n, '_' ∉ Str.decimal n ++ "]".toList := by
    intro n hmem
    rcases mem_append.1 hmem with hmem | hmem
    · cases Str.isDigit_of_mem_decimal hmem
    · simp at hmem
  obtain ⟨he, hi⟩ := Str.last_inj (hdec i) (hdec i') (append_cancel_left h)
  exact ⟨he, Str.decimal_injective (append_cancel_right hi)⟩

structure LocalVault where
  /-- placeholder to original -/
  entries : AList (fun _ : Text => Text)
  /-- (entity, original) to its index -/
  seen : AList (fun _ : Text × Text => Nat)
  /-- entity to the index given last -/
  next : AList (fun _ : Text => Nat)
  style : PlaceholderTemplate

namespace LocalVault

def withStyle (style : PlaceholderTemplate) : LocalVault := ⟨∅, ∅, ∅, style⟩

def new : LocalVault := withStyle .llmGuard

def formatPlaceholder (v : LocalVault) (entity : Text) (idx : Nat) : Text :=
  v.style.format entity idx

/-- The index of a pair: the one it has, or the next one of its entity. Counters are 32 bits
wide and wrap. -/
def index (v : LocalVault) (entity original : Text) : Nat :=
  match v.seen.lookup (entity, original) with
  | some i => i
  | none => ((v.next.lookup entity).getD 0 + 1) % 2 ^ 32

def store (v : LocalVault) (entity original : Text) : LocalVault × Text :=
  let idx := v.index entity original
  let v := match v.seen.lookup (entity, original) with
    | some _ => v
    | none => { v with
        next := v.next.insert entity idx
        seen := v.seen.insert (entity, original) idx }
  let placeholder := v.formatPlaceholder entity idx
  let entries := match v.entries.lookup placeholder with
    | some _ => v.entries
    | none => v.entries.insert placeholder original
  ({ v with entries }, placeholder)

def get (v : LocalVault) (placeholder : Text) : Option Text := v.entries.lookup placeholder

/-- `Vault::entries`, in one of the possible orders. -/
def entryList (v : LocalVault) : List (Text × Text) := v.entries.entries.map fun e => (e.1, e.2)

instance : Vault LocalVault where
  store := store
  get := get
  entries := entryList

theorem store_snd (v : LocalVault) (entity original : Text) :
    (v.store entity original).2 = v.style.format entity (v.index entity original) := by
  unfold store formatPlaceholder
  cases v.seen.lookup (entity, original) <;> rfl

theorem mem_entryList {v : LocalVault} : (p, o) ∈ v.entryList ↔ v.get p = some o := by
  unfold entryList get
  rw [← Option.mem_def, AList.mem_lookup_iff, mem_map]
  constructor
  · rintro ⟨e, he, heq⟩
    cases heq
    exact he
  · intro h
    exact ⟨⟨p, o⟩, h, rfl⟩

theorem nodup_entryList (v : LocalVault) : (v.entryList.map Prod.fst).Nodup := by
  unfold entryList
  rw [map_map]
  exact v.entries.nodupKeys

/-- The number of pairs of an entity and a value that have an index. -/
def size (v : LocalVault) : Nat := v.seen.entries.length

/-! ## What a vault keeps -/

/-- What holds in every vault whose counters have not wrapped. -/
structure Wf (v : LocalVault) : Prop where
  entry : ∀ {e o i}, v.seen.lookup (e, o) = some i → v.get (v.style.format e i) = some o
  bound : ∀ {e o i}, v.seen.lookup (e, o) = some i → i ≤ (v.next.lookup e).getD 0
  issued : ∀ {p o}, v.get p = some o →
    ∃ e i, v.seen.lookup (e, o) = some i ∧ p = v.style.format e i
  count : ∀ e, (v.next.lookup e).getD 0 ≤ v.size

theorem wf_withStyle (style : PlaceholderTemplate) : (withStyle style).Wf where
  entry h := by simp [withStyle] at h
  bound h := by simp [withStyle] at h
  issued h := by simp [withStyle, get] at h
  count _ := Nat.zero_le _

section AddEntry

variable {entries : AList (fun _ : Text => Text)} {p q o o' : Text}

def addEntry (entries : AList (fun _ : Text => Text)) (p o : Text) : AList (fun _ : Text => Text) :=
  match entries.lookup p with
  | some _ => entries
  | none => entries.insert p o

theorem lookup_addEntry_of_some (h : entries.lookup q = some o') :
    (addEntry entries p o).lookup q = some o' := by
  unfold addEntry
  cases hp : entries.lookup p with
  | some _ => exact h
  | none =>
    have hne : q ≠ p := by
      rintro rfl
      rw [hp] at h
      cases h
    rw [AList.lookup_insert_ne hne, h]

theorem lookup_addEntry_of_none (h : entries.lookup p = none) :
    (addEntry entries p o).lookup p = some o := by
  unfold addEntry
  rw [h]
  exact AList.lookup_insert entries

theorem of_lookup_addEntry (h : (addEntry entries p o).lookup q = some o') :
    entries.lookup q = some o' ∨ q = p ∧ o' = o := by
  unfold addEntry at h
  cases hp : entries.lookup p with
  | some _ =>
    rw [hp] at h
    exact .inl h
  | none =>
    rw [hp] at h
    by_cases hq : q = p
    · subst hq
      rw [AList.lookup_insert] at h
      cases h
      exact .inr ⟨rfl, rfl⟩
    · rw [AList.lookup_insert_ne hq] at h
      exact .inl h

end AddEntry

section Store

variable {v : LocalVault} {entity original : Text}

theorem store_of_seen (h : v.seen.lookup (entity, original) = some i) :
    v.store entity original =
      ({ v with entries := addEntry v.entries (v.style.format entity i) original },
        v.style.format entity i) := by
  unfold store index
  rw [h]
  rfl

theorem store_of_new (h : v.seen.lookup (entity, original) = none) :
    let idx := ((v.next.lookup entity).getD 0 + 1) % 2 ^ 32
    v.store entity original =
      ({ v with
          entries := addEntry v.entries (v.style.format entity idx) original
          seen := v.seen.insert (entity, original) idx
          next := v.next.insert entity idx },
        v.style.format entity idx) := by
  unfold store index
  rw [h]
  rfl

theorem entries_store (v : LocalVault) (entity original : Text) :
    (v.store entity original).1.entries =
      addEntry v.entries (v.store entity original).2 original := by
  unfold store
  cases v.seen.lookup (entity, original) <;> rfl

theorem get_store (h : v.get p = some o) : (v.store entity original).1.get p = some o := by
  rw [get, entries_store]
  exact lookup_addEntry_of_some h

theorem of_get_store (h : (v.store entity original).1.get p = some o) :
    v.get p = some o ∨ p = (v.store entity original).2 ∧ o = original := by
  rw [get, entries_store] at h
  exact of_lookup_addEntry h

theorem size_insert {k : Text × Text} (h : v.seen.lookup k = none) (i : Nat) :
    (v.seen.insert k i).entries.length = v.size + 1 := by
  rw [AList.entries_insert_of_notMem (AList.lookup_eq_none.1 h)]
  rfl

theorem size_store (v : LocalVault) (entity original : Text) :
    (v.store entity original).1.size = v.size ∨
      (v.store entity original).1.size = v.size + 1 := by
  cases hseen : v.seen.lookup (entity, original) with
  | some i =>
    rw [store_of_seen hseen]
    exact .inl rfl
  | none =>
    rw [store_of_new hseen]
    exact .inr (size_insert hseen _)

theorem store_of_issued (hseen : v.seen.lookup (entity, original) = some i)
    (hissued : (v.get (v.style.format entity i)).isSome) : (v.store entity original).1 = v := by
  rw [store_of_seen hseen]
  obtain ⟨o, ho⟩ := Option.isSome_iff_exists.1 hissued
  unfold LocalVault.get at ho
  unfold addEntry
  rw [ho]

theorem Wf.store_new (hv : v.Wf) (hseen : v.seen.lookup (entity, original) = none)
    (hsize : v.size + 1 < 2 ^ 32) :
    let idx := (v.next.lookup entity).getD 0 + 1
    v.get (v.style.format entity idx) = none ∧
      v.store entity original =
        ({ v with
            entries := addEntry v.entries (v.style.format entity idx) original
            seen := v.seen.insert (entity, original) idx
            next := v.next.insert entity idx },
          v.style.format entity idx) := by
  have hcount := hv.count entity
  refine ⟨?_, ?_⟩
  · rw [Option.eq_none_iff_forall_ne_some]
    intro o ho
    obtain ⟨e, i, hi, hformat⟩ := hv.issued ho
    obtain ⟨rfl, rfl⟩ := PlaceholderTemplate.format_injective hformat
    have := hv.bound hi
    omega
  have hmod : ((v.next.lookup entity).getD 0 + 1) % 2 ^ 32 = (v.next.lookup entity).getD 0 + 1 :=
    Nat.mod_eq_of_lt (by omega)
  have hstore := store_of_new hseen
  rw [hmod] at hstore
  exact hstore

/-- **A store keeps the vault well formed**, and its placeholder stands for the stored value. -/
theorem Wf.store (hv : v.Wf) (hsize : (v.store entity original).1.size < 2 ^ 32) :
    (v.store entity original).1.Wf ∧
      (v.store entity original).1.get (v.store entity original).2 = some original := by
  cases hseen : v.seen.lookup (entity, original) with
  | some i =>
    rw [store_of_issued hseen (Option.isSome_of_eq_some (hv.entry hseen)), store_of_seen hseen]
    exact ⟨hv, hv.entry hseen⟩
  | none =>
    have hnew : v.size + 1 < 2 ^ 32 := by
      rw [store_of_new hseen] at hsize
      exact size_insert hseen _ ▸ hsize
    obtain ⟨hnone, hstore⟩ := hv.store_new hseen hnew
    rw [hstore]
    refine ⟨⟨?_, ?_, ?_, ?_⟩, lookup_addEntry_of_none hnone⟩
    · intro e o i hi
      by_cases hkey : (e, o) = (entity, original)
      · cases hkey
        rw [AList.lookup_insert] at hi
        cases hi
        exact lookup_addEntry_of_none hnone
      · rw [AList.lookup_insert_ne hkey] at hi
        exact lookup_addEntry_of_some (hv.entry hi)
    · intro e o i hi
      by_cases hkey : (e, o) = (entity, original)
      · cases hkey
        rw [AList.lookup_insert] at hi
        cases hi
        rw [AList.lookup_insert]
        exact le_rfl
      rw [AList.lookup_insert_ne hkey] at hi
      have := hv.bound hi
      by_cases he : e = entity
      · subst he
        rw [AList.lookup_insert]
        exact Nat.le_succ_of_le this
      · rw [AList.lookup_insert_ne he]
        exact this
    · intro p o hget
      rcases of_lookup_addEntry hget with hget | ⟨rfl, rfl⟩
      · obtain ⟨e, i, hi, hp⟩ := hv.issued hget
        have hne : (e, o) ≠ (entity, original) := by
          intro hkey
          rw [hkey, hseen] at hi
          cases hi
        exact ⟨e, i, by rw [AList.lookup_insert_ne hne, hi], hp⟩
      · exact ⟨entity, _, AList.lookup_insert _, rfl⟩
    · intro e
      have hcount := hv.count e
      unfold size at hcount ⊢
      rw [size_insert hseen]
      unfold size
      by_cases he : e = entity
      · subst he
        rw [AList.lookup_insert, Option.getD_some]
        omega
      · rw [AList.lookup_insert_ne he]
        omega

theorem style_store (v : LocalVault) (entity original : Text) :
    (v.store entity original).1.style = v.style := by
  unfold store
  cases v.seen.lookup (entity, original) <;> rfl

end Store

/-! ## The numbers of a vault -/

def valueCount (v : LocalVault) (entity : Text) : Nat :=
  v.seen.keys.countP fun k => decide (k.1 = entity)

/-- The values of each entity are numbered from one on. The numbers wrap. -/
structure Numbered (v : LocalVault) : Prop where
  next : ∀ e, (v.next.lookup e).getD 0 = v.valueCount e % 2 ^ 32
  seen : ∀ {e o i}, v.seen.lookup (e, o) = some i → (v.get (v.style.format e i)).isSome
  issued : ∀ p, (v.get p).isSome ↔
    ∃ e k, 1 ≤ k ∧ k ≤ v.valueCount e ∧ p = v.style.format e (k % 2 ^ 32)

theorem numbered_withStyle (style : PlaceholderTemplate) : (withStyle style).Numbered where
  next _ := rfl
  seen h := by simp [withStyle] at h
  issued p := by
    have hcount : ∀ e, (withStyle style).valueCount e = 0 := fun _ => rfl
    constructor
    · intro h
      simp [withStyle, get] at h
    · rintro ⟨e, k, hpos, hle, -⟩
      rw [hcount] at hle
      omega

theorem isSome_lookup_addEntry (entries : AList (fun _ : Text => Text)) (p q o : Text) :
    ((addEntry entries p o).lookup q).isSome ↔ (entries.lookup q).isSome ∨ q = p := by
  constructor
  · intro h
    obtain ⟨o', ho'⟩ := Option.isSome_iff_exists.1 h
    rcases of_lookup_addEntry ho' with hold | ⟨hq, -⟩
    · exact .inl (Option.isSome_of_eq_some hold)
    · exact .inr hq
  · rintro (h | rfl)
    · obtain ⟨o', ho'⟩ := Option.isSome_iff_exists.1 h
      exact Option.isSome_of_eq_some (lookup_addEntry_of_some ho')
    · cases hq : entries.lookup q with
      | none => exact Option.isSome_of_eq_some (lookup_addEntry_of_none hq)
      | some o' => exact Option.isSome_of_eq_some (lookup_addEntry_of_some hq)

theorem countP_insert {seen : AList (fun _ : Text × Text => Nat)} {entity original : Text}
    (h : seen.lookup (entity, original) = none) (e : Text) :
    (seen.insert (entity, original) i).keys.countP (fun k => decide (k.1 = e)) =
      seen.keys.countP (fun k => decide (k.1 = e)) + if entity = e then 1 else 0 := by
  unfold AList.keys
  rw [AList.entries_insert_of_notMem (AList.lookup_eq_none.1 h), keys_cons, countP_cons]
  simp only [decide_eq_true_eq]

theorem Numbered.store {v : LocalVault} (hv : v.Numbered) (entity original : Text) :
    (v.store entity original).1.Numbered := by
  cases hseen : v.seen.lookup (entity, original) with
  | some i =>
    rw [store_of_issued hseen (hv.seen hseen)]
    exact hv
  | none =>
    have hidx : ((v.next.lookup entity).getD 0 + 1) % 2 ^ 32 = (v.valueCount entity + 1) % 2 ^ 32 := by
      rw [hv.next, Nat.mod_add_mod]
    rw [store_of_new hseen, hidx]
    generalize hp : v.style.format entity ((v.valueCount entity + 1) % 2 ^ 32) = p
    have hcount := countP_insert (i := (v.valueCount entity + 1) % 2 ^ 32) hseen
    refine ⟨?_, ?_, ?_⟩
    · intro e
      unfold valueCount at hcount ⊢
      rw [hcount]
      by_cases he : entity = e
      · subst he
        rw [AList.lookup_insert, Option.getD_some, if_pos rfl]
      · rw [AList.lookup_insert_ne (Ne.symm he), if_neg he]
        exact hv.next e
    · intro e o i hi
      refine (isSome_lookup_addEntry _ _ _ _).2 ?_
      by_cases hkey : (e, o) = (entity, original)
      · cases hkey
        rw [AList.lookup_insert] at hi
        cases hi
        exact .inr hp
      · rw [AList.lookup_insert_ne hkey] at hi
        exact .inl (hv.seen hi)
    · intro q
      refine (isSome_lookup_addEntry _ _ _ _).trans ((or_congr_left (hv.issued q)).trans ?_)
      unfold valueCount at hcount hp ⊢
      constructor
      · rintro (⟨e, k, hpos, hle, rfl⟩ | rfl)
        · refine ⟨e, k, hpos, ?_, rfl⟩
          rw [hcount]
          omega
        · refine ⟨entity, _, Nat.succ_pos _, ?_, hp.symm⟩
          rw [hcount, if_pos rfl]
      · rintro ⟨e, k, hpos, hle, rfl⟩
        rw [hcount] at hle
        -- the last number is the new one
        by_cases he : entity = e
        · subst he
          rw [if_pos rfl] at hle
          rcases Nat.le_succ_iff.1 hle with hle | rfl
          · exact .inl ⟨entity, k, hpos, hle, rfl⟩
          · exact .inr hp
        · rw [if_neg he] at hle
          exact .inl ⟨e, k, hpos, hle, rfl⟩

/-! ## Whole runs -/

def storeAll (v : LocalVault) (pairs : List (Text × Text)) : LocalVault :=
  pairs.foldl (fun v e => (v.store e.1 e.2).1) v

theorem of_get_storeAll {style : PlaceholderTemplate} {pairs : List (Text × Text)}
    (h : ((withStyle style).storeAll pairs).get p = some o) :
    ∃ entity idx, (entity, o) ∈ pairs ∧ p = style.format entity idx := by
  suffices hrun : ∀ (rest : List (Text × Text)) (v : LocalVault), (∀ e ∈ rest, e ∈ pairs) →
      v.style = style → (∀ {p o}, v.get p = some o →
        ∃ entity idx, (entity, o) ∈ pairs ∧ p = style.format entity idx) →
      (v.storeAll rest).get p = some o →
        ∃ entity idx, (entity, o) ∈ pairs ∧ p = style.format entity idx by
    refine hrun pairs _ (fun _ he => he) rfl ?_ h
    intro p o hget
    simp [withStyle, get] at hget
  intro rest
  induction rest with
  | nil =>
    intro v _ _ hv hget
    exact hv hget
  | cons e rest ih =>
    intro v hsub hstyle hv hget
    refine ih _ (forall_mem_cons.1 hsub).2 ((style_store v e.1 e.2).trans hstyle) ?_ hget
    intro p o hp
    rcases of_get_store hp with hp | ⟨rfl, rfl⟩
    · exact hv hp
    · exact ⟨e.1, _, hsub e mem_cons_self, by rw [store_snd, hstyle]⟩

section Stable

variable {v : LocalVault} {p o : Text} {k : Text × Text} {i : Nat}

theorem storeAll_append (v : LocalVault) (a b : List (Text × Text)) :
    v.storeAll (a ++ b) = (v.storeAll a).storeAll b := foldl_append

theorem style_storeAll (v : LocalVault) (calls : List (Text × Text)) :
    (v.storeAll calls).style = v.style := by
  induction calls generalizing v with
  | nil => rfl
  | cons e calls ih => exact (ih _).trans (style_store v e.1 e.2)

theorem seen_store_self (v : LocalVault) (entity original : Text) :
    (v.store entity original).1.seen.lookup (entity, original) =
      some (v.index entity original) := by
  cases hseen : v.seen.lookup (entity, original) with
  | some i =>
    rw [store_of_seen hseen]
    unfold index
    rw [hseen]
  | none =>
    rw [store_of_new hseen]
    unfold index
    rw [hseen]
    exact AList.lookup_insert v.seen

theorem seen_store (h : v.seen.lookup k = some i) (entity original : Text) :
    (v.store entity original).1.seen.lookup k = some i := by
  cases hseen : v.seen.lookup (entity, original) with
  | some j =>
    rw [store_of_seen hseen]
    exact h
  | none =>
    have hne : k ≠ (entity, original) := by
      rintro rfl
      rw [hseen] at h
      cases h
    rw [store_of_new hseen]
    exact (AList.lookup_insert_ne hne).trans h

theorem seen_storeAll (h : v.seen.lookup k = some i) (calls : List (Text × Text)) :
    (v.storeAll calls).seen.lookup k = some i := by
  induction calls generalizing v with
  | nil => exact h
  | cons e calls ih => exact ih (seen_store h e.1 e.2)

theorem Wf.storeAll (hv : v.Wf) {calls : List (Text × Text)}
    (hlen : v.size + calls.length < 2 ^ 32) : (v.storeAll calls).Wf := by
  induction calls generalizing v with
  | nil => exact hv
  | cons e calls ih =>
    rw [length_cons] at hlen
    have hsize := size_store v e.1 e.2
    have hlen' : (v.store e.1 e.2).1.size + calls.length < 2 ^ 32 := by omega
    exact ih (hv.store (by omega)).1 hlen'

/-- The placeholder that a call gets in a new vault, after some other calls. -/
def placeholderAfter (style : PlaceholderTemplate) (before : List (Text × Text))
    (call : Text × Text) : Text :=
  (((withStyle style).storeAll before).store call.1 call.2).2

theorem exists_seen_placeholderAfter (style : PlaceholderTemplate) {before calls : List (Text × Text)}
    {call : Text × Text} (h : before ++ [call] <+: calls) :
    ∃ i, ((withStyle style).storeAll calls).seen.lookup call = some i ∧
      placeholderAfter style before call = style.format call.1 i := by
  obtain ⟨after, rfl⟩ := h
  refine ⟨((withStyle style).storeAll before).index call.1 call.2, ?_, ?_⟩
  · rw [storeAll_append, storeAll_append]
    exact seen_storeAll (seen_store_self _ call.1 call.2) after
  · unfold placeholderAfter
    rw [store_snd, style_storeAll]
    rfl

/-- **The vault is a stable injection.** In a run of fewer than 2³² stores the placeholder of a pair
stands for its value from then on, and two calls get the same placeholder exactly if they store the
same pair. -/
theorem placeholders_stable (style : PlaceholderTemplate) (calls : List (Text × Text))
    (hlen : calls.length < 2 ^ 32) :
    (∀ before call after, before ++ call :: after <+: calls →
      ((withStyle style).storeAll (before ++ call :: after)).get
        (placeholderAfter style before call) = some call.2) ∧
      ∀ before call before' call', before ++ [call] <+: calls → before' ++ [call'] <+: calls →
        (placeholderAfter style before call = placeholderAfter style before' call' ↔
          call = call') := by
  have hwf : ∀ {run : List (Text × Text)}, run <+: calls → ((withStyle style).storeAll run).Wf := by
    intro run hrun
    refine (wf_withStyle style).storeAll ?_
    have hle := hrun.length_le
    have hzero : (withStyle style).size = 0 := rfl
    omega
  have hentry : ∀ {run : List (Text × Text)} {call : Text × Text} {i : Nat}, run <+: calls →
      ((withStyle style).storeAll run).seen.lookup call = some i →
        ((withStyle style).storeAll run).get (style.format call.1 i) = some call.2 := by
    intro run call i hrun hseen
    have hget := (hwf hrun).entry hseen
    rwa [style_storeAll] at hget
  constructor
  · intro before call after hrun
    have hpre : before ++ [call] <+: before ++ call :: after :=
      ⟨after, by rw [append_assoc, singleton_append]⟩
    obtain ⟨i, hseen, hformat⟩ := exists_seen_placeholderAfter style hpre
    rw [hformat]
    exact hentry hrun hseen
  · intro before call before' call' hrun hrun'
    obtain ⟨i, hseen, hformat⟩ := exists_seen_placeholderAfter style hrun
    obtain ⟨i', hseen', hformat'⟩ := exists_seen_placeholderAfter style hrun'
    constructor
    · intro hsame
      rw [hformat, hformat'] at hsame
      obtain ⟨hentity, hidx⟩ := PlaceholderTemplate.format_injective hsame
      have hvalue := hentry (prefix_refl calls) hseen
      have hvalue' := hentry (prefix_refl calls) hseen'
      rw [hentity, hidx, hvalue'] at hvalue
      exact Prod.ext hentity (Option.some.inj hvalue).symm
    · rintro rfl
      rw [hseen] at hseen'
      cases hseen'
      rw [hformat, hformat']

/-- Entities that look like a placeholder of another. -/
theorem placeholders_stable_digits :
    let calls : List (Text × Text) := [("A".toList, "x".toList), ("A_1".toList, "y".toList)]
    calls.length < 2 ^ 32 ∧
      ((withStyle .indexed).storeAll calls).get "[A_1]".toList = some "x".toList ∧
      placeholderAfter .indexed [] ("A".toList, "x".toList) ≠
        placeholderAfter .indexed [("A".toList, "x".toList)] ("A_1".toList, "y".toList) := by
  intro calls
  have hlen : calls.length < 2 ^ 32 := by decide
  have hstable := placeholders_stable .indexed calls hlen
  refine ⟨hlen, hstable.1 [] ("A".toList, "x".toList) _ (prefix_refl _), fun hsame => ?_⟩
  have hcall := (hstable.2 [] ("A".toList, "x".toList) [("A".toList, "x".toList)]
    ("A_1".toList, "y".toList) (prefix_append _ _) (prefix_refl _)).1 hsame
  exact absurd hcall (by decide)

end Stable

end LocalVault

end Vault

end Nanoguard

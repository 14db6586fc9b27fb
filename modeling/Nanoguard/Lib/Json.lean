import Mathlib.Data.List.Forall2
import Nanoguard.Lib.Regex

/-!
# JSON values

Parsed JSON with the accessors of a dynamically typed value. `Json.update` is a mutable borrow of a
field: it changes the field, if there is one, and threads a state through the change. `AtField` and
`AtItems` say where two values may differ, `OnField` and `OnItems` how they do.
-/

namespace Nanoguard

open List

/-- A number is a natural number, a negative integer, or the bits of a float. -/
inductive Number where
  | posInt (n : Nat)
  | negInt (n : Int)
  | float (bits : UInt64)
  deriving DecidableEq, Repr

inductive Json where
  | null
  | bool (b : Bool)
  | num (n : Number)
  | str (s : Text)
  | arr (items : List Json)
  | obj (fields : List (Text × Json))
  deriving Repr

variable {fields : List (Text × Json)} {v j : Json} {key' : Text}

namespace Json

def get (j : Json) (key : Text) : Option Json :=
  match j with
  | .obj fields => fields.lookup key
  | _ => none

def asStr : Json → Option Text
  | .str s => some s
  | _ => none

def asArray : Json → Option (List Json)
  | .arr items => some items
  | _ => none

def asU64 : Json → Option Nat
  | .num (.posInt n) => some n
  | _ => none

/-- Put a value under a key, in the place of the old one if there is one. -/
def insertField (key : Text) (v : Json) : List (Text × Json) → List (Text × Json)
  | [] => [(key, v)]
  | (k, old) :: fields => if key == k then (k, v) :: fields else (k, old) :: insertField key v fields

def insert (j : Json) (key : Text) (v : Json) : Json :=
  match j with
  | .obj fields => .obj (insertField key v fields)
  | j => j

variable {σ : Type}

/-- Change the first field named `key`. -/
def updateField (key : Text) (f : σ → Json → σ × Json) (st : σ) :
    List (Text × Json) → σ × List (Text × Json)
  | [] => (st, [])
  | (k, v) :: fields =>
    if key == k then
      let q := f st v
      (q.1, (k, q.2) :: fields)
    else
      let q := updateField key f st fields
      (q.1, (k, v) :: q.2)

/-- `get_mut(key)` followed by a change of what it borrows. -/
def update (j : Json) (key : Text) (f : σ → Json → σ × Json) (st : σ) : σ × Json :=
  match j with
  | .obj fields =>
    let q := updateField key f st fields
    (q.1, .obj q.2)
  | j => (st, j)

/-- Change the items of a list from the first to the last. -/
def updateItems (f : σ → Json → σ × Json) (st : σ) : List Json → σ × List Json
  | [] => (st, [])
  | j :: items =>
    let q := f st j
    let rest := updateItems f q.1 items
    (rest.1, q.2 :: rest.2)

section Fold

variable {τ γ : Type} (val : σ → τ) (step : τ → γ → τ) {g : Json → List γ}
  {f : σ → Json → σ × Json}

theorem updateField_foldl (hf : ∀ st j, val (f st j).1 = (g j).foldl step (val st)) (key : Text)
    (st : σ) (fields : List (Text × Json)) :
    val (updateField key f st fields).1 =
      (((fields.lookup key).map g).getD []).foldl step (val st) := by
  induction fields with
  | nil => rfl
  | cons field fields ih =>
    obtain ⟨k, v⟩ := field
    rw [updateField, lookup_cons]
    by_cases hk : (key == k) = true
    · simp [hk, hf]
    · simp [hk, ih]

theorem update_foldl (hf : ∀ st j, val (f st j).1 = (g j).foldl step (val st)) (j : Json)
    (key : Text) (st : σ) :
    val (j.update key f st).1 = (((j.get key).map g).getD []).foldl step (val st) := by
  cases j with
  | obj fields => exact updateField_foldl val step hf key st fields
  | _ => rfl

theorem updateItems_foldl (hf : ∀ st j, val (f st j).1 = (g j).foldl step (val st)) (st : σ)
    (items : List Json) :
    val (updateItems f st items).1 = (items.flatMap g).foldl step (val st) := by
  induction items generalizing st with
  | nil => rfl
  | cons j items ih =>
    rw [updateItems]
    simp only [ih, hf, flatMap_cons, foldl_append]

end Fold

section Frame

variable {key : Text} {f : σ → Json → σ × Json}

theorem updateField_of_none (st : σ) (h : fields.lookup key = none) :
    updateField key f st fields = (st, fields) := by
  induction fields with
  | nil => rfl
  | cons field fields ih =>
    obtain ⟨k, v⟩ := field
    rw [lookup_cons] at h
    cases hk : key == k with
    | true => simp [hk] at h
    | false =>
      rw [hk] at h
      simp [updateField, hk, ih h]

theorem updateField_of_some (st : σ) (h : fields.lookup key = some v) :
    (updateField key f st fields).1 = (f st v).1 ∧
      (updateField key f st fields).2.lookup key = some (f st v).2 ∧
      ∀ key', key' ≠ key → (updateField key f st fields).2.lookup key' = fields.lookup key' := by
  induction fields with
  | nil => cases h
  | cons field fields ih =>
    obtain ⟨k, w⟩ := field
    rw [lookup_cons] at h
    cases hk : key == k with
    | true =>
      simp only [hk, Option.some.injEq] at h
      subst h
      have hkey : key = k := eq_of_beq hk
      subst hkey
      refine ⟨by simp [updateField], by simp [updateField], fun key' hne => ?_⟩
      have hbeq : (key' == key) = false := beq_false_of_ne hne
      simp [updateField, lookup_cons, hbeq]
    | false =>
      rw [hk] at h
      obtain ⟨hst, hself, hother⟩ := ih h
      refine ⟨by simp [updateField, hk, hst], by simp [updateField, hk, lookup_cons, hself],
        fun key' hne => ?_⟩
      simp [updateField, hk, lookup_cons, hother key' hne]

theorem update_of_none (st : σ) (h : j.get key = none) : j.update key f st = (st, j) := by
  cases j with
  | obj fields => simp only [update, updateField_of_none st h]
  | _ => rfl

theorem update_of_some (st : σ) (h : j.get key = some v) :
    (j.update key f st).1 = (f st v).1 ∧ (j.update key f st).2.get key = some (f st v).2 ∧
      ∀ key', key' ≠ key → (j.update key f st).2.get key' = j.get key' := by
  cases j with
  | obj fields => exact updateField_of_some st h
  | _ => cases h

theorem lookup_insertField (key : Text) (v : Json) (fields : List (Text × Json)) (key' : Text) :
    (insertField key v fields).lookup key' =
      if key' = key then some v else fields.lookup key' := by
  rcases Decidable.em (key' = key) with rfl | hkey
  · induction fields with
    | nil => simp [insertField]
    | cons field fields ih =>
      obtain ⟨k, old⟩ := field
      rw [insertField]
      cases hk : key' == k with
      | true =>
        have hkey : key' = k := eq_of_beq hk
        subst hkey
        simp
      | false => simp [lookup_cons, hk, ih]
  · have hbeq : (key' == key) = false := beq_false_of_ne hkey
    rw [if_neg hkey]
    induction fields with
    | nil => simp [insertField, lookup_cons, hbeq]
    | cons field fields ih =>
      obtain ⟨k, old⟩ := field
      rw [insertField]
      cases hk : key == k with
      | true =>
        have hkey : key = k := eq_of_beq hk
        subst hkey
        simp [lookup_cons, hbeq]
      | false => simp [lookup_cons, ih]

theorem get_insert_ne (h : key' ≠ key) : (j.insert key v).get key' = j.get key' := by
  cases j with
  | obj fields => exact (lookup_insertField key v fields key').trans (if_neg h)
  | _ => rfl

theorem get_insert_self {w : Json} (h : j.get key' = some w) :
    (j.insert key v).get key = some v := by
  cases j with
  | obj fields => exact (lookup_insertField key v fields key).trans (if_pos rfl)
  | _ => cases h

/-- The values agree, but for fields named `key`, which are related. -/
def AtField (key : Text) (R : Json → Json → Prop) (j j' : Json) : Prop :=
  j = j' ∨ ∃ fields fields', j = .obj fields ∧ j' = .obj fields' ∧ List.Forall₂
    (fun a b => a.1 = b.1 ∧ (a.2 = b.2 ∨ a.1 = key ∧ R a.2 b.2)) fields fields'

/-- The values agree, or are arrays with related items. -/
def AtItems (R : Json → Json → Prop) (j j' : Json) : Prop :=
  j = j' ∨ ∃ items items', j = .arr items ∧ j' = .arr items' ∧ List.Forall₂ R items items'

variable {R : Json → Json → Prop}

theorem atField_update (h : ∀ st j, R j (f st j).2) (j : Json) (st : σ) :
    AtField key R j (j.update key f st).2 := by
  cases j with
  | obj fields =>
    refine .inr ⟨fields, _, rfl, rfl, ?_⟩
    induction fields with
    | nil => exact .nil
    | cons field fields ih =>
      obtain ⟨k, v⟩ := field
      rw [updateField]
      cases hk : key == k with
      | true =>
        have hkey : k = key := (eq_of_beq hk).symm
        exact .cons ⟨rfl, .inr ⟨hkey, h st v⟩⟩ (List.forall₂_same.2 fun _ _ => ⟨rfl, .inl rfl⟩)
      | false => exact .cons ⟨rfl, .inl rfl⟩ ih
  | _ => exact .inl rfl

theorem atItems_updateItems (h : ∀ st j, R j (f st j).2) (st : σ) (items : List Json) :
    List.Forall₂ R items (updateItems f st items).2 := by
  induction items generalizing st with
  | nil => exact .nil
  | cons j items ih => exact .cons (h st j) (ih _)

/-- `j'` is `j` with its field named `key` changed as `R` says; without such a field it is `j`. -/
def OnField (key : Text) (R : Json → Json → Prop) (j j' : Json) : Prop :=
  (j.get key = none ∧ j' = j) ∨ ∃ before v v' after, j = .obj (before ++ (key, v) :: after) ∧
    before.lookup key = none ∧ j' = .obj (before ++ (key, v') :: after) ∧ R v v'

/-- `j'` is the array `j` with each item changed as `R` says; something else stays. -/
def OnItems (R : Json → Json → Prop) (j j' : Json) : Prop :=
  (j.asArray = none ∧ j' = j) ∨
    ∃ items items', j = .arr items ∧ j' = .arr items' ∧ List.Forall₂ R items items'

theorem updateField_split (h : fields.lookup key = some v) :
    ∃ before after, fields = before ++ (key, v) :: after ∧
      before.lookup key = none ∧
        ∀ st : σ, (updateField key f st fields).2 = before ++ (key, (f st v).2) :: after := by
  induction fields with
  | nil => cases h
  | cons field fields ih =>
    obtain ⟨k, w⟩ := field
    rw [lookup_cons] at h
    cases hk : key == k with
    | true =>
      rw [hk] at h
      cases h
      obtain rfl : key = k := eq_of_beq hk
      refine ⟨[], fields, rfl, rfl, fun st => ?_⟩
      rw [updateField, if_pos hk]
      rfl
    | false =>
      rw [hk] at h
      obtain ⟨before, after, rfl, hbefore, hupdate⟩ := ih h
      refine ⟨(k, w) :: before, after, rfl, ?_, fun st => ?_⟩
      · rw [lookup_cons, hk]
        exact hbefore
      · rw [updateField, if_neg (by rw [hk]; exact Bool.false_ne_true)]
        exact congrArg ((k, w) :: ·) (hupdate st)

theorem onField_update_of_some (st : σ) (hget : j.get key = some v) (h : R v (f st v).2) :
    OnField key R j (j.update key f st).2 := by
  cases j with
  | obj fields =>
    obtain ⟨before, after, rfl, hbefore, hupdate⟩ := updateField_split hget
    refine .inr ⟨before, v, (f st v).2, after, rfl, hbefore, ?_, h⟩
    rw [update, hupdate]
  | _ => cases hget

/-- **A change of a field changes that field only.** -/
theorem onField_update {st : σ} (h : ∀ j, R j (f st j).2) (j : Json) :
    OnField key R j (j.update key f st).2 := by
  cases hget : j.get key with
  | none => exact .inl ⟨hget, by rw [update_of_none st hget]⟩
  | some v => exact onField_update_of_some st hget (h v)

namespace OnField

variable {j j' v : Json}

theorem get_ne (h : OnField key R j j') (hne : key' ≠ key) : j'.get key' = j.get key' := by
  rcases h with ⟨-, rfl⟩ | ⟨before, v, v', after, rfl, -, rfl, -⟩
  · rfl
  · have hbeq : (key' == key) = false := beq_false_of_ne hne
    change List.lookup key' _ = List.lookup key' _
    rw [lookup_append, lookup_append, lookup_cons, lookup_cons, hbeq]

theorem get_of_none (h : OnField key R j j') (hget : j.get key = none) : j' = j := by
  rcases h with ⟨-, rfl⟩ | ⟨before, v, v', after, rfl, hbefore, -, -⟩
  · rfl
  · change List.lookup key _ = none at hget
    rw [lookup_append, hbefore, lookup_cons_self] at hget
    cases hget

theorem eq_of_fixed (h : OnField key R j j')
    (hfixed : ∀ v v', j.get key = some v → R v v' → v' = v) : j' = j := by
  rcases h with ⟨-, rfl⟩ | ⟨before, v, v', after, rfl, hbefore, rfl, hR⟩
  · rfl
  have hget : List.lookup key (before ++ (key, v) :: after) = some v := by
    rw [lookup_append, hbefore, lookup_cons_self]
    rfl
  rw [hfixed v v' hget hR]

theorem get_of_some (h : OnField key R j j') (hget : j.get key = some v) :
    ∃ v', j'.get key = some v' ∧ R v v' := by
  rcases h with ⟨hnone, -⟩ | ⟨before, w, w', after, rfl, hbefore, rfl, hR⟩
  · rw [hnone] at hget
    cases hget
  change List.lookup key _ = some v at hget
  rw [lookup_append, hbefore, lookup_cons_self] at hget
  cases hget
  refine ⟨w', ?_, hR⟩
  change List.lookup key _ = some w'
  rw [lookup_append, hbefore, lookup_cons_self]
  rfl

end OnField

end Frame

end Json

end Nanoguard

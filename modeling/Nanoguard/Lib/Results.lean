import Mathlib.Data.List.Basic

/-!
# Loops that may fail

A loop in `Except` stops at the first error. The lemmas say what is known about its result when
there is none.
-/

namespace Nanoguard

open List

variable {α β ε : Type}

theorem bind_eq_ok {x : Except ε α} {f : α → Except ε β} {b : β} :
    x >>= f = .ok b ↔ ∃ a, x = .ok a ∧ f a = .ok b := by
  cases x with
  | error e => simp [Bind.bind, Except.bind]
  | ok a => simp [Bind.bind, Except.bind]

theorem guard_eq_ok {c : Prop} [Decidable c] {e : ε} {x : Except ε α} {a : α} :
    (if c then .error e else x) = .ok a ↔ ¬ c ∧ x = .ok a := by
  split
  next h => exact ⟨nofun, fun hnot => absurd h hnot.1⟩
  next h => exact (and_iff_right h).symm

theorem bind_isOk_iff {x : Except ε α} {f : α → Except ε β} :
    (∃ b, x >>= f = .ok b) ↔ ∃ a, x = .ok a ∧ ∃ b, f a = .ok b := by
  constructor
  · rintro ⟨b, h⟩
    obtain ⟨a, hx, hf⟩ := bind_eq_ok.1 h
    exact ⟨a, hx, b, hf⟩
  · rintro ⟨a, hx, b, hf⟩
    exact ⟨b, bind_eq_ok.2 ⟨a, hx, hf⟩⟩

theorem bind_isOk_of_total {x : Except ε α} {f : α → Except ε β} (h : ∀ a, ∃ b, f a = .ok b) :
    (∃ b, x >>= f = .ok b) ↔ ∃ a, x = .ok a :=
  bind_isOk_iff.trans (exists_congr fun a => and_iff_left (h a))

theorem map_eq_ok {x : Except ε α} {f : α → β} {b : β} :
    f <$> x = .ok b ↔ ∃ a, x = .ok a ∧ f a = b := by
  cases x with
  | error e => simp
  | ok a => simp

theorem map_isOk_iff {x : Except ε α} {f : α → β} : (∃ b, f <$> x = .ok b) ↔ ∃ a, x = .ok a := by
  simp only [map_eq_ok]
  exact ⟨fun ⟨_, a, ha, _⟩ => ⟨a, ha⟩, fun ⟨a, ha⟩ => ⟨f a, a, ha, rfl⟩⟩

theorem mapError_eq_ok {ε' : Type} {x : Except ε α} {f : ε → ε'} {a : α} :
    x.mapError f = .ok a ↔ x = .ok a := by
  cases x with
  | error e => simp [Except.mapError]
  | ok b => simp [Except.mapError]

theorem mapError_isOk_iff {ε' : Type} {x : Except ε α} {f : ε → ε'} :
    (∃ a, x.mapError f = .ok a) ↔ ∃ a, x = .ok a :=
  exists_congr fun _ => mapError_eq_ok

theorem forM_eq_ok {f : α → Except ε Unit} {as : List α} :
    as.forM f = .ok () ↔ ∀ a ∈ as, f a = .ok () := by
  induction as with
  | nil => simp [pure, Except.pure]
  | cons a as ih =>
    change (f a >>= fun _ => as.forM f) = .ok () ↔ _
    rw [bind_eq_ok, forall_mem_cons, ← ih]
    exact ⟨fun ⟨_, ha, has⟩ => ⟨ha, has⟩, fun ⟨ha, has⟩ => ⟨_, ha, has⟩⟩

section Map

variable {f : α → Except ε β} {as : List α}

theorem mapM_ok_of_forall (h : ∀ a ∈ as, ∃ b, f a = .ok b) : ∃ bs, as.mapM f = .ok bs := by
  induction as with
  | nil => exact ⟨[], rfl⟩
  | cons a as ih =>
    obtain ⟨b, hb⟩ := h a mem_cons_self
    obtain ⟨bs, hbs⟩ := ih (forall_mem_cons.1 h).2
    refine ⟨b :: bs, ?_⟩
    rw [mapM_cons, hb, hbs]
    rfl

theorem mapM_isOk_iff : (∃ bs, as.mapM f = .ok bs) ↔ ∀ a ∈ as, ∃ b, f a = .ok b := by
  refine ⟨?_, mapM_ok_of_forall⟩
  rintro ⟨bs, h⟩
  induction as generalizing bs with
  | nil => exact nofun
  | cons a as ih =>
    rw [mapM_cons] at h
    obtain ⟨b, hb, h⟩ := bind_eq_ok.1 h
    obtain ⟨bs', hbs', -⟩ := bind_eq_ok.1 h
    exact forall_mem_cons.2 ⟨⟨b, hb⟩, ih bs' hbs'⟩

theorem mapM_ok_eq {bs : List β} (h : as.mapM f = .ok bs) :
    bs = as.filterMap fun a => (f a).toOption := by
  induction as generalizing bs with
  | nil =>
    cases h
    rfl
  | cons a as ih =>
    rw [mapM_cons] at h
    obtain ⟨b', hb', h⟩ := bind_eq_ok.1 h
    obtain ⟨bs', hbs', h⟩ := bind_eq_ok.1 h
    cases h
    rw [filterMap_cons, hb', ih hbs']
    rfl

end Map

section Fold

variable {f : β → α → Except ε β} {as : List α}

theorem foldlM_ok_inv {P : β → Prop} (hstep : ∀ b a b', P b → f b a = .ok b' → P b') {b b' : β}
    (hb : P b) (h : as.foldlM f b = .ok b') : P b' := by
  induction as generalizing b with
  | nil =>
    cases h
    exact hb
  | cons a as ih =>
    obtain ⟨mid, hmid, h⟩ := bind_eq_ok.1 h
    exact ih (hstep b a mid hb hmid) h

theorem foldlM_ok_of_mem {P : β → Prop} (hstep : ∀ b a b', P b → f b a = .ok b' → P b') {a : α}
    (ha : a ∈ as) (hset : ∀ b b', f b a = .ok b' → P b') {b b' : β}
    (h : as.foldlM f b = .ok b') : P b' := by
  obtain ⟨before, after, rfl⟩ := append_of_mem ha
  rw [foldlM_append] at h
  obtain ⟨mid, -, h⟩ := bind_eq_ok.1 h
  obtain ⟨mid', hmid', h⟩ := bind_eq_ok.1 h
  exact foldlM_ok_inv hstep (hset mid mid' hmid') h

theorem foldlM_isOk_iff {Q : α → Prop} (hstep : ∀ b a, (∃ b', f b a = .ok b') ↔ Q a) {b : β} :
    (∃ b', as.foldlM f b = .ok b') ↔ ∀ a ∈ as, Q a := by
  induction as generalizing b with
  | nil => exact ⟨fun _ => nofun, fun _ => ⟨b, rfl⟩⟩
  | cons a as ih =>
    rw [foldlM_cons, bind_isOk_iff, forall_mem_cons, ← hstep b a]
    constructor
    · rintro ⟨mid, hmid, h⟩
      exact ⟨⟨mid, hmid⟩, ih.1 h⟩
    · rintro ⟨⟨mid, hmid⟩, h⟩
      exact ⟨mid, hmid, ih.2 h⟩

theorem foldlM_ok_append {γ : Type} {f : List γ → α → Except ε (List γ)} {g : α → List γ}
    (hstep : ∀ b a b', f b a = .ok b' → b' = b ++ g a) {b b' : List γ}
    (h : as.foldlM f b = .ok b') : b' = b ++ as.flatMap g := by
  induction as generalizing b with
  | nil =>
    cases h
    simp
  | cons a as ih =>
    obtain ⟨mid, hmid, h⟩ := bind_eq_ok.1 h
    rw [ih h, hstep b a mid hmid]
    simp

end Fold

end Nanoguard

import Mathlib.Logic.Function.Basic
import Nanoguard.Lib.CrashFs

/-!
# What the processes see

As long as nothing stops, a file system is a map from names to contents, and each call changes the map
in the way one expects of it (`Call.see`). This needs that no file has two names (`Unlinked`), which
the calls keep.
-/

namespace Nanoguard.CrashFs

open List

variable {P D β ε : Type} [DecidableEq P]

/-- No file has two names, and the next number is new. -/
structure Unlinked (s : Fs P D β) : Prop where
  numbered : ∀ p i, s.entry p = some i → i < s.next
  own : ∀ p q i, s.entry p = some i → s.entry q = some i → p = q

def Call.see (c : Call P D β) (view : P → Option (List β)) : P → Option (List β) :=
  match c with
  | .create p => Function.update view p (some [])
  | .append p chunk => Function.update view p ((view p).map (· ++ chunk))
  | .rename p q => fun x => if x = q then view p else if x = p then none else view x
  | .remove p => Function.update view p none
  | .look | .mkdir _ | .fsync _ | .fsyncDir _ => view

def seeAll (steps : List (Step P D β ε)) (view : P → Option (List β)) : P → Option (List β) :=
  steps.foldl (fun view step => step.call.see view) view

section Apply

variable {s s' : Fs P D β}

theorem Unlinked.change (h : Unlinked s) {d : D} {entries : List (P × Option Nat)}
    (hnew : ∀ p i, entries.lookup p = some (some i) →
      i < s.next ∧ ∀ q, s.entry q = some i → entries.lookup q ≠ none)
    (hone : ∀ p q i, entries.lookup p = some (some i) → entries.lookup q = some (some i) → p = q) :
    Unlinked (s.change d entries) := by
  unfold Fs.change
  constructor
  · intro p i hi
    cases hp : entries.lookup p with
    | none =>
      simp only [hp] at hi
      exact h.numbered p i hi
    | some e =>
      simp only [hp] at hi
      exact (hnew p i (hi ▸ hp)).1
  · intro p q i hi hj
    cases hp : entries.lookup p with
    | none =>
      simp only [hp] at hi
      cases hq : entries.lookup q with
      | none =>
        simp only [hq] at hj
        exact h.own p q i hi hj
      | some e =>
        simp only [hq] at hj
        exact absurd hp ((hnew q i (hj ▸ hq)).2 p hi)
    | some e =>
      simp only [hp] at hi
      cases hq : entries.lookup q with
      | none =>
        simp only [hq] at hj
        exact absurd hq ((hnew p i (hi ▸ hp)).2 q hj)
      | some e' =>
        simp only [hq] at hj
        exact hone p q i (hi ▸ hp) (hj ▸ hq)

theorem lookup_single (p q : P) (e : Option Nat) :
    [(p, e)].lookup q = if q = p then some e else none := by
  by_cases h : q = p
  · subst h
    simp
  · rw [lookup_single_ne h, if_neg h]

theorem lookup_pair (p q x : P) (e e' : Option Nat) :
    [(q, e), (p, e')].lookup x = if x = q then some e else if x = p then some e' else none := by
  by_cases hq : x = q
  · subst hq
    simp
  · rw [lookup_cons, beq_false_of_ne hq, if_neg hq]
    exact lookup_single p x e'

theorem read_setData (h : Unlinked s) {p : P} {i : Nat} (hi : s.entry p = some i)
    (content : List β) : (s.setData i content).read = Function.update s.read p (some content) := by
  funext q
  unfold Fs.read Fs.setData
  by_cases hq : q = p
  · subst hq
    rw [hi]
    simp
  rw [Function.update_of_ne hq]
  cases hj : s.entry q with
  | none => rfl
  | some j =>
    have hne : j ≠ i := fun hji => hq (h.own q p i (hji ▸ hj) hi)
    simp [hne]

theorem Unlinked.newFile (h : Unlinked s) (d : D) (p : P) :
    let made := { (s.setData s.next []).change d [(p, some s.next)] with next := s.next + 1 }
    Unlinked made ∧ made.read = Function.update s.read p (some []) := by
  have hfresh : ∀ q, s.entry q ≠ some s.next := fun q hq => Nat.lt_irrefl _ (h.numbered q _ hq)
  refine ⟨⟨?_, ?_⟩, ?_⟩
  · intro q i hi
    simp only [Fs.change, lookup_single] at hi
    split at hi
    · cases hi
      exact Nat.lt_succ_self _
    · exact Nat.lt_succ_of_lt (h.numbered q i hi)
  · intro q r i hi hj
    simp only [Fs.change, lookup_single] at hi hj
    split at hi <;> split at hj
    next hq hr => rw [hq, hr]
    · cases hi
      exact absurd hj (hfresh r)
    · cases hj
      exact absurd hi (hfresh q)
    · exact h.own q r i hi hj
  · funext q
    by_cases hq : q = p
    · subst hq
      simp [Fs.read, Fs.change, Fs.setData]
    rw [Function.update_of_ne hq]
    simp only [Fs.read, Fs.change, Fs.setData, lookup_single, if_neg hq]
    cases hj : s.entry q with
    | none => rfl
    | some j =>
      have hne : j ≠ s.next := fun heq => hfresh q (heq ▸ hj)
      simp [hne]

theorem Unlinked.renamed (h : Unlinked s) {p : P} {i : Nat} (hi : s.entry p = some i) (d : D)
    (q : P) :
    Unlinked (s.change d [(q, some i), (p, none)]) ∧
      (s.change d [(q, some i), (p, none)]).read =
        fun x => if x = q then s.read p else if x = p then none else s.read x := by
  have hsome : ∀ x j, [(q, some i), (p, none)].lookup x = some (some j) → x = q ∧ j = i := by
    intro x j hx
    rw [lookup_pair] at hx
    split at hx
    next hxq => exact ⟨hxq, by cases hx; rfl⟩
    · split at hx <;> cases hx
  constructor
  · apply h.change
    · intro x j hx
      obtain ⟨-, rfl⟩ := hsome x j hx
      refine ⟨h.numbered p _ hi, fun y hy hnone => ?_⟩
      rw [h.own y p _ hy hi, lookup_pair] at hnone
      split at hnone
      · cases hnone
      · rw [if_pos rfl] at hnone
        cases hnone
    · intro x y j hx hy
      rw [(hsome x j hx).1, (hsome y j hy).1]
  · funext x
    simp only [Fs.read, Fs.change, lookup_pair]
    split
    · rw [hi]
      rfl
    split <;> rfl

theorem Unlinked.removed (h : Unlinked s) (d : D) (p : P) :
    Unlinked (s.change d [(p, none)]) ∧
      (s.change d [(p, none)]).read = Function.update s.read p none := by
  have hnone : ∀ x j, [(p, (none : Option Nat))].lookup x ≠ some (some j) := by
    intro x j hx
    rw [lookup_single] at hx
    split at hx <;> cases hx
  refine ⟨h.change (fun x j hx => absurd hx (hnone x j)) fun x _ j hx => absurd hx (hnone x j), ?_⟩
  funext x
  by_cases hx : x = p
  · subst hx
    simp [Fs.read, Fs.change]
  · rw [Function.update_of_ne hx]
    exact read_change_of_none (lookup_single_ne hx none)

variable [DecidableEq D] {parent : P → D}

theorem Unlinked.apply {c : Call P D β} (h : Unlinked s) (hcall : c.apply parent s = some s') :
    Unlinked s' ∧ s'.read = c.see s.read := by
  cases c with
  | look | fsyncDir d =>
    cases hcall
    exact ⟨⟨h.numbered, h.own⟩, rfl⟩
  | mkdir d =>
    cases hcall
    split
    · exact ⟨h, rfl⟩
    · exact ⟨⟨h.numbered, h.own⟩, rfl⟩
  | create p =>
    simp only [Call.apply] at hcall
    split at hcall
    · cases hcall
      split
      next i hi => exact ⟨⟨h.numbered, h.own⟩, read_setData h hi []⟩
      next => exact h.newFile (parent p) p
    · cases hcall
  | append p chunk =>
    obtain ⟨i, hi, rfl⟩ := Option.map_eq_some_iff.1 hcall
    refine ⟨⟨h.numbered, h.own⟩, ?_⟩
    have hread : s.read p = some (s.data i) := by
      unfold Fs.read
      rw [hi]
      rfl
    rw [read_setData h hi]
    unfold Call.see
    dsimp only
    rw [hread]
    rfl
  | fsync p =>
    obtain ⟨i, hi, rfl⟩ := Option.map_eq_some_iff.1 hcall
    exact ⟨⟨h.numbered, h.own⟩, rfl⟩
  | rename p q =>
    simp only [Call.apply] at hcall
    split at hcall
    · obtain ⟨i, hi, rfl⟩ := Option.map_eq_some_iff.1 hcall
      exact h.renamed hi (parent q) q
    · cases hcall
  | remove p =>
    cases hcall
    exact h.removed (parent p) p

theorem Unlinked.execAll {steps : List (Step P D β ε)} (h : Unlinked s)
    (hsteps : execAll parent steps s = some s') :
    Unlinked s' ∧ s'.read = seeAll steps s.read := by
  induction steps generalizing s with
  | nil =>
    cases hsteps
    exact ⟨h, rfl⟩
  | cons step steps ih =>
    obtain ⟨mid, hcall, hrest⟩ := Option.bind_eq_some_iff.1 hsteps
    obtain ⟨hmid, hread⟩ := h.apply hcall
    obtain ⟨hunlinked, hview⟩ := ih hmid hrest
    exact ⟨hunlinked, by rw [hview, hread]; rfl⟩

end Apply

section Steps

variable {view : P → Option (List β)}

theorem seeAll_append (first second : List (Step P D β ε)) :
    seeAll (first ++ second) view = seeAll second (seeAll first view) := foldl_append

theorem seeAll_cons (step : Step P D β ε) (steps : List (Step P D β ε)) :
    seeAll (step :: steps) view = seeAll steps (step.call.see view) := rfl

theorem seeAll_appends (p : P) (chunks : List (List β)) (onError : Option ε) {start : List β}
    (hstart : view p = some start) :
    seeAll (D := D) (chunks.map fun chunk => ⟨.append p chunk, onError⟩) view =
      Function.update view p (some (start ++ chunks.flatten)) := by
  induction chunks generalizing view start with
  | nil =>
    rw [flatten_nil, append_nil, ← hstart, Function.update_eq_self]
    rfl
  | cons chunk chunks ih =>
    rw [map_cons, seeAll_cons]
    unfold Call.see
    dsimp only
    rw [hstart, Option.map_some, ih (Function.update_self ..), Function.update_idem,
      flatten_cons, append_assoc]

theorem seeAll_writeSteps (p : P) (chunks : List (List β)) (onError : Option ε) :
    seeAll (D := D) (writeSteps p chunks onError) view =
      Function.update view p (some chunks.flatten) := by
  unfold writeSteps
  rw [seeAll_cons]
  unfold Call.see
  dsimp only
  rw [seeAll_appends p chunks onError (Function.update_self ..), Function.update_idem, nil_append]

theorem seeAll_syncedSteps (p : P) (chunks : List (List β)) (onWrite onOpen onSync : ε) :
    seeAll (D := D) (syncedSteps p chunks onWrite onOpen onSync) view =
      Function.update view p (some chunks.flatten) := by
  unfold syncedSteps
  rw [seeAll_append, seeAll_writeSteps]
  rfl

theorem see_rename_update {tmp : P} (htmp : view tmp = none) (q : P) (content : List β) :
    (Call.rename tmp q : Call P D β).see (Function.update view tmp (some content)) =
      Function.update view q (some content) := by
  funext x
  unfold Call.see
  dsimp only
  by_cases hxq : x = q
  · rw [if_pos hxq, Function.update_self, hxq, Function.update_self]
  rw [if_neg hxq, Function.update_of_ne hxq]
  by_cases hx : x = tmp
  · rw [if_pos hx, hx, htmp]
  · rw [if_neg hx, Function.update_of_ne hx]

theorem seeAll_removes (ps : List P) (onError : Option ε) (x : P) :
    seeAll (D := D) (ps.map fun p => ⟨.remove p, onError⟩) view x =
      if x ∈ ps then none else view x := by
  induction ps generalizing view with
  | nil => simp [seeAll]
  | cons p ps ih =>
    rw [map_cons, seeAll_cons, ih]
    unfold Call.see
    dsimp only
    by_cases hx : x = p
    · subst hx
      simp
    · simp [hx]

end Steps

end Nanoguard.CrashFs

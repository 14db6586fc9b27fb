import Mathlib.Algebra.Order.BigOperators.Group.Finset
import Mathlib.Algebra.Order.Ring.Nat
import Mathlib.Data.List.Basic
import Mathlib.Tactic.Common

/-!
# Interleaved threads over a shared state

A system is a shared state and a list of threads, each at its own point. An action starts a thread
or lets one thread take its next atomic step; the input of a step is what it reads from outside, such
as a clock. `exec` runs a list of actions, so that a property of every list of actions is a property
of every interleaving. `collect` lists what the threads have come to; `totalOver` and `total` add up a
weight over threads.
-/

namespace Nanoguard.Threads

open List

variable {i j : Nat} {I : Finset Nat}

variable {σ τ κ ι : Type}

structure Sys (σ τ : Type) where
  shared : σ
  threads : List τ

inductive Act (κ ι : Type) where
  | spawn (call : κ)
  | run (i : Nat) (inp : ι)

/-- A program: where a call starts, and what a thread does in one atomic step. -/
structure Program (σ τ κ ι : Type) where
  start : κ → τ
  step : ι → σ → τ → σ × τ

variable (P : Program σ τ κ ι)

/-- One action. Running a thread that does not exist does nothing. -/
def act (s : Sys σ τ) : Act κ ι → Sys σ τ
  | .spawn call => { s with threads := s.threads ++ [P.start call] }
  | .run i inp =>
    match s.threads[i]? with
    | none => s
    | some t =>
      let q := P.step inp s.shared t
      { shared := q.1, threads := s.threads.set i q.2 }

theorem act_run_of_some {P : Program σ τ κ ι} {s : Sys σ τ} {t : τ} (h : s.threads[i]? = some t)
    (inp : ι) :
    act P s (.run i inp) =
      { shared := (P.step inp s.shared t).1, threads := s.threads.set i (P.step inp s.shared t).2 } := by
  simp only [act, h]

theorem act_run_of_none {P : Program σ τ κ ι} {s : Sys σ τ} (h : s.threads[i]? = none) (inp : ι) :
    act P s (.run i inp) = s := by
  simp only [act, h]

def exec (s : Sys σ τ) (acts : List (Act κ ι)) : Sys σ τ := acts.foldl (act P) s

theorem exec_append (s : Sys σ τ) (acts acts' : List (Act κ ι)) :
    exec P s (acts ++ acts') = exec P (exec P s acts) acts' := foldl_append ..

/-- Every action of the run meets `C` in the state it is taken in. -/
def Along (C : Sys σ τ → Act κ ι → Prop) : Sys σ τ → List (Act κ ι) → Prop
  | _, [] => True
  | s, a :: acts => C s a ∧ Along C (act P s a) acts

instance Along.decidable (C : Sys σ τ → Act κ ι → Prop) [∀ s a, Decidable (C s a)] :
    ∀ s acts, Decidable (Along P C s acts)
  | _, [] => .isTrue trivial
  | s, a :: acts =>
    have := Along.decidable C (act P s a) acts
    inferInstanceAs (Decidable (C s a ∧ Along P C (act P s a) acts))

theorem Along.append {P : Program σ τ κ ι} {C : Sys σ τ → Act κ ι → Prop} {s : Sys σ τ}
    {acts acts' : List (Act κ ι)} (h : Along P C s (acts ++ acts')) :
    Along P C s acts ∧ Along P C (exec P s acts) acts' := by
  induction acts generalizing s with
  | nil => exact ⟨trivial, h⟩
  | cons a acts ih =>
    obtain ⟨ha, hrest⟩ := h
    exact ⟨⟨ha, (ih hrest).1⟩, (ih hrest).2⟩

/-- **The invariant rule**: what every action that meets `C` preserves holds at the end of every run
whose actions all meet `C`. -/
theorem Along.exec_inv {P : Program σ τ κ ι} {C : Sys σ τ → Act κ ι → Prop}
    {Inv : Sys σ τ → Prop} (hact : ∀ s a, Inv s → C s a → Inv (act P s a)) {s : Sys σ τ}
    {acts : List (Act κ ι)} (h : Along P C s acts) (h₀ : Inv s) : Inv (exec P s acts) := by
  induction acts generalizing s with
  | nil => exact h₀
  | cons a acts ih => exact ih h.2 (hact s a h₀ h.1)

theorem Along.and {P : Program σ τ κ ι} {C D : Sys σ τ → Act κ ι → Prop} {s : Sys σ τ}
    {acts : List (Act κ ι)} (hC : Along P C s acts) (hD : Along P D s acts) :
    Along P (fun s a => C s a ∧ D s a) s acts := by
  induction acts generalizing s with
  | nil => trivial
  | cons a acts ih => exact ⟨⟨hC.1, hD.1⟩, ih hC.2 hD.2⟩

/-- The threads after an action: the old ones, with one of them a step further, and perhaps a new
one. -/
theorem threads_act {P : Program σ τ κ ι} {s : Sys σ τ} {a : Act κ ι} {t : τ}
    (h : (act P s a).threads[j]? = some t) :
    s.threads[j]? = some t ∨ (j = s.threads.length ∧ ∃ call, a = .spawn call ∧ t = P.start call) ∨
      ∃ inp t₀, a = .run j inp ∧ s.threads[j]? = some t₀ ∧ t = (P.step inp s.shared t₀).2 := by
  cases a with
  | spawn call =>
    simp only [act] at h
    by_cases hj : j < s.threads.length
    · rw [getElem?_append_left hj] at h
      exact .inl h
    rw [getElem?_append_right (by omega)] at h
    obtain ⟨hlt, rfl⟩ := List.getElem?_eq_some_iff.1 h
    simp only [length_cons, length_nil] at hlt
    exact .inr (.inl ⟨by omega, call, rfl, by simp⟩)
  | run i inp =>
    simp only [act] at h
    cases hi : s.threads[i]? with
    | none =>
      rw [hi] at h
      exact .inl h
    | some t₀ =>
      rw [hi] at h
      by_cases hij : i = j
      · subst hij
        rw [getElem?_set_self (List.getElem?_eq_some_iff.1 hi).1, Option.some.injEq] at h
        exact .inr (.inr ⟨inp, t₀, rfl, hi, h.symm⟩)
      · rw [getElem?_set_ne hij] at h
        exact .inl h

/-- **Rely and guarantee.** `S` speaks about the shared state and `T` about a thread in it. If a
step keeps `S`, establishes `T` for the thread that took it and keeps `T` for the others, then an
action keeps both. -/
theorem act_inv {P : Program σ τ κ ι} {S : σ → Prop} {T : Nat → σ → τ → Prop} {s : Sys σ τ}
    {a : Act κ ι}
    (hstart : ∀ call, a = .spawn call → T s.threads.length s.shared (P.start call))
    (hstep : ∀ i inp t, a = .run i inp → s.threads[i]? = some t →
      S (P.step inp s.shared t).1 ∧ T i (P.step inp s.shared t).1 (P.step inp s.shared t).2 ∧
        ∀ j u, s.threads[j]? = some u → T j s.shared u → T j (P.step inp s.shared t).1 u)
    (hS : S s.shared) (hT : ∀ j u, s.threads[j]? = some u → T j s.shared u) :
    S (act P s a).shared ∧ ∀ j u, (act P s a).threads[j]? = some u → T j (act P s a).shared u := by
  cases a with
  | spawn call =>
    refine ⟨hS, fun j u hu => ?_⟩
    rcases threads_act hu with hold | ⟨rfl, call', hcall, rfl⟩ | ⟨_, _, habs, _⟩
    · exact hT j u hold
    · exact hstart call' hcall
    · cases habs
  | run i inp =>
    cases hi : s.threads[i]? with
    | none =>
      rw [act_run_of_none hi]
      exact ⟨hS, hT⟩
    | some t =>
      obtain ⟨hS', hT', hkeep⟩ := hstep i inp t rfl hi
      have hshared : (act P s (.run i inp)).shared = (P.step inp s.shared t).1 := by
        rw [act_run_of_some hi]
      rw [hshared]
      refine ⟨hS', fun j u hu => ?_⟩
      rcases threads_act hu with hold | ⟨_, _, habs, _⟩ | ⟨inp', t', hact, ht', rfl⟩
      · exact hkeep j u hold (hT j u hold)
      · cases habs
      cases hact
      rw [hi, Option.some.injEq] at ht'
      subst ht'
      exact hT'

theorem getElem?_act_of_finished {P : Program σ τ κ ι} {s : Sys σ τ} {t : τ}
    (h : s.threads[i]? = some t) (hfin : ∀ inp sh, (P.step inp sh t).2 = t) (a : Act κ ι) :
    (act P s a).threads[i]? = some t := by
  have hi := (List.getElem?_eq_some_iff.1 h).1
  cases a with
  | spawn call =>
    simp only [act]
    rw [getElem?_append_left hi, h]
  | run j inp =>
    simp only [act]
    cases hj : s.threads[j]? with
    | none => exact h
    | some u =>
      by_cases hij : j = i
      · subst hij
        rw [h, Option.some.injEq] at hj
        subst hj
        simp only [getElem?_set_self hi, hfin]
      · simp only [getElem?_set_ne hij, h]

theorem getElem?_exec_of_finished {P : Program σ τ κ ι} {s : Sys σ τ} {t : τ}
    (h : s.threads[i]? = some t) (hfin : ∀ inp sh, (P.step inp sh t).2 = t) (acts : List (Act κ ι))
    :
    (exec P s acts).threads[i]? = some t := by
  induction acts generalizing s with
  | nil => exact h
  | cons a acts ih => exact ih (getElem?_act_of_finished h hfin a)

/-! ## The inputs of a thread -/

/-- The input of an action, if it is a step of the thread. -/
def inputOf (i : Nat) (s : Sys σ τ) : Act κ ι → List ι
  | .spawn _ => []
  | .run j inp => if j = i ∧ i < s.threads.length then [inp] else []

/-- The inputs of the steps that a thread takes in a run. -/
def received (i : Nat) : Sys σ τ → List (Act κ ι) → List ι
  | _, [] => []
  | s, a :: acts => inputOf i s a ++ received i (act P s a) acts

theorem received_concat {P : Program σ τ κ ι} {s : Sys σ τ} {acts : List (Act κ ι)} {a : Act κ ι} :
    received P i s (acts ++ [a]) = received P i s acts ++ inputOf i (exec P s acts) a := by
  induction acts generalizing s with
  | nil => simp [received, exec]
  | cons b acts ih =>
    simp only [cons_append, received, ih, append_assoc]
    rfl

@[simp] theorem length_run {P : Program σ τ κ ι} {s : Sys σ τ} (inp : ι) :
    (act P s (.run i inp)).threads.length = s.threads.length := by
  cases h : s.threads[i]? with
  | none => rw [act_run_of_none h]
  | some t => rw [act_run_of_some h, length_set]

theorem length_le_act {P : Program σ τ κ ι} (s : Sys σ τ) (a : Act κ ι) :
    s.threads.length ≤ (act P s a).threads.length := by
  cases a with
  | spawn call => simp [act]
  | run i inp => rw [length_run]

theorem received_of_length_le {P : Program σ τ κ ι} {s : Sys σ τ} {acts : List (Act κ ι)}
    (h : (exec P s acts).threads.length ≤ i) : received P i s acts = [] := by
  induction acts using List.reverseRecOn with
  | nil => rfl
  | append_singleton acts a ih =>
    rw [exec_append] at h
    have hlen : (exec P s acts).threads.length ≤ i := (length_le_act _ a).trans h
    rw [received_concat, ih hlen]
    cases a with
    | spawn call => rfl
    | run j inp => exact if_neg fun hj => absurd hj.2 (Nat.not_lt.2 hlen)

section Inputs

variable {P : Program σ τ κ ι} {S : σ → Prop} {T : σ → List ι → τ → Prop} {s : Sys σ τ}

theorem act_inputs_inv {f : Nat → List ι}
    (hstart : ∀ sh call, S sh → T sh [] (P.start call))
    (hstep : ∀ sh inp inps t, S sh → T sh inps t →
      S (P.step inp sh t).1 ∧ T (P.step inp sh t).1 (inps ++ [inp]) (P.step inp sh t).2 ∧
        ∀ inps' u, T sh inps' u → T (P.step inp sh t).1 inps' u)
    (hS : S s.shared) (hT : ∀ i t, s.threads[i]? = some t → T s.shared (f i) t)
    (hf : f s.threads.length = []) (a : Act κ ι) :
    S (act P s a).shared ∧
      ∀ i t, (act P s a).threads[i]? = some t → T (act P s a).shared (f i ++ inputOf i s a) t := by
  cases a with
  | spawn call =>
    refine ⟨hS, fun j u hu => ?_⟩
    rw [inputOf, append_nil]
    rcases threads_act hu with hold | ⟨rfl, call', -, rfl⟩ | ⟨_, _, habs, _⟩
    · exact hT j u hold
    · rw [hf]
      exact hstart _ call' hS
    · cases habs
  | run i inp =>
    cases ht : s.threads[i]? with
    | none =>
      rw [act_run_of_none ht]
      refine ⟨hS, fun j u hu => ?_⟩
      have hne : ¬ (i = j ∧ j < s.threads.length) := by
        rintro ⟨rfl, -⟩
        rw [ht] at hu
        cases hu
      rw [inputOf, if_neg hne, append_nil]
      exact hT j u hu
    | some t =>
      obtain ⟨hS', hT', hkeep⟩ := hstep s.shared inp (f i) t hS (hT i t ht)
      have hi := (List.getElem?_eq_some_iff.1 ht).1
      rw [act_run_of_some ht]
      refine ⟨hS', fun j u hu => ?_⟩
      rw [inputOf]
      by_cases hij : i = j
      · subst hij
        rw [getElem?_set_self hi, Option.some.injEq] at hu
        subst hu
        rw [if_pos ⟨rfl, hi⟩]
        exact hT'
      · rw [getElem?_set_ne hij] at hu
        rw [if_neg fun h => hij h.1, append_nil]
        exact hkeep (f j) u (hT j u hu)

/-- **Rely and guarantee with inputs.** `T` relates a thread to the inputs it has received. If a
step keeps `S`, carries `T` over for the thread that took it and keeps `T` for the others, then both
hold at the end of every run that starts without threads. -/
theorem exec_inputs_inv
    (hstart : ∀ sh call, S sh → T sh [] (P.start call))
    (hstep : ∀ sh inp inps t, S sh → T sh inps t →
      S (P.step inp sh t).1 ∧ T (P.step inp sh t).1 (inps ++ [inp]) (P.step inp sh t).2 ∧
        ∀ inps' u, T sh inps' u → T (P.step inp sh t).1 inps' u)
    (hS : S s.shared) (hnil : s.threads = []) (acts : List (Act κ ι)) :
    S (exec P s acts).shared ∧
      ∀ i t, (exec P s acts).threads[i]? = some t →
        T (exec P s acts).shared (received P i s acts) t := by
  induction acts using List.reverseRecOn with
  | nil =>
    refine ⟨hS, fun i t ht => ?_⟩
    simp [exec, hnil] at ht
  | append_singleton acts a ih =>
    rw [exec_append]
    simp only [received_concat]
    exact act_inputs_inv hstart hstep ih.1 ih.2 (received_of_length_le le_rfl) a

end Inputs

section Collect

variable {γ : Type}

/-- What the threads have to show, in the order of the threads. -/
def collect (f : τ → Option γ) (s : Sys σ τ) : List γ := s.threads.filterMap f

variable {P : Program σ τ κ ι} {f : τ → Option γ} {s : Sys σ τ} {i : Nat} {t : τ}

theorem collect_spawn {call : κ} (h : f (P.start call) = none) :
    collect f (act P s (.spawn call)) = collect f s := by
  simp [collect, act, h]

theorem threads_split (h : s.threads[i]? = some t) (u : τ) :
    s.threads = s.threads.take i ++ t :: s.threads.drop (i + 1) ∧
      s.threads.set i u = s.threads.take i ++ u :: s.threads.drop (i + 1) := by
  obtain ⟨hi, rfl⟩ := List.getElem?_eq_some_iff.1 h
  refine ⟨?_, ?_⟩
  · rw [cons_getElem_drop_succ, take_append_drop]
  · rw [set_eq_take_append_cons_drop, if_pos hi]

theorem collect_run_of_eq (h : s.threads[i]? = some t) {inp : ι}
    (hf : f (P.step inp s.shared t).2 = f t) :
    collect f (act P s (.run i inp)) = collect f s := by
  obtain ⟨hold, hnew⟩ := threads_split h (P.step inp s.shared t).2
  unfold collect
  rw [act_run_of_some h, hnew]
  nth_rewrite 3 [hold]
  simp only [filterMap_append, filterMap_cons, hf]

theorem collect_run_of_new (h : s.threads[i]? = some t) {inp : ι} {b : γ} (hold : f t = none)
    (hnew : f (P.step inp s.shared t).2 = some b) :
    (collect f (act P s (.run i inp))).Perm (b :: collect f s) := by
  obtain ⟨hsplit, hset⟩ := threads_split h (P.step inp s.shared t).2
  unfold collect
  rw [act_run_of_some h, hset]
  nth_rewrite 3 [hsplit]
  simp only [filterMap_append, filterMap_cons, hold, hnew]
  exact perm_middle

end Collect

section Weights

variable (f : τ → Nat)

def weightAt (s : Sys σ τ) (j : Nat) : Nat := (s.threads[j]?.map f).getD 0

def totalOver (I : Finset Nat) (s : Sys σ τ) : Nat := ∑ j ∈ I, weightAt f s j

def total (s : Sys σ τ) : Nat := totalOver f (Finset.range s.threads.length) s

variable {f} {P : Program σ τ κ ι} {s : Sys σ τ} {i : Nat} {t : τ}

theorem weightAt_of_some (h : s.threads[i]? = some t) : weightAt f s i = f t := by
  unfold weightAt
  rw [h]
  rfl

theorem weightAt_run_self (h : s.threads[i]? = some t) (inp : ι) :
    weightAt f (act P s (.run i inp)) i = f (P.step inp s.shared t).2 := by
  have hi := (List.getElem?_eq_some_iff.1 h).1
  rw [weightAt, act_run_of_some h, getElem?_set_self hi]
  rfl

theorem weightAt_run_ne (hj : j ≠ i) (inp : ι) :
    weightAt f (act P s (.run i inp)) j = weightAt f s j := by
  unfold weightAt
  cases h : s.threads[i]? with
  | none => rw [act_run_of_none h]
  | some t => rw [act_run_of_some h, getElem?_set_ne hj.symm]

theorem weightAt_spawn (hj : j < s.threads.length) (call : κ) :
    weightAt f (act P s (.spawn call)) j = weightAt f s j := by
  simp only [weightAt, act, getElem?_append_left hj]

theorem total_mono {g : τ → Nat} (hle : ∀ (j : Nat) (u : τ), s.threads[j]? = some u → f u ≤ g u) :
    total f s ≤ total g s := by
  unfold total totalOver
  refine Finset.sum_le_sum fun j _ => ?_
  unfold weightAt
  cases hj : s.threads[j]? with
  | none => exact Nat.le_refl _
  | some u => exact hle j u hj

theorem total_add (f g : τ → Nat) (s : Sys σ τ) :
    total (fun u => f u + g u) s = total f s + total g s := by
  unfold total totalOver
  rw [← Finset.sum_add_distrib]
  refine Finset.sum_congr rfl fun j _ => ?_
  unfold weightAt
  cases s.threads[j]? <;> rfl

theorem totalOver_run (h : s.threads[i]? = some t) (hi : i ∈ I) (inp : ι) :
    totalOver f I (act P s (.run i inp)) + f t =
      totalOver f I s + f (P.step inp s.shared t).2 := by
  have hrest : ∑ j ∈ I.erase i, weightAt f (act P s (.run i inp)) j =
      ∑ j ∈ I.erase i, weightAt f s j :=
    Finset.sum_congr rfl fun j hj => weightAt_run_ne (Finset.ne_of_mem_erase hj) inp
  unfold totalOver
  rw [← Finset.add_sum_erase I _ hi, ← Finset.add_sum_erase I (weightAt f s) hi, weightAt_run_self h, weightAt_of_some h]
  omega

theorem totalOver_run_of_notMem (hi : i ∉ I) (inp : ι) :
    totalOver f I (act P s (.run i inp)) = totalOver f I s :=
  Finset.sum_congr rfl fun _ hj => weightAt_run_ne (ne_of_mem_of_not_mem hj hi) inp

theorem total_run (h : s.threads[i]? = some t) (inp : ι) :
    total f (act P s (.run i inp)) + f t = total f s + f (P.step inp s.shared t).2 := by
  unfold total
  rw [length_run]
  exact totalOver_run h (Finset.mem_range.2 (List.getElem?_eq_some_iff.1 h).1) inp

theorem totalOver_spawn (hI : ∀ j ∈ I, j < s.threads.length) (call : κ) :
    totalOver f I (act P s (.spawn call)) = totalOver f I s :=
  Finset.sum_congr rfl fun j hj => weightAt_spawn (hI j hj) call

theorem total_spawn (call : κ) :
    total f (act P s (.spawn call)) = total f s + f (P.start call) := by
  have hlen : (act P s (.spawn call)).threads.length = s.threads.length + 1 := by simp [act]
  have hnew : weightAt f (act P s (.spawn call)) s.threads.length = f (P.start call) := by
    simp [weightAt, act]
  have hold : totalOver f (Finset.range s.threads.length) (act P s (.spawn call)) = total f s :=
    totalOver_spawn (fun j hj => Finset.mem_range.1 hj) call
  unfold totalOver at hold
  unfold total totalOver
  rw [hlen, Finset.sum_range_succ, hnew, hold]
  rfl

end Weights

end Nanoguard.Threads

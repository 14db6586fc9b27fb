import Nanoguard.Reload.Snapshot

/-!
# The order of reloads

The task for the signal and every connection to the socket make their attempts independently. Two
attempts may read the configuration in one order and store their states in the other; the older
configuration is then the live one.
-/

namespace Nanoguard.Reload

open ClientAuth (Crypto)
open Proxy (ProxyEnv offlineEnv)
open Threads

variable {p : Pointer} {t : Task}

/-- The action does not store a state over one that was built from a later read. -/
def InOrder (s : Sys Pointer Task) : Act Start World → Prop
  | .spawn _ => True
  | .run i _ => ∀ b ∈ s.threads[i]?.bind Task.candidate, s.shared.live.readNo ≤ b.readNo

/-- The live state was built from the latest of the reads that led to a state. -/
def Latest (p : Pointer) : Prop := ∀ b ∈ p.history, b.readNo ≤ p.live.readNo

/-- What a successful attempt has stored is or was live. -/
def StoredIn (p : Pointer) (t : Task) : Prop := ∀ b ∈ t.stored, b ∈ p.history

section Order

variable {E : ProxyEnv} {C : Crypto} {runtime : RuntimeHandles} {s : Sys Pointer Task}

theorem taskStep_latest (w : World) (h : Latest p)
    (ht : ∀ b ∈ t.candidate, p.live.readNo ≤ b.readNo) : Latest (taskStep E C runtime w p t).1 := by
  cases hcand : t.candidate with
  | none =>
    obtain ⟨hlive, hpast, -⟩ := taskStep_of_no_candidate E C runtime w p hcand
    unfold Latest Pointer.history
    rw [hlive, hpast]
    exact h
  | some candidate =>
    rw [(taskStep_of_candidate E C runtime w p hcand).1]
    intro b hb
    rcases List.mem_cons.1 hb with rfl | hb
    · exact le_rfl
    · exact (h b hb).trans (ht candidate hcand)

theorem taskStep_history (w : World) : p.history ⊆ (taskStep E C runtime w p t).1.history := by
  cases hcand : t.candidate with
  | none =>
    obtain ⟨hlive, hpast, -⟩ := taskStep_of_no_candidate E C runtime w p hcand
    unfold Pointer.history
    rw [hlive, hpast]
    exact List.Subset.refl _
  | some candidate =>
    rw [(taskStep_of_candidate E C runtime w p hcand).1]
    exact List.subset_cons_self ..

theorem StoredIn.mono {p' : Pointer} (h : StoredIn p t) (hsub : p.history ⊆ p'.history) :
    StoredIn p' t :=
  fun b hb => hsub (h b hb)

theorem taskStep_stored (w : World) (h : StoredIn p t) :
    StoredIn (taskStep E C runtime w p t).1 (taskStep E C runtime w p t).2 := by
  unfold StoredIn
  cases hcand : t.candidate with
  | none =>
    rw [(taskStep_of_no_candidate E C runtime w p hcand).2.2]
    exact h.mono (taskStep_history w)
  | some candidate =>
    obtain ⟨hp, hstored⟩ := taskStep_of_candidate E C runtime w p hcand
    rw [hp, hstored]
    intro b hb
    cases hb
    exact List.mem_cons_self

def OrderInv (s : Sys Pointer Task) : Prop :=
  Latest s.shared ∧ ∀ (i : Nat) (t : Task), s.threads[i]? = some t → StoredIn s.shared t

theorem orderInv_act (s : Sys Pointer Task) (a : Act Start World) (h : OrderInv s)
    (ha : InOrder s a) : OrderInv (act (liveProgram E C runtime) s a) := by
  apply act_inv (S := Latest) (T := fun _ => StoredIn)
  · intro call _ b hb
    cases call <;> cases hb
  · rintro i w t rfl ht
    refine ⟨taskStep_latest w h.1 ?_, taskStep_stored w (h.2 i t ht), ?_⟩
    · intro b hb
      apply ha b
      rw [ht]
      exact hb
    · exact fun _ _ _ hu => hu.mono (taskStep_history w)
  · exact h.1
  · exact h.2

end Order

section Examples

/-- Two attempts, the first at the old configuration and the second at the new one. They end in the
other order. -/
def crossedReloads : List (Act Start World) :=
  let old := exampleWorld (.ok (exampleFull true))
  let new := exampleWorld (.ok (exampleFull false))
  [.spawn (.reload .sighup), .spawn (.reload .socket), .run 0 old,
    .run 1 new, .run 1 new, .run 1 new, .run 1 new, .run 0 new, .run 0 new, .run 0 new]

def separateReloads : List (Act Start World) :=
  let old := exampleWorld (.ok (exampleFull true))
  let new := exampleWorld (.ok (exampleFull false))
  [.spawn (.reload .sighup), .run 0 old, .run 0 old, .run 0 old, .run 0 old,
    .spawn (.reload .socket), .run 1 new, .run 1 new, .run 1 new, .run 1 new]

end Examples

end Nanoguard.Reload

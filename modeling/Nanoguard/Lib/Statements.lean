import Mathlib.Data.List.Basic

/-!
# Statements without a transaction

A call to a database runs a list of statements, and each takes effect by itself. If one of them does
not go through, what ran before stays.
-/

namespace Nanoguard.Statements

variable {σ ε : Type}

/-- Run statements. `stop` is the number of a statement that is not reached, counted from zero, and
why it is not. A statement may also fail by itself. -/
def run : List (σ → Except ε σ) → Option (Nat × ε) → σ → σ × Except ε Unit
  | [], _, s => (s, .ok ())
  | _ :: _, some (0, e), s => (s, .error e)
  | stmt :: stmts, some (n + 1, e), s =>
    match stmt s with
    | .error e => (s, .error e)
    | .ok s' => run stmts (some (n, e)) s'
  | stmt :: stmts, none, s =>
    match stmt s with
    | .error e => (s, .error e)
    | .ok s' => run stmts none s'

/-- A statement that does not fail by itself. -/
def effect (f : σ → σ) : σ → Except ε σ := fun s => .ok (f s)

def effects (fs : List (σ → σ)) (s : σ) : σ := fs.foldl (fun s f => f s) s

theorem run_effects_of_lt {n : Nat} {e : ε} {fs : List (σ → σ)} (hn : n < fs.length) (s : σ) :
    run (fs.map effect) (some (n, e)) s = (effects (fs.take n) s, .error e) := by
  induction fs generalizing n s with
  | nil => exact absurd hn (Nat.not_lt_zero n)
  | cons f fs ih =>
    cases n with
    | zero => rfl
    | succ n => exact ih (Nat.lt_of_succ_lt_succ hn) (f s)

theorem run_effects {stop : Option (Nat × ε)} {fs : List (σ → σ)}
    (hstop : ∀ n e, stop = some (n, e) → fs.length ≤ n) (s : σ) :
    run (fs.map effect) stop s = (effects fs s, .ok ()) := by
  induction fs generalizing stop s with
  | nil => rfl
  | cons f fs ih =>
    rcases stop with _ | ⟨n, e⟩
    · have hnone : ∀ n e, (none : Option (Nat × ε)) = some (n, e) → fs.length ≤ n := nofun
      exact ih hnone (f s)
    have hn := hstop n e rfl
    cases n with
    | zero => exact absurd hn (Nat.not_succ_le_zero _)
    | succ n =>
      apply ih
      rintro _ _ ⟨⟩
      exact Nat.le_of_succ_le_succ hn

end Nanoguard.Statements

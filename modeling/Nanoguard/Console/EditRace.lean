import Nanoguard.Console.PoolKept
import Nanoguard.Lib.Threads

/-!
# Concurrent edits of the configuration

A mutation reads the configuration for its checks, reads the file again to change it and then puts
the changed file in place. There is no lock, so another mutation can write in between, and what it
has written is then overwritten.
-/

namespace Nanoguard.Console

open Backend (BackendConfig)
open Threads

/-! ## The threads -/

/-- How far a mutation has come. The files that it has read are kept to speak about a run. -/
inductive EditThread where
  | start (call : MutationCall)
  | checked (call : MutationCall) (m : Mutation) (seen : ConfigFile)
  | edited (call : MutationCall) (m : Mutation) (doc : ConfigDoc) (seen read : ConfigFile)
  | done (call : MutationCall) (reply : Except (Nat × Text) Nat)

def editStep (env : BackendConfig) (file : ConfigFile) : EditThread → ConfigFile × EditThread
  | .start call =>
    (file,
      match call.checked env file with
      | .ok m => .checked call m file
      | .error e => .done call (.error e))
  | .checked call m seen =>
    (file,
      match call.edited m file with
      | .ok doc => .edited call m doc seen file
      | .error e => .done call (.error e))
  -- the rename
  | .edited call m doc _ _ => (.valid doc, .done call (.ok m.status))
  | .done call reply => (file, .done call reply)

def editProgram (env : BackendConfig) : Program ConfigFile EditThread MutationCall Unit where
  start := .start
  step _ := editStep env

def EditThread.succeeded : EditThread → Option MutationCall
  | .done call (.ok _) => some call
  | _ => none

/-- A file that is written has not changed since the mutation looked at it. -/
def Unchanged (s : Sys ConfigFile EditThread) : Act MutationCall Unit → Prop
  | .spawn _ => True
  | .run i _ => ∀ call m doc seen read, s.threads[i]? = some (.edited call m doc seen read) →
      seen = s.shared ∧ read = s.shared

/-! ## The serial order -/

def finalFile (env : BackendConfig) (file : ConfigFile) (calls : List MutationCall) : ConfigFile :=
  calls.foldl (fun file call => (call.serve env file).1) file

section Serial

variable {env : BackendConfig} {file : ConfigFile} {calls : List MutationCall} {call : MutationCall}

theorem allServed_concat (h : AllServed env file calls)
    (hcall : (call.serve env (finalFile env file calls)).2.isOk = true) :
    AllServed env file (calls ++ [call]) := by
  induction calls generalizing file with
  | nil => exact ⟨hcall, trivial⟩
  | cons c calls ih => exact ⟨h.1, ih h.2 hcall⟩

theorem finalFile_concat :
    finalFile env file (calls ++ [call]) = (call.serve env (finalFile env file calls)).1 := by
  unfold finalFile
  rw [List.foldl_append]
  rfl

def EditThread.Knows (env : BackendConfig) : EditThread → Prop
  | .checked call m seen => call.checked env seen = .ok m
  | .edited call m doc seen read => call.checked env seen = .ok m ∧ call.edited m read = .ok doc
  | _ => True

theorem serve_of_reads {m : Mutation} {doc : ConfigDoc} (hchecked : call.checked env file = .ok m)
    (hedited : call.edited m file = .ok doc) :
    call.serve env file = (.valid doc, .ok m.status) := by
  simp only [MutationCall.serve, hchecked, hedited, bind, Except.bind, Except.map]

theorem editStep_knows {t : EditThread} (h : t.Knows env) : (editStep env file t).2.Knows env := by
  cases t with
  | start call =>
    unfold editStep
    dsimp only
    split
    next hchecked => exact hchecked
    next => trivial
  | checked call m seen =>
    unfold editStep
    dsimp only
    split
    next hedited => exact ⟨h, hedited⟩
    next => trivial
  | edited call m doc seen read => trivial
  | done call reply => trivial

theorem editStep_of_not_edited {t : EditThread}
    (h : ∀ call m doc seen read, t ≠ .edited call m doc seen read) :
    (editStep env file t).1 = file ∧ (editStep env file t).2.succeeded = t.succeeded := by
  cases t with
  | start call =>
    unfold editStep
    dsimp only
    split <;> exact ⟨rfl, rfl⟩
  | checked call m seen =>
    unfold editStep
    dsimp only
    split <;> exact ⟨rfl, rfl⟩
  | edited call m doc seen read => exact absurd rfl (h call m doc seen read)
  | done call reply => exact ⟨rfl, rfl⟩

end Serial

/-! ## Runs -/

structure SerialInv (env : BackendConfig) (file : ConfigFile) (s : Sys ConfigFile EditThread) :
    Prop where
  knows : ∀ (i : Nat) (t : EditThread), s.threads[i]? = some t → t.Knows env
  serial : ∃ order, order.Perm (collect EditThread.succeeded s) ∧ AllServed env file order ∧
    s.shared = finalFile env file order

theorem serialInv_act {env : BackendConfig} {file : ConfigFile} (s : Sys ConfigFile EditThread)
    (a : Act MutationCall Unit) (h : SerialInv env file s) (ha : Unchanged s a) :
    SerialInv env file (act (editProgram env) s a) := by
  refine ⟨fun j u hu => ?_, ?_⟩
  · rcases threads_act hu with hold | ⟨-, call, -, rfl⟩ | ⟨inp, t, -, ht, rfl⟩
    · exact h.knows j u hold
    · trivial
    · exact editStep_knows (h.knows j t ht)
  obtain ⟨order, hperm, hserved, hfile⟩ := h.serial
  cases a with
  | spawn call => exact ⟨order, by rwa [collect_spawn rfl], hserved, hfile⟩
  | run i inp =>
    cases ht : s.threads[i]? with
    | none =>
      rw [act_run_of_none ht]
      exact ⟨order, hperm, hserved, hfile⟩
    | some t =>
      by_cases hwrite : ∃ call m doc seen read, t = .edited call m doc seen read
      · -- a write is the next mutation of the serial order
        obtain ⟨call, m, doc, seen, read, rfl⟩ := hwrite
        obtain ⟨rfl, rfl⟩ := ha call m doc seen read ht
        obtain ⟨hchecked, hedited⟩ := h.knows i _ ht
        have hserve := serve_of_reads hchecked hedited
        rw [hfile] at hserve
        refine ⟨order ++ [call], ?_, allServed_concat hserved (by rw [hserve]; rfl), ?_⟩
        · have hnew : (collect EditThread.succeeded (act (editProgram env) s (.run i inp))).Perm
              (call :: collect EditThread.succeeded s) :=
            collect_run_of_new ht rfl rfl
          exact (List.perm_append_singleton call order).trans ((hperm.cons call).trans hnew.symm)
        · rw [act_run_of_some ht, finalFile_concat, hserve]
          rfl
      · have hnot : ∀ call m doc seen read, t ≠ .edited call m doc seen read := by
          intro call m doc seen read heq
          exact hwrite ⟨call, m, doc, seen, read, heq⟩
        have hstep : (editStep env s.shared t).1 = s.shared ∧
            (editStep env s.shared t).2.succeeded = t.succeeded :=
          editStep_of_not_edited hnot
        refine ⟨order, ?_, hserved, ?_⟩
        · rwa [collect_run_of_eq ht hstep.2]
        · rw [act_run_of_some ht]
          exact hstep.1.trans hfile

/-- **Edits that are not lost.** In every interleaving in which no mutation writes a file that has
changed since it looked at it, the file is what the successful mutations make of it in some order.
-/
theorem edits_serial (env : BackendConfig) (file : ConfigFile) (acts : List (Act MutationCall Unit))
    (hacts : Along (editProgram env) Unchanged ⟨file, []⟩ acts) :
    ∃ order, order.Perm (collect EditThread.succeeded (exec (editProgram env) ⟨file, []⟩ acts)) ∧
      AllServed env file order ∧
      (exec (editProgram env) ⟨file, []⟩ acts).shared = finalFile env file order := by
  have h₀ : SerialInv env file ⟨file, []⟩ := by
    refine ⟨fun i t ht => ?_, [], List.Perm.refl _, trivial, rfl⟩
    cases ht
  exact (hacts.exec_inv serialInv_act h₀).serial

section Examples

def createB : MutationCall := asAdmin (.create "b".toList upsertBody)

def createC : MutationCall := asAdmin (.create "c".toList upsertBody)

def defaultDoc : ConfigDoc := { singleDoc with routing := some ⟨false, some "a".toList, []⟩ }

/-- The second backend is created when the first is in the file. -/
def separateEdits : List (Act MutationCall Unit) :=
  [.spawn createB, .spawn createC, .run 0 (), .run 0 (), .run 0 (), .run 1 (), .run 1 (), .run 1 ()]

def overlappingEdits : List (Act MutationCall Unit) :=
  [.spawn createB, .spawn createC, .run 0 (), .run 1 (), .run 0 (), .run 1 (), .run 0 (), .run 1 ()]

theorem edits_serial_separate :
    ∃ order, order.Perm [createB, createC] ∧ AllServed exampleBackend (.valid defaultDoc) order ∧
      (exec (editProgram exampleBackend) ⟨.valid defaultDoc, []⟩ separateEdits).shared =
        finalFile exampleBackend (.valid defaultDoc) order := by
  refine edits_serial exampleBackend (.valid defaultDoc) separateEdits ?_
  refine ⟨trivial, trivial, ?_, ?_, ?_, ?_, ?_, ?_, trivial⟩
  all_goals
    intro call m doc seen read h
    cases h
  all_goals exact ⟨rfl, rfl⟩

def ConfigFile.backendNames : ConfigFile → List Text
  | .valid doc => doc.config.backends.keys
  | _ => []

/-- **A lost edit.** Two new backends are both answered with 201, and the file has only the second.
-/
theorem edit_lost :
    let s := exec (editProgram exampleBackend) ⟨.valid defaultDoc, []⟩ overlappingEdits
    s.threads = [.done createB (.ok 201), .done createC (.ok 201)] ∧
      "b".toList ∉ s.shared.backendNames ∧
      ∀ order ∈ [[createB, createC], [createC, createB]],
        s.shared ≠ finalFile exampleBackend (.valid defaultDoc) order := by
  have hnames : "b".toList ∉ (exec (editProgram exampleBackend) ⟨.valid defaultDoc, []⟩
      overlappingEdits).shared.backendNames := by
    decide
  have hserial : ∀ order ∈ [[createB, createC], [createC, createB]],
      "b".toList ∈ (finalFile exampleBackend (.valid defaultDoc) order).backendNames := by
    decide
  refine ⟨rfl, hnames, fun order horder heq => hnames ?_⟩
  rw [heq]
  exact hserial order horder

end Examples

end Nanoguard.Console

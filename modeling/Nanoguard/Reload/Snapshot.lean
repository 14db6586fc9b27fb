import Nanoguard.Proxy.AuditTrail
import Nanoguard.Reload.Live

/-!
# One request, one configuration

Requests and attempts to reload are interleaved in any way. The middleware may load another state than
the handler, but it looks only at a handle, and every state has the same handles.
-/

namespace Nanoguard.Reload

open List

open ClientAuth (AuthRequest Crypto)
open Proxy
open Threads

/-- A state that can be built on the handles of the process. -/
def Successful (runtime : RuntimeHandles) (st : LiveState) : Prop :=
  ∃ env cfg, buildLive env cfg runtime = .ok st

theorem Successful.handles {runtime : RuntimeHandles} {st : LiveState}
    (h : Successful runtime st) : st.handles = runtime := by
  obtain ⟨env, cfg, hbuild⟩ := h
  obtain ⟨app, -, hst⟩ := bind_eq_ok.1 hbuild
  cases hst
  rfl

def Pointer.history (p : Pointer) : List Built := p.live :: p.past

def Stage.loads : Stage → Bool
  | .arrived _ _ | .verified _ => true
  | _ => false

section Requests

variable {E : ProxyEnv} {C : Crypto} {w : World} {st st' : LiveState} {stage : Stage}

theorem verifyStep_congr (h : st.handles = st'.handles) (headers : AuthRequest) (call : Call) :
    verifyStep C w st headers call = verifyStep C w st' headers call := by
  unfold verifyStep
  rw [h]

theorem requestStep_of_not_loads (h : stage.loads = false) (st st' : LiveState) :
    requestStep E C w st stage = requestStep E C w st' stage := by
  cases stage with
  | arrived headers call | verified req => cases h
  | _ => rfl

theorem loads_answerStep (srv : Server) (fwd : Forward) (resp : BackendResponse) (req : Request) :
    (answerStep E srv fwd resp req).loads = false := by
  unfold answerStep
  repeat' split
  all_goals rfl

theorem loads_requestStep (h : stage.loads = false) (st : LiveState) :
    (requestStep E C w st stage).loads = false := by
  cases stage with
  | arrived headers call | verified req => cases h
  | unauthorized refusal | replied reply => rfl
  | loaded st req =>
    unfold requestStep
    dsimp only
    split <;> rfl
  | accepted st req fwd =>
    unfold requestStep
    dsimp only
    split
    · rfl
    · exact loads_answerStep ..
  | streaming status env stream failure chunks sent =>
    change (streamStep E status env stream failure chunks sent).loads = false
    unfold streamStep
    repeat' split
    all_goals rfl

end Requests

section Invariant

variable (E : ProxyEnv) (C : Crypto) (runtime : RuntimeHandles)

/-- The stage that a request has reached with these inputs. Before its handler has loaded the
pointer it is the same for all states; afterwards one of the live states explains it. -/
def Explained (p : Pointer) (ws : List World) (headers : AuthRequest) (call : Call)
    (stage : Stage) : Prop :=
  (stage.loads = true → ∀ st, st.handles = runtime →
    steps E C st ws (.arrived headers call) = stage) ∧
  (stage.loads = false → ∃ b ∈ p.history, steps E C b.state ws (.arrived headers call) = stage)

def TaskInv (p : Pointer) (ws : List World) : Task → Prop
  | .request headers call stage => Explained E C runtime p ws headers call stage
  | .reload _ (.built candidate _) => Successful runtime candidate.state
  | .reload _ _ => True

def PointerInv (p : Pointer) : Prop := ∀ b ∈ p.history, Successful runtime b.state

variable {E C runtime} {p p' : Pointer} {ws : List World} {headers : AuthRequest} {call : Call}
  {stage : Stage}

theorem Explained.mono (h : Explained E C runtime p ws headers call stage)
    (hsub : p.history ⊆ p'.history) : Explained E C runtime p' ws headers call stage := by
  refine ⟨h.1, fun hloads => ?_⟩
  obtain ⟨b, hb, hsteps⟩ := h.2 hloads
  exact ⟨b, hsub hb, hsteps⟩

theorem TaskInv.mono {t : Task} (h : TaskInv E C runtime p ws t) (hsub : p.history ⊆ p'.history) :
    TaskInv E C runtime p' ws t := by
  cases t with
  | request headers call stage => exact Explained.mono h hsub
  | reload origin attempt => cases attempt <;> exact h

theorem explained_arrived : Explained E C runtime p [] headers call (.arrived headers call) :=
  ⟨fun _ _ _ => rfl, fun h => by cases h⟩

theorem steps_concat (st : LiveState) (w : World) (stage : Stage) :
    steps E C st (ws ++ [w]) stage = requestStep E C w st (steps E C st ws stage) :=
  steps_append ws [w] stage

theorem Explained.step (hlive : p.live.state.handles = runtime) (w : World)
    (h : Explained E C runtime p ws headers call stage) :
    Explained E C runtime p (ws ++ [w]) headers call
      (requestStep E C w p.live.state stage) := by
  have hmem : p.live ∈ p.history := mem_cons_self
  cases hloads : stage.loads with
  | false =>
    refine ⟨fun habs => ?_, fun _ => ?_⟩
    · rw [loads_requestStep hloads] at habs
      cases habs
    obtain ⟨b, hb, hsteps⟩ := h.2 hloads
    refine ⟨b, hb, ?_⟩
    rw [steps_concat, hsteps]
    exact requestStep_of_not_loads hloads _ _
  | true =>
    have hall := h.1 hloads
    refine ⟨fun hnext st hst => ?_, fun _ => ⟨p.live, hmem, ?_⟩⟩
    · rw [steps_concat, hall st hst]
      -- only the middleware is followed by another load
      cases stage with
      | arrived headers' call' => exact verifyStep_congr (hst.trans hlive.symm) headers' call'
      | verified req => cases hnext
      | _ => cases hloads
    · rw [steps_concat, hall p.live.state hlive]

theorem history_reloadStep (w : World) (p : Pointer) (attempt : Attempt) :
    p.history ⊆ (reloadStep runtime w p attempt).1.history := by
  cases attempt with
  | built candidate ignored => exact subset_cons_self ..
  | _ => exact List.Subset.refl _

theorem pointerInv_reloadStep {w : World} {origin : Origin} {attempt : Attempt}
    (hp : PointerInv runtime p) (h : TaskInv E C runtime p ws (.reload origin attempt)) :
    PointerInv runtime (reloadStep runtime w p attempt).1 := by
  cases attempt with
  | built candidate ignored =>
    intro b hb
    rcases mem_cons.1 hb with rfl | hb
    · exact h
    · exact hp b hb
  | _ => exact hp

theorem taskInv_reloadStep {w : World} {origin : Origin} {attempt : Attempt} :
    TaskInv E C runtime p' (ws ++ [w]) (.reload origin (reloadStep runtime w p attempt).2) := by
  cases attempt with
  | started =>
    unfold reloadStep
    dsimp only
    split <;> trivial
  | compared cfg n ignored =>
    unfold reloadStep
    dsimp only
    split
    · trivial
    · split
      next st hbuild => exact ⟨w.files, cfg, hbuild⟩
      next => trivial
  | _ => trivial

theorem liveProgram_inv {live : LiveState} (h₀ : Successful runtime live)
    (acts : List (Act Start World)) :
    PointerInv runtime (exec (liveProgram E C runtime) (started live) acts).shared ∧
      ∀ i t, (exec (liveProgram E C runtime) (started live) acts).threads[i]? = some t →
        TaskInv E C runtime (exec (liveProgram E C runtime) (started live) acts).shared
          (received (liveProgram E C runtime) i (started live) acts) t := by
  apply exec_inputs_inv (T := TaskInv E C runtime)
  · intro p call hp
    cases call with
    | request headers call => exact explained_arrived
    | reload origin => trivial
  · intro p w ws t hp ht
    cases t with
    | request headers call stage =>
      exact ⟨hp, ht.step (hp p.live mem_cons_self).handles w, fun _ _ h => h⟩
    | reload origin attempt =>
      exact ⟨pointerInv_reloadStep hp ht, taskInv_reloadStep,
        fun _ _ h => h.mono (history_reloadStep w p attempt)⟩
  · intro b hb
    rw [mem_singleton.1 hb]
    exact h₀
  · rfl

end Invariant

/-! ## Attempts that fail -/

/-- The state that a task is about to store. -/
def Task.candidate : Task → Option Built
  | .reload _ (.built candidate _) => some candidate
  | _ => none

/-- The state that a successful attempt has stored. -/
def Task.stored : Task → Option Built
  | .reload _ (.succeeded stored _) => some stored
  | _ => none

section

variable (E : ProxyEnv) (C : Crypto) (runtime : RuntimeHandles) (w : World) (p : Pointer) {t : Task}

theorem taskStep_of_candidate {b : Built} (h : t.candidate = some b) :
    (taskStep E C runtime w p t).1 = { p with live := b, past := p.live :: p.past } ∧
      (taskStep E C runtime w p t).2.stored = some b := by
  cases t with
  | request headers call stage => cases h
  | reload origin attempt =>
    cases attempt with
    | built candidate ignored =>
      cases h
      exact ⟨rfl, rfl⟩
    | _ => cases h

theorem taskStep_of_no_candidate (h : t.candidate = none) :
    (taskStep E C runtime w p t).1.live = p.live ∧ (taskStep E C runtime w p t).1.past = p.past ∧
      (taskStep E C runtime w p t).2.stored = t.stored := by
  cases t with
  | request headers call stage => exact ⟨rfl, rfl, rfl⟩
  | reload origin attempt =>
    cases attempt with
    | started =>
      refine ⟨rfl, rfl, ?_⟩
      simp only [taskStep, reloadStep]
      split <;> rfl
    | compared cfg n ignored =>
      refine ⟨rfl, rfl, ?_⟩
      simp only [taskStep, reloadStep]
      repeat' split
      all_goals rfl
    | built candidate ignored => cases h
    | read cfg n | succeeded stored ignored | failed e => exact ⟨rfl, rfl, rfl⟩

end

theorem history_act {E : ProxyEnv} {C : Crypto} {runtime : RuntimeHandles} {s : Sys Pointer Task}
    {i : Nat} {w : World}
    (h : (act (liveProgram E C runtime) s (.run i w)).shared.history ≠ s.shared.history) :
    ∃ t, (act (liveProgram E C runtime) s (.run i w)).threads[i]? = some t ∧
      t.stored.isSome = true := by
  cases ht : s.threads[i]? with
  | none =>
    rw [act_run_of_none ht] at h
    exact absurd rfl h
  | some t =>
    rw [act_run_of_some ht] at h ⊢
    refine ⟨_, getElem?_set_self (List.getElem?_eq_some_iff.1 ht).1, ?_⟩
    cases hcand : t.candidate with
    | none =>
      obtain ⟨hlive, hpast, -⟩ := taskStep_of_no_candidate E C runtime w s.shared hcand
      exact absurd (congrArg₂ List.cons hlive hpast) h
    | some b => exact congrArg Option.isSome (taskStep_of_candidate E C runtime w s.shared hcand).2

theorem finished_of_stored {E : ProxyEnv} {C : Crypto} {runtime : RuntimeHandles} {t : Task}
    (h : t.stored.isSome = true) (w : World) (p : Pointer) :
    ((liveProgram E C runtime).step w p t).2 = t := by
  cases t with
  | request headers call stage => cases h
  | reload origin attempt =>
    cases attempt with
    | succeeded stored ignored => rfl
    | _ => cases h

theorem history_of_failed {E : ProxyEnv} {C : Crypto} {runtime : RuntimeHandles}
    {s : Sys Pointer Task} {i : Nat} {w : World} {acts : List (Act Start World)} {origin : Origin}
    {e : Text}
    (h : (exec (liveProgram E C runtime) s (.run i w :: acts)).threads[i]? =
      some (.reload origin (.failed e))) :
    (act (liveProgram E C runtime) s (.run i w)).shared.history = s.shared.history := by
  by_contra hne
  obtain ⟨t, ht, hstored⟩ := history_act hne
  have hlast : (exec (liveProgram E C runtime) s (.run i w :: acts)).threads[i]? = some t :=
    getElem?_exec_of_finished ht (finished_of_stored hstored) acts
  rw [hlast] at h
  cases h
  cases hstored

/-- **One request sees one configuration.** In every run every state that is or was live was built
successfully and has the handles of the process; every request is where it would be if one of these
states had been live all along; and no step of a failed attempt changes the live state. -/
theorem one_configuration (E : ProxyEnv) (C : Crypto) (runtime : RuntimeHandles) (live : LiveState)
    (h₀ : Successful runtime live) (acts : List (Act Start World)) :
    let P := liveProgram E C runtime
    let s := exec P (started live) acts
    (∀ b ∈ s.shared.history, Successful runtime b.state ∧ b.state.handles = runtime) ∧
    (∀ i headers call stage, s.threads[i]? = some (.request headers call stage) →
      ∃ b ∈ s.shared.history,
        stage = steps E C b.state (received P i (started live) acts) (.arrived headers call)) ∧
    (∀ i origin e, s.threads[i]? = some (.reload origin (.failed e)) →
      ∀ before w after, acts = before ++ .run i w :: after →
        (exec P (started live) (before ++ [.run i w])).shared.history =
          (exec P (started live) before).shared.history) := by
  intro P s
  obtain ⟨hpointer, htasks⟩ := liveProgram_inv (E := E) (C := C) h₀ acts
  refine ⟨fun b hb => ⟨hpointer b hb, (hpointer b hb).handles⟩, ?_, ?_⟩
  · intro i headers call stage ht
    obtain ⟨hunloaded, hloaded⟩ := htasks i _ ht
    cases hloads : stage.loads with
    | true =>
      exact ⟨s.shared.live, mem_cons_self,
        (hunloaded hloads _ (hpointer _ mem_cons_self).handles).symm⟩
    | false =>
      obtain ⟨b, hb, hsteps⟩ := hloaded hloads
      exact ⟨b, hb, hsteps.symm⟩
  · intro i origin e hfailed before w after hacts
    have hrun : (exec P (exec P (started live) before) (.run i w :: after)).threads[i]? =
        some (.reload origin (.failed e)) := by
      rw [← exec_append, ← hacts]
      exact hfailed
    rw [exec_append]
    exact history_of_failed hrun

section Examples

def basicFiles : BuildEnv where
  eng := .basic
  unicode := .ascii
  iword := fun _ _ => .error []
  readToString := fun _ => .error []
  parseYaml := fun _ => .error []
  json := ⟨fun _ => .error [], fun _ => []⟩
  compileSchema := fun _ => .error []

def exampleFull (outputEnabled : Bool) : FullConfig where
  base := Proxy.exampleConfig
  outputEnabled
  startup := ⟨⟨"0.0.0.0:8080".toList, "info".toList⟩, ⟨false, "nanoguard.db".toList, none⟩,
    ⟨false, "audit.jsonl".toList, true, false⟩, {}⟩

def exampleRuntime : RuntimeHandles := ⟨0, none, none, none⟩

theorem exampleFull_builds :
    ∃ app, ∀ outputEnabled runtime, buildLive basicFiles (exampleFull outputEnabled) runtime =
      .ok ⟨app, outputEnabled, (exampleFull outputEnabled).startup, runtime⟩ := by
  obtain ⟨r, hr, -⟩ := Redact.buildWithStyle_default basicFiles.eng basicFiles.unicode
    basicFiles.readToString .bare
  have happ : ∃ app, buildAppState basicFiles Proxy.exampleConfig none = .ok app :=
    ⟨_, bind_eq_ok.2 ⟨_, rfl, bind_eq_ok.2 ⟨_, rfl, bind_eq_ok.2 ⟨r, hr,
      bind_eq_ok.2 ⟨_, rfl, bind_eq_ok.2 ⟨_, rfl, bind_eq_ok.2 ⟨_, rfl, rfl⟩⟩⟩⟩⟩⟩⟩
  obtain ⟨app, happ⟩ := happ
  exact ⟨app, fun outputEnabled runtime => bind_eq_ok.2 ⟨app, happ, rfl⟩⟩

def exampleWorld (readConfig : Except Text FullConfig) : World where
  readConfig
  files := basicFiles
  panics := false
  auth _ := ⟨.empty, .new 0 0⟩
  budget _ := ⟨fun _ => .ok none, fun _ => .ok 0⟩
  now := 0
  send _ _ := .error []

theorem length_zeros : (List.replicate 32 (0 : UInt8)).length = 32 := rfl

def exampleCrypto : Crypto := ⟨fun _ => ⟨List.replicate 32 0, length_zeros⟩, fun _ => none⟩

/-- A state is stored between the two loads of a request, and another attempt fails. -/
def reloadBetweenLoads : List (Act Start World) :=
  let w := exampleWorld (.ok (exampleFull false))
  [.spawn (.request ⟨none, none⟩ (.chat (.obj []))), .spawn (.reload .sighup), .run 0 w,
    .run 1 w, .run 1 w, .run 1 w, .run 1 w, .run 0 w, .spawn (.reload .socket),
    .run 2 (exampleWorld (.error [])), .run 0 w]

theorem one_configuration_example :
    ∃ live, Successful exampleRuntime live ∧
      let P := liveProgram offlineEnv exampleCrypto exampleRuntime
      let s := exec P (started live) reloadBetweenLoads
      ∀ headers call stage, s.threads[0]? = some (.request headers call stage) →
        ∃ b ∈ s.shared.history,
          stage = steps offlineEnv exampleCrypto b.state
            (received P 0 (started live) reloadBetweenLoads) (.arrived headers call) := by
  obtain ⟨app, hbuild⟩ := exampleFull_builds
  refine ⟨_, ⟨_, _, hbuild true _⟩, ?_⟩
  intro P s headers call stage
  exact (one_configuration offlineEnv exampleCrypto exampleRuntime _
    ⟨_, _, hbuild true _⟩ reloadBetweenLoads).2.1 0 headers call stage

end Examples

end Nanoguard.Reload

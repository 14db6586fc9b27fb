import Nanoguard.Proxy.Handlers
import Nanoguard.Reload.Build

/-!
# The live state

The proxy keeps its state behind one pointer. A request loads the pointer twice, once in the
middleware and once in its handler, and works on with the state that its handler has loaded. An
attempt to reload reads the configuration, loads the pointer to compare the settings that a reload does
not change, builds a state and stores the pointer. What the process has opened at startup is handed to
every build. Taken one after the other, the steps of a request are the handlers (`replies_handle`).
-/

namespace Nanoguard.Reload

open Backend (BackendConfig)
open ClientAuth (AuthConfig AuthRequest ClientView Crypto verifyRequest)
open Guard (DeanonymizeStream)
open Proxy
open Threads

/-! ## Configurations -/

structure ServerConfig where
  listen : Text
  logLevel : Text
  deriving DecidableEq, Repr

structure BudgetConfig where
  enabled : Bool
  dbPath : Text
  adminApiKey : Option Text
  deriving DecidableEq, Repr

structure AuditConfig where
  enabled : Bool
  path : Text
  hashOnly : Bool
  fsyncEveryWrite : Bool
  deriving DecidableEq, Repr

/-- The sections that a process reads at startup. -/
structure StartupConfig where
  nanoguard : ServerConfig
  budget : BudgetConfig
  audit : AuditConfig
  auth : AuthConfig
  deriving DecidableEq, Repr

structure FullConfig where
  base : Config
  /-- the switch of `[output]` -/
  outputEnabled : Bool
  startup : StartupConfig

/-- `warn_on_restart_only_drift`: the settings that are reported as ignored. -/
def restartOnlyDrift (live new : StartupConfig) : List String :=
  [ (live.nanoguard.listen != new.nanoguard.listen, "[nanoguard].listen"),
    (live.nanoguard.logLevel != new.nanoguard.logLevel, "[nanoguard].log_level"),
    (live.budget.enabled != new.budget.enabled, "[budget].enabled"),
    (live.budget.dbPath != new.budget.dbPath, "[budget].db_path"),
    (live.audit.enabled != new.audit.enabled, "[audit].enabled"),
    (live.audit.path != new.audit.path, "[audit].path"),
    (live.audit.hashOnly != new.audit.hashOnly, "[audit].hash_only"),
    (live.auth.enabled != new.auth.enabled, "[auth].enabled"),
    (live.auth.envMarker != new.auth.envMarker, "[auth].env_marker"),
    (live.auth.cacheCapacity != new.auth.cacheCapacity, "[auth].cache_capacity"),
    (live.auth.cacheTtlSecs != new.auth.cacheTtlSecs, "[auth].cache_ttl_secs"),
    (live.auth.requireHttps != new.auth.requireHttps, "[auth].require_https") ].filterMap
    fun (changed, key) => if changed then some key else none

/-! ## States -/

/-- A client-auth handle has its own copy of the settings it was opened with. -/
structure ClientAuthHandle where
  id : Nat
  config : AuthConfig
  deriving DecidableEq, Repr

/-- What the process has opened at startup. Handles are told apart by numbers. -/
structure RuntimeHandles where
  httpClient : Nat
  budget : Option Nat
  audit : Option Nat
  clientAuth : Option ClientAuthHandle
  deriving DecidableEq, Repr

/-- A state of the server. What the budget store holds is not part of it. -/
structure LiveState where
  app : AppState
  outputEnabled : Bool
  startup : StartupConfig
  handles : RuntimeHandles

def buildLive (env : BuildEnv) (cfg : FullConfig) (runtime : RuntimeHandles) :
    Except Text LiveState := do
  let app ← buildAppState env cfg.base none
  return ⟨app, cfg.outputEnabled, cfg.startup, runtime⟩

/-- What a step finds outside of the process and behind the handles. -/
structure World where
  /-- `Config::from_env_or_default` -/
  readConfig : Except Text FullConfig
  files : BuildEnv
  /-- the build panics -/
  panics : Bool
  auth : Nat → ClientAuth.Shared
  budget : Nat → BudgetStore
  now : Nat
  send : BackendConfig → Json → Except Text BackendResponse

/-- The state as a handler uses it. -/
def LiveState.server (st : LiveState) (w : World) : Server where
  app := { st.app with budget := st.handles.budget.map w.budget }
  outputEnabled := st.outputEnabled
  auditOpen := st.handles.audit.isSome

/-! ## Requests -/

inductive Call where
  | chat (body : Json)
  | messages (req : AnthropicRequest)

def Call.withClient (client : Option ClientView) : Call → Request
  | .chat body => .chat client body
  | .messages req => .messages client req

inductive Stage where
  | arrived (headers : AuthRequest) (call : Call)
  | unauthorized (refusal : ClientAuth.Refusal)
  | verified (req : Request)
  | loaded (st : LiveState) (req : Request)
  | accepted (st : LiveState) (req : Request) (fwd : Forward)
  | streaming (status : Nat) (env : StreamEnv (Option DeanonymizeStream))
      (stream : StreamState (Option DeanonymizeStream)) (failure : Option Text)
      (chunks sent : List Bytes)
  | replied (reply : Reply)

section Request

variable (E : ProxyEnv) (C : Crypto)

def verifyStep (w : World) (live : LiveState) (headers : AuthRequest) (call : Call) : Stage :=
  match live.handles.clientAuth with
  | none => .verified (call.withClient none)
  | some auth =>
    match (verifyRequest C (some auth.config) (w.auth auth.id) headers w.now w.now w.now).2 with
    | .next client => .verified (call.withClient client)
    | .refuse refusal => .unauthorized refusal

/-- The guards of the input, the budget and the routing. -/
def inputStep (app : AppState) : Request → Except Reply Forward
  | .chat client body =>
    (chatInput E.unicode app client body).mapError fun refusal => .chat (.refused refusal)
  | .messages client req =>
    (messagesInput E.unicode app client req).mapError fun refusal => .messages (.refused refusal)

/-- What is done with the answer of a backend. A streamed answer is only set up. -/
def answerStep (srv : Server) (fwd : Forward) (resp : BackendResponse) : Request → Stage
  | .chat _ body =>
    if resp.isStream then
      .streaming resp.status (contentEnv E.unicode E.output srv.contentConfig srv.app.budget.isSome)
        (.new (deanonStream srv.contentConfig fwd.vault.entryList) srv.app.toolGate)
        resp.failure resp.chunks []
    else
      match resp.json E.fromSlice with
      | .error e => .replied (.chat (.unreadable e))
      | .ok json => .replied (.chat (finishChat E srv (chatModel body) fwd.vault resp.status json))
  | .messages _ req =>
    match resp.json E.fromSlice with
    | .error e => .replied (.messages (.unreadable e))
    | .ok json =>
      .replied (.messages (finishMessages E srv req.model fwd.vault resp.status json))

def exhaustedReply (failed : Exhausted) : Request → Reply
  | .chat _ _ => .chat (.exhausted failed)
  | .messages _ _ => .messages (.exhausted failed)

def streamStep (status : Nat) (env : StreamEnv (Option DeanonymizeStream))
    (stream : StreamState (Option DeanonymizeStream)) (failure : Option Text)
    (chunks sent : List Bytes) : Stage :=
  match chunks with
  | [] =>
    let result := streamLoop E.json env failure stream []
    .replied (.chat (.streamed status { result with sent := sent ++ result.sent }))
  | chunk :: chunks =>
    match feedChunk E.json env stream chunk with
    | .error reasons =>
      .replied (.chat (.streamed status ⟨sent ++ [denyEvent E.json reasons], .denied reasons, none⟩))
    | .ok (stream, out) => .streaming status env stream failure chunks (sent ++ out)

/-- The pointer is loaded by the first two steps only. -/
def requestStep (w : World) (live : LiveState) : Stage → Stage
  | .arrived headers call => verifyStep C w live headers call
  | .verified req => .loaded live req
  | .loaded st req =>
    match inputStep E (st.server w).app req with
    | .error reply => .replied reply
    | .ok fwd => .accepted st req fwd
  | .accepted st req fwd =>
    match forward w.send fwd.body fwd.chain with
    | .error failed => .replied (exhaustedReply failed req)
    | .ok resp => answerStep E (st.server w) fwd resp req
  | .streaming status env stream failure chunks sent =>
    streamStep E status env stream failure chunks sent
  | .unauthorized refusal => .unauthorized refusal
  | .replied reply => .replied reply

def steps (live : LiveState) (ws : List World) (stage : Stage) : Stage :=
  ws.foldl (fun stage w => requestStep E C w live stage) stage

end Request

/-! ## Attempts to reload -/

/-- A state with the number of the read of the configuration that it was built from. -/
structure Built where
  state : LiveState
  readNo : Nat

/-- What makes an attempt: the task for the signal, or a connection to the socket. The task for the
signal starts an attempt only after the last one. -/
inductive Origin where
  | sighup
  | socket
  deriving DecidableEq, Repr

inductive Attempt where
  | started
  | read (cfg : FullConfig) (readNo : Nat)
  | compared (cfg : FullConfig) (readNo : Nat) (ignored : List String)
  | built (candidate : Built) (ignored : List String)
  | succeeded (stored : Built) (ignored : List String)
  | failed (error : Text)

/-- The pointer. How often the configuration has been read and which states were live before are
there to speak about a run. -/
structure Pointer where
  live : Built
  past : List Built
  reads : Nat

def reloadStep (runtime : RuntimeHandles) (w : World) (p : Pointer) : Attempt → Pointer × Attempt
  | .started =>
    ({ p with reads := p.reads + 1 },
      match w.readConfig with
      | .ok cfg => .read cfg p.reads
      | .error e => .failed e)
  | .read cfg n => (p, .compared cfg n (restartOnlyDrift p.live.state.startup cfg.startup))
  | .compared cfg n ignored =>
    (p,
      if w.panics then .failed "build_failed".toList
      else
        match buildLive w.files cfg runtime with
        | .ok st => .built ⟨st, n⟩ ignored
        | .error e => .failed e)
  | .built candidate ignored =>
    ({ p with live := candidate, past := p.live :: p.past }, .succeeded candidate ignored)
  | .succeeded stored ignored => (p, .succeeded stored ignored)
  | .failed e => (p, .failed e)

/-! ## The program -/

inductive Task where
  | request (headers : AuthRequest) (call : Call) (stage : Stage)
  | reload (origin : Origin) (attempt : Attempt)

inductive Start where
  | request (headers : AuthRequest) (call : Call)
  | reload (origin : Origin)

def taskStep (E : ProxyEnv) (C : Crypto) (runtime : RuntimeHandles) (w : World) (p : Pointer) :
    Task → Pointer × Task
  | .request headers call stage =>
    (p, .request headers call (requestStep E C w p.live.state stage))
  | .reload origin attempt =>
    ((reloadStep runtime w p attempt).1, .reload origin (reloadStep runtime w p attempt).2)

def Start.task : Start → Task
  | .request headers call => .request headers call (.arrived headers call)
  | .reload origin => .reload origin .started

def liveProgram (E : ProxyEnv) (C : Crypto) (runtime : RuntimeHandles) :
    Program Pointer Task Start World where
  start := Start.task
  step := taskStep E C runtime

def started (live : LiveState) : Sys Pointer Task := ⟨⟨⟨live, 0⟩, [], 1⟩, []⟩

/-! ## The steps of a request and the handlers -/

section

variable {E : ProxyEnv} {C : Crypto} {live : LiveState} {w : World}

theorem steps_append (ws ws' : List World) (stage : Stage) :
    steps E C live (ws ++ ws') stage = steps E C live ws' (steps E C live ws stage) :=
  List.foldl_append ..

/-- The request replies in the end, if the world stays as it is. -/
def Replies (E : ProxyEnv) (C : Crypto) (live : LiveState) (w : World) (stage : Stage)
    (reply : Reply) : Prop :=
  ∃ n, steps E C live (List.replicate n w) stage = .replied reply

theorem replies_replied (reply : Reply) : Replies E C live w (.replied reply) reply := ⟨0, rfl⟩

theorem Replies.of_step {stage : Stage} {reply : Reply}
    (h : Replies E C live w (requestStep E C w live stage) reply) :
    Replies E C live w stage reply := by
  obtain ⟨n, hn⟩ := h
  exact ⟨n + 1, hn⟩

theorem replies_streaming (status : Nat) (env : StreamEnv (Option DeanonymizeStream))
    (stream : StreamState (Option DeanonymizeStream)) (failure : Option Text)
    (chunks sent : List Bytes) :
    Replies E C live w (.streaming status env stream failure chunks sent)
      (.chat (.streamed status
        { streamLoop E.json env failure stream chunks with
          sent := sent ++ (streamLoop E.json env failure stream chunks).sent })) := by
  induction chunks generalizing stream sent with
  | nil => exact ⟨1, rfl⟩
  | cons chunk chunks ih =>
    apply Replies.of_step
    simp only [requestStep, streamStep, streamLoop]
    cases feedChunk E.json env stream chunk with
    | error reasons => exact replies_replied _
    | ok next =>
      obtain ⟨stream', out⟩ := next
      have hrest := ih stream' (sent ++ out)
      rw [List.append_assoc] at hrest
      exact hrest

theorem replies_chat (stamp : Audit.Stamp) (client : Option ClientView) (body : Json) :
    Replies E C live w (.loaded live (.chat client body))
      (.chat (chatCompletions { E with send := w.send } (live.server w) stamp w.now client
        body).reply) := by
  apply Replies.of_step
  simp only [requestStep, inputStep, chatCompletions]
  cases chatInput E.unicode (live.server w).app client body with
  | error refusal => cases refusal <;> exact replies_replied _
  | ok fwd =>
    apply Replies.of_step
    simp only [requestStep, Except.mapError]
    cases forward w.send fwd.body fwd.chain with
    | error failed => exact replies_replied _
    | ok resp =>
      simp only [answerStep]
      split
      · exact replies_streaming resp.status _ _ resp.failure resp.chunks []
      · cases resp.json E.fromSlice <;> exact replies_replied _

theorem replies_messages (client : Option ClientView) (req : AnthropicRequest) :
    Replies E C live w (.loaded live (.messages client req))
      (.messages (messages { E with send := w.send } (live.server w) w.now client req).reply) := by
  apply Replies.of_step
  simp only [requestStep, inputStep, messages]
  cases messagesInput E.unicode (live.server w).app client req with
  | error refusal => exact replies_replied _
  | ok fwd =>
    apply Replies.of_step
    simp only [requestStep, Except.mapError]
    cases forward w.send fwd.body fwd.chain with
    | error failed => exact replies_replied _
    | ok resp =>
      simp only [answerStep]
      cases resp.json E.fromSlice <;> exact replies_replied _

end

/-- **Taken one after the other, the steps are the handlers.** -/
theorem replies_handle (E : ProxyEnv) (C : Crypto) (live : LiveState) (w : World)
    (stamp : Audit.Stamp) (req : Request) :
    Replies E C live w (.verified req)
      (handle { E with send := w.send } (live.server w) stamp w.now req).reply := by
  apply Replies.of_step
  cases req with
  | chat client body => exact replies_chat stamp client body
  | messages client req => exact replies_messages client req

end Nanoguard.Reload

import Nanoguard.Guard.SseToolGate
import Nanoguard.Proxy.Sse

/-!
# The stream loop

What `chat_completions` does with a streamed answer. Each chunk is searched for a usage report, its
payloads are shown to the streaming tool gate, and it is forwarded, through the filter if output
filtering is on. A denial or an error ends the loop at once, before the spend is recorded.
-/

namespace Nanoguard.Proxy

open Guard (JsonText StreamGateOutcome StreamingToolGate ToolGate)

/-- Show payloads to the gate, up to the first denial. -/
def inspect (J : JsonText) (gate : StreamingToolGate) :
    List Json → Except (List Text) StreamingToolGate
  | [] => .ok gate
  | val :: vals =>
    match gate.observe J val with
    | (gate, .allow) => inspect J gate vals
    | (_, .deny reasons) => .error reasons

/-- The payloads of a chunk, taken by itself. Nothing is read from a chunk that is not valid
UTF-8. -/
def chunkValues (J : JsonText) (chunk : Bytes) : List Json :=
  match Utf8.decode chunk with
  | none => []
  | some text =>
    (Str.splitStr ['\n', '\n'] text).flatMap fun rawEvent =>
      (Str.splitChar '\n' rawEvent).filterMap (lineValue J)

def denyEvent (J : JsonText) (reasons : List Text) : Bytes :=
  let payload := Json.obj [("error".toList, .obj [
    ("type".toList, .str "tool_call_denied".toList),
    ("message".toList, .str "nanoguard tool gate denied one or more tool calls".toList),
    ("reasons".toList, .arr (reasons.map .str))])]
  Str.bytes ("data: ".toList ++ J.toText payload ++ "\n\ndata: [DONE]\n\n".toList)

/-- The parts of the server state that the loop uses. -/
structure StreamEnv (σ : Type) where
  /-- the output filter, followed by the restoration of placeholders -/
  transform : σ → Text → σ × Text
  outputEnabled : Bool
  hasBudget : Bool

structure StreamState (σ : Type) where
  filter : SseFilter σ
  /-- `none` if there is no tool gate -/
  gate : Option StreamingToolGate
  lastUsage : Option Usage

def StreamState.new {σ : Type} (s : σ) (gate : Option ToolGate) : StreamState σ :=
  ⟨⟨[], s⟩, gate.map StreamingToolGate.new, none⟩

inductive StreamEnd where
  | completed
  | failed (error : Text)
  | denied (reasons : List Text)
  deriving DecidableEq, Repr

structure StreamResult where
  /-- the chunks sent to the client -/
  sent : List Bytes
  ending : StreamEnd
  /-- the usage recorded as spend -/
  spend : Option Usage

section Loop

variable {σ : Type} (J : JsonText) (env : StreamEnv σ)

/-- The gate's part of a round. -/
def inspectChunk (gate : Option StreamingToolGate) (chunk : Bytes) :
    Except (List Text) (Option StreamingToolGate) :=
  match gate with
  | none => .ok none
  | some gate => (inspect J gate (chunkValues J chunk)).map some

/-- The filter's part of a round, with what is sent. -/
def forwardChunk (filter : SseFilter σ) (chunk : Bytes) : SseFilter σ × List Bytes :=
  if !env.outputEnabled then (filter, [chunk])
  else
    let (filter, out) := filter.push J env.transform chunk
    (filter, if out.isEmpty then [] else [out])

/-- One round: the new state and what is sent, or the reasons of a denial. -/
def feedChunk (st : StreamState σ) (chunk : Bytes) :
    Except (List Text) (StreamState σ × List Bytes) :=
  (inspectChunk J st.gate chunk).map fun gate =>
    let (filter, out) := forwardChunk J env st.filter chunk
    (⟨filter, gate, (tryExtractUsage J chunk).or st.lastUsage⟩, out)

/-- The chunks are followed by an error, if there is one, or by the end of the stream. -/
def streamLoop (failure : Option Text) (st : StreamState σ) : List Bytes → StreamResult
  | [] =>
    match failure with
    | some e => ⟨[], .failed e, none⟩
    | none =>
      let tail := st.filter.flush.2
      ⟨if tail.isEmpty then [] else [tail], .completed, if env.hasBudget then st.lastUsage else none⟩
  | chunk :: chunks =>
    match feedChunk J env st chunk with
    | .error reasons => ⟨[denyEvent J reasons], .denied reasons, none⟩
    | .ok (st, out) =>
      let result := streamLoop failure st chunks
      { result with sent := out ++ result.sent }

end Loop

/-! ## Denial -/

def StreamEnd.denial : StreamEnd → Option (List Text)
  | .denied reasons => some reasons
  | _ => none

/-- The reasons for which the gate denies the payloads, if it does. -/
def denialOf (J : JsonText) (gate : Option StreamingToolGate) (vals : List Json) :
    Option (List Text) :=
  gate.bind fun gate =>
    match inspect J gate vals with
    | .error reasons => some reasons
    | .ok _ => none

section

variable {σ : Type} {J : JsonText} {env : StreamEnv σ}

theorem inspect_append (gate : StreamingToolGate) (vals vals' : List Json) :
    inspect J gate (vals ++ vals') = (inspect J gate vals).bind (inspect J · vals') := by
  induction vals generalizing gate with
  | nil => rfl
  | cons val vals ih =>
    rw [List.cons_append, inspect, inspect]
    split
    next gate' _ => exact ih gate'
    next => rfl

theorem streamLoop_cons (failure : Option Text) (st : StreamState σ) (chunk : Bytes)
    (chunks : List Bytes) :
    (streamLoop J env failure st (chunk :: chunks)).ending =
      match feedChunk J env st chunk with
      | .error reasons => .denied reasons
      | .ok (st, _) => (streamLoop J env failure st chunks).ending := by
  rw [streamLoop]
  split <;> rfl

/-- **The loop denies a stream exactly when the gate denies the payloads of its chunks**, and for
the same reasons. -/
theorem streamLoop_denial (failure : Option Text) (st : StreamState σ) (chunks : List Bytes) :
    (streamLoop J env failure st chunks).ending.denial =
      denialOf J st.gate (chunks.flatMap (chunkValues J)) := by
  induction chunks generalizing st with
  | nil =>
    cases failure <;> cases st.gate <;> rfl
  | cons chunk chunks ih =>
    rw [streamLoop_cons, List.flatMap_cons]
    unfold feedChunk
    cases hgate : st.gate with
    | none =>
      simp only [inspectChunk, Except.map]
      rw [ih]
      rfl
    | some gate =>
      simp only [inspectChunk, denialOf, Option.bind_some, inspect_append]
      cases inspect J gate (chunkValues J chunk) with
      | error reasons => rfl
      | ok gate' =>
        simp only [Except.map]
        rw [ih]
        rfl

end

end Nanoguard.Proxy

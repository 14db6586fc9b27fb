import Nanoguard.Proxy.SseFrame
import Nanoguard.Proxy.StreamLoop

/-!
# The spend of a streamed answer

The stream loop keeps the first usage report of the last chunk that has one, and records it when the
stream ends normally. A report that is cut by a chunk's end is not seen, a later report in the same
chunk is passed over, and nothing is recorded after a denial or an error.
-/

namespace Nanoguard.Proxy

open List

open Guard (JsonText StreamingToolGate ToolGate)

structure SpendRecord where
  apiKey : Text
  promptTokens : Nat
  completionTokens : Nat
  model : Text
  createdAt : Nat
  deriving DecidableEq, Repr

def StreamResult.records (r : StreamResult) (apiKey : Text) (now : Nat) : List SpendRecord :=
  r.spend.toList.map fun u => ⟨apiKey, u.prompt, u.completion, u.model, now⟩

def Usage.counts (u : Usage) : Nat × Nat := (u.prompt, u.completion)

def SpendRecord.counts (r : SpendRecord) : Nat × Nat := (r.promptTokens, r.completionTokens)

/-- The last report that a chunk, taken by itself, shows first. -/
def lastChunkReport (J : JsonText) (chunks : List Bytes) : Option Usage :=
  (chunks.filterMap (tryExtractUsage J)).getLast?

def eventReports (J : JsonText) (event : Bytes) : List Usage :=
  (eventValues J event).filterMap usageOf

def lastEventReport (J : JsonText) (stream : Bytes) : Option Usage :=
  ((completeEvents stream).flatMap (eventReports J)).getLast?

/-- The chunks that arrive before the loop ends: all of them, or those up to a denial. -/
def receivedChunks (J : JsonText) (gate : Option StreamingToolGate) : List Bytes → List Bytes
  | [] => []
  | chunk :: chunks =>
    match inspectChunk J gate chunk with
    | .error _ => [chunk]
    | .ok gate => chunk :: receivedChunks J gate chunks

section Loop

variable {σ : Type} {J : JsonText} {env : StreamEnv σ}

theorem getLast?_cons_or {α : Type} (x : α) (xs : List α) (last : Option α) :
    ((x :: xs).getLast?).or last = xs.getLast?.or (some x) := by
  cases xs with
  | nil => rfl
  | cons y ys =>
    rfl

variable (J env) in
theorem streamLoop_spend (failure : Option Text) (st : StreamState σ) (chunks : List Bytes) :
    (streamLoop J env failure st chunks).spend =
      if (streamLoop J env failure st chunks).ending = .completed ∧ env.hasBudget = true then
        (lastChunkReport J chunks).or st.lastUsage
      else none := by
  induction chunks generalizing st with
  | nil =>
    cases failure with
    | some e => simp [streamLoop]
    | none => simp [streamLoop, lastChunkReport]
  | cons chunk chunks ih =>
    rw [streamLoop]
    cases hfeed : feedChunk J env st chunk with
    | error reasons => simp
    | ok q =>
      obtain ⟨st', out⟩ := q
      dsimp only
      rw [ih st']
      have hlast : st'.lastUsage = (tryExtractUsage J chunk).or st.lastUsage := by
        unfold feedChunk at hfeed
        cases hinspect : inspectChunk J st.gate chunk with
        | error reasons => simp [hinspect, Except.map] at hfeed
        | ok gate =>
          simp only [hinspect, Except.map, Except.ok.injEq, Prod.mk.injEq] at hfeed
          rw [← hfeed.1]
      have hreport : (lastChunkReport J (chunk :: chunks)).or st.lastUsage =
          (lastChunkReport J chunks).or st'.lastUsage := by
        unfold lastChunkReport
        rw [hlast, filterMap_cons]
        cases tryExtractUsage J chunk with
        | none => rfl
        | some u => exact getLast?_cons_or u _ _
      rw [hreport]

theorem ending_of_no_gate (failure : Option Text) {st : StreamState σ} (h : st.gate = none)
    (chunks : List Bytes) :
    (streamLoop J env failure st chunks).ending =
      (failure.map StreamEnd.failed).getD .completed := by
  induction chunks generalizing st with
  | nil => cases failure <;> rfl
  | cons chunk chunks ih =>
    rw [streamLoop_cons]
    unfold feedChunk
    rw [h]
    exact ih rfl

theorem receivedChunks_of_completed {failure : Option Text} {st : StreamState σ}
    {chunks : List Bytes} (h : (streamLoop J env failure st chunks).ending = .completed) :
    receivedChunks J st.gate chunks = chunks := by
  induction chunks generalizing st with
  | nil => rfl
  | cons chunk chunks ih =>
    rw [streamLoop_cons] at h
    unfold feedChunk at h
    rw [receivedChunks]
    cases hinspect : inspectChunk J st.gate chunk with
    | error reasons => simp [hinspect, Except.map] at h
    | ok gate =>
      simp only [hinspect] at h
      dsimp only
      rw [ih h]

end Loop

section Spend

variable {σ : Type}

/-- The records are those that the events seen before the end ask for. -/
def SpendMatches (J : JsonText) (env : StreamEnv σ) (s : σ) (gate : Option ToolGate)
    (failure : Option Text) (chunks : List Bytes) (apiKey : Text) (now : Nat) : Prop :=
  let records := (streamLoop J env failure (.new s gate) chunks).records apiKey now
  let seen := receivedChunks J (gate.map StreamingToolGate.new) chunks
  records.map (fun r => (r.apiKey, r.counts)) =
    ((lastEventReport J seen.flatten).map fun u => (apiKey, u.counts)).toList

end Spend

section Cuts

variable {J : JsonText}

theorem tryExtractUsage_eq (chunk : Bytes) :
    tryExtractUsage J chunk = (eventReports J chunk).head? := by
  unfold tryExtractUsage eventReports eventValues
  cases Utf8.decode chunk with
  | none => rfl
  | some text =>
    dsimp only [Option.map_some]
    by_cases hdata : "data:".toList <:+: text
    · have hcontains : Str.contains text "data:".toList = true := decide_eq_true hdata
      rw [hcontains]
      exact head?_filterMap.symm
    · have hcontains : Str.contains text "data:".toList = false := decide_eq_false hdata
      rw [hcontains, textValues_of_not_data hdata]
      rfl

/-- **Cuts at line ends keep the last report** if no chunk has two. -/
theorem lastChunkReport_of_cuts {chunks : List Bytes} {text : Text} (hcut : CutAtLineEnds chunks)
    (htext : chunks.flatten = Str.bytes text)
    (hrest : eventReports J (unterminated chunks.flatten) = [])
    (hone : ∀ chunk ∈ chunks, (eventReports J chunk).length ≤ 1) :
    lastChunkReport J chunks = lastEventReport J chunks.flatten := by
  have hdecode : Utf8.decode chunks.flatten = some text := by rw [htext, Utf8.decode_bytes]
  have hreports : ∀ pieces : List Bytes, pieces.flatMap (eventReports J) =
      (pieces.flatMap (eventValues J)).filterMap usageOf := by
    intro pieces
    rw [filterMap_flatMap]
    rfl
  have hchunks := flatMap_eventValues (J := J) hcut hdecode
  have hevents := flatMap_eventValues (J := J) (cutAtLineEnds_events chunks.flatten)
    (by rw [flatten_events, hdecode])
  have hall : (completeEvents chunks.flatten).flatMap (eventReports J) =
      chunks.flatMap (eventReports J) := by
    have h := hreports (completeEvents chunks.flatten ++ [unterminated chunks.flatten])
    rw [hevents, ← hchunks, ← hreports, flatMap_append, flatMap_singleton, hrest, append_nil] at h
    exact h
  have hhead : chunks.filterMap (tryExtractUsage J) = chunks.flatMap (eventReports J) := by
    clear hcut htext hrest hdecode hchunks hevents hall
    induction chunks with
    | nil => rfl
    | cons chunk chunks ih =>
      have ih := ih (forall_mem_cons.1 hone).2
      have hlen := hone chunk mem_cons_self
      rw [filterMap_cons, flatMap_cons, tryExtractUsage_eq, ih]
      match eventReports J chunk, hlen with
      | [], _ => rfl
      | [u], _ => rfl
  unfold lastChunkReport lastEventReport
  rw [hhead, hall]

end Cuts

section Examples

theorem eventValues_dataEvent {J : JsonText} (hJ : JsonLines J) {val : Json}
    (hval : val.valid = true) : eventValues J (dataEvent (J.toText val)) = [val] := by
  unfold dataEvent dataLine
  rw [eventValues_bytes, append_assoc, singleton_append, textValues_cons,
    textValues_printed hJ hval]
  rfl

def usagePayload (prompt completion : Nat) : Json :=
  .obj [("usage".toList, .obj [("prompt_tokens".toList, .num (.posInt prompt)),
    ("completion_tokens".toList, .num (.posInt completion))])]

def usageText : Text := dataLine (compactJson.toText (usagePayload 12 34)) ++ ['\n']

def usageEvent : Bytes := Str.bytes usageText

def budgetEnv : StreamEnv Unit := ⟨fun _ text => ((), text), true, true⟩

theorem eventReports_usageEvent : eventReports compactJson usageEvent =
    [⟨12, 34, "unknown".toList⟩] := by
  decide +kernel

theorem events_usageEvent :
    completeEvents usageEvent = [usageEvent] ∧ unterminated usageEvent = [] := by
  decide +kernel

end Examples

end Nanoguard.Proxy

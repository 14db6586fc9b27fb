import Nanoguard.Guard.StreamedCalls
import Nanoguard.Proxy.SsePayloads
import Nanoguard.Proxy.StreamLoop

/-!
# Chunks and events

The stream loop shows the payloads of each chunk by itself to the tool gate, without the buffer that
the filter keeps. If every cut is at a line end, these are the payloads of the complete events.
-/

namespace Nanoguard.Proxy

open List Guard

variable {J : JsonText}

/-- The denial that feeding the complete events to the gate would give. -/
def eventsDenial (J : JsonText) (gate : Option ToolGate) (stream : Bytes) : Option (List Text) :=
  denialOf J (gate.map StreamingToolGate.new) ((completeEvents stream).flatMap (eventValues J))

theorem chunkValues_eq (chunk : Bytes) : chunkValues J chunk = eventValues J chunk := by
  unfold chunkValues eventValues
  cases Utf8.decode chunk with
  | none => rfl
  | some text => exact Str.splitStr_filterMap lineValue_nil text

/-! ## Denial -/

variable {σ : Type}

/-- The denial of a stream that arrives in the given chunks. -/
def streamDenial (J : JsonText) (env : StreamEnv σ) (s : σ) (gate : Option ToolGate)
    (failure : Option Text) (chunks : List Bytes) : Option (List Text) :=
  (streamLoop J env failure (.new s gate) chunks).ending.denial

theorem streamDenial_eq (env : StreamEnv σ) (s : σ) (gate : Option ToolGate)
    (failure : Option Text) (chunks : List Bytes) :
    streamDenial J env s gate failure chunks =
      denialOf J (gate.map StreamingToolGate.new) (chunks.flatMap (eventValues J)) := by
  unfold streamDenial
  rw [streamLoop_denial, funext (chunkValues_eq (J := J))]
  rfl

/-- **Cuts at line ends do not matter to the tool gate**: two such cuttings of a valid stream get
the denial that its complete events would get. -/
theorem streamDenial_of_cuts (J : JsonText) (env : StreamEnv σ) (s : σ) (gate : Option ToolGate)
    (failure : Option Text) (stream : Bytes) (hvalid : (Utf8.decode stream).isSome)
    (hrest : eventValues J (unterminated stream) = []) (chunks chunks' : List Bytes)
    (hjoin : chunks.flatten = stream) (hcut : CutAtLineEnds chunks)
    (hjoin' : chunks'.flatten = stream) (hcut' : CutAtLineEnds chunks') :
    streamDenial J env s gate failure chunks = streamDenial J env s gate failure chunks' ∧
      streamDenial J env s gate failure chunks = eventsDenial J gate stream := by
  obtain ⟨text, htext⟩ := Option.isSome_iff_exists.1 hvalid
  have hvalues : chunks.flatMap (eventValues J) = textValues J text :=
    flatMap_eventValues hcut (by rw [hjoin, htext])
  have hvalues' : chunks'.flatMap (eventValues J) = textValues J text :=
    flatMap_eventValues hcut' (by rw [hjoin', htext])
  have hevents : (completeEvents stream).flatMap (eventValues J) = textValues J text := by
    have h := flatMap_eventValues (J := J) (cutAtLineEnds_events stream)
      (by rw [flatten_events, htext])
    simpa [hrest] using h
  unfold eventsDenial
  rw [streamDenial_eq, streamDenial_eq, hvalues, hvalues', hevents]
  exact ⟨rfl, rfl⟩

section Examples

/-- A finished call of `delete_all`, as the upstream prints it. -/
@[irreducible] def deleteText : Text :=
  "\x7b\"choices\":[\x7b\"index\":0,".toList ++ "\"delta\":\x7b\"tool_calls\":[".toList ++
    "\x7b\"index\":0,\"function\":".toList ++ "\x7b\"name\":\"delete_all\",".toList ++
    "\"arguments\":\"[]\"\x7d\x7d]\x7d,".toList ++
    "\"finish_reason\":\"tool_calls\"\x7d]\x7d".toList

def deleteEvent : Json :=
  exampleEvent [exampleDelta 0 (some "delete_all".toList) "[]".toList] (some "tool_calls".toList)

def deleteJson : JsonText where
  fromStr text := if text = deleteText then .ok deleteEvent else .error "not JSON".toList
  toText _ := []

def passThrough : StreamEnv Unit := ⟨fun _ text => ((), text), true, false⟩

theorem splitEvents_delete : splitEvents (dataEvent deleteText) = ([dataEvent deleteText], []) := by
  decide +kernel

/-- The line and the blank line in one chunk or in two. -/
theorem streamDenial_of_cuts_delete :
    streamDenial deleteJson passThrough () (some exampleGate) none [dataEvent deleteText] =
        streamDenial deleteJson passThrough () (some exampleGate) none
          [Str.bytes (dataLine deleteText), Str.bytes ['\n']] ∧
      streamDenial deleteJson passThrough () (some exampleGate) none [dataEvent deleteText] =
        eventsDenial deleteJson (some exampleGate) (dataEvent deleteText) := by
  apply streamDenial_of_cuts
  · rw [dataEvent, Utf8.decode_bytes]
    rfl
  · rw [unterminated, splitEvents_delete]
    exact eventValues_bytes []
  · exact flatten_singleton
  · intro chunk hchunk
    simp at hchunk
  · simp [dataEvent]
  · intro chunk hchunk
    simp only [dropLast_cons_cons, dropLast_singleton, mem_singleton] at hchunk
    refine .inr ⟨Str.bytes ("data: ".toList ++ deleteText), ?_⟩
    rw [hchunk]
    exact Utf8.bytes_append ("data: ".toList ++ deleteText) ['\n']

/-- **A cut inside a line evades the gate**: the call passes when its event arrives in two chunks.
-/
theorem cut_line_evades_gate :
    let line := dataLine deleteText
    let cut := [Str.bytes (line.take 20), Str.bytes (line.drop 20 ++ ['\n'])]
    let denial := streamDenial deleteJson passThrough () (some exampleGate) none
    let reasons := ["tool `delete_all` is on the deny list".toList]
    cut.flatten = dataEvent deleteText ∧ denial [dataEvent deleteText] = some reasons ∧
      denial cut = none ∧
      eventsDenial deleteJson (some exampleGate) (dataEvent deleteText) = some reasons := by
  have hvalues : eventValues deleteJson (dataEvent deleteText) = [deleteEvent] := by
    have hpayload : (Str.splitChar '\n' (dataLine deleteText ++ ['\n'])).filterMap linePayload =
        [deleteText] := by decide +kernel
    have hparse : (deleteJson.fromStr deleteText).toOption = some deleteEvent :=
      congrArg Except.toOption (if_pos rfl)
    rw [dataEvent, eventValues_bytes, textValues_eq, hpayload, filterMap_cons, hparse]
    rfl
  have hhead : textValues deleteJson ((dataLine deleteText).take 20) = [] := by
    have hpayload : (Str.splitChar '\n' ((dataLine deleteText).take 20)).filterMap linePayload =
        [deleteText.take 14] := by decide +kernel
    have hne : deleteText.take 14 ≠ deleteText := by decide +kernel
    have hparse : (deleteJson.fromStr (deleteText.take 14)).toOption = none :=
      congrArg Except.toOption (if_neg hne)
    rw [textValues_eq, hpayload, filterMap_cons, hparse]
    rfl
  have htail : textValues deleteJson ((dataLine deleteText).drop 20 ++ ['\n']) = [] := by
    have hpayload : (Str.splitChar '\n' ((dataLine deleteText).drop 20 ++ ['\n'])).filterMap
        linePayload = [] := by decide +kernel
    rw [textValues_eq, hpayload]
    rfl
  refine ⟨?_, ?_, ?_, ?_⟩
  · rw [dataEvent, flatten_cons, flatten_singleton, ← Utf8.bytes_append,
      ← append_assoc, take_append_drop]
  · rw [streamDenial_eq, flatMap_singleton, hvalues]
    rfl
  · rw [streamDenial_eq]
    simp only [flatMap_cons, flatMap_nil, eventValues_bytes, hhead, htail]
    rfl
  · rw [eventsDenial, completeEvents, splitEvents_delete, flatMap_singleton, hvalues]
    rfl

end Examples

/-! ## Arrival byte by byte -/

theorem lineValue_short {line : Text} (h : line.length < 5) : lineValue J line = none := by
  have hlen : ((Str.stripSuffix ['\r'] line).getD line).length < 5 := by
    unfold Str.stripSuffix
    split
    · rw [Option.getD_some, length_take]
      omega
    · exact h
  have hnone : Str.stripPrefix "data:".toList ((Str.stripSuffix ['\r'] line).getD line) = none := by
    apply if_neg
    intro hpre
    have := hpre.length_le
    rw [show "data:".toList.length = 5 from rfl] at this
    omega
  unfold lineValue linePayload
  simp only [hnone, Option.bind_none]

theorem eventValues_byte (b : UInt8) : eventValues J [b] = [] := by
  unfold eventValues
  cases h : Utf8.decode [b] with
  | none => rfl
  | some text =>
    rw [Utf8.decode_eq_some_iff] at h
    have hlen : text.length ≤ 1 := by
      have := Utf8.length_le_bytes text
      rw [h] at this
      exact this
    rw [Option.map_some]
    match text, hlen with
    | [], _ => rfl
    | [c], _ =>
      unfold textValues Str.splitChar
      by_cases hc : c = '\n'
      · subst hc
        rfl
      · rw [splitOn_eq_singleton (by simpa using Ne.symm hc)]
        simp [lineValue_short]

/-- **A stream that arrives byte by byte is never denied**, whatever it carries. -/
theorem bytewise_never_denied (env : StreamEnv σ) (s : σ) (gate : Option ToolGate)
    (failure : Option Text) (stream : Bytes) :
    streamDenial J env s gate failure (stream.map fun b => [b]) = none := by
  have hnone : (stream.map fun b => [b]).flatMap (eventValues J) = [] := by
    simp [flatMap_map, eventValues_byte]
  rw [streamDenial_eq, hnone]
  cases gate <;> rfl

end Nanoguard.Proxy

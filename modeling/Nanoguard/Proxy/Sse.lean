import Nanoguard.Guard.ToolGate
import Nanoguard.Lib.Utf8

/-!
# Server-sent events

`SseFilter` buffers the bytes of a stream, cuts them at blank lines and filters the message text of
each complete event. The filter's `transform` may keep a state of its own. `splitEvents` is the cutting
alone.
-/

namespace Nanoguard.Proxy

open Guard (JsonText)

abbrev Bytes := List UInt8

/-- `split` ends the content of the event, `consumed` its blank line. -/
structure EventEnd where
  split : Nat
  consumed : Nat
  deriving DecidableEq, Repr

/-- The loop of `find_event_end`, from position `i` on. -/
def findEventEndFrom (i : Nat) : Bytes → Option EventEnd
  | [] => none
  | [_] => none
  | a :: b :: buf =>
    if a = 10 ∧ b = 10 then some ⟨i, i + 2⟩
    else if [13, 10, 13, 10] <+: a :: b :: buf then some ⟨i, i + 4⟩
    else findEventEndFrom (i + 1) (b :: buf)

def findEventEnd (buf : Bytes) : Option EventEnd := findEventEndFrom 0 buf

/-- The payload of a `data:` line, if it is neither empty nor the end marker. -/
def linePayload (line : Text) : Option Text :=
  let line := (Str.stripSuffix ['\r'] line).getD line
  match Str.stripPrefix "data:".toList line with
  | none => none
  | some p =>
    let payload := Str.trimStart p
    if payload = "[DONE]".toList ∨ payload.isEmpty then none else some payload

def lineValue (J : JsonText) (line : Text) : Option Json :=
  (linePayload line).bind fun payload => (J.fromStr payload).toOption

structure Usage where
  prompt : Nat
  completion : Nat
  model : Text
  deriving DecidableEq, Repr

/-- The usage that an event reports: both token counts have to be there. -/
def usageOf (val : Json) : Option Usage := do
  let usage ← val.get "usage".toList
  let prompt ← (usage.get "prompt_tokens".toList).bind Json.asU64
  let completion ← (usage.get "completion_tokens".toList).bind Json.asU64
  let model := ((val.get "model".toList).bind Json.asStr).getD "unknown".toList
  some ⟨prompt, completion, model⟩

def tryExtractUsage (J : JsonText) (raw : Bytes) : Option Usage :=
  match Utf8.decode raw with
  | none => none
  | some text =>
    if !Str.contains text "data:".toList then none
    else ((Str.splitChar '\n' text).filterMap (lineValue J)).findSome? usageOf

section Filter

variable {σ : Type} (J : JsonText) (transform : σ → Text → σ × Text)

/-- Transform a text content; the state's flag records a change. -/
def filterContent (st : σ × Bool) (content : Json) : (σ × Bool) × Json :=
  match content with
  | .str text =>
    let (s, filtered) := transform st.1 text
    if filtered ≠ text then ((s, true), .str filtered) else ((s, st.2), .str text)
  | content => (st, content)

/-- `filter_delta_content`: the new value and whether it has changed. -/
def filterDeltaContent (s : σ) (val : Json) : (σ × Bool) × Json :=
  val.update "choices".toList (fun st choices =>
    match choices with
    | .arr items =>
      let (st, items) := Json.updateItems (fun st choice =>
        choice.update "delta".toList (fun st delta =>
          delta.update "content".toList (filterContent transform) st) st) st items
      (st, .arr items)
    | choices => (st, choices)) (s, false)

/-- One line of an event; a data line is printed anew. -/
def processLine (st : σ × Bool) (line : Text) : (σ × Bool) × Text :=
  match lineValue J line with
  | none => (st, line)
  | some val =>
    let ((s, changed), val) := filterDeltaContent transform st.1 val
    let ended := if (Str.stripSuffix ['\r'] line).isSome then ['\r'] else []
    ((s, st.2 || changed), "data: ".toList ++ J.toText val ++ ended)

def processLines (st : σ × Bool) : List Text → (σ × Bool) × List Text
  | [] => (st, [])
  | line :: lines =>
    let (st, line) := processLine J transform st line
    let (st, lines) := processLines st lines
    (st, line :: lines)

def withTerminator (raw : Bytes) : Bytes := raw ++ [10, 10]

def processEvent (s : σ) (raw : Bytes) : σ × Bytes :=
  match Utf8.decode raw with
  | none => (s, withTerminator raw)
  | some text =>
    if Str.contains text "[DONE]".toList || !Str.contains text "data:".toList then
      (s, withTerminator raw)
    else
      let ((s, changed), rebuilt) := processLines J transform (s, false) (Str.splitChar '\n' text)
      (s, withTerminator (if changed then Str.bytes (Str.join ['\n'] rebuilt) else raw))

structure SseFilter (σ : Type) where
  buffer : Bytes
  /-- what the transform remembers -/
  state : σ

namespace SseFilter

/-- The loop of `push`. Each round drains at least two bytes, so the buffer's length is enough
fuel. -/
def drainEvents : Nat → SseFilter σ → SseFilter σ × Bytes
  | 0, f => (f, [])
  | fuel + 1, f =>
    match findEventEnd f.buffer with
    | none => (f, [])
    | some e =>
      let (s, processed) := processEvent J transform f.state (f.buffer.take e.split)
      let (f, out) := drainEvents fuel ⟨f.buffer.drop e.consumed, s⟩
      (f, processed ++ out)

def push (f : SseFilter σ) (chunk : Bytes) : SseFilter σ × Bytes :=
  let buffer := f.buffer ++ chunk
  drainEvents J transform buffer.length ⟨buffer, f.state⟩

def flush (f : SseFilter σ) : SseFilter σ × Bytes := ({ f with buffer := [] }, f.buffer)

end SseFilter

end Filter

/-! ## Events -/

/-- Cut off complete events; the buffer's length is enough fuel. -/
def splitEventsGo : Nat → Bytes → List Bytes × Bytes
  | 0, buf => ([], buf)
  | fuel + 1, buf =>
    match findEventEnd buf with
    | none => ([], buf)
    | some e =>
      let q := splitEventsGo fuel (buf.drop e.consumed)
      (buf.take e.consumed :: q.1, q.2)

/-- The complete events of a stream, with their blank lines, and what follows the last one. -/
def splitEvents (stream : Bytes) : List Bytes × Bytes := splitEventsGo stream.length stream

def completeEvents (stream : Bytes) : List Bytes := (splitEvents stream).1

def unterminated (stream : Bytes) : Bytes := (splitEvents stream).2

end Nanoguard.Proxy

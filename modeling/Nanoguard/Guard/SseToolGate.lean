import Nanoguard.Guard.ToolGate
import Nanoguard.Lib.Accumulate

/-!
# The streaming tool gate

`observe` takes one event of a stream. It merges the tool-call deltas of the event's choices into
partial calls, which are kept by tool index alone, and at a choice with the finish reason
`tool_calls` it evaluates all partial calls, forgets them and returns.
-/

namespace Nanoguard.Guard

structure PartialToolCall where
  id : Option Text := none
  name : Option Text := none
  arguments : Text := []
  deriving DecidableEq, Repr

def deltaId (delta : Json) : Option Text := (delta.get "id".toList).bind Json.asStr

def deltaName (delta : Json) : Option Text :=
  ((delta.get "function".toList).bind (·.get "name".toList)).bind Json.asStr

def deltaArguments (delta : Json) : Option Text :=
  ((delta.get "function".toList).bind (·.get "arguments".toList)).bind Json.asStr

def deltaIndex (delta : Json) : Nat := ((delta.get "index".toList).bind Json.asU64).getD 0

namespace PartialToolCall

/-- The id and the name are overwritten, the argument text grows. -/
def mergeDelta (p : PartialToolCall) (delta : Json) : PartialToolCall where
  id := deltaId delta <|> p.id
  name := deltaName delta <|> p.name
  arguments := p.arguments ++ (deltaArguments delta).getD []

/-- A call as the non-streaming gate takes it. -/
def callValue (id name arguments : Text) : Json :=
  .obj [("id".toList, .str id), ("type".toList, .str "function".toList),
    ("function".toList, .obj [("name".toList, .str name),
      ("arguments".toList, .str (if arguments.isEmpty then "\x7b\x7d".toList else arguments))])]

def intoOpenaiValue (p : PartialToolCall) : Option Json :=
  p.name.map fun name => callValue (p.id.getD []) name p.arguments

end PartialToolCall

structure StreamingToolGate where
  gate : ToolGate
  partials : AList (fun _ : Nat => PartialToolCall)
  denied : List Text

inductive StreamGateOutcome where
  | allow
  | deny (reasons : List Text)
  deriving DecidableEq, Repr

def eventChoices (event : Json) : List Json :=
  ((event.get "choices".toList).bind Json.asArray).getD []

def choiceDeltas (choice : Json) : List Json :=
  (((choice.get "delta".toList).bind (·.get "tool_calls".toList)).bind Json.asArray).getD []

def finishesToolCalls (choice : Json) : Bool :=
  (choice.get "finish_reason".toList).bind Json.asStr == some "tool_calls".toList

namespace StreamingToolGate

def new (gate : ToolGate) : StreamingToolGate := ⟨gate, ∅, []⟩

def mergeAll (s : StreamingToolGate) (deltas : List Json) : StreamingToolGate :=
  { s with partials := accumulate deltaIndex PartialToolCall.mergeDelta {} s.partials deltas }

variable (J : JsonText)

/-- Evaluate the partial calls in the order of their indices and forget them. Calls without a name
are skipped. -/
def evaluateCollected (s : StreamingToolGate) : StreamingToolGate × StreamGateOutcome :=
  let indices := s.partials.keys.insertionSort (· ≤ ·)
  let (partials, reasons) :=
    drain (fun p => p.intoOpenaiValue.bind (s.gate.denial J)) {} indices s.partials
  if reasons.isEmpty then ({ s with partials }, .allow)
  else ({ s with partials, denied := s.denied ++ reasons }, .deny reasons)

def observeChoices (s : StreamingToolGate) : List Json → StreamingToolGate × StreamGateOutcome
  | [] => (s, .allow)
  | choice :: choices =>
    let s := s.mergeAll (choiceDeltas choice)
    if finishesToolCalls choice then s.evaluateCollected J else observeChoices s choices

def observe (s : StreamingToolGate) (event : Json) : StreamingToolGate × StreamGateOutcome :=
  s.observeChoices J (eventChoices event)

def observeAll (s : StreamingToolGate) : List Json → StreamingToolGate × List StreamGateOutcome
  | [] => (s, [])
  | event :: events =>
    let (s, outcome) := s.observe J event
    let (s, outcomes) := observeAll s events
    (s, outcome :: outcomes)

end StreamingToolGate

/-! ## One event -/

/-- The deltas of the choices up to the first one that finishes the tool calls. -/
def visitedDeltas : List Json → List Json
  | [] => []
  | choice :: choices =>
    choiceDeltas choice ++ if finishesToolCalls choice then [] else visitedDeltas choices

def evaluates (event : Json) : Bool := (eventChoices event).any finishesToolCalls

namespace StreamingToolGate

variable {J : JsonText} (s : StreamingToolGate)

/-- The denials of the partial calls, in the order of their indices. -/
def reasons (J : JsonText) (s : StreamingToolGate) : List Text :=
  (s.partials.keys.insertionSort (· ≤ ·)).filterMap fun i =>
    ((s.partials.lookup i).getD {}).intoOpenaiValue.bind (s.gate.denial J)

def outcomeOf (reasons : List Text) : StreamGateOutcome :=
  if reasons.isEmpty then .allow else .deny reasons

theorem evaluateCollected_eq :
    s.evaluateCollected J =
      ({ s with partials := ∅, denied := s.denied ++ s.reasons J }, outcomeOf (s.reasons J)) := by
  unfold evaluateCollected outcomeOf
  simp only [drain_sorted]
  cases hr : s.reasons J with
  | nil =>
    unfold reasons at hr
    simp [hr]
  | cons r rs =>
    unfold reasons at hr
    simp [hr]

theorem mergeAll_append (ds ds' : List Json) :
    s.mergeAll (ds ++ ds') = (s.mergeAll ds).mergeAll ds' := by
  unfold mergeAll
  rw [accumulate_append]

theorem observeChoices_eq (choices : List Json) :
    s.observeChoices J choices =
      if choices.any finishesToolCalls then
        (s.mergeAll (visitedDeltas choices)).evaluateCollected J
      else (s.mergeAll (visitedDeltas choices), .allow) := by
  induction choices generalizing s with
  | nil => rfl
  | cons choice choices ih =>
    rw [observeChoices, visitedDeltas]
    by_cases hf : finishesToolCalls choice = true
    · simp [hf]
    · rw [mergeAll_append, ih]
      simp [hf]

theorem observe_eq (event : Json) :
    s.observe J event =
      if evaluates event then
        (s.mergeAll (visitedDeltas (eventChoices event))).evaluateCollected J
      else (s.mergeAll (visitedDeltas (eventChoices event)), .allow) :=
  s.observeChoices_eq (eventChoices event)

@[simp] theorem observe_gate (event : Json) : (s.observe J event).1.gate = s.gate := by
  rw [observe_eq]
  split
  · rw [evaluateCollected_eq]
    rfl
  · rfl

end StreamingToolGate

/-! ## A stream -/

/-- The deltas accumulated since the last evaluation, after `pending` and the events. -/
def pendingDeltas (pending : List Json) : List Json → List Json
  | [] => pending
  | event :: events =>
    pendingDeltas (if evaluates event then []
      else pending ++ visitedDeltas (eventChoices event)) events

namespace StreamingToolGate

variable {J : JsonText}

theorem observeAll_append (s : StreamingToolGate) (events events' : List Json) :
    s.observeAll J (events ++ events') =
      (((s.observeAll J events).1.observeAll J events').1,
        (s.observeAll J events).2 ++ ((s.observeAll J events).1.observeAll J events').2) := by
  induction events generalizing s with
  | nil => rfl
  | cons event events ih =>
    simp only [observeAll, ih, List.cons_append]

theorem observeAll_gate (s : StreamingToolGate) (events : List Json) :
    (s.observeAll J events).1.gate = s.gate := by
  induction events generalizing s with
  | nil => rfl
  | cons event events ih =>
    simp only [observeAll, ih]
    exact s.observe_gate event

theorem partials_observeAll {s : StreamingToolGate} {pending : List Json}
    (hs : s.partials = accumulate deltaIndex PartialToolCall.mergeDelta {} ∅ pending)
    (events : List Json) :
    (s.observeAll J events).1.partials =
      accumulate deltaIndex PartialToolCall.mergeDelta {} ∅ (pendingDeltas pending events) := by
  induction events generalizing s pending with
  | nil => exact hs
  | cons event events ih =>
    simp only [observeAll]
    apply ih
    rw [observe_eq]
    split
    · rw [evaluateCollected_eq]
      rfl
    · rw [accumulate_append, ← hs]
      rfl

end StreamingToolGate

end Nanoguard.Guard

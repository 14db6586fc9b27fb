import Nanoguard.Guard.SseToolGate

/-!
# Calls reassembled from a stream

For the calls of one choice with whole names the reassembly is exact whatever the interleaving. In
general it is not: the gate mixes the choices of a response, evaluates at one finish reason only,
skips calls without a name and takes the last piece of a name for the name.
-/

namespace Nanoguard.Guard

open List PartialToolCall StreamingToolGate

variable {deltas : List Json} {name : Text} {J : JsonText}

/-! ## The call of some deltas -/

/-- The call that the deltas amount to: the pieces of its name and of its arguments joined, and
the id given last. -/
def assembledCall (deltas : List Json) : Json :=
  let id := ((deltas.filterMap deltaId).getLast?).getD []
  let arguments := (deltas.filterMap deltaArguments).flatten
  match deltas.filterMap deltaName with
  | [] => .obj [("id".toList, .str id), ("type".toList, .str "function".toList),
      ("function".toList, .obj [("arguments".toList, .str arguments)])]
  | names => callValue id names.flatten arguments

/-- Merging deltas keeps the last id, the last name and all of the arguments. -/
theorem foldl_mergeDelta (deltas : List Json) :
    deltas.foldl mergeDelta {} =
      { id := (deltas.filterMap deltaId).getLast?
        name := (deltas.filterMap deltaName).getLast?
        arguments := (deltas.filterMap deltaArguments).flatten } := by
  induction deltas using List.reverseRecOn with
  | nil => rfl
  | append_singleton deltas delta ih =>
    rw [foldl_append, ih]
    simp only [foldl_cons, foldl_nil, mergeDelta]
    congr 1
    · cases hid : deltaId delta <;> simp [hid]
    · cases hname : deltaName delta <;> simp [hname]
    · cases hargs : deltaArguments delta <;> simp [hargs]

theorem intoOpenaiValue_foldl (h : deltas.filterMap deltaName = [name]) :
    (deltas.foldl mergeDelta {}).intoOpenaiValue = some (assembledCall deltas) := by
  rw [foldl_mergeDelta]
  simp [intoOpenaiValue, assembledCall, h]

theorem ne_nil_of_name (h : deltas.filterMap deltaName = [name]) : deltas ≠ [] := by
  intro hnil
  rw [hnil] at h
  cases h

theorem mem_reasons {s : StreamingToolGate} {collected : List Json} {i : Nat} {reason : Text}
    (hs : s.partials = accumulate deltaIndex mergeDelta {} ∅ collected)
    (hdeltas : (collected.filter fun d => deltaIndex d = i) = deltas)
    (hname : deltas.filterMap deltaName = [name])
    (hdenied : s.gate.denial J (assembledCall deltas) = some reason) : reason ∈ s.reasons J := by
  have hlookup : s.partials.lookup i = some (deltas.foldl mergeDelta {}) := by
    rw [hs]
    exact lookup_accumulate_empty hdeltas (ne_nil_of_name hname)
  have hmem : i ∈ s.partials.keys := by
    rw [← AList.mem_keys, ← AList.lookup_isSome, hlookup]
    rfl
  unfold StreamingToolGate.reasons
  rw [mem_filterMap]
  refine ⟨i, (mem_insertionSort _).2 hmem, ?_⟩
  rw [hlookup, Option.getD_some, intoOpenaiValue_foldl hname, Option.bind_some, hdenied]

/-! ## A denied call -/

def choiceIndex (choice : Json) : Nat := ((choice.get "index".toList).bind Json.asU64).getD 0

/-- The deltas of the call number `i` of the choice number `k`. -/
def callDeltas (k i : Nat) (events : List Json) : List Json :=
  (events.flatMap fun event =>
    ((eventChoices event).filter fun choice => choiceIndex choice = k).flatMap choiceDeltas).filter
      fun delta => deltaIndex delta = i

/-- The name of the call comes whole in one delta, and at some evaluation the deltas collected at
its index are exactly its own. -/
def CollectedWhole (k i : Nat) (events : List Json) : Prop :=
  (∃ name, (callDeltas k i events).filterMap deltaName = [name]) ∧
    ∃ before event after, events = before ++ event :: after ∧ evaluates event = true ∧
      ((pendingDeltas [] before ++ visitedDeltas (eventChoices event)).filter fun delta =>
        deltaIndex delta = i) = callDeltas k i events

/-- **A denied call that is collected whole stops the stream**: some event of the stream is answered
with a denial for its reason. -/
theorem denied_call_stops (J : JsonText) (gate : ToolGate) (events : List Json) (k i : Nat)
    (reason : Text) (hwhole : CollectedWhole k i events)
    (hdenied : gate.denial J (assembledCall (callDeltas k i events)) = some reason) :
    ∃ (n : Nat) (reasons : List Text),
      ((StreamingToolGate.new gate).observeAll J events).2[n]? = some (.deny reasons) ∧
        reason ∈ reasons := by
  obtain ⟨⟨name, hname⟩, before, event, after, hevents, heval, hround⟩ := hwhole
  have hs : ((StreamingToolGate.new gate).observeAll J before).1.partials =
      accumulate deltaIndex mergeDelta {} ∅ (pendingDeltas [] before) := partials_observeAll rfl before
  generalize hstate : (StreamingToolGate.new gate).observeAll J before = q at hs
  obtain ⟨s, outcomes⟩ := q
  have hgate : s.gate = gate := by
    have hkeep := observeAll_gate (J := J) (StreamingToolGate.new gate) before
    rw [hstate] at hkeep
    exact hkeep
  have hmem : reason ∈ (s.mergeAll (visitedDeltas (eventChoices event))).reasons J := by
    refine mem_reasons ?_ hround hname ?_
    · rw [accumulate_append, ← hs]
      rfl
    · rw [← hgate] at hdenied
      exact hdenied
  have hobserve : (s.observe J event).2 =
      .deny ((s.mergeAll (visitedDeltas (eventChoices event))).reasons J) := by
    rw [observe_eq, if_pos heval, evaluateCollected_eq]
    unfold outcomeOf
    rw [if_neg]
    simpa using ne_nil_of_mem hmem
  refine ⟨outcomes.length, _, ?_, hmem⟩
  rw [hevents, observeAll_append, hstate]
  simp [observeAll, hobserve]

section Examples

def exampleJson : JsonText := ⟨fun _ => .ok .null, fun _ => []⟩

def exampleGate : ToolGate where
  allow := none
  deny := ["delete_*".toList]
  schemas := ∅
  redactor := ⟨[], .bare⟩
  rejectEntities := []
  maskEntities := []

def exampleEvent (deltas : List Json) (finish : Option Text) : Json :=
  .obj [("choices".toList, .arr [.obj ([("index".toList, .num (.posInt 0)),
    ("delta".toList, .obj [("tool_calls".toList, .arr deltas)])] ++
      finish.toList.map fun reason => ("finish_reason".toList, .str reason))])]

def exampleDelta (index : Nat) (name : Option Text) (arguments : Text) : Json :=
  .obj [("index".toList, .num (.posInt index)), ("function".toList,
    .obj ((name.toList.map fun n => ("name".toList, .str n)) ++
      [("arguments".toList, .str arguments)]))]

theorem denied_call_stops_delete :
    ∃ (n : Nat) (reasons : List Text),
      ((StreamingToolGate.new exampleGate).observeAll exampleJson
        [exampleEvent [exampleDelta 0 (some "delete_all".toList) "[".toList] none,
          exampleEvent [exampleDelta 0 none "]".toList] (some "tool_calls".toList)]).2[n]? =
        some (.deny reasons) ∧ "tool `delete_all` is on the deny list".toList ∈ reasons :=
  denied_call_stops exampleJson exampleGate _ 0 0 _
    ⟨⟨"delete_all".toList, rfl⟩, [_], _, [], rfl, rfl, rfl⟩ rfl

/-- **A denied call that completes**: with the finish reason `stop` the gate never evaluates the
call. -/
theorem denied_call_completes :
    let events := [exampleEvent [exampleDelta 0 (some "delete_all".toList) "[]".toList] none,
      exampleEvent [] (some "stop".toList)]
    exampleGate.denial exampleJson (assembledCall (callDeltas 0 0 events)) =
        some "tool `delete_all` is on the deny list".toList ∧
      ((StreamingToolGate.new exampleGate).observeAll exampleJson events).2 = [.allow, .allow] := by
  exact ⟨rfl, rfl⟩

end Examples

/-! ## Calls of one choice -/

/-- A call as it is streamed: its deltas all carry its index, and one of them its name. -/
structure StreamedCall where
  index : Nat
  name : Text
  deltas : List Json
  index_eq : ∀ delta ∈ deltas, deltaIndex delta = index
  name_once : deltas.filterMap deltaName = [name]

/-- The deltas of the stream, in their order, are those of the calls: the ones with the index of a
call are the deltas of this call in their own order. -/
def Interleaves (calls : List StreamedCall) (deltas : List Json) : Prop :=
  (∀ call ∈ calls, (deltas.filter fun d => deltaIndex d = call.index) = call.deltas) ∧
    ∀ d ∈ deltas, ∃ call ∈ calls, deltaIndex d = call.index

def byIndex (calls : List StreamedCall) : List StreamedCall :=
  calls.insertionSort fun c c' => c.index ≤ c'.index

theorem sorted_keys_eq {calls : List StreamedCall} (hdistinct : (calls.map (·.index)).Nodup)
    (h : Interleaves calls deltas) :
    (accumulate deltaIndex mergeDelta {} ∅ deltas).keys.insertionSort (· ≤ ·) =
      (byIndex calls).map (·.index) := by
  have hperm : (accumulate deltaIndex mergeDelta {} ∅ deltas).keys.Perm (calls.map (·.index)) := by
    rw [perm_ext_iff_of_nodup (AList.keys_nodup _) hdistinct]
    intro i
    rw [← AList.mem_keys, mem_accumulate_empty, mem_map]
    constructor
    · intro hi
      obtain ⟨d, hd, rfl⟩ := hi
      obtain ⟨call, hcall, heq⟩ := h.2 d hd
      exact ⟨call, hcall, heq.symm⟩
    · intro hi
      obtain ⟨call, hcall, rfl⟩ := hi
      obtain ⟨d, hd⟩ := exists_mem_of_ne_nil _ (ne_nil_of_name call.name_once)
      rw [← h.1 call hcall] at hd
      exact ⟨d, (mem_filter.1 hd).1, by simpa using (mem_filter.1 hd).2⟩
  unfold byIndex
  rw [map_insertionSort (s := (· ≤ ·)) _ _ _ (fun _ _ _ _ => Iff.rfl)]
  apply List.Perm.eq_of_pairwise' (r := (· ≤ ·))
  · exact pairwise_insertionSort _ _
  · exact pairwise_insertionSort _ _
  · exact (perm_insertionSort _ _).trans (hperm.trans (perm_insertionSort _ _).symm)

/-- The reasons of a gate that has collected the deltas of the calls are the denials of the
calls. -/
theorem reasons_eq {s : StreamingToolGate} {calls : List StreamedCall}
    (hs : s.partials = accumulate deltaIndex mergeDelta {} ∅ deltas)
    (hdistinct : (calls.map (·.index)).Nodup) (h : Interleaves calls deltas) :
    s.reasons J = (byIndex calls).filterMap fun call =>
      s.gate.denial J (assembledCall call.deltas) := by
  unfold StreamingToolGate.reasons
  rw [hs, sorted_keys_eq hdistinct h, filterMap_map]
  apply filterMap_congr
  intro call hcall
  have hmem : call ∈ calls := (mem_insertionSort _).1 hcall
  have hlookup : (accumulate deltaIndex mergeDelta {} ∅ deltas).lookup call.index =
      some (call.deltas.foldl mergeDelta {}) :=
    lookup_accumulate_empty (h.1 call hmem) (ne_nil_of_name call.name_once)
  simp only [Function.comp_apply]
  rw [hlookup, Option.getD_some, intoOpenaiValue_foldl call.name_once, Option.bind_some]

theorem visitedDeltas_single {choices : List Json} (h : choices.length = 1) :
    visitedDeltas choices = choices.flatMap choiceDeltas := by
  obtain ⟨choice, rfl⟩ := length_eq_one_iff.1 h
  simp [visitedDeltas]

theorem observeAll_open {events : List Json}
    (hsingle : ∀ event ∈ events, (eventChoices event).length = 1)
    (hopen : ∀ event ∈ events, evaluates event = false) (s : StreamingToolGate)
    (pending : List Json) :
    pendingDeltas pending events =
        pending ++ events.flatMap (fun event => (eventChoices event).flatMap choiceDeltas) ∧
      ∀ outcome ∈ (s.observeAll J events).2, outcome = .allow := by
  induction events generalizing s pending with
  | nil => simp [pendingDeltas, observeAll]
  | cons event events ih =>
    have heval : evaluates event = false := hopen event mem_cons_self
    have hrest := ih (forall_mem_cons.1 hsingle).2
      (forall_mem_cons.1 hopen).2 (s.observe J event).1
      (pending ++ visitedDeltas (eventChoices event))
    constructor
    · rw [pendingDeltas, heval, if_neg Bool.false_ne_true, hrest.1,
        visitedDeltas_single (hsingle event mem_cons_self)]
      simp
    · intro outcome houtcome
      simp only [observeAll, mem_cons] at houtcome
      rcases houtcome with rfl | houtcome
      · rw [observe_eq, heval]
        rfl
      · exact hrest.2 outcome houtcome

def exampleCalls : List StreamedCall :=
  [{ index := 1, name := "delete_all".toList,
     deltas := [exampleDelta 1 (some "delete_all".toList) [], exampleDelta 1 none "[]".toList],
     index_eq := by decide, name_once := rfl },
    { index := 0, name := "search".toList,
      deltas := [exampleDelta 0 (some "search".toList) "[".toList, exampleDelta 0 none "]".toList],
      index_eq := by decide, name_once := rfl }]

end Nanoguard.Guard

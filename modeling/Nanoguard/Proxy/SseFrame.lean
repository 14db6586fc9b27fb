import Mathlib.Algebra.Order.BigOperators.Group.List
import Mathlib.Algebra.Order.Group.Nat
import Nanoguard.Lib.JsonCodec
import Nanoguard.Proxy.SsePayloads

/-!
# What the filter changes

The contents of a payload are the strings `choices[].delta.content`. If none of them changes, the event
is emitted as it is, with a blank line of two line feeds. Otherwise each data line is printed anew,
with the new contents. An event whose text has the end marker anywhere in it is not looked at.
-/

namespace Nanoguard.Proxy

open List

open Guard (JsonText)

/-! ## The contents of a payload -/

def deltaContent (choice : Json) : Option Text :=
  ((choice.get "delta".toList).bind (·.get "content".toList)).bind Json.asStr

/-- The text content of a choice, with the index of the choice. -/
def choiceDelta (choice : Json) : Option (Option Json × Text) :=
  (deltaContent choice).map fun text => (choice.get "index".toList, text)

def choiceDeltas (val : Json) : List (Option Json × Text) :=
  (((val.get "choices".toList).bind Json.asArray).getD []).filterMap choiceDelta

/-- Two values that may differ if both are strings. -/
def BothStr (j j' : Json) : Prop := j = j' ∨ ∃ t t', j = .str t ∧ j' = .str t'

/-- The values differ in strings `choices[].delta.content` only. -/
def SameButContents (val val' : Json) : Prop :=
  Json.AtField "choices".toList (Json.AtItems (Json.AtField "delta".toList
    (Json.AtField "content".toList BothStr))) val val'

section Apply

variable {σ ι : Type} (transform : σ → Text → σ × Text)

/-- The transform on texts with labels, in order. -/
def applyAll (s : σ) : List (ι × Text) → σ × List (ι × Text)
  | [] => (s, [])
  | (i, text) :: rest =>
    let (s, out) := transform s text
    let (s, outs) := applyAll s rest
    (s, (i, out) :: outs)

/-- A change of texts by the transform; the flag of the state records it. -/
structure Follows (st : σ × Bool) (before : List (ι × Text)) (st' : σ × Bool)
    (after : List (ι × Text)) : Prop where
  applied : applyAll transform st.1 before = (st'.1, after)
  flag : st'.2 = true ↔ st.2 = true ∨ after ≠ before

variable {transform}

theorem applyAll_append (s : σ) (xs ys : List (ι × Text)) :
    applyAll transform s (xs ++ ys) =
      let q := applyAll transform s xs
      let q' := applyAll transform q.1 ys
      (q'.1, q.2 ++ q'.2) := by
  induction xs generalizing s with
  | nil => rfl
  | cons x xs ih =>
    rw [cons_append, applyAll]
    simp only [ih]
    rfl

theorem length_applyAll (s : σ) (xs : List (ι × Text)) :
    (applyAll transform s xs).2.length = xs.length := by
  induction xs generalizing s with
  | nil => rfl
  | cons x xs ih =>
    rw [applyAll]
    simp only [length_cons, ih]

theorem applyAll_logCalls (st : σ × List Text) (xs : List (ι × Text)) :
    (applyAll (logCalls transform) st xs).1.2 = st.2 ++ xs.map Prod.snd := by
  induction xs generalizing st with
  | nil => simp [applyAll]
  | cons x xs ih =>
    rw [applyAll]
    simp only [ih]
    simp [logCalls]

namespace Follows

variable {st st₁ st₂ : σ × Bool} {xs xs' ys ys' : List (ι × Text)}

theorem nil (st : σ × Bool) : Follows transform st ([] : List (ι × Text)) st [] :=
  ⟨rfl, by simp⟩

theorem append (h : Follows transform st xs st₁ xs') (h' : Follows transform st₁ ys st₂ ys') :
    Follows transform st (xs ++ ys) st₂ (xs' ++ ys') where
  applied := by
    rw [applyAll_append, h.applied]
    dsimp only
    rw [h'.applied]
  flag := by
    have hlen : xs'.length = xs.length := by
      rw [← length_applyAll st.1 xs, h.applied]
    have happ : xs' ++ ys' = xs ++ ys ↔ xs' = xs ∧ ys' = ys :=
      ⟨fun h => append_inj h hlen, fun h => by rw [h.1, h.2]⟩
    rw [h'.flag, h.flag]
    tauto

end Follows

end Apply

section Payload

variable {σ : Type} {transform : σ → Text → σ × Text}

def filterChoice (transform : σ → Text → σ × Text) (st : σ × Bool) (choice : Json) :
    (σ × Bool) × Json :=
  choice.update "delta".toList (fun st delta =>
    delta.update "content".toList (filterContent transform) st) st

theorem filterContent_bothStr (st : σ × Bool) (content : Json) :
    BothStr content (filterContent transform st content).2 := by
  unfold filterContent
  cases content with
  | str text =>
    dsimp only
    split
    · exact .inr ⟨_, _, rfl, rfl⟩
    · exact .inl rfl
  | _ => exact .inl rfl

theorem filterContent_follows (st : σ × Bool) (content : Json) (index : Option Json) :
    Follows transform st (content.asStr.map fun text => (index, text)).toList
      (filterContent transform st content).1
      ((filterContent transform st content).2.asStr.map fun text => (index, text)).toList := by
  cases content with
  | str text =>
    unfold filterContent
    dsimp only [Json.asStr]
    by_cases hchange : (transform st.1 text).2 = text
    · rw [if_neg (not_not.2 hchange)]
      refine ⟨?_, by simp⟩
      simp only [applyAll, Option.map_some, Option.toList_some, hchange]
    · rw [if_pos hchange]
      refine ⟨rfl, ?_⟩
      simpa [Json.asStr] using Or.inr hchange
  | _ => exact .nil st

theorem choiceDelta_of_get {choice delta content : Json}
    (hdelta : choice.get "delta".toList = some delta)
    (hcontent : delta.get "content".toList = some content) :
    choiceDelta choice = content.asStr.map fun text => (choice.get "index".toList, text) := by
  unfold choiceDelta deltaContent
  rw [hdelta, Option.bind_some, hcontent, Option.bind_some]

theorem filterChoice_follows (st : σ × Bool) (choice : Json) :
    Follows transform st (choiceDelta choice).toList (filterChoice transform st choice).1
      (choiceDelta (filterChoice transform st choice).2).toList := by
  unfold filterChoice
  cases hdelta : choice.get "delta".toList with
  | none =>
    rw [Json.update_of_none st hdelta]
    simp only [choiceDelta, deltaContent, hdelta]
    exact .nil st
  | some delta =>
    obtain ⟨hst, hself, hother⟩ := Json.update_of_some (f := fun st delta =>
      delta.update "content".toList (filterContent transform) st) st hdelta
    have hindex := hother "index".toList (by decide)
    cases hcontent : delta.get "content".toList with
    | none =>
      rw [Json.update_of_none st hcontent] at hst hself
      rw [hst]
      simp only [choiceDelta, deltaContent, hdelta, hself, hcontent, Option.bind_some]
      exact .nil st
    | some content =>
      obtain ⟨hst', hself', -⟩ := Json.update_of_some (f := filterContent transform) st hcontent
      rw [choiceDelta_of_get hdelta hcontent, choiceDelta_of_get hself hself', hindex, hst, hst']
      exact filterContent_follows st content _

theorem updateItems_follows (st : σ × Bool) (items : List Json) :
    Follows transform st (items.filterMap choiceDelta)
      (Json.updateItems (filterChoice transform) st items).1
      ((Json.updateItems (filterChoice transform) st items).2.filterMap choiceDelta) := by
  induction items generalizing st with
  | nil => exact .nil st
  | cons choice items ih =>
    have hcons : ∀ (j : Json) (js : List Json),
        (j :: js).filterMap choiceDelta = (choiceDelta j).toList ++ js.filterMap choiceDelta := by
      intro j js
      cases h : choiceDelta j <;> simp [h]
    rw [Json.updateItems]
    simp only [hcons]
    exact (filterChoice_follows st choice).append (ih _)

variable (transform) in
theorem filterDeltaContent_follows (s : σ) (val : Json) :
    Follows transform (s, false) (choiceDeltas val) (filterDeltaContent transform s val).1
      (choiceDeltas (filterDeltaContent transform s val).2) := by
  unfold filterDeltaContent
  cases hchoices : val.get "choices".toList with
  | none =>
    rw [Json.update_of_none _ hchoices]
    simp only [choiceDeltas, hchoices, Option.bind_none, Option.getD_none, filterMap_nil]
    exact .nil _
  | some choices =>
    generalize hf : (fun (st : σ × Bool) (choices : Json) => _) = f
    obtain ⟨hst, hself, -⟩ := Json.update_of_some (f := f) (s, false) hchoices
    simp only [choiceDeltas, hchoices, hself, hst, Option.bind_some]
    subst hf
    cases choices with
    | arr items => exact updateItems_follows (s, false) items
    | _ => exact .nil _

variable (transform) in
theorem filterDeltaContent_same (s : σ) (val : Json) :
    SameButContents val (filterDeltaContent transform s val).2 := by
  apply Json.atField_update
  intro st choices
  cases choices with
  | arr items =>
    refine .inr ⟨items, _, rfl, rfl, Json.atItems_updateItems ?_ st items⟩
    intro st choice
    exact Json.atField_update (fun st delta =>
      Json.atField_update (fun st content => filterContent_bothStr st content) delta st) choice st
  | _ => exact .inl rfl

theorem SameButContents.valid {val val' : Json} (h : SameButContents val val')
    (hvalid : val.valid = true) : val'.valid = true := by
  have hcontent : ∀ a b : Json, BothStr a b → a.valid = true → b.valid = true := by
    rintro a b (rfl | ⟨t, t', rfl, rfl⟩) ha
    · exact ha
    · rfl
  refine Json.AtField.valid (fun _ _ h => Json.AtItems.valid (fun _ _ h =>
    Json.AtField.valid (fun _ _ h => Json.AtField.valid hcontent h) h) h) h hvalid

end Payload

/-! ## The filter on an event -/

/-- A parser and a printer of JSON that are inverse on the values of the parser. -/
structure JsonInverse (J : JsonText) : Prop where
  valid : ∀ {t val}, J.fromStr t = .ok val → val.valid = true
  parse_print : ∀ {val : Json}, val.valid = true → J.fromStr (J.toText val) = .ok val

/-- The printer gives a line of its own, which is not the end marker. The parser does not mind a
carriage return at the end. -/
structure JsonLines (J : JsonText) : Prop extends JsonInverse J where
  oneLine : ∀ {val : Json}, val.valid = true → Str.OneLine (J.toText val)
  starts : ∀ {val : Json}, val.valid = true →
    ∃ c t, J.toText val = c :: t ∧ Str.isWhitespace c = false
  done : ∀ val, J.fromStr "[DONE]".toList ≠ .ok val
  trailing : ∀ t, (J.fromStr (t ++ ['\r'])).toOption = (J.fromStr t).toOption

/-- The line end that is kept behind a data line. -/
def lineEnd (line : Text) : Text :=
  if (Str.stripSuffix ['\r'] line).isSome then ['\r'] else []

def lineDeltas (J : JsonText) (line : Text) : List (Option Json × Text) :=
  ((lineValue J line).map choiceDeltas).getD []

def bodyDeltas (J : JsonText) (body : Bytes) : List (Option Json × Text) :=
  (eventValues J body).flatMap choiceDeltas

/-- The event has the end marker somewhere in its text. -/
def mentionsDone (body : Bytes) : Bool :=
  (Utf8.decode body).any fun text => Str.contains text "[DONE]".toList

/-- The contents that the filter looks at. -/
def filteredDeltas (J : JsonText) (body : Bytes) : List (Option Json × Text) :=
  if mentionsDone body then [] else bodyDeltas J body

section Event

variable {σ : Type} (J : JsonText) (transform : σ → Text → σ × Text)

/-- Each data line is printed with the transformed contents in its value, and the other lines are
the same. That the printed value is read back is what `JsonInverse` is assumed for. -/
inductive LinesRewritten : σ → List Text → σ → List Text → Prop
  | nil (s : σ) : LinesRewritten s [] s []
  | other {s s' : σ} {line : Text} {lines lines' : List Text} (hline : lineValue J line = none)
      (h : LinesRewritten s lines s' lines') :
      LinesRewritten s (line :: lines) s' (line :: lines')
  | data {s s₁ s' : σ} {line : Text} {lines lines' : List Text} {val val' : Json}
      (hline : lineValue J line = some val) (hsame : SameButContents val val')
      (hcontents : applyAll transform s (choiceDeltas val) = (s₁, choiceDeltas val'))
      (hparse : JsonInverse J → J.fromStr (J.toText val') = .ok val')
      (h : LinesRewritten s₁ lines s' lines') :
      LinesRewritten s (line :: lines) s'
        (("data: ".toList ++ J.toText val' ++ lineEnd line) :: lines')

/-- What the filter emits for an event. -/
inductive EventFiltered (s : σ) (event : Bytes) (s' : σ) (out : Bytes) : Prop
  | unchanged {body term : Bytes} (hevent : event = body ++ term) (hterm : IsEvent body term)
      (happlied : applyAll transform s (filteredDeltas J body) = (s', filteredDeltas J body))
      (hout : out = body ++ [10, 10])
  | rewritten {body term : Bytes} {text : Text} {lines' : List Text}
      {after : List (Option Json × Text)} (hevent : event = body ++ term) (hterm : IsEvent body term)
      (happlied : applyAll transform s (filteredDeltas J body) = (s', after))
      (hchanged : after ≠ filteredDeltas J body) (hbody : body = Str.bytes text)
      (hlines : LinesRewritten J transform s (Str.splitChar '\n' text) s' lines')
      (hout : out = Str.bytes (Str.join ['\n'] lines') ++ [10, 10])

/-- What the filter emits for events, one by one. -/
inductive EventsFiltered : σ → List Bytes → σ → List Bytes → Prop
  | nil (s : σ) : EventsFiltered s [] s []
  | cons {s s₁ s' : σ} {event out : Bytes} {events outs : List Bytes}
      (hevent : EventFiltered J transform s event s₁ out) (h : EventsFiltered s₁ events s' outs) :
      EventsFiltered s (event :: events) s' (out :: outs)

variable {J transform}

theorem lineValue_eq_some {line : Text} {val : Json} (h : lineValue J line = some val) :
    ∃ payload, J.fromStr payload = .ok val := by
  obtain ⟨payload, -, hparse⟩ := Option.bind_eq_some_iff.1 h
  cases hJ : J.fromStr payload with
  | error e => simp [hJ, Except.toOption] at hparse
  | ok val' =>
    simp only [hJ, Except.toOption, Option.some.injEq] at hparse
    exact ⟨payload, hparse ▸ hJ⟩

variable (transform) in
theorem processLines_spec (st : σ × Bool) (lines : List Text) :
    LinesRewritten J transform st.1 lines (processLines J transform st lines).1.1
        (processLines J transform st lines).2 ∧
      ∃ after, Follows transform st (lines.flatMap (lineDeltas J))
        (processLines J transform st lines).1 after := by
  induction lines generalizing st with
  | nil => exact ⟨.nil _, [], .nil st⟩
  | cons line lines ih =>
    rw [processLines]
    cases hline : lineValue J line with
    | none =>
      obtain ⟨hlines, after, hafter⟩ := ih st
      have hproc : processLine J transform st line = (st, line) := by
        unfold processLine
        rw [hline]
      have hnil : lineDeltas J line = [] := by simp [lineDeltas, hline]
      simp only [hproc, flatMap_cons, hnil, nil_append]
      exact ⟨.other hline hlines, after, hafter⟩
    | some val =>
      have hfollows := filterDeltaContent_follows transform st.1 val
      have hsame := filterDeltaContent_same transform st.1 val
      obtain ⟨payload, hpayload⟩ := lineValue_eq_some hline
      have hdeltas : lineDeltas J line = choiceDeltas val := by simp [lineDeltas, hline]
      generalize hq : filterDeltaContent transform st.1 val = q at hfollows hsame
      obtain ⟨⟨s, changed⟩, val'⟩ := q
      have hproc : processLine J transform st line =
          ((s, st.2 || changed), "data: ".toList ++ J.toText val' ++ lineEnd line) := by
        unfold processLine
        rw [hline]
        dsimp only
        rw [hq]
        rfl
      obtain ⟨hlines, after, hafter⟩ := ih (s, st.2 || changed)
      have hline' : Follows transform st (choiceDeltas val) (s, st.2 || changed)
          (choiceDeltas val') :=
        ⟨hfollows.applied, by simp [hfollows.flag]⟩
      simp only [hproc, flatMap_cons, hdeltas]
      have hparse : JsonInverse J → J.fromStr (J.toText val') = .ok val' :=
        fun hJ => hJ.parse_print (hsame.valid (hJ.valid hpayload))
      exact ⟨.data hline hsame hfollows.applied hparse hlines, _, hline'.append hafter⟩

theorem isInfix_of_linePayload {line payload : Text} (h : linePayload line = some payload) :
    "data:".toList <:+: line := by
  have hstrip : ((Str.stripSuffix ['\r'] line).getD line) <:+: line := by
    unfold Str.stripSuffix
    split
    · exact ( take_prefix _ _).isInfix
    · exact infix_refl _
  by_cases hpre : "data:".toList <+: (Str.stripSuffix ['\r'] line).getD line
  · exact hpre.isInfix.trans hstrip
  have hnone : Str.stripPrefix "data:".toList ((Str.stripSuffix ['\r'] line).getD line) = none :=
    if_neg hpre
  unfold linePayload at h
  dsimp only at h
  rw [hnone] at h
  cases h

theorem textValues_of_not_data {text : Text} (h : ¬ "data:".toList <:+: text) :
    textValues J text = [] := by
  unfold textValues
  rw [filterMap_eq_nil_iff]
  intro line hline
  unfold lineValue
  cases hpayload : linePayload line with
  | none => rfl
  | some payload =>
    exact absurd ((isInfix_of_linePayload hpayload).trans (Str.isInfix_of_mem_splitChar hline)) h

theorem flatMap_lineDeltas (lines : List Text) :
    lines.flatMap (lineDeltas J) = (lines.filterMap (lineValue J)).flatMap choiceDeltas := by
  induction lines with
  | nil => rfl
  | cons line lines ih =>
    rw [flatMap_cons, ih, filterMap_cons]
    unfold lineDeltas
    cases lineValue J line <;> rfl

theorem processEvent_of_done {body : Bytes} (h : mentionsDone body = true) (s : σ) :
    processEvent J transform s body = (s, withTerminator body) := by
  unfold mentionsDone at h
  unfold processEvent
  cases hdecode : Utf8.decode body with
  | none => rfl
  | some text =>
    rw [hdecode, Option.any_some] at h
    exact if_pos (by rw [h, Bool.true_or])

theorem processEvent_filtered (s : σ) {body term : Bytes}
    (hterm : IsEvent body term) :
    EventFiltered J transform s (body ++ term) (processEvent J transform s body).1
      (processEvent J transform s body).2 := by
  have hpass : filteredDeltas J body = [] → processEvent J transform s body =
      (s, withTerminator body) → EventFiltered J transform s (body ++ term)
        (processEvent J transform s body).1 (processEvent J transform s body).2 := by
    intro hnil hproc
    rw [hproc]
    exact .unchanged rfl hterm (by rw [hnil]; rfl) rfl
  cases hdecode : Utf8.decode body with
  | none =>
    apply hpass
    · simp [filteredDeltas, bodyDeltas, eventValues, hdecode]
    · unfold processEvent
      rw [hdecode]
  | some text =>
    have hbody : body = Str.bytes text := (Utf8.decode_eq_some_iff.1 hdecode).symm
    have hvalues : eventValues J body = textValues J text := by rw [hbody, eventValues_bytes]
    by_cases hlook : (Str.contains text "[DONE]".toList ||
        !Str.contains text "data:".toList) = true
    · apply hpass
      · unfold filteredDeltas bodyDeltas
        rw [hvalues]
        rcases Bool.or_eq_true_iff.1 hlook with hdone | hdata
        · exact if_pos (by simp only [mentionsDone, hdecode, Option.any_some, hdone])
        · have hnot : ¬ "data:".toList <:+: text := by
            simpa [Str.contains] using hdata
          rw [textValues_of_not_data hnot, flatMap_nil, ite_self]
      · unfold processEvent
        rw [hdecode]
        exact if_pos hlook
    · obtain ⟨hlines, after, hfollows⟩ :=
        processLines_spec transform (s, false) (Str.splitChar '\n' text)
      have hdone : mentionsDone body = false := by
        rw [Bool.or_eq_true, not_or] at hlook
        simpa [mentionsDone, hdecode] using hlook.1
      have hdeltas : filteredDeltas J body =
          (Str.splitChar '\n' text).flatMap (lineDeltas J) := by
        unfold filteredDeltas bodyDeltas
        rw [hdone, hvalues, flatMap_lineDeltas]
        rfl
      rw [← hdeltas] at hfollows
      generalize hq : processLines J transform (s, false) (Str.splitChar '\n' text) = q
        at hlines hfollows
      obtain ⟨⟨s', changed⟩, lines'⟩ := q
      have hproc : processEvent J transform s body =
          (s', withTerminator (if changed then Str.bytes (Str.join ['\n'] lines') else body)) := by
        unfold processEvent
        rw [hdecode]
        dsimp only
        rw [if_neg hlook, hq]
      rw [hproc]
      by_cases hchanged : changed = true
      · rw [if_pos hchanged]
        have hne : after ≠ filteredDeltas J body := by
          have := hfollows.flag.1 hchanged
          simpa using this
        exact .rewritten rfl hterm hfollows.applied hne hbody hlines rfl
      rw [if_neg hchanged]
      have heq : after = filteredDeltas J body := by
        by_contra hne
        exact hchanged (hfollows.flag.2 (.inr hne))
      exact .unchanged rfl hterm (heq ▸ hfollows.applied) rfl

theorem filterEvents_filtered (s : σ) (stream : Bytes) :
    EventsFiltered J transform s (completeEvents stream)
      (filterEvents J transform s (eventBodies stream)).1
      (filterEvents J transform s (eventBodies stream)).2 := by
  induction stream using event_induction generalizing s with
  | hnone buf h =>
    rw [eventBodies_none h]
    have hnil : completeEvents buf = [] := by
      unfold completeEvents
      rw [splitEvents_none h]
    rw [hnil]
    exact .nil s
  | hevent body term rest h ih =>
    rw [completeEvents_event h, eventBodies_event h, filterEvents]
    exact .cons (processEvent_filtered s h) (ih _)

/-- **The filter changes nothing but contents**: the pushes emit the events of the stream in order,
each of them filtered, and the flush emits the bytes behind the last one. -/
theorem SseFilter.run_frame (J : JsonText) (transform : σ → Text → σ × Text) (s : σ)
    (chunks : List Bytes) :
    let q := (new s).pushAll J transform chunks
    (∃ outs, q.2 = outs.flatten ∧
        EventsFiltered J transform s (completeEvents chunks.flatten) q.1.state outs) ∧
      q.1.flush.2 = unterminated chunks.flatten := by
  rw [pushAll_new]
  exact ⟨⟨_, rfl, filterEvents_filtered s chunks.flatten⟩, rfl⟩

/-! ## Which contents the transform sees -/

theorem EventsFiltered.calls {st st' : σ × List Text} {events outs : List Bytes}
    (h : EventsFiltered J (logCalls transform) st events st' outs) :
    st'.2 = st.2 ++
      (events.map eventBody).flatMap fun body => (filteredDeltas J body).map Prod.snd := by
  induction h with
  | nil s => simp
  | @cons s s₁ s' event out events outs hevent _ ih =>
    have hstep : s₁.2 = s.2 ++ (filteredDeltas J (eventBody event)).map Prod.snd := by
      cases hevent with
      | unchanged hevent hterm happlied _ =>
        rw [hevent, hterm.eventBody, ← applyAll_logCalls, happlied]
      | rewritten hevent hterm happlied _ _ _ _ =>
        rw [hevent, hterm.eventBody, ← applyAll_logCalls, happlied]
    rw [ih, hstep, map_cons, flatMap_cons, append_assoc]

theorem SseFilter.calls_eq (s : σ) (chunks : List Bytes) :
    calls J transform s chunks =
      (eventBodies chunks.flatten).flatMap fun body => (filteredDeltas J body).map Prod.snd := by
  rw [calls, run_new]
  exact (filterEvents_filtered (s, []) chunks.flatten).calls

theorem length_eq_of_flatMap {α β : Type} {f g : α → List β}
    (hle : ∀ x, (f x).length ≤ (g x).length) {l : List α} (h : l.flatMap f = l.flatMap g) :
    ∀ x ∈ l, (f x).length = (g x).length := by
  intro x hx
  by_contra hne
  have hlt := sum_lt_sum (fun x => (f x).length) (fun x => (g x).length) (fun x _ => hle x)
    ⟨x, hx, Nat.lt_of_le_of_ne (hle x) hne⟩
  rw [← length_flatMap, ← length_flatMap, h] at hlt
  exact Nat.lt_irrefl _ hlt

/-- **The transform sees all contents of a stream exactly when no event that mentions the end marker
has one.** -/
theorem SseFilter.calls_iff (J : JsonText) (transform : σ → Text → σ × Text) (s : σ)
    (chunks : List Bytes) :
    calls J transform s chunks =
        (eventBodies chunks.flatten).flatMap (fun body => (bodyDeltas J body).map Prod.snd) ↔
      ∀ body ∈ eventBodies chunks.flatten, mentionsDone body = true → bodyDeltas J body = [] := by
  have hfiltered : ∀ {body}, mentionsDone body = true → filteredDeltas J body = [] :=
    fun h => if_pos h
  rw [calls_eq]
  constructor
  · intro h body hbody hdone
    have hlen := length_eq_of_flatMap (fun body => ?_) h body hbody
    · rw [hfiltered hdone, length_map, length_map] at hlen
      exact length_eq_zero_iff.1 hlen.symm
    unfold filteredDeltas
    split
    · exact Nat.zero_le _
    · exact le_rfl
  · intro h
    refine flatMap_congr fun body hbody => ?_
    by_cases hdone : mentionsDone body = true
    · rw [hfiltered hdone, h body hbody hdone]
    · rw [filteredDeltas, if_neg hdone]

end Event

section Printed

variable {J : JsonText}

theorem stripSuffix_lineEnd {line ended : Text} (hline : '\r' ∉ line)
    (hended : ended = [] ∨ ended = ['\r']) :
    (Str.stripSuffix ['\r'] (line ++ ended)).getD (line ++ ended) = line := by
  unfold Str.stripSuffix
  rcases hended with rfl | rfl
  · have hnot : ¬ ['\r'] <:+ line ++ [] := by
      rw [append_nil]
      exact fun h => hline (h.subset mem_cons_self)
    rw [if_neg hnot, Option.getD_none, append_nil]
  · simp

/-- **A printed payload is read from its line.** -/
theorem lineValue_printed (hJ : JsonLines J) {val : Json} (hval : val.valid = true) {ended : Text}
    (hended : ended = [] ∨ ended = ['\r']) :
    lineValue J ("data: ".toList ++ J.toText val ++ ended) = some val := by
  obtain ⟨c, t, hstart, hspace⟩ := hJ.starts hval
  have hline : '\r' ∉ "data: ".toList ++ J.toText val :=
    (Str.oneLine_append.2 ⟨by decide, hJ.oneLine hval⟩).2
  have hparse := hJ.parse_print hval
  have hprefix : Str.stripPrefix "data:".toList ("data: ".toList ++ J.toText val) =
      some (' ' :: J.toText val) := rfl
  have htrim : Str.trimStart (' ' :: J.toText val) = J.toText val := by
    rw [hstart]
    have hblank : Str.isWhitespace ' ' = true := rfl
    simp [Str.trimStart, hblank, hspace]
  have hne : ¬ (J.toText val = "[DONE]".toList ∨ (J.toText val).isEmpty = true) := by
    rintro (hdone | hempty)
    · exact hJ.done val (hdone ▸ hparse)
    · rw [hstart] at hempty
      cases hempty
  have hpayload : linePayload ("data: ".toList ++ J.toText val ++ ended) = some (J.toText val) := by
    unfold linePayload
    dsimp only
    rw [stripSuffix_lineEnd hline hended, hprefix]
    dsimp only
    rw [htrim, if_neg hne]
  unfold lineValue
  rw [hpayload, Option.bind_some, hparse]
  rfl

theorem textValues_printed (hJ : JsonLines J) {val : Json} (hval : val.valid = true) :
    textValues J ("data: ".toList ++ J.toText val) = [val] := by
  have hline : '\n' ∉ "data: ".toList ++ J.toText val :=
    (Str.oneLine_append.2 ⟨by decide, hJ.oneLine hval⟩).1
  have hvalue := lineValue_printed hJ hval (.inl rfl)
  rw [append_nil] at hvalue
  rw [textValues_line hline, hvalue]
  rfl

theorem bodyDeltas_printed (hJ : JsonLines J) {val : Json} (hval : val.valid = true) :
    bodyDeltas J (Str.bytes ("data: ".toList ++ J.toText val)) = choiceDeltas val := by
  unfold bodyDeltas
  rw [eventValues_bytes, textValues_printed hJ hval, flatMap_singleton]

end Printed

section Examples

def compactJson : JsonText := ⟨fun t => Json.parse (t.rdropWhile (· = '\r')), Json.print⟩

theorem rdropWhile_print (val : Json) : (Json.print val).rdropWhile (· = '\r') = Json.print val := by
  rw [rdropWhile_eq_self_iff]
  intro hne
  have hmem := getLast_mem hne
  simp only [decide_eq_true_eq]
  intro heq
  exact (Json.oneLine_print val).2 (heq ▸ hmem)

theorem compactJson_lines : JsonLines compactJson where
  valid h := Json.valid_of_parse h
  parse_print h := by
    have := Json.parse_print h
    rwa [← rdropWhile_print] at this
  oneLine _ := Json.oneLine_print _
  starts _ := by
    obtain ⟨c, t, h, -, hspace⟩ := Json.print_cons _
    exact ⟨c, t, h, hspace⟩
  done val h := by cases h
  trailing t := by
    unfold compactJson
    dsimp only
    rw [rdropWhile_concat_pos _ _ _ (by simp)]

def contentPayload (index : Nat) (content : Text) : Json :=
  .obj [("choices".toList, .arr [.obj [("index".toList, .num (.posInt index)),
    ("delta".toList, .obj [("content".toList, .str content)])]])]

def contentEvent (index : Nat) (content : Text) : Bytes :=
  dataEvent (compactJson.toText (contentPayload index content))

def maskSsn (_ : Unit) (text : Text) : Unit × Text := ((), Str.replace text "ssn".toList "***".toList)

/-- The line of an event in one chunk and its blank line in another. -/
theorem run_of_flatten_eq_two :
    let event := contentEvent 0 "my ssn".toList
    let cut := [event.take 9, event.drop 9]
    (SseFilter.new ()).run compactJson maskSsn [event] =
        (SseFilter.new ()).run compactJson maskSsn cut ∧
      SseFilter.calls compactJson maskSsn () [event] = SseFilter.calls compactJson maskSsn () cut :=
  SseFilter.run_of_flatten_eq compactJson maskSsn () _ _ (by simp)

theorem eventBodies_contentEvent {index : Nat} {content : Text}
    (h : (contentPayload index content).valid = true) :
    eventBodies (contentEvent index content) =
        [Str.bytes ("data: ".toList ++ compactJson.toText (contentPayload index content))] ∧
      unterminated (contentEvent index content) = [] := by
  have hbodies := eventBodies_dataEvents [compactJson.toText (contentPayload index content)]
    (forall_mem_singleton.2 (compactJson_lines.oneLine h))
  rw [flatMap_singleton] at hbodies
  exact hbodies

/-- **A content that mentions the end marker is passed through unfiltered.** -/
theorem marker_in_content_escapes :
    let content := "my ssn [DONE]".toList
    let event := contentEvent 0 content
    (eventBodies event).flatMap (fun body => (bodyDeltas compactJson body).map Prod.snd) =
        [content] ∧
      SseFilter.calls compactJson maskSsn () [event] = [] ∧
      ((SseFilter.new ()).run compactJson maskSsn [event]).2 = event := by
  have hvalid : (contentPayload 0 "my ssn [DONE]".toList).valid = true := by decide
  obtain ⟨hbodies, hrest⟩ := eventBodies_contentEvent hvalid
  have hdeltas := bodyDeltas_printed compactJson_lines hvalid
  have hdone : mentionsDone (Str.bytes ("data: ".toList ++
      compactJson.toText (contentPayload 0 "my ssn [DONE]".toList))) = true := by
    unfold mentionsDone
    rw [Utf8.decode_bytes]
    decide +kernel
  refine ⟨?_, ?_, ?_⟩
  · rw [hbodies, flatMap_singleton, hdeltas]
    decide +kernel
  · rw [SseFilter.calls_eq, flatten_singleton, hbodies, flatMap_singleton, filteredDeltas,
      if_pos hdone]
    rfl
  · rw [SseFilter.run_new, flatten_singleton, hbodies, hrest, filterEvents,
      processEvent_of_done hdone, contentEvent, dataEvent_eq]
    simp [filterEvents, withTerminator]

end Examples

end Nanoguard.Proxy

import Nanoguard.Proxy.SseFrame
import Nanoguard.Proxy.StreamLoop

/-!
# The contents that a client reads

A client reads the contents from the data lines of the bytes it gets, like the filter reads them
from the lines of an event: those of the upstream, each put through the transform in order. This
needs a stream of valid UTF-8 with no content behind its last blank line, and no content in an event
that mentions the end marker.
-/

namespace Nanoguard.Proxy

open List

open Guard (JsonText StreamingToolGate ToolGate)

/-- A stream all of whose contents are in events that the filter looks at. -/
structure AnswerStream (J : JsonText) (stream : Bytes) : Prop where
  utf8 : ∃ text, stream = Str.bytes text
  complete : bodyDeltas J (unterminated stream) = []
  unmarked : ∀ body ∈ eventBodies stream, mentionsDone body = true → bodyDeltas J body = []

section Reading

variable {J : JsonText}

theorem lineValue_eq (line : Text) :
    lineValue J line =
      (Str.stripPrefix "data:".toList ((Str.stripSuffix ['\r'] line).getD line)).bind fun p =>
        if Str.trimStart p = "[DONE]".toList ∨ (Str.trimStart p).isEmpty then none
        else (J.fromStr (Str.trimStart p)).toOption := by
  unfold lineValue linePayload
  dsimp only
  cases Str.stripPrefix "data:".toList ((Str.stripSuffix ['\r'] line).getD line) with
  | none => rfl
  | some p =>
    dsimp only [Option.bind_some]
    split <;> rfl

theorem stripPrefix_data_cr (line : Text) :
    Str.stripPrefix "data:".toList (line ++ ['\r']) =
      (Str.stripPrefix "data:".toList line).map (· ++ ['\r']) := by
  unfold Str.stripPrefix
  by_cases h : "data:".toList <+: line
  · obtain ⟨p, rfl⟩ := h
    rfl
  have h' : ¬ "data:".toList <+: line ++ ['\r'] := by
    intro hpre
    rcases prefix_concat_iff.1 hpre with heq | hpre
    · have := congrArg List.getLast? heq
      rw [getLast?_concat] at this
      cases this
    · exact h hpre
  rw [if_neg h, if_neg h']
  rfl

theorem trimStart_cr (p : Text) :
    Str.trimStart (p ++ ['\r']) = if Str.trimStart p = [] then [] else Str.trimStart p ++ ['\r'] := by
  unfold Str.trimStart
  simp only [dropWhile_append, List.isEmpty_iff]
  rfl

theorem stripSuffix_cr (l : Text) : (Str.stripSuffix ['\r'] (l ++ ['\r'])).getD (l ++ ['\r']) = l := by
  unfold Str.stripSuffix
  simp

theorem lineValue_cr (hJ : JsonLines J) (line : Text) :
    lineValue J (line ++ ['\r']) = lineValue J line := by
  rw [lineValue_eq, lineValue_eq, stripSuffix_cr]
  by_cases hcr : ['\r'] <:+ line
  · obtain ⟨l, rfl⟩ := hcr
    rw [stripSuffix_cr, stripPrefix_data_cr]
    cases Str.stripPrefix "data:".toList l with
    | none => rfl
    | some p =>
      dsimp only [Option.map_some, Option.bind_some]
      rw [trimStart_cr]
      by_cases hnil : Str.trimStart p = []
      · rw [if_pos hnil, hnil]
      have hdone : Str.trimStart p ++ ['\r'] ≠ "[DONE]".toList := by
        intro heq
        have := congrArg List.getLast? heq
        rw [getLast?_concat] at this
        cases this
      have hempty : ¬ (Str.trimStart p ++ ['\r']).isEmpty = true := by simp
      rw [if_neg hnil, if_neg (not_or.2 ⟨hdone, hempty⟩), hJ.trailing]
      by_cases hmarker : Str.trimStart p = "[DONE]".toList
      · rw [hmarker]
        cases hparse : J.fromStr "[DONE]".toList with
        | error e => rfl
        | ok val => exact absurd hparse (hJ.done val)
      · rw [if_neg (not_or.2 ⟨hmarker, mt List.isEmpty_iff.1 hnil⟩)]
  · have hl : (Str.stripSuffix ['\r'] line).getD line = line := by
      unfold Str.stripSuffix
      rw [if_neg hcr]
      rfl
    rw [hl]

theorem textValues_cr (hJ : JsonLines J) (text : Text) :
    textValues J (text ++ ['\r']) = textValues J text := by
  -- along the lines of the text
  induction hn : text.length using Nat.strong_induction_on generalizing text with
  | h n ih =>
    subst hn
    by_cases hmem : '\n' ∈ text
    · obtain ⟨a, b, rfl⟩ := append_of_mem hmem
      have hlen : b.length < (a ++ '\n' :: b).length := by
        rw [length_append, length_cons]
        omega
      rw [append_assoc, cons_append, textValues_cons, textValues_cons, ih _ hlen b rfl]
    · have hmem' : '\n' ∉ text ++ ['\r'] := by simpa using hmem
      rw [textValues_line hmem, textValues_line hmem', lineValue_cr hJ]

theorem bodyDeltas_terminated (hJ : JsonLines J) {term : Bytes} (hterm : IsTerminator term)
    (text : Text) : bodyDeltas J (Str.bytes text ++ term) = bodyDeltas J (Str.bytes text) := by
  have hnil : textValues J [] = [] := rfl
  unfold bodyDeltas
  rcases hterm with rfl | rfl
  · have hbytes : Str.bytes text ++ [10, 10] = Str.bytes (text ++ '\n' :: ([] ++ '\n' :: [])) := by
      rw [Utf8.bytes_append]
      rfl
    rw [hbytes, eventValues_bytes, eventValues_bytes, textValues_cons, textValues_cons, hnil,
      append_nil, append_nil]
  have hbytes : Str.bytes text ++ [13, 10, 13, 10] =
      Str.bytes (text ++ ['\r'] ++ '\n' :: ([] ++ ['\r'] ++ '\n' :: [])) := by
    rw [Utf8.bytes_append, Utf8.bytes_append, append_assoc]
    rfl
  rw [hbytes, eventValues_bytes, eventValues_bytes, textValues_cons, textValues_cons,
    textValues_cr hJ, textValues_cr hJ, hnil, append_nil, append_nil]

theorem bodyDeltas_flatten {chunks : List Bytes} {text : Text} (hcut : CutAtLineEnds chunks)
    (h : chunks.flatten = Str.bytes text) :
    bodyDeltas J chunks.flatten = chunks.flatMap (bodyDeltas J) := by
  have hvalues := flatMap_eventValues (J := J) hcut (Utf8.decode_eq_some_iff.2 h.symm)
  unfold bodyDeltas
  rw [← flatMap_assoc, hvalues, h, eventValues_bytes]

theorem utf8_event {body term rest : Bytes} {text : Text} (hevent : IsEvent body term)
    (h : body ++ (term ++ rest) = Str.bytes text) :
    (∃ t, body = Str.bytes t) ∧ ∃ t, rest = Str.bytes t := by
  refine ⟨?_, ?_⟩
  · obtain ⟨b, term', rfl, hb⟩ : ∃ b term', term = b :: term' ∧ b.toNat < 128 := by
      rcases hevent.terminator with rfl | rfl
      · exact ⟨10, [10], rfl, by decide⟩
      · exact ⟨13, [10, 13, 10], rfl, by decide⟩
    obtain ⟨t₁, -, -, -, h₁, -, -⟩ := Utf8.bytes_split hb h.symm
    exact ⟨t₁, h₁.symm⟩
  · rw [← append_assoc] at h
    obtain ⟨-, t₂, -, -, -, hrest⟩ :=
      decode_append hevent.atLineEnd (Utf8.decode_eq_some_iff.2 h.symm)
    exact ⟨t₂, hrest⟩

theorem utf8_events {stream : Bytes} {text : Text} (h : stream = Str.bytes text) :
    (∀ body ∈ eventBodies stream, ∃ t, body = Str.bytes t) ∧
      ∃ t, unterminated stream = Str.bytes t := by
  induction stream using event_induction generalizing text with
  | hnone buf hnone =>
    rw [eventBodies_none hnone, unterminated_none hnone]
    exact ⟨nofun, text, h⟩
  | hevent body term rest hevent ih =>
    obtain ⟨hbody, t, hrest⟩ := utf8_event hevent h
    obtain ⟨hbodies, htail⟩ := ih hrest
    rw [eventBodies_event hevent, unterminated_event hevent]
    exact ⟨forall_mem_cons.2 ⟨hbody, hbodies⟩, htail⟩

theorem bodyDeltas_stream (hJ : JsonLines J) {stream : Bytes} {text : Text}
    (h : stream = Str.bytes text) :
    bodyDeltas J stream =
      (eventBodies stream).flatMap (bodyDeltas J) ++ bodyDeltas J (unterminated stream) := by
  have hread := bodyDeltas_flatten (J := J) (cutAtLineEnds_events stream)
    ((flatten_events stream).trans h)
  rw [flatten_events, flatMap_append, flatMap_singleton] at hread
  rw [hread]
  congr 1
  clear hread
  induction stream using event_induction generalizing text with
  | hnone buf hnone => simp [eventBodies_none hnone, completeEvents, splitEvents_none hnone]
  | hevent body term rest hevent ih =>
    obtain ⟨⟨t, hbody⟩, _, hrest⟩ := utf8_event hevent h
    rw [completeEvents_event hevent, eventBodies_event hevent, flatMap_cons, flatMap_cons,
      ih hrest, hbody, bodyDeltas_terminated hJ hevent.terminator]

end Reading

section Filtered

variable {σ : Type} {J : JsonText} {transform : σ → Text → σ × Text} {s s' : σ}

theorem LinesRewritten.read (hJ : JsonLines J) {lines lines' : List Text}
    (h : LinesRewritten J transform s lines s' lines') :
    applyAll transform s (lines.flatMap (lineDeltas J)) = (s', lines'.flatMap (lineDeltas J)) := by
  induction h with
  | nil s => rfl
  | @other s s' line lines lines' hline _ ih =>
    have hnil : lineDeltas J line = [] := by
      unfold lineDeltas
      rw [hline]
      rfl
    rw [flatMap_cons, flatMap_cons, hnil, nil_append, nil_append, ih]
  | @data s s₁ s' line lines lines' val val' hline _ hcontents hparse _ ih =>
    have hended : lineEnd line = [] ∨ lineEnd line = ['\r'] := by
      unfold lineEnd
      split
      · exact .inr rfl
      · exact .inl rfl
    have hvalid := hJ.valid (hparse hJ.toJsonInverse)
    have hbefore : lineDeltas J line = choiceDeltas val := by
      unfold lineDeltas
      rw [hline]
      rfl
    have hafter : lineDeltas J ("data: ".toList ++ J.toText val' ++ lineEnd line) =
        choiceDeltas val' := by
      unfold lineDeltas
      rw [lineValue_printed hJ hvalid hended]
      rfl
    rw [flatMap_cons, flatMap_cons, hbefore, hafter, applyAll_append, hcontents]
    dsimp only
    rw [ih]

theorem LinesRewritten.lines (hJ : JsonLines J) {lines lines' : List Text}
    (h : LinesRewritten J transform s lines s' lines') (hlines : ∀ line ∈ lines, '\n' ∉ line) :
    lines'.length = lines.length ∧ ∀ line ∈ lines', '\n' ∉ line := by
  induction h with
  | nil s => exact ⟨rfl, nofun⟩
  | other hline _ ih =>
    obtain ⟨hlen, hrest⟩ := ih (forall_mem_cons.1 hlines).2
    rw [length_cons, hlen]
    exact ⟨rfl, forall_mem_cons.2 ⟨hlines _ mem_cons_self, hrest⟩⟩
  | @data s s₁ s' line lines lines' val val' hline _ _ hparse _ ih =>
    obtain ⟨hlen, hrest⟩ := ih (forall_mem_cons.1 hlines).2
    have hvalid := hJ.valid (hparse hJ.toJsonInverse)
    have hdata : '\n' ∉ "data: ".toList ++ J.toText val' :=
      (Str.oneLine_append.2 ⟨by decide, hJ.oneLine hvalid⟩).1
    have hended : '\n' ∉ lineEnd line := by
      unfold lineEnd
      split <;> decide
    rw [length_cons, hlen]
    refine ⟨rfl, forall_mem_cons.2 ⟨?_, hrest⟩⟩
    rw [mem_append]
    exact not_or.2 ⟨hdata, hended⟩

theorem bodyDeltas_lines {lines : List Text} (hne : lines ≠ []) (h : ∀ line ∈ lines, '\n' ∉ line) :
    bodyDeltas J (Str.bytes (Str.join ['\n'] lines)) = lines.flatMap (lineDeltas J) := by
  unfold bodyDeltas
  rw [eventValues_bytes]
  unfold textValues Str.splitChar Str.join
  rw [splitOn_intercalate '\n' h hne, flatMap_lineDeltas]

theorem EventFiltered.read (hJ : JsonLines J) {event out : Bytes} {t : Text}
    (hbody : eventBody event = Str.bytes t)
    (hdone : mentionsDone (eventBody event) = true → bodyDeltas J (eventBody event) = [])
    (h : EventFiltered J transform s event s' out) :
    (∃ t', out = Str.bytes t' ++ [10, 10]) ∧
      applyAll transform s (bodyDeltas J (eventBody event)) = (s', bodyDeltas J out) := by
  have hfiltered : filteredDeltas J (eventBody event) = bodyDeltas J (eventBody event) := by
    unfold filteredDeltas
    split
    next hmarker => exact (hdone hmarker).symm
    next => rfl
  cases h with
  | @unchanged body term hevent hterm happlied hout =>
    have heq : eventBody event = body := by rw [hevent, hterm.eventBody]
    rw [heq] at hbody hfiltered ⊢
    rw [hfiltered] at happlied
    rw [happlied, hout, hbody, bodyDeltas_terminated hJ (.inl rfl)]
    exact ⟨⟨t, rfl⟩, rfl⟩
  | @rewritten body term text lines' after hevent hterm _ _ hbody' hlines hout =>
    have heq : eventBody event = body := by rw [hevent, hterm.eventBody]
    have hbreaks : ∀ line ∈ Str.splitChar '\n' text, '\n' ∉ line :=
      fun line hline => Str.notMem_of_mem_splitChar hline
    obtain ⟨hlen, hbreaks'⟩ := hlines.lines hJ hbreaks
    have hne : lines' ≠ [] := by
      rw [← length_pos_iff, hlen, length_pos_iff]
      exact splitOn_ne_nil _ _
    refine ⟨⟨_, hout⟩, ?_⟩
    rw [hout, bodyDeltas_terminated hJ (.inl rfl), bodyDeltas_lines hne hbreaks', ← hlines.read hJ,
      heq, hbody', bodyDeltas, eventValues_bytes, flatMap_lineDeltas]
    rfl

theorem EventsFiltered.read (hJ : JsonLines J) {events outs : List Bytes}
    (hbodies : ∀ event ∈ events, ∃ t, eventBody event = Str.bytes t)
    (hdone : ∀ event ∈ events, mentionsDone (eventBody event) = true →
      bodyDeltas J (eventBody event) = [])
    (h : EventsFiltered J transform s events s' outs) :
    (∀ out ∈ outs, ∃ t, out = Str.bytes t ++ [10, 10]) ∧
      applyAll transform s ((events.map eventBody).flatMap (bodyDeltas J)) =
        (s', outs.flatMap (bodyDeltas J)) := by
  induction h with
  | nil s => exact ⟨nofun, rfl⟩
  | @cons s s₁ s' event out events outs hevent _ ih =>
    obtain ⟨t, hbody⟩ := hbodies event mem_cons_self
    obtain ⟨hout, hread⟩ := hevent.read hJ hbody (hdone event mem_cons_self)
    obtain ⟨houts, hrest⟩ := ih (forall_mem_cons.1 hbodies).2 (forall_mem_cons.1 hdone).2
    refine ⟨forall_mem_cons.2 ⟨hout, houts⟩, ?_⟩
    rw [map_cons, flatMap_cons, flatMap_cons, applyAll_append, hread]
    dsimp only
    rw [hrest]

variable (transform s) in
theorem run_deltas (hJ : JsonLines J) {chunks : List Bytes} (h : AnswerStream J chunks.flatten) :
    bodyDeltas J ((SseFilter.new s).run J transform chunks).2 =
      (applyAll transform s (bodyDeltas J chunks.flatten)).2 := by
  obtain ⟨text, htext⟩ := h.utf8
  obtain ⟨hbodies, tail, htail⟩ := utf8_events htext
  have hread := (@filterEvents_filtered σ J transform s chunks.flatten).read hJ
    (fun event he => hbodies _ (mem_map_of_mem he))
    (fun event he => h.unmarked _ (mem_map_of_mem he))
  rw [SseFilter.run_new, bodyDeltas_stream hJ htext, h.complete, append_nil]
  dsimp only
  generalize (filterEvents J transform s (eventBodies chunks.flatten)).2 = outs at hread ⊢
  obtain ⟨houts, happlied⟩ := hread
  -- the events emitted and the rest are cut at line ends
  have hcut : CutAtLineEnds (outs ++ [unterminated chunks.flatten]) := by
    intro out hout
    rw [dropLast_concat] at hout
    obtain ⟨t, ht⟩ := houts out hout
    exact .inr ⟨Str.bytes t ++ [10], by rw [ht, append_assoc]; rfl⟩
  have hutf8 : ∃ text, (outs ++ [unterminated chunks.flatten]).flatten = Str.bytes text := by
    rw [flatten_append, flatten_singleton, htail]
    clear happlied hcut
    induction outs with
    | nil => exact ⟨tail, rfl⟩
    | cons out outs ih =>
      obtain ⟨t, ht⟩ := houts out mem_cons_self
      obtain ⟨text, hrest⟩ := ih (forall_mem_cons.1 houts).2
      refine ⟨t ++ ['\n', '\n'] ++ text, ?_⟩
      rw [flatten_cons, append_assoc, hrest, ht, Utf8.bytes_append, Utf8.bytes_append]
      rfl
  obtain ⟨_, hutf8⟩ := hutf8
  have hsent := bodyDeltas_flatten (J := J) hcut hutf8
  rw [flatMap_append, flatMap_singleton, h.complete, append_nil, flatten_append,
    flatten_singleton] at hsent
  rw [hsent, eventBodies, happlied]

end Filtered

section Loop

variable {σ : Type} {J : JsonText} {env : StreamEnv σ}

theorem sent_of_completed {failure : Option Text} {st : StreamState σ} {chunks : List Bytes}
    (h : (streamLoop J env failure st chunks).ending = .completed) :
    (streamLoop J env failure st chunks).sent.flatten =
      if env.outputEnabled then (st.filter.run J env.transform chunks).2
      else chunks.flatten ++ st.filter.flush.2 := by
  have hflat : ∀ out : Bytes, (if out.isEmpty then [] else [out]).flatten = out := by
    intro out
    cases out <;> simp
  induction chunks generalizing st with
  | nil =>
    cases failure with
    | some e => cases h
    | none =>
      have hsent : (streamLoop J env none st []).sent.flatten = st.filter.flush.2 := hflat _
      rw [hsent]
      split <;> rfl
  | cons chunk chunks ih =>
    rw [streamLoop_cons] at h
    rw [streamLoop]
    unfold feedChunk at h ⊢
    cases hinspect : inspectChunk J st.gate chunk with
    | error reasons => simp [hinspect, Except.map] at h
    | ok gate =>
      simp only [hinspect, Except.map] at h ⊢
      rw [flatten_append, ih h]
      unfold forwardChunk
      cases env.outputEnabled with
      | true =>
        simp only [Bool.not_true, Bool.false_eq_true, if_false, if_true, hflat]
        unfold SseFilter.run
        rw [SseFilter.pushAll]
        simp only [append_assoc]
      | false => simp

theorem sent_deltas (hJ : JsonLines J) (s : σ) (gate : Option ToolGate) {failure : Option Text}
    {chunks : List Bytes} (hanswer : AnswerStream J chunks.flatten)
    (h : (streamLoop J env failure (.new s gate) chunks).ending = .completed) :
    bodyDeltas J (streamLoop J env failure (.new s gate) chunks).sent.flatten =
      if env.outputEnabled then (applyAll env.transform s (bodyDeltas J chunks.flatten)).2
      else bodyDeltas J chunks.flatten := by
  rw [sent_of_completed h]
  split
  · exact run_deltas env.transform s hJ hanswer
  · exact congrArg (bodyDeltas J) (append_nil _)

end Loop

/-! ## Streams of contents -/

/-- One event for each content, with the index of its choice. -/
def contentEvents (cs : List (Nat × Text)) : Bytes := cs.flatMap fun c => contentEvent c.1 c.2

/-- Contents that can be printed and do not mention the end marker. -/
def Printable (cs : List (Nat × Text)) : Prop :=
  ∀ c ∈ cs, (contentPayload c.1 c.2).valid = true ∧
    Str.contains ("data: ".toList ++ compactJson.toText (contentPayload c.1 c.2))
      "[DONE]".toList = false

instance (cs : List (Nat × Text)) : Decidable (Printable cs) :=
  inferInstanceAs (Decidable (∀ c ∈ cs, _))

theorem bodyDeltas_contentEvent {index : Nat} {content : Text}
    (h : (contentPayload index content).valid = true) :
    bodyDeltas compactJson
        (Str.bytes ("data: ".toList ++ compactJson.toText (contentPayload index content))) =
      [(some (.num (.posInt index)), content)] := by
  rw [bodyDeltas_printed compactJson_lines h]
  rfl

theorem answerStream_contentEvents {cs : List (Nat × Text)} (h : Printable cs) :
    AnswerStream compactJson (contentEvents cs) ∧
      bodyDeltas compactJson (contentEvents cs) =
        cs.map fun c => (some (.num (.posInt c.1)), c.2) := by
  have hstream : contentEvents cs = (cs.map fun c =>
      compactJson.toText (contentPayload c.1 c.2)).flatMap dataEvent := by
    rw [flatMap_map]
    rfl
  have hlines : ∀ p ∈ cs.map fun c => compactJson.toText (contentPayload c.1 c.2), Str.OneLine p := by
    intro p hp
    obtain ⟨c, hc, rfl⟩ := mem_map.1 hp
    exact compactJson_lines.oneLine (h c hc).1
  obtain ⟨hbodies, hrest⟩ := eventBodies_dataEvents _ hlines
  rw [← hstream, map_map] at hbodies
  rw [← hstream] at hrest
  have hutf8 : ∃ text, contentEvents cs = Str.bytes text := by
    clear h hstream hlines hbodies hrest
    induction cs with
    | nil => exact ⟨[], rfl⟩
    | cons c cs ih =>
      obtain ⟨text, htext⟩ := ih
      unfold contentEvents at htext ⊢
      rw [flatMap_cons, htext, contentEvent, dataEvent, ← Utf8.bytes_append]
      exact ⟨_, rfl⟩
  have hnil : bodyDeltas compactJson (unterminated (contentEvents cs)) = [] := by
    rw [hrest]
    rfl
  refine ⟨⟨hutf8, hnil, ?_⟩, ?_⟩
  · rw [hbodies]
    intro body hbody hdone
    obtain ⟨c, hc, rfl⟩ := mem_map.1 hbody
    unfold mentionsDone at hdone
    rw [Function.comp_apply, Utf8.decode_bytes, Option.any_some, (h c hc).2] at hdone
    cases hdone
  obtain ⟨text, htext⟩ := hutf8
  rw [bodyDeltas_stream compactJson_lines htext, hnil, hbodies, append_nil, flatMap_map]
  clear hstream hlines hbodies hrest hnil htext
  induction cs with
  | nil => rfl
  | cons c cs ih =>
    rw [flatMap_cons, Function.comp_apply, bodyDeltas_contentEvent (h c mem_cons_self).1,
      ih (forall_mem_cons.1 h).2]
    rfl

end Nanoguard.Proxy

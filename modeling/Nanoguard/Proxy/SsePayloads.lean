import Nanoguard.Proxy.SseEvents

/-!
# Payloads and cuts

The payloads of a text are the JSON values on its data lines. They are read from whole events by the
filter, and from each chunk by itself elsewhere: the payload of a line that is cut by a chunk's end
is lost, and so is everything in a chunk that ends inside a character.
-/

namespace Nanoguard.Proxy

open List

open Guard (JsonText)

variable {J : JsonText}

/-! ## Payloads of a text -/

def textValues (J : JsonText) (text : Text) : List Json :=
  (Str.splitChar '\n' text).filterMap (lineValue J)

def eventValues (J : JsonText) (event : Bytes) : List Json :=
  ((Utf8.decode event).map (textValues J)).getD []

theorem textValues_eq (text : Text) :
    textValues J text = ((Str.splitChar '\n' text).filterMap linePayload).filterMap
      fun payload => (J.fromStr payload).toOption := by
  rw [filterMap_filterMap]
  rfl

theorem lineValue_nil : lineValue J [] = none := rfl

@[simp] theorem eventValues_bytes (text : Text) :
    eventValues J (Str.bytes text) = textValues J text := by
  unfold eventValues
  rw [Utf8.decode_bytes]
  rfl

def EndsLine (text : Text) : Prop := text = [] ∨ ∃ body, text = body ++ ['\n']

theorem textValues_cons (a b : Text) :
    textValues J (a ++ '\n' :: b) = textValues J a ++ textValues J b := by
  unfold textValues Str.splitChar
  rw [splitOn_append_cons_self, filterMap_append]

theorem textValues_line {line : Text} (h : '\n' ∉ line) :
    textValues J line = (lineValue J line).toList := by
  unfold textValues Str.splitChar
  rw [splitOn_eq_singleton h]
  cases hval : lineValue J line <;> simp [hval]

theorem textValues_append {text : Text} (h : EndsLine text) (text' : Text) :
    textValues J (text ++ text') = textValues J text ++ textValues J text' := by
  rcases h with rfl | ⟨body, rfl⟩
  · rfl
  have hnil : textValues J [] = [] := rfl
  rw [append_assoc, singleton_append, textValues_cons, textValues_cons, hnil, append_nil]

/-! ## Cuts at line ends -/

def AtLineEnd (chunk : Bytes) : Prop := chunk = [] ∨ ∃ body, chunk = body ++ [10]

/-- Every cut is at a line end: only the last chunk may end anywhere. -/
def CutAtLineEnds (chunks : List Bytes) : Prop := ∀ chunk ∈ chunks.dropLast, AtLineEnd chunk

theorem decode_append {x y : Bytes} {text : Text} (hx : AtLineEnd x)
    (h : Utf8.decode (x ++ y) = some text) :
    ∃ t₁ t₂, text = t₁ ++ t₂ ∧ EndsLine t₁ ∧ x = Str.bytes t₁ ∧ y = Str.bytes t₂ := by
  rw [Utf8.decode_eq_some_iff] at h
  rcases hx with rfl | ⟨body, rfl⟩
  · exact ⟨[], text, rfl, .inl rfl, rfl, h.symm⟩
  rw [append_assoc] at h
  obtain ⟨t₁, c, t₂, rfl, h₁, hc, h₂⟩ := Utf8.bytes_split (by decide) h
  have hnl : c = '\n' := Char.toNat_inj.1 hc
  subst hnl
  refine ⟨t₁ ++ ['\n'], t₂, by simp, .inr ⟨t₁, rfl⟩, ?_, h₂.symm⟩
  rw [Utf8.bytes_append, h₁]
  rfl

theorem flatMap_eventValues {chunks : List Bytes} {text : Text} (hcut : CutAtLineEnds chunks)
    (h : Utf8.decode chunks.flatten = some text) :
    chunks.flatMap (eventValues J) = textValues J text := by
  induction chunks generalizing text with
  | nil =>
    cases h
    rfl
  | cons chunk chunks ih =>
    cases chunks with
    | nil =>
      rw [flatten_cons, flatten_nil, append_nil, Utf8.decode_eq_some_iff] at h
      rw [← h]
      simp
    | cons chunk' chunks =>
      have hend : AtLineEnd chunk := hcut chunk (by simp)
      have hrest : CutAtLineEnds (chunk' :: chunks) := by
        intro c hc
        exact hcut c (by simp [hc])
      obtain ⟨t₁, t₂, rfl, ht₁, rfl, hy⟩ := decode_append hend h
      rw [flatMap_cons, eventValues_bytes, textValues_append ht₁,
        ih hrest (by rw [hy, Utf8.decode_bytes])]

/-! ## The complete events -/

theorem IsEvent.atLineEnd {body term : Bytes} (h : IsEvent body term) :
    AtLineEnd (body ++ term) := by
  rcases h.terminator with rfl | rfl
  · exact .inr ⟨body ++ [10], by simp⟩
  · exact .inr ⟨body ++ [13, 10, 13], by simp⟩

theorem cutAtLineEnds_events (stream : Bytes) :
    CutAtLineEnds (completeEvents stream ++ [unterminated stream]) := by
  unfold CutAtLineEnds
  rw [dropLast_concat]
  induction stream using event_induction with
  | hnone buf h => simp [completeEvents, splitEvents_none h]
  | hevent body term rest h ih =>
    rw [completeEvents_event h]
    exact forall_mem_cons.2 ⟨h.atLineEnd, ih⟩

theorem flatten_events (stream : Bytes) :
    (completeEvents stream ++ [unterminated stream]).flatten = stream := by
  induction stream using event_induction with
  | hnone buf h => simp [completeEvents, unterminated, splitEvents_none h]
  | hevent body term rest h ih =>
    rw [completeEvents_event h, unterminated_event h, cons_append, flatten_cons, ih, append_assoc]

/-! ## Streams of data lines -/

def dataLine (payload : Text) : Text := "data: ".toList ++ payload ++ ['\n']

def dataEvent (payload : Text) : Bytes := Str.bytes (dataLine payload ++ ['\n'])

theorem isEvent_of_notMem {body : Bytes} (hlf : 10 ∉ body) (hcr : 13 ∉ body) :
    IsEvent body [10, 10] := by
  have hfind : ∀ (i : Nat) (rest : Bytes), findEventEndFrom i (body ++ ([10, 10] ++ rest)) =
      some ⟨i + body.length, i + body.length + 2⟩ := by
    induction body with
    | nil => exact fun i rest => rfl
    | cons a body ih =>
      intro i rest
      obtain ⟨ha, hlf⟩ := not_or.1 (mt mem_cons.2 hlf)
      obtain ⟨ha', hcr⟩ := not_or.1 (mt mem_cons.2 hcr)
      obtain ⟨b, buf, hbuf⟩ : ∃ b buf, body ++ ([10, 10] ++ rest) = b :: buf :=
        exists_cons_of_ne_nil (by simp)
      have hcrlf : ¬ [13, 10, 13, 10] <+: a :: b :: buf :=
        fun h => ha' (cons_prefix_cons.1 h).1
      rw [cons_append, hbuf, findEventEndFrom, if_neg fun h => ha h.1.symm, if_neg hcrlf,
        ← hbuf, ih hlf hcr, length_cons]
      simp only [Option.some.injEq, EventEnd.mk.injEq]
      omega
  refine ⟨.inl rfl, fun rest => ?_⟩
  have h := hfind 0 rest
  rw [Nat.zero_add] at h
  exact h

theorem isEvent_bytes {t : Text} (h : Str.OneLine t) : IsEvent (Str.bytes t) [10, 10] :=
  isEvent_of_notMem (mt (Utf8.mem_bytes_iff (by decide) rfl).1 h.1)
    (mt (Utf8.mem_bytes_iff (by decide) rfl).1 h.2)

theorem dataEvent_eq (payload : Text) :
    dataEvent payload = Str.bytes ("data: ".toList ++ payload) ++ [10, 10] := by
  unfold dataEvent dataLine
  rw [append_assoc, Utf8.bytes_append]
  rfl

theorem eventBodies_dataEvents (payloads : List Text) (h : ∀ p ∈ payloads, Str.OneLine p) :
    eventBodies (payloads.flatMap dataEvent) =
        payloads.map (fun p => Str.bytes ("data: ".toList ++ p)) ∧
      unterminated (payloads.flatMap dataEvent) = [] := by
  induction payloads with
  | nil => exact ⟨rfl, rfl⟩
  | cons p payloads ih =>
    obtain ⟨hbodies, hrest⟩ := ih (forall_mem_cons.1 h).2
    have hline : Str.OneLine ("data: ".toList ++ p) :=
      Str.oneLine_append.2 ⟨by decide, h p mem_cons_self⟩
    rw [flatMap_cons, dataEvent_eq, append_assoc, eventBodies_event (isEvent_bytes hline),
      unterminated_event (isEvent_bytes hline), hbodies, hrest]
    exact ⟨rfl, rfl⟩

end Nanoguard.Proxy

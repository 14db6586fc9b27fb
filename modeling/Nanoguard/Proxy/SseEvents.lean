import Nanoguard.Proxy.Sse

/-!
# The filter and the events of a stream

Two kinds of blank lines end an event, and one of them may be cut by the end of a chunk. An end that
is found stays where it is when more bytes arrive (`findEventEndFrom_spec`), so the events of a
stream do not depend on its chunks.
-/

namespace Nanoguard.Proxy

open List

open Guard (JsonText)

/-! ## The end of an event -/

/-- The blank lines that end an event. -/
def IsTerminator (term : Bytes) : Prop := term = [10, 10] ∨ term = [13, 10, 13, 10]

/-- The first blank line behind `body` is `term`, whatever follows. -/
structure IsEvent (body term : Bytes) : Prop where
  terminator : IsTerminator term
  ends : ∀ rest, findEventEnd (body ++ (term ++ rest)) =
    some ⟨body.length, body.length + term.length⟩

theorem IsTerminator.cases_cons {term : Bytes} (h : IsTerminator term) :
    ∃ a b rest, term = a :: b :: rest := by
  rcases h with rfl | rfl
  · exact ⟨10, 10, [], rfl⟩
  · exact ⟨13, 10, [13, 10], rfl⟩

theorem not_crlf_of_not_crlf {a : UInt8} {body term : Bytes} (hterm : IsTerminator term)
    (rest x : Bytes) (h : ¬ [13, 10, 13, 10] <+: a :: (body ++ (term ++ rest))) :
    ¬ [13, 10, 13, 10] <+: a :: (body ++ (term ++ x)) := by
  intro hx
  obtain ⟨rfl, htail⟩ := cons_prefix_cons.1 hx
  have hshort : ¬ [10, 13, 10] <+: body ++ term := by
    intro hpre
    apply h
    rw [← append_assoc]
    exact cons_prefix_cons.2 ⟨rfl, hpre.trans (prefix_append _ rest)⟩
  rw [← append_assoc] at htail
  obtain ⟨y, hy⟩ := htail
  rcases append_eq_append_iff.1 hy with ⟨d, hd, -⟩ | ⟨d, hd, -⟩
  · exact hshort ⟨d, hd.symm⟩
  -- the end found is shorter than three bytes: it is a pair of line feeds
  rcases hterm with rfl | rfl
  · match body, hd with
    | [], hd => cases hd
    | [_], hd => cases hd
    | _ :: _ :: _, hd =>
      have := congrArg List.length hd
      simp at this
      omega
  · have := congrArg List.length hd
    simp at this
    omega

theorem findEventEndFrom_spec {i : Nat} {buf : Bytes} {e : EventEnd}
    (h : findEventEndFrom i buf = some e) :
    ∃ body term rest, buf = body ++ (term ++ rest) ∧ IsTerminator term ∧
      e = ⟨i + body.length, i + body.length + term.length⟩ ∧
      ∀ x, findEventEndFrom i (body ++ (term ++ x)) = some e := by
  induction buf generalizing i with
  | nil => cases h
  | cons a buf ih =>
    cases buf with
    | nil => cases h
    | cons b buf =>
      rw [findEventEndFrom] at h
      by_cases hlf : a = 10 ∧ b = 10
      · obtain ⟨rfl, rfl⟩ := hlf
        cases h
        exact ⟨[], [10, 10], buf, rfl, .inl rfl, rfl, fun x => rfl⟩
      rw [if_neg hlf] at h
      by_cases hcrlf : [13, 10, 13, 10] <+: a :: b :: buf
      · rw [if_pos hcrlf] at h
        obtain ⟨rest, hrest⟩ := hcrlf
        cases h
        exact ⟨[], [13, 10, 13, 10], rest, hrest.symm, .inr rfl, rfl, fun x => rfl⟩
      rw [if_neg hcrlf] at h
      obtain ⟨body, term, rest, hbuf, hterm, rfl, hfind⟩ := ih h
      refine ⟨a :: body, term, rest, by rw [hbuf, cons_append], hterm, ?_, fun x => ?_⟩
      · simp only [length_cons, EventEnd.mk.injEq]
        omega
      rw [hbuf] at hcrlf
      have hnot := not_crlf_of_not_crlf hterm rest x hcrlf
      -- the first two bytes are those of the buffer
      obtain ⟨y, hy⟩ : ∃ y, body ++ (term ++ x) = b :: y := by
        obtain ⟨c, d, term', rfl⟩ := hterm.cases_cons
        cases body with
        | nil => exact ⟨_, by rw [(List.cons.inj hbuf).1]; rfl⟩
        | cons c' body => exact ⟨_, by rw [(List.cons.inj hbuf).1]; rfl⟩
      have hrec := hfind x
      rw [cons_append, hy, findEventEndFrom, if_neg hlf, if_neg (hy ▸ hnot), ← hy]
      exact hrec

theorem findEventEnd_eq_some {buf : Bytes} {e : EventEnd} (h : findEventEnd buf = some e) :
    ∃ body term rest, buf = body ++ (term ++ rest) ∧ IsEvent body term ∧
      e = ⟨body.length, body.length + term.length⟩ := by
  obtain ⟨body, term, rest, hbuf, hterm, he, hfind⟩ := findEventEndFrom_spec h
  rw [Nat.zero_add] at he
  exact ⟨body, term, rest, hbuf, ⟨hterm, fun x => by rw [← he]; exact hfind x⟩, he⟩

/-! ## The events of a stream -/

def eventBody (event : Bytes) : Bytes :=
  match findEventEnd event with
  | some e => event.take e.split
  | none => event

def eventBodies (stream : Bytes) : List Bytes := (completeEvents stream).map eventBody

theorem IsEvent.length_pos {body term : Bytes} (h : IsEvent body term) : 0 < term.length := by
  rcases h.terminator with rfl | rfl <;> decide

theorem IsEvent.eventBody {body term : Bytes} (h : IsEvent body term) :
    eventBody (body ++ term) = body := by
  have hend := h.ends []
  rw [append_nil] at hend
  unfold Proxy.eventBody
  rw [hend]
  exact take_left

theorem IsEvent.take_drop {body term : Bytes} (rest : Bytes) :
    (body ++ (term ++ rest)).take (body.length + term.length) = body ++ term ∧
      (body ++ (term ++ rest)).drop (body.length + term.length) = rest := by
  rw [← append_assoc, ← length_append]
  exact ⟨take_left, drop_left⟩

theorem splitEventsGo_eq {fuel : Nat} {buf : Bytes} (h : buf.length ≤ fuel) :
    splitEventsGo fuel buf = splitEvents buf := by
  unfold splitEvents
  induction hn : buf.length using Nat.strong_induction_on generalizing fuel buf with
  | h n ih =>
    subst hn
    cases hfind : findEventEnd buf with
    | none =>
      cases fuel <;> cases hlen : buf.length <;> simp [splitEventsGo, hfind]
    | some e =>
      obtain ⟨body, term, rest, rfl, hevent, rfl⟩ := findEventEnd_eq_some hfind
      have hpos := hevent.length_pos
      have hlen : (body ++ (term ++ rest)).length = body.length + term.length + rest.length := by
        simp [Nat.add_assoc]
      obtain ⟨fuel, rfl⟩ : ∃ k, fuel = k + 1 := Nat.exists_eq_succ_of_ne_zero (by omega)
      obtain ⟨len, hlen'⟩ : ∃ k, (body ++ (term ++ rest)).length = k + 1 :=
        Nat.exists_eq_succ_of_ne_zero (by omega)
      rw [hlen', splitEventsGo, splitEventsGo, hfind]
      dsimp only
      rw [(IsEvent.take_drop rest).2, ih rest.length (by omega) (by omega) rfl,
        ← @ih rest.length (by omega) len rest (by omega) rfl]

theorem splitEvents_none {buf : Bytes} (h : findEventEnd buf = none) :
    splitEvents buf = ([], buf) := by
  unfold splitEvents
  cases buf.length <;> simp [splitEventsGo, h]

theorem splitEvents_event {body term : Bytes} (h : IsEvent body term) (rest : Bytes) :
    splitEvents (body ++ (term ++ rest)) =
      ((body ++ term) :: (splitEvents rest).1, (splitEvents rest).2) := by
  have hlen : (body ++ (term ++ rest)).length ≤ (body ++ (term ++ rest)).length + 1 :=
    Nat.le_succ _
  rw [← splitEventsGo_eq hlen, splitEventsGo, h.ends]
  dsimp only
  rw [(IsEvent.take_drop rest).1, (IsEvent.take_drop rest).2,
    splitEventsGo_eq (by simp only [length_append]; omega)]

section Equations

variable {body term : Bytes}

theorem eventBodies_none {buf : Bytes} (h : findEventEnd buf = none) : eventBodies buf = [] := by
  unfold eventBodies completeEvents
  rw [splitEvents_none h]
  rfl

theorem unterminated_none {buf : Bytes} (h : findEventEnd buf = none) : unterminated buf = buf := by
  unfold unterminated
  rw [splitEvents_none h]

theorem completeEvents_event (h : IsEvent body term) (rest : Bytes) :
    completeEvents (body ++ (term ++ rest)) = (body ++ term) :: completeEvents rest := by
  unfold completeEvents
  rw [splitEvents_event h]

theorem eventBodies_event (h : IsEvent body term) (rest : Bytes) :
    eventBodies (body ++ (term ++ rest)) = body :: eventBodies rest := by
  unfold eventBodies
  rw [completeEvents_event h, map_cons, h.eventBody]

theorem unterminated_event (h : IsEvent body term) (rest : Bytes) :
    unterminated (body ++ (term ++ rest)) = unterminated rest := by
  unfold unterminated
  rw [splitEvents_event h]

end Equations

/-- Induction over the events of a stream. -/
theorem event_induction {P : Bytes → Prop} (hnone : ∀ buf, findEventEnd buf = none → P buf)
    (hevent : ∀ body term rest, IsEvent body term → P rest → P (body ++ (term ++ rest)))
    (stream : Bytes) : P stream := by
  induction hn : stream.length using Nat.strong_induction_on generalizing stream with
  | h n ih =>
    subst hn
    cases hfind : findEventEnd stream with
    | none => exact hnone stream hfind
    | some e =>
      obtain ⟨body, term, rest, rfl, h, -⟩ := findEventEnd_eq_some hfind
      have hpos := h.length_pos
      apply hevent body term rest h
      exact ih rest.length (by simp only [length_append]; omega) rest rfl

theorem findEventEnd_unterminated (stream : Bytes) : findEventEnd (unterminated stream) = none := by
  induction stream using event_induction with
  | hnone buf h => rw [unterminated_none h, h]
  | hevent body term rest h ih => rw [unterminated_event h, ih]

theorem eventBodies_append (x y : Bytes) :
    eventBodies (x ++ y) = eventBodies x ++ eventBodies (unterminated x ++ y) ∧
      unterminated (x ++ y) = unterminated (unterminated x ++ y) := by
  induction x using event_induction with
  | hnone buf h =>
    rw [eventBodies_none h, unterminated_none h]
    exact ⟨rfl, rfl⟩
  | hevent body term rest h ih =>
    rw [append_assoc, append_assoc, eventBodies_event h, eventBodies_event h,
      unterminated_event h, unterminated_event h, ih.1, ih.2]
    exact ⟨rfl, rfl⟩

section Filter

variable {σ : Type} (J : JsonText) (transform : σ → Text → σ × Text)

/-- The events one after the other, with what is emitted for each. -/
def filterEvents (s : σ) : List Bytes → σ × List Bytes
  | [] => (s, [])
  | body :: bodies =>
    let (s, out) := processEvent J transform s body
    let (s, outs) := filterEvents s bodies
    (s, out :: outs)

namespace SseFilter

def new (s : σ) : SseFilter σ := ⟨[], s⟩

def pushAll (f : SseFilter σ) : List Bytes → SseFilter σ × Bytes
  | [] => (f, [])
  | chunk :: chunks =>
    let (f, out) := f.push J transform chunk
    let (f, rest) := pushAll f chunks
    (f, out ++ rest)

/-- All pushes and the flush: the last state of the transform and all that is emitted. -/
def run (f : SseFilter σ) (chunks : List Bytes) : σ × Bytes :=
  let (f, out) := f.pushAll J transform chunks
  let (f, tail) := f.flush
  (f.state, out ++ tail)

end SseFilter

/-- The transform, with a record of the contents it is called on. -/
def logCalls (st : σ × List Text) (text : Text) : (σ × List Text) × Text :=
  let (s, out) := transform st.1 text
  ((s, st.2 ++ [text]), out)

/-- The contents on which the transform is called, in order. -/
def SseFilter.calls (s : σ) (chunks : List Bytes) : List Text :=
  ((new (s, [])).run J (logCalls transform) chunks).1.2

variable {J transform}

theorem filterEvents_append (s : σ) (bodies bodies' : List Bytes) :
    filterEvents J transform s (bodies ++ bodies') =
      let q := filterEvents J transform s bodies
      let q' := filterEvents J transform q.1 bodies'
      (q'.1, q.2 ++ q'.2) := by
  induction bodies generalizing s with
  | nil => rfl
  | cons body bodies ih =>
    rw [cons_append, filterEvents]
    simp only [ih]
    rfl

namespace SseFilter

theorem drainEvents_eq {fuel : Nat} (f : SseFilter σ) (h : f.buffer.length ≤ fuel) :
    drainEvents J transform fuel f =
      let q := filterEvents J transform f.state (eventBodies f.buffer)
      (⟨unterminated f.buffer, q.1⟩, q.2.flatten) := by
  induction fuel generalizing f with
  | zero =>
    have hnil : f.buffer = [] := length_eq_zero_iff.1 (Nat.le_zero.1 h)
    have hnone : findEventEnd f.buffer = none := by rw [hnil]; rfl
    rw [eventBodies_none hnone, unterminated_none hnone]
    rfl
  | succ fuel ih =>
    rw [drainEvents]
    cases hfind : findEventEnd f.buffer with
    | none =>
      rw [eventBodies_none hfind, unterminated_none hfind]
      rfl
    | some e =>
      obtain ⟨body, term, rest, hbuf, hevent, rfl⟩ := findEventEnd_eq_some hfind
      have hpos := hevent.length_pos
      rw [hbuf] at h ⊢
      simp only [length_append] at h
      rw [eventBodies_event hevent, unterminated_event hevent]
      dsimp only
      rw [take_left, (IsEvent.take_drop rest).2, ih _ (by dsimp only; omega)]
      rfl

theorem push_eq (f : SseFilter σ) (chunk : Bytes) :
    f.push J transform chunk =
      let q := filterEvents J transform f.state (eventBodies (f.buffer ++ chunk))
      (⟨unterminated (f.buffer ++ chunk), q.1⟩, q.2.flatten) :=
  drainEvents_eq ⟨f.buffer ++ chunk, f.state⟩ le_rfl

theorem pushAll_eq (f : SseFilter σ) (h : findEventEnd f.buffer = none) (chunks : List Bytes) :
    f.pushAll J transform chunks =
      let q := filterEvents J transform f.state (eventBodies (f.buffer ++ chunks.flatten))
      (⟨unterminated (f.buffer ++ chunks.flatten), q.1⟩, q.2.flatten) := by
  induction chunks generalizing f with
  | nil =>
    rw [flatten_nil, append_nil, eventBodies_none h, unterminated_none h]
    rfl
  | cons chunk chunks ih =>
    obtain ⟨hbodies, hrest⟩ := eventBodies_append (f.buffer ++ chunk) chunks.flatten
    rw [append_assoc, ← flatten_cons] at hbodies hrest
    rw [pushAll, push_eq]
    dsimp only
    rw [ih _ (findEventEnd_unterminated _), hbodies, hrest, filterEvents_append]
    simp only [flatten_append]

/-- **The filter treats each event of the stream once, in order**, and keeps what follows the last
one for the flush. -/
theorem pushAll_new (s : σ) (chunks : List Bytes) :
    (new s).pushAll J transform chunks =
      let q := filterEvents J transform s (eventBodies chunks.flatten)
      (⟨unterminated chunks.flatten, q.1⟩, q.2.flatten) :=
  pushAll_eq (new s) rfl chunks

theorem run_new (s : σ) (chunks : List Bytes) :
    (new s).run J transform chunks =
      let q := filterEvents J transform s (eventBodies chunks.flatten)
      (q.1, q.2.flatten ++ unterminated chunks.flatten) := by
  unfold run
  rw [pushAll_new]
  rfl

/-- **The filter does not depend on the chunks**: two cuttings of one stream give the same output,
the same last state and the same calls of the transform. -/
theorem run_of_flatten_eq (J : JsonText) (transform : σ → Text → σ × Text) (s : σ)
    (chunks chunks' : List Bytes) (h : chunks.flatten = chunks'.flatten) :
    (new s).run J transform chunks = (new s).run J transform chunks' ∧
      calls J transform s chunks = calls J transform s chunks' := by
  unfold calls
  rw [run_new, run_new, run_new, run_new, h]
  exact ⟨rfl, rfl⟩

end SseFilter

end Filter

end Nanoguard.Proxy

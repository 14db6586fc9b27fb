import Nanoguard.Proxy.Handlers

/-!
# The walk along a chain of backends

Both handlers have their own copy of the loop that goes through the chain. The copies differ in what
they keep of a server error that they pass over. The body of the request is copied for every attempt
but the last, which takes it. `Backend::forward_chat` fills in the model of its backend if the body
names none.
-/

namespace Nanoguard.Proxy

open List

open Backend (BackendConfig)

def forwardBody (backend : BackendConfig) (body : Json) : Json :=
  match backend.model with
  | some model =>
    if (body.get "model".toList).isNone then body.insert "model".toList (.str model) else body
  | none => body

/-- A backend of the chain, with what it answers if it is asked. -/
structure Attempt where
  backend : BackendConfig
  outcome : Except Text BackendResponse

variable {chain : List Attempt}

namespace Attempt

variable (a : Attempt)

def serverError : Option BackendResponse := a.outcome.toOption.filter (·.isServerError)

def error : Option Text :=
  match a.outcome with
  | .ok _ => none
  | .error e => some e

/-- There is no answer, or it is a server error. -/
def passedOver : Bool :=
  match a.outcome with
  | .ok r => r.isServerError
  | .error _ => true

theorem passedOver_eq : a.passedOver = (a.serverError.isSome || a.error.isSome) := by
  unfold passedOver serverError error
  cases a.outcome with
  | error e => rfl
  | ok r => cases h : r.isServerError <;> simp [Except.toOption]

theorem toOption_outcome_of_error (h : a.error.isSome = true) : a.outcome.toOption = none := by
  unfold error at h
  cases houtcome : a.outcome with
  | error e => rfl
  | ok r => simp [houtcome] at h

end Attempt

/-- The variables of a loop. -/
structure Walk (β : Type) where
  body : Json
  lastErr : Option Text
  last5xx : Option β
  backendResp : Option BackendResponse
  /-- the calls of `forward_chat` so far -/
  attempts : List (BackendConfig × Json)

def Walk.posted {β : Type} (w : Walk β) : List (BackendConfig × Json) :=
  w.attempts.map fun q => (q.1, forwardBody q.1 q.2)

section Loop

variable {β : Type} (note : BackendResponse → β) (chainLen : Nat)

/-- The loop from the backend number `idx` on. `note` is what is kept of a server error. -/
def fallbackLoop : Nat → Walk β → List Attempt → Walk β
  | _, w, [] => w
  | idx, w, a :: chain =>
    let w := { w with
      attempts := w.attempts ++ [(a.backend, w.body)]
      body := if idx + 1 = chainLen then .null else w.body }
    match a.outcome with
    | .ok r =>
      if r.isServerError && decide (idx + 1 < chainLen) then
        fallbackLoop (idx + 1) { w with last5xx := some (note r) } chain
      else { w with backendResp := some r }
    | .error e => fallbackLoop (idx + 1) { w with lastErr := some e } chain

def walk (body : Json) (chain : List Attempt) : Walk β :=
  fallbackLoop note chain.length 0 ⟨body, none, none, none, []⟩ chain

end Loop

def chatWalk (body : Json) (chain : List Attempt) : Walk (Nat × Bytes) :=
  walk (fun r => (r.status, r.drained)) body chain

def messagesWalk (body : Json) (chain : List Attempt) : Walk Nat :=
  walk BackendResponse.status body chain

/-! ## What a walk does -/

/-- The attempts up to the first answer that is not passed over. -/
def contacted : List Attempt → List Attempt
  | [] => []
  | a :: chain => if a.passedOver then a :: contacted chain else [a]

section Spec

variable {β : Type} {note : BackendResponse → β} {chainLen : Nat}

def lastServerError (chain : List Attempt) : Option BackendResponse :=
  ((contacted chain).dropLast.filterMap Attempt.serverError).getLast?

def lastError (chain : List Attempt) : Option Text :=
  ((contacted chain).filterMap Attempt.error).getLast?

theorem contacted_ne_nil (h : chain ≠ []) : contacted chain ≠ [] := by
  cases chain with
  | nil => exact absurd rfl h
  | cons a chain =>
    rw [contacted]
    split <;> exact cons_ne_nil _ _

/-- The attempts are a beginning of the chain; all but the last are passed over, and the last one
only at the end of the chain. -/
theorem contacted_split (h : chain ≠ []) :
    ∃ tried last rest, chain = tried ++ last :: rest ∧ contacted chain = tried ++ [last] ∧
      (∀ a ∈ tried, a.passedOver = true) ∧ (last.passedOver = true → rest = []) := by
  induction chain with
  | nil => exact absurd rfl h
  | cons a chain ih =>
    rw [contacted]
    by_cases hpass : a.passedOver = true
    · rw [if_pos hpass]
      cases chain with
      | nil => exact ⟨[], a, [], rfl, rfl, by simp, fun _ => rfl⟩
      | cons b chain =>
        obtain ⟨tried, last, rest, hchain, hcontacted, htried, hlast⟩ := ih (cons_ne_nil _ _)
        refine ⟨a :: tried, last, rest, by rw [hchain]; rfl, by rw [hcontacted]; rfl, ?_, hlast⟩
        intro x hx
        rcases mem_cons.1 hx with rfl | hx
        · exact hpass
        · exact htried x hx
    · rw [if_neg hpass]
      exact ⟨[], a, chain, rfl, rfl, by simp, fun h => absurd h hpass⟩

theorem contacted_of_passedOver {a : Attempt} (h : a.passedOver = true) (chain : List Attempt) :
    contacted (a :: chain) = a :: contacted chain := by
  rw [contacted, if_pos h]

theorem lastServerError_of_passedOver {a : Attempt} (h : a.passedOver = true)
    (hlast : chain = [] → a.serverError = none) :
    lastServerError (a :: chain) = (lastServerError chain).or a.serverError := by
  cases chain with
  | nil => simp [lastServerError, contacted, hlast rfl]
  | cons b chain =>
    have hne : contacted (b :: chain) ≠ [] := contacted_ne_nil (cons_ne_nil b chain)
    unfold lastServerError
    rw [contacted_of_passedOver h, dropLast_cons_of_ne_nil hne, filterMap_cons]
    cases a.serverError with
    | none => rw [Option.or_none]
    | some r =>
      rw [getLast?_cons]
      cases ((contacted (b :: chain)).dropLast.filterMap Attempt.serverError).getLast? <;> rfl

theorem lastError_of_passedOver {a : Attempt} (h : a.passedOver = true) (chain : List Attempt) :
    lastError (a :: chain) = (lastError chain).or a.error := by
  unfold lastError
  rw [contacted_of_passedOver h, filterMap_cons]
  cases a.error with
  | none => rw [Option.or_none]
  | some e =>
    rw [getLast?_cons]
    cases ((contacted chain).filterMap Attempt.error).getLast? <;> rfl

/-- The variables after an attempt that is passed over. -/
def Walk.passOver (note : BackendResponse → β) (isLast : Bool) (w : Walk β) (a : Attempt) :
    Walk β where
  body := if isLast then .null else w.body
  lastErr := a.error.or w.lastErr
  last5xx := (a.serverError.map note).or w.last5xx
  backendResp := w.backendResp
  attempts := w.attempts ++ [(a.backend, w.body)]

section Step

variable {a : Attempt} {chain : List Attempt} {idx : Nat} {w : Walk β}
  (hlen : idx + (a :: chain).length = chainLen)

include hlen

theorem fallbackLoop_passedOver (h : a.passedOver = true)
    (hlast : chain = [] → a.serverError = none) :
    fallbackLoop note chainLen idx w (a :: chain) =
      fallbackLoop note chainLen (idx + 1) (w.passOver note (decide (idx + 1 = chainLen)) a)
        chain := by
  rw [fallbackLoop]
  unfold Walk.passOver
  unfold Attempt.passedOver at h
  unfold Attempt.serverError at hlast ⊢
  unfold Attempt.error
  cases houtcome : a.outcome with
  | error e => simp only [decide_eq_true_eq]; rfl
  | ok r =>
    simp only [houtcome, decide_eq_true_eq] at h hlast ⊢
    have hserver : (Except.ok r : Except Text BackendResponse).toOption.filter
        (·.isServerError) = some r := by simp [Except.toOption, h]
    have hne : chain ≠ [] := by
      intro hnil
      rw [hserver] at hlast
      exact Option.some_ne_none r (hlast hnil)
    have hlt : idx + 1 < chainLen := by
      have := length_pos_iff.2 hne
      rw [length_cons] at hlen
      omega
    rw [h, decide_eq_true hlt, hserver]
    rfl

theorem fallbackLoop_answered {r : BackendResponse} (houtcome : a.outcome = .ok r)
    (h : r.isServerError = true → chain = []) :
    fallbackLoop note chainLen idx w (a :: chain) =
      { w with
        attempts := w.attempts ++ [(a.backend, w.body)]
        body := if idx + 1 = chainLen then .null else w.body
        backendResp := some r } := by
  have hstop : (r.isServerError && decide (idx + 1 < chainLen)) = false := by
    cases hserver : r.isServerError with
    | false => rfl
    | true =>
      rw [h hserver, length_singleton] at hlen
      exact decide_eq_false (by omega)
  rw [fallbackLoop]
  simp only [houtcome, hstop]
  rfl

end Step

theorem answered_of_not_passedOver {a : Attempt}
    (h : ¬ (a.passedOver = true ∧ (chain = [] → a.serverError = none))) :
    ∃ r, a.outcome = .ok r ∧ (r.isServerError = true → chain = []) := by
  unfold Attempt.passedOver Attempt.serverError at h
  cases houtcome : a.outcome with
  | error e => exact absurd ⟨by rw [houtcome], fun _ => by rw [houtcome]; rfl⟩ h
  | ok r =>
    refine ⟨r, rfl, fun hserver => ?_⟩
    by_contra hne
    exact h ⟨by rw [houtcome]; exact hserver, fun hnil => absurd hnil hne⟩

theorem fallbackLoop_eq (note : BackendResponse → β) {idx : Nat} {w : Walk β}
    (hlen : idx + chain.length = chainLen) (hresp : w.backendResp = none) :
    (fallbackLoop note chainLen idx w chain).attempts =
        w.attempts ++ (contacted chain).map (fun a => (a.backend, w.body)) ∧
      (fallbackLoop note chainLen idx w chain).backendResp =
        (contacted chain).getLast?.bind (fun a => a.outcome.toOption) ∧
      (fallbackLoop note chainLen idx w chain).last5xx =
        ((lastServerError chain).map note).or w.last5xx ∧
      (fallbackLoop note chainLen idx w chain).lastErr = (lastError chain).or w.lastErr := by
  induction chain generalizing idx w with
  | nil => exact ⟨by simp [fallbackLoop, contacted], hresp, rfl, rfl⟩
  | cons a chain ih =>
    have hnext : idx + 1 + chain.length = chainLen := by rw [length_cons] at hlen; omega
    by_cases hpass : a.passedOver = true ∧ (chain = [] → a.serverError = none)
    · -- the body is kept as long as another attempt follows
      have hbody : (contacted chain).map (fun x =>
          (x.backend, (w.passOver note (decide (idx + 1 = chainLen)) a).body)) =
            (contacted chain).map fun x => (x.backend, w.body) := by
        cases chain with
        | nil => rfl
        | cons b chain =>
          have hmore : idx + 1 ≠ chainLen := by rw [length_cons] at hnext; omega
          rw [decide_eq_false hmore]
          rfl
      rw [fallbackLoop_passedOver hlen hpass.1 hpass.2, contacted_of_passedOver hpass.1,
        lastServerError_of_passedOver hpass.1 hpass.2, lastError_of_passedOver hpass.1]
      obtain ⟨hattempts, hanswer, h5xx, herr⟩ :=
        ih (w := w.passOver note (decide (idx + 1 = chainLen)) a) hnext hresp
      refine ⟨?_, ?_, ?_, ?_⟩
      · rw [hattempts, hbody, map_cons]
        unfold Walk.passOver
        rw [append_assoc, singleton_append]
      · rw [hanswer]
        cases chain with
        | nil =>
          have herror : a.error.isSome = true := by
            simpa [Attempt.passedOver_eq, hpass.2 rfl] using hpass.1
          exact (a.toOption_outcome_of_error herror).symm
        | cons b chain =>
          rw [getLast?_cons_of_ne_nil (contacted_ne_nil (cons_ne_nil _ _))]
      · rw [h5xx, Option.map_or]
        exact Option.or_assoc.symm
      · rw [herr]
        exact Option.or_assoc.symm
    · obtain ⟨r, houtcome, hserver⟩ := answered_of_not_passedOver hpass
      have hone : contacted (a :: chain) = [a] := by
        rw [contacted]
        split
        next h => rw [hserver (by simpa [Attempt.passedOver, houtcome] using h)]; rfl
        next => rfl
      rw [fallbackLoop_answered hlen houtcome hserver]
      unfold lastServerError lastError
      rw [hone]
      refine ⟨rfl, ?_, rfl, ?_⟩
      · simp [houtcome, Except.toOption]
      · simp [Attempt.error, houtcome]

end Spec

/-! ## The handlers -/

/-- The chain of a request, with what its backends answer to the request. -/
def attemptsOf (send : BackendConfig → Json → Except Text BackendResponse) (body : Json)
    (chain : List BackendConfig) : List Attempt :=
  chain.map fun backend => ⟨backend, send backend body⟩

def Walk.result (w : Walk (Nat × Bytes)) : Except Exhausted BackendResponse :=
  (w.backendResp.map Except.ok).getD (.error ⟨w.lastErr, w.last5xx⟩)

theorem forwardLoop_eq (send : BackendConfig → Json → Except Text BackendResponse) (body : Json)
    {chain : List BackendConfig} {chainLen idx : Nat} {w : Walk (Nat × Bytes)}
    (hlen : idx + chain.length = chainLen) (hresp : w.backendResp = none) :
    forwardLoop send body ⟨w.lastErr, w.last5xx⟩ chain =
      (fallbackLoop (fun r => (r.status, r.drained)) chainLen idx w
        (attemptsOf send body chain)).result := by
  induction chain generalizing idx w with
  | nil => simp [attemptsOf, fallbackLoop, forwardLoop, Walk.result, hresp]
  | cons backend chain ih =>
    have hnext : idx + 1 + chain.length = chainLen := by rw [length_cons] at hlen; omega
    have hlast : (decide (idx + 1 < chainLen)) = !chain.isEmpty := by
      cases chain with
      | nil => simpa using hnext.ge
      | cons b chain =>
        rw [length_cons] at hnext
        simp only [isEmpty_cons, Bool.not_false, decide_eq_true_eq]
        omega
    rw [forwardLoop, attemptsOf, map_cons, fallbackLoop]
    cases houtcome : send backend body with
    | error e => exact ih (w := ⟨_, some e, w.last5xx, w.backendResp, _⟩) hnext hresp
    | ok r =>
      dsimp only
      rw [hlast]
      split
      · exact ih (w := ⟨_, w.lastErr, some (r.status, r.drained), w.backendResp, _⟩) hnext hresp
      · rfl

/-- **The handlers forward by the walk.** -/
theorem forward_eq_chatWalk (send : BackendConfig → Json → Except Text BackendResponse)
    (body : Json) (chain : List BackendConfig) :
    forward send body chain = (chatWalk body (attemptsOf send body chain)).result := by
  have hlen : 0 + chain.length = (attemptsOf send body chain).length := by
    simp [attemptsOf]
  exact forwardLoop_eq send body (w := ⟨body, none, none, none, []⟩) hlen rfl

/-- The status of the reply of `chat_completions` if there is no answer. -/
def chatFailureStatus (w : Walk (Nat × Bytes)) : Nat :=
  (ChatReply.exhausted ⟨w.lastErr, w.last5xx⟩).response.1

/-- The status of the reply of `messages` if there is no answer. -/
def messagesFailureStatus (w : Walk Nat) : Nat := w.last5xx.getD 502

theorem forwardBody_eq (backend : BackendConfig) (body : Json) :
    forwardBody backend body = body ∨ body.get "model".toList = none ∧
      ∃ model, backend.model = some model ∧
        forwardBody backend body = body.insert "model".toList (.str model) := by
  unfold forwardBody
  cases hmodel : backend.model with
  | none => exact .inl rfl
  | some model =>
    dsimp only
    split
    next h => exact .inr ⟨Option.isNone_iff_eq_none.1 h, model, rfl, rfl⟩
    next => exact .inl rfl

def exampleAnswer (status : Nat) : BackendResponse := ⟨status, none, [], none⟩

/-- The first backend is overloaded, the second cannot be reached. -/
def exampleChain : List Attempt :=
  [⟨⟨"openai".toList, "http://a".toList, none, some "gpt-4o".toList⟩, .ok (exampleAnswer 503)⟩,
    ⟨⟨"ollama".toList, "http://b".toList, none, some "qwen3".toList⟩, .error "refused".toList⟩]

def exampleFields : List (Text × Json) := [("messages".toList, .arr [])]

end Nanoguard.Proxy

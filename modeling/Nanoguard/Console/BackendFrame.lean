import Nanoguard.Console.PoolKept

/-!
# What a mutation of the backends leaves as it was

A request names one backend and says what is to become of it: its provider and its endpoint, whether
its key is kept, cleared or replaced, or that it goes. Everything else should stay. The edits look for
tables and do not see inline ones.
-/

namespace Nanoguard.Console

open Backend (BackendConfig)

/-! ## What is asked for -/

/-- The entry for a request, over the one that is stored. A value that the request leaves out is
kept. -/
def BackendUpsertRequest.over (body : BackendUpsertRequest) (stored : Option BackendConfig) :
    BackendConfig where
  provider := body.provider
  endpoint := body.endpoint
  apiKey := body.apiKey.getD (stored.bind (·.apiKey))
  model := body.model.or (stored.bind (·.model))

namespace Mutation

def target : Mutation → Option Text
  | .create name _ => some (Str.trim name)
  | .update name _ | .delete name => some name
  | .routing _ => none

/-- What the backend is to become, from what is stored. -/
def asked : Mutation → Option BackendConfig → Option BackendConfig
  | .create _ body, stored | .update _ body, stored => some (body.over stored)
  | .delete _, _ => none
  | .routing _, stored => stored

end Mutation

/-- The backend is as asked, and nothing else has changed. -/
structure AsAsked (m : Mutation) (name : Text) (doc doc' : ConfigDoc) : Prop where
  target : doc'.config.backends.lookup name = m.asked (doc.config.backends.lookup name)
  others : ∀ label, label ≠ name →
    doc'.config.backends.lookup label = doc.config.backends.lookup label
  backend : doc'.config.backend = doc.config.backend
  routing : doc'.config.routing = doc.config.routing
  rest : doc'.rest = doc.rest

/-- The entry is an inline table in a section that is none. -/
def ConfigDoc.inlineEntry (doc : ConfigDoc) (name : Text) : Bool :=
  (doc.backends.map fun tbl => decide (name ∈ tbl.inlineEntries)).getD false

def LeavesOutNothing (body : BackendUpsertRequest) (stored : Option BackendConfig) : Prop :=
  (body.apiKey = none → stored.bind (·.apiKey) = none) ∧
    (body.model = none → stored.bind (·.model) = none)

/-- The layout of the section does not stand in the way of the mutation. -/
def LayoutFits (doc : ConfigDoc) : Mutation → Prop
  | .create _ _ | .routing _ => True
  | .update name body =>
    doc.inlineEntry name = false ∨ LeavesOutNothing body (doc.config.backends.lookup name)
  | .delete _ => doc.fixedBackends = false

/-! ## The edits -/

section

variable {doc doc' : ConfigDoc} {name : Text} {body : BackendUpsertRequest} {m : Mutation}

/-- What an edit sees of the backend. -/
def ConfigDoc.seen (doc : ConfigDoc) (name : Text) : Option BackendConfig :=
  if doc.inlineEntry name then none else doc.config.backends.lookup name

theorem upsertBackend_ok (h : doc.upsertBackend name body = .ok doc') :
    doc'.config = { doc.config with
      backends := doc.config.backends.insert name (body.over (doc.seen name)) } ∧
      doc'.rest = doc.rest := by
  unfold ConfigDoc.upsertBackend at h
  dsimp only at h
  split at h
  · cases h
  cases h
  unfold ConfigDoc.seen ConfigDoc.inlineEntry ConfigDoc.config BackendUpsertRequest.over
  cases doc.backends with
  | none => simp
  | some tbl => simp

theorem asAsked_upsert_iff (h : doc.upsertBackend name body = .ok doc')
    (hm : m.asked (doc.config.backends.lookup name) =
      some (body.over (doc.config.backends.lookup name))) :
    AsAsked m name doc doc' ↔
      body.over (doc.seen name) = body.over (doc.config.backends.lookup name) := by
  obtain ⟨hconfig, hrest⟩ := upsertBackend_ok h
  have hself : doc'.config.backends.lookup name = some (body.over (doc.seen name)) := by
    rw [hconfig]
    exact AList.lookup_insert _
  constructor
  · intro hasked
    have htarget := hasked.target
    rw [hself, hm] at htarget
    exact Option.some.inj htarget
  · intro hsame
    refine ⟨by rw [hself, hm, hsame], fun label hne => ?_, ?_, ?_, hrest⟩
    · rw [hconfig]
      exact AList.lookup_insert_ne hne
    · rw [hconfig]
    · rw [hconfig]

theorem over_seen_iff :
    body.over (doc.seen name) = body.over (doc.config.backends.lookup name) ↔
      doc.inlineEntry name = false ∨ LeavesOutNothing body (doc.config.backends.lookup name) := by
  unfold ConfigDoc.seen
  cases doc.inlineEntry name with
  | false => exact ⟨fun _ => .inl rfl, fun _ => rfl⟩
  | true =>
    simp only [BackendUpsertRequest.over, BackendConfig.mk.injEq, true_and, Bool.true_eq_false, false_or]
    apply and_congr
    · cases body.apiKey with
      | none => exact ⟨fun h _ => h.symm, fun h => (h rfl).symm⟩
      | some key => exact ⟨fun _ => nofun, fun _ => rfl⟩
    · cases body.model with
      | none => exact ⟨fun h _ => h.symm, fun h => (h rfl).symm⟩
      | some model => exact ⟨fun _ => nofun, fun _ => rfl⟩

theorem asAsked_delete_iff (hstored : name ∈ doc.config.backends) :
    AsAsked (.delete name) name doc (doc.deleteBackend name) ↔ doc.fixedBackends = false := by
  have hconfig := config_deleteBackend doc name
  constructor
  · intro hasked
    cases hfixed : doc.fixedBackends with
    | false => rfl
    | true =>
      rw [hfixed, if_pos rfl] at hconfig
      have hgone : doc.config.backends.lookup name = none := by
        rw [← hconfig]
        exact hasked.target
      exact absurd hstored (AList.lookup_eq_none.1 hgone)
  · intro hfixed
    rw [hfixed, if_neg Bool.false_ne_true] at hconfig
    refine ⟨?_, fun label hne => ?_, ?_, ?_, ?_⟩
    · rw [hconfig]
      exact AList.lookup_erase _ _
    · rw [hconfig]
      exact AList.lookup_erase_ne hne
    · rw [hconfig]
    · rw [hconfig]
    unfold ConfigDoc.deleteBackend
    cases doc.backends with
    | none => rfl
    | some tbl => dsimp only; split <;> rfl

end

/-- **A mutation that is answered with success does what was asked, and nothing else, exactly if** a
deletion meets a section that is no inline table, and an update of an inline entry leaves out no
stored value. -/
theorem mutation_asAsked_iff (call : MutationCall) (env : BackendConfig) (file file' : ConfigFile)
    (n : Nat) (name : Text) (hserve : call.serve env file = (file', .ok n))
    (htarget : call.mutation.target = some name) :
    ∃ doc doc', file = .valid doc ∧ file' = .valid doc' ∧
      (AsAsked call.mutation name doc doc' ↔ LayoutFits doc call.mutation) := by
  obtain ⟨doc, m, doc', rfl, hcheck, hedit, rfl⟩ := serve_ok hserve
  refine ⟨doc, doc', rfl, rfl, ?_⟩
  cases hmutation : call.mutation with
  | create label body =>
    rw [hmutation] at hcheck htarget
    cases htarget
    obtain ⟨rfl, hnew⟩ := check_create hcheck
    have hnone : doc.config.backends.lookup (Str.trim label) = none := AList.lookup_eq_none.2 hnew
    have hseen : doc.seen (Str.trim label) = doc.config.backends.lookup (Str.trim label) := by
      unfold ConfigDoc.seen
      rw [hnone, ite_self]
    exact (asAsked_upsert_iff hedit rfl).trans ⟨fun _ => trivial, fun _ => by rw [hseen]⟩
  | update label body =>
    rw [hmutation] at hcheck htarget
    cases htarget
    obtain ⟨rfl, -⟩ := check_update hcheck
    exact (asAsked_upsert_iff hedit rfl).trans over_seen_iff
  | delete label =>
    rw [hmutation] at hcheck htarget
    cases htarget
    obtain ⟨rfl, hstored, -⟩ := check_delete hcheck
    cases hedit
    exact asAsked_delete_iff hstored
  | routing body =>
    rw [hmutation] at htarget
    cases htarget

section Examples

def keyedBackend : BackendConfig :=
  ⟨"openai".toList, "https://api.example".toList, some "sk".toList, some "m".toList⟩

/-- Two backends, in a section that is one inline table or with an inline entry for `b`. -/
def inlineDoc (inline : Bool) : ConfigDoc where
  backend := none
  backends := some ⟨inline, ((∅ : Backends).insert "b".toList keyedBackend).insert "a".toList
    exampleBackend, ["b".toList]⟩
  routing := some ⟨false, some "a".toList, []⟩
  rest := []

theorem mutation_asAsked_plain_entry :
    ∃ doc', (asAdmin (.update "b".toList upsertBody)).serve exampleBackend (.valid fallbackDoc) =
        (.valid doc', .ok 200) ∧
      AsAsked (.update "b".toList upsertBody) "b".toList fallbackDoc doc' := by
  obtain ⟨doc, doc', hdoc, hdoc', h⟩ := mutation_asAsked_iff
    (asAdmin (.update "b".toList upsertBody)) exampleBackend (.valid fallbackDoc) _ 200 "b".toList
    rfl rfl
  cases hdoc
  exact ⟨doc', Prod.ext hdoc' rfl, h.2 (.inl rfl)⟩

/-- **Inline tables.** A backend is still there after its deletion, and an entry loses its key and
its model to an update that mentions neither. -/
theorem inline_tables_mishandled :
    let lookupAfter (m : Mutation) (doc : ConfigDoc) :=
      match (asAdmin m).serve exampleBackend (.valid doc) with
      | (.valid doc', .ok status) => some (status, doc'.config.backends.lookup "b".toList)
      | _ => none
    lookupAfter (.delete "b".toList) (inlineDoc true) = some (200, some keyedBackend) ∧
      lookupAfter (.update "b".toList upsertBody) (inlineDoc false) =
        some (200, some { keyedBackend with apiKey := none, model := none }) :=
  ⟨rfl, rfl⟩

end Examples

end Nanoguard.Console

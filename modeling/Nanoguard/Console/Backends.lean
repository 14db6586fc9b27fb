import Nanoguard.Backend.Pool
import Nanoguard.Console.Db

/-!
# Editing backends and routing from the console

A mutation looks at the configuration, refuses what it can see to be wrong, then reads the file
again, changes one section and writes it back. The file is a document here, with what the mutations
look at: `[backend]`, `[backends]` and its entries, which may be written inline, and `[routing]`.
-/

namespace Nanoguard.Console

open Backend (BackendConfig RoutingConfig RoutingRule)

/-! ## Documents -/

abbrev Backends : Type := AList (fun _ : Text => BackendConfig)

structure BackendsSection where
  /-- the section is one inline table -/
  inline : Bool
  entries : Backends
  /-- the entries that are inline tables in a section that is none -/
  inlineEntries : List Text

structure RoutingSection where
  inline : Bool
  config : RoutingConfig

structure ConfigDoc where
  backend : Option BackendConfig
  backends : Option BackendsSection
  routing : Option RoutingSection
  /-- everything else, as it is written -/
  rest : Text

/-- The parts of the configuration that the handlers look at. -/
structure PoolConfig where
  backend : Option BackendConfig
  backends : Backends
  routing : RoutingConfig

def ConfigDoc.config (doc : ConfigDoc) : PoolConfig where
  backend := doc.backend
  backends := (doc.backends.map (·.entries)).getD ∅
  routing := (doc.routing.map (·.config)).getD ⟨none, []⟩

/-- The configuration file: it may be missing, or not be a configuration. -/
inductive ConfigFile where
  | missing
  | invalid (error : Text)
  | valid (doc : ConfigDoc)

/-- `fresh_config`. Without a file there is one backend, made from the environment. -/
def ConfigFile.freshConfig (env : BackendConfig) : ConfigFile → Except Text PoolConfig
  | .missing => .ok ⟨some env, ∅, ⟨none, []⟩⟩
  | .invalid e => .error e
  | .valid doc => .ok doc.config

def ConfigFile.read : ConfigFile → Except Text ConfigDoc
  | .missing => .error "reading nanoguard.toml: No such file or directory (os error 2)".toList
  | .invalid e => .error ("parsing nanoguard.toml: ".toList ++ e)
  | .valid doc => .ok doc

/-! ## Requests -/

structure BackendUpsertRequest where
  provider : Text
  endpoint : Text
  /-- absent: keep the key; `null`: clear it -/
  apiKey : Option (Option Text)
  model : Option Text
  deriving DecidableEq, Repr

variable {body : BackendUpsertRequest}

structure RoutingUpdateRequest where
  default : Text
  rules : List RoutingRule
  deriving DecidableEq, Repr

/-- White space is removed once, at the boundary. -/
def RoutingUpdateRequest.trimmed (body : RoutingUpdateRequest) : RoutingUpdateRequest where
  default := Str.trim body.default
  rules := body.rules.map fun r =>
    { model := Str.trim r.model
      backend := Str.trim r.backend
      fallback := (r.fallback.map Str.trim).filter fun f => !f.isEmpty }

def validateBackendName (name : Text) : Except Text Unit :=
  if name.isEmpty then .error "backend name cannot be empty".toList
  else if 64 < Str.len name then .error "backend name too long (max 64 chars)".toList
  else if !name.all fun c => c.isAlphanum || c == '-' || c == '_' then
    .error "backend name must match [A-Za-z0-9_-]+".toList
  else .ok ()

def validateBackendBody (body : BackendUpsertRequest) : Except Text Unit :=
  if body.provider ∉ ["openai".toList, "anthropic".toList, "ollama".toList] then
    .error ("unknown provider `".toList ++ body.provider ++
      "` (openai|anthropic|ollama)".toList)
  else
    let endpoint := Str.trim body.endpoint
    if endpoint.isEmpty then .error "endpoint cannot be empty".toList
    else if ¬ "http://".toList <+: endpoint ∧ ¬ "https://".toList <+: endpoint then
      .error "endpoint must start with http:// or https://".toList
    else .ok ()

section Routing

variable (backends : Backends)

/-- The fallbacks of rule `i`, from the one with number `fi` on. -/
def validateFallbacks (i : Nat) (backend : Text) : Nat → List Text → List Text → Except Text Unit
  | _, _, [] => .ok ()
  | fi, seen, fb :: fallback =>
    let fb := Str.trim fb
    let about (what : String) := "rule[".toList ++ Str.decimal i ++ "].fallback[".toList ++
      Str.decimal fi ++ "] = `".toList ++ fb ++ "` ".toList ++ what.toList
    if fb.isEmpty then
      .error ("rule[".toList ++ Str.decimal i ++ "].fallback[".toList ++ Str.decimal fi ++
        "] cannot be empty".toList)
    else if fb ∉ backends then .error (about "is not a configured backend")
    else if fb = backend then .error (about "is the same as the rule's primary backend")
    else if fb ∈ seen then .error (about "is repeated in the same rule")
    else validateFallbacks i backend (fi + 1) (fb :: seen) fallback

def validateRules : Nat → List Text → List RoutingRule → Except Text Unit
  | _, _, [] => .ok ()
  | i, seenModels, rule :: rules => do
    let model := Str.trim rule.model
    let backend := Str.trim rule.backend
    let inRule (field : String) := "rule[".toList ++ Str.decimal i ++ "].".toList ++ field.toList
    if model.isEmpty then .error (inRule "model cannot be empty")
    else if backend.isEmpty then .error (inRule "backend cannot be empty")
    else if backend ∉ backends then
      .error (inRule "backend = `" ++ backend ++ "` is not a configured backend".toList)
    else
      validateFallbacks backends i backend 0 [] rule.fallback
      if model ∈ seenModels then
        .error (inRule "model = `" ++ model ++
          "` is duplicated; later occurrence would never fire".toList)
      else validateRules (i + 1) (model :: seenModels) rules

def validateRoutingBody (body : RoutingUpdateRequest) : Except Text Unit :=
  let default := Str.trim body.default
  if default.isEmpty then .error "routing.default cannot be empty".toList
  else if default ∉ backends then
    .error ("routing.default = `".toList ++ default ++ "` is not a configured backend".toList)
  else validateRules backends 0 [] body.rules

end Routing

/-! ## Changing a document -/

namespace ConfigDoc

variable (doc : ConfigDoc)

/-- `upsert_backend_in_toml`. The values of an inline entry are not kept. -/
def upsertBackend (name : Text) (body : BackendUpsertRequest) : Except Text ConfigDoc :=
  let tbl := doc.backends.getD ⟨false, ∅, []⟩
  if tbl.inline then .error "[backends] in nanoguard.toml is not a table".toList
  else
    let existing := if name ∈ tbl.inlineEntries then none else tbl.entries.lookup name
    let entry : BackendConfig :=
      { provider := body.provider
        endpoint := body.endpoint
        apiKey := body.apiKey.getD (existing.bind (·.apiKey))
        model := body.model.or (existing.bind (·.model)) }
    .ok { doc with
      backends := some ⟨false, tbl.entries.insert name entry, tbl.inlineEntries.filter (· ≠ name)⟩ }

/-- `delete_backend_in_toml`. A section that is one inline table stays as it is. -/
def deleteBackend (name : Text) : ConfigDoc :=
  match doc.backends with
  | some tbl =>
    if tbl.inline then doc
    else
      { doc with
        backends := some
          ⟨false, tbl.entries.erase name, tbl.inlineEntries.filter (· ≠ name)⟩ }
  | none => doc

def writeRouting (body : RoutingUpdateRequest) : Except Text ConfigDoc :=
  if (doc.routing.map (·.inline)).getD false then
    .error "[routing] in nanoguard.toml is not a table".toList
  else .ok { doc with routing := some ⟨false, ⟨some body.default, body.rules⟩⟩ }

end ConfigDoc

/-! ## Mutations -/

inductive Mutation where
  | create (name : Text) (body : BackendUpsertRequest)
  | update (name : Text) (body : BackendUpsertRequest)
  | delete (name : Text)
  | routing (body : RoutingUpdateRequest)
  deriving DecidableEq, Repr

namespace Mutation

def badRequest (x : Except Text Unit) : Except (Nat × Text) Unit := x.mapError fun e => (400, e)

def serverError {α : Type} (x : Except Text α) : Except (Nat × Text) α :=
  x.mapError fun e => (500, e)

/-- Everything before the file is read to be changed. The result is the mutation as it will be
made. -/
def check (fresh : Except Text PoolConfig) : Mutation → Except (Nat × Text) Mutation
  | .create name body => do
    let name := Str.trim name
    if name.isEmpty then .error (400, "name query parameter is required".toList)
    else
      badRequest (validateBackendName name)
      badRequest (validateBackendBody body)
      let cfg ← serverError fresh
      if name ∈ cfg.backends then
        .error (409, "backend `".toList ++ name ++ "` already exists; PUT to update".toList)
      else return .create name body
  | .update name body => do
    badRequest (validateBackendName name)
    badRequest (validateBackendBody body)
    let cfg ← serverError fresh
    if name ∉ cfg.backends then .error (404, "backend `".toList ++ name ++ "` not found".toList)
    else return .update name body
  | .delete name => do
    let cfg ← serverError fresh
    let refusal (why : String) := "cannot delete backend `".toList ++ name ++ "`: ".toList ++
      why.toList
    if name ∉ cfg.backends then .error (404, "backend `".toList ++ name ++ "` not found".toList)
    else if cfg.routing.default = some name then
      .error (409, refusal "it is the routing default. Change [routing].default first.")
    else if cfg.routing.rules.any fun r => r.backend = name then
      .error (409, refusal
        "at least one [routing] rule references it. Update the rules first.")
    else return .delete name
  | .routing body => do
    let body := body.trimmed
    let cfg ← serverError fresh
    badRequest (validateRoutingBody cfg.backends body)
    return .routing body

def edit (doc : ConfigDoc) : Mutation → Except Text ConfigDoc
  | .create name body | .update name body => doc.upsertBackend name body
  | .delete name => .ok (doc.deleteBackend name)
  | .routing body => doc.writeRouting body

def status : Mutation → Nat
  | .create _ _ => 201
  | _ => 200

end Mutation

/-- A request for a mutation. `ioError` is what writing the file fails with, if it does. -/
structure MutationCall where
  user : User
  mutation : Mutation
  ioError : Option Text

def MutationCall.checked (call : MutationCall) (env : BackendConfig) (file : ConfigFile) :
    Except (Nat × Text) Mutation := do
  requireAdmin call.user
  call.mutation.check (file.freshConfig env)

def MutationCall.edited (call : MutationCall) (m : Mutation) (file : ConfigFile) :
    Except (Nat × Text) ConfigDoc := do
  let doc ← Mutation.serverError (file.read >>= fun doc => m.edit doc)
  match call.ioError with
  | some e => .error (500, e)
  | none => return doc

/-- A handler, undisturbed: the file afterwards and the answer. -/
def MutationCall.serve (call : MutationCall) (env : BackendConfig) (file : ConfigFile) :
    ConfigFile × Except (Nat × Text) Nat :=
  match call.checked env file >>= fun m => (call.edited m file).map fun doc => (m, doc) with
  | .ok (m, doc) => (.valid doc, .ok m.status)
  | .error e => (file, .error e)

/-! ## What a successful mutation has done -/

section

variable {call : MutationCall} {env : BackendConfig} {file file' : ConfigFile} {n : Nat}
  {cfg : PoolConfig} {doc doc' : ConfigDoc} {m : Mutation} {name : Text}

theorem serve_ok (h : call.serve env file = (file', .ok n)) :
    ∃ doc m doc', file = .valid doc ∧ call.mutation.check (.ok doc.config) = .ok m ∧
      m.edit doc = .ok doc' ∧ file' = .valid doc' := by
  unfold MutationCall.serve at h
  split at h
  next m doc' hok =>
    obtain ⟨m', hchecked, hedited⟩ := bind_eq_ok.1 hok
    obtain ⟨doc'', hdoc, hpair⟩ := map_eq_ok.1 hedited
    cases hpair
    obtain ⟨_, -, hcheck⟩ := bind_eq_ok.1 hchecked
    obtain ⟨doc₀, hread, hio⟩ := bind_eq_ok.1 hdoc
    obtain ⟨doc₁, hfile, hedit⟩ := bind_eq_ok.1 (mapError_eq_ok.1 hread)
    cases file with
    | missing | invalid e => cases hfile
    | valid doc =>
      cases hfile
      split at hio
      · cases hio
      · cases hio
        cases h
        exact ⟨_, m, _, rfl, hcheck, hedit, rfl⟩
  next => cases h

theorem check_create (h : (Mutation.create name body).check (.ok cfg) = .ok m) :
    m = .create (Str.trim name) body ∧ Str.trim name ∉ cfg.backends := by
  obtain ⟨-, h⟩ := guard_eq_ok.1 h
  obtain ⟨_, -, h⟩ := bind_eq_ok.1 h
  obtain ⟨_, -, h⟩ := bind_eq_ok.1 h
  obtain ⟨cfg', hcfg, h⟩ := bind_eq_ok.1 h
  cases hcfg
  obtain ⟨hnew, h⟩ := guard_eq_ok.1 h
  cases h
  exact ⟨rfl, hnew⟩

theorem check_update (h : (Mutation.update name body).check (.ok cfg) = .ok m) :
    m = .update name body ∧ name ∈ cfg.backends := by
  obtain ⟨_, -, h⟩ := bind_eq_ok.1 h
  obtain ⟨_, -, h⟩ := bind_eq_ok.1 h
  obtain ⟨cfg', hcfg, h⟩ := bind_eq_ok.1 h
  cases hcfg
  obtain ⟨hold, h⟩ := guard_eq_ok.1 h
  cases h
  exact ⟨rfl, not_not.1 hold⟩

theorem check_delete (h : (Mutation.delete name).check (.ok cfg) = .ok m) :
    m = .delete name ∧ name ∈ cfg.backends ∧ cfg.routing.default ≠ some name ∧
      ∀ rule ∈ cfg.routing.rules, rule.backend ≠ name := by
  obtain ⟨cfg', hcfg, h⟩ := bind_eq_ok.1 h
  cases hcfg
  simp only [guard_eq_ok] at h
  obtain ⟨hold, hdefault, hrules, h⟩ := h
  cases h
  exact ⟨rfl, not_not.1 hold, hdefault, by simpa using hrules⟩

theorem check_routing {body : RoutingUpdateRequest}
    (h : (Mutation.routing body).check (.ok cfg) = .ok m) :
    m = .routing body.trimmed ∧ validateRoutingBody cfg.backends body.trimmed = .ok () := by
  obtain ⟨cfg', hcfg, h⟩ := bind_eq_ok.1 h
  cases hcfg
  obtain ⟨_, hvalid, h⟩ := bind_eq_ok.1 h
  cases h
  exact ⟨rfl, mapError_eq_ok.1 hvalid⟩

theorem config_upsertBackend (h : doc.upsertBackend name body = .ok doc') :
    ∃ entry, doc'.config =
      { doc.config with backends := doc.config.backends.insert name entry } := by
  unfold ConfigDoc.upsertBackend at h
  dsimp only at h
  split at h
  · cases h
  cases h
  have hentries : doc.config.backends = (doc.backends.getD ⟨false, ∅, []⟩).entries := by
    unfold ConfigDoc.config
    cases doc.backends <;> rfl
  rw [hentries]
  exact ⟨_, rfl⟩

/-- Nothing is deleted from a section that is one inline table. -/
def ConfigDoc.fixedBackends (doc : ConfigDoc) : Bool := (doc.backends.map (·.inline)).getD false

theorem config_deleteBackend (doc : ConfigDoc) (name : Text) :
    (doc.deleteBackend name).config =
      if doc.fixedBackends then doc.config
      else { doc.config with backends := doc.config.backends.erase name } := by
  unfold ConfigDoc.deleteBackend ConfigDoc.fixedBackends
  cases hsection : doc.backends with
  | none =>
    simp only [ConfigDoc.config, hsection]
    rfl
  | some tbl =>
    dsimp only [Option.map_some, Option.getD_some]
    split
    · rfl
    · simp only [ConfigDoc.config, hsection]
      rfl

theorem config_writeRouting {body : RoutingUpdateRequest} (h : doc.writeRouting body = .ok doc') :
    doc'.config = { doc.config with routing := ⟨some body.default, body.rules⟩ } := by
  unfold ConfigDoc.writeRouting at h
  split at h
  · cases h
  · cases h
    rfl

end

end Nanoguard.Console

import Mathlib.Data.List.Sort
import Mathlib.Data.String.Basic
import Nanoguard.Console.Auth
import Nanoguard.Proxy.SseFrame

/-!
# The routes of the console

The table of routes, with the extractor that each handler takes first. What the handlers do for a
user is a parameter; what matters here is what is answered before, and the handlers that take no
user: the assets, the login, and `GET /api/config`, which sends the configuration files.
-/

namespace Nanoguard.Console

open List

open Guard (JsonText)

/-! ## Requests and answers -/

inductive Method where
  | get
  | head
  | post
  | put
  | delete
  | other (name : Text)
  deriving DecidableEq, Repr

def Method.name : Method → Text
  | .get => "GET".toList
  | .head => "HEAD".toList
  | .post => "POST".toList
  | .put => "PUT".toList
  | .delete => "DELETE".toList
  | .other name => name

structure Request where
  method : Method
  path : Text
  query : Option Text
  headers : Headers
  body : List UInt8

structure Response where
  status : Nat
  headers : List (Text × Text)
  body : Text
  deriving DecidableEq, Repr

def jsonResponse (J : JsonText) (status : Nat) (value : Json) : Response :=
  ⟨status, [("content-type".toList, "application/json".toList)], J.toText value⟩

def AuthError.json (e : AuthError) : Json := .obj [("error".toList, .str e.message)]

def AuthError.response (J : JsonText) (e : AuthError) : Response := jsonResponse J e.status e.json

/-- The length of the body is noted, and the body of an answer to `HEAD` is dropped after that. -/
def Response.finish (resp : Response) (head : Bool) : Response :=
  let size := ("content-length".toList, Str.decimal (Str.len resp.body))
  { resp with
    headers := if (resp.headers.lookup size.1).isSome then resp.headers else resp.headers ++ [size]
    body := if head then [] else resp.body }

/-! ## The configuration files -/

/-- An entry of a directory that could be listed, and its content if that could be read. -/
structure DirEntry where
  name : Text
  content : Option Text
  deriving DecidableEq, Repr

/-- The files that the console shows, as far as they can be read. -/
structure ConfigFiles where
  nanoguardToml : Option Text
  dicts : Option (List DirEntry)
  policies : Option (List DirEntry)
  deriving DecidableEq, Repr

def pathExtension (name : Text) : Option Text :=
  match Str.rsplitOnce '.' name with
  | some (stem, extension) => if stem.isEmpty then none else some extension
  | none => none

def addDir (dir extension : Text) (entries : Option (List DirEntry))
    (files : AList (fun _ : Text => Text)) : AList (fun _ : Text => Text) :=
  (entries.getD []).foldl (fun files entry =>
    if pathExtension entry.name = some extension then
      match entry.content with
      | some content => files.insert (dir ++ '/' :: entry.name) content
      | none => files
    else files) files

def ConfigFiles.collect (fs : ConfigFiles) : AList (fun _ : Text => Text) :=
  let files := match fs.nanoguardToml with
    | some content => (∅ : AList (fun _ : Text => Text)).insert "nanoguard.toml".toList content
    | none => ∅
  let files := addDir "dicts".toList "txt".toList fs.dicts files
  addDir "policies".toList "yaml".toList fs.policies files

/-- The fields of the answer. JSON objects are sorted by their keys. -/
def ConfigFiles.fields (fs : ConfigFiles) : List (Text × Text) :=
  (fs.collect.entries.map fun e => (e.1, e.2)).insertionSort fun a b => a.1 ≤ b.1

def ConfigFiles.json (fs : ConfigFiles) : Json :=
  .obj [("files".toList, .obj (fs.fields.map fun f => (f.1, .str f.2)))]

def apiConfig (J : JsonText) (fs : ConfigFiles) : Response := jsonResponse J 200 fs.json

/-! ## The table -/

inductive OpenEndpoint where
  | index | styles | appJs | apiLogin | apiConfig
  deriving DecidableEq, Repr

inductive ReadingEndpoint where
  | apiMe | apiListTokens | apiAudit | apiBudget | apiOverview | apiListBackends | apiListUsers
  | apiValidateFile | apiListBackups | apiReloadStatus | apiConsoleAudit
  deriving DecidableEq, Repr

inductive MutatingEndpoint where
  | apiLogout | apiCreateToken | apiRevokeToken | apiSetBudgetLimit | apiResetBudgetUsage
  | apiPlaygroundProxy | apiPlaygroundBackend | apiCreateBackend | apiUpdateBackend
  | apiDeleteBackend | apiUpdateRouting | apiCreateUser | apiUpdateUser | apiForceRevokeUserTokens
  | apiResetUserPassword | apiEditFile | apiRevertFile | apiTriggerReload
  deriving DecidableEq, Repr

inductive Endpoint where
  | «open» (e : OpenEndpoint)
  | reading (e : ReadingEndpoint)
  | mutating (e : MutatingEndpoint)
  deriving DecidableEq, Repr

def routes : List (String × List (Method × Endpoint)) :=
  [("/", [(.get, .open .index)]),
    ("/styles.css", [(.get, .open .styles)]),
    ("/app.js", [(.get, .open .appJs)]),
    ("/api/login", [(.post, .open .apiLogin)]),
    ("/api/logout", [(.post, .mutating .apiLogout)]),
    ("/api/me", [(.get, .reading .apiMe)]),
    ("/api/tokens", [(.get, .reading .apiListTokens), (.post, .mutating .apiCreateToken)]),
    ("/api/tokens/:id", [(.delete, .mutating .apiRevokeToken)]),
    ("/api/audit", [(.get, .reading .apiAudit)]),
    ("/api/budget", [(.get, .reading .apiBudget)]),
    ("/api/config", [(.get, .open .apiConfig)]),
    ("/api/overview", [(.get, .reading .apiOverview)]),
    ("/api/budget/limit", [(.post, .mutating .apiSetBudgetLimit)]),
    ("/api/budget/reset", [(.post, .mutating .apiResetBudgetUsage)]),
    ("/api/playground/proxy", [(.post, .mutating .apiPlaygroundProxy)]),
    ("/api/playground/backend", [(.post, .mutating .apiPlaygroundBackend)]),
    ("/api/backends", [(.get, .reading .apiListBackends), (.post, .mutating .apiCreateBackend)]),
    ("/api/backends/:name",
      [(.put, .mutating .apiUpdateBackend), (.delete, .mutating .apiDeleteBackend)]),
    ("/api/routing", [(.put, .mutating .apiUpdateRouting)]),
    ("/api/users", [(.get, .reading .apiListUsers), (.post, .mutating .apiCreateUser)]),
    ("/api/users/:id", [(.put, .mutating .apiUpdateUser)]),
    ("/api/users/:id/force-revoke-tokens", [(.post, .mutating .apiForceRevokeUserTokens)]),
    ("/api/users/:id/reset-password", [(.post, .mutating .apiResetUserPassword)]),
    ("/api/edit", [(.post, .mutating .apiEditFile)]),
    ("/api/validate", [(.post, .reading .apiValidateFile)]),
    ("/api/backups", [(.get, .reading .apiListBackups)]),
    ("/api/revert", [(.post, .mutating .apiRevertFile)]),
    ("/api/reload/trigger", [(.post, .mutating .apiTriggerReload)]),
    ("/api/reload/status", [(.get, .reading .apiReloadStatus)]),
    ("/api/console-audit", [(.get, .reading .apiConsoleAudit)])]

/-- A parameter takes one segment. -/
def matchSegments (emptySegment : Bool) : List Text → List Text → Bool
  | [], [] => true
  | p :: ps, s :: ss =>
    (if p.head? = some ':' then !s.isEmpty || (emptySegment && !ss.isEmpty) else p == s) &&
      matchSegments emptySegment ps ss
  | _, _ => false

def matchPath (emptySegment : Bool) (pattern path : Text) : Bool :=
  matchSegments emptySegment (Str.splitChar '/' pattern) (Str.splitChar '/' path)

inductive Dispatch where
  | notFound
  | methodNotAllowed (allow : Text)
  | found (e : Endpoint)
  deriving DecidableEq, Repr

/-- The methods of a route as the header `allow` lists them. -/
def allowHeader (methods : List (Method × Endpoint)) : Text :=
  Str.join [','] (methods.flatMap fun m =>
    if m.1 = .get then [Method.get.name, Method.head.name] else [m.1.name])

/-- A route for `GET` also takes `HEAD`. -/
def dispatch (emptySegment : Bool) (req : Request) : Dispatch :=
  match routes.find? fun r => matchPath emptySegment r.1.toList req.path with
  | none => .notFound
  | some (_, methods) =>
    match methods.find? fun m => m.1 = req.method ∨ (req.method = .head ∧ m.1 = .get) with
    | some (_, e) => .found e
    | none => .methodNotAllowed (allowHeader methods)

theorem eq_of_matchSegments {emptySegment : Bool} {ps ss : List Text}
    (hps : ∀ p ∈ ps, p.head? ≠ some ':') (h : matchSegments emptySegment ps ss = true) : ss = ps := by
  induction ps generalizing ss with
  | nil =>
    cases ss with
    | nil => rfl
    | cons s ss => cases h
  | cons p ps ih =>
    cases ss with
    | nil => cases h
    | cons s ss =>
      rw [matchSegments, if_neg (hps p mem_cons_self), Bool.and_eq_true] at h
      rw [eq_of_beq h.1, ih (forall_mem_cons.1 hps).2 h.2]

theorem eq_of_matchPath {emptySegment : Bool} {pattern path : Text}
    (hpattern : ∀ p ∈ Str.splitChar '/' pattern, p.head? ≠ some ':')
    (h : matchPath emptySegment pattern path = true) : path = pattern := by
  have hsegments : path.splitOn '/' = pattern.splitOn '/' := eq_of_matchSegments hpattern h
  calc path = ['/'].intercalate (path.splitOn '/') := (intercalate_splitOn '/').symm
    _ = ['/'].intercalate (pattern.splitOn '/') := by rw [hsegments]
    _ = pattern := intercalate_splitOn '/'

theorem of_dispatch_login {emptySegment : Bool} {req : Request}
    (h : dispatch emptySegment req = .found (.open .apiLogin)) :
    req.method = .post ∧ req.path = "/api/login".toList := by
  have htable : ∀ r ∈ routes, ∀ m ∈ r.2, m.2 = .open .apiLogin →
      r.1 = "/api/login" ∧ m.1 = .post := by
    decide
  unfold dispatch at h
  split at h
  · cases h
  rename_i pattern methods hroute
  split at h
  · rename_i method e hmethod
    have he : e = .open .apiLogin := by injection h
    obtain ⟨rfl, rfl⟩ := htable _ (mem_of_find?_eq_some hroute) _ (mem_of_find?_eq_some hmethod) he
    have hpath := find?_some hroute
    have hmatch := find?_some hmethod
    refine ⟨?_, eq_of_matchPath (by decide) hpath⟩
    rcases of_decide_eq_true hmatch with hmatch | ⟨-, hget⟩
    · exact hmatch.symm
    · cases hget
  · cases h

/-! ## The server -/

/-- The state of the server; `rest` is what only the handlers behind an extractor read. -/
structure ServerState (ρ : Type) where
  config : ConsoleConfig
  db : ConsoleDb
  files : ConfigFiles
  rest : ρ

structure Assets where
  indexHtml : Text
  stylesCss : Text
  appJs : Text

/-- What the handlers do, with the extractors that come after the user. -/
structure Handlers (ρ : Type) where
  login : ServerState ρ → Request → ServerState ρ × Response
  reading : ReadingEndpoint → ServerState ρ → User → Request → ServerState ρ × Response
  mutating : MutatingEndpoint → ServerState ρ → User → List UInt8 → Request →
    ServerState ρ × Response

section Serve

variable {ρ : Type} (J : JsonText) (X : Crates) (A : Assets) (H : Handlers ρ)

def asset (contentType : String) (body : Text) : Response :=
  ⟨200, [("content-type".toList, contentType.toList)], body⟩

def handle (st : ServerState ρ) (req : Request) (now touched : Int) :
    Endpoint → ServerState ρ × Response
  | .open .index => (st, asset "text/html; charset=utf-8" A.indexHtml)
  | .open .styles => (st, asset "text/css" A.stylesCss)
  | .open .appJs => (st, asset "application/javascript" A.appJs)
  | .open .apiLogin => H.login st req
  | .open .apiConfig => (st, apiConfig J st.files)
  | .reading e =>
    let (db, user) := CurrentUser.fromRequestParts X st.config st.db req.headers now touched
    let st := { st with db }
    match user with
    | .error err => (st, err.response J)
    | .ok user => H.reading e st user req
  | .mutating e =>
    let (db, user) := MutatingUser.fromRequestParts X st.config st.db req.headers now touched
    let st := { st with db }
    match user with
    | .error err => (st, err.response J)
    | .ok (user, sid) => H.mutating e st user sid req

def serve (st : ServerState ρ) (req : Request) (now touched : Int) : ServerState ρ × Response :=
  let head := decide (req.method = .head)
  match dispatch X.emptySegment req with
  | .notFound => (st, Response.finish ⟨404, [], []⟩ head)
  | .methodNotAllowed allow =>
    (st, Response.finish ⟨405, [("allow".toList, allow)], []⟩ head)
  | .found e =>
    let (st, resp) := handle J X A H st req now touched e
    (st, resp.finish head)

end Serve

section Anonymous

variable {ρ : Type} {J : JsonText} {X : Crates} {A : Assets} {H : Handlers ρ}

def ServerState.status (X : Crates) (st : ServerState ρ) (req : Request) (now : Int) :
    SessionStatus :=
  sessionStatus X st.config st.db req.headers now

/-- A refusal as an answer to `HEAD` shows it. -/
def SessionStatus.outline (J : JsonText) (s : SessionStatus) : Option (Nat × Nat) :=
  s.refusal.map fun e => (e.status, Str.len (J.toText e.json))

/-- The route of the request shows the two states alike: the reason of the refusal, or the files. An
answer to `HEAD` shows only the size of these. -/
def ShownAlike (J : JsonText) (X : Crates) (req : Request) (now : Int) (st₁ st₂ : ServerState ρ) :
    Prop :=
  match dispatch X.emptySegment req with
  | .found (.open .apiConfig) =>
    if req.method = .head then
      Str.len (J.toText st₁.files.json) = Str.len (J.toText st₂.files.json)
    else st₁.files.fields = st₂.files.fields
  | .found (.reading _) | .found (.mutating _) =>
    if req.method = .head then
      (st₁.status X req now).outline J = (st₂.status X req now).outline J
    else st₁.status X req now = st₂.status X req now
  | _ => True

theorem ConfigFiles.json_valid (fs : ConfigFiles) : fs.json.valid = true := by
  have hkeys : (fs.fields.map Prod.fst).Nodup := by
    unfold ConfigFiles.fields
    have hperm := (perm_insertionSort (fun a b : Text × Text => a.1 ≤ b.1)
      (fs.collect.entries.map fun e => (e.1, e.2))).map Prod.fst
    rw [hperm.nodup_iff, map_map]
    exact fs.collect.nodupKeys
  have hfields : ∀ fields : List (Text × Text),
      Json.validFields (fields.map fun f => (f.1, Json.str f.2)) = true := by
    intro fields
    induction fields with
    | nil => rfl
    | cons f fields ih =>
      rw [map_cons, Json.validFields, ih]
      rfl
  have hobj : (Json.obj (fs.fields.map fun f => (f.1, Json.str f.2))).valid = true := by
    rw [Json.valid, hfields, map_map, Bool.and_true, decide_eq_true_eq]
    exact hkeys
  unfold ConfigFiles.json
  rw [Json.valid, Json.validFields, hobj]
  rfl

theorem ConfigFiles.json_inj {fs fs' : ConfigFiles} :
    fs.json = fs'.json ↔ fs.fields = fs'.fields := by
  unfold ConfigFiles.json
  constructor
  · intro h
    simp only [Json.obj.injEq, List.cons.injEq, Prod.mk.injEq, true_and, and_true] at h
    refine map_injective_iff.2 ?_ h
    rintro ⟨a, b⟩ ⟨c, d⟩ heq
    cases heq
    rfl
  · intro h
    rw [h]

theorem finish_json_eq_iff (hJ : Proxy.JsonInverse J) {s s' : Nat} {a b : Json}
    (ha : a.valid = true) (hb : b.valid = true) (head : Bool) :
    (jsonResponse J s a).finish head = (jsonResponse J s' b).finish head ↔
      s = s' ∧ if head then Str.len (J.toText a) = Str.len (J.toText b) else a = b := by
  have hprint : J.toText a = J.toText b ↔ a = b := by
    refine ⟨fun h => ?_, fun h => by rw [h]⟩
    have hparse := hJ.parse_print ha
    rw [h, hJ.parse_print hb] at hparse
    exact (Except.ok.inj hparse).symm
  have hnone : ∀ t : Text, ([("content-type".toList, t)].lookup "content-length".toList).isSome = false :=
    fun _ => rfl
  unfold jsonResponse Response.finish
  simp only [hnone, Bool.false_eq_true, if_false, Response.mk.injEq, append_cancel_left_eq,
    List.cons.injEq, Prod.mk.injEq, true_and, and_true]
  have hsize : Str.decimal (Str.len (J.toText a)) = Str.decimal (Str.len (J.toText b)) ↔
      Str.len (J.toText a) = Str.len (J.toText b) :=
    ⟨Str.decimal_injective, fun h => by rw [h]⟩
  rw [hsize]
  cases head with
  | true => simp
  | false =>
    simp only [Bool.false_eq_true, if_false, hprint]
    refine and_congr_right fun _ => ⟨fun h => h.2, ?_⟩
    rintro rfl
    exact ⟨rfl, rfl⟩

theorem handle_refused {st : ServerState ρ} {req : Request} {now : Int} (touched : Int)
    {err : AuthError} (h : (st.status X req now).refusal = some err) :
    (∀ e, (handle J X A H st req now touched (.reading e)).2 = err.response J) ∧
      ∀ e, (handle J X A H st req now touched (.mutating e)).2 = err.response J := by
  obtain ⟨hcurrent, hmutating⟩ := refused_of_status touched h
  refine ⟨fun e => ?_, fun e => ?_⟩
  · unfold handle
    dsimp only
    rw [hcurrent]
  · unfold handle
    dsimp only
    rw [hmutating]

theorem refusals_alike_iff (hJ : Proxy.JsonInverse J) {s₁ s₂ : SessionStatus} {e₁ e₂ : AuthError}
    (h₁ : s₁.refusal = some e₁) (h₂ : s₂.refusal = some e₂) (head : Bool) :
    (e₁.response J).finish head = (e₂.response J).finish head ↔
      if head then s₁.outline J = s₂.outline J else s₁ = s₂ := by
  unfold AuthError.response
  rw [finish_json_eq_iff hJ rfl rfl]
  cases head with
  | true =>
    unfold SessionStatus.outline
    rw [h₁, h₂]
    simp only [if_true, Option.map_some, Option.some.injEq, Prod.mk.injEq]
  | false =>
    constructor
    · rintro ⟨hstatus, hjson⟩
      have hmessage : e₁.message = e₂.message := by
        simpa [AuthError.json] using hjson
      have herror : e₁ = e₂ := by
        cases e₁
        cases hstatus
        cases hmessage
        rfl
      refine SessionStatus.refusal_injective ?_ ?_
      · rw [h₁, h₂, herror]
      · rw [h₁]
        rfl
    · rintro rfl
      cases h₁.symm.trans h₂
      exact ⟨rfl, rfl⟩

end Anonymous

section Examples

/-- Cookies without a signature, and times written as decimal numbers. -/
def plainCrates : Crates where
  parseCookie := Str.rsplitOnce '='
  verifyCookie _ value := some value
  parseRfc3339 t := (Str.parseU32 t).map Int.ofNat
  toRfc3339 n := Str.decimal n.toNat
  emptySegment := false

def plainConfig : ConsoleConfig where
  sessionSecret := List.replicate 32 's'
  secret_long := by decide
  sessionTtlHours := 24
  sessionIdleTimeoutHours := none

def noUsers : ConsoleDb where
  users := []
  sessions := []
  userIds_nodup := List.nodup_nil
  sessionIds_nodup := List.nodup_nil
  usersError := none
  sessionsError := none
  writable := true

def disabledUser : ConsoleDb :=
  { noUsers with
    users := [⟨1, "eve".toList, none, none, "user".toList, false, true, "[]".toList, none, none, none,
      none, "0".toList, none⟩]
    sessions := [⟨[10], 1, "0".toList, "9".toList, "5".toList, none, none, none⟩]
    userIds_nodup := List.nodup_singleton _
    sessionIds_nodup := List.nodup_singleton _ }

def serverWith (db : ConsoleDb) (toml : String) : ServerState Unit :=
  ⟨plainConfig, db, ⟨some toml.toList, none, none⟩, ()⟩

def noHandlers : Handlers Unit where
  login st _ := (st, ⟨200, [], []⟩)
  reading _ st _ _ := (st, ⟨200, [], []⟩)
  mutating _ st _ _ _ := (st, ⟨200, [], []⟩)

def getRequest (path : String) (headers : Headers) : Request := ⟨.get, path.toList, none, headers, []⟩

def answer (st : ServerState Unit) (req : Request) : Response :=
  (serve Proxy.compactJson plainCrates ⟨[], [], []⟩ noHandlers st req 7 7).2

end Examples

end Nanoguard.Console

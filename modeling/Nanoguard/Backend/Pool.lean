import Mathlib.Data.List.AList
import Nanoguard.Lib.Results
import Nanoguard.Lib.RustStr

/-!
# The backend pool

`resolve` is `Config::pool`: it checks the routing table of a configuration and picks the default
backend. `routeChain` lists the backends to try for a model. A map ordered by its keys is an
association list here; nothing depends on the order of the keys.
-/

namespace Nanoguard.Backend

structure BackendConfig where
  provider : Text
  endpoint : Text
  apiKey : Option Text
  model : Option Text
  deriving DecidableEq, Repr

/-- The model is exact, or a beginning if it ends with a star. -/
structure RoutingRule where
  model : Text
  backend : Text
  fallback : List Text
  deriving DecidableEq, Repr

structure RoutingConfig where
  default : Option Text
  rules : List RoutingRule

structure BackendPool where
  backends : AList (fun _ : Text => BackendConfig)
  rules : List RoutingRule
  defaultBackend : Text

/-- The labels that a rule falls back to are known, are not its own backend, and differ. -/
def checkFallbacks (backends : AList (fun _ : Text => BackendConfig)) (rule : RoutingRule) :
    List Text → List Text → Except Text Unit
  | _, [] => .ok ()
  | seen, fb :: fallback =>
    let about (what : String) := "[routing] rule for model `".toList ++ rule.model ++
      "` ".toList ++ what.toList ++ " `".toList ++ fb ++ "`".toList
    if fb ∉ backends then .error (about "lists unknown fallback")
    else if fb = rule.backend then
      .error (about "lists its own primary" ++ " as a fallback".toList)
    else if fb ∈ seen then .error (about "lists duplicate fallback")
    else checkFallbacks backends rule (fb :: seen) fallback

def checkRule (backends : AList (fun _ : Text => BackendConfig)) (rule : RoutingRule) :
    Except Text Unit :=
  if rule.backend ∉ backends then
    .error ("[routing] rule for model `".toList ++ rule.model ++
      "` points at unknown backend `".toList ++ rule.backend ++ "`".toList)
  else checkFallbacks backends rule [] rule.fallback

/-- A single backend is the default if none is named. -/
def resolveDefault (backends : AList (fun _ : Text => BackendConfig)) (routing : RoutingConfig) :
    Except Text Text :=
  match routing.default with
  | some label =>
    if label ∉ backends then
      .error ("[routing].default = `".toList ++ label ++
        "` does not match any backend in [backends.*]".toList)
    else .ok label
  | none =>
    match backends.keys with
    | [label] => .ok label
    | labels =>
      .error ("[routing].default is required with ".toList ++ Str.decimal labels.length ++
        " backends configured. Add `default = \"<backend-name>\"` to [routing] in ".toList ++
        "nanoguard.toml.".toList)

/-- The pool of a configuration with its `[backend]`, `[backends.*]` and `[routing]` sections. -/
def resolve (backend : Option BackendConfig) (backends : AList (fun _ : Text => BackendConfig))
    (routing : RoutingConfig) : Except Text BackendPool := do
  let backends :=
    match backend with
    | some legacy => if backends.keys.isEmpty then backends.insert "default".toList legacy else backends
    | none => backends
  if backends.keys.isEmpty then
    .error "no backend configured: define [backend] (legacy) or at least one [backends.NAME]".toList
  else
    routing.rules.forM (checkRule backends)
    let defaultBackend ← resolveDefault backends routing
    return { backends, rules := routing.rules, defaultBackend }

/-! ## Accepted configurations -/

/-- The labels of the backends that a configuration resolves to. -/
def labels (backend : Option BackendConfig) (backends : AList (fun _ : Text => BackendConfig)) :
    List Text :=
  if backends.keys.isEmpty then (backend.map fun _ => "default".toList).toList else backends.keys

structure RuleFits (labels : List Text) (rule : RoutingRule) : Prop where
  backend : rule.backend ∈ labels
  fallback : ∀ fb ∈ rule.fallback, fb ∈ labels ∧ fb ≠ rule.backend
  nodup : rule.fallback.Nodup

/-- The default is known; without one there is a single backend. -/
def DefaultFits (labels : List Text) : Option Text → Prop
  | some label => label ∈ labels
  | none => labels.length = 1

/-- What is checked of the pool that a configuration resolves to. -/
structure BackendPool.Checked (pool : BackendPool) : Prop where
  rules : ∀ rule ∈ pool.rules, RuleFits pool.backends.keys rule
  default : pool.defaultBackend ∈ pool.backends.keys

structure Fits (labels : List Text) (routing : RoutingConfig) : Prop where
  nonempty : labels ≠ []
  rules : ∀ rule ∈ routing.rules, RuleFits labels rule
  default : DefaultFits labels routing.default

section

variable {backend : Option BackendConfig} {backends : AList (fun _ : Text => BackendConfig)}
  {routing : RoutingConfig} {rule : RoutingRule}

theorem checkFallbacks_eq_ok {seen fallback : List Text} :
    checkFallbacks backends rule seen fallback = .ok () ↔
      (∀ fb ∈ fallback, fb ∈ backends.keys ∧ fb ≠ rule.backend ∧ fb ∉ seen) ∧ fallback.Nodup := by
  induction fallback generalizing seen with
  | nil => simp [checkFallbacks]
  | cons fb fallback ih =>
    rw [checkFallbacks, List.forall_mem_cons, List.nodup_cons]
    simp only [AList.mem_keys]
    split
    · simp_all
    split
    · simp_all
    split
    · simp_all
    rw [ih]
    simp only [List.mem_cons, not_or]
    constructor
    · rintro ⟨hall, hnodup⟩
      refine ⟨⟨⟨by simp_all, by simp_all, by simp_all⟩, fun x hx => ?_⟩, ?_, hnodup⟩
      · exact ⟨(hall x hx).1, (hall x hx).2.1, (hall x hx).2.2.2⟩
      · exact fun hmem => (hall fb hmem).2.2.1 rfl
    · rintro ⟨⟨-, hall⟩, hmem, hnodup⟩
      refine ⟨fun x hx => ⟨(hall x hx).1, (hall x hx).2.1, ?_, (hall x hx).2.2⟩, hnodup⟩
      rintro rfl
      exact hmem hx

theorem checkRule_eq_ok : checkRule backends rule = .ok () ↔ RuleFits backends.keys rule := by
  unfold checkRule
  split
  next hmem =>
    exact ⟨fun h => (nomatch h), fun h => absurd (AList.mem_keys.2 h.backend) hmem⟩
  next hmem =>
    rw [checkFallbacks_eq_ok]
    constructor
    · rintro ⟨hall, hnodup⟩
      exact ⟨AList.mem_keys.1 (not_not.1 hmem), fun fb hfb => ⟨(hall fb hfb).1, (hall fb hfb).2.1⟩, hnodup⟩
    · intro h
      exact ⟨fun fb hfb => ⟨(h.fallback fb hfb).1, (h.fallback fb hfb).2, List.not_mem_nil⟩, h.nodup⟩

theorem resolveDefault_isOk_iff :
    (∃ label, resolveDefault backends routing = .ok label) ↔
      DefaultFits backends.keys routing.default := by
  unfold resolveDefault
  cases routing.default with
  | some label =>
    simp only [AList.mem_keys, DefaultFits]
    split <;> simp_all
  | none =>
    simp only [DefaultFits]
    match backends.keys with
    | [] => simp
    | [label] => simp
    | _ :: _ :: _ => simp

theorem keys_withLegacy (backend : Option BackendConfig)
    (backends : AList (fun _ : Text => BackendConfig)) :
    (match backend with
      | some legacy =>
        if backends.keys.isEmpty then backends.insert "default".toList legacy else backends
      | none => backends).keys = labels backend backends := by
  unfold labels
  cases backend with
  | none =>
    dsimp only
    split
    next h => exact List.isEmpty_iff.1 h
    next => rfl
  | some legacy =>
    dsimp only
    split
    next h => rw [AList.keys_insert, List.isEmpty_iff.1 h]; rfl
    next => rfl

theorem resolveDefault_mem {label : Text} (h : resolveDefault backends routing = .ok label) :
    label ∈ backends.keys := by
  unfold resolveDefault at h
  cases hdefault : routing.default with
  | some named =>
    simp only [hdefault] at h
    split at h
    next => cases h
    next hmem =>
      cases h
      exact AList.mem_keys.1 (not_not.1 hmem)
  | none =>
    simp only [hdefault] at h
    generalize backends.keys = keys at h ⊢
    match keys, h with
    | [only], h =>
      cases h
      exact List.mem_singleton_self _
    | [], h => cases h
    | _ :: _ :: _, h => cases h

theorem resolveDefault_named {label named : Text} (h : resolveDefault backends routing = .ok label)
    (hnamed : routing.default = some named) : label = named := by
  unfold resolveDefault at h
  simp only [hnamed] at h
  split at h
  · cases h
  · exact (Except.ok.inj h).symm

theorem resolve_eq_ok {pool : BackendPool} (h : resolve backend backends routing = .ok pool) :
    pool.backends.keys = labels backend backends ∧ pool.rules = routing.rules ∧ pool.Checked ∧
      resolveDefault pool.backends routing = .ok pool.defaultBackend := by
  have hkeys := keys_withLegacy backend backends
  obtain ⟨_, hrules, h⟩ := bind_eq_ok.1 (guard_eq_ok.1 h).2
  obtain ⟨label, hdefault, h⟩ := bind_eq_ok.1 h
  cases h
  refine ⟨hkeys, rfl, ⟨fun rule hrule => ?_, resolveDefault_mem hdefault⟩, hdefault⟩
  exact checkRule_eq_ok.1 (forM_eq_ok.1 hrules rule hrule)

theorem resolve_isOk_iff :
    (∃ pool, resolve backend backends routing = .ok pool) ↔
      Fits (labels backend backends) routing := by
  have hkeys := keys_withLegacy backend backends
  unfold resolve
  dsimp only
  rw [← hkeys]
  constructor
  · rintro ⟨pool, h⟩
    obtain ⟨hne, h⟩ := guard_eq_ok.1 h
    obtain ⟨_, hrules, h⟩ := bind_eq_ok.1 h
    obtain ⟨label, hdefault, -⟩ := bind_eq_ok.1 h
    exact ⟨fun hnil => hne (List.isEmpty_iff.2 hnil),
      fun rule hrule => checkRule_eq_ok.1 (forM_eq_ok.1 hrules rule hrule),
      resolveDefault_isOk_iff.1 ⟨label, hdefault⟩⟩
  · intro h
    rw [if_neg fun hempty => h.nonempty (List.isEmpty_iff.1 hempty)]
    obtain ⟨label, hdefault⟩ := resolveDefault_isOk_iff.2 h.default
    exact ⟨_, bind_eq_ok.2 ⟨⟨⟩, forM_eq_ok.2 fun rule hrule => checkRule_eq_ok.2 (h.rules rule hrule),
      bind_eq_ok.2 ⟨label, hdefault, rfl⟩⟩⟩

end

theorem RuleFits.mono {ls ls' : List Text} {rule : RoutingRule} (h : RuleFits ls rule)
    (hsub : ls ⊆ ls') : RuleFits ls' rule :=
  ⟨hsub h.backend, fun fb hfb => ⟨hsub (h.fallback fb hfb).1, (h.fallback fb hfb).2⟩, h.nodup⟩

theorem Fits.perm {ls ls' : List Text} {routing : RoutingConfig} (h : Fits ls routing)
    (hperm : ls.Perm ls') : Fits ls' routing where
  nonempty hnil := h.nonempty (List.Perm.eq_nil (hnil ▸ hperm))
  rules rule hrule := (h.rules rule hrule).mono hperm.subset
  default := by
    have hdefault := h.default
    cases hd : routing.default with
    | some label =>
      rw [hd] at hdefault
      exact hperm.subset hdefault
    | none =>
      rw [hd] at hdefault
      exact hperm.length_eq.symm.trans hdefault

/-! ## Routing -/

def ruleMatches (pattern model : Text) : Bool :=
  match Str.stripSuffix ['*'] pattern with
  | some head => decide (head <+: model)
  | none => pattern == model

namespace BackendPool

variable (pool : BackendPool)

/-- The backends to try, the primary one first. Unknown labels are skipped. -/
def routeChain (model : Option Text) : List BackendConfig :=
  match model.bind fun model => pool.rules.find? fun r => ruleMatches r.model model with
  | some rule => (rule.backend :: rule.fallback).filterMap pool.backends.lookup
  | none => (pool.backends.lookup pool.defaultBackend).toList

end BackendPool

end Nanoguard.Backend

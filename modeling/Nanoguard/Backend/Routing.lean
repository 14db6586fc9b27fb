import Nanoguard.Backend.Pool

/-!
# Resolving a model to backends

The rules of a pool are looked through in three places: `BackendPool::route` of the configuration,
and `route_name` and `route_chain` of the pool that the proxy runs with. A backend of the running pool
is the configuration that its client was made from.
-/

namespace Nanoguard.Backend

open List

def firstMatch (rules : List RoutingRule) (model : Text) : Option RoutingRule :=
  rules.find? fun r => ruleMatches r.model model

def BackendPool.route (pool : BackendPool) (model : Option Text) : Option Text :=
  match model with
  | none => some pool.defaultBackend
  | some model =>
    match firstMatch pool.rules model with
    | some r => some r.backend
    | none => some pool.defaultBackend

structure BackendPoolRuntime where
  backends : AList (fun _ : Text => BackendConfig)
  rules : List RoutingRule
  defaultBackend : Text

namespace BackendPoolRuntime

def build (pool : BackendPool) : BackendPoolRuntime where
  backends := pool.backends
  rules := pool.rules
  defaultBackend := pool.defaultBackend

variable (pool : BackendPoolRuntime)

def routeName (model : Option Text) : Option Text :=
  match model with
  | none => some pool.defaultBackend
  | some model =>
    match firstMatch pool.rules model with
    | some r => some r.backend
    | none => some pool.defaultBackend

/-- Unknown labels are skipped. -/
def routeChain (model : Option Text) : List BackendConfig :=
  match model.bind (firstMatch pool.rules) with
  | some r => (pool.backends.lookup r.backend).toList ++ r.fallback.filterMap pool.backends.lookup
  | none => (pool.backends.lookup pool.defaultBackend).toList

end BackendPoolRuntime

/-- The proxy's chain, as the handlers look it up. -/
theorem BackendPool.routeChain_eq (pool : BackendPool) (model : Option Text) :
    pool.routeChain model = (BackendPoolRuntime.build pool).routeChain model := by
  have hrules : (model.bind fun model => pool.rules.find? fun r => ruleMatches r.model model) =
      model.bind (firstMatch pool.rules) := rfl
  unfold BackendPool.routeChain BackendPoolRuntime.routeChain BackendPoolRuntime.build
  rw [hrules]
  cases model.bind (firstMatch pool.rules) with
  | none => rfl
  | some r => cases h : pool.backends.lookup r.backend <;> simp [h]


/-! ## The labels of a chain -/

section

variable {backend : Option BackendConfig} {backends : AList (fun _ : Text => BackendConfig)}
  {routing : RoutingConfig} {pool : BackendPool}

def BackendPool.routeLabels (pool : BackendPool) (model : Option Text) : List Text :=
  match model.bind (firstMatch pool.rules) with
  | some r => r.backend :: r.fallback
  | none => [pool.defaultBackend]

theorem BackendPool.head?_routeLabels (pool : BackendPool) (model : Option Text) :
    (pool.routeLabels model).head? = pool.route model := by
  unfold BackendPool.routeLabels BackendPool.route
  cases model with
  | none => rfl
  | some model =>
    dsimp only [Option.bind_some]
    cases firstMatch pool.rules model <;> rfl

theorem BackendPoolRuntime.routeName_build (pool : BackendPool) (model : Option Text) :
    (BackendPoolRuntime.build pool).routeName model = pool.route model := rfl

namespace BackendPool.Checked

variable (hpool : pool.Checked) (model : Option Text)

include hpool

theorem routeLabels_subset : ∀ label ∈ pool.routeLabels model, label ∈ pool.backends.keys := by
  unfold BackendPool.routeLabels
  cases hrule : model.bind (firstMatch pool.rules) with
  | none => simpa using hpool.default
  | some r =>
    obtain ⟨_, -, hfind⟩ := Option.bind_eq_some_iff.1 hrule
    have hfits := hpool.rules r (mem_of_find?_eq_some hfind)
    intro label hlabel
    rcases mem_cons.1 hlabel with rfl | hlabel
    · exact hfits.backend
    · exact (hfits.fallback label hlabel).1

theorem nodup_routeLabels : (pool.routeLabels model).Nodup := by
  unfold BackendPool.routeLabels
  cases hrule : model.bind (firstMatch pool.rules) with
  | none => exact nodup_singleton _
  | some r =>
    obtain ⟨_, -, hfind⟩ := Option.bind_eq_some_iff.1 hrule
    have hfits := hpool.rules r (mem_of_find?_eq_some hfind)
    rw [nodup_cons]
    exact ⟨fun hself => (hfits.fallback r.backend hself).2 rfl, hfits.nodup⟩

theorem map_some_routeChain :
    ((BackendPoolRuntime.build pool).routeChain model).map some =
      (pool.routeLabels model).map pool.backends.lookup := by
  have hchain : (BackendPoolRuntime.build pool).routeChain model =
      (pool.routeLabels model).filterMap pool.backends.lookup := by
    unfold BackendPoolRuntime.routeChain BackendPool.routeLabels BackendPoolRuntime.build
    cases model.bind (firstMatch pool.rules) with
    | none => cases h : pool.backends.lookup pool.defaultBackend <;> simp [h]
    | some r => cases h : pool.backends.lookup r.backend <;> simp [h]
  rw [hchain]
  have hmem := hpool.routeLabels_subset model
  generalize pool.routeLabels model = chain at hmem
  induction chain with
  | nil => rfl
  | cons label chain ih =>
    have hlabel : label ∈ pool.backends := AList.mem_keys.2 (hmem label mem_cons_self)
    obtain ⟨cfg, hcfg⟩ := Option.isSome_iff_exists.1 (AList.lookup_isSome.2 hlabel)
    have hrest := ih (forall_mem_cons.1 hmem).2
    rw [filterMap_cons]
    simp only [hcfg, map_cons, hrest]

end BackendPool.Checked

/-- **Routing is consistent.** In a pool that `Config::pool` accepts, the chain of a model is the
backend that both lookups name and the fallbacks of the first rule that matches, all of distinct
labels. -/
theorem route_consistent (h : resolve backend backends routing = .ok pool) (model : Option Text) :
    ∃ chain : List Text,
      ((BackendPoolRuntime.build pool).routeChain model).map some =
        chain.map pool.backends.lookup ∧
      (BackendPoolRuntime.build pool).routeChain model ≠ [] ∧ chain.Nodup ∧
      chain.head? = (BackendPoolRuntime.build pool).routeName model ∧
      chain.head? = pool.route model ∧
      chain.tail =
        ((model.bind (firstMatch routing.rules)).map RoutingRule.fallback).getD [] ∧
      ∀ label ∈ chain, label ∈ labels backend backends := by
  obtain ⟨hkeys, hrules, hpool, -⟩ := resolve_eq_ok h
  have hchain := hpool.map_some_routeChain model
  refine ⟨pool.routeLabels model, hchain, ?_, hpool.nodup_routeLabels model, ?_, ?_, ?_, ?_⟩
  · intro hnil
    rw [hnil] at hchain
    have hempty : pool.routeLabels model = [] := map_eq_nil_iff.1 hchain.symm
    have hhead := pool.head?_routeLabels model
    rw [hempty] at hhead
    unfold BackendPool.route at hhead
    cases model with
    | none => cases hhead
    | some model => cases hrule : firstMatch pool.rules model <;> simp [hrule] at hhead
  · rw [BackendPoolRuntime.routeName_build]
    exact pool.head?_routeLabels model
  · exact pool.head?_routeLabels model
  · unfold BackendPool.routeLabels
    rw [hrules]
    cases model.bind (firstMatch routing.rules) <;> rfl
  · rw [← hkeys]
    exact hpool.routeLabels_subset model

end

/-- Two backends; the models of one family go to the first, and to the second if it fails. -/
def examplePair : AList (fun _ : Text => BackendConfig) :=
  (AList.singleton "b".toList ⟨"ollama".toList, "http://b".toList, none, none⟩).insert "a".toList
    ⟨"openai".toList, "http://a".toList, none, none⟩

def exampleRouting : RoutingConfig where
  default := some "b".toList
  rules := [⟨"gpt-*".toList, "a".toList, ["b".toList]⟩]

theorem route_consistent_pair : ∃ pool, resolve none examplePair exampleRouting = .ok pool ∧
    ∃ chain : List Text,
      ((BackendPoolRuntime.build pool).routeChain (some "gpt-4o".toList)).map some =
        chain.map pool.backends.lookup ∧
      (BackendPoolRuntime.build pool).routeChain (some "gpt-4o".toList) ≠ [] ∧ chain.Nodup ∧
      chain.head? = (BackendPoolRuntime.build pool).routeName (some "gpt-4o".toList) ∧
      chain.head? = pool.route (some "gpt-4o".toList) ∧
      chain.tail =
        (((some "gpt-4o".toList).bind (firstMatch exampleRouting.rules)).map
          RoutingRule.fallback).getD [] ∧
      ∀ label ∈ chain, label ∈ labels none examplePair :=
  ⟨_, rfl, route_consistent rfl (some "gpt-4o".toList)⟩

end Nanoguard.Backend

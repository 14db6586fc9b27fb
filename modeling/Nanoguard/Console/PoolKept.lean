import Nanoguard.Console.Backends

/-!
# Configurations that the proxy accepts

The console refuses some mutations that would leave the proxy without a usable configuration, but
not all. A new backend can leave several without a default, or hide a legacy `[backend]` that rules
and the default name. A deleted backend can be named in a list of fallbacks, or have been the last.
-/

namespace Nanoguard.Console

open List

open Backend (BackendConfig DefaultFits Fits RoutingConfig RoutingRule RuleFits)

variable {backends : Backends} {i : Nat} {body : RoutingUpdateRequest}

/-- `Config::pool` accepts the configuration. -/
def PoolConfig.Accepted (cfg : PoolConfig) : Prop :=
  ∃ pool, Backend.resolve cfg.backend cfg.backends cfg.routing = .ok pool

theorem accepted_iff {cfg : PoolConfig} :
    cfg.Accepted ↔ Fits (Backend.labels cfg.backend cfg.backends) cfg.routing :=
  Backend.resolve_isOk_iff

theorem labels_of_keys {backend : Option BackendConfig} (h : backends.keys ≠ []) :
    Backend.labels backend backends = backends.keys :=
  if_neg (mt List.isEmpty_iff.1 h)

/-- The mutation leaves an accepted configuration accepted. -/
def Keeps (doc : ConfigDoc) : Mutation → Prop
  | .create name _ =>
    if doc.config.backends.keys = [] then
      Str.trim name = "default".toList ∨
        (doc.config.routing.rules = [] ∧ doc.config.routing.default = none)
    else doc.config.routing.default ≠ none
  | .delete name =>
    doc.fixedBackends = true ∨
      ((∀ rule ∈ doc.config.routing.rules, name ∉ rule.fallback) ∧
        (doc.config.backends.keys = [name] → doc.backend.isSome = true))
  | .update _ _ | .routing _ => True

instance (doc : ConfigDoc) : ∀ m, Decidable (Keeps doc m)
  | .create name _ => inferInstanceAs (Decidable (if doc.config.backends.keys = [] then
      Str.trim name = "default".toList ∨
        (doc.config.routing.rules = [] ∧ doc.config.routing.default = none)
      else doc.config.routing.default ≠ none))
  | .delete name => inferInstanceAs (Decidable (doc.fixedBackends = true ∨
      ((∀ rule ∈ doc.config.routing.rules, name ∉ rule.fallback) ∧
        (doc.config.backends.keys = [name] → doc.backend.isSome = true))))
  | .update _ _ | .routing _ => .isTrue trivial

section Keys

variable {α : Type} {β : α → Type} [DecidableEq α] {s : AList β} {a : α}

theorem keys_insert_of_notMem (h : a ∉ s) (b : β a) : (s.insert a b).keys = a :: s.keys := by
  rw [AList.keys_insert, erase_of_not_mem (mt AList.mem_keys.2 h)]

theorem keys_perm_insert (h : a ∈ s) (b : β a) : s.keys.Perm (s.insert a b).keys := by
  rw [AList.keys_insert]
  exact perm_cons_erase (AList.mem_keys.1 h)

theorem keys_perm_erase (h : a ∈ s) : s.keys.Perm (a :: (s.erase a).keys) := by
  rw [AList.keys_erase]
  exact perm_cons_erase (AList.mem_keys.1 h)

theorem mem_keys_erase {x : α} : x ∈ (s.erase a).keys ↔ x ≠ a ∧ x ∈ s.keys := by
  rw [← AList.mem_keys, AList.mem_erase, AList.mem_keys]

end Keys

section Step

variable {cfg : PoolConfig} {name : Text} {entry : BackendConfig}

theorem fits_of_empty {routing : RoutingConfig} (hrules : routing.rules = []) (hdefault : routing.default = none)
    (label : Text) : Fits [label] routing := by
  refine ⟨cons_ne_nil _ _, fun rule hrule => ?_, ?_⟩
  · rw [hrules] at hrule
    cases hrule
  · rw [hdefault]
    rfl

theorem fits_single_iff {routing : RoutingConfig} (h : Fits ["default".toList] routing)
    (name : Text) :
    Fits [name] routing ↔
      name = "default".toList ∨ (routing.rules = [] ∧ routing.default = none) := by
  constructor
  · intro hname
    by_cases hrules : routing.rules = []
    · cases hdefault : routing.default with
      | none => exact .inr ⟨hrules, rfl⟩
      | some label =>
        have hold := h.default
        have hnew := hname.default
        rw [hdefault] at hold hnew
        exact .inl ((mem_singleton.1 hnew).symm.trans (mem_singleton.1 hold))
    · obtain ⟨rule, hrule⟩ := exists_mem_of_ne_nil _ hrules
      have hold := mem_singleton.1 (h.rules rule hrule).backend
      have hnew := mem_singleton.1 (hname.rules rule hrule).backend
      exact .inl (hnew.symm.trans hold)
  · rintro (rfl | ⟨hrules, hdefault⟩)
    · exact h
    · exact fits_of_empty hrules hdefault name

theorem accepted_insert_iff (h : cfg.Accepted) (hnew : name ∉ cfg.backends) :
    PoolConfig.Accepted { cfg with backends := cfg.backends.insert name entry } ↔
      if cfg.backends.keys = [] then
        name = "default".toList ∨ (cfg.routing.rules = [] ∧ cfg.routing.default = none)
      else cfg.routing.default ≠ none := by
  have hkeys := keys_insert_of_notMem hnew entry
  have hfits := accepted_iff.1 h
  rw [accepted_iff, labels_of_keys (hkeys ▸ cons_ne_nil _ _), hkeys]
  split
  next hnil =>
    -- before, the legacy backend was the only one
    have hlabels : Backend.labels cfg.backend cfg.backends = ["default".toList] := by
      unfold Backend.labels at hfits ⊢
      rw [hnil] at hfits ⊢
      cases hlegacy : cfg.backend with
      | none =>
        rw [hlegacy] at hfits
        exact absurd rfl hfits.nonempty
      | some legacy => rfl
    rw [hlabels] at hfits
    rw [hnil]
    exact fits_single_iff hfits name
  next hne =>
    rw [labels_of_keys hne] at hfits
    constructor
    · intro hafter hnone
      have hlen := hafter.default
      rw [hnone] at hlen
      exact hne (length_eq_zero_iff.1 (Nat.succ.inj hlen))
    · intro hsome
      refine ⟨cons_ne_nil _ _, fun rule hrule => ?_, ?_⟩
      · exact (hfits.rules rule hrule).mono (subset_cons_self ..)
      obtain ⟨label, hlabel⟩ := Option.ne_none_iff_exists'.1 hsome
      have hdefault := hfits.default
      rw [hlabel] at hdefault ⊢
      exact mem_cons_of_mem _ hdefault

theorem accepted_replace (h : cfg.Accepted) (hold : name ∈ cfg.backends) :
    PoolConfig.Accepted { cfg with backends := cfg.backends.insert name entry } := by
  have hmem := AList.mem_keys.1 hold
  have hkeys := keys_perm_insert hold entry
  have hne : cfg.backends.keys ≠ [] := ne_nil_of_mem hmem
  have hfits := accepted_iff.1 h
  rw [labels_of_keys hne] at hfits
  rw [accepted_iff]
  exact hfits.perm hkeys

section Erase

variable {labels labels' : List Text} {routing : RoutingConfig}

theorem routing_empty (h : Fits [name] routing) (hdefault : routing.default ≠ some name)
    (hrules : ∀ rule ∈ routing.rules, rule.backend ≠ name) :
    routing.rules = [] ∧ routing.default = none := by
  constructor
  · apply eq_nil_iff_forall_not_mem.2
    intro rule hrule
    exact hrules rule hrule (mem_singleton.1 (h.rules rule hrule).backend)
  · cases hd : routing.default with
    | none => rfl
    | some label =>
      have hknown := h.default
      rw [hd] at hknown hdefault
      exact absurd (congrArg some (mem_singleton.1 hknown)) hdefault

theorem fits_erase_iff (h : Fits labels routing) (hmem : name ∈ labels) (hlast : labels ≠ [name])
    (herase : ∀ x, x ∈ labels' ↔ x ≠ name ∧ x ∈ labels) (hne : labels' ≠ [])
    (hdefault : routing.default ≠ some name)
    (hrules : ∀ rule ∈ routing.rules, rule.backend ≠ name) :
    Fits labels' routing ↔ ∀ rule ∈ routing.rules, name ∉ rule.fallback := by
  constructor
  · intro hafter rule hrule hfb
    exact ((herase name).1 ((hafter.rules rule hrule).fallback name hfb).1).1 rfl
  · intro hfallbacks
    refine ⟨hne, fun rule hrule => ?_, ?_⟩
    · have hrule' := h.rules rule hrule
      refine ⟨(herase _).2 ⟨hrules rule hrule, hrule'.backend⟩, fun fb hfb => ?_, hrule'.nodup⟩
      refine ⟨(herase fb).2 ⟨?_, (hrule'.fallback fb hfb).1⟩, (hrule'.fallback fb hfb).2⟩
      rintro rfl
      exact hfallbacks rule hrule hfb
    have hknown := h.default
    cases hd : routing.default with
    | some label =>
      rw [hd] at hknown hdefault
      exact (herase label).2 ⟨fun heq => hdefault (congrArg some heq), hknown⟩
    | none =>
      -- a single backend, so it is the one that is deleted
      rw [hd] at hknown
      obtain ⟨label, rfl⟩ := length_eq_one_iff.1 hknown
      rw [mem_singleton.1 hmem] at hlast
      exact absurd rfl hlast

end Erase

theorem accepted_erase_iff (h : cfg.Accepted) (hold : name ∈ cfg.backends)
    (hdefault : cfg.routing.default ≠ some name)
    (hrules : ∀ rule ∈ cfg.routing.rules, rule.backend ≠ name) :
    PoolConfig.Accepted { cfg with backends := cfg.backends.erase name } ↔
      (∀ rule ∈ cfg.routing.rules, name ∉ rule.fallback) ∧
        (cfg.backends.keys = [name] → cfg.backend.isSome = true) := by
  have hmem := AList.mem_keys.1 hold
  have hperm := keys_perm_erase hold
  have hfits := accepted_iff.1 h
  rw [labels_of_keys (ne_nil_of_mem hmem)] at hfits
  rw [accepted_iff]
  by_cases hlast : cfg.backends.keys = [name]
  · rw [hlast] at hfits hperm
    obtain ⟨hnorules, hnodefault⟩ := routing_empty hfits hdefault hrules
    have hkeys : (cfg.backends.erase name).keys = [] :=
      length_eq_zero_iff.1 (Nat.succ.inj hperm.length_eq).symm
    unfold Backend.labels
    rw [hkeys, hnorules]
    cases hlegacy : cfg.backend with
    | none =>
      constructor
      · intro hafter
        exact absurd rfl hafter.nonempty
      · rintro ⟨-, hsome⟩
        exact absurd (hsome hlast) Bool.false_ne_true
    | some legacy =>
      refine iff_of_true (fits_of_empty hnorules hnodefault _) ⟨fun rule hrule => ?_, fun _ => rfl⟩
      cases hrule
  · have hne : (cfg.backends.erase name).keys ≠ [] := by
      intro hnil
      rw [hnil] at hperm
      exact hlast (perm_singleton.1 hperm)
    rw [labels_of_keys hne,
      fits_erase_iff hfits hmem hlast (fun _ => mem_keys_erase) hne hdefault hrules]
    exact (and_iff_left fun habs => absurd habs hlast).symm

theorem of_validateFallbacks {fi : Nat} {backend : Text} {seen fallback : List Text}
    (h : validateFallbacks backends i backend fi seen fallback = .ok ()) :
    (∀ fb ∈ fallback, Str.trim fb ∈ backends.keys ∧ Str.trim fb ≠ backend ∧ Str.trim fb ∉ seen) ∧
      (fallback.map Str.trim).Nodup := by
  induction fallback generalizing fi seen with
  | nil => exact ⟨by simp, nodup_nil⟩
  | cons fb fallback ih =>
    unfold validateFallbacks at h
    simp only [guard_eq_ok] at h
    obtain ⟨-, hknown, hother, hfresh, h⟩ := h
    obtain ⟨hall, hnodup⟩ := ih h
    rw [forall_mem_cons, map_cons, nodup_cons]
    refine ⟨⟨⟨AList.mem_keys.1 (not_not.1 hknown), hother, hfresh⟩, fun x hx => ?_⟩, ?_, hnodup⟩
    · exact ⟨(hall x hx).1, (hall x hx).2.1, fun hmem => (hall x hx).2.2 (mem_cons_of_mem _ hmem)⟩
    · intro hmem
      obtain ⟨x, hx, hxfb⟩ := mem_map.1 hmem
      exact (hall x hx).2.2 (hxfb ▸ mem_cons_self)

def trimRule (rule : RoutingRule) : RoutingRule :=
  ⟨Str.trim rule.model, Str.trim rule.backend, rule.fallback.map Str.trim⟩

theorem validateRules_cons {seenModels : List Text} {rule : RoutingRule} {rules : List RoutingRule}
    (h : validateRules backends i seenModels (rule :: rules) = .ok ()) :
    RuleFits backends.keys (trimRule rule) ∧ Str.trim rule.model ∉ seenModels ∧
      validateRules backends (i + 1) (Str.trim rule.model :: seenModels) rules = .ok () := by
  unfold validateRules at h
  simp only [guard_eq_ok] at h
  obtain ⟨-, -, hknown, h⟩ := h
  obtain ⟨_, hfallbacks, h⟩ := bind_eq_ok.1 h
  obtain ⟨hfresh, h⟩ := guard_eq_ok.1 h
  obtain ⟨hall, hnodup⟩ := of_validateFallbacks hfallbacks
  refine ⟨⟨AList.mem_keys.1 (not_not.1 hknown), fun fb hfb => ?_, hnodup⟩, hfresh, h⟩
  obtain ⟨x, hx, rfl⟩ := mem_map.1 hfb
  exact ⟨(hall x hx).1, (hall x hx).2.1⟩

theorem of_validateRules {seenModels : List Text} {rules : List RoutingRule}
    (h : validateRules backends i seenModels rules = .ok ()) :
    (∀ rule ∈ rules, RuleFits backends.keys (trimRule rule) ∧ Str.trim rule.model ∉ seenModels) ∧
      (rules.map fun rule => Str.trim rule.model).Nodup := by
  induction rules generalizing i seenModels with
  | nil => exact ⟨by simp, nodup_nil⟩
  | cons rule rules ih =>
    obtain ⟨hfits, hfresh, hrest⟩ := validateRules_cons h
    obtain ⟨hall, hnodup⟩ := ih hrest
    rw [forall_mem_cons, map_cons, nodup_cons]
    refine ⟨⟨⟨hfits, hfresh⟩, fun r hr => ?_⟩, ?_, hnodup⟩
    · exact ⟨(hall r hr).1, fun hmem => (hall r hr).2 (mem_cons_of_mem _ hmem)⟩
    · intro hmem
      obtain ⟨r, hr, heq⟩ := mem_map.1 hmem
      exact (hall r hr).2 (heq ▸ mem_cons_self)

theorem trimRule_of_mem_trimmed {rule : RoutingRule} (h : rule ∈ body.trimmed.rules) :
    trimRule rule = rule := by
  obtain ⟨r, -, rfl⟩ := mem_map.1 h
  have hfallback : ((r.fallback.map Str.trim).filter fun f => !f.isEmpty).map Str.trim =
      (r.fallback.map Str.trim).filter fun f => !f.isEmpty := by
    refine (map_congr_left fun f hf => ?_).trans (map_id _)
    obtain ⟨g, -, rfl⟩ := mem_map.1 (mem_of_mem_filter hf)
    exact Str.trim_trim g
  simp only [trimRule, Str.trim_trim, hfallback]

theorem of_validateRoutingBody (h : validateRoutingBody backends body.trimmed = .ok ()) :
    body.trimmed.default ∈ backends.keys ∧
      (∀ rule ∈ body.trimmed.rules, RuleFits backends.keys rule) ∧
      (body.trimmed.rules.map (·.model)).Nodup := by
  unfold validateRoutingBody at h
  simp only [guard_eq_ok] at h
  obtain ⟨-, hknown, h⟩ := h
  obtain ⟨hfits, hnodup⟩ := of_validateRules h
  refine ⟨?_, fun rule hrule => ?_, ?_⟩
  · have hmem := AList.mem_keys.1 (not_not.1 hknown)
    rwa [show Str.trim body.trimmed.default = body.trimmed.default from Str.trim_trim _] at hmem
  · rw [← trimRule_of_mem_trimmed hrule]
    exact (hfits rule hrule).1
  have hmodels : (body.trimmed.rules.map fun rule => Str.trim rule.model) =
      body.trimmed.rules.map (·.model) :=
    map_congr_left fun rule hrule => congrArg RoutingRule.model (trimRule_of_mem_trimmed hrule)
  rwa [hmodels] at hnodup

theorem accepted_routing (h : validateRoutingBody cfg.backends body.trimmed = .ok ()) :
    PoolConfig.Accepted
      { cfg with routing := ⟨some body.trimmed.default, body.trimmed.rules⟩ } := by
  obtain ⟨hdefault, hrules, -⟩ := of_validateRoutingBody h
  rw [accepted_iff]
  rw [labels_of_keys (ne_nil_of_mem hdefault)]
  exact ⟨ne_nil_of_mem hdefault, hrules, hdefault⟩

/-- **What the console accepts, the proxy accepts**: the pool of a configuration with a checked
routing table has its default and its rules, each with a model of its own. -/
theorem resolve_of_validateRoutingBody (cfg : PoolConfig) (body : RoutingUpdateRequest)
    (h : validateRoutingBody cfg.backends body.trimmed = .ok ()) :
    ∃ pool, Backend.resolve cfg.backend cfg.backends
        ⟨some body.trimmed.default, body.trimmed.rules⟩ = .ok pool ∧
      pool.defaultBackend = body.trimmed.default ∧ pool.rules = body.trimmed.rules ∧
      (pool.rules.map (·.model)).Nodup := by
  obtain ⟨pool, hpool⟩ := accepted_routing h
  obtain ⟨-, hrules, -, hdefault⟩ := Backend.resolve_eq_ok hpool
  refine ⟨pool, hpool, Backend.resolveDefault_named hdefault rfl, hrules, ?_⟩
  rw [hrules]
  exact (of_validateRoutingBody h).2.2

/-- **One mutation.** A successful mutation leaves an accepted configuration accepted exactly if it
meets its condition. -/
theorem accepted_edit_iff {doc doc' : ConfigDoc} {mutation m : Mutation} (h : doc.config.Accepted)
    (hcheck : mutation.check (.ok doc.config) = .ok m) (hedit : m.edit doc = .ok doc') :
    doc'.config.Accepted ↔ Keeps doc mutation := by
  cases mutation with
  | create name body =>
    obtain ⟨rfl, hnew⟩ := check_create hcheck
    obtain ⟨entry, hconfig⟩ := config_upsertBackend hedit
    rw [hconfig]
    exact accepted_insert_iff h hnew
  | update name body =>
    obtain ⟨rfl, hold⟩ := check_update hcheck
    obtain ⟨entry, hconfig⟩ := config_upsertBackend hedit
    rw [hconfig]
    exact iff_of_true (accepted_replace h hold) trivial
  | delete name =>
    obtain ⟨rfl, hold, hdefault, hrules⟩ := check_delete hcheck
    cases hedit
    rw [config_deleteBackend]
    split
    next hfixed => exact iff_of_true h (.inl hfixed)
    next hfixed =>
      rw [accepted_erase_iff h hold hdefault hrules]
      exact (or_iff_right hfixed).symm
  | routing body =>
    obtain ⟨rfl, hvalid⟩ := check_routing hcheck
    rw [config_writeRouting hedit]
    exact iff_of_true (accepted_routing hvalid) trivial

end Step

/-! ## Sequences of mutations -/

def ConfigFile.Accepted (env : BackendConfig) (file : ConfigFile) : Prop :=
  ∃ cfg, file.freshConfig env = .ok cfg ∧ cfg.Accepted

section Run

variable (env : BackendConfig)

def AllServed : ConfigFile → List MutationCall → Prop
  | _, [] => True
  | file, call :: calls =>
    (call.serve env file).2.isOk = true ∧ AllServed (call.serve env file).1 calls

def AcceptedThroughout : ConfigFile → List MutationCall → Prop
  | _, [] => True
  | file, call :: calls =>
    (call.serve env file).1.Accepted env ∧ AcceptedThroughout (call.serve env file).1 calls

/-- Every mutation meets its condition in the document that it is made to. -/
def KeepsThroughout : ConfigFile → List MutationCall → Prop
  | _, [] => True
  | file, call :: calls =>
    (∀ doc, file.read = .ok doc → Keeps doc call.mutation) ∧
      KeepsThroughout (call.serve env file).1 calls

end Run

theorem serve_of_isOk {env : BackendConfig} {call : MutationCall} {file : ConfigFile}
    (h : (call.serve env file).2.isOk = true) :
    ∃ doc m doc', file = .valid doc ∧ call.mutation.check (.ok doc.config) = .ok m ∧
      m.edit doc = .ok doc' ∧ (call.serve env file).1 = .valid doc' := by
  cases hserve : call.serve env file with
  | mk file' reply =>
    rw [hserve] at h
    cases reply with
    | error e => cases h
    | ok n =>
      obtain ⟨doc, m, doc', hfile, hcheck, hedit, hfile'⟩ := serve_ok hserve
      exact ⟨doc, m, doc', hfile, hcheck, hedit, hfile'⟩

/-- **When the console keeps the proxy's configuration usable**: after each of a sequence of
successful mutations, exactly if each meets its condition. -/
theorem pool_kept_iff (env : BackendConfig) (file : ConfigFile) (calls : List MutationCall)
    (haccepted : file.Accepted env) (hserved : AllServed env file calls) :
    AcceptedThroughout env file calls ↔ KeepsThroughout env file calls := by
  induction calls generalizing file with
  | nil => exact Iff.rfl
  | cons call calls ih =>
    obtain ⟨hok, hrest⟩ := hserved
    obtain ⟨doc, m, doc', rfl, hcheck, hedit, hfile'⟩ := serve_of_isOk hok
    obtain ⟨cfg, hcfg, hdoc⟩ := haccepted
    cases hcfg
    have hstep := accepted_edit_iff hdoc hcheck hedit
    have hafter : (call.serve env (.valid doc)).1.Accepted env ↔ Keeps doc call.mutation := by
      rw [hfile', ← hstep]
      exact ⟨fun ⟨_, h, hacc⟩ => by cases h; exact hacc, fun h => ⟨_, rfl, h⟩⟩
    have hkeeps : (∀ d, (ConfigFile.valid doc).read = .ok d → Keeps d call.mutation) ↔
        Keeps doc call.mutation :=
      ⟨fun h => h doc rfl, fun h d hd => by cases hd; exact h⟩
    unfold AcceptedThroughout KeepsThroughout
    rw [hkeeps, hafter]
    exact and_congr_right fun hk => ih _ (hafter.2 hk) hrest

section Examples

def adminUser : User where
  id := 1
  username := "root".toList
  displayName := none
  email := none
  role := "admin".toList
  serviceAccount := false
  disabled := false
  allowedModels := "*".toList
  budgetLimit := none
  oidcSub := none
  passwordHash := none
  lockedUntil := none
  createdAt := []
  lastLoginAt := none

def exampleBackend : BackendConfig := ⟨"ollama".toList, "http://localhost:11434".toList, none, none⟩

def upsertBody : BackendUpsertRequest := ⟨"openai".toList, "https://api.example".toList, none, none⟩

def fallbackDoc : ConfigDoc where
  backend := none
  backends := some ⟨false, ((∅ : Backends).insert "b".toList exampleBackend).insert "a".toList
    exampleBackend, []⟩
  routing := some ⟨false, some "a".toList, [⟨"m".toList, "a".toList, ["b".toList]⟩]⟩
  rest := []

def singleDoc : ConfigDoc where
  backend := none
  backends := some ⟨false, (∅ : Backends).insert "a".toList exampleBackend, []⟩
  routing := none
  rest := []

def asAdmin (m : Mutation) : MutationCall := ⟨adminUser, m, none⟩

def spacedRouting : RoutingUpdateRequest where
  default := " a ".toList
  rules := [⟨"gpt-* ".toList, "b".toList, [" a".toList, " ".toList]⟩, ⟨"m".toList, "a".toList, []⟩]

theorem resolve_of_spaced_routing :
    validateRoutingBody fallbackDoc.config.backends spacedRouting.trimmed = .ok () ∧
      ∃ pool, Backend.resolve fallbackDoc.config.backend fallbackDoc.config.backends
          ⟨some spacedRouting.trimmed.default, spacedRouting.trimmed.rules⟩ = .ok pool ∧
        pool.defaultBackend = "a".toList ∧
        pool.rules = [⟨"gpt-*".toList, "b".toList, ["a".toList]⟩, ⟨"m".toList, "a".toList, []⟩] ∧
        (pool.rules.map (·.model)).Nodup :=
  ⟨rfl, resolve_of_validateRoutingBody fallbackDoc.config spacedRouting rfl⟩

theorem pool_kept_create :
    AcceptedThroughout exampleBackend (.valid fallbackDoc)
      [asAdmin (.create "c".toList upsertBody), asAdmin (.delete "c".toList)] := by
  apply (pool_kept_iff exampleBackend (.valid fallbackDoc)
    [asAdmin (.create "c".toList upsertBody), asAdmin (.delete "c".toList)]
    ⟨_, rfl, _, rfl⟩ ⟨rfl, rfl, trivial⟩).2
  refine ⟨?_, ?_, trivial⟩
  · rintro doc hdoc
    cases hdoc
    decide
  · rintro doc hdoc
    cases hdoc
    decide

/-- **Mutations that leave a configuration the proxy refuses**: the deletion of a backend that a
rule falls back to, a second backend without a default, and the deletion of the last backend. -/
theorem refused_configurations :
    let refused (doc : ConfigDoc) (m : Mutation) : Prop :=
      (ConfigFile.valid doc).Accepted exampleBackend ∧
        ((asAdmin m).serve exampleBackend (.valid doc)).2.isOk = true ∧
        ¬ ((asAdmin m).serve exampleBackend (.valid doc)).1.Accepted exampleBackend
    refused fallbackDoc (.delete "b".toList) ∧ refused singleDoc (.create "b".toList upsertBody) ∧
      refused singleDoc (.delete "a".toList) := by
  refine ⟨⟨⟨_, rfl, _, rfl⟩, rfl, ?_⟩, ⟨⟨_, rfl, _, rfl⟩, rfl, ?_⟩, ⟨⟨_, rfl, _, rfl⟩, rfl, ?_⟩⟩
  all_goals
    rintro ⟨cfg, hcfg, pool, hpool⟩
    cases hcfg
    cases hpool

end Examples

end Nanoguard.Console

import Nanoguard.ClientAuth.Cache
import Nanoguard.Lib.CacheHistory

/-!
# Runs of the token cache

A run starts from the empty cache, under a clock that does not run backwards, and may change the
traversal order of the map at any time. `Change` says once what an operation can do to the map; from
it follows how the stamped map reflects the history of the run (`Reflects`).
-/

namespace Nanoguard.ClientAuth

open CacheHistory

namespace TokenCache

def apply (c : TokenCache) (now : Nat) : Op Text CachedToken → TokenCache × Option CachedToken
  | .get p => c.get now p
  | .insert p token => (c.insert now p token, none)
  | .invalidate p => (c.invalidate p, none)
  | .clear => (c.clear, none)

def lost (c c' : TokenCache) : List Text := c.map.keys.filter fun p => p ∉ c'.map

def event (c : TokenCache) (now : Nat) (op : Op Text CachedToken) : Event Text CachedToken where
  now
  op
  answer := (c.apply now op).2
  evicted :=
    match op with
    | .insert .. => c.lost (c.apply now op).1
    | _ => []

inductive Run (capacity ttl : Nat) : List (Event Text CachedToken) → TokenCache → Prop
  | new : Run capacity ttl [] (.new capacity ttl)
  | reorder {h c map} : Run capacity ttl h c → map.entries.Perm c.map.entries →
      Run capacity ttl h { c with map }
  | step {h c now} (op) : Run capacity ttl h c → (∀ e ∈ h, e.now ≤ now) →
      Run capacity ttl (c.event now op :: h) (c.apply now op).1

variable {c c' : TokenCache} {now at' : Nat} {p q : Text} {token tok : CachedToken}
  {h : List (Event Text CachedToken)} {e : Entry}

/-! ## What an operation does to the map -/

theorem mem_lost : q ∈ c.lost c' ↔ q ∈ c.map ∧ q ∉ c'.map := by
  simp [lost, AList.mem_keys]

theorem victim_eq_some (hv : c.victim now = some q) : q ∈ c.map := by
  unfold victim at hv
  split at hv
  · rename_i x hx
    cases hv
    exact List.mem_keys_of_mem (List.mem_of_find?_eq_some hx)
  · obtain ⟨x, hx, rfl⟩ := Option.map_eq_some_iff.1 hv
    exact List.mem_keys_of_mem (List.argmin_mem hx)

theorem victim_eq_none (hv : c.victim now = none) : c.map.entries = [] := by
  unfold victim at hv
  split at hv
  · cases hv
  · exact List.argmin_eq_none.1 (Option.map_eq_none_iff.1 hv)

/-- A victim that has not expired is the least recently used entry of a map without expired ones. -/
theorem victim_of_fresh (hv : c.victim now = some q) (hq : c.map.lookup q = some e)
    (hfresh : c.expired now e = false) :
    ∀ r e', c.map.lookup r = some e' → c.expired now e' = false ∧ e.lastUsed ≤ e'.lastUsed := by
  intro r e' hr
  have hmem : ⟨r, e'⟩ ∈ c.map.entries := AList.mem_lookup_iff.1 hr
  unfold victim at hv
  split at hv
  · rename_i x hx
    cases hv
    have hxq : c.map.lookup x.1 = some x.2 := AList.mem_lookup_iff.2 (List.mem_of_find?_eq_some hx)
    rw [hq, Option.some.injEq] at hxq
    have hexp := List.find?_some hx
    rw [← hxq, hfresh] at hexp
    cases hexp
  rename_i hnone
  obtain ⟨x, hx, rfl⟩ := Option.map_eq_some_iff.1 hv
  have hxq : c.map.lookup x.1 = some x.2 := AList.mem_lookup_iff.2 (List.argmin_mem hx)
  rw [hq, Option.some.injEq] at hxq
  have hle := List.le_of_mem_argmin (f := fun x => x.2.lastUsed) hmem hx
  exact ⟨Bool.eq_false_iff.2 (List.find?_eq_none.1 hnone _ hmem), hxq ▸ hle⟩

theorem makeRoom_map (c : TokenCache) (now : Nat) :
    (c.makeRoom now).map =
      if c.capacity ≤ c.map.entries.length then
        (c.victim now).elim c.map fun key => c.map.erase key
      else c.map := by
  unfold makeRoom evictOne
  split
  · split <;> rename_i hv <;> rw [hv] <;> rfl
  · rfl

/-- The map that an insert under the key `p` writes to. -/
def roomFor (c : TokenCache) (now : Nat) (p : Text) : AList (fun _ : Text => Entry) :=
  if p ∈ c.map then c.map else (c.makeRoom now).map

theorem insert_map (c : TokenCache) (now : Nat) (p : Text) (token : CachedToken) :
    (c.insert now p token).map =
      (c.roomFor now p).insert p { token, insertedAt := now, lastUsed := c.nextCounter } := by
  unfold insert roomFor
  simp only [AList.lookup_isSome]
  split
  · rfl
  · simp only [makeRoom_map]
    rfl

theorem roomFor_cases (c : TokenCache) (now : Nat) (p : Text) :
    (c.roomFor now p = c.map ∧ (p ∈ c.map ∨ c.map.entries.length < max c.capacity 1)) ∨
      ∃ q, c.roomFor now p = c.map.erase q ∧ c.victim now = some q ∧ p ∉ c.map ∧
        c.capacity ≤ c.map.entries.length := by
  unfold roomFor
  by_cases hp : p ∈ c.map
  · rw [if_pos hp]
    exact .inl ⟨rfl, .inl hp⟩
  rw [if_neg hp, makeRoom_map]
  split
  · rename_i hfull
    cases hv : c.victim now with
    | none => 
      have hnil := victim_eq_none hv
      refine .inl ⟨rfl, .inr ?_⟩
      rw [hnil]
      exact Nat.lt_of_lt_of_le Nat.zero_lt_one (Nat.le_max_right _ _)
    | some q => exact .inr ⟨q, rfl, rfl, hp, hfull⟩
  · rename_i hroom
    exact .inl ⟨rfl, .inr (Nat.lt_of_lt_of_le (Nat.not_le.1 hroom) (Nat.le_max_left _ _))⟩

theorem length_insert_le (hsize : c.map.entries.length ≤ max c.capacity 1) :
    (c.insert now p token).map.entries.length ≤ max c.capacity 1 := by
  rw [insert_map]
  obtain ⟨hroom, hp | hlt⟩ | ⟨q, hroom, hv, hp, -⟩ := roomFor_cases c now p
  · rw [hroom, length_insert_of_mem hp]
    exact hsize
  · rw [hroom]
    by_cases hp : p ∈ c.map
    · rw [length_insert_of_mem hp]
      exact hsize
    · rw [length_insert_of_notMem hp]
      exact hlt
  have hq := victim_eq_some hv
  have hpe : p ∉ c.map.erase q := fun h => hp (AList.mem_erase.1 h).2
  rw [hroom, length_insert_of_notMem hpe, length_erase_of_mem hq]
  omega

theorem lookup_insert_ne (c : TokenCache) (now : Nat) (token : CachedToken) (hq : q ≠ p) :
    (c.insert now p token).map.lookup q = c.map.lookup q ∨
      (c.insert now p token).map.lookup q = none ∧ c.victim now = some q ∧ p ∉ c.map ∧
        c.capacity ≤ c.map.entries.length := by
  rw [insert_map, AList.lookup_insert_ne hq]
  obtain ⟨hroom, -⟩ | ⟨r, hroom, hv, hp, hfull⟩ := roomFor_cases c now p
  · rw [hroom]
    exact .inl rfl
  rw [hroom]
  by_cases hr : q = r
  · subst hr
    exact .inr ⟨AList.lookup_erase _ _, hv, hp, hfull⟩
  · exact .inl (AList.lookup_erase_ne hr)

@[simp] theorem insert_capacity : (c.insert now p token).capacity = c.capacity := by
  unfold insert
  simp only
  split
  · rfl
  unfold makeRoom evictOne
  split
  · split <;> rfl
  · rfl

@[simp] theorem insert_counter : (c.insert now p token).counter = c.nextCounter := by
  unfold insert
  simp only
  split
  · rfl
  unfold makeRoom evictOne
  split
  · split <;> rfl
  · rfl

theorem get_cases (c : TokenCache) (now : Nat) (p : Text) :
    (c.map.lookup p = none ∧ c.get now p = (c, none)) ∨
    (∃ e, c.map.lookup p = some e ∧ c.expired now e = true ∧
      c.get now p = ({ c with map := c.map.erase p }, none)) ∨
    (∃ e, c.map.lookup p = some e ∧ c.expired now e = false ∧
      c.get now p =
        ({ c with
            counter := c.nextCounter
            map := c.map.insert p { e with lastUsed := c.nextCounter } }, some e.token)) := by
  unfold get
  cases hp : c.map.lookup p with
  | none => exact .inl ⟨rfl, rfl⟩
  | some e =>
    cases hexp : c.expired now e with
    | true => exact .inr (.inl ⟨e, rfl, hexp, if_pos hexp⟩)
    | false => exact .inr (.inr ⟨e, rfl, hexp, if_neg (by simp [hexp])⟩)

/-! ## How the map reflects the history -/

/-- What the cache knows about the past. -/
structure Reflects (h : List (Event Text CachedToken)) (c : TokenCache) : Prop where
  size : c.map.entries.length ≤ max c.capacity 1
  counter_le : c.counter ≤ h.length
  kept_eq : ∀ p e, c.map.lookup p = some e → kept p h = some (e.token, e.insertedAt)
  used : ∀ p e, c.map.lookup p = some e → 0 < lastUse p h
  stamp_le : ∀ p e, c.map.lookup p = some e → e.lastUsed ≤ c.counter
  stamp_lt : ∀ p q e e', c.map.lookup p = some e → c.map.lookup q = some e' →
    lastUse p h < lastUse q h → e.lastUsed < e'.lastUsed
  /-- a value that is no longer stored has expired -/
  gone : ∀ p tok at', kept p h = some (tok, at') → c.map.lookup p = none →
    ∃ e ∈ h, c.ttl ≤ e.now - at'

/-- What an operation with the event `ev` can do, and no more: an entry is stamped because the
event used it or is an old one, and a value leaves the map only as it expires. -/
structure Change (h : List (Event Text CachedToken)) (c : TokenCache)
    (ev : Event Text CachedToken) (c' : TokenCache) : Prop where
  capacity_eq : c'.capacity = c.capacity
  ttl_eq : c'.ttl = c.ttl
  size : c'.map.entries.length ≤ max c.capacity 1
  counter : c'.counter = c.counter + 1 ∨ c'.counter = c.counter
  entry : ∀ q e, c'.map.lookup q = some e →
    (ev.used = some q ∧ c'.counter = c.counter + 1 ∧ e.lastUsed = c'.counter ∧
        kept q (ev :: h) = some (e.token, e.insertedAt)) ∨
      (ev.used ≠ some q ∧ c.map.lookup q = some e ∧ kept q (ev :: h) = kept q h)
  gone : ∀ q tok at', kept q (ev :: h) = some (tok, at') → c'.map.lookup q = none →
    kept q h = some (tok, at') ∧ (c.map.lookup q = none ∨ c.ttl ≤ ev.now - at')

theorem Reflects.cons {ev : Event Text CachedToken} (hc : Reflects h c)
    (hchange : Change h c ev c') : Reflects (ev :: h) c' where
  size := by
    rw [hchange.capacity_eq]
    exact hchange.size
  counter_le := by
    have := hc.counter_le
    rw [List.length_cons]
    rcases hchange.counter with hcount | hcount <;> omega
  kept_eq p e hp := by
    obtain ⟨-, -, -, hkept⟩ | ⟨-, hold, hkept⟩ := hchange.entry p e hp
    · exact hkept
    · exact hkept.trans (hc.kept_eq p e hold)
  used p e hp := by
    obtain ⟨hused, -⟩ | ⟨hused, hold, -⟩ := hchange.entry p e hp
    · rw [lastUse_cons_of_used hused]
      exact Nat.succ_pos _
    · rw [lastUse_cons_of_not_used hused]
      exact hc.used p e hold
  stamp_le p e hp := by
    obtain ⟨-, -, hstamp, -⟩ | ⟨-, hold, -⟩ := hchange.entry p e hp
    · exact Nat.le_of_eq hstamp
    · have := hc.stamp_le p e hold
      rcases hchange.counter with hcount | hcount <;> omega
  stamp_lt p q e e' hp hq hlt := by
    -- the key that was just used comes last in both orders
    have hbound := lastUse_le_length q h
    obtain ⟨hup, -⟩ | ⟨hup, hpold, -⟩ := hchange.entry p e hp <;>
      obtain ⟨huq, hcount, hstamp, -⟩ | ⟨huq, hqold, -⟩ := hchange.entry q e' hq
    · rw [lastUse_cons_of_used hup, lastUse_cons_of_used huq] at hlt
      exact absurd hlt (Nat.lt_irrefl _)
    · rw [lastUse_cons_of_used hup, lastUse_cons_of_not_used huq] at hlt
      omega
    · have := hc.stamp_le p e hpold
      omega
    · rw [lastUse_cons_of_not_used hup, lastUse_cons_of_not_used huq] at hlt
      exact hc.stamp_lt p q e e' hpold hqold hlt
  gone p tok at' hkept hnone := by
    rw [hchange.ttl_eq]
    obtain ⟨hkept, hgone | hexp⟩ := hchange.gone p tok at' hkept hnone
    · obtain ⟨e, he, hexp⟩ := hc.gone p tok at' hkept hgone
      exact ⟨e, List.mem_cons_of_mem _ he, hexp⟩
    · exact ⟨ev, List.mem_cons_self, hexp⟩

theorem change_get (hc : Reflects h c) (hnext : c.nextCounter = c.counter + 1) :
    Change h c (c.event now (.get p)) (c.get now p).1 := by
  have hkept : ∀ q, kept q (c.event now (.get p) :: h) = kept q h := fun _ => rfl
  obtain ⟨hnone, hget⟩ | ⟨e, hp, hexp, hget⟩ | ⟨e, hp, -, hget⟩ := get_cases c now p
  · have hused : (c.event now (.get p)).used = none := by simp [event, apply, Event.used, hget]
    rw [hget]
    refine ⟨rfl, rfl, hc.size, .inr rfl, fun q e hq => .inr ⟨by simp [hused], hq, hkept q⟩, ?_⟩
    exact fun q tok at' hk hq => ⟨hk, .inl hq⟩
  · have hused : (c.event now (.get p)).used = none := by simp [event, apply, Event.used, hget]
    rw [hget]
    refine ⟨rfl, rfl, (length_erase_le _ _).trans hc.size, .inr rfl, ?_, ?_⟩
    · exact fun q e hq => .inr ⟨by simp [hused], (holds_of_erase hq).2, hkept q⟩
    intro q tok at' hk hq
    refine ⟨hk, ?_⟩
    by_cases hqp : q = p
    · subst hqp
      have heq := (hc.kept_eq q e hp).symm.trans hk
      simp only [Option.some.injEq, Prod.mk.injEq] at heq
      rw [← heq.2]
      exact .inr (of_decide_eq_true hexp)
    · rw [AList.lookup_erase_ne hqp] at hq
      exact .inl hq
  · have hused : (c.event now (.get p)).used = some p := by simp [event, apply, Event.used, hget]
    have hmem : p ∈ c.map := AList.lookup_isSome.1 (by rw [hp]; rfl)
    rw [hget]
    refine ⟨rfl, rfl, ?_, .inl hnext, ?_, ?_⟩
    · rw [length_insert_of_mem hmem]
      exact hc.size
    · intro q e' hq
      by_cases hqp : q = p
      · subst hqp
        simp only [AList.lookup_insert, Option.some.injEq] at hq
        subst hq
        exact .inl ⟨hused, hnext, rfl, (hkept q).trans (hc.kept_eq q e hp)⟩
      · simp only [AList.lookup_insert_ne hqp] at hq
        exact .inr ⟨by simp [hused, Ne.symm hqp], hq, hkept q⟩
    · intro q tok at' hk hq
      rw [AList.lookup_insert_eq_none] at hq
      exact ⟨hk, .inl hq.2⟩

theorem change_insert (hc : Reflects h c) (hnext : c.nextCounter = c.counter + 1) :
    Change h c (c.event now (.insert p token)) (c.insert now p token) := by
  have hkept : kept p (c.event now (.insert p token) :: h) = some (token, now) := if_pos rfl
  have hother : ∀ q, q ≠ p →
      (q ∈ c.lost (c.insert now p token) → kept q (c.event now (.insert p token) :: h) = none) ∧
      (q ∉ c.lost (c.insert now p token) →
        kept q (c.event now (.insert p token) :: h) = kept q h) := by
    intro q hq
    have hop : (c.event now (.insert p token)).op = .insert p token := rfl
    exact kept_cons_insert hop (Ne.symm hq)
  refine ⟨insert_capacity, insert_ttl, length_insert_le hc.size,
    .inl (insert_counter.trans hnext), ?_, ?_⟩
  · intro q e hq
    by_cases hqp : q = p
    · subst hqp
      rw [insert_map, AList.lookup_insert, Option.some.injEq] at hq
      subst hq
      exact .inl ⟨rfl, insert_counter.trans hnext, insert_counter.symm, hkept⟩
    have hstays : q ∉ c.lost (c.insert now p token) := by
      intro hlost
      rw [AList.lookup_eq_none.2 (mem_lost.1 hlost).2] at hq
      cases hq
    refine .inr ⟨fun hu => hqp (Option.some.inj hu).symm, ?_, ?_⟩
    · obtain hsame | ⟨hnone, -⟩ := lookup_insert_ne c now token hqp
      · exact hsame.symm.trans hq
      · rw [hnone] at hq
        cases hq
    · exact (hother q hqp).2 hstays
  · intro q tok at' hk hnone
    by_cases hqp : q = p
    · subst hqp
      rw [insert_map, AList.lookup_insert] at hnone
      cases hnone
    have hout : q ∉ (c.insert now p token).map := AList.lookup_eq_none.1 hnone
    by_cases hq : q ∈ c.map
    · rw [(hother q hqp).1 (mem_lost.2 ⟨hq, hout⟩)] at hk
      cases hk
    · rw [(hother q hqp).2 fun hlost => hq (mem_lost.1 hlost).1] at hk
      exact ⟨hk, .inl (AList.lookup_eq_none.2 hq)⟩

theorem change_invalidate (hc : Reflects h c) :
    Change h c (c.event now (.invalidate p)) (c.invalidate p) := by
  have hother : ∀ q, q ≠ p → kept q (c.event now (.invalidate p) :: h) = kept q h :=
    fun q hq => if_neg (Ne.symm hq)
  refine ⟨rfl, rfl, (length_erase_le _ _).trans hc.size, .inr rfl, ?_, ?_⟩
  · intro q e hq
    obtain ⟨hqp, hold⟩ := holds_of_erase hq
    exact .inr ⟨Option.some_ne_none q |>.symm, hold, hother q hqp⟩
  intro q tok at' hk hq
  by_cases hqp : q = p
  · have hnone : kept q (c.event now (.invalidate p) :: h) = none := if_pos hqp.symm
    rw [hnone] at hk
    cases hk
  · rw [hother q hqp] at hk
    exact ⟨hk, .inl ((AList.lookup_erase_ne hqp).symm.trans hq)⟩

theorem change_clear : Change h c (c.event now .clear) c.clear := by
  refine ⟨rfl, rfl, Nat.zero_le _, .inr rfl, ?_, ?_⟩
  · intro q e hq
    cases hq
  · intro q tok at' hk
    cases hk

theorem change_apply (hc : Reflects h c) (hlen : h.length + 1 < 2 ^ 64) (now : Nat)
    (op : Op Text CachedToken) : Change h c (c.event now op) (c.apply now op).1 := by
  have hnext : c.nextCounter = c.counter + 1 :=
    Nat.mod_eq_of_lt (Nat.lt_of_le_of_lt (Nat.succ_le_succ hc.counter_le) hlen)
  cases op with
  | get p => exact change_get hc hnext
  | insert p token => exact change_insert hc hnext
  | invalidate p => exact change_invalidate hc
  | clear => exact change_clear

theorem Reflects.reorder {map : AList (fun _ : Text => Entry)} (hc : Reflects h c)
    (hperm : map.entries.Perm c.map.entries) : Reflects h { c with map } := by
  have hlookup : ∀ p, map.lookup p = c.map.lookup p := fun _ => AList.perm_lookup hperm
  refine ⟨hperm.length_eq ▸ hc.size, hc.counter_le, ?_, ?_, ?_, ?_, ?_⟩
  all_goals simp only [hlookup]
  · exact hc.kept_eq
  · exact hc.used
  · exact hc.stamp_le
  · exact hc.stamp_lt
  · exact hc.gone

theorem Run.reflects {capacity ttl : Nat} (run : Run capacity ttl h c) (hlen : h.length < 2 ^ 64) :
    c.capacity = capacity ∧ c.ttl = ttl ∧ Reflects h c := by
  induction run with
  | new =>
    refine ⟨rfl, rfl, Nat.zero_le _, Nat.zero_le _, ?_, ?_, ?_, ?_, ?_⟩
    all_goals intros; contradiction
  | reorder _ hperm ih =>
    obtain ⟨hcap, httl, hc⟩ := ih hlen
    exact ⟨hcap, httl, hc.reorder hperm⟩
  | @step _ _ now op _ _ ih =>
    obtain ⟨hcap, httl, hc⟩ := ih (Nat.lt_of_succ_lt hlen)
    have hchange := change_apply hc hlen now op
    exact ⟨hchange.capacity_eq.trans hcap, hchange.ttl_eq.trans httl, hc.cons hchange⟩

/-- An entry is taken out while it is fresh by its invalidation, by a `clear`, or by an insert of a
new key into a full map; then nothing has expired and every other key was used after it. -/
theorem Reflects.evicted_of_fresh (hc : Reflects h c) {op : Op Text CachedToken}
    (hq : c.map.lookup q = some e) (hfresh : now - e.insertedAt < c.ttl)
    (hout : q ∉ (c.apply now op).1.map) :
    op = .invalidate q ∨ op = .clear ∨
      ∃ p token, op = .insert p token ∧ p ∉ c.map ∧
        c.map.entries.length = max c.capacity 1 ∧
        ∀ r e', c.map.lookup r = some e' → now - e'.insertedAt < c.ttl ∧
          (r ≠ q → lastUse q h < lastUse r h) := by
  have hmem : q ∈ c.map := AList.lookup_isSome.1 (by rw [hq]; rfl)
  have hexp : c.expired now e = false := decide_eq_false (Nat.not_le.2 hfresh)
  cases op with
  | get p =>
    refine absurd ?_ hout
    obtain ⟨-, hget⟩ | ⟨e', hp, hexp', hget⟩ | ⟨e', -, -, hget⟩ := get_cases c now p
    · rw [apply, hget]
      exact hmem
    · rw [apply, hget]
      refine AList.mem_erase.2 ⟨?_, hmem⟩
      rintro rfl
      rw [hq, Option.some.injEq] at hp
      rw [← hp, hexp] at hexp'
      cases hexp'
    · rw [apply, hget]
      exact (AList.mem_insert _).2 (.inr hmem)
  | insert p token =>
    have hnone := AList.lookup_eq_none.2 hout
    have hqp : q ≠ p := by
      rintro rfl
      rw [apply, insert_map, AList.lookup_insert] at hnone
      cases hnone
    obtain hsame | ⟨-, hv, hp, hfull⟩ := lookup_insert_ne c now token hqp
    · rw [apply, hsame, hq] at hnone
      cases hnone
    have hpos : 0 < c.map.entries.length := by
      rw [length_entries]
      exact List.length_pos_of_mem hmem
    have hsize := hc.size
    refine .inr (.inr ⟨p, token, rfl, hp, by omega, ?_⟩)
    intro r e' hr
    obtain ⟨hexp', hle⟩ := victim_of_fresh hv hq hexp r e' hr
    refine ⟨Nat.not_le.1 (of_decide_eq_false hexp'), fun hrq => ?_⟩
    -- the stamps order the two keys as their last uses, which are distinct
    rcases Nat.lt_trichotomy (lastUse q h) (lastUse r h) with hlt | heq | hgt
    · exact hlt
    · exact absurd (eq_of_lastUse_eq (hc.used q e hq) heq).symm hrq
    · exact absurd (hc.stamp_lt r q e' e hr hq hgt) (Nat.not_lt.2 hle)
  | invalidate p =>
    left
    by_cases hqp : q = p
    · rw [hqp]
    · exact absurd (AList.mem_erase.2 ⟨hqp, hmem⟩) hout
  | clear => exact .inr (.inl rfl)

theorem Reflects.get_iff (hc : Reflects h c) (hclock : ∀ e ∈ h, e.now ≤ now) :
    (c.get now p).2 = some tok ↔ ∃ at', kept p h = some (tok, at') ∧ now - at' < c.ttl := by
  constructor
  · intro hget
    obtain ⟨at', ⟨e, hp, rfl, rfl⟩, hfresh⟩ := holds_of_get_eq_some hget
    exact ⟨e.insertedAt, hc.kept_eq p e hp, hfresh⟩
  · rintro ⟨at', hkept, hfresh⟩
    obtain ⟨hnone, -⟩ | ⟨e, hp, hexp, -⟩ | ⟨e, hp, -, hget⟩ := get_cases c now p
    · obtain ⟨ev, hev, hexp⟩ := hc.gone p tok at' hkept hnone
      have := hclock ev hev
      omega
    · have heq := (hc.kept_eq p e hp).symm.trans hkept
      simp only [Option.some.injEq, Prod.mk.injEq] at heq
      have hexp : c.ttl ≤ now - e.insertedAt := of_decide_eq_true hexp
      omega
    · have heq := (hc.kept_eq p e hp).symm.trans hkept
      simp only [Option.some.injEq, Prod.mk.injEq] at heq
      rw [hget, heq.1]

/-- The token cache is a least-recently-used cache with a time to live: its size is bounded, a `get`
answers from the history, and only the least recently used entry is pushed out early. -/
theorem Run.isLru {capacity ttl : Nat} (run : Run capacity ttl h c) (hlen : h.length < 2 ^ 64) :
    c.map.entries.length ≤ max capacity 1 ∧
    ∀ now, (∀ ev ∈ h, ev.now ≤ now) →
      (∀ p tok, (c.get now p).2 = some tok ↔
        ∃ at', kept p h = some (tok, at') ∧ now - at' < ttl) ∧
      (∀ op q e, c.map.lookup q = some e → now - e.insertedAt < ttl →
        q ∉ (c.apply now op).1.map →
        op = .invalidate q ∨ op = .clear ∨
          ∃ p token, op = .insert p token ∧ p ∉ c.map ∧
            c.map.entries.length = max capacity 1 ∧
            ∀ r e', c.map.lookup r = some e' → now - e'.insertedAt < ttl ∧
              (r ≠ q → lastUse q h < lastUse r h)) := by
  obtain ⟨rfl, rfl, hc⟩ := run.reflects hlen
  refine ⟨hc.size, fun now hclock => ⟨fun p tok => hc.get_iff hclock, ?_⟩⟩
  exact fun op q e hq hfresh hout => hc.evicted_of_fresh hq hfresh hout

def sampleToken : CachedToken where
  row :=
    { id := 1, tokenPrefix := "ng_a".toList, userId := 1, label := none
      createdAt := "2026-01-01T00:00:00Z".toList, expiresAt := none, revokedAt := none
      lastUsedAt := none }
  hash := List.replicate 32 0

def oneSlot : TokenCache := ((new 1 10).apply 0 (.insert "a".toList sampleToken)).1

/-- A second key pushes out the first, which until then is found. -/
theorem isLru_oneSlot :
    (oneSlot.get 5 "a".toList).2 = some sampleToken ∧
      "a".toList ∉ (oneSlot.apply 5 (.insert "b".toList sampleToken)).1.map ∧
      oneSlot.map.entries.length = max 1 1 := by
  have run : Run 1 10 [(new 1 10).event 0 (.insert "a".toList sampleToken)] oneSlot :=
    .step _ .new (by decide)
  have hout : "a".toList ∉ (oneSlot.apply 5 (.insert "b".toList sampleToken)).1.map := by decide
  obtain ⟨-, hlru⟩ := run.isLru (by decide)
  obtain ⟨hget, hevict⟩ := hlru 5 (by decide)
  refine ⟨(hget _ _).2 ⟨0, by decide, by decide⟩, hout, ?_⟩
  obtain h | h | ⟨-, -, -, -, hfull, -⟩ :=
    hevict _ "a".toList ⟨sampleToken, 0, 1⟩ (by decide) (by decide) hout
  · cases h
  · cases h
  · exact hfull

end TokenCache

end Nanoguard.ClientAuth

import Nanoguard.Guard.Deanonymize
import Nanoguard.Lib.SlotFill

/-!
# Restoring by either strategy

Both strategies apply the entries one after the other, and each entry puts its value in place of the
placeholders that match its own: equal to it, or equal but for ASCII case (`MatchingStrategy.Matches`).
-/

namespace Nanoguard.Guard

open List

variable {b : Char} {t key q : Text}

namespace MatchingStrategy

/-- The placeholders that an entry is for. -/
def Matches : MatchingStrategy → Text → Text → Prop
  | .exact, key, q => q = key
  | .caseInsensitive, key, q => CaseInsensitive.eqIgnoreAsciiCase q key = true

instance (strategy : MatchingStrategy) (key q : Text) : Decidable (strategy.Matches key q) := by
  cases strategy
  · exact inferInstanceAs (Decidable (q = key))
  · exact inferInstanceAs (Decidable (_ = true))

def replaceEntry : MatchingStrategy → Text → Text × Text → Text
  | .exact, out, e => if Str.contains out e.1 then Str.replace out e.1 e.2 else out
  | .caseInsensitive, out, e => if e.1.isEmpty then out else CaseInsensitive.replaceGo e.1 e.2 0 out

theorem restore_eq_foldl (strategy : MatchingStrategy) (output : Text) (L : List (Text × Text)) :
    strategy.restore output L = L.foldl strategy.replaceEntry output := by
  cases strategy <;> rfl

end MatchingStrategy

/-! ## Placeholders up to case -/

/-- A character below the lowercase letters that is not an uppercase letter. -/
def Caseless (b : Char) : Prop := b.toLower = b ∧ b.toNat < 97

instance (b : Char) : Decidable (Caseless b) := inferInstanceAs (Decidable (_ ∧ _))

theorem toLower_eq_iff {c : Char} (hb : Caseless b) : c.toLower = b ↔ c = b := by
  constructor
  · intro h
    rcases Str.toLower_cases c with ⟨-, hsame⟩ | ⟨hge, -⟩
    · rw [← hsame, h]
    · have hlt := hb.2
      rw [h] at hge
      omega
  · rintro rfl
    exact hb.1

theorem mem_toAsciiLowercase (hb : Caseless b) : b ∈ Str.toAsciiLowercase t ↔ b ∈ t := by
  unfold Str.toAsciiLowercase
  rw [mem_map]
  constructor
  · rintro ⟨c, hc, hlower⟩
    exact (toLower_eq_iff hb).1 hlower ▸ hc
  · intro h
    exact ⟨b, h, hb.1⟩

theorem mem_of_eqIgnoreAsciiCase (hb : Caseless b)
    (h : CaseInsensitive.eqIgnoreAsciiCase q key = true) : b ∈ q ↔ b ∈ key := by
  rw [← mem_toAsciiLowercase hb, ← mem_toAsciiLowercase (t := key) hb, eq_of_beq h]

theorem isSlot_of_eqIgnoreAsciiCase (hkey : brackets.IsSlot key)
    (h : CaseInsensitive.eqIgnoreAsciiCase q key = true) : brackets.IsSlot q := by
  obtain ⟨name, hname, rfl⟩ := hkey
  have heq : q.map Char.toLower = '[' :: (name.map Char.toLower ++ [']']) := by
    have := eq_of_beq h
    unfold Str.toAsciiLowercase Delims.slot at this
    rwa [map_cons, map_append] at this
  obtain ⟨c, q, rfl, hc, hrest⟩ := map_eq_cons_iff.1 heq
  obtain ⟨name', l, rfl, hname', hl⟩ := map_eq_append_iff.1 hrest
  obtain ⟨d, rfl, hd⟩ := map_eq_singleton_iff.1 hl
  obtain rfl := (toLower_eq_iff (by decide)).1 hc
  obtain rfl := (toLower_eq_iff (by decide)).1 hd
  have hsame : Str.toAsciiLowercase name' = Str.toAsciiLowercase name := hname'
  refine ⟨name', ⟨?_, ?_⟩, rfl⟩
  · rw [← mem_toAsciiLowercase (by decide), hsame, mem_toAsciiLowercase (by decide)]
    exact hname.1
  · rw [← mem_toAsciiLowercase (by decide), hsame, mem_toAsciiLowercase (by decide)]
    exact hname.2

theorem CaseInsensitive.replaceGo_drop (needle original : Text) : ∀ a t : Text,
    replaceGo needle original a.length (a ++ t) = replaceGo needle original 0 t
  | [], _ => rfl
  | _ :: a, t => by
    rw [length_cons, cons_append, replaceGo]
    exact replaceGo_drop needle original a t

theorem CaseInsensitive.length_of_eqIgnoreAsciiCase (h : eqIgnoreAsciiCase q key = true) :
    q.length = key.length := by
  have hlen := congrArg List.length (eq_of_beq h)
  unfold Str.toAsciiLowercase at hlen
  rwa [length_map, length_map] at hlen

theorem CaseInsensitive.replaceGo_append (hq : eqIgnoreAsciiCase q key = true) (hne : key ≠ [])
    (v t : Text) : replaceGo key v 0 (q ++ t) = v ++ replaceGo key v 0 t := by
  have hlen := length_of_eqIgnoreAsciiCase hq
  cases q with
  | nil => exact absurd (length_eq_zero_iff.1 hlen.symm) hne
  | cons c q =>
    have htake : (c :: q ++ t).take key.length = c :: q := by rw [← hlen, take_left]
    have hskip : key.length - 1 = q.length := by
      rw [← hlen, length_cons, Nat.add_sub_cancel]
    rw [← htake] at hq
    rw [cons_append] at hq ⊢
    rw [replaceGo, if_pos hq, hskip, replaceGo_drop]

theorem CaseInsensitive.replaceGo_cons {c : Char}
    (hnot : ∀ q, eqIgnoreAsciiCase q key = true → ¬ q <+: c :: t) (v : Text) :
    replaceGo key v 0 (c :: t) = c :: replaceGo key v 0 t := by
  rw [replaceGo, if_neg fun h => hnot _ h ( take_prefix _ _)]

theorem CaseInsensitive.not_eqIgnoreAsciiCase_nil (hne : key ≠ []) :
    ¬ eqIgnoreAsciiCase [] key = true :=
  fun h => hne (length_eq_zero_iff.1 (length_of_eqIgnoreAsciiCase h).symm)

theorem CaseInsensitive.replaced_replaceGo (hkey : brackets.IsSlot key) (v t : Text) :
    Delims.Replaced (fun q => eqIgnoreAsciiCase q key = true) v t (replaceGo key v 0 t) := by
  induction t using Str.piece_induction (Q := fun q => eqIgnoreAsciiCase q key = true)
      (not_eqIgnoreAsciiCase_nil hkey.ne_nil) with
  | nil => exact .nil
  | piece q t hq ih =>
    rw [replaceGo_append hq hkey.ne_nil]
    exact .piece hq ih
  | char c t hnot ih =>
    rw [replaceGo_cons hnot]
    exact .char hnot ih

/-! ## One entry -/

namespace MatchingStrategy

variable {strategy : MatchingStrategy} {L : List (Text × Text)} {e : Text × Text} {q : Text}

theorem Matches.isSlot (hkey : brackets.IsSlot key) (h : strategy.Matches key q) :
    brackets.IsSlot q := by
  cases strategy with
  | exact =>
    have heq : q = key := h
    rwa [heq]
  | caseInsensitive => exact isSlot_of_eqIgnoreAsciiCase hkey h

theorem matches_self (strategy : MatchingStrategy) (key : Text) : strategy.Matches key key := by
  cases strategy with
  | exact => rfl
  | caseInsensitive => exact beq_self_eq_true _

theorem replaced_replaceEntry (strategy : MatchingStrategy) (he : brackets.IsSlot e.1) (t : Text) :
    Delims.Replaced (strategy.Matches e.1) e.2 t (strategy.replaceEntry t e) := by
  cases strategy with
  | exact =>
    have hround : exact.replaceEntry t e = Str.replace t e.1 e.2 :=
      Str.replace_of_contains he.ne_nil t
    rw [hround]
    exact Delims.replaced_replace he e.2 t
  | caseInsensitive =>
    have hround : caseInsensitive.replaceEntry t e = CaseInsensitive.replaceGo e.1 e.2 0 t :=
      if_neg (by rw [List.isEmpty_iff]; exact he.ne_nil)
    rw [hround]
    exact CaseInsensitive.replaced_replaceGo he e.2 t

theorem replaceEntry_unique (he : brackets.IsSlot e.1) {u : Text}
    (h : Delims.Replaced (strategy.Matches e.1) e.2 t u) : strategy.replaceEntry t e = u :=
  (strategy.replaced_replaceEntry he t).unique (fun _ hp => hp.isSlot he) h

/-! ## All entries -/

theorem restore_cons (output : Text) (e : Text × Text) (L : List (Text × Text)) :
    strategy.restore output (e :: L) = strategy.restore (strategy.replaceEntry output e) L := by
  rw [restore_eq_foldl, restore_eq_foldl, foldl_cons]

theorem restore_nil (output : Text) : strategy.restore output [] = output := by
  rw [restore_eq_foldl, foldl_nil]

theorem restore_of_op_notMem (hL : ∀ e ∈ L, brackets.IsSlot e.1) {x : Text} (hx : '[' ∉ x) :
    strategy.restore x L = x := by
  induction L with
  | nil => exact restore_nil x
  | cons e L ih =>
    have he := hL e mem_cons_self
    have hsame : Delims.Replaced (strategy.Matches e.1) e.2 x x := by
      have := Delims.Replaced.append_left (D := brackets) (fun _ hp => hp.isSlot he) hx
        (Delims.Replaced.nil (Q := strategy.Matches e.1) (v := e.2))
      rwa [append_nil] at this
    rw [restore_cons, replaceEntry_unique he hsame]
    exact ih (forall_mem_cons.1 hL).2

/-- **A text in brackets in which nothing matches an entry stays**, and what stands around it is
restored by itself. -/
theorem restore_append_bracketed (hL : ∀ e ∈ L, brackets.IsSlot e.1) {w : Text}
    (hnot : ∀ e ∈ L, ∀ p, strategy.Matches e.1 p → ¬ p <:+: brackets.slot w) (x y : Text) :
    strategy.restore (x ++ (brackets.slot w ++ y)) L =
      strategy.restore x L ++ (brackets.slot w ++ strategy.restore y L) := by
  induction L generalizing x y with
  | nil => rw [restore_nil, restore_nil, restore_nil]
  | cons e L ih =>
    have he := hL e mem_cons_self
    have hslot : ∀ p, strategy.Matches e.1 p → brackets.IsSlot p := fun _ hp => hp.isSlot he
    have hround : strategy.replaceEntry (x ++ (brackets.slot w ++ y)) e =
        strategy.replaceEntry x e ++ (brackets.slot w ++ strategy.replaceEntry y e) := by
      apply replaceEntry_unique he
      have hrest := (strategy.replaced_replaceEntry he y).append_closed (x := brackets.op :: w)
        hslot (hnot e mem_cons_self)
      have happend : ∀ z, brackets.slot w ++ z = brackets.op :: w ++ brackets.cl :: z := by
        intro z
        rw [Delims.slot, cons_append, append_assoc, singleton_append, cons_append]
      rw [happend, happend]
      exact (strategy.replaced_replaceEntry he x).append_op hslot hrest
    rw [restore_cons, restore_cons, restore_cons, hround]
    exact ih (forall_mem_cons.1 hL).2 (forall_mem_cons.1 hnot).2 _ _

theorem restore_append_slot (hL : ∀ e ∈ L, brackets.IsSlot e.1) (hq : brackets.IsSlot q)
    (hnot : ∀ e ∈ L, ¬ strategy.Matches e.1 q) (x y : Text) :
    strategy.restore (x ++ (q ++ y)) L = strategy.restore x L ++ (q ++ strategy.restore y L) := by
  obtain ⟨w, hw, rfl⟩ := hq
  refine restore_append_bracketed hL ?_ x y
  intro e he p hp hin
  have hslot : brackets.IsSlot p := hp.isSlot (hL e he)
  rw [hslot.eq_of_inside ⟨w, hw, rfl⟩ hin] at hp
  exact hnot e he hp

/-- **A placeholder becomes its value at the turn of its entry**, if no entry before it matches. -/
theorem restore_turn {L₁ L₂ : List (Text × Text)} {v : Text}
    (hL : ∀ e ∈ L₁ ++ (q, v) :: L₂, brackets.IsSlot e.1)
    (hnot : ∀ e ∈ L₁, ¬ strategy.Matches e.1 q) (x y : Text) :
    strategy.restore (x ++ (q ++ y)) (L₁ ++ (q, v) :: L₂) =
      strategy.restore (strategy.restore x (L₁ ++ [(q, v)]) ++
        (v ++ strategy.restore y (L₁ ++ [(q, v)]))) L₂ := by
  have hq : brackets.IsSlot q := hL (q, v) (mem_append_right _ mem_cons_self)
  have hslot : ∀ p, strategy.Matches q p → brackets.IsSlot p := fun _ hp => hp.isSlot hq
  have happend : ∀ (t : Text) (L L' : List (Text × Text)),
      strategy.restore t (L ++ L') = strategy.restore (strategy.restore t L) L' := by
    intro t L L'
    rw [restore_eq_foldl, restore_eq_foldl, restore_eq_foldl, foldl_append]
  have hone : ∀ t, strategy.restore t [(q, v)] = strategy.replaceEntry t (q, v) := by
    intro t
    rw [restore_cons, restore_nil]
  have hround : ∀ a b, strategy.replaceEntry (a ++ (q ++ b)) (q, v) =
      strategy.replaceEntry a (q, v) ++ (v ++ strategy.replaceEntry b (q, v)) := by
    intro a b
    refine replaceEntry_unique (e := (q, v)) hq ?_
    have hrest := Delims.Replaced.piece (v := v) (strategy.matches_self q)
      (strategy.replaced_replaceEntry (e := (q, v)) hq b)
    have hfirst := strategy.replaced_replaceEntry (e := (q, v)) hq a
    obtain ⟨name, -, rfl⟩ := hq
    exact hfirst.append_op hslot hrest
  rw [happend, restore_cons, restore_append_slot ((forall_mem_append.1 hL).1) hq
    hnot, hround, happend, happend, hone, hone]

theorem restore_slot (hL : ∀ e ∈ L, brackets.IsSlot e.1) (hvals : ∀ e ∈ L, brackets.Plain e.2)
    (hq : brackets.IsSlot q) :
    strategy.restore q L =
      ((L.find? fun e => decide (strategy.Matches e.1 q)).map Prod.snd).getD q := by
  induction L with
  | nil => exact restore_nil q
  | cons e L ih =>
    have he := hL e mem_cons_self
    have hL' : ∀ e ∈ L, brackets.IsSlot e.1 := (forall_mem_cons.1 hL).2
    have hslot : ∀ p, strategy.Matches e.1 p → brackets.IsSlot p := fun _ hp => hp.isSlot he
    rw [restore_cons]
    by_cases hmatch : strategy.Matches e.1 q
    · have hround : strategy.replaceEntry q e = e.2 := by
        apply replaceEntry_unique he
        have := Delims.Replaced.piece hmatch (Delims.Replaced.nil (v := e.2))
        rwa [append_nil, append_nil] at this
      have hfind : ((e :: L).find? fun e => decide (strategy.Matches e.1 q)) = some e :=
        find?_cons_of_pos (by simpa using hmatch)
      rw [hround, restore_of_op_notMem hL' (hvals e mem_cons_self).1, hfind]
      rfl
    have hround : strategy.replaceEntry q e = q := by
      apply replaceEntry_unique he
      have := Delims.Replaced.append_slot hslot hq hmatch (Delims.Replaced.nil (v := e.2))
      rwa [append_nil] at this
    have hfind : ((e :: L).find? fun e => decide (strategy.Matches e.1 q)) =
        L.find? fun e => decide (strategy.Matches e.1 q) :=
      find?_cons_of_neg (by simpa using hmatch)
    rw [hround, ih hL' (forall_mem_cons.1 hvals).2, hfind]

end MatchingStrategy

end Nanoguard.Guard

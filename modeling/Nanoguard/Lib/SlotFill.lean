import Mathlib.Algebra.GroupWithZero.Nat
import Mathlib.Algebra.Order.BigOperators.Group.List
import Mathlib.Algebra.Order.Group.Nat
import Nanoguard.Lib.Slots

/-!
# Filling the slots of any text

A text may have delimiters that belong to no slot. `fill` puts the values of the entries in place of
the slots of the text itself, each once; a `Fills` run goes through the text once and fills some of
the slots it meets; `replaceAll` replaces one slot after the other, also where an earlier value has
made a new slot. Each replacement takes one opening delimiter out of the text, so the delimiters that
are left tell how many there were.
-/

namespace Nanoguard

open List

variable {x u' : Text} {d c : Char}

/-! ## Occurrences of a pattern -/

namespace Str

/-- The number of places where a pattern occurs. -/
def occurrences (p : Text) : Text → Nat
  | [] => 0
  | c :: t => (if p <+: c :: t then 1 else 0) + occurrences p t

end Str

namespace Delims

variable {D : Delims} {L : List (Text × Text)} {p q v t u : Text}

theorem occurrences_of_op_notMem (hp : D.IsSlot p) (hx : D.op ∉ x) :
    Str.occurrences p (x ++ t) = Str.occurrences p t := by
  induction x with
  | nil => rfl
  | cons c x ih =>
    have hc : c ≠ D.op := fun h => hx (h ▸ mem_cons_self)
    rw [cons_append, Str.occurrences, if_neg (hp.not_prefix_cons hc), Nat.zero_add,
      ih fun h => hx (mem_cons_of_mem _ h)]

theorem occurrences_slot (hp : D.IsSlot p) (hq : D.IsSlot q) :
    Str.occurrences p (q ++ t) = (if p = q then 1 else 0) + Str.occurrences p t := by
  have hstart : p <+: q ++ t ↔ p = q := by
    refine ⟨?_, fun h => h ▸ prefix_append p t⟩
    rintro ⟨d, hd⟩
    exact (IsSlot.unique hp hq hd).1
  obtain ⟨x, rfl, hx⟩ := hq.eq_cons
  rw [cons_append] at hstart ⊢
  rw [Str.occurrences, occurrences_of_op_notMem hp hx]
  simp only [hstart]

theorem IsSlot.cl_notMem_init (hp : D.IsSlot (q ++ t)) (ht : t ≠ []) : D.cl ∉ q := by
  obtain ⟨name, hname, h⟩ := hp
  have hinit : q ++ t.dropLast = D.op :: name := by
    have := congrArg List.dropLast h
    rwa [dropLast_append_of_ne_nil ht, slot, ← cons_append, dropLast_concat] at this
  intro hmem
  have : D.cl ∈ D.op :: name := hinit ▸ mem_append_left _ hmem
  rcases mem_cons.1 this with heq | hin
  · exact D.ne heq.symm
  · exact hname.2 hin

theorem IsSlot.cl_mem (hp : D.IsSlot p) : D.cl ∈ p := by
  obtain ⟨name, -, rfl⟩ := hp
  exact mem_cons_of_mem _ (mem_append_right _ mem_cons_self)

theorem IsSlot.exists_append (hp : D.IsSlot p) (hx : D.cl ∉ x) (h : p <+: x ++ t) :
    ∃ c d, p = x ++ c :: d := by
  obtain ⟨z, hz⟩ := h
  rcases Fence.cut_cases hz with ⟨a, rfl, -⟩ | ⟨c, d, hd, -⟩
  · exact absurd (mem_append_left a hp.cl_mem) hx
  · exact ⟨c, d, hd⟩

theorem IsSlot.prefix_append_cl (hp : D.IsSlot p) : p <+: x ++ D.cl :: t ↔ p <+: x ++ [D.cl] := by
  have hassoc : x ++ D.cl :: t = x ++ [D.cl] ++ t := by rw [append_assoc, singleton_append]
  rw [hassoc]
  refine ⟨?_, fun h => h.trans (prefix_append _ _)⟩
  rintro ⟨d, hd⟩
  rcases Fence.cut_cases hd with ⟨a, ha, -⟩ | ⟨c, a, rfl, -⟩
  · exact ⟨a, ha.symm⟩
  · exact absurd (mem_append_right x mem_cons_self)
      (hp.cl_notMem_init (cons_ne_nil c a))

theorem occurrences_append_cl (hp : D.IsSlot p) (x t : Text) :
    Str.occurrences p (x ++ D.cl :: t) =
      Str.occurrences p (x ++ [D.cl]) + Str.occurrences p t := by
  induction x with
  | nil =>
    have hne : ∀ t, ¬ p <+: D.cl :: t := fun t => hp.not_prefix_cons D.ne.symm
    rw [nil_append, nil_append, Str.occurrences, Str.occurrences, if_neg (hne t),
      if_neg (hne []), Str.occurrences]
  | cons c x ih =>
    have hpre := hp.prefix_append_cl (x := c :: x) (t := t)
    rw [cons_append, cons_append] at hpre
    rw [cons_append, cons_append, Str.occurrences, Str.occurrences]
    simp only [hpre]
    omega

/-- A delimiter, which is once in every slot of the entries and not in their values. -/
def Counts (d : Char) (L : List (Text × Text)) : Prop := ∀ e ∈ L, e.1.count d = 1 ∧ d ∉ e.2

theorem IsSlot.count_op (hp : D.IsSlot p) : p.count D.op = 1 := by
  obtain ⟨name, hname, rfl⟩ := hp
  unfold slot
  rw [count_cons_self, count_append, count_eq_zero.2 hname.1,
    count_singleton, if_neg (by simpa using D.ne.symm)]

theorem IsSlot.count_cl (hp : D.IsSlot p) : p.count D.cl = 1 := by
  obtain ⟨name, hname, rfl⟩ := hp
  unfold slot
  rw [count_cons_of_ne D.ne, count_append, count_eq_zero.2 hname.2, count_singleton_self]

theorem Entries.counts_op (hL : D.Entries L) (hvals : ∀ e ∈ L, D.Plain e.2) : Counts D.op L :=
  fun e he => ⟨(hL.slots e he).count_op, (hvals e he).1⟩

theorem Entries.counts_cl (hL : D.Entries L) (hvals : ∀ e ∈ L, D.Plain e.2) : Counts D.cl L :=
  fun e he => ⟨(hL.slots e he).count_cl, (hvals e he).2⟩

theorem Counts.tail {e : Text × Text} (h : Counts d (e :: L)) : Counts d L :=
  (forall_mem_cons.1 h).2

theorem count_replace (hp : D.IsSlot p) (hcount : p.count d = 1) (hv : d ∉ v) (t : Text) :
    (Str.replace t p v).count d + Str.occurrences p t = t.count d := by
  induction t using Str.piece_induction (Q := (· = p)) hp.ne_nil.symm with
  | nil =>
    rw [Str.replace_nil hp.ne_nil]
    rfl
  | piece q t hq ih =>
    subst hq
    rw [Str.replace_append_self hp.ne_nil, occurrences_slot hp hp, if_pos rfl, count_append,
      count_append, count_eq_zero.2 hv]
    omega
  | char c t hnot ih =>
    have hnot' := hnot p rfl
    rw [Str.replace_cons hnot', Str.occurrences, if_neg hnot', count_cons, count_cons]
    omega

theorem replace_of_occurrences (hp : D.IsSlot p) (h : Str.occurrences p t = 0) :
    Str.replace t p v = t := by
  induction t with
  | nil => exact Str.replace_nil hp.ne_nil
  | cons c t ih =>
    rw [Str.occurrences] at h
    have hnot : ¬ p <+: c :: t := by
      intro hpre
      rw [if_pos hpre] at h
      omega
    rw [Str.replace_cons hnot, ih (by omega)]

theorem occurrences_le_replace (hp : D.IsSlot p) (hq : D.IsSlot q) (hne : q ≠ p) (hv : D.op ∉ v)
    (t : Text) : Str.occurrences q t ≤ Str.occurrences q (Str.replace t p v) := by
  induction t using Str.piece_induction (Q := (· = p)) hp.ne_nil.symm with
  | nil => exact Nat.zero_le _
  | piece p' t hp' ih =>
    subst hp'
    rw [Str.replace_append_self hp.ne_nil, occurrences_slot hq hp, if_neg hne,
      occurrences_of_op_notMem hq hv]
    omega
  | char c t hnot ih =>
    rw [Str.replace_cons (hnot p rfl), Str.occurrences, Str.occurrences]
    have hstart : q <+: c :: t → q <+: c :: Str.replace t p v := by
      rintro ⟨d, hd⟩
      have := replace_slot_append (t := d) (v := v) hp hq hne
      rw [hd, Str.replace_cons (hnot p rfl)] at this
      exact ⟨_, this.symm⟩
    by_cases hin : q <+: c :: t
    · rw [if_pos hin, if_pos (hstart hin)]
      omega
    · rw [if_neg hin]
      omega

theorem IsSlot.eq_of_inside (hp : D.IsSlot p) (hq : D.IsSlot q) (h : p <:+: q) : p = q := by
  obtain ⟨a, b, hab⟩ := h
  cases a with
  | nil =>
    exact (IsSlot.unique hp hq (hab.trans (append_nil q).symm)).1
  | cons c a =>
    obtain ⟨x, rfl, hx⟩ := hq.eq_cons
    obtain ⟨n, -, rfl⟩ := hp
    have htail : a ++ D.slot n ++ b = x := (List.cons.inj hab).2
    exact absurd (htail ▸ mem_append_left b (mem_append_right a mem_cons_self)) hx

/-! ## Replacing slots by a criterion -/

/-- The text with `v` in place of the pieces of a kind, from left to right. -/
inductive Replaced (Q : Text → Prop) (v : Text) : Text → Text → Prop
  | nil : Replaced Q v [] []
  | piece {p t u : Text} (hp : Q p) (h : Replaced Q v t u) : Replaced Q v (p ++ t) (v ++ u)
  | char {c : Char} {t u : Text} (hnot : ∀ p, Q p → ¬ p <+: c :: t) (h : Replaced Q v t u) :
      Replaced Q v (c :: t) (c :: u)

namespace Replaced

variable {Q : Text → Prop}

theorem unique (hQ : ∀ p, Q p → D.IsSlot p) (h : Replaced Q v t u) (h' : Replaced Q v t u') :
    u = u' := by
  induction h generalizing u' with
  | nil =>
    generalize hnil : ([] : Text) = t at h'
    cases h' with
    | nil => rfl
    | piece hp _ => exact absurd (append_eq_nil_iff.1 hnil.symm).1 (hQ _ hp).ne_nil
    | char => cases hnil
  | @piece p t u hp _ ih =>
    generalize heq : p ++ t = s at h'
    cases h' with
    | nil => exact absurd (append_eq_nil_iff.1 heq).1 (hQ _ hp).ne_nil
    | piece hq h' =>
      obtain ⟨rfl, rfl⟩ := IsSlot.unique (hQ _ hp) (hQ _ hq) heq
      rw [ih h']
    | char hnot _ => exact absurd ⟨t, heq⟩ (hnot p hp)
  | @char c t u hnot _ ih =>
    generalize heq : c :: t = s at h'
    cases h' with
    | nil => cases heq
    | piece hq h' => exact absurd ⟨_, heq.symm⟩ (hnot _ hq)
    | char _ h' =>
      cases heq
      rw [ih h']

theorem append_left (hQ : ∀ p, Q p → D.IsSlot p) (hx : D.op ∉ x) (h : Replaced Q v t u) :
    Replaced Q v (x ++ t) (x ++ u) := by
  induction x with
  | nil => exact h
  | cons c x ih =>
    have hc : c ≠ D.op := fun h => hx (h ▸ mem_cons_self)
    exact .char (fun p hp => (hQ p hp).not_prefix_cons hc) (ih fun h => hx (mem_cons_of_mem _ h))

theorem append_closed (hQ : ∀ p, Q p → D.IsSlot p) (hnot : ∀ p, Q p → ¬ p <:+: x ++ [D.cl])
    (h : Replaced Q v t u) : Replaced Q v (x ++ D.cl :: t) (x ++ D.cl :: u) := by
  induction x with
  | nil => exact .char (fun p hp => (hQ p hp).not_prefix_cons D.ne.symm) h
  | cons c x ih =>
    refine .char ?_ (ih fun p hp hin => hnot p hp (hin.trans (suffix_cons c _).isInfix))
    intro p hp hpre
    exact hnot p hp (((hQ p hp).prefix_append_cl (x := c :: x)).1 hpre).isInfix

theorem append_slot (hQ : ∀ p, Q p → D.IsSlot p) (hq : D.IsSlot q) (hnot : ¬ Q q)
    (h : Replaced Q v t u) : Replaced Q v (q ++ t) (q ++ u) := by
  have hother : ∀ p, Q p → ¬ p <:+: q := by
    intro p hp hin
    rw [(hQ p hp).eq_of_inside hq hin] at hp
    exact hnot hp
  obtain ⟨name, -, rfl⟩ := hq
  have := h.append_closed (x := D.op :: name) hQ hother
  simpa only [Delims.slot, append_assoc, cons_append, nil_append] using this

theorem append_op (hQ : ∀ p, Q p → D.IsSlot p) {t' : Text} (h : Replaced Q v t u)
    (h' : Replaced Q v (D.op :: t') u') : Replaced Q v (t ++ D.op :: t') (u ++ u') := by
  induction h with
  | nil => exact h'
  | piece hp _ ih =>
    rw [append_assoc, append_assoc]
    exact .piece hp ih
  | @char c t u hnot _ ih =>
    refine .char ?_ ih
    intro p hp hpre
    exact hnot p hp ((hQ p hp).prefix_of_op (cons_ne_nil c t) hpre)

end Replaced

theorem replaced_replace (hp : D.IsSlot p) (v t : Text) :
    Replaced (· = p) v t (Str.replace t p v) := by
  induction t using Str.piece_induction (Q := (· = p)) hp.ne_nil.symm with
  | nil =>
    rw [Str.replace_nil hp.ne_nil]
    exact .nil
  | piece q t hq ih =>
    subst hq
    rw [Str.replace_append_self hp.ne_nil]
    exact .piece rfl ih
  | char c t hnot ih =>
    rw [Str.replace_cons (hnot p rfl)]
    exact .char hnot ih

/-! ## The slots of a text -/

/-- The number of slots of the entries in a text. -/
def slotCount (L : List (Text × Text)) (t : Text) : Nat :=
  (L.map fun e => Str.occurrences e.1 t).sum

theorem slotCount_entry (e : Text × Text) (t : Text) :
    slotCount (e :: L) t = Str.occurrences e.1 t + slotCount L t := rfl

theorem slotCount_nil (L : List (Text × Text)) : slotCount L [] = 0 := by
  induction L with
  | nil => rfl
  | cons e L ih => rw [slotCount_entry, ih, Str.occurrences]

theorem slotCount_congr (h : ∀ e ∈ L, Str.occurrences e.1 t = Str.occurrences e.1 u) :
    slotCount L t = slotCount L u :=
  congrArg List.sum (map_congr_left h)

theorem slotCount_of_op_notMem (hL : D.Entries L) (hx : D.op ∉ x) :
    slotCount L (x ++ t) = slotCount L t :=
  slotCount_congr fun e he => occurrences_of_op_notMem (hL.slots e he) hx

theorem slotCount_char (h : ∀ e ∈ L, ¬ e.1 <+: c :: t) : slotCount L (c :: t) = slotCount L t :=
  slotCount_congr fun e he => by rw [Str.occurrences, if_neg (h e he), Nat.zero_add]

theorem slotCount_le_cons (L : List (Text × Text)) (c : Char) (t : Text) :
    slotCount L t ≤ slotCount L (c :: t) :=
  List.sum_le_sum fun _ _ => Nat.le_add_left _ _

theorem slotCount_other (hL : D.Entries L) (hp : D.IsSlot p) (hnew : p ∉ L.map Prod.fst) :
    slotCount L (p ++ t) = slotCount L t := by
  refine slotCount_congr fun e he => ?_
  have hne : e.1 ≠ p := fun h => hnew (h ▸ mem_map_of_mem he)
  rw [occurrences_slot (hL.slots e he) hp, if_neg hne, Nat.zero_add]

theorem slotCount_slot (hL : D.Entries L) (hmem : (p, v) ∈ L) :
    slotCount L (p ++ t) = 1 + slotCount L t := by
  induction L with
  | nil => cases hmem
  | cons e L ih =>
    obtain ⟨he, hnew, hrest⟩ := hL.tail
    have hp : D.IsSlot p := hL.slots _ hmem
    rw [slotCount_entry, slotCount_entry, occurrences_slot he hp]
    by_cases heq : e.1 = p
    · rw [if_pos heq, slotCount_other hrest hp (heq ▸ hnew)]
      omega
    rw [if_neg heq]
    rcases mem_cons.1 hmem with hself | hmem
    · exact absurd (congrArg Prod.fst hself).symm heq
    · rw [ih hrest hmem]
      omega

theorem slotCount_append_cl (hL : D.Entries L) (x t : Text) :
    slotCount L (x ++ D.cl :: t) = slotCount L (x ++ [D.cl]) + slotCount L t := by
  unfold slotCount
  rw [← sum_map_add]
  exact congrArg _ (map_congr_left fun e he => occurrences_append_cl (hL.slots e he) x t)

theorem slotCount_of_cl_notMem (hL : D.Entries L) (ht : D.cl ∉ t) : slotCount L t = 0 := by
  induction t with
  | nil => exact slotCount_nil L
  | cons c t ih =>
    rw [slotCount_char, ih fun h => ht (mem_cons_of_mem _ h)]
    intro e he hpre
    exact ht (hpre.subset (hL.slots e he).cl_mem)

theorem slotCount_of_prefix {e : Text × Text} (hL : D.Entries L) (he : e ∈ L) (h : e.1 <+: c :: t) :
    slotCount L (c :: t) = 1 + slotCount L t := by
  obtain ⟨d, hd⟩ := h
  obtain ⟨x, hx, hop⟩ := (hL.slots e he).eq_cons
  have htail : x ++ d = t := by
    rw [hx] at hd
    exact (List.cons.inj hd).2
  rw [← hd, slotCount_slot hL he, ← htail, slotCount_of_op_notMem hL hop]

theorem slotCount_le_append (L : List (Text × Text)) (x t : Text) :
    slotCount L t ≤ slotCount L (x ++ t) := by
  induction x with
  | nil => exact le_rfl
  | cons c x ih => exact ih.trans (slotCount_le_cons L c (x ++ t))

theorem slotCount_append_eq_iff (hL : D.Entries L) (x t : Text) :
    slotCount L (x ++ t) = slotCount L t ↔
      ∀ a b, x = a ++ b → b ≠ [] → ∀ e ∈ L, ¬ e.1 <+: b ++ t := by
  induction x with
  | nil =>
    refine ⟨fun _ a b hab hb => ?_, fun _ => rfl⟩
    exact absurd (append_eq_nil_iff.1 hab.symm).2 hb
  | cons c x ih =>
    have hle := slotCount_le_append L x t
    rw [cons_append]
    constructor
    · intro heq a b hab hb e he hpre
      cases a with
      | nil =>
        rw [← hab.trans (nil_append b), cons_append] at hpre
        have := slotCount_of_prefix hL he hpre
        omega
      | cons c' a =>
        have hle' := slotCount_le_cons L c (x ++ t)
        exact ih.1 (by omega) a b (List.cons.inj hab).2 hb e he hpre
    · intro hnone
      have hnot : ∀ e ∈ L, ¬ e.1 <+: c :: (x ++ t) :=
        hnone [] (c :: x) rfl (cons_ne_nil c x)
      rw [slotCount_char hnot, ih]
      intro a b hab
      exact hnone (c :: a) b (congrArg (c :: ·) hab)

/-! ## Filling all slots -/

/-- The walk of `fill`. `skip` characters belong to the slot found last. -/
def fillGo (L : List (Text × Text)) : Nat → Text → Text
  | _, [] => []
  | 0, c :: t =>
    match L.find? fun e => decide (e.1 <+: c :: t) with
    | some e => e.2 ++ fillGo L (e.1.length - 1) t
    | none => c :: fillGo L 0 t
  | skip + 1, _ :: t => fillGo L skip t

def fill (L : List (Text × Text)) (t : Text) : Text := fillGo L 0 t

theorem fillGo_drop (L : List (Text × Text)) : ∀ a t : Text,
    fillGo L a.length (a ++ t) = fillGo L 0 t
  | [], _ => rfl
  | _ :: a, t => fillGo_drop L a t

theorem fill_char (h : ∀ e ∈ L, ¬ e.1 <+: c :: t) : fill L (c :: t) = c :: fill L t := by
  have hfind : (L.find? fun e => decide (e.1 <+: c :: t)) = none := by
    rw [find?_eq_none]
    intro e he
    simpa using h e he
  unfold fill
  rw [fillGo, hfind]

theorem fill_no_entries (t : Text) : fill [] t = t := by
  induction t with
  | nil => rfl
  | cons c t ih => rw [fill_char (by simp), ih]

theorem fill_slot (hL : D.Entries L) (hmem : (p, v) ∈ L) : fill L (p ++ t) = v ++ fill L t := by
  have hp : D.IsSlot p := hL.slots _ hmem
  have hfind : (L.find? fun e => decide (e.1 <+: p ++ t)) = some (p, v) := by
    cases hfind : L.find? fun e => decide (e.1 <+: p ++ t) with
    | none =>
      have := find?_eq_none.1 hfind _ hmem
      simp at this
    | some e =>
      have he := mem_of_find?_eq_some hfind
      have hpre := find?_some hfind
      obtain ⟨d, hd⟩ := of_decide_eq_true hpre
      obtain ⟨rfl, -⟩ := IsSlot.unique (hL.slots _ he) hp hd
      rw [hL.value_unique hmem he]
  obtain ⟨x, rfl, -⟩ := hp.eq_cons
  unfold fill
  rw [cons_append] at hfind ⊢
  rw [fillGo, hfind]
  exact congrArg _ (fillGo_drop L x t)

theorem fill_of_op_notMem (hL : D.Entries L) (hx : D.op ∉ x) : fill L (x ++ t) = x ++ fill L t := by
  induction x with
  | nil => rfl
  | cons c x ih =>
    have hc : c ≠ D.op := fun h => hx (h ▸ mem_cons_self)
    rw [cons_append, fill_char fun e he => (hL.slots e he).not_prefix_cons hc,
      ih fun h => hx (mem_cons_of_mem _ h), cons_append]

/-! ## Filling some slots -/

/-- `u` is `t` with values in place of `k` of its slots. -/
inductive Fills (L : List (Text × Text)) : Nat → Text → Text → Prop
  | nil : Fills L 0 [] []
  | char {k : Nat} {t u : Text} (c : Char) (h : Fills L k t u) : Fills L k (c :: t) (c :: u)
  | slot {k : Nat} {p v t u : Text} (hmem : (p, v) ∈ L) (h : Fills L k t u) :
      Fills L (k + 1) (p ++ t) (v ++ u)

namespace Fills

variable {k : Nat}

theorem append_left (x : Text) (h : Fills L k t u) : Fills L k (x ++ t) (x ++ u) := by
  induction x with
  | nil => exact h
  | cons c x ih => exact .char c ih

theorem refl (L : List (Text × Text)) (t : Text) : Fills L 0 t t := by
  have := append_left t (Fills.nil (L := L))
  rwa [append_nil] at this

theorem append {k' : Nat} {t' : Text} (h : Fills L k t u) (h' : Fills L k' t' u') :
    Fills L (k + k') (t ++ t') (u ++ u') := by
  induction h with
  | nil =>
    rw [Nat.zero_add]
    exact h'
  | char c _ ih => exact .char c ih
  | slot hmem _ ih =>
    rw [append_assoc, append_assoc, Nat.add_right_comm]
    exact .slot hmem ih

theorem count (hcount : Counts d L) (h : Fills L k t u) : u.count d + k = t.count d := by
  induction h with
  | nil => rfl
  | char c _ ih =>
    rw [count_cons, count_cons]
    omega
  | slot hmem _ ih =>
    rw [count_append, count_append, (hcount _ hmem).1, count_eq_zero.2 (hcount _ hmem).2]
    omega

theorem le_slotCount (hL : D.Entries L) (h : Fills L k t u) : k ≤ slotCount L t := by
  induction h with
  | nil => exact Nat.zero_le _
  | char c _ ih => exact ih.trans (slotCount_le_cons L c _)
  | slot hmem _ ih =>
    rw [slotCount_slot hL hmem]
    omega

theorem eq_fill (hL : D.Entries L) (h : Fills L k t u) (hk : k = slotCount L t) : u = fill L t := by
  induction h with
  | nil => rfl
  | @char k t u c h ih =>
    have hle := h.le_slotCount hL
    have hmono := slotCount_le_cons L c t
    have hnot : ∀ e ∈ L, ¬ e.1 <+: c :: t := by
      intro e he hpre
      have := slotCount_of_prefix hL he hpre
      omega
    rw [fill_char hnot, ih (by omega)]
  | slot hmem _ ih =>
    rw [slotCount_slot hL hmem] at hk
    rw [fill_slot hL hmem, ih (by omega)]

end Fills

theorem fills_fill (hL : D.Entries L) (t : Text) : Fills L (slotCount L t) t (fill L t) := by
  induction t using hL.slot_induction with
  | nil =>
    rw [slotCount_nil]
    exact .nil
  | slot q w t he ih =>
    rw [fill_slot hL he, slotCount_slot hL he, Nat.add_comm]
    exact .slot he ih
  | char c t hnot ih =>
    rw [fill_char hnot, slotCount_char hnot]
    exact .char c ih

/-! ## Replacing one slot after the other -/

/-- No replacement makes a new slot of an entry after it. -/
def NoNewSlots (t : Text) : List (Text × Text) → Prop
  | [] => True
  | e :: L =>
    (∀ e' ∈ L, Str.occurrences e'.1 (Str.replace t e.1 e.2) = Str.occurrences e'.1 t) ∧
      NoNewSlots (Str.replace t e.1 e.2) L

instance decidableNoNewSlots : ∀ (t : Text) (L : List (Text × Text)), Decidable (NoNewSlots t L)
  | _, [] => isTrue trivial
  | t, e :: L =>
    have := decidableNoNewSlots (Str.replace t e.1 e.2) L
    inferInstanceAs (Decidable (_ ∧ _))

def replaced (t : Text) : List (Text × Text) → Nat
  | [] => 0
  | e :: L => Str.occurrences e.1 t + replaced (Str.replace t e.1 e.2) L

theorem count_replaceAll (hL : D.Entries L) (hcount : Counts d L) (t : Text) :
    (replaceAll t L).count d + replaced t L = t.count d := by
  induction L generalizing t with
  | nil => rfl
  | cons e L ih =>
    obtain ⟨hself, hfree⟩ := hcount e mem_cons_self
    have hreplace := count_replace hL.tail.1 hself hfree t
    have hrest := ih hL.tail.2.2 hcount.tail (Str.replace t e.1 e.2)
    rw [replaced]
    unfold replaceAll at hrest ⊢
    rw [foldl_cons]
    omega

theorem slotCount_le_replace (hL : D.Entries ((p, v) :: L)) (hv : D.op ∉ v) (t : Text) :
    slotCount L t ≤ slotCount L (Str.replace t p v) ∧
      (slotCount L t = slotCount L (Str.replace t p v) →
        ∀ e ∈ L, Str.occurrences e.1 (Str.replace t p v) = Str.occurrences e.1 t) := by
  obtain ⟨hp, hnew, hrest⟩ := hL.tail
  have hle : ∀ e ∈ L, Str.occurrences e.1 t ≤ Str.occurrences e.1 (Str.replace t p v) := by
    intro e he
    refine occurrences_le_replace hp (hrest.slots e he) ?_ hv t
    intro heq
    exact hnew (heq ▸ mem_map_of_mem he)
  clear hL hnew hrest
  induction L with
  | nil => exact ⟨le_rfl, fun _ e he => by cases he⟩
  | cons e L ih =>
    obtain ⟨ihle, iheq⟩ := ih (forall_mem_cons.1 hle).2
    have hself := hle e mem_cons_self
    rw [slotCount_entry, slotCount_entry]
    refine ⟨by omega, fun hsum => ?_⟩
    refine forall_mem_cons.2 ⟨by omega, iheq (by omega)⟩

theorem slotCount_le_replaced (hL : D.Entries L) (hvals : ∀ e ∈ L, D.Plain e.2) (t : Text) :
    slotCount L t ≤ replaced t L ∧ (slotCount L t = replaced t L → NoNewSlots t L) := by
  induction L generalizing t with
  | nil => exact ⟨le_rfl, fun _ => trivial⟩
  | cons e L ih =>
    obtain ⟨hle, heq⟩ := slotCount_le_replace hL (hvals e mem_cons_self).1 t
    obtain ⟨ihle, iheq⟩ := ih hL.tail.2.2 (forall_mem_cons.1 hvals).2 (Str.replace t e.1 e.2)
    rw [slotCount_entry, replaced]
    exact ⟨by omega, fun hsum => ⟨heq (by omega), iheq (by omega)⟩⟩

theorem fill_replace (hL : D.Entries ((p, v) :: L)) (hv : D.op ∉ v)
    (hnone : ∀ e ∈ L, Str.occurrences e.1 (Str.replace t p v) = Str.occurrences e.1 t) :
    fill L (Str.replace t p v) = fill ((p, v) :: L) t := by
  obtain ⟨hp, hnew, hrest⟩ := hL.tail
  have hne : ∀ e ∈ L, e.1 ≠ p := by
    intro e he heq
    exact hnew (mem_map.2 ⟨e, he, heq⟩)
  -- along the slots of the text, which the replacement leaves where they are
  induction t using hL.slot_induction with
  | nil =>
    rw [Str.replace_nil hp.ne_nil]
    rfl
  | slot q w t he ih =>
    rw [fill_slot hL he]
    rcases mem_cons.1 he with heq | hmem
    · cases heq
      rw [Str.replace_append_self hp.ne_nil] at hnone ⊢
      rw [fill_of_op_notMem hrest hv, ih]
      intro e he
      have := hnone e he
      rwa [occurrences_of_op_notMem (hrest.slots e he) hv, occurrences_slot (hrest.slots e he) hp,
        if_neg (hne e he), Nat.zero_add] at this
    have hq := hrest.slots _ hmem
    rw [replace_slot_append hp hq (hne _ hmem)] at hnone ⊢
    rw [fill_slot hrest hmem, ih]
    intro e he
    have := hnone e he
    rw [occurrences_slot (hrest.slots e he) hq, occurrences_slot (hrest.slots e he) hq] at this
    exact Nat.add_left_cancel this
  | char c t hnot ih =>
    rw [Str.replace_cons (hnot _ mem_cons_self)] at hnone ⊢
    have hsplit : ∀ e ∈ L, ¬ e.1 <+: c :: Str.replace t p v ∧
        Str.occurrences e.1 (Str.replace t p v) = Str.occurrences e.1 t := by
      intro e he
      have heq := hnone e he
      have hle := occurrences_le_replace hp (hrest.slots e he) (hne e he) hv t
      rw [Str.occurrences, Str.occurrences, if_neg (hnot e (mem_cons_of_mem _ he))] at heq
      by_cases hpre : e.1 <+: c :: Str.replace t p v
      · rw [if_pos hpre] at heq
        omega
      · exact ⟨hpre, by rwa [if_neg hpre, Nat.zero_add, Nat.zero_add] at heq⟩
    rw [fill_char fun e he => (hsplit e he).1, fill_char hnot, ih fun e he => (hsplit e he).2]

theorem replaceAll_eq_fill (hL : D.Entries L) (hvals : ∀ e ∈ L, D.Plain e.2)
    (h : NoNewSlots t L) : replaceAll t L = fill L t := by
  induction L generalizing t with
  | nil => exact (fill_no_entries t).symm
  | cons e L ih =>
    obtain ⟨hnone, hrest⟩ := h
    have hstep := fill_replace hL (hvals e mem_cons_self).1 hnone
    rw [← hstep, ← ih hL.tail.2.2 (forall_mem_cons.1 hvals).2 hrest]
    rfl

/-- With one closing delimiter there is at most one slot, and none behind its replacement. -/
theorem noNewSlots_of_count_cl (hL : D.Entries L) (hvals : ∀ e ∈ L, D.Plain e.2)
    (ht : t.count D.cl ≤ 1) : NoNewSlots t L := by
  induction L generalizing t with
  | nil => exact trivial
  | cons e L ih =>
    obtain ⟨hp, -, hrest⟩ := hL.tail
    have hvals' : ∀ e ∈ L, D.Plain e.2 := (forall_mem_cons.1 hvals).2
    have hcount := count_replace hp hp.count_cl (hvals e mem_cons_self).2 t
    refine ⟨?_, ih hrest hvals' (by omega)⟩
    intro e' he'
    have hbound := ((fills_fill hrest (Str.replace t e.1 e.2)).count (hrest.counts_cl hvals'))
    have hbound' := (fills_fill hL t).count (hL.counts_cl hvals)
    rw [slotCount_entry] at hbound'
    have hmem : ∀ t, Str.occurrences e'.1 t ≤ slotCount L t := fun t =>
      le_sum_of_mem (mem_map_of_mem he')
    have h₁ := hmem t
    have h₂ := hmem (Str.replace t e.1 e.2)
    by_cases hocc : Str.occurrences e.1 t = 0
    · rw [replace_of_occurrences hp hocc]
    · omega

/-- **One run and one replacement after the other agree** exactly when the run fills all slots of
the text and the replacements make no new ones. -/
theorem Fills.eq_replaceAll_iff {k : Nat} (hL : D.Entries L) (hvals : ∀ e ∈ L, D.Plain e.2)
    (h : Fills L k t u) : u = replaceAll t L ↔ k = slotCount L t ∧ NoNewSlots t L := by
  have hcount := h.count (hL.counts_op hvals)
  have hle := h.le_slotCount hL
  have hall := count_replaceAll hL (hL.counts_op hvals) t
  obtain ⟨hrep, hnone⟩ := slotCount_le_replaced hL hvals t
  constructor
  · intro heq
    rw [← heq] at hall
    exact ⟨by omega, hnone (by omega)⟩
  · rintro ⟨hk, hnew⟩
    rw [replaceAll_eq_fill hL hvals hnew]
    exact h.eq_fill hL hk

end Delims

end Nanoguard

import Mathlib.Data.List.Nodup
import Nanoguard.Lib.Rewrite
import Nanoguard.Lib.RustStr

/-!
# Texts with slots

A slot is a name between two delimiters. A list of entries, each a slot with a value, is applied to
a text one entry after the other (`replaceAll`). `Expands` says that a text consists of characters
other than the delimiters and of slots with values free of delimiters. Such a text becomes the same in
whatever order the entries come (`replaceAll_eq`), and it is the only kind of text that does
(`expands_of_replaceAll`).
-/

namespace Nanoguard

open List

variable {x y z r s : Text}

namespace Str

/-- Induction along a text that is cut into pieces wherever one of them starts. -/
theorem piece_induction {Q : Text → Prop} {motive : Text → Prop} (hQ : ¬ Q []) (nil : motive [])
    (piece : ∀ p t, Q p → motive t → motive (p ++ t))
    (char : ∀ c t, (∀ p, Q p → ¬ p <+: c :: t) → motive t → motive (c :: t)) (t : Text) :
    motive t := by
  induction hn : t.length using Nat.strong_induction_on generalizing t with
  | h n ih =>
    subst hn
    cases t with
    | nil => exact nil
    | cons c t =>
      by_cases hpiece : ∃ p, Q p ∧ p <+: c :: t
      · obtain ⟨p, hp, d, hd⟩ := hpiece
        have hne : p ≠ [] := fun h => hQ (h ▸ hp)
        have hlen : d.length < (c :: t).length := by
          have := length_pos_iff.2 hne
          rw [← hd, length_append]
          omega
        rw [← hd]
        exact piece p d hp (ih _ hlen d rfl)
      · exact char c t (fun p hp h => hpiece ⟨p, hp, h⟩) (ih _ (Nat.lt_succ_self _) t rfl)

end Str

structure Delims where
  op : Char
  cl : Char
  ne : op ≠ cl

namespace Delims

variable (D : Delims)

def Plain (t : Text) : Prop := D.op ∉ t ∧ D.cl ∉ t

def slot (name : Text) : Text := D.op :: (name ++ [D.cl])

def IsSlot (p : Text) : Prop := ∃ name, D.Plain name ∧ p = D.slot name

/-- Whether the text ends inside a slot, if it starts inside one or not. -/
def inside (start : Bool) (t : Text) : Bool :=
  t.foldl (fun b c => if c = D.op then true else if c = D.cl then false else b) start

/-- `t` consists of plain characters and of slots with plain values, and `u` is `t` with the
values in place of the slots. -/
inductive Expands (L : List (Text × Text)) : Text → Text → Prop
  | nil : Expands L [] []
  | char {c : Char} {t u : Text} (hop : c ≠ D.op) (hcl : c ≠ D.cl) (h : Expands L t u) :
      Expands L (c :: t) (c :: u)
  | slot {p v t u : Text} (hmem : (p, v) ∈ L) (hp : D.IsSlot p) (hv : D.Plain v)
      (h : Expands L t u) : Expands L (p ++ t) (v ++ u)

variable {D} {L : List (Text × Text)} {p q v t u : Text}

theorem plain_append : D.Plain (t ++ u) ↔ D.Plain t ∧ D.Plain u := by
  unfold Plain
  simp only [mem_append, not_or]
  tauto

theorem plain_cons {c : Char} : D.Plain (c :: t) ↔ c ≠ D.op ∧ c ≠ D.cl ∧ D.Plain t := by
  unfold Plain
  simp only [mem_cons, not_or, eq_comm]
  tauto

theorem IsSlot.ne_nil (h : D.IsSlot p) : p ≠ [] := by
  obtain ⟨name, -, rfl⟩ := h
  exact cons_ne_nil _ _

theorem IsSlot.unique (hp : D.IsSlot p) (hq : D.IsSlot q) (h : p ++ t = q ++ u) :
    p = q ∧ t = u := by
  obtain ⟨a, ha, rfl⟩ := hp
  obtain ⟨b, hb, rfl⟩ := hq
  have htail : a ++ D.cl :: t = b ++ D.cl :: u := by
    simpa [slot] using h
  obtain ⟨rfl, rfl⟩ := Str.first_inj ha.2 hb.2 htail
  exact ⟨rfl, rfl⟩

theorem IsSlot.not_prefix_cons (hp : D.IsSlot p) {c : Char} (hc : c ≠ D.op) : ¬ p <+: c :: t := by
  obtain ⟨name, -, rfl⟩ := hp
  intro h
  exact hc (cons_prefix_cons.1 h).1.symm

theorem IsSlot.op_notMem_tail (hp : D.IsSlot (q ++ t)) (hq : q ≠ []) : D.op ∉ t := by
  obtain ⟨name, hname, h⟩ := hp
  obtain ⟨c, q, rfl⟩ := exists_cons_of_ne_nil hq
  have htail : q ++ t = name ++ [D.cl] := (List.cons.inj h).2
  intro hmem
  have : D.op ∈ name ++ [D.cl] := htail ▸ mem_append_right q hmem
  rcases mem_append.1 this with hin | hin
  · exact hname.1 hin
  · exact D.ne (mem_singleton.1 hin)

theorem inside_cons (b : Bool) (c : Char) (t : Text) : D.inside b (c :: t) =
    D.inside (if c = D.op then true else if c = D.cl then false else b) t := rfl

theorem inside_append (b : Bool) (t u : Text) :
    D.inside b (t ++ u) = D.inside (D.inside b t) u := by
  unfold inside
  rw [foldl_append]

theorem inside_false_of_true (h : D.inside true t = false) (b : Bool) : D.inside b t = false := by
  induction t generalizing b with
  | nil => cases h
  | cons c t ih =>
    rw [inside_cons] at h ⊢
    by_cases hop : c = D.op
    · rw [if_pos hop] at h ⊢
      exact h
    by_cases hcl : c = D.cl
    · rw [if_pos hcl] at h ⊢
      exact h
    · rw [if_neg hop, if_neg hcl] at h ⊢
      exact ih h b

theorem inside_plain (b : Bool) (ht : D.Plain t) : D.inside b t = b := by
  induction t with
  | nil => rfl
  | cons c t ih =>
    obtain ⟨hop, hcl, ht⟩ := plain_cons.1 ht
    rw [inside_cons, if_neg hop, if_neg hcl, ih ht]

theorem IsSlot.inside (hp : D.IsSlot p) (b : Bool) : D.inside b p = false := by
  obtain ⟨name, hname, rfl⟩ := hp
  unfold slot
  rw [inside_cons, inside_append, inside_cons,
    if_neg D.ne.symm, if_pos rfl]
  rfl

theorem IsSlot.inside_left (hp : D.IsSlot (q ++ t)) (hq : D.inside false q = false) :
    q = [] ∨ t = [] := by
  obtain ⟨name, hname, h⟩ := hp
  cases q with
  | nil => exact .inl rfl
  | cons c q =>
    obtain ⟨rfl, htail⟩ := List.cons.inj h
    rcases Fence.cut_cases htail with ⟨d, rfl, -⟩ | ⟨e, d, rfl, hd⟩
    · have hplain : D.Plain q := (plain_append.1 hname).1
      rw [inside_cons, if_pos rfl, inside_plain true hplain] at hq
      cases hq
    · obtain ⟨-, hnil⟩ := List.cons.inj hd
      exact .inr (append_eq_nil_iff.1 hnil.symm).2

/-! ## Expansion -/

namespace Expands

theorem append {t' u' : Text} (h : D.Expands L t u) (h' : D.Expands L t' u') :
    D.Expands L (t ++ t') (u ++ u') := by
  induction h with
  | nil => exact h'
  | char hop hcl _ ih => exact .char hop hcl ih
  | slot hmem hp hv _ ih =>
    rw [append_assoc, append_assoc]
    exact .slot hmem hp hv ih

theorem of_plain (ht : D.Plain t) : D.Expands L t t := by
  induction t with
  | nil => exact .nil
  | cons c t ih =>
    obtain ⟨hop, hcl, ht⟩ := plain_cons.1 ht
    exact .char hop hcl (ih ht)

theorem plain (h : D.Expands L t u) : D.Plain u := by
  induction h with
  | nil => exact ⟨not_mem_nil, not_mem_nil⟩
  | char hop hcl _ ih => exact plain_cons.2 ⟨hop, hcl, ih⟩
  | slot _ _ hv _ ih => exact plain_append.2 ⟨hv, ih⟩

theorem eq_of_plain (h : D.Expands L t u) (ht : D.Plain t) : t = u := by
  induction h with
  | nil => rfl
  | char _ _ _ ih => rw [ih (plain_cons.1 ht).2.2]
  | slot _ hp _ _ _ =>
    obtain ⟨name, -, rfl⟩ := hp
    exact absurd mem_cons_self ht.1

theorem eq_of_nil (h : D.Expands [] t u) : t = u := by
  induction h with
  | nil => rfl
  | char _ _ _ ih => rw [ih]
  | slot hmem => cases hmem

theorem mono {L' : List (Text × Text)} (hsub : ∀ e ∈ L, e ∈ L') (h : D.Expands L t u) :
    D.Expands L' t u := by
  induction h with
  | nil => exact .nil
  | char hop hcl _ ih => exact .char hop hcl ih
  | slot hmem hp hv _ ih => exact .slot (hsub _ hmem) hp hv ih

theorem split_slot (hp : D.IsSlot p) (h : D.Expands L (x ++ (p ++ y)) u) :
    ∃ u₁ v u₂, u = u₁ ++ (v ++ u₂) ∧ D.Expands L x u₁ ∧ (p, v) ∈ L ∧ D.Plain v ∧
      D.Expands L y u₂ := by
  generalize hw : x ++ (p ++ y) = w at h
  induction h generalizing x with
  | nil =>
    have hnil := (append_eq_nil_iff.1 (append_eq_nil_iff.1 hw).2).1
    exact absurd hnil hp.ne_nil
  | @char c t u hop hcl h ih =>
    cases x with
    | nil => exact absurd ⟨y, hw⟩ (hp.not_prefix_cons hop)
    | cons d x =>
      obtain ⟨rfl, htail⟩ := List.cons.inj hw
      obtain ⟨u₁, v, u₂, rfl, hx, hrest⟩ := ih htail
      exact ⟨d :: u₁, v, u₂, rfl, .char hop hcl hx, hrest⟩
  | @slot q w t u hmem hq hv h ih =>
    rcases append_eq_append_iff.1 hw with ⟨d, rfl, hd⟩ | ⟨d, rfl, hd⟩
    · by_cases hx : x = []
      · -- the slot starts where `q` does
        subst hx
        obtain ⟨rfl, rfl⟩ := IsSlot.unique hp hq hw
        exact ⟨[], w, u, rfl, .nil, hmem, hv, h⟩
      -- the slot would start inside `q`
      have hnot : D.op ∉ d := hq.op_notMem_tail hx
      obtain ⟨name, -, rfl⟩ := hp
      cases d with
      | nil =>
        obtain ⟨u₁, v, u₂, hu, hx', hrest⟩ := ih (x := []) hd
        refine ⟨w ++ u₁, v, u₂, by rw [hu, append_assoc], ?_, hrest⟩
        have := Expands.slot hmem hq hv hx'
        simpa using this
      | cons e d => exact absurd ((List.cons.inj hd).1 ▸ mem_cons_self) hnot
    · obtain ⟨u₁, v, u₂, rfl, hx, hrest⟩ := ih hd.symm
      exact ⟨w ++ u₁, v, u₂, by rw [append_assoc], .slot hmem hq hv hx, hrest⟩

theorem not_inside (h : D.Expands L t u) : D.inside false t = false := by
  induction h with
  | nil => rfl
  | char hop hcl _ ih =>
    rw [inside_cons, if_neg hop, if_neg hcl, ih]
  | slot _ hp _ _ ih => rw [inside_append, hp.inside, ih]

theorem split (hx : D.inside false x = false) (h : D.Expands L (x ++ y) u) :
    ∃ u₁ u₂, u = u₁ ++ u₂ ∧ D.Expands L x u₁ ∧ D.Expands L y u₂ := by
  generalize hw : x ++ y = w at h
  induction h generalizing x with
  | nil =>
    obtain ⟨rfl, rfl⟩ := append_eq_nil_iff.1 hw
    exact ⟨[], [], rfl, .nil, .nil⟩
  | @char c t u hop hcl h ih =>
    cases x with
    | nil =>
      subst hw
      exact ⟨[], c :: u, rfl, .nil, .char hop hcl h⟩
    | cons d x =>
      obtain ⟨rfl, htail⟩ := List.cons.inj hw
      rw [inside_cons, if_neg hop, if_neg hcl] at hx
      obtain ⟨u₁, u₂, rfl, hx, hy⟩ := ih hx htail
      exact ⟨d :: u₁, u₂, rfl, .char hop hcl hx, hy⟩
  | @slot q w t u hmem hq hv h ih =>
    rcases append_eq_append_iff.1 hw with ⟨d, rfl, rfl⟩ | ⟨d, rfl, rfl⟩
    · -- `x` ends in `q`: at its start or at its end, or a slot is open
      rcases hq.inside_left hx with rfl | rfl
      · exact ⟨[], w ++ u, rfl, .nil, .slot hmem hq hv h⟩
      · refine ⟨w, u, rfl, ?_, h⟩
        simpa using Expands.slot hmem hq hv .nil
    · rw [inside_append, hq.inside] at hx
      obtain ⟨u₁, u₂, rfl, hx, hy⟩ := ih hx rfl
      exact ⟨w ++ u₁, u₂, by rw [append_assoc], .slot hmem hq hv hx, hy⟩

end Expands

/-! ## Replacing a slot -/

theorem replace_of_op_notMem (hp : D.IsSlot p) (hx : D.op ∉ x) :
    Str.replace (x ++ t) p v = x ++ Str.replace t p v := by
  induction x with
  | nil => rfl
  | cons c x ih =>
    have hc : c ≠ D.op := fun h => hx (h ▸ mem_cons_self)
    rw [cons_append, Str.replace_cons (hp.not_prefix_cons hc),
      ih fun h => hx (mem_cons_of_mem _ h), cons_append]

theorem IsSlot.eq_cons (hp : D.IsSlot p) : ∃ x, p = D.op :: x ∧ D.op ∉ x := by
  obtain ⟨name, hname, rfl⟩ := hp
  refine ⟨name ++ [D.cl], rfl, ?_⟩
  rw [mem_append, mem_singleton]
  exact not_or.2 ⟨hname.1, D.ne⟩

theorem replace_slot_append (hp : D.IsSlot p) (hq : D.IsSlot q) (hne : q ≠ p) :
    Str.replace (q ++ t) p v = q ++ Str.replace t p v := by
  have hnot : ¬ p <+: q ++ t := by
    rintro ⟨t', ht'⟩
    exact hne (IsSlot.unique hq hp ht'.symm).1
  obtain ⟨x, rfl, hx⟩ := hq.eq_cons
  rw [cons_append] at hnot ⊢
  rw [Str.replace_cons hnot, replace_of_op_notMem hp hx, cons_append]

theorem IsSlot.prefix_of_op (hp : D.IsSlot p) (hx : x ≠ []) (h : p <+: x ++ D.op :: t) :
    p <+: x := by
  obtain ⟨y, hy⟩ := h
  rcases Fence.cut_cases hy with ⟨d, hd, -⟩ | ⟨e, d, rfl, hd⟩
  · exact ⟨d, hd.symm⟩
  · have hnot := hp.op_notMem_tail hx
    exact absurd ((List.cons.inj hd).1 ▸ mem_cons_self) hnot

theorem replace_append_op (hp : D.IsSlot p) (x t : Text) :
    Str.replace (x ++ D.op :: t) p v = Str.replace x p v ++ Str.replace (D.op :: t) p v := by
  induction x using Str.piece_induction (Q := (· = p)) hp.ne_nil.symm with
  | nil =>
    rw [Str.replace_nil hp.ne_nil]
    rfl
  | piece q x hq ih =>
    subst hq
    rw [append_assoc, Str.replace_append_self hp.ne_nil, Str.replace_append_self hp.ne_nil, ih,
      append_assoc]
  | char c x hnot ih =>
    have hnot' : ¬ p <+: c :: (x ++ D.op :: t) :=
      fun h => hnot p rfl (hp.prefix_of_op (cons_ne_nil c x) h)
    rw [cons_append, Str.replace_cons hnot', Str.replace_cons (hnot p rfl), ih, cons_append]

theorem replace_append_slot (hp : D.IsSlot p) (hq : D.IsSlot q) (a b : Text) :
    Str.replace (a ++ (q ++ b)) p v = Str.replace a p v ++ Str.replace (q ++ b) p v := by
  obtain ⟨name, -, rfl⟩ := hq
  exact replace_append_op hp a (name ++ [D.cl] ++ b)

theorem isInfix_replace (hp : D.IsSlot p) (hq : D.IsSlot q) (hne : q ≠ p) (h : q <:+: t) :
    q <:+: Str.replace t p v := by
  obtain ⟨a, b, rfl⟩ := h
  rw [append_assoc, replace_append_slot hp hq, replace_slot_append hp hq hne]
  exact ⟨_, _, append_assoc _ _ _⟩

namespace Expands

theorem replace_append (hp : D.IsSlot p) (h : D.Expands L t u) :
    Str.replace (t ++ z) p v = Str.replace t p v ++ Str.replace z p v := by
  induction h with
  | nil =>
    rw [Str.replace_nil hp.ne_nil]
    rfl
  | char hop hcl _ ih =>
    rw [cons_append, Str.replace_cons (hp.not_prefix_cons hop),
      Str.replace_cons (hp.not_prefix_cons hop), ih, cons_append]
  | @slot q w t u _ hq _ _ ih =>
    rw [append_assoc]
    by_cases hqp : q = p
    · rw [hqp, Str.replace_append_self hp.ne_nil, Str.replace_append_self hp.ne_nil, ih,
        append_assoc]
    · rw [replace_slot_append hp hq hqp, replace_slot_append hp hq hqp, ih, append_assoc]

theorem replace (hp : D.IsSlot p) (hnew : p ∉ L.map Prod.fst) (h : D.Expands ((p, v) :: L) t u) :
    D.Expands L (Str.replace t p v) u := by
  induction h with
  | nil =>
    rw [Str.replace_nil hp.ne_nil]
    exact .nil
  | char hop hcl _ ih =>
    rw [Str.replace_cons (hp.not_prefix_cons hop)]
    exact .char hop hcl ih
  | @slot q w t u hmem hq hw _ ih =>
    rcases mem_cons.1 hmem with hqw | hqw
    · cases hqw
      rw [Str.replace_append_self hp.ne_nil]
      exact (of_plain hw).append ih
    have hne : q ≠ p := by
      rintro rfl
      exact hnew (mem_map_of_mem hqw)
    rw [replace_slot_append hp hq hne]
    exact .slot hqw hq hw ih

end Expands

/-! ## Applying all entries -/

def replaceAll (t : Text) (L : List (Text × Text)) : Text :=
  L.foldl (fun t e => Str.replace t e.1 e.2) t

structure Entries (D : Delims) (L : List (Text × Text)) : Prop where
  slots : ∀ e ∈ L, D.IsSlot e.1
  nodup : (L.map Prod.fst).Nodup

theorem Entries.tail {e : Text × Text} (h : D.Entries (e :: L)) :
    D.IsSlot e.1 ∧ e.1 ∉ L.map Prod.fst ∧ D.Entries L where
  left := h.slots e mem_cons_self
  right := ⟨(nodup_cons.1 h.nodup).1, (forall_mem_cons.1 h.slots).2,
    (nodup_cons.1 h.nodup).2⟩

theorem Entries.perm {L' : List (Text × Text)} (h : D.Entries L) (hperm : L'.Perm L) :
    D.Entries L' where
  slots e he := h.slots e (hperm.subset he)
  nodup := (hperm.map Prod.fst).nodup_iff.2 h.nodup

/-- Induction along a text that is cut into the slots of the entries. -/
theorem Entries.slot_induction (hL : D.Entries L) {motive : Text → Prop} (nil : motive [])
    (slot : ∀ p v t, (p, v) ∈ L → motive t → motive (p ++ t))
    (char : ∀ c t, (∀ e ∈ L, ¬ e.1 <+: c :: t) → motive t → motive (c :: t)) (t : Text) :
    motive t := by
  have hkeys : ¬ ∃ e ∈ L, e.1 = [] := by
    rintro ⟨e, he, hnil⟩
    exact (hL.slots e he).ne_nil hnil
  induction t using Str.piece_induction (Q := fun q => ∃ e ∈ L, e.1 = q) hkeys with
  | nil => exact nil
  | piece q t hq ih =>
    obtain ⟨⟨q, v⟩, hmem, rfl⟩ := hq
    exact slot q v t hmem ih
  | char c t hnot ih => exact char c t (fun e he => hnot e.1 ⟨e, he, rfl⟩) ih

/-- **The order of the entries does not matter** for a text of plain characters and slots. -/
theorem replaceAll_eq (hL : D.Entries L) (h : D.Expands L t u) : replaceAll t L = u := by
  induction L generalizing t with
  | nil => exact h.eq_of_nil
  | cons e L ih =>
    obtain ⟨hp, hnew, hL⟩ := hL.tail
    exact ih hL (h.replace hp hnew)

/-! ### Texts that are not affected by the order -/

theorem isInfix_replaceAll (hL : D.Entries L) (hp : D.IsSlot p) (hnew : p ∉ L.map Prod.fst)
    (h : p <:+: t) : p <:+: replaceAll t L := by
  induction L generalizing t with
  | nil => exact h
  | cons e L ih =>
    obtain ⟨he, -, hL⟩ := hL.tail
    rw [map_cons, mem_cons, not_or] at hnew
    obtain ⟨hne, hnew⟩ := hnew
    exact ih hL hnew (isInfix_replace he hp hne h)

theorem plain_value (hL : D.Entries L) (hall : ∀ L', L'.Perm L → replaceAll t L' = u)
    (hu : D.Plain u) (hmem : (p, v) ∈ L) (hin : p <:+: t) : D.Plain v := by
  have hperm : (L.erase (p, v) ++ [(p, v)]).Perm L :=
    (perm_append_singleton _ _).trans (perm_cons_erase hmem).symm
  have hcons := hL.perm (perm_cons_erase hmem).symm
  obtain ⟨hp, hnew, hrest⟩ := hcons.tail
  obtain ⟨a, b, hab⟩ := isInfix_replaceAll hrest hp hnew hin
  have hlast := hall _ hperm
  unfold replaceAll at hlast
  rw [foldl_append] at hlast
  have hshow : Str.replace (a ++ (p ++ b)) p v = u := by
    rw [← append_assoc, hab]
    exact hlast
  rw [replace_append_slot hp hp, Str.replace_append_self hp.ne_nil] at hshow
  rw [← hshow] at hu
  exact (plain_append.1 (plain_append.1 hu).2).1

/-- A text is an expanding one, or it has a closing delimiter too many, or an opening one that
starts no slot of the entries. -/
inductive Shape (D : Delims) (L : List (Text × Text)) : Text → Prop
  | flat {t u : Text} (h : D.Expands L t u) : Shape D L t
  | close {r s z : Text} (h : D.Expands L r s) : Shape D L (r ++ D.cl :: z)
  | opened {a r s z : Text} (h : D.Expands L r s) (hz : z = [] ∨ ∃ z', z = D.cl :: z')
      (hslot : ∀ e ∈ L, ¬ e.1 <+: D.op :: (r ++ z)) : Shape D L (a ++ D.op :: (r ++ z))

theorem shape (hL : D.Entries L) (t : Text) (hv : ∀ e ∈ L, e.1 <:+: t → D.Plain e.2) :
    Shape D L t := by
  induction t using hL.slot_induction with
  | nil => exact .flat .nil
  | slot p v t hmem ih =>
    have hp := hL.slots _ hmem
    have hplain := hv _ hmem (prefix_append p t).isInfix
    cases ih fun e he h => hv e he (h.trans (suffix_append p t).isInfix) with
    | flat h => exact .flat (.slot hmem hp hplain h)
    | close h =>
      rw [← append_assoc]
      exact .close (.slot hmem hp hplain h)
    | opened h hend hother =>
      rw [← append_assoc]
      exact .opened h hend hother
  | char c t hnot ih =>
    have hrest := ih fun e he h => hv e he (h.trans (suffix_cons c t).isInfix)
    by_cases hcl : c = D.cl
    · subst hcl
      exact .close (r := []) .nil
    by_cases hop : c = D.op
    · subst hop
      cases hrest with
      | flat h =>
        have := Shape.opened (a := []) (z := []) h (.inl rfl) (by simpa using hnot)
        simpa using this
      | close h => exact .opened (a := []) h (.inr ⟨_, rfl⟩) hnot
      | opened h hend hother => exact .opened (a := D.op :: _) h hend hother
    · cases hrest with
      | flat h => exact .flat (.char hop hcl h)
      | close h => exact .close (.char hop hcl h)
      | opened h hend hother => exact .opened (a := c :: _) h hend hother

theorem cl_mem_replaceAll (hL : D.Entries L) (h : D.Expands L r s) (z : Text) :
    D.cl ∈ replaceAll (r ++ D.cl :: z) L := by
  induction L generalizing r z with
  | nil => exact mem_append_right _ mem_cons_self
  | cons e L ih =>
    obtain ⟨hp, hnew, hL⟩ := hL.tail
    have hstep : Str.replace (r ++ D.cl :: z) e.1 e.2 =
        Str.replace r e.1 e.2 ++ D.cl :: Str.replace z e.1 e.2 := by
      rw [h.replace_append hp, Str.replace_cons (hp.not_prefix_cons D.ne.symm)]
    have := ih hL (h.replace hp hnew) (Str.replace z e.1 e.2)
    rw [← hstep] at this
    exact this

theorem Expands.eq_name {name : Text} (h : D.Expands L r s) (hname : D.Plain name)
    (hz : z = [] ∨ ∃ z', z = D.cl :: z') (heq : r ++ z = name ++ D.cl :: y) : r = name := by
  induction h generalizing name with
  | nil =>
    rcases hz with rfl | ⟨z', rfl⟩
    · exact absurd heq.symm (by simp)
    · cases name with
      | nil => rfl
      | cons c name => exact absurd (List.cons.inj heq).1.symm (plain_cons.1 hname).2.1
  | char hop hcl _ ih =>
    cases name with
    | nil => exact absurd (List.cons.inj heq).1 hcl
    | cons c name =>
      obtain ⟨rfl, htail⟩ := List.cons.inj heq
      rw [ih (plain_cons.1 hname).2.2 htail]
  | slot _ hp _ _ _ =>
    obtain ⟨name', -, rfl⟩ := hp
    cases name with
    | nil => exact absurd (List.cons.inj heq).1 D.ne
    | cons c name => exact absurd (List.cons.inj heq).1.symm (plain_cons.1 hname).1

theorem replace_opened (hp : D.IsSlot p) (hnew : p ∉ L.map Prod.fst) {a : Text}
    (h : D.Expands ((p, v) :: L) r s) (hz : z = [] ∨ ∃ z', z = D.cl :: z')
    (hnot : ¬ p <+: D.op :: (r ++ z)) :
    ∃ a' r' z', Str.replace (a ++ D.op :: (r ++ z)) p v = a' ++ D.op :: (r' ++ z') ∧
      D.Expands L r' s ∧ (z' = [] ∨ ∃ z'', z' = D.cl :: z'') := by
  refine ⟨Str.replace a p v, Str.replace r p v, Str.replace z p v, ?_, h.replace hp hnew, ?_⟩
  · rw [replace_append_op hp, Str.replace_cons hnot, h.replace_append hp]
  · rcases hz with rfl | ⟨z', rfl⟩
    · exact .inl (Str.replace_nil hp.ne_nil)
    · exact .inr ⟨_, Str.replace_cons (hp.not_prefix_cons D.ne.symm)⟩

/-- An opening delimiter in front of an expanding text stays, unless the two form the slot of an
entry still to come. -/
theorem op_mem_replaceAll (hL : D.Entries L) {a : Text} (h : D.Expands L r s)
    (hz : z = [] ∨ ∃ z', z = D.cl :: z') (hslot : D.slot s ∉ L.map Prod.fst) :
    D.op ∈ replaceAll (a ++ D.op :: (r ++ z)) L := by
  induction L generalizing a r z with
  | nil => exact mem_append_right _ mem_cons_self
  | cons e L ih =>
    obtain ⟨hp, hnew, hL⟩ := hL.tail
    rw [map_cons, mem_cons, not_or] at hslot
    obtain ⟨hne, hslot⟩ := hslot
    have hnot : ¬ e.1 <+: D.op :: (r ++ z) := by
      rintro ⟨y, hy⟩
      obtain ⟨name, hname, hslot⟩ := hp
      rw [hslot] at hy hne
      have htail : r ++ z = name ++ D.cl :: y := by
        have := (List.cons.inj hy).2
        simpa using this.symm
      have hr := h.eq_name hname hz htail
      subst hr
      exact hne (congrArg D.slot (h.eq_of_plain hname).symm)
    obtain ⟨a', r', z', hstep, h', hz'⟩ := replace_opened (a := a) hp hnew h hz hnot
    have := ih hL h' hz' hslot (a := a')
    rw [← hstep] at this
    exact this

/-- **A text that becomes the same plain text in every order of the entries** consists of plain
characters and slots with plain values. -/
theorem expands_of_replaceAll (hL : D.Entries L) (hu : D.Plain u)
    (hall : ∀ L', L'.Perm L → replaceAll t L' = u) : D.Expands L t u := by
  have hshape := shape hL t fun e he hin => plain_value hL hall hu he hin
  cases hshape with
  | flat h =>
    have hflat := replaceAll_eq hL h
    rw [hall L (.refl L)] at hflat
    exact hflat ▸ h
  | @close r s z h =>
    have hcl := cl_mem_replaceAll hL h z
    rw [hall L (.refl L)] at hcl
    exact absurd hcl hu.2
  | @opened a r s z h hz hslot =>
    exfalso
    by_cases hin : D.slot s ∈ L.map Prod.fst
    · -- the entry that could remove the delimiter comes first, when it cannot yet
      obtain ⟨e, he, hes⟩ := mem_map.1 hin
      have hperm := (perm_cons_erase he).symm
      obtain ⟨hp, hnew, hrest⟩ := (hL.perm hperm).tail
      obtain ⟨a', r', z', hstep, h', hz'⟩ := replace_opened (a := a) hp hnew
        (h.mono fun e he => hperm.symm.subset he) hz (hslot e he)
      have hop := op_mem_replaceAll (a := a') hrest h' hz' (hes ▸ hnew)
      rw [← hstep] at hop
      have hfirst : replaceAll (a ++ D.op :: (r ++ z)) (e :: L.erase e) = u := hall _ hperm
      exact hu.1 (hfirst ▸ hop)
    · have hop := op_mem_replaceAll (a := a) hL h hz hin
      rw [hall L (.refl L)] at hop
      exact hu.1 hop

/-! ## Splicing slots for values -/

/-- A span has no delimiter and does not lie in a slot. -/
def Clear (D : Delims) (t : Text) (span : Nat × Nat) : Prop :=
  D.Plain (slice t span.1 span.2) ∧ D.inside false (t.take span.1) = false

instance (D : Delims) (t : Text) : Decidable (D.Plain t) := inferInstanceAs (Decidable (_ ∧ _))

instance (D : Delims) (t : Text) (span : Nat × Nat) : Decidable (D.Clear t span) :=
  inferInstanceAs (Decidable (_ ∧ _))

theorem Entries.value_unique (hL : D.Entries L) {w : Text} (hv : (p, v) ∈ L) (hw : (p, w) ∈ L) :
    v = w :=
  congrArg Prod.snd (inj_on_of_nodup_map hL.nodup hv hw rfl)

theorem clear_middle (a g m t : Text) :
    D.Clear (a ++ (g ++ (m ++ t))) (a.length + g.length, a.length + g.length + m.length) ↔
      D.Plain m ∧ D.inside false (a ++ g) = false := by
  unfold Clear
  rw [← append_assoc a g, ← length_append, slice_middle, take_left]

/-- **Slots in place of their values**: the new text expands to `u` exactly when the old one does
and no span touches a slot. -/
theorem expands_splices (hL : D.Entries L) {pos : Nat} {t' : Text} {spans : List (Nat × Nat)}
    (h : Splices (fun m q => (q, m) ∈ L) pos t spans t') :
    ∀ a u : Text, a.length = pos → D.inside false a = false →
      (D.Expands L t' u ↔ D.Expands L t u ∧ ∀ span ∈ spans, D.Clear (a ++ t) span) := by
  induction h with
  | nil =>
    simp
  | @cons pos g m q t t' spans hm _ ih =>
    rintro a u rfl ha
    have hq : D.IsSlot q := hL.slots _ hm
    have hrest : a ++ (g ++ (m ++ t)) = (a ++ (g ++ m)) ++ t := by simp
    have hlen : (a ++ (g ++ m)).length = a.length + g.length + m.length := by
      simp [Nat.add_assoc]
    constructor
    · intro h
      obtain ⟨u₁, v, u₂, rfl, hg, hv, hplain, ht'⟩ := h.split_slot hq
      obtain rfl := hL.value_unique hv hm
      have hin : D.inside false (a ++ g) = false := by rw [inside_append, ha, hg.not_inside]
      have hin' : D.inside false (a ++ (g ++ v)) = false := by
        rw [← append_assoc, inside_append, hin, inside_plain false hplain]
      obtain ⟨ht, hclear⟩ := (ih _ u₂ hlen hin').1 ht'
      refine ⟨hg.append ((Expands.of_plain hplain).append ht), ?_⟩
      intro span hspan
      rcases mem_cons.1 hspan with rfl | hspan
      · exact (clear_middle a g v t).2 ⟨hplain, hin⟩
      · rw [hrest]
        exact hclear span hspan
    · rintro ⟨h, hclear⟩
      obtain ⟨hplain, hin⟩ := (clear_middle a g m t).1 (hclear _ mem_cons_self)
      have hing : D.inside false g = false := by
        rw [inside_append, ha] at hin
        exact hin
      have hin' : D.inside false (a ++ (g ++ m)) = false := by
        rw [← append_assoc, inside_append, hin, inside_plain false hplain]
      obtain ⟨u₁, u', rfl, hg, hmt⟩ := h.split hing
      obtain ⟨w, u₂, rfl, hm', ht⟩ := hmt.split (inside_plain false hplain)
      obtain rfl := hm'.eq_of_plain hplain
      have ht' := (ih _ u₂ hlen hin').2 ⟨ht, fun span hspan => by
        rw [← hrest]
        exact hclear span (mem_cons_of_mem _ hspan)⟩
      exact hg.append (.slot hm hq hplain ht')

end Delims

end Nanoguard

import Nanoguard.Guard.RoundTrip
import Nanoguard.Lib.SlotFill
import Nanoguard.Lib.Utf8

/-!
# Restoring placeholders in a stream

`DeanonymizeStream` gets the text of an answer in pieces. It holds back what follows an opening
bracket, up to the closing bracket or to 64 bytes, and restores a window that is closed by itself. It
starts over behind each window, so its runs are described window by window (`window_induction`).
-/

namespace Nanoguard.Guard

open List

open Vault (LocalVault PlaceholderTemplate)

variable {a b t : Text} {L : List (Text × Text)}

def maxPlaceholderLen : Nat := 64

namespace DeanonymizeStream

inductive State where
  | normal
  | inPlaceholder
  deriving DecidableEq, Repr

end DeanonymizeStream

structure DeanonymizeStream where
  state : DeanonymizeStream.State
  pending : Text
  entries : List (Text × Text)
  strategy : MatchingStrategy
  deriving DecidableEq, Repr

namespace DeanonymizeStream

def new (entries : List (Text × Text)) (strategy : MatchingStrategy) : DeanonymizeStream :=
  ⟨.normal, [], entries, strategy⟩

/-- One character: the new state and what is emitted. -/
def step (d : DeanonymizeStream) (ch : Char) : DeanonymizeStream × Text :=
  match d.state with
  | .normal =>
    if ch = '[' then ({ d with pending := [ch], state := .inPlaceholder }, [])
    else (d, [ch])
  | .inPlaceholder =>
    let pending := d.pending ++ [ch]
    if ch = ']' then
      ({ d with pending := [], state := .normal }, d.strategy.restore pending d.entries)
    else if maxPlaceholderLen ≤ Str.len pending then
      ({ d with pending := [], state := .normal }, pending)
    else ({ d with pending }, [])

def chars (d : DeanonymizeStream) : Text → DeanonymizeStream × Text
  | [] => (d, [])
  | ch :: text =>
    let (d, emit) := d.step ch
    let (d, emit') := d.chars text
    (d, emit ++ emit')

def push (d : DeanonymizeStream) (text : Text) : DeanonymizeStream × Text :=
  if d.entries.isEmpty then (d, text) else d.chars text

def flush (d : DeanonymizeStream) : DeanonymizeStream × Text :=
  ({ d with pending := [], state := .normal }, d.pending)

def pushAll (d : DeanonymizeStream) : List Text → DeanonymizeStream × Text
  | [] => (d, [])
  | piece :: pieces =>
    let (d, emit) := d.push piece
    let (d, emit') := d.pushAll pieces
    (d, emit ++ emit')

/-- What is emitted for all pieces and the flush at the end. -/
def run (d : DeanonymizeStream) (pieces : List Text) : Text :=
  let (d, emit) := d.pushAll pieces
  emit ++ d.flush.2

/-! ## Cuts -/

theorem step_entries (d : DeanonymizeStream) (ch : Char) : (d.step ch).1.entries = d.entries := by
  unfold step
  cases d.state with
  | normal =>
    dsimp only
    split <;> rfl
  | inPlaceholder =>
    dsimp only
    split
    · rfl
    · split <;> rfl

theorem chars_append (d : DeanonymizeStream) (x y : Text) : d.chars (x ++ y) = let q := d.chars x
      let q' := q.1.chars y
      (q'.1, q.2 ++ q'.2) := by
  induction x generalizing d with
  | nil => rfl
  | cons c x ih =>
    rw [cons_append, chars, chars]
    simp only [ih, append_assoc]

theorem chars_entries (d : DeanonymizeStream) (text : Text) :
    (d.chars text).1.entries = d.entries := by
  induction text generalizing d with
  | nil => rfl
  | cons c text ih =>
    rw [chars]
    simp only [ih, step_entries]

theorem pushAll_eq (d : DeanonymizeStream) (pieces : List Text) :
    d.pushAll pieces = d.push pieces.flatten := by
  induction pieces generalizing d with
  | nil =>
    unfold pushAll push
    split <;> rfl
  | cons piece pieces ih =>
    rw [pushAll]
    simp only [ih]
    unfold push
    by_cases hempty : d.entries.isEmpty = true
    · simp only [if_pos hempty, flatten_cons]
    · have hrest : ¬ (d.chars piece).1.entries.isEmpty = true := by rwa [chars_entries]
      simp only [if_neg hempty, if_neg hrest, flatten_cons, chars_append]

theorem push_entries (hL : L ≠ []) (strategy : MatchingStrategy) (text : Text) :
    (new L strategy).push text = (new L strategy).chars text :=
  if_neg (mt List.isEmpty_iff.1 hL)

/-! ## Windows -/

/-- What is held back: an opening bracket and what follows it. -/
structure IsWindow (q : Text) : Prop where
  opens : ∃ r, q = '[' :: r
  noClose : ']' ∉ q
  short : Str.len q < maxPlaceholderLen

theorem IsWindow.singleton : IsWindow ['['] := ⟨⟨[], rfl⟩, by decide, by decide⟩

theorem IsWindow.snoc {q : Text} {c : Char} (hq : IsWindow q) (hc : c ≠ ']')
    (hlen : Str.len (q ++ [c]) < maxPlaceholderLen) : IsWindow (q ++ [c]) where
  opens := by
    obtain ⟨r, rfl⟩ := hq.opens
    exact ⟨r ++ [c], rfl⟩
  noClose := by
    rw [mem_append, mem_singleton]
    exact not_or.2 ⟨hq.noClose, hc.symm⟩
  short := hlen

theorem IsWindow.of_append (h : IsWindow (a ++ b)) (ha : a ≠ []) : IsWindow a where
  opens := by
    obtain ⟨c, a, rfl⟩ := exists_cons_of_ne_nil ha
    obtain ⟨r, hr⟩ := h.opens
    exact ⟨a, by rw [(List.cons.inj hr).1]⟩
  noClose hmem := h.noClose (mem_append_left b hmem)
  short := by
    have := h.short
    rw [Utf8.len_append] at this
    omega

theorem window_cases {q : Text} (hq : IsWindow q) (t : Text) :
    IsWindow (q ++ t) ∨
      (∃ y t', t = y ++ ']' :: t' ∧ IsWindow (q ++ y)) ∨
      ∃ y c t', t = y ++ c :: t' ∧ IsWindow (q ++ y) ∧ c ≠ ']' ∧
        maxPlaceholderLen ≤ Str.len (q ++ y ++ [c]) := by
  induction t generalizing q with
  | nil =>
    left
    rwa [append_nil]
  | cons c t ih =>
    by_cases hc : c = ']'
    · subst hc
      exact .inr (.inl ⟨[], t, rfl, by rwa [append_nil]⟩)
    by_cases hlen : maxPlaceholderLen ≤ Str.len (q ++ [c])
    · refine .inr (.inr ⟨[], c, t, rfl, by rwa [append_nil], hc, ?_⟩)
      rwa [append_nil]
    have happ : ∀ y, q ++ [c] ++ y = q ++ c :: y := fun y => by simp
    rcases ih (hq.snoc hc (Nat.lt_of_not_le hlen)) with h | ⟨y, t', rfl, h⟩ | ⟨y, e, t', rfl, h, hrest⟩
    · exact .inl (happ t ▸ h)
    · exact .inr (.inl ⟨c :: y, t', rfl, happ y ▸ h⟩)
    · rw [happ] at h hrest
      exact .inr (.inr ⟨c :: y, e, t', rfl, h, hrest⟩)

/-- **Induction along the windows of a text.** -/
theorem window_induction {motive : Text → Prop} (nil : motive [])
    (plain : ∀ c t, c ≠ '[' → motive t → motive (c :: t))
    (closed : ∀ q t, IsWindow q → motive t → motive (q ++ ']' :: t))
    (bailed : ∀ q c t, IsWindow q → c ≠ ']' → maxPlaceholderLen ≤ Str.len (q ++ [c]) → motive t →
      motive (q ++ c :: t))
    (unclosed : ∀ q, IsWindow q → motive q) (t : Text) : motive t := by
  induction hn : t.length using Nat.strong_induction_on generalizing t with
  | h n ih =>
    subst hn
    cases t with
    | nil => exact nil
    | cons c t =>
      by_cases hc : c = '['
      · subst hc
        rcases window_cases IsWindow.singleton t with h | ⟨y, t', rfl, h⟩ | ⟨y, e, t', rfl, h, he, hlen⟩
        · exact unclosed _ h
        · exact closed _ t' h (ih t'.length (by simp; omega) t' rfl)
        · exact bailed _ e t' h he hlen (ih t'.length (by simp; omega) t' rfl)
      · exact plain c t hc (ih _ (Nat.lt_succ_self _) t rfl)

section Equations

variable {L : List (Text × Text)} {strategy : MatchingStrategy} {q t : Text} {c : Char}

theorem chars_plain (hc : c ≠ '[') :
    (new L strategy).chars (c :: t) =
      let r := (new L strategy).chars t
      (r.1, c :: r.2) := by
  rw [chars]
  have hstep : (new L strategy).step c = (new L strategy, [c]) := if_neg hc
  rw [hstep]
  rfl

theorem chars_unclosed (hq : IsWindow q) :
    (new L strategy).chars q = (⟨.inPlaceholder, q, L, strategy⟩, []) := by
  obtain ⟨r, rfl⟩ := hq.opens
  -- the window grows at its end
  induction r using List.reverseRecOn with
  | nil => rfl
  | append_singleton r c ih =>
    have hinit : IsWindow ('[' :: r) :=
      IsWindow.of_append (b := [c]) hq (cons_ne_nil _ _)
    have hc : c ≠ ']' := by
      rintro rfl
      exact hq.noClose (by simp)
    have hshort : ¬ maxPlaceholderLen ≤ Str.len ('[' :: r ++ [c]) := Nat.not_le_of_lt hq.short
    rw [← cons_append, chars_append, ih hinit]
    have hstep : step ⟨.inPlaceholder, '[' :: r, L, strategy⟩ c =
        (⟨.inPlaceholder, '[' :: r ++ [c], L, strategy⟩, []) := by
      unfold step
      dsimp only
      rw [if_neg hc, if_neg hshort]
    dsimp only
    rw [chars, hstep]
    rfl

theorem chars_closed (hq : IsWindow q) :
    (new L strategy).chars (q ++ ']' :: t) =
      let r := (new L strategy).chars t
      (r.1, strategy.restore (q ++ [']']) L ++ r.2) := by
  rw [chars_append, chars_unclosed hq]
  rfl

theorem chars_bailed (hq : IsWindow q) (hc : c ≠ ']')
    (hlen : maxPlaceholderLen ≤ Str.len (q ++ [c])) :
    (new L strategy).chars (q ++ c :: t) =
      let r := (new L strategy).chars t
      (r.1, q ++ c :: r.2) := by
  have hstep : step ⟨.inPlaceholder, q, L, strategy⟩ c = (new L strategy, q ++ [c]) := by
    unfold step
    dsimp only
    rw [if_neg hc, if_pos hlen]
    rfl
  rw [chars_append, chars_unclosed hq]
  dsimp only
  rw [chars, hstep]
  simp

theorem IsWindow.inside (hq : IsWindow q) (b : Bool) : brackets.inside b q = true := by
  obtain ⟨r, rfl⟩ := hq.opens
  have hr : ']' ∉ r := fun hmem => hq.noClose (mem_cons_of_mem _ hmem)
  change brackets.inside true r = true
  clear hq
  induction r with
  | nil => rfl
  | cons c r ih =>
    have hc : c ≠ brackets.cl := fun h => hr (h ▸ mem_cons_self)
    rw [Delims.inside_cons, if_neg hc, ite_self]
    exact ih fun h => hr (mem_cons_of_mem _ h)

theorem chars_state (t : Text) : ((new L strategy).chars t).1 = new L strategy ∨
    ∃ q, IsWindow q ∧ ((new L strategy).chars t).1 = ⟨.inPlaceholder, q, L, strategy⟩ := by
  induction t using window_induction with
  | nil => exact .inl rfl
  | plain c t hc ih =>
    rw [chars_plain hc]
    exact ih
  | closed q t hq ih =>
    rw [chars_closed hq]
    exact ih
  | bailed q c t hq hc hlen ih =>
    rw [chars_bailed hq hc hlen]
    exact ih
  | unclosed q hq =>
    rw [chars_unclosed hq]
    exact .inr ⟨q, hq, rfl⟩

theorem chars_of_pending (h : ((new L strategy).chars t).1.pending = []) :
    ((new L strategy).chars t).1 = new L strategy := by
  rcases @chars_state L strategy t with hnew | ⟨q, hq, hopen⟩
  · exact hnew
  · obtain ⟨r, rfl⟩ := hq.opens
    rw [hopen] at h
    cases h

theorem chars_of_not_inside (h : brackets.inside false t = false) :
    ((new L strategy).chars t).1 = new L strategy := by
  induction t using window_induction with
  | nil => rfl
  | plain c t hc ih =>
    rw [chars_plain hc]
    refine ih ?_
    have hop : c ≠ brackets.op := hc
    rw [Delims.inside_cons, if_neg hop] at h
    split at h <;> exact h
  | closed q t hq ih =>
    rw [chars_closed hq]
    refine ih ?_
    rw [Delims.inside_append] at h
    exact h
  | bailed q c t hq hc hlen ih =>
    rw [chars_bailed hq hc hlen]
    refine ih (Delims.inside_false_of_true ?_ false)
    rw [Delims.inside_append, hq.inside, Delims.inside_cons] at h
    split at h
    · exact h
    · have hcl : c ≠ brackets.cl := hc
      rwa [if_neg hcl] at h
  | unclosed q hq =>
    rw [hq.inside] at h
    cases h

/-- A text is restored by itself up to a place where no bracket is open. -/
theorem chars_append_of_not_inside (h : brackets.inside false t = false) (u : Text) :
    (new L strategy).chars (t ++ u) =
      (((new L strategy).chars u).1, ((new L strategy).chars t).2 ++ ((new L strategy).chars u).2) := by
  rw [chars_append]
  dsimp only
  rw [chars_of_not_inside h]

end Equations

/-! ## One pass over the text -/

/-- Every placeholder of the text ends within the bounds of the window that is open at its start or
that it opens. -/
def Fits (L : List (Text × Text)) (text : Text) : Prop :=
  ∀ a e b, e ∈ L → text = a ++ (e.1 ++ b) →
    Str.len ((new L .exact).push a).1.pending + Str.len e.1 ≤ maxPlaceholderLen

section OnePass

variable {L : List (Text × Text)} {q t x : Text} {c : Char}

def held (L : List (Text × Text)) (a : Text) : Text := ((new L .exact).chars a).1.pending

theorem fits_iff : Fits L t ↔ ∀ a e b, e ∈ L → t = a ++ (e.1 ++ b) →
    Str.len (held L a) + Str.len e.1 ≤ maxPlaceholderLen := by
  unfold Fits held
  refine forall₄_congr fun a e b he => ?_
  rw [push_entries (ne_nil_of_mem he)]

theorem held_window (h : IsWindow (a ++ b)) : held L a = a := by
  unfold held
  cases a with
  | nil => rfl
  | cons c a => rw [chars_unclosed (h.of_append (cons_ne_nil c a))]

/-- A part of the text behind which the machine starts over. -/
def Restarts (L : List (Text × Text)) (x : Text) : Prop := ∀ a, held L (x ++ a) = held L a

theorem restarts_plain (hc : c ≠ '[') : Restarts L [c] := by
  intro a
  unfold held
  rw [singleton_append, chars_plain hc]

theorem restarts_closed (hq : IsWindow q) : Restarts L (q ++ [']']) := by
  intro a
  unfold held
  rw [append_assoc, singleton_append, chars_closed hq]

theorem restarts_bailed (hq : IsWindow q) (hc : c ≠ ']')
    (hlen : maxPlaceholderLen ≤ Str.len (q ++ [c])) : Restarts L (q ++ [c]) := by
  intro a
  unfold held
  rw [append_assoc, singleton_append, chars_bailed hq hc hlen]

theorem fits_append (hx : Restarts L x) : Fits L (x ++ t) ↔
    (∀ a b, x = a ++ b → b ≠ [] → ∀ e ∈ L, e.1 <+: b ++ t →
      Str.len (held L a) + Str.len e.1 ≤ maxPlaceholderLen) ∧ Fits L t := by
  rw [fits_iff, fits_iff]
  constructor
  · intro h
    refine ⟨?_, ?_⟩
    · rintro a b rfl - e he ⟨d, hd⟩
      exact h a e d he (by rw [append_assoc, hd])
    · rintro a e b he rfl
      rw [← hx a]
      exact h (x ++ a) e b he (by rw [append_assoc])
  · rintro ⟨hstart, hrest⟩ a e b he heq
    rcases Fence.cut_cases heq with ⟨d, rfl, hd⟩ | ⟨c, d, rfl, hd⟩
    · rw [hx d]
      exact hrest d e b he hd
    · exact hstart a (c :: d) rfl (cons_ne_nil c d) e he ⟨b, hd⟩

theorem exists_init {q : Text} {c : Char} (h : q ++ [c] = a ++ b) (hb : b ≠ []) :
    ∃ b', q = a ++ b' ∧ b = b' ++ [c] := by
  rcases Fence.cut_cases h.symm with hinit | ⟨e, d, rfl, hd⟩
  · exact hinit
  · exact absurd (append_eq_nil_iff.1 (List.cons.inj hd).2.symm).2 hb

theorem fits_closed (hL : brackets.Entries L) (hq : IsWindow q) :
    Fits L (q ++ ']' :: t) ↔ Fits L t := by
  have happ : q ++ ']' :: t = q ++ [']'] ++ t := by simp
  rw [happ, fits_append (restarts_closed hq)]
  refine and_iff_right ?_
  intro a b hab hb e he hpre
  -- the placeholder ends at the bracket that closes the window
  obtain ⟨b, rfl, rfl⟩ := exists_init hab hb
  rw [append_assoc] at hpre
  obtain ⟨d, hd⟩ := (hL.slots e he).prefix_append_cl.1 hpre
  have hshort := hq.short
  have hlen := congrArg Str.len hd
  have hclose : Str.len [brackets.cl] = 1 := rfl
  rw [Utf8.len_append, Utf8.len_append] at hlen
  rw [held_window hq]
  rw [Utf8.len_append] at hshort
  omega

theorem fits_bailed (hL : brackets.Entries L) (hq : IsWindow q) (hc : c ≠ ']')
    (hlen : maxPlaceholderLen ≤ Str.len (q ++ [c])) :
    Fits L (q ++ [c] ++ t) ↔
      Delims.slotCount L (q ++ [c] ++ t) = Delims.slotCount L t ∧ Fits L t := by
  rw [fits_append (restarts_bailed hq hc hlen), Delims.slotCount_append_eq_iff hL]
  refine and_congr_left' (forall₂_congr fun a b => forall₂_congr fun hab hb =>
    forall₂_congr fun e he => ⟨fun h hpre => ?_, fun h hpre => absurd hpre h⟩)
  -- a placeholder that starts in the window goes beyond it
  have hfit := h hpre
  obtain ⟨b, rfl, rfl⟩ := exists_init hab hb
  have hfree : brackets.cl ∉ b ++ [c] := by
    rw [mem_append, mem_singleton]
    exact not_or.2 ⟨fun hmem => hq.noClose (mem_append_right a hmem), hc.symm⟩
  obtain ⟨c', d, hd⟩ := (hL.slots e he).exists_append hfree hpre
  have hpos : 0 < Str.len (c' :: d) := by
    have := Utf8.length_le_bytes (c' :: d)
    rw [length_cons] at this
    unfold Str.len
    omega
  rw [held_window hq, hd, Utf8.len_append] at hfit
  rw [append_assoc, Utf8.len_append] at hlen
  omega

/-- What is emitted for a text, with what is held back at its end. -/
def emitted (L : List (Text × Text)) (t : Text) : Text :=
  ((new L .exact).chars t).2 ++ held L t

theorem restore_window (hL : brackets.Entries L) (hvals : ∀ e ∈ L, brackets.Plain e.2)
    (hq : IsWindow q) : Exact.restore (q ++ [']']) L = Delims.fill L (q ++ [']']) := by
  have hslots : ∀ e ∈ L, e.1 ≠ [] := fun e he => (hL.slots e he).ne_nil
  have hcount : (q ++ [']']).count brackets.cl ≤ 1 := by
    have hzero : q.count brackets.cl = 0 := count_eq_zero.2 hq.noClose
    rw [count_append, hzero]
    exact le_rfl
  rw [restore_eq_replaceAll hslots]
  exact Delims.replaceAll_eq_fill hL hvals (Delims.noNewSlots_of_count_cl hL hvals hcount)

/-- **The machine goes through the text once**, and fills all its placeholders exactly if they fit
into their windows. -/
theorem emitted_fills (hL : brackets.Entries L) (hvals : ∀ e ∈ L, brackets.Plain e.2) (t : Text) :
    ∃ k, Delims.Fills L k t (emitted L t) ∧ (k = Delims.slotCount L t ↔ Fits L t) := by
  induction t using window_induction with
  | nil =>
    refine ⟨0, .nil, ?_⟩
    rw [Delims.slotCount_nil]
    refine iff_of_true rfl ?_
    intro a e b he hnil
    have := (append_eq_nil_iff.1 (append_eq_nil_iff.1 hnil.symm).2).1
    exact absurd this (hL.slots e he).ne_nil
  | plain c t hc ih =>
    obtain ⟨k, hfills, hk⟩ := ih
    have hnot : ∀ e ∈ L, ¬ e.1 <+: c :: t := fun e he => (hL.slots e he).not_prefix_cons hc
    have hemitted : emitted L (c :: t) = c :: emitted L t := by
      unfold emitted held
      rw [chars_plain hc]
      rfl
    have hfits : Fits L (c :: t) ↔ Fits L t := by
      refine (fits_append (restarts_plain hc)).trans (and_iff_right ?_)
      intro a b hab hb e he hpre
      obtain ⟨b, hnil, rfl⟩ := exists_init (q := []) hab hb
      obtain ⟨rfl, rfl⟩ := append_eq_nil_iff.1 hnil.symm
      exact absurd hpre (hnot e he)
    rw [hemitted, Delims.slotCount_char hnot, hfits]
    exact ⟨k, .char c hfills, hk⟩
  | closed q t hq ih =>
    obtain ⟨k, hfills, hk⟩ := ih
    have hemitted : emitted L (q ++ ']' :: t) = Delims.fill L (q ++ [']']) ++ emitted L t := by
      unfold emitted held
      rw [chars_closed hq, ← restore_window hL hvals hq, append_assoc]
      rfl
    have hcount : Delims.slotCount L (q ++ ']' :: t) =
        Delims.slotCount L (q ++ [']']) + Delims.slotCount L t :=
      Delims.slotCount_append_cl hL q t
    have hwindow := (Delims.fills_fill hL (q ++ [']'])).append hfills
    rw [append_assoc] at hwindow
    refine ⟨_, hemitted ▸ hwindow, ?_⟩
    rw [fits_closed hL hq, ← hk]
    omega
  | bailed q c t hq hc hlen ih =>
    obtain ⟨k, hfills, hk⟩ := ih
    have hemitted : emitted L (q ++ c :: t) = q ++ c :: emitted L t := by
      unfold emitted held
      rw [chars_bailed hq hc hlen, append_assoc]
      rfl
    have happ : q ++ c :: t = q ++ [c] ++ t := by simp
    have hle := hfills.le_slotCount hL
    have hle' := Delims.slotCount_le_append L (q ++ [c]) t
    refine ⟨k, hemitted ▸ (hfills.char c).append_left q, ?_⟩
    rw [happ, fits_bailed hL hq hc hlen, ← hk]
    omega
  | unclosed q hq =>
    have hemitted : emitted L q = q := by
      unfold emitted held
      rw [chars_unclosed hq]
      rfl
    refine ⟨0, hemitted.symm ▸ .refl L q, ?_⟩
    rw [Delims.slotCount_of_cl_notMem hL hq.noClose]
    refine iff_of_true rfl ?_
    intro a e b he hab
    have hmem : ']' ∈ e.1 := (hL.slots e he).cl_mem
    exact absurd (hab ▸ mem_append_right a (mem_append_left b hmem)) hq.noClose

end OnePass

/-! ## The stream and the whole text -/

theorem run_eq_emitted (hL : L ≠ []) (pieces : List Text) :
    (new L .exact).run pieces = emitted L pieces.flatten := by
  unfold run
  rw [pushAll_eq, push_entries hL]
  rfl

theorem entries_storeAll {style : PlaceholderTemplate} {pairs : List (Text × Text)}
    (hnames : ∀ e ∈ pairs, brackets.Plain e.1) (hvals : ∀ e ∈ pairs, brackets.Plain e.2)
    (hL : L.Perm ((LocalVault.withStyle style).storeAll pairs).entryList) :
    brackets.Entries L ∧ ∀ e ∈ L, brackets.Plain e.2 := by
  have hstored : ∀ e ∈ L, ∃ entity idx, (entity, e.2) ∈ pairs ∧ e.1 = style.format entity idx :=
    fun e he => LocalVault.of_get_storeAll (LocalVault.mem_entryList.1 (hL.subset he))
  refine ⟨⟨?_, ?_⟩, ?_⟩
  · intro e he
    obtain ⟨entity, idx, hmem, hformat⟩ := hstored e he
    rw [hformat]
    exact isSlot_format style (hnames _ hmem) idx
  · exact (hL.map Prod.fst).nodup_iff.2 (LocalVault.nodup_entryList _)
  · intro e he
    obtain ⟨entity, idx, hmem, -⟩ := hstored e he
    exact hvals (entity, e.2) hmem

/-- **When a stream is restored like the whole text**: for every vault and order of its entries,
every text and every way to cut it. -/
theorem run_eq_restore_iff (style : PlaceholderTemplate) {pairs L : List (Text × Text)}
    (hnames : ∀ e ∈ pairs, brackets.Plain e.1) (hvals : ∀ e ∈ pairs, brackets.Plain e.2)
    (hL : L.Perm ((LocalVault.withStyle style).storeAll pairs).entryList) (pieces : List Text) :
    (new L .exact).run pieces = Exact.restore pieces.flatten L ↔
      Fits L pieces.flatten ∧ Delims.NoNewSlots pieces.flatten L := by
  obtain ⟨hentries, hplain⟩ := entries_storeAll hnames hvals hL
  by_cases hempty : L = []
  · subst hempty
    refine iff_of_true ?_ ⟨fun a e b he => absurd he not_mem_nil, trivial⟩
    unfold run
    rw [pushAll_eq]
    exact append_nil _
  · obtain ⟨k, hfills, hk⟩ := emitted_fills hentries hplain pieces.flatten
    rw [run_eq_emitted hempty, restore_eq_replaceAll fun e he => (hentries.slots e he).ne_nil,
      hfills.eq_replaceAll_iff hentries hplain, hk]

/-! ## Between the calls -/

/-- The machine after some calls of `push` and `flush`. -/
inductive Reachable (L : List (Text × Text)) (strategy : MatchingStrategy) :
    DeanonymizeStream → Prop
  | new : Reachable L strategy (new L strategy)
  | push {d : DeanonymizeStream} (h : Reachable L strategy d) (text : Text) :
      Reachable L strategy (d.push text).1
  | flush {d : DeanonymizeStream} (h : Reachable L strategy d) : Reachable L strategy d.flush.1

section Calls

variable {L : List (Text × Text)} {strategy : MatchingStrategy} {d : DeanonymizeStream}

/-- **Between two calls the machine is where it started, or it holds back a window.** -/
theorem Reachable.state (h : Reachable L strategy d) : d = DeanonymizeStream.new L strategy ∨
    ∃ q, IsWindow q ∧ d = ⟨.inPlaceholder, q, L, strategy⟩ := by
  induction h with
  | new => exact .inl rfl
  | flush _ ih =>
    rcases ih with rfl | ⟨q, -, rfl⟩
    · exact .inl rfl
    · exact .inl rfl
  | @push d _ text ih =>
    -- a window is what the machine holds after reading it from the start
    obtain ⟨front, hfront⟩ : ∃ front, d = ((DeanonymizeStream.new L strategy).chars front).1 := by
      rcases ih with rfl | ⟨q, hq, rfl⟩
      · exact ⟨[], rfl⟩
      · exact ⟨q, by rw [chars_unclosed hq]⟩
    have happ := chars_append (DeanonymizeStream.new L strategy) front text
    dsimp only at happ
    rw [← hfront] at happ
    unfold DeanonymizeStream.push
    split
    · exact ih
    · have hstate := @chars_state L strategy (front ++ text)
      rw [happ] at hstate
      exact hstate

theorem Reachable.pending (h : Reachable L strategy d) :
    d.pending = [] ∨ (∃ r, d.pending = '[' :: r) ∧ ']' ∉ d.pending ∧ Str.len d.pending < 64 := by
  rcases h.state with rfl | ⟨q, hq, rfl⟩
  · exact .inl rfl
  · exact .inr ⟨hq.opens, hq.noClose, hq.short⟩

end Calls

theorem restore_of_absent (h : ∀ e ∈ L, ¬ e.1 <:+: t) : Exact.restore t L = t := by
  unfold Exact.restore
  induction L with
  | nil => rfl
  | cons e L ih =>
    have hcontains : Str.contains t e.1 = false :=
      decide_eq_false (h e mem_cons_self)
    rw [foldl_cons, if_neg (by rw [hcontains]; exact Bool.false_ne_true)]
    exact ih (forall_mem_cons.1 h).2

theorem emitted_of_absent (h : ∀ e ∈ L, ¬ e.1 <:+: t) : emitted L t = t := by
  unfold emitted held
  induction t using window_induction with
  | nil => rfl
  | plain c t hc ih =>
    rw [chars_plain hc]
    exact congrArg (c :: ·) (ih fun e he hin => h e he (hin.trans (suffix_cons c t).isInfix))
  | closed q t hq ih =>
    have hsplit : q ++ ']' :: t = q ++ [']'] ++ t := by simp
    have hwindow : Exact.restore (q ++ [']']) L = q ++ [']'] := by
      refine restore_of_absent fun e he hin => h e he ?_
      rw [hsplit]
      exact hin.trans (prefix_append _ t).isInfix
    have hrest := ih fun e he hin => h e he (hsplit ▸ hin.trans (suffix_append _ t).isInfix)
    rw [chars_closed hq]
    change Exact.restore (q ++ [']']) L ++ _ ++ _ = _
    rw [hwindow, append_assoc, hrest, hsplit]
  | bailed q c t hq hc hlen ih =>
    have hsplit : q ++ c :: t = q ++ [c] ++ t := by simp
    have hrest := ih fun e he hin => h e he (hsplit ▸ hin.trans (suffix_append _ t).isInfix)
    rw [chars_bailed hq hc hlen]
    rw [append_assoc, cons_append, hrest]
  | unclosed q hq =>
    rw [chars_unclosed hq]
    rfl

/-- **The stream is well behaved**: what it emits does not depend on the cuts, what it holds back is
an open bracket with fewer than 64 bytes, and a text without placeholders comes out as it went in.
-/
theorem stream_well_behaved (L : List (Text × Text)) (strategy : MatchingStrategy) :
    (∀ pieces pieces' : List Text, pieces.flatten = pieces'.flatten →
      (new L strategy).run pieces = (new L strategy).run pieces') ∧
    (∀ d, Reachable L strategy d → d.pending = [] ∨
      (∃ r, d.pending = '[' :: r) ∧ ']' ∉ d.pending ∧ Str.len d.pending < 64) ∧
    ∀ pieces : List Text, (∀ e ∈ L, ¬ e.1 <:+: pieces.flatten) →
      (new L .exact).run pieces = pieces.flatten := by
  refine ⟨fun pieces pieces' hsame => ?_, fun d hd => hd.pending, fun pieces habsent => ?_⟩
  · unfold run
    rw [pushAll_eq, pushAll_eq, hsame]
  by_cases hempty : L = []
  · subst hempty
    unfold run
    rw [pushAll_eq]
    exact append_nil _
  · rw [run_eq_emitted hempty, emitted_of_absent habsent]

section Examples

def addressVault : LocalVault :=
  (LocalVault.withStyle .llmGuard).storeAll [("EMAIL".toList, "a@b.co".toList)]

theorem run_eq_restore_iff_address :
    (new addressVault.entryList .exact).run ["to [REDACTED_".toList, "EMAIL_1]".toList] =
        Exact.restore "to [REDACTED_EMAIL_1]".toList addressVault.entryList ↔
      Fits addressVault.entryList "to [REDACTED_EMAIL_1]".toList ∧
        Delims.NoNewSlots "to [REDACTED_EMAIL_1]".toList addressVault.entryList :=
  run_eq_restore_iff .llmGuard (by decide) (by decide) (List.Perm.refl _)
    ["to [REDACTED_".toList, "EMAIL_1]".toList]

/-- Brackets that are no placeholder, in two pieces. -/
theorem stream_well_behaved_brackets :
    (∀ e ∈ addressVault.entryList, ¬ e.1 <:+: "see [1] and [2".toList) ∧
      (new addressVault.entryList .exact).run ["see [".toList, "1] and [2".toList] =
        "see [1] and [2".toList := by
  have habsent : ∀ e ∈ addressVault.entryList, ¬ e.1 <:+: "see [1] and [2".toList := by decide
  exact ⟨habsent, (stream_well_behaved addressVault.entryList .exact).2.2
    ["see [".toList, "1] and [2".toList] habsent⟩

/-- A bracket that is not closed, and 60 characters later a placeholder: the window is given up in
its middle. -/
theorem open_bracket_hides_placeholder :
    let text := '[' :: List.replicate 60 'x' ++ "[REDACTED_EMAIL_1]".toList
    (new addressVault.entryList .exact).run [text] = text ∧
      Exact.restore text addressVault.entryList =
        '[' :: List.replicate 60 'x' ++ "a@b.co".toList := by
  decide +kernel

end Examples

end DeanonymizeStream

end Nanoguard.Guard

import Mathlib.Data.Option.Basic
import Nanoguard.Lib.Rewrite
import Nanoguard.Lib.Utf8

/-!
# Replacing byte ranges

The loop of `rewriteRev` with offsets in bytes, as `String::replace_range` takes them: a range that is
reversed, out of range or inside a character stops the loop. On aligned spans it never stops, and
`RewritesBytes` describes what it leaves.
-/

namespace Nanoguard

open List

open Utf8 (IsBoundary)

variable {σ γ : Type} {spans : List (Nat × Nat)}

/-- `String::replace_range`, `none` where it panics. -/
def replaceBytes (t : Text) (s e : Nat) (p : Text) : Option Text := do
  guard (s ≤ e)
  let before ← Utf8.sliceTo t s
  let after ← Utf8.sliceFrom t e
  return before ++ (p ++ after)

def rewriteSpanBytes (subst : σ → γ → σ × Text) (acc : σ × Text) (m : Nat × Nat × γ) :
    Option (σ × Text) :=
  let q := subst acc.1 m.2.2
  (replaceBytes acc.2 m.1 m.2.1 q.2).map (q.1, ·)

/-- Replace the spans of `t` from the last to the first. -/
def rewriteRevBytes (subst : σ → γ → σ × Text) (spans : List (Nat × Nat × γ)) (st : σ) (t : Text) :
    Option (σ × Text) :=
  spans.reverse.foldlM (rewriteSpanBytes subst) (st, t)

/-- Spans in order, without overlap, that start and end between two characters. -/
structure AlignedSpans (lo : Nat) (t : Text) (spans : List (Nat × Nat)) : Prop where
  ascending : SpansIn lo (Str.len t) spans
  aligned : ∀ span ∈ spans, IsBoundary t span.1 ∧ IsBoundary t span.2

/-- `RewritesBytes subst pos st t spans st' t'`: `t'` is the text `t`, which starts at byte `pos`, with
each span replaced and everything between the spans kept. The state flows from the last span to the
first. -/
inductive RewritesBytes (subst : σ → γ → σ × Text) :
    Nat → σ → Text → List (Nat × Nat × γ) → σ → Text → Prop
  | nil {pos : Nat} {st : σ} {t : Text} : RewritesBytes subst pos st t [] st t
  | cons {pos : Nat} {st st' : σ} {g m t t' : Text} {v : γ} {spans : List (Nat × Nat × γ)}
      (h : RewritesBytes subst (pos + Str.len g + Str.len m) st t spans st' t') :
      RewritesBytes subst pos st (g ++ (m ++ t))
        ((pos + Str.len g, pos + Str.len g + Str.len m, v) :: spans)
        (subst st' v).1 (g ++ ((subst st' v).2 ++ t'))

/-- The matches of an expression with their offsets in bytes. -/
def Regex.byteMatches (re : Regex) (t : Text) : List (Nat × Nat × Text) :=
  (re.findIter t).map fun s => (Str.len (t.take s.1), Str.len (t.take s.2), slice t s.1 s.2)

/-! ## The loop on aligned spans -/

theorem replaceBytes_middle (a m b p : Text) :
    replaceBytes (a ++ (m ++ b)) (Str.len a) (Str.len a + Str.len m) p = some (a ++ (p ++ b)) := by
  have hafter : Utf8.sliceFrom (a ++ (m ++ b)) (Str.len a + Str.len m) = some b := by
    rw [← append_assoc, ← Utf8.len_append, Utf8.sliceFrom_len]
  unfold replaceBytes
  rw [Utf8.sliceTo_len, hafter]
  simp

theorem exists_split_of_boundary {a t : Text} {i : Nat} (h : IsBoundary (a ++ t) i)
    (ha : Str.len a ≤ i) : ∃ g b, t = g ++ b ∧ i = Str.len a + Str.len g := by
  obtain ⟨x, y, hxy, rfl⟩ := h
  rcases append_eq_append_iff.1 hxy with ⟨g, rfl, rfl⟩ | ⟨d, rfl, rfl⟩
  · exact ⟨g, y, rfl, Utf8.len_append a g⟩
  · refine ⟨[], t, rfl, ?_⟩
    rw [Utf8.len_append] at ha ⊢
    exact Nat.le_antisymm (by omega) ha

/-- **Right to left is single pass**: no step of the loop panics, the text before the first span stays
and the rest is rewritten span by span. -/
theorem rewriteRevBytes_rewrites (subst : σ → γ → σ × Text) (st : σ)
    (spans : List (Nat × Nat × γ)) :
    ∀ a t : Text, AlignedSpans (Str.len a) (a ++ t) (spans.map fun m => (m.1, m.2.1)) →
      ∃ st' t', rewriteRevBytes subst spans st (a ++ t) = some (st', a ++ t') ∧
        RewritesBytes subst (Str.len a) st t spans st' t' := by
  induction spans with
  | nil => intro a t _; exact ⟨st, t, rfl, .nil⟩
  | cons span spans ih =>
    obtain ⟨s, e, v⟩ := span
    rintro a t ⟨⟨h₁, h₂, -, h₄⟩, haligned⟩
    obtain ⟨hs, he⟩ := haligned _ mem_cons_self
    obtain ⟨g, b, rfl, rfl⟩ := exists_split_of_boundary hs h₁
    rw [← append_assoc] at he
    obtain ⟨m, t₁, rfl, rfl⟩ := exists_split_of_boundary he (by rw [Utf8.len_append]; exact h₂)
    have hassoc : ((a ++ g) ++ m) ++ t₁ = a ++ (g ++ (m ++ t₁)) := by simp
    have hrest : AlignedSpans (Str.len ((a ++ g) ++ m)) (((a ++ g) ++ m) ++ t₁)
        (spans.map fun m => (m.1, m.2.1)) := by
      rw [hassoc, Utf8.len_append]
      exact ⟨h₄, (forall_mem_cons.1 haligned).2⟩
    obtain ⟨st', t', hrev, hrew⟩ := ih ((a ++ g) ++ m) t₁ hrest
    rw [Utf8.len_append, Utf8.len_append] at hrew
    rw [hassoc] at hrev
    rw [Utf8.len_append]
    refine ⟨_, _, ?_, .cons hrew⟩
    unfold rewriteRevBytes at hrev ⊢
    rw [reverse_cons, foldlM_append, hrev]
    -- the first span is cut out of the text that the later ones left
    have hstep := replaceBytes_middle (a ++ g) m t' (subst st' v).2
    rw [Utf8.len_append] at hstep
    simp only [Option.bind_eq_bind, Option.bind_some, foldlM_cons, rewriteSpanBytes,
      append_assoc (a ++ g) m t', hstep]
    simp

/-! ## Matches of an expression -/

theorem replaceBytes_take {w : Text} {s e : Nat} (h : s ≤ e) (p : Text) :
    replaceBytes w (Str.len (w.take s)) (Str.len (w.take e)) p = some (replaceRange w s e p) := by
  have hbefore := Utf8.sliceTo_len (w.take s) (w.drop s)
  have hafter := Utf8.sliceFrom_len (w.take e) (w.drop e)
  rw [take_append_drop] at hbefore hafter
  unfold replaceBytes
  rw [hbefore, hafter]
  simp [Utf8.len_take_mono w h, replaceRange]

theorem SpansIn.concat_inv {lo n s e : Nat} (h : SpansIn lo n (spans ++ [(s, e)])) :
    SpansIn lo s spans ∧ s ≤ e ∧ e ≤ n ∧ lo ≤ s := by
  induction spans generalizing lo with
  | nil => exact ⟨trivial, h.2.1, h.2.2.1, h.1⟩
  | cons span spans ih =>
    obtain ⟨h₁, h₂, -, h₄⟩ := h
    obtain ⟨hspans, hse, hen, hlo⟩ := ih h₄
    exact ⟨⟨h₁, h₂, hlo, hspans⟩, hse, hen, by omega⟩

/-- Offsets in bytes and in characters give the same loop: what it has rewritten lies behind the
spans that are left. -/
theorem rewriteRevBytes_eq (subst : σ → γ → σ × Text) (v : Nat × Nat → γ) (t : Text)
    (spans : List (Nat × Nat)) :
    ∀ (n : Nat) (st : σ) (w : Text), SpansIn 0 n spans → n ≤ w.length → w.take n = t.take n →
      rewriteRevBytes subst
          (spans.map fun s => (Str.len (t.take s.1), Str.len (t.take s.2), v s)) st w =
        some (rewriteRev subst (spans.map fun s => (s.1, s.2, v s)) st w) := by
  induction spans using List.reverseRecOn with
  | nil => intro n st w _ _ _; rfl
  | append_singleton spans span ih =>
    obtain ⟨s, e⟩ := span
    intro n st w hspans hn hw
    obtain ⟨hinit, hse, hen, -⟩ := hspans.concat_inv
    have htake (i : Nat) (hi : i ≤ n) : t.take i = w.take i := by
      have := congrArg (List.take i) hw
      rw [take_take, take_take, Nat.min_eq_left hi] at this
      exact this.symm
    have hlen : (w.take s).length = s := length_take_of_le (by omega)
    rcases hp : subst st (v (s, e)) with ⟨st', p⟩
    have hrest := ih s st' (replaceRange w s e p) hinit
      (by rw [replaceRange, length_append]; omega)
      (by rw [replaceRange, take_left' hlen, htake s (by omega)])
    have hbytes : rewriteSpanBytes subst (st, w)
        (Str.len (t.take s), Str.len (t.take e), v (s, e)) = some (st', replaceRange w s e p) := by
      simp only [rewriteSpanBytes, hp, htake s (by omega), htake e hen, replaceBytes_take hse,
        Option.map_some]
    have hchars : rewriteSpan subst (st, w) (s, e, v (s, e)) = (st', replaceRange w s e p) := by
      simp only [rewriteSpan, hp]
    unfold rewriteRevBytes rewriteRev at hrest ⊢
    simp only [map_append, map_cons, map_nil, List.reverse_append,
      reverse_singleton, singleton_append, foldlM_cons, foldl_cons, hbytes, hchars]
    exact hrest

variable (re : Regex) (t : Text)

theorem rewriteRevBytes_matches (subst : σ → Text → σ × Text) (st : σ) :
    rewriteRevBytes subst (re.byteMatches t) st t = some (rewriteRev subst (re.matches t) st t) :=
  rewriteRevBytes_eq subst (fun s => slice t s.1 s.2) t _ t.length st t (re.spans_ok t)
    (Nat.le_refl _) rfl

theorem SpansIn.len_take {lo n : Nat} (h : SpansIn lo n spans) :
    SpansIn (Str.len (t.take lo)) (Str.len t)
      (spans.map fun s => (Str.len (t.take s.1), Str.len (t.take s.2))) := by
  induction spans generalizing lo with
  | nil => trivial
  | cons span spans ih =>
    exact ⟨Utf8.len_take_mono t h.1, Utf8.len_take_mono t h.2.1, (Utf8.isBoundary_take t _).le_len,
      ih h.2.2.2⟩

theorem Regex.byteMatches_aligned :
    AlignedSpans 0 t ((re.byteMatches t).map fun m => (m.1, m.2.1)) := by
  unfold Regex.byteMatches
  rw [map_map]
  refine ⟨(re.spans_ok t).len_take t, fun span hspan => ?_⟩
  obtain ⟨s, -, rfl⟩ := mem_map.1 hspan
  exact ⟨Utf8.isBoundary_take t _, Utf8.isBoundary_take t _⟩

end Nanoguard

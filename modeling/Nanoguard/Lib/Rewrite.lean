import Mathlib.Data.List.Induction
import Nanoguard.Lib.Fence
import Nanoguard.Lib.RegexSyntax

/-!
# Rewriting spans of a text

A loop that replaces the spans of a text from the last to the first, threading a state through
the replacements (`rewriteRev`), and a left to right replacement without state (`replaceFrom`).
`Rewrites` describes both without positions.
-/

namespace Nanoguard

open List

variable {σ β γ : Type}

def slice (t : List β) (s e : Nat) : List β := (t.drop s).take (e - s)

def replaceRange (t : List β) (s e : Nat) (p : List β) : List β := t.take s ++ (p ++ t.drop e)

def rewriteSpan (subst : σ → γ → σ × List β) (acc : σ × List β) (m : Nat × Nat × γ) :
    σ × List β :=
  let q := subst acc.1 m.2.2
  (q.1, replaceRange acc.2 m.1 m.2.1 q.2)

/-- Replace the spans of `t` from the last to the first. Each span comes with its value. -/
def rewriteRev (subst : σ → γ → σ × List β) (spans : List (Nat × Nat × γ)) (st : σ)
    (t : List β) : σ × List β :=
  spans.reverse.foldl (rewriteSpan subst) (st, t)

/-- Replace the spans of the text `t`, which starts at `pos`, from the first to the last. -/
def replaceFrom (f : Nat × Nat → List β) : Nat → List (Nat × Nat) → List β → List β
  | _, [], t => t
  | pos, (s, e) :: spans, t =>
    t.take (s - pos) ++ (f (s, e) ++ replaceFrom f e spans (t.drop (e - pos)))

def Regex.matches (re : Regex) (t : Text) : List (Nat × Nat × Text) :=
  (re.findIter t).map fun s => (s.1, s.2, slice t s.1 s.2)

/-- Replace every match by the template, with its capture references filled in. -/
def Regex.replaceAll (re : Regex) (t template : Text) : Text :=
  replaceFrom (fun span => expand (re.capture t span) template) 0 (re.findIter t) t

/-- `Rewrites subst val pos st t spans st' t'`: replacing `spans` in the text `t`, which starts at
`pos`, takes the state `st` to `st'` and the text to `t'`. -/
inductive Rewrites (subst : σ → γ → σ × List β) (val : List β → γ) :
    Nat → σ → List β → List (Nat × Nat) → σ → List β → Prop
  | nil {pos : Nat} {st : σ} {t : List β} : Rewrites subst val pos st t [] st t
  | cons {pos : Nat} {st st' : σ} {g m t t' : List β} {spans : List (Nat × Nat)}
      (h : Rewrites subst val (pos + g.length + m.length) st t spans st' t') :
      Rewrites subst val pos st (g ++ (m ++ t))
        ((pos + g.length, pos + g.length + m.length) :: spans)
        (subst st' (val m)).1 (g ++ ((subst st' (val m)).2 ++ t'))

theorem Rewrites.mem {subst : σ → γ → σ × List β} {val : List β → γ} {pos : Nat} {st st' : σ}
    {t t' : List β} {spans : List (Nat × Nat)} (h : Rewrites subst val pos st t spans st' t') {c : β}
    (hc : c ∈ t') : c ∈ t ∨ ∃ st v, c ∈ (subst st v).2 := by
  induction h with
  | nil => exact .inl hc
  | cons _ ih =>
    simp only [mem_append] at hc ⊢
    rcases hc with hgap | hnew | hrest
    · exact .inl (.inl hgap)
    · exact .inr ⟨_, _, hnew⟩
    · exact (ih hrest).imp (fun hold => .inr (.inr hold)) id

/-! ## Composing rewritings -/

namespace Rewrites

variable {subst : σ → γ → σ × List β} {val : List β → γ} {pos : Nat} {st st' st'' : σ}
  {t t' : List β} {spans : List (Nat × Nat)}

theorem nil_inv (h : Rewrites subst val pos st t [] st' t') : st' = st ∧ t' = t := by
  cases h with
  | nil => exact ⟨rfl, rfl⟩

theorem cons_inv {g m : List β} (h : Rewrites subst val pos st (g ++ (m ++ t))
      ((pos + g.length, pos + g.length + m.length) :: spans) st' t') :
    ∃ st₁ t₁, Rewrites subst val (pos + g.length + m.length) st t spans st₁ t₁ ∧
      st' = (subst st₁ (val m)).1 ∧ t' = g ++ ((subst st₁ (val m)).2 ++ t₁) := by
  generalize htext : g ++ (m ++ t) = text at h
  generalize hs : pos + g.length = s at h
  generalize he : s + m.length = e at h
  cases h with
  | cons hrest =>
    obtain ⟨rfl, hmt⟩ := append_inj htext (by omega)
    obtain ⟨rfl, rfl⟩ := append_inj hmt (by omega)
    exact ⟨_, _, hrest, rfl, rfl⟩

theorem congr {τ : Type} {subst' : τ → γ → τ × List β} {R : σ → τ → Prop}
    (hstep : ∀ st st' v, R st st' →
      R (subst st v).1 (subst' st' v).1 ∧ (subst st v).2 = (subst' st' v).2)
    {st₀ st₁ : τ} {t₁ : List β} (hst : R st st₀) (h : Rewrites subst val pos st t spans st' t')
    (h' : Rewrites subst' val pos st₀ t spans st₁ t₁) : R st' st₁ ∧ t' = t₁ := by
  induction h generalizing t₁ st₁ with
  | nil =>
    obtain ⟨rfl, rfl⟩ := h'.nil_inv
    exact ⟨hst, rfl⟩
  | cons _ ih =>
    obtain ⟨st₂, t₂, hrest, rfl, rfl⟩ := h'.cons_inv
    obtain ⟨hR, rfl⟩ := ih hst hrest
    obtain ⟨hR', heq⟩ := hstep _ _ _ hR
    exact ⟨hR', by rw [heq]⟩

theorem unique {t'' : List β} (h : Rewrites subst val pos st t spans st' t')
    (h' : Rewrites subst val pos st t spans st'' t'') : st' = st'' ∧ t' = t'' :=
  congr (R := Eq) (fun _ _ _ heq => by rw [heq]; exact ⟨rfl, rfl⟩) rfl h h'

theorem gap (a : List β) (h : Rewrites subst val (pos + a.length) st t spans st' t') :
    Rewrites subst val pos st (a ++ t) spans st' (a ++ t') := by
  generalize hpos : pos + a.length = p at h
  cases h with
  | nil => exact .nil
  | @cons _ _ _ g m t t' spans hrest =>
    subst hpos
    have hlen : pos + (a ++ g).length = pos + a.length + g.length := by
      rw [length_append, Nat.add_assoc]
    rw [← hlen] at hrest ⊢
    rw [← append_assoc a g (m ++ t), ← append_assoc a g (_ ++ t')]
    exact .cons hrest

theorem append {x x' y y' : List β} {spansX spansY : List (Nat × Nat)}
    (hx : Rewrites subst val pos st' x spansX st'' x')
    (hy : Rewrites subst val (pos + x.length) st y spansY st' y') :
    Rewrites subst val pos st (x ++ y) (spansX ++ spansY) st'' (x' ++ y') := by
  induction hx with
  | nil => exact gap _ hy
  | @cons pos st' st'' g m t t' spans _ ih =>
    have hlen : pos + (g ++ (m ++ t)).length = pos + g.length + m.length + t.length := by
      simp only [length_append]
      omega
    rw [hlen] at hy
    have hcons := Rewrites.cons (ih hy)
    simp only [append_assoc]
    exact hcons

theorem shift (k : Nat) (h : Rewrites subst val pos st t spans st' t') :
    Rewrites subst val (k + pos) st t (spans.map (shiftSpan k)) st' t' := by
  induction h with
  | nil => exact .nil
  | cons _ ih =>
    simp only [← Nat.add_assoc] at ih
    simp only [map_cons, shiftSpan, ← Nat.add_assoc]
    exact .cons ih

end Rewrites

theorem exists_split_of_span {pos s e : Nat} {t : List β} (h₁ : pos ≤ s) (h₂ : s ≤ e)
    (h₃ : e ≤ pos + t.length) :
    ∃ g m t₁, t = g ++ (m ++ t₁) ∧ s = pos + g.length ∧ e = pos + g.length + m.length := by
  refine ⟨t.take (s - pos), (t.drop (s - pos)).take (e - s), t.drop (e - pos), ?_, ?_, ?_⟩
  · rw [show e - pos = (s - pos) + (e - s) by omega, ← drop_drop, take_append_drop,
      take_append_drop]
  · rw [length_take]
    omega
  · rw [length_take, length_take, length_drop]
    omega

theorem slice_middle (a m b : List β) :
    slice (a ++ (m ++ b)) a.length (a.length + m.length) = m := by
  unfold slice
  rw [drop_left, Nat.add_sub_cancel_left, take_left]

theorem replaceRange_middle (a m b p : List β) :
    replaceRange (a ++ (m ++ b)) a.length (a.length + m.length) p = a ++ (p ++ b) := by
  unfold replaceRange
  rw [take_left, ← append_assoc a m b, ← length_append, drop_left]

/-- **Right to left is single pass**: the loop leaves the text before the first span alone and
rewrites the rest span by span. -/
theorem rewriteRev_rewrites (subst : σ → γ → σ × List β) (val : List β → γ) (st : σ)
    (spans : List (Nat × Nat)) :
    ∀ (a t : List β), SpansIn a.length (a.length + t.length) spans →
      ∃ st' t', rewriteRev subst (spans.map fun s => (s.1, s.2, val (slice (a ++ t) s.1 s.2))) st
          (a ++ t) = (st', a ++ t') ∧
        Rewrites subst val a.length st t spans st' t' := by
  induction spans with
  | nil => intro a t _; exact ⟨st, t, rfl, .nil⟩
  | cons span spans ih =>
    obtain ⟨s, e⟩ := span
    rintro a t ⟨h₁, h₂, h₃, h₄⟩
    obtain ⟨g, m, t₁, rfl, rfl, rfl⟩ := exists_split_of_span h₁ h₂ h₃
    have hlen : ((a ++ g) ++ m).length = a.length + g.length + m.length := by
      simp only [length_append]
    obtain ⟨st', t', hrev, hrew⟩ := ih ((a ++ g) ++ m) t₁ (by
      simpa [Nat.add_assoc] using h₄)
    have hassoc : ((a ++ g) ++ m) ++ t₁ = a ++ (g ++ (m ++ t₁)) := by simp
    rw [hassoc] at hrev
    rw [hlen] at hrew
    refine ⟨_, _, ?_, .cons hrew⟩
    have hsplit : a ++ (g ++ (m ++ t₁)) = (a ++ g) ++ (m ++ t₁) := by simp
    have hval : slice (a ++ (g ++ (m ++ t₁))) (a.length + g.length)
        (a.length + g.length + m.length) = m := by
      rw [hsplit, ← length_append, slice_middle]
    unfold rewriteRev at hrev ⊢
    rw [map_cons, reverse_cons, foldl_append, hrev]
    simp only [foldl_cons, foldl_nil, rewriteSpan, hval]
    rw [append_assoc (a ++ g) m t', ← length_append, replaceRange_middle, append_assoc]

theorem replaceFrom_rewrites (f : γ → List β) (val : List β → γ) (g : Nat × Nat → List β)
    (spans : List (Nat × Nat)) :
    ∀ (a t : List β), SpansIn a.length (a.length + t.length) spans →
      (∀ s ∈ spans, g s = f (val (slice (a ++ t) s.1 s.2))) →
      Rewrites (fun (_ : Unit) v => ((), f v)) val a.length () t spans ()
        (replaceFrom g a.length spans t) := by
  induction spans with
  | nil => intro a t _ _; exact .nil
  | cons span spans ih =>
    obtain ⟨s, e⟩ := span
    rintro a t ⟨h₁, h₂, h₃, h₄⟩ hg
    obtain ⟨g₀, m, t₁, rfl, rfl, rfl⟩ := exists_split_of_span h₁ h₂ h₃
    have hlen : ((a ++ g₀) ++ m).length = a.length + g₀.length + m.length := by
      simp only [length_append]
    have hassoc : ((a ++ g₀) ++ m) ++ t₁ = a ++ (g₀ ++ (m ++ t₁)) := by simp
    have hrest := ih ((a ++ g₀) ++ m) t₁ (by
      simpa [Nat.add_assoc] using h₄) (by
      intro s hs
      rw [hassoc]
      exact hg s (mem_cons_of_mem _ hs))
    rw [hlen] at hrest
    have hval : g (a.length + g₀.length, a.length + g₀.length + m.length) = f (val m) := by
      rw [hg _ mem_cons_self]
      rw [← append_assoc a g₀, ← length_append, slice_middle]
    simp only [replaceFrom, hval]
    rw [show a.length + g₀.length - a.length = g₀.length by omega, take_left,
      show a.length + g₀.length + m.length - a.length = (g₀ ++ m).length by
        simp only [length_append]; omega,
      ← append_assoc g₀ m t₁, drop_left, append_assoc g₀ m t₁]
    exact .cons hrest

section Map

variable {β' : Type} (f : β → β')

theorem slice_map (t : List β) (s e : Nat) : slice (t.map f) s e = (slice t s e).map f := by
  unfold slice
  rw [map_take, map_drop]

theorem replaceRange_map (t p : List β) (s e : Nat) :
    replaceRange (t.map f) s e (p.map f) = (replaceRange t s e p).map f := by
  unfold replaceRange
  rw [map_append, map_append, map_take, map_drop]

theorem rewriteRev_map {subst : σ → γ → σ × List β} {subst' : σ → γ → σ × List β'}
    (h : ∀ st v, subst' st v = ((subst st v).1, (subst st v).2.map f))
    (spans : List (Nat × Nat × γ)) (st : σ) (t : List β) :
    rewriteRev subst' spans st (t.map f) =
      ((rewriteRev subst spans st t).1, (rewriteRev subst spans st t).2.map f) := by
  unfold rewriteRev
  induction spans.reverse generalizing st t with
  | nil => rfl
  | cons span spans ih =>
    have hspan : rewriteSpan subst' (st, t.map f) span =
        ((rewriteSpan subst (st, t) span).1, (rewriteSpan subst (st, t) span).2.map f) := by
      simp only [rewriteSpan, h, replaceRange_map]
    rw [foldl_cons, hspan]
    exact ih _ _

theorem replaceFrom_map {g : Nat × Nat → List β} {g' : Nat × Nat → List β'}
    (h : ∀ span, g' span = (g span).map f) (spans : List (Nat × Nat)) (pos : Nat) (t : List β) :
    replaceFrom g' pos spans (t.map f) = (replaceFrom g pos spans t).map f := by
  induction spans generalizing pos t with
  | nil => rfl
  | cons span spans ih =>
    simp only [replaceFrom, h, map_append, ← ih, map_take, map_drop]

end Map

theorem infix_side_of_not_mem {a x b g r : List β} {c : β} (h : a ++ (x ++ b) = g ++ c :: r)
    (hc : c ∉ x) :
    (∃ v, g = a ++ (x ++ v) ∧ b = v ++ c :: r) ∨ ∃ a', a = g ++ c :: a' ∧ r = a' ++ (x ++ b) := by
  rcases Fence.occurrence_cases h.symm with hleft | hright | ⟨p, q, rfl, -⟩
  · exact .inl hleft
  · exact .inr hright
  · exact absurd (mem_append_right p mem_cons_self) hc

/-- In a loop over `as` where the pass of an element establishes its property and no pass destroys
the property of another, all properties hold at the end. -/
theorem foldl_establish {α δ : Type} {f : δ → α → δ} {P : α → δ → Prop} {as : List α}
    (hest : ∀ b, ∀ a ∈ as, P a (f b a))
    (hkeep : ∀ b, ∀ a ∈ as, ∀ a' ∈ as, P a' b → P a' (f b a)) (b : δ) :
    ∀ a ∈ as, P a (as.foldl f b) := by
  -- the induction appends at the end, where the last pass is
  induction as using List.reverseRecOn generalizing b with
  | nil =>
    intro a ha
    cases ha
  | append_singleton as a ih =>
    intro a' ha'
    rw [foldl_append]
    rcases mem_append.1 ha' with hmem | hmem
    · have hprev := ih (fun b a ha => hest b a (by simp [ha]))
        (fun b a ha a' ha' => hkeep b a (by simp [ha]) a' (by simp [ha'])) b a' hmem
      exact hkeep _ a (by simp) a' ha' hprev
    · rw [mem_singleton] at hmem
      subst hmem
      exact hest _ a' (by simp)

/-! ## Rewriting without the state -/

/-- `Splices R pos t spans t'`: `t'` is the text `t`, which starts at `pos`, with every span replaced
by something that `R` allows for it. -/
inductive Splices (R : List β → List β → Prop) :
    Nat → List β → List (Nat × Nat) → List β → Prop
  | nil {pos : Nat} {t : List β} : Splices R pos t [] t
  | cons {pos : Nat} {g m q t t' : List β} {spans : List (Nat × Nat)} (hm : R m q)
      (h : Splices R (pos + g.length + m.length) t spans t') :
      Splices R pos (g ++ (m ++ t)) ((pos + g.length, pos + g.length + m.length) :: spans)
        (g ++ (q ++ t'))

namespace Rewrites

variable {subst : σ → List β → σ × List β} {pos : Nat} {st st' : σ} {t t' : List β}
  {spans : List (Nat × Nat)} {B : σ → Prop}

theorem down (hdown : ∀ st m, B (subst st m).1 → B st)
    (h : Rewrites subst id pos st t spans st' t') (hst' : B st') : B st := by
  induction h with
  | nil => exact hst'
  | cons _ ih => exact ih (hdown _ _ hst')

/-- An invariant that every step keeps and that determines the replacements. The steps may rely on
a bound `B` that holds at the end. -/
theorem splices {I : σ → Prop} {R : List β → List β → Prop}
    (hdown : ∀ st m, B (subst st m).1 → B st)
    (hstep : ∀ st m, I st → B (subst st m).1 → I (subst st m).1 ∧ R m (subst st m).2)
    (h : Rewrites subst id pos st t spans st' t') (hst : I st) (hst' : B st') :
    I st' ∧ Splices R pos t spans t' := by
  induction h with
  | nil => exact ⟨hst, .nil⟩
  | cons _ ih =>
    obtain ⟨hI, hsplices⟩ := ih hst (hdown _ _ hst')
    obtain ⟨hI', hR⟩ := hstep _ _ hI hst'
    exact ⟨hI', .cons hR hsplices⟩

end Rewrites

end Nanoguard

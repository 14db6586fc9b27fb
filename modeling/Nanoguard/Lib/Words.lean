import Mathlib.Data.List.Chain
import Nanoguard.Lib.RustStr

/-!
# Words of a text

`WordsOf t u` says that `t` stands in `u` between spaces or the ends of `u`. A function that maps the
two sides of a space apart keeps `WordsOf`. `pieceWords` puts together the words of a list of pieces
with blanks between them.
-/

namespace Nanoguard.Str

open List

variable {t u sep cur w : Text} {ts : List Text}

def EndsSpace (a : Text) : Prop := a = [] ∨ ∃ a', a = a' ++ [' ']

def StartsSpace (b : Text) : Prop := b = [] ∨ ∃ b', b = ' ' :: b'

/-- `t` is a run of whole words of `u`. The empty text is one anywhere. -/
def WordsOf (t u : Text) : Prop :=
  ∃ a b, u = a ++ t ++ b ∧ (t = [] ∨ EndsSpace a ∧ StartsSpace b)

/-- A text that satisfies the predicate does so as part of a longer text, too. -/
def WordStable (p : Text → Bool) : Prop := ∀ t u, WordsOf t u → p t = true → p u = true

theorem WordsOf.nil (u : Text) : WordsOf [] u := ⟨u, [], by simp, .inl rfl⟩

theorem WordsOf.refl (t : Text) : WordsOf t t := ⟨[], [], by simp, .inr ⟨.inl rfl, .inl rfl⟩⟩

theorem WordsOf.contained (h : WordsOf t u) : t <:+: u := by
  obtain ⟨a, b, rfl, -⟩ := h
  exact ⟨a, b, rfl⟩

theorem wordsOf_join (h : t ∈ ts) : WordsOf t (join [' '] ts) := by
  induction ts with
  | nil => simp at h
  | cons t' ts ih =>
    unfold join at ih ⊢
    cases ts with
    | nil =>
      rw [mem_singleton] at h
      rw [h, intercalate_singleton]
      exact .refl t'
    | cons t'' ts =>
      rcases mem_cons.1 h with rfl | h
      · exact ⟨[], ' ' :: [' '].intercalate (t'' :: ts), by simp, .inr ⟨.inl rfl, .inr ⟨_, rfl⟩⟩⟩
      obtain ⟨a, b, hjoin, hedge⟩ := ih h
      refine ⟨t' ++ [' '] ++ a, b, by simp [hjoin], ?_⟩
      apply hedge.imp_right
      intro ⟨ha, hb⟩
      refine ⟨.inr ?_, hb⟩
      rcases ha with rfl | ⟨a', rfl⟩
      · exact ⟨t', by simp⟩
      · exact ⟨t' ++ [' '] ++ a', by simp⟩

theorem WordsOf.map_of_space {f : Text → Text} (hnil : f [] = [])
    (hspace : ∀ a b, f (a ++ ' ' :: b) = f a ++ ' ' :: f b) (h : WordsOf t u) :
    WordsOf (f t) (f u) := by
  obtain ⟨a, b, rfl, rfl | ⟨ha, hb⟩⟩ := h
  · rw [hnil]
    exact .nil _
  have hright : ∃ b', f (t ++ b) = f t ++ b' ∧ StartsSpace b' := by
    rcases hb with rfl | ⟨b', rfl⟩
    · exact ⟨[], by simp, .inl rfl⟩
    · exact ⟨' ' :: f b', hspace t b', .inr ⟨_, rfl⟩⟩
  obtain ⟨b', hb', hstart⟩ := hright
  rcases ha with rfl | ⟨a', rfl⟩
  · exact ⟨[], b', by simpa using hb', .inr ⟨.inl rfl, hstart⟩⟩
  refine ⟨f a' ++ [' '], b', ?_, .inr ⟨.inr ⟨_, rfl⟩, hstart⟩⟩
  have happ : a' ++ [' '] ++ t ++ b = a' ++ ' ' :: (t ++ b) := by simp
  rw [happ, hspace, hb']
  simp

/-! ## Joining -/

theorem join_cons_of_ne_nil (sep t : Text) (h : ts ≠ []) :
    join sep (t :: ts) = t ++ (sep ++ join sep ts) := by
  cases ts with
  | nil => exact absurd rfl h
  | cons u ts =>
    unfold join
    rw [intercalate_cons_cons, append_assoc]

theorem join_eq_nil_iff (h : ∀ t ∈ ts, t ≠ []) : join sep ts = [] ↔ ts = [] := by
  cases ts with
  | nil => simp [join]
  | cons t ts =>
    have ht : t ≠ [] := h t mem_cons_self
    cases ts with
    | nil => simpa [join] using ht
    | cons u ts =>
      rw [join_cons_of_ne_nil sep t (cons_ne_nil u ts)]
      simp [ht]

theorem join_append {us : List Text} (hts : ts ≠ []) (hus : us ≠ []) :
    join sep (ts ++ us) = join sep ts ++ (sep ++ join sep us) := by
  induction ts with
  | nil => exact absurd rfl hts
  | cons t ts ih =>
    cases ts with
    | nil =>
      rw [singleton_append, join_cons_of_ne_nil sep t hus]
      simp [join]
    | cons u ts =>
      have hne : u :: ts ≠ [] := cons_ne_nil u ts
      rw [cons_append, join_cons_of_ne_nil sep t (append_ne_nil_of_left_ne_nil hne us),
        ih hne, join_cons_of_ne_nil sep t hne]
      simp only [append_assoc]

theorem map_join {f : Text → Text} (hnil : f [] = [])
    (hsep : ∀ a b, f (a ++ (sep ++ b)) = f a ++ (sep ++ f b)) (ts : List Text) :
    f (join sep ts) = join sep (ts.map f) := by
  induction ts with
  | nil => exact hnil
  | cons t ts ih =>
    cases ts with
    | nil => simp [join]
    | cons u ts =>
      have hne : (u :: ts).map f ≠ [] := cons_ne_nil _ _
      rw [join_cons_of_ne_nil sep t (cons_ne_nil u ts), hsep, ih, map_cons (l := u :: ts),
        join_cons_of_ne_nil sep (f t) hne]

theorem isAscii_of_isInfix (hu : isAscii u = true) (h : t <:+: u) : isAscii t = true := by
  unfold isAscii at hu ⊢
  rw [all_eq_true] at hu ⊢
  exact fun c hc => hu c (h.subset hc)

theorem isAscii_join (hsep : isAscii sep = true) (h : ∀ t ∈ ts, isAscii t = true) :
    isAscii (join sep ts) = true := by
  induction ts with
  | nil => rfl
  | cons t ts ih =>
    have ht : isAscii t = true := h t mem_cons_self
    have ih : isAscii (join sep ts) = true := ih (forall_mem_cons.1 h).2
    by_cases hne : ts = []
    · rw [hne]
      simpa [join] using ht
    rw [join_cons_of_ne_nil sep t hne]
    unfold isAscii at *
    rw [all_append, all_append, ht, hsep, ih]
    rfl

theorem join_flatten {tss : List (List Text)} (h : ∀ ts ∈ tss, ∀ t ∈ ts, t ≠ []) :
    join sep tss.flatten = join sep ((tss.map (join sep)).filter (!·.isEmpty)) := by
  have hempty (ts : List Text) (hts : ts ∈ tss) : (join sep ts).isEmpty = ts.isEmpty := by
    rw [Bool.eq_iff_iff, List.isEmpty_iff, List.isEmpty_iff]
    exact join_eq_nil_iff (h ts hts)
  -- whether anything is left is the same on both sides
  have hnil (tss : List (List Text))
      (hempty : ∀ ts ∈ tss, (join sep ts).isEmpty = ts.isEmpty) :
      (tss.map (join sep)).filter (!·.isEmpty) = [] ↔ tss.flatten = [] := by
    rw [filter_eq_nil_iff, flatten_eq_nil_iff]
    simp only [mem_map, forall_exists_index, and_imp, forall_apply_eq_imp_iff₂]
    refine forall₂_congr fun ts hts => ?_
    rw [hempty ts hts]
    simp
  induction tss with
  | nil => rfl
  | cons ts tss ih =>
    have ih := ih (forall_mem_cons.1 h).2 (forall_mem_cons.1 hempty).2
    have hrest := hnil tss (forall_mem_cons.1 hempty).2
    rw [flatten_cons, map_cons, filter_cons, hempty ts mem_cons_self]
    by_cases hts : ts = []
    · subst hts
      exact ih
    have hkeep : (!ts.isEmpty) = true := by simpa using hts
    rw [if_pos hkeep]
    by_cases hflat : tss.flatten = []
    · rw [hflat, hrest.2 hflat]
      simp [join]
    · rw [join_append hts hflat, ih, join_cons_of_ne_nil sep _ (mt hrest.1 hflat)]

/-! ## Words made of pieces -/

/-- The words of a list of pieces. `none` is a blank, and `cur` is what the first word has so far. -/
def pieceWords : Text → List (Option Text) → List Text
  | cur, [] => [cur].filter (!·.isEmpty)
  | cur, none :: ps => [cur].filter (!·.isEmpty) ++ pieceWords [] ps
  | cur, some s :: ps => pieceWords (cur ++ s) ps

theorem pieceWords_append (cur : Text) (ps qs : List (Option Text)) :
    pieceWords cur (ps ++ none :: qs) = pieceWords cur ps ++ pieceWords [] qs := by
  induction ps generalizing cur with
  | nil => rfl
  | cons p ps ih =>
    cases p with
    | none => rw [cons_append, pieceWords, pieceWords, ih, append_assoc]
    | some s => rw [cons_append, pieceWords, pieceWords, ih]

theorem pieceWords_blank (ps : List (Option Text)) : pieceWords [] (none :: ps) = pieceWords [] ps :=
  rfl

theorem pieceWords_blanks (n : Nat) (ps : List (Option Text)) :
    pieceWords [] (List.replicate n none ++ ps) = pieceWords [] ps := by
  induction n with
  | zero => rfl
  | succ n ih =>
    rw [replicate_succ, cons_append, pieceWords_blank, ih]

theorem pieceWords_append_blanks {n : Nat} (hn : n ≠ 0) (cur : Text) (ps qs : List (Option Text)) :
    pieceWords cur (ps ++ List.replicate n none ++ qs) = pieceWords cur ps ++ pieceWords [] qs := by
  obtain ⟨n, rfl⟩ := Nat.exists_eq_succ_of_ne_zero hn
  rw [replicate_succ, append_assoc, cons_append, pieceWords_append, pieceWords_blanks]

theorem pieceWords_trailing (n : Nat) (cur : Text) (ps : List (Option Text)) :
    pieceWords cur (ps ++ List.replicate n none) = pieceWords cur ps := by
  by_cases hn : n = 0
  · rw [hn, replicate_zero, append_nil]
  have := pieceWords_append_blanks hn cur ps []
  rw [append_nil] at this
  rw [this]
  exact append_nil _

theorem ne_nil_of_mem_pieceWords {ps : List (Option Text)} (h : w ∈ pieceWords cur ps) :
    w ≠ [] := by
  induction ps generalizing cur with
  | nil =>
    rw [pieceWords, mem_filter] at h
    simpa using h.2
  | cons p ps ih =>
    cases p with
    | none =>
      rw [pieceWords, mem_append, mem_filter] at h
      rcases h with h | h
      · simpa using h.2
      · exact ih h
    | some s => exact ih h

theorem pieceWords_ne_nil (h : cur ≠ []) (ps : List (Option Text)) : pieceWords cur ps ≠ [] := by
  induction ps generalizing cur with
  | nil => simpa [pieceWords] using h
  | cons p ps ih =>
    cases p with
    | none => simp [pieceWords, h]
    | some s => exact ih (append_ne_nil_of_left_ne_nil h s)

theorem notMem_of_mem_pieceWords {ps : List (Option Text)} {c : Char} (hcur : c ∉ cur)
    (hps : ∀ s, some s ∈ ps → c ∉ s) (h : w ∈ pieceWords cur ps) : c ∉ w := by
  induction ps generalizing cur with
  | nil =>
    obtain ⟨hmem, -⟩ := mem_filter.1 h
    rw [mem_singleton.1 hmem]
    exact hcur
  | cons p ps ih =>
    have hrest : ∀ s, some s ∈ ps → c ∉ s := fun s hs => hps s (mem_cons_of_mem _ hs)
    cases p with
    | none =>
      rcases mem_append.1 h with h | h
      · obtain ⟨hmem, -⟩ := mem_filter.1 h
        rw [mem_singleton.1 hmem]
        exact hcur
      · exact ih not_mem_nil hrest h
    | some s =>
      refine ih ?_ hrest h
      rw [mem_append]
      exact fun hc => hc.elim hcur (hps s mem_cons_self)

theorem isChain_of_notMem (h : ' ' ∉ w) : w.IsChain fun a b => a ≠ ' ' ∨ b ≠ ' ' := by
  rw [isChain_iff_forall_rel_of_append_cons_cons]
  rintro a b l r rfl
  exact .inl fun ha => h (by simp [ha])

/-- No space stands at an end, and no two are in a row. -/
structure SingleSpaced (t : Text) : Prop where
  head : t.head? ≠ some ' '
  last : t.getLast? ≠ some ' '
  chain : t.IsChain fun a b => a ≠ ' ' ∨ b ≠ ' '

theorem singleSpaced_of_notMem (h : ' ' ∉ t) : SingleSpaced t :=
  ⟨fun hhead => h (mem_of_head? hhead), fun hlast => h (mem_of_getLast? hlast),
    isChain_of_notMem h⟩

theorem SingleSpaced.cons_word {w : Text} (ht : SingleSpaced t) (hne : t ≠ []) (hw : w ≠ [])
    (hspace : ' ' ∉ w) : SingleSpaced (w ++ ' ' :: t) := by
  refine ⟨?_, ?_, (isChain_of_notMem hspace).append (ht.chain.cons ?_) ?_⟩
  · rw [head?_append_of_ne_nil w hw]
    exact fun hhead => hspace (mem_of_head? hhead)
  · rw [getLast?_append_of_ne_nil w (cons_ne_nil _ t)]
    have hlast := getLast?_append_of_ne_nil [' '] hne
    rw [singleton_append] at hlast
    rw [hlast]
    exact ht.last
  · intro y hy
    right
    rintro rfl
    exact ht.head hy
  · intro x hx y _
    left
    rintro rfl
    exact hspace (mem_of_getLast? hx)

theorem singleSpaced_join {ws : List Text} (h : ∀ w ∈ ws, w ≠ [] ∧ ' ' ∉ w) :
    SingleSpaced (join [' '] ws) := by
  induction ws with
  | nil => exact singleSpaced_of_notMem (by simp [join])
  | cons w ws ih =>
    obtain ⟨hne, hspace⟩ := h w mem_cons_self
    have hws : ∀ u ∈ ws, u ≠ [] ∧ ' ' ∉ u := (forall_mem_cons.1 h).2
    by_cases hnil : ws = []
    · subst hnil
      have hone : join [' '] [w] = w := by simp [join]
      rw [hone]
      exact singleSpaced_of_notMem hspace
    · rw [join_cons_of_ne_nil _ w hnil]
      refine (ih hws).cons_word ?_ hne hspace
      rwa [ne_eq, join_eq_nil_iff fun u hu => (hws u hu).1]

end Nanoguard.Str

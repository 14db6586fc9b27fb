import Nanoguard.Lib.RegexSplit
import Nanoguard.Proxy.RedactComplete

/-!
# What the styles of placeholders have in common

The redacted text is read as a list of pieces, characters that were kept and slots for placeholders;
the styles agree if one list of pieces gives the text of each of them (`StylesAgree`). A rule that finds
nothing between the brackets of a placeholder finds the same characters in every style
(`pass_render`). A match between them leaves an inserted bracket inside inserted brackets, which no
later rule repairs (`Nested.pass`), and which is nowhere in a text made of pieces.
-/

namespace Nanoguard.Redact

open List Regex

/-! ## Pieces -/

/-- A character of the text, or the place of a placeholder. -/
inductive Piece where
  | kept (c : Char)
  | slot (entity : Text) (idx : Nat)
  deriving DecidableEq, Repr

def opening : Char × Bool := ('[', true)

def closing : Char × Bool := (']', true)

def Piece.render (style : PlaceholderStyle) : Piece → Marked
  | .kept c => [(c, false)]
  | .slot entity idx => inserted (Indexer.format style entity idx)

/-- The text of a list of pieces in one of the styles. -/
def render (style : PlaceholderStyle) (ps : List Piece) : Marked := ps.flatMap (Piece.render style)

section Render

variable {style : PlaceholderStyle} {ps : List Piece}

@[simp] theorem render_append (ps qs : List Piece) :
    render style (ps ++ qs) = render style ps ++ render style qs := flatMap_append

@[simp] theorem render_kept (t : Text) : render style (t.map .kept) = original t := by
  induction t with
  | nil => rfl
  | cons c t ih => exact congrArg ((c, false) :: ·) ih

theorem render_slot (entity : Text) (idx : Nat) (ps : List Piece) :
    render style (.slot entity idx :: ps) =
      opening :: (inserted (Indexer.name style entity idx) ++ closing :: render style ps) := by
  unfold render
  rw [flatMap_cons, Piece.render, Indexer.format_eq]
  simp [inserted, opening, closing]

/-- Induction by the slots of a list: the characters between them come in one go. -/
theorem Piece.slotInduction {P : List Piece → Prop} (hkept : ∀ t : Text, P (t.map .kept))
    (hslot : ∀ (t : Text) entity idx ps, P ps → P (t.map .kept ++ .slot entity idx :: ps))
    (ps : List Piece) : P ps := by
  -- the characters already passed are carried along
  have hall : ∀ (ps : List Piece) (t : Text), P (t.map .kept ++ ps) := by
    intro ps
    induction ps with
    | nil =>
      intro t
      rw [append_nil]
      exact hkept t
    | cons p ps ih =>
      intro t
      cases p with
      | kept c =>
        have hc := ih (t ++ [c])
        rw [map_append, append_assoc] at hc
        exact hc
      | slot entity idx => exact hslot t entity idx ps (ih [])
  exact hall ps []

/-- An entity whose placeholders have no other brackets. -/
structure PlainName (entity : Text) : Prop where
  noOpen : '[' ∉ entity
  noClose : ']' ∉ entity

theorem PlainName.name {entity : Text} (h : PlainName entity) (style : PlaceholderStyle) (idx : Nat) :
    PlainName (Indexer.name style entity idx) := by
  have hmem (c : Char) (hc : c ∉ entity) (hword : c ∉ "REDACTED_".toList) (hbar : c ∉ "_".toList)
      (hdigit : c.isDigit = false) : c ∉ Indexer.name style entity idx := by
    have hidx : c ∉ Str.decimal idx := by
      intro h
      rw [Str.isDigit_of_mem_decimal h] at hdigit
      cases hdigit
    cases style with
    | bare => exact hc
    | indexed =>
      change c ∉ entity ++ "_".toList ++ Str.decimal idx
      rw [mem_append, mem_append, not_or, not_or]
      exact ⟨⟨hc, hbar⟩, hidx⟩
    | llmGuard =>
      change c ∉ "REDACTED_".toList ++ entity ++ "_".toList ++ Str.decimal idx
      rw [mem_append, mem_append, mem_append, not_or, not_or, not_or]
      exact ⟨⟨⟨hword, hc⟩, hbar⟩, hidx⟩
  exact ⟨hmem '[' h.noOpen (by decide) (by decide) (by decide),
    hmem ']' h.noClose (by decide) (by decide) (by decide)⟩

theorem PlainName.inserted {n : Text} (h : PlainName n) :
    opening ∉ inserted n ∧ closing ∉ inserted n := by
  refine ⟨fun hmem => ?_, fun hmem => ?_⟩
  · obtain ⟨c, hc, heq⟩ := mem_map.1 hmem
    cases heq
    exact h.noOpen hc
  · obtain ⟨c, hc, heq⟩ := mem_map.1 hmem
    cases heq
    exact h.noClose hc

end Render

section Pass

variable {σ : Type} {rule : RedactRule} {store : σ → Text → Text → σ × Text}

theorem RedactRule.rewriteMarked_split {d : Char × Bool} (hsplit : rule.regex.SplitsAt d.1) (st : σ)
    (X Y : Marked) :
    rule.rewriteMarked store st (X ++ d :: Y) =
      ((rule.rewriteMarked store (rule.rewriteMarked store st Y).1 X).1,
        (rule.rewriteMarked store (rule.rewriteMarked store st Y).1 X).2 ++
          d :: (rule.rewriteMarked store st Y).2) := by
  have hX := rule.rewriteMarked_rewrites store (rule.rewriteMarked store st Y).1 X
  have hY := (rule.rewriteMarked_rewrites store st Y).shift (X.length + 1)
  have hwhole := rule.rewriteMarked_rewrites store st (X ++ d :: Y)
  have hlen : X.length + 1 + 0 = 0 + X.length + [d].length := by
    rw [Nat.zero_add, length_singleton]
  have hY' : Rewrites (fun st value => ((store st rule.entity value).1,
      inserted (store st rule.entity value).2)) erase (0 + X.length + [d].length) st Y
      ((rule.regex.findIter (erase Y)).map (shiftSpan (X.length + 1)))
      (rule.rewriteMarked store st Y).1 (rule.rewriteMarked store st Y).2 := by
    rw [← hlen]
    exact hY
  have hparts := hX.append (hY'.gap [d])
  rw [erase_append, erase_cons, hsplit, length_erase] at hwhole
  obtain ⟨hst, htext⟩ := hwhole.unique hparts
  exact Prod.ext hst htext

theorem RedactRule.rewriteMarked_of_nil {M : Marked} (h : rule.regex.findIter (erase M) = []) (st : σ) :
    rule.rewriteMarked store st M = (st, M) := by
  have hrw := rule.rewriteMarked_rewrites store st M
  rw [h] at hrw
  exact Prod.ext hrw.nil_inv.1 hrw.nil_inv.2

theorem rewrites_original (entity : Text) (spans : List (Nat × Nat)) :
    ∀ (pos : Nat) (t : Text) (ix : Indexer), SpansIn pos (pos + t.length) spans →
      ∃ (ix' : Indexer) (ps : List Piece), (∀ e n, .slot e n ∈ ps → e = entity) ∧
        ∀ style, Rewrites (fun ix v => ((Indexer.placeholder ix entity v).1,
          inserted (Indexer.placeholder ix entity v).2)) erase pos (ix.withStyle style) (original t)
          spans (ix'.withStyle style) (render style ps) := by
  induction spans with
  | nil =>
    intro pos t ix _
    refine ⟨ix, t.map .kept, fun e n hmem => ?_, fun style => ?_⟩
    · obtain ⟨c, -, hc⟩ := mem_map.1 hmem
      cases hc
    · rw [render_kept]
      exact .nil
  | cons span spans ih =>
    obtain ⟨s, e⟩ := span
    rintro pos t ix ⟨h₁, h₂, h₃, h₄⟩
    obtain ⟨g, m, t, rfl, rfl, rfl⟩ := exists_split_of_span h₁ h₂ h₃
    have hlen : pos + (g ++ (m ++ t)).length = pos + g.length + m.length + t.length := by
      simp only [length_append]
      omega
    rw [hlen] at h₄
    obtain ⟨ix', ps, hslots, hrest⟩ := ih _ t ix h₄
    refine ⟨(ix'.placeholder entity m).1, g.map .kept ++ .slot entity (ix'.index entity m) :: ps,
      fun e n hmem => ?_, fun style => ?_⟩
    · simp only [mem_append, mem_map, mem_cons, reduceCtorEq, and_false, exists_false,
        false_or] at hmem
      rcases hmem with hslot | hmem
      · cases hslot
        rfl
      · exact hslots e n hmem
    have hg : (original g).length = g.length := length_map _
    have hm : (original m).length = m.length := length_map _
    have hrest' := hrest style
    rw [← hg, ← hm] at hrest'
    have hcons := Rewrites.cons hrest'
    rw [erase_original, Indexer.placeholder_withStyle, hg, hm] at hcons
    have htext : original (g ++ (m ++ t)) = original g ++ (original m ++ original t) := by
      simp [original]
    rw [htext, render_append, render_kept]
    exact hcons

/-- **A rule that leaves the placeholders alone does the same in every style.** -/
theorem pass_render (hopen : rule.regex.SplitsAt '[') (hclose : rule.regex.SplitsAt ']')
    (ix : Indexer) (ps : List Piece)
    (hslots : ∀ style e n, .slot e n ∈ ps → rule.regex.findIter (Indexer.name style e n) = []) :
    ∃ (ix' : Indexer) (ps' : List Piece),
      (∀ e n, .slot e n ∈ ps' → e = rule.entity ∨ .slot e n ∈ ps) ∧
      ∀ style, rule.rewriteMarked Indexer.placeholder (ix.withStyle style) (render style ps) =
        (ix'.withStyle style, render style ps') := by
  have hkept (ix : Indexer) (t : Text) : ∃ (ix' : Indexer) (ps' : List Piece),
      (∀ e n, .slot e n ∈ ps' → e = rule.entity) ∧
      ∀ style, rule.rewriteMarked Indexer.placeholder (ix.withStyle style) (original t) =
        (ix'.withStyle style, render style ps') := by
    have hspans := rule.regex.spans_ok t
    obtain ⟨ix', ps', hslots', hrw⟩ := rewrites_original rule.entity (rule.regex.findIter t) 0 t ix
      (by rwa [Nat.zero_add])
    refine ⟨ix', ps', hslots', fun style => ?_⟩
    have hpass := rule.rewriteMarked_rewrites Indexer.placeholder (ix.withStyle style) (original t)
    rw [erase_original] at hpass
    obtain ⟨hst, htext⟩ := hpass.unique (hrw style)
    exact Prod.ext hst htext
  induction ps using Piece.slotInduction generalizing ix with
  | hkept t =>
    obtain ⟨ix', ps', hslots', hpass⟩ := hkept ix t
    refine ⟨ix', ps', fun e n hmem => .inl (hslots' e n hmem), fun style => ?_⟩
    rw [render_kept]
    exact hpass style
  | hslot t entity idx ps ih =>
    have hmem : .slot entity idx ∈ t.map .kept ++ .slot entity idx :: ps :=
      mem_append_right _ mem_cons_self
    have hsub (e : Text) (n : Nat) (h : .slot e n ∈ ps) :
        .slot e n ∈ t.map .kept ++ .slot entity idx :: ps :=
      mem_append_right _ (mem_cons_of_mem _ h)
    -- first what is behind the slot, then the text before it
    obtain ⟨ix₁, ps₁, hslots₁, hpass₁⟩ := ih ix fun style e n h => hslots style e n (hsub e n h)
    obtain ⟨ix₂, ps₂, hslots₂, hpass₂⟩ := hkept ix₁ t
    refine ⟨ix₂, ps₂ ++ .slot entity idx :: ps₁, fun e n h => ?_, fun style => ?_⟩
    · rcases mem_append.1 h with h | h
      · exact .inl (hslots₂ e n h)
      rcases mem_cons.1 h with h | h
      · cases h
        exact .inr hmem
      · exact (hslots₁ e n h).imp id (hsub e n)
    have hname : rule.regex.findIter (erase (inserted (Indexer.name style entity idx))) = [] := by
      rw [erase_inserted]
      exact hslots style entity idx hmem
    rw [render_append, render_kept, render_slot, rule.rewriteMarked_split (d := opening) hopen,
      rule.rewriteMarked_split (d := closing) hclose, hpass₁ style, rule.rewriteMarked_of_nil hname]
    rw [hpass₂ style, render_append, render_slot]

end Pass

section Nested

variable {rule : RedactRule}

/-- An inserted bracket is opened inside inserted brackets. -/
def Nested (M : Marked) : Prop :=
  ∃ a b c, M = a ++ opening :: (b ++ opening :: c) ∧ closing ∉ b

/-- The rule finds nothing between the brackets of a placeholder. -/
def Untouched (rule : RedactRule) (M : Marked) : Prop :=
  ∀ a n b, M = a ++ opening :: (inserted n ++ closing :: b) → PlainName n →
    rule.regex.findIter n = []

theorem not_nested_render {ps : List Piece} (hps : ∀ e n, .slot e n ∈ ps → PlainName e)
    (style : PlaceholderStyle) : ¬ Nested (render style ps) := by
  rintro ⟨a, b, c, hM, hb⟩
  induction ps generalizing a with
  | nil => exact absurd (append_eq_nil_iff.1 hM.symm).2 (cons_ne_nil _ _)
  | cons p ps ih =>
    have hrest := ih fun e n h => hps e n (mem_cons_of_mem p h)
    cases p with
    | kept d =>
      cases a with
      | nil => exact absurd (List.cons.inj hM).1 (fun h => by cases h)
      | cons x a => exact hrest a (List.cons.inj hM).2
    | slot e n =>
      obtain ⟨hopen, hclose⟩ := ((hps e n mem_cons_self).name style n).inserted
      rw [render_slot] at hM
      cases a with
      | nil =>
        -- the next bracket is a closing one
        have hbrackets := (List.cons.inj hM).2
        rcases Fence.cut_cons_cases hbrackets with ⟨x, rfl, -⟩ | ⟨-, hsame, -⟩ | ⟨x, hname, -⟩
        · exact hb (mem_append_right _ mem_cons_self)
        · exact absurd hsame (by decide)
        · rw [hname] at hopen
          exact hopen (mem_append_right _ mem_cons_self)
      | cons x a =>
        -- the first of the two brackets is behind this placeholder
        have hbehind := (List.cons.inj hM).2
        obtain ⟨y, -, hy⟩ := Fence.behind hopen hbehind
        cases y with
        | nil => exact absurd (List.cons.inj hy).1 (by decide)
        | cons z y => exact hrest y (List.cons.inj hy).2

theorem rewritten_opens {σ : Type} {subst : σ → Text → σ × Marked}
    (hsubst : ∀ st v, ∃ p, Bracketed p ∧ (subst st v).2 = inserted p) {pos : Nat} {st st' : σ}
    {b b' : Marked} {spans : List (Nat × Nat)} (h : Rewrites subst erase pos st b spans st' b')
    (hb : closing ∉ b) :
    (spans = [] ∧ b' = b) ∨ ∃ g c, b' = g ++ opening :: c ∧ closing ∉ g := by
  cases h with
  | nil => exact .inl ⟨rfl, rfl⟩
  | @cons _ _ st₁ g m t t' spans _ =>
    obtain ⟨_, ⟨q, rfl⟩, hp⟩ := hsubst st₁ (erase m)
    refine .inr ⟨g, inserted (q ++ [']']) ++ t', ?_, fun hg => hb (mem_append_left _ hg)⟩
    rw [hp]
    rfl

theorem pass_opens (ix : Indexer) {b : Marked} (hb : closing ∉ b) :
    (rule.regex.findIter (erase b) = [] ∧ (rule.rewriteMarked Indexer.placeholder ix b).2 = b) ∨
      ∃ g c, (rule.rewriteMarked Indexer.placeholder ix b).2 = g ++ opening :: c ∧ closing ∉ g :=
  rewritten_opens (fun ix v => ⟨_, ix.bracketed_placeholder rule.entity v, rfl⟩)
    (rule.rewriteMarked_rewrites Indexer.placeholder ix b) hb

theorem nested_of_opens {a b c : Marked} (hb : ∃ g d, b = g ++ opening :: d ∧ closing ∉ g) :
    Nested (a ++ opening :: (b ++ c)) := by
  obtain ⟨g, d, rfl, hg⟩ := hb
  exact ⟨a, g, d ++ c, by simp, hg⟩

theorem Nested.pass (hopen : rule.regex.SplitsAt '[') {M : Marked} (h : Nested M) (ix : Indexer) :
    Nested (rule.rewriteMarked Indexer.placeholder ix M).2 := by
  obtain ⟨a, b, c, rfl, hb⟩ := h
  rw [rule.rewriteMarked_split (d := opening) hopen, rule.rewriteMarked_split (d := opening) hopen]
  rcases pass_opens (rule.rewriteMarked Indexer.placeholder ix c).1 hb with ⟨-, hsame⟩ | hopens
  · rw [hsame]
    exact ⟨_, b, _, rfl, hb⟩
  · exact nested_of_opens hopens

theorem nested_of_touched (hopen : rule.regex.SplitsAt '[') (hclose : rule.regex.SplitsAt ']')
    {M : Marked} (h : ¬ Untouched rule M) (ix : Indexer) :
    Nested (rule.rewriteMarked Indexer.placeholder ix M).2 := by
  unfold Untouched at h
  push Not at h
  obtain ⟨a, n, b, rfl, hplain, hfind⟩ := h
  rw [rule.rewriteMarked_split (d := opening) hopen, rule.rewriteMarked_split (d := closing) hclose]
  rcases pass_opens (rule.rewriteMarked Indexer.placeholder ix b).1 hplain.inserted.2 with
    ⟨hnone, -⟩ | hopens
  · rw [erase_inserted] at hnone
    exact absurd hnone hfind
  · exact nested_of_opens hopens

end Nested

section Run

variable {rules : List RedactRule}

theorem nested_run (hsplit : ∀ rule ∈ rules, rule.regex.SplitsAt '[') {M : Marked} (h : Nested M)
    (ix : Indexer) : Nested (rewriteRulesMarked Indexer.placeholder rules ix M).2 := by
  induction rules generalizing ix M with
  | nil => exact h
  | cons rule rules ih =>
    exact ih (forall_mem_cons.1 hsplit).2 (h.pass (hsplit rule mem_cons_self) ix) _

theorem rewriteRulesMarked_cons {σ : Type} (store : σ → Text → Text → σ × Text) (rule : RedactRule)
    (st : σ) (M : Marked) : rewriteRulesMarked store (rule :: rules) st M =
      rewriteRulesMarked store rules (rule.rewriteMarked store st M).1
        (rule.rewriteMarked store st M).2 := rfl

/-- **The styles stay together exactly as long as no rule finds a match between the brackets of a
placeholder.** `P` holds of the entities that have placeholders. -/
theorem agree_iff {P : Text → Prop} (hP : ∀ e, P e → PlainName e)
    (hsplit : ∀ rule ∈ rules, rule.regex.SplitsAt '[' ∧ rule.regex.SplitsAt ']')
    (hrules : ∀ rule ∈ rules, P rule.entity) (ix : Indexer) {ps : List Piece}
    (hps : ∀ e n, .slot e n ∈ ps → P e) :
    (∃ ps', (∀ e n, .slot e n ∈ ps' → P e) ∧ ∀ style,
      (rewriteRulesMarked Indexer.placeholder rules (ix.withStyle style) (render style ps)).2 =
        render style ps') ↔
    ∀ style before rule after, rules = before ++ rule :: after → Untouched rule
      (rewriteRulesMarked Indexer.placeholder before (ix.withStyle style) (render style ps)).2 := by
  induction rules generalizing ix ps with
  | nil =>
    refine iff_of_true ⟨ps, hps, fun style => rfl⟩ fun style before rule after h => ?_
    exact absurd (append_eq_nil_iff.1 h.symm).2 (cons_ne_nil _ _)
  | cons rule rules ih =>
    obtain ⟨hopen, hclose⟩ := hsplit rule mem_cons_self
    by_cases hturn : ∀ style, Untouched rule (render style ps)
    · have hslots (style : PlaceholderStyle) (e : Text) (n : Nat) (h : .slot e n ∈ ps) :
          rule.regex.findIter (Indexer.name style e n) = [] := by
        obtain ⟨qs, ps', rfl⟩ := append_of_mem h
        refine hturn style (render style qs) _ (render style ps') ?_ ((hP e (hps e n h)).name style n)
        rw [render_append, render_slot]
      obtain ⟨ix', ps', hslots', hpass⟩ := pass_render hopen hclose ix ps hslots
      have hps' (e : Text) (n : Nat) (h : .slot e n ∈ ps') : P e := by
        rcases hslots' e n h with rfl | hold
        · exact hrules rule mem_cons_self
        · exact hps e n hold
      have hrest := ih (forall_mem_cons.1 hsplit).2 (forall_mem_cons.1 hrules).2 ix' hps'
      simp only [rewriteRulesMarked_cons, hpass]
      rw [hrest]
      constructor
      · intro h style before rule' after hsplit'
        cases before with
        | nil =>
          obtain ⟨rfl, -⟩ := List.cons.inj hsplit'
          exact hturn style
        | cons first before =>
          obtain ⟨rfl, rfl⟩ := List.cons.inj hsplit'
          rw [rewriteRulesMarked_cons, hpass]
          exact h style before rule' after rfl
      · intro h style before rule' after hsplit'
        have hturn' := h style (rule :: before) rule' after (congrArg (rule :: ·) hsplit')
        rw [rewriteRulesMarked_cons, hpass] at hturn'
        exact hturn'
    · refine iff_of_false ?_ ?_
      · rintro ⟨ps', hps', hrun⟩
        push Not at hturn
        obtain ⟨style, htouched⟩ := hturn
        have hnested := nested_run (fun rule' h => (hsplit rule' (mem_cons_of_mem rule h)).1)
          (nested_of_touched hopen hclose htouched (ix.withStyle style))
          (rule.rewriteMarked Indexer.placeholder (ix.withStyle style) (render style ps)).1
        rw [← rewriteRulesMarked_cons, hrun style] at hnested
        exact not_nested_render (fun e n h => hP e (hps' e n h)) style hnested
      · intro h
        exact hturn fun style => h style [] rule rules rfl

end Run

/-! ## The outputs of `redact_text_in` -/

/-- One list of pieces gives the output of every style: the same characters are kept, and each
placeholder stands for the same entity at the same place. -/
def StylesAgree (r : Redactor) (entities : List Text) (text : Text) : Prop :=
  ∃ ps, (∀ e n, .slot e n ∈ ps → ∃ rule ∈ r.rulesIn entities, rule.entity = e) ∧
    ∀ style, Redactor.redactTextInMarked { r with style := style } text entities = render style ps

/-- An entity name that is safe in a placeholder of every style. -/
structure SafeName (entity : Text) : Prop extends PlainName entity where
  noDollar : '$' ∉ entity

theorem plainRule_of_mem {eng : Engine} {U : Unicode} {readToString : Text → Except Text Text}
    {inline : List (Text × Text)} {dictPaths : List Text} {style : PlaceholderStyle} {r : Redactor}
    (hbuild : Redactor.buildWithStyle eng U readToString inline dictPaths style = .ok r)
    {rule : RedactRule} (hrule : rule ∈ r.rules) (hname : SafeName rule.entity) :
    PlainRule rule := by
  obtain ⟨p, -, hcompile⟩ := (Redactor.mem_rules_build hbuild rule).1 hrule
  have hbare : rule.placeholder = barePlaceholder rule.entity := by
    unfold compile at hcompile
    split at hcompile
    · cases hcompile
      rfl
    · cases hcompile
  refine ⟨hbare, ?_⟩
  rw [hbare, barePlaceholder, mem_append, mem_append, not_or, not_or]
  exact ⟨⟨by decide, hname.noDollar⟩, by decide⟩

/-- **When the style changes names only.** -/
theorem styles_agree_iff (eng : Engine) (U : Unicode) (readToString : Text → Except Text Text)
    (inline : List (Text × Text)) (dictPaths : List Text) (style : PlaceholderStyle) (r : Redactor)
    (hbuild : Redactor.buildWithStyle eng U readToString inline dictPaths style = .ok r)
    (entities : List Text) (text : Text)
    (hsplit : ∀ rule ∈ r.rulesIn entities, rule.regex.SplitsAt '[' ∧ rule.regex.SplitsAt ']')
    (hnames : ∀ rule ∈ r.rulesIn entities, SafeName rule.entity) :
    StylesAgree r entities text ↔
      ∀ style before rule after, r.rulesIn entities = before ++ rule :: after →
        Untouched rule (redactByMarked style before (original text)) := by
  have hplain (rule : RedactRule) (h : rule ∈ r.rulesIn entities) : PlainRule rule :=
    plainRule_of_mem hbuild (mem_filter.1 h).1 (hnames rule h)
  have hP (e : Text) (h : ∃ rule ∈ r.rulesIn entities, rule.entity = e) : PlainName e := by
    obtain ⟨rule, hrule, rfl⟩ := h
    exact (hnames rule hrule).toPlainName
  have hno (e : Text) (n : Nat) (h : .slot e n ∈ text.map Piece.kept) :
      ∃ rule ∈ r.rulesIn entities, rule.entity = e := by
    obtain ⟨c, -, hc⟩ := mem_map.1 h
    cases hc
  have hiff := agree_iff hP hsplit (fun rule h => ⟨rule, h, rfl⟩) (Indexer.new .bare) hno
  simp only [render_kept] at hiff
  have hwhole (style : PlaceholderStyle) :
      Redactor.redactTextInMarked { r with style := style } text entities =
        (rewriteRulesMarked Indexer.placeholder (r.rulesIn entities)
          ((Indexer.new .bare).withStyle style) (original text)).2 := redactByMarked_eq hplain style _
  have hpart (style : PlaceholderStyle) {before after : List RedactRule} {rule : RedactRule}
      (h : r.rulesIn entities = before ++ rule :: after) :
      redactByMarked style before (original text) = (rewriteRulesMarked Indexer.placeholder before
        ((Indexer.new .bare).withStyle style) (original text)).2 := by
    refine redactByMarked_eq (fun rule' hrule' => hplain rule' ?_) style _
    rw [h]
    exact mem_append_left _ hrule'
  unfold StylesAgree
  simp only [hwhole]
  rw [hiff]
  exact forall₅_congr fun style before rule after h => by rw [hpart style h]

section BuiltIn

variable {T : CharTables} {rule : RedactRule}

theorem Guarded.splits {e : Re} (h : Guarded T e) :
    (e.toRegex T).SplitsAt '[' ∧ (e.toRegex T).SplitsAt ']' := by
  have hword (c : Char) (hascii : c.toNat < 128) (hc : (c.isAlphanum || c == '_') = false) :
      T.isWord c = false := by rw [T.isWord_ascii c hascii, hc]
  exact ⟨splitsAt_of_separates h.minLen_pos ⟨h.avoidsOpen, hword _ (by decide) (by decide)⟩,
    splitsAt_of_separates h.minLen_pos ⟨h.avoidsClose, hword _ (by decide) (by decide)⟩⟩

theorem BuiltInRule.splits (h : BuiltInRule T rule) :
    rule.regex.SplitsAt '[' ∧ rule.regex.SplitsAt ']' := by
  obtain ⟨e, hregex, hguarded⟩ := h.guarded
  rw [hregex]
  exact hguarded.splits

theorem BuiltInRule.safeName (h : BuiltInRule T rule) : SafeName rule.entity where
  noOpen hmem := (h.safe _ hmem).2 (by decide)
  noClose hmem := (h.safe _ hmem).2 (by decide)
  noDollar hmem := (h.safe _ hmem).2 (by decide)

theorem builtInRule_of_rulesIn {entities : List Text} (h : rule ∈ builtInRedactor.rulesIn entities) :
    BuiltInRule .ascii rule :=
  builtInRule_of_mem (builtInRedactor_build .ascii fun _ => .error []) (mem_filter.1 h).1

/-- One rule has no placeholders before it. -/
theorem styles_agree_address : StylesAgree builtInRedactor ["EMAIL".toList] "to a@b.co".toList := by
  refine (styles_agree_iff .basic .ascii (fun _ => .error []) defaultInlinePatterns [] .bare
    builtInRedactor (builtInRedactor_build _ _) _ _
    (fun rule h => (builtInRule_of_rulesIn h).splits)
    (fun rule h => (builtInRule_of_rulesIn h).safeName)).2 ?_
  intro style before rule after hrules a n b hM _
  have hone : (builtInRedactor.rulesIn ["EMAIL".toList]).length ≤ 1 := by
    rw [Redactor.rulesIn_build (builtInRedactor_build .ascii fun _ => .error []) ["EMAIL".toList]]
    refine (length_filterMap_le _ _).trans ?_
    rw [flatMap_nil, append_nil]
    decide +kernel
  rw [hrules, length_append, length_cons] at hone
  obtain rfl : before = [] := length_eq_zero_iff.1 (by omega)
  have hstart : redactByMarked style [] (original "to a@b.co".toList) =
      original "to a@b.co".toList := by cases style <;> rfl
  rw [hstart] at hM
  have hopening : opening ∈ original "to a@b.co".toList := by
    rw [hM]
    exact mem_append_right a mem_cons_self
  obtain ⟨c, -, hc⟩ := mem_map.1 hopening
  cases hc

/-- A token whose placeholder in the longest style is itself a token. -/
def fineGrainedToken : Text := "github_pat_".toList ++ List.replicate 82 'a'

def tokenEntities : List Text := ["GITHUB_FINE_GRAINED_PAT".toList, "TOKEN".toList]

/-- **One style redacts its own placeholder.** -/
theorem placeholder_redacted :
    Redactor.redactTextIn { builtInRedactor with style := .bare } fineGrainedToken tokenEntities =
        "[GITHUB_FINE_GRAINED_PAT]".toList ∧
      Redactor.redactTextIn { builtInRedactor with style := .llmGuard } fineGrainedToken
        tokenEntities = "[[REDACTED_TOKEN_1]]".toList ∧
      ¬ StylesAgree builtInRedactor tokenEntities fineGrainedToken := by
  have hmarked : Redactor.redactTextInMarked { builtInRedactor with style := .llmGuard }
      fineGrainedToken tokenEntities = inserted "[[REDACTED_TOKEN_1]]".toList := by
    decide +kernel
  refine ⟨by decide +kernel, by decide +kernel, ?_⟩
  rintro ⟨ps, hslots, htexts⟩
  have hrender := (htexts .llmGuard).symm.trans hmarked
  refine not_nested_render (fun e n hmem => ?_) .llmGuard
    ⟨[], [], inserted "REDACTED_TOKEN_1]]".toList, hrender, not_mem_nil⟩
  obtain ⟨rule, hrule, rfl⟩ := hslots e n hmem
  exact (builtInRule_of_rulesIn hrule).safeName.toPlainName

end BuiltIn

end Nanoguard.Redact

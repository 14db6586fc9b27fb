import Nanoguard.Guard.SseDeanon
import Nanoguard.Proxy.Response
import Nanoguard.Proxy.StreamSpend
import Nanoguard.Proxy.StreamedContent

/-!
# Placeholders in streamed answers

In reversible mode each content of a streamed answer goes through the output filter, which sees one
content at a time, and then through one `DeanonymizeStream` that all contents of the stream share.
What is still held back at the end is discarded.
-/

namespace Nanoguard.Proxy

open List

open Guard (DeanonymizeStream JsonText ToolGate brackets)
open Matcher (OutputDictionary filterOutput markOutput masked)
open Vault (LocalVault PlaceholderTemplate)

variable {strategy : Guard.MatchingStrategy} {v p : Text}

section Model

variable (J : JsonText) (U : Unicode) (output : OutputDictionary) (cfg : ContentConfig)
  (entries : List (Text × Text))

/-- The de-anonymiser of a stream, if there is something to restore. -/
def deanonStream : Option DeanonymizeStream :=
  if cfg.reversible then
    if entries.isEmpty then none else some (.new entries cfg.strategy)
  else none

/-- What happens to a content. -/
def contentTransform (d : Option DeanonymizeStream) (s : Text) : Option DeanonymizeStream × Text :=
  let afterFilter := filterOutput U output s
  match d with
  | some d =>
    let (d, out) := d.push afterFilter
    (some d, out)
  | none => (none, afterFilter)

def contentEnv (hasBudget : Bool) : StreamEnv (Option DeanonymizeStream) :=
  ⟨contentTransform U output, cfg.outputEnabled, hasBudget⟩

/-- The stream that is sent to the client. What the de-anonymiser still holds back at the end is not
sent. -/
def chatStream (hasBudget : Bool) (gate : Option ToolGate) (failure : Option Text)
    (chunks : List Bytes) : StreamResult :=
  streamLoop J (contentEnv U output cfg hasBudget) failure (.new (deanonStream cfg entries) gate)
    chunks

end Model

def contents (J : JsonText) (stream : Bytes) : List Text := (bodyDeltas J stream).map Prod.snd

/-- The label of a choice with the given index. -/
def ofChoice (index : Nat) (label : Option Json) : Bool := label.bind Json.asU64 = some index

def choiceContents (J : JsonText) (stream : Bytes) (index : Nat) : List Text :=
  ((bodyDeltas J stream).filter fun x => ofChoice index x.1).map Prod.snd

section Contents

variable {J : JsonText} {U : Unicode} {output : OutputDictionary} {cfg : ContentConfig}
  {entries : List (Text × Text)}

theorem push_no_entries (entries : List (Text × Text)) (strategy : Guard.MatchingStrategy)
    (h : entries = []) (text : Text) :
    (DeanonymizeStream.new entries strategy).push text = (.new entries strategy, text) :=
  if_pos (List.isEmpty_iff.2 h)

theorem applyAll_filter {ι : Type} (xs : List (ι × Text)) :
    (applyAll (contentTransform U output) none xs).2 =
      xs.map fun x => (x.1, filterOutput U output x.2) := by
  induction xs with
  | nil => rfl
  | cons x xs ih =>
    rw [map_cons, ← ih]
    rfl

variable {hasBudget : Bool} {gate : Option ToolGate} {failure : Option Text} {chunks : List Bytes}

section Choices

variable {ι : Type} {strategy : Guard.MatchingStrategy} {d d' : DeanonymizeStream} {own : Bool}

/-- Nothing is held back wherever the stream changes between the choice and the others. `own` tells
whether the last content was one of the choice. -/
def ClosedAtSwitches {ι : Type} (filter : Text → Text) (mine : ι → Bool) :
    DeanonymizeStream → Bool → List (ι × Text) → Prop
  | _, _, [] => True
  | d, own, (i, text) :: rest =>
    (mine i ≠ own → d.pending = []) ∧
      ClosedAtSwitches filter mine (d.push (filter text)).1 (mine i) rest

instance decidableClosedAtSwitches {ι : Type} (filter : Text → Text) (mine : ι → Bool) :
    ∀ (d : DeanonymizeStream) (own : Bool) (xs : List (ι × Text)),
      Decidable (ClosedAtSwitches filter mine d own xs)
  | _, _, [] => isTrue trivial
  | d, _, (i, text) :: rest =>
    have := decidableClosedAtSwitches filter mine (d.push (filter text)).1 (mine i) rest
    inferInstanceAs (Decidable (_ ∧ _))

/-- A de-anonymiser that has been pushed some text. -/
def Started (entries : List (Text × Text)) (strategy : Guard.MatchingStrategy)
    (d : DeanonymizeStream) : Prop :=
  ∃ t, d = ((DeanonymizeStream.new entries strategy).push t).1

theorem Started.push (h : Started entries strategy d) (text : Text) :
    Started entries strategy (d.push text).1 := by
  obtain ⟨t, rfl⟩ := h
  have hall := DeanonymizeStream.pushAll_eq (.new entries strategy) [t, text]
  refine ⟨[t, text].flatten, ?_⟩
  rw [← hall]
  rfl

theorem Started.eq_new (h : Started entries strategy d) (hpending : d.pending = []) :
    d = .new entries strategy := by
  obtain ⟨t, rfl⟩ := h
  unfold DeanonymizeStream.push at hpending ⊢
  split at hpending
  next hempty => rw [if_pos hempty]
  next hempty =>
    rw [if_neg hempty]
    exact DeanonymizeStream.chars_of_pending hpending

theorem applyAll_own {mine : ι → Bool} {xs : List (ι × Text)} (hd : Started entries strategy d)
    (hsame : own = true → d' = d) (hnew : own = false → d' = .new entries strategy)
    (hclosed : ClosedAtSwitches (filterOutput U output) mine d own xs) :
    ((((applyAll (contentTransform U output) (some d) xs).2).filter fun x => mine x.1).map
        Prod.snd).flatten =
      (d'.pushAll ((xs.filter fun x => mine x.1).map fun x => filterOutput U output x.2)).2 := by
  induction xs generalizing d d' own with
  | nil => rfl
  | cons x xs ih =>
    obtain ⟨i, text⟩ := x
    obtain ⟨hswitch, hrest⟩ := hclosed
    have hd' := hd.push (filterOutput U output text)
    cases hmine : mine i with
    | true =>
      -- a content of the choice: the two machines are the same
      have heq : d' = d := by
        cases own with
        | true => exact hsame rfl
        | false => rw [hnew rfl, hd.eq_new (hswitch (by rw [hmine]; decide))]
      subst heq
      rw [hmine] at hrest
      have hih := ih hd' (fun _ => rfl) (fun h => by cases h) hrest
      simp only [applyAll, contentTransform, filter_cons, hmine, if_true, map_cons,
        flatten_cons, DeanonymizeStream.pushAll, hih]
    | false =>
      -- another content: the machine of the choice is at its start
      have heq : d' = .new entries strategy := by
        cases own with
        | true => rw [hsame rfl, hd.eq_new (hswitch (by rw [hmine]; decide))]
        | false => exact hnew rfl
      rw [hmine] at hrest
      have hih := ih hd' (fun h => by cases h) (fun _ => heq) hrest
      simp only [applyAll, contentTransform, filter_cons, hmine, Bool.false_eq_true, if_false, hih]

theorem closedAtSwitches_all {filter : Text → Text} (xs : List (ι × Text))
    (h : own = false → d.pending = []) : ClosedAtSwitches filter (fun _ => true) d own xs := by
  induction xs generalizing d own with
  | nil => trivial
  | cons x xs ih => exact ⟨fun hne => h (Bool.eq_false_iff.2 hne.symm), ih nofun⟩

end Choices

section Sent

variable (hJ : JsonLines J) (hrev : cfg.reversible = true) (hanswer : AnswerStream J chunks.flatten)
  (hend : (chatStream J U output cfg entries hasBudget gate failure chunks).ending = .completed)
include hJ hrev hanswer hend

theorem deltas_sent :
    bodyDeltas J (chatStream J U output cfg entries hasBudget gate failure chunks).sent.flatten =
      if cfg.outputEnabled then
        if entries = [] then
          (bodyDeltas J chunks.flatten).map fun x => (x.1, filterOutput U output x.2)
        else
          (applyAll (contentTransform U output) (some (.new entries cfg.strategy))
            (bodyDeltas J chunks.flatten)).2
      else bodyDeltas J chunks.flatten := by
  have hread := sent_deltas hJ (deanonStream cfg entries) gate hanswer hend
  refine hread.trans (ite_congr rfl (fun _ => ?_) fun _ => rfl)
  unfold deanonStream
  rw [if_pos hrev]
  by_cases hempty : entries = []
  · rw [if_pos (List.isEmpty_iff.2 hempty), if_pos hempty]
    exact applyAll_filter _
  · rw [if_neg (mt List.isEmpty_iff.1 hempty), if_neg hempty]
    rfl

theorem filtered_sent (mine : Option Json → Bool)
    (hclosed : cfg.outputEnabled = true → ClosedAtSwitches (filterOutput U output) mine
      (.new entries cfg.strategy) false (bodyDeltas J chunks.flatten)) :
    (((bodyDeltas J (chatStream J U output cfg entries hasBudget gate failure chunks).sent.flatten).filter
        fun x => mine x.1).map Prod.snd).flatten =
      let own := ((bodyDeltas J chunks.flatten).filter fun x => mine x.1).map Prod.snd
      if cfg.outputEnabled then
        ((DeanonymizeStream.new entries cfg.strategy).pushAll (own.map (filterOutput U output))).2
      else own.flatten := by
  rw [deltas_sent hJ hrev hanswer hend]
  by_cases henabled : cfg.outputEnabled = true
  · rw [if_pos henabled, if_pos henabled, map_map]
    by_cases hempty : entries = []
    · rw [if_pos hempty, filter_map, map_map, DeanonymizeStream.pushAll_eq,
        push_no_entries entries cfg.strategy hempty]
      rfl
    have hstart : Started entries cfg.strategy (.new entries cfg.strategy) := by
      refine ⟨[], ?_⟩
      rw [DeanonymizeStream.push_entries hempty]
      rfl
    rw [if_neg hempty]
    exact applyAll_own hstart (fun h => by cases h) (fun _ => rfl) (hclosed henabled)
  · rw [if_neg henabled, if_neg henabled]

theorem contents_sent :
    (contents J (chatStream J U output cfg entries hasBudget gate failure chunks).sent.flatten).flatten =
      if cfg.outputEnabled then
        ((DeanonymizeStream.new entries cfg.strategy).pushAll
          ((contents J chunks.flatten).map (filterOutput U output))).2
      else (contents J chunks.flatten).flatten := by
  have hall := filtered_sent hJ hrev hanswer hend (fun _ => true) fun _ =>
    closedAtSwitches_all _ fun _ => rfl
  rw [filter_true, filter_true] at hall
  exact hall

end Sent

/-! ## Nothing is lost -/

/-- The entries of a vault with one number, in the indexed style. -/
def numberEntries : List (Text × Text) :=
  ((LocalVault.withStyle .indexed).storeAll [("SSN".toList, "123-45-6789".toList)]).entryList

def filtering : ContentConfig := ⟨true, true, "exact".toList⟩

/-- An answer of which each content is one event, for that vault. -/
def chatContents (cfg : ContentConfig) (cs : List (Nat × Text)) : StreamResult :=
  chatStream compactJson .ascii .plain cfg numberEntries false none none [contentEvents cs]

theorem chatContents_ending (cfg : ContentConfig) (cs : List (Nat × Text)) :
    (chatContents cfg cs).ending = .completed :=
  ending_of_no_gate none rfl _

theorem answerStream_chat {cs : List (Nat × Text)} (h : Printable cs) :
    AnswerStream compactJson [contentEvents cs].flatten := by
  rw [flatten_singleton]
  exact (answerStream_contentEvents h).1

theorem contents_chat {cs : List (Nat × Text)} (h : Printable cs) :
    contents compactJson [contentEvents cs].flatten = cs.map Prod.snd := by
  unfold contents
  rw [flatten_singleton, (answerStream_contentEvents h).2, map_map]
  rfl

/-- The characters of an answer, with those marked that the filter masks. The filter sees each
content by itself. -/
def markedContent (U : Unicode) (output : OutputDictionary) (pieces : List Text) :
    List (Char × Bool) :=
  pieces.flatMap (markOutput U output)

/-- What a client gets for a part of an answer, taken by itself. -/
def shown (cfg : ContentConfig) (entries : List (Text × Text)) (cs : List (Char × Bool)) : Text :=
  if cfg.outputEnabled then ((DeanonymizeStream.new entries cfg.strategy).push (masked cs)).2
  else cs.map Prod.fst

/-- Entities without bracket or asterisk, and values without bracket. -/
structure PlainVault (pairs : List (Text × Text)) : Prop where
  names : ∀ e ∈ pairs, brackets.Plain e.1 ∧ '*' ∉ e.1
  values : ∀ e ∈ pairs, brackets.Plain e.2

/-- At the turn of its entry the placeholder `p` between `x` and `y` becomes its value. -/
def RestoredAtTurn (strategy : Guard.MatchingStrategy) (entries : List (Text × Text))
    (x p v y result : Text) : Prop :=
  ∀ before after, entries = before ++ (p, v) :: after →
    result = strategy.restore (strategy.restore x (before ++ [(p, v)]) ++
      (v ++ strategy.restore y (before ++ [(p, v)]))) after

theorem masked_markedContent (pieces : List Text) :
    masked (markedContent U output pieces) = (pieces.map (filterOutput U output)).flatten := by
  induction pieces with
  | nil => rfl
  | cons piece pieces ih =>
    unfold markedContent at ih ⊢
    rw [flatMap_cons, Matcher.masked_append, ih, map_cons, flatten_cons, Matcher.filterOutput_eq]

theorem map_fst_markedContent (pieces : List Text) :
    (markedContent U output pieces).map Prod.fst = pieces.flatten := by
  induction pieces with
  | nil => rfl
  | cons piece pieces ih =>
    unfold markedContent at ih ⊢
    rw [flatMap_cons, map_append, ih, Matcher.map_fst_markOutput, flatten_cons]

theorem respects_markedContent (pieces : List Text) :
    Matcher.Respects (markedContent U output pieces) := by
  intro c hc
  obtain ⟨piece, -, hmem⟩ := mem_flatMap.1 hc
  exact Matcher.respects_markOutput piece c hmem

theorem shown_append {X Y : List (Char × Bool)} (hX : Matcher.Respects X)
    (hclosed : brackets.inside false (X.map Prod.fst) = false) :
    shown cfg entries (X ++ Y) = shown cfg entries X ++ shown cfg entries Y := by
  unfold shown
  split
  next =>
    rw [Matcher.masked_append]
    unfold DeanonymizeStream.push
    split
    next => rfl
    next =>
      rw [← Matcher.inside_masked hX] at hclosed
      rw [DeanonymizeStream.chars_append_of_not_inside hclosed]
  next => exact map_append

theorem contents_shown (hJ : JsonLines J) (hrev : cfg.reversible = true)
    (hanswer : AnswerStream J chunks.flatten)
    (hend : (chatStream J U output cfg entries hasBudget gate failure chunks).ending = .completed) :
    (contents J (chatStream J U output cfg entries hasBudget gate failure chunks).sent.flatten).flatten =
      shown cfg entries (markedContent U output (contents J chunks.flatten)) := by
  rw [contents_sent hJ hrev hanswer hend, DeanonymizeStream.pushAll_eq]
  unfold shown
  rw [masked_markedContent, map_fst_markedContent]

theorem shown_slot {P : List (Char × Bool)} (hP : Matcher.Respects P)
    (hslot : brackets.IsSlot (P.map Prod.fst)) (hlen : Str.len (P.map Prod.fst) ≤ 60)
    (hne : entries ≠ []) (henabled : cfg.outputEnabled = true) :
    shown cfg entries P = cfg.strategy.restore (masked P) entries := by
  have hmasked := Matcher.isSlot_masked hP hslot
  rw [← Matcher.len_masked] at hlen
  obtain ⟨name, hname, heq⟩ := hmasked
  have hsnoc : masked P = '[' :: name ++ [']'] := heq
  rw [hsnoc, Utf8.len_append] at hlen
  have hwindow : DeanonymizeStream.IsWindow ('[' :: name) := by
    refine ⟨⟨name, rfl⟩, ?_, ?_⟩
    · intro hmem
      rcases mem_cons.1 hmem with hbad | hmem
      · cases hbad
      · exact hname.2 hmem
    · unfold Guard.maxPlaceholderLen
      omega
  unfold shown
  rw [if_pos henabled, DeanonymizeStream.push_entries hne, hsnoc,
    DeanonymizeStream.chars_closed hwindow]
  exact append_nil _

section Vault

variable {style : PlaceholderTemplate} {pairs : List (Text × Text)}

theorem inside_format (style : PlaceholderTemplate) (entity : Text) (idx : Nat) :
    brackets.inside false (style.format entity idx) = false := by
  have hclose : ∀ b, brackets.inside b "]".toList = false := by decide
  rw [PlaceholderTemplate.format_eq, Delims.inside_append, Delims.inside_append,
    Delims.inside_append, Delims.inside_append, hclose]

theorem star_notMem_format (style : PlaceholderTemplate) {entity : Text} (h : '*' ∉ entity)
    (idx : Nat) : '*' ∉ style.format entity idx := by
  have hstem : '*' ∉ style.stem := by cases style <;> decide
  have hidx : '*' ∉ Str.decimal idx := fun hmem => by cases Str.isDigit_of_mem_decimal hmem
  rw [PlaceholderTemplate.format_eq]
  simp only [mem_append, not_or]
  exact ⟨hstem, h, by decide, hidx, by decide⟩

theorem not_matches_of_star {key q : Text} (hkey : '*' ∉ key) (hq : '*' ∈ q) :
    ¬ strategy.Matches key q := by
  intro hmatch
  cases strategy with
  | exact =>
    have heq : q = key := hmatch
    exact hkey (heq ▸ hq)
  | caseInsensitive => exact hkey ((Guard.mem_of_eqIgnoreAsciiCase (by decide) hmatch).1 hq)

theorem shown_eq_iff (hpairs : PlainVault pairs)
    (hvault : entries.Perm ((LocalVault.withStyle style).storeAll pairs).entryList)
    {P : List (Char × Bool)} (hP : Matcher.Respects P) (hmem : (P.map Prod.fst, v) ∈ entries)
    (hlen : Str.len (P.map Prod.fst) ≤ 60) :
    shown cfg entries P = v ↔ cfg.outputEnabled = true ∧ (∀ x ∈ P, x.2 = false) ∧
      cfg.strategy.restore (P.map Prod.fst) entries = v := by
  obtain ⟨hentries, hvals⟩ :=
    DeanonymizeStream.entries_storeAll (fun e he => (hpairs.names e he).1) hpairs.values hvault
  have hslot := hentries.slots _ hmem
  have hv := hvals _ hmem
  have hne : entries ≠ [] := ne_nil_of_mem hmem
  have hopen : ∀ {q}, brackets.IsSlot q → q ≠ v := by
    rintro q ⟨name, -, rfl⟩ rfl
    exact hv.1 mem_cons_self
  constructor
  · intro hshown
    have henabled : cfg.outputEnabled = true := by
      by_contra hdisabled
      unfold shown at hshown
      rw [if_neg hdisabled] at hshown
      exact hopen hslot hshown
    rw [shown_slot hP hslot hlen hne henabled] at hshown
    have hunmarked : ∀ x ∈ P, x.2 = false := by
      by_contra hmarked
      have hmasked := Matcher.isSlot_masked hP hslot
      have hstar := Matcher.star_mem_masked hmarked
      have hfind : (entries.find? fun e => decide (cfg.strategy.Matches e.1 (masked P))) = none := by
        rw [find?_eq_none]
        intro e he
        obtain ⟨entity, idx, hpair, hformat⟩ :=
          LocalVault.of_get_storeAll (LocalVault.mem_entryList.1 (hvault.subset he))
        rw [decide_eq_true_eq, hformat]
        exact not_matches_of_star (star_notMem_format style (hpairs.names _ hpair).2 idx) hstar
      rw [Guard.MatchingStrategy.restore_slot hentries.slots hvals hmasked, hfind] at hshown
      exact hopen hmasked hshown
    rw [Matcher.masked_unmarked hunmarked] at hshown
    exact ⟨henabled, hunmarked, hshown⟩
  · rintro ⟨henabled, hunmarked, hrestore⟩
    rw [shown_slot hP hslot hlen hne henabled, Matcher.masked_unmarked hunmarked, hrestore]

/-- The first entry that restores `p` is its own. -/
def FirstMatch (strategy : Guard.MatchingStrategy) (entries : List (Text × Text)) (p v : Text) :
    Prop :=
  entries.find? (fun e => decide (strategy.Matches e.1 p)) = some (p, v)

theorem firstMatch_exact (hentries : brackets.Entries entries) (hmem : (p, v) ∈ entries) :
    FirstMatch .exact entries p v := by
  unfold FirstMatch
  cases hfind : entries.find? fun e => decide (Guard.MatchingStrategy.exact.Matches e.1 p) with
  | none =>
    have := find?_eq_none.1 hfind _ hmem
    rw [decide_eq_true_eq] at this
    exact absurd rfl this
  | some e =>
    have hmatch := find?_some hfind
    have hself : p = e.1 := of_decide_eq_true hmatch
    have he : (p, e.2) ∈ entries := by
      rw [hself]
      exact mem_of_find?_eq_some hfind
    rw [hentries.value_unique hmem he, hself]

theorem FirstMatch.restore (hentries : brackets.Entries entries)
    (hvals : ∀ e ∈ entries, brackets.Plain e.2) (hmem : (p, v) ∈ entries)
    (h : FirstMatch strategy entries p v) : strategy.restore p entries = v := by
  rw [Guard.MatchingStrategy.restore_slot hentries.slots hvals (hentries.slots _ hmem),
    show entries.find? _ = _ from h]
  rfl

theorem FirstMatch.not_before {before after : List (Text × Text)}
    (hentries : brackets.Entries (before ++ (p, v) :: after))
    (h : FirstMatch strategy (before ++ (p, v) :: after) p v) :
    ∀ e ∈ before, ¬ strategy.Matches e.1 p := by
  intro e he hmatch
  have hnodup := hentries.nodup
  rw [map_append, nodup_append] at hnodup
  unfold FirstMatch at h
  rw [find?_append] at h
  cases hfind : before.find? fun e => decide (strategy.Matches e.1 p) with
  | none =>
    have := find?_eq_none.1 hfind e he
    rw [decide_eq_true_eq] at this
    exact this hmatch
  | some e' =>
    rw [hfind, Option.some_or, Option.some.injEq] at h
    have hbefore : (p, v) ∈ before := h ▸ mem_of_find?_eq_some hfind
    exact hnodup.2.2 p (mem_map_of_mem hbefore) p mem_cons_self rfl

/-- On the other path the filter sees the whole text, and the placeholder in it stays. -/
theorem response_restored (hentries : brackets.Entries entries) (hrev : cfg.reversible = true)
    {a b : Text} (hmem : (p, v) ∈ entries) (hfirst : FirstMatch cfg.strategy entries p v)
    {resp : Json} (hresp : messageContents resp = [a ++ (p ++ b)]) :
    ∃ X Y result, X.map Prod.fst = a ∧ Y.map Prod.fst = b ∧
      messageContents (chatResponse U output cfg entries resp) = [result] ∧
      RestoredAtTurn cfg.strategy entries (if cfg.outputEnabled then masked X else a) p v
        (if cfg.outputEnabled then masked Y else b) result := by
  have hslot := hentries.slots _ hmem
  obtain ⟨X, rest, hmarks, hX, hrest⟩ :=
    map_eq_append_iff.1 (@Matcher.map_fst_markOutput U output (a ++ (p ++ b)))
  obtain ⟨P, Y, rfl, hP, hY⟩ := map_eq_append_iff.1 hrest
  have hunmarked := Matcher.unmarked_of_isSlot hmarks (hP ▸ hslot)
  have hfiltered : filterOutput U output (a ++ (p ++ b)) = masked X ++ (p ++ masked Y) := by
    rw [Matcher.filterOutput_eq, hmarks, Matcher.masked_append, Matcher.masked_append,
      Matcher.masked_unmarked hunmarked, hP]
  have hsides : (if cfg.outputEnabled then filterOutput U output (a ++ (p ++ b))
      else a ++ (p ++ b)) = (if cfg.outputEnabled then masked X else a) ++
        (p ++ if cfg.outputEnabled then masked Y else b) := by
    rw [hfiltered]
    split <;> rfl
  refine ⟨X, Y, cfg.strategy.restore ((if cfg.outputEnabled then masked X else a) ++
    (p ++ if cfg.outputEnabled then masked Y else b)) entries, hX, hY, ?_, ?_⟩
  · rw [messageContents_chatResponse U output cfg entries hrev, hresp, map_singleton, hsides]
  · rintro before after rfl
    exact Guard.MatchingStrategy.restore_turn hentries.slots (hfirst.not_before hentries) _ _

end Vault

/-! ## Choices -/

end Contents

end Nanoguard.Proxy

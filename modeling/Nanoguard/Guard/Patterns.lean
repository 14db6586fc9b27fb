import Nanoguard.Guard.ToolGate
import Nanoguard.Lib.Wildcard

/-!
# What the patterns of the tool gate mean

A pattern is written with stars at its ends, and `Pattern::matches` takes one star away: the last
one, or else the first one. What is left is compared letter by letter, so a second star asks for a
star in the name of the tool.
-/

namespace Nanoguard.Guard

open List

open Wildcard (Expands)

variable {raw head tail name : Text}

/-! ## The three tests -/

theorem patternMatches_trail (head name : Text) :
    patternMatches (head ++ ['*']) name = true ↔ head <+: name := by
  have hstrip : Str.stripSuffix ['*'] (head ++ ['*']) = some head := by
    unfold Str.stripSuffix
    simp
  unfold patternMatches
  rw [hstrip]
  exact decide_eq_true_iff

theorem patternMatches_lead (h : ¬ ['*'] <:+ '*' :: tail) (name : Text) :
    patternMatches ('*' :: tail) name = true ↔ tail <:+ name := by
  have hsuffix : Str.stripSuffix ['*'] ('*' :: tail) = none := if_neg h
  unfold patternMatches
  rw [hsuffix]
  exact decide_eq_true_iff

theorem patternMatches_plain (hlast : ¬ ['*'] <:+ raw) (hfirst : ¬ ['*'] <+: raw) (name : Text) :
    patternMatches raw name = true ↔ raw = name := by
  have hsuffix : Str.stripSuffix ['*'] raw = none := if_neg hlast
  have hprefix : Str.stripPrefix ['*'] raw = none := if_neg hfirst
  unfold patternMatches
  rw [hsuffix, hprefix]
  exact beq_iff_eq

theorem pattern_cases (raw : Text) : (∃ head, raw = head ++ ['*']) ∨
    (¬ ['*'] <:+ raw ∧ ∃ tail, raw = '*' :: tail) ∨ (¬ ['*'] <:+ raw ∧ ¬ ['*'] <+: raw) := by
  by_cases hlast : ['*'] <:+ raw
  · obtain ⟨head, rfl⟩ := hlast
    exact .inl ⟨head, rfl⟩
  by_cases hfirst : ['*'] <+: raw
  · obtain ⟨tail, rfl⟩ := hfirst
    exact .inr (.inl ⟨hlast, tail, rfl⟩)
  · exact .inr (.inr ⟨hlast, hfirst⟩)

theorem expands_of_patternMatches (h : patternMatches raw name = true) : Expands '*' raw name := by
  rcases pattern_cases raw with ⟨head, rfl⟩ | ⟨hlast, tail, rfl⟩ | ⟨hlast, hfirst⟩
  · obtain ⟨rest, rfl⟩ := (patternMatches_trail head name).1 h
    exact Wildcard.expands_append.2
      ⟨head, rest, rfl, Wildcard.expands_self '*' head, Wildcard.expands_stars 0 rest⟩
  · obtain ⟨front, rfl⟩ := (patternMatches_lead hlast name).1 h
    exact .star front (Wildcard.expands_self '*' tail)
  · rw [(patternMatches_plain hlast hfirst name).1 h]
    exact Wildcard.expands_self '*' name

theorem length_le_of_patternMatches (h : patternMatches raw name = true) :
    raw.length ≤ name.length + 1 := by
  rcases pattern_cases raw with ⟨head, rfl⟩ | ⟨hlast, tail, rfl⟩ | ⟨hlast, hfirst⟩
  · rw [length_append]
    exact Nat.succ_le_succ ((patternMatches_trail head name).1 h).length_le
  · exact Nat.succ_le_succ ((patternMatches_lead hlast name).1 h).length_le
  · rw [(patternMatches_plain hlast hfirst name).1 h]
    exact Nat.le_succ _

/-! ## Patterns with stars at their ends -/

/-- All stars of the pattern are at its start or at its end. -/
def StarsAtEnds (raw : Text) : Prop :=
  ∃ i body j, '*' ∉ body ∧ raw = List.replicate i '*' ++ (body ++ List.replicate j '*')

theorem not_suffix_of_notMem {c : Char} {body : Text} (hc : c ∉ body) : ¬ [c] <:+ body :=
  fun h => hc (h.subset mem_cons_self)

theorem patternMatches_iff_expands (hends : StarsAtEnds raw) (hcount : raw.count '*' ≤ 1)
    (name : Text) : patternMatches raw name = true ↔ Expands '*' raw name := by
  obtain ⟨i, body, j, hbody, rfl⟩ := hends
  have hsum : i = 0 ∧ j = 0 ∨ i = 0 ∧ j = 1 ∨ i = 1 ∧ j = 0 := by
    rw [count_append, count_append, count_replicate_self, count_replicate_self] at hcount
    omega
  rcases hsum with ⟨rfl, rfl⟩ | ⟨rfl, rfl⟩ | ⟨rfl, rfl⟩
  · have hraw : List.replicate 0 '*' ++ (body ++ List.replicate 0 '*') = body := by simp
    have hfirst : ¬ ['*'] <+: body := fun h => hbody (h.subset mem_cons_self)
    rw [hraw, patternMatches_plain (not_suffix_of_notMem hbody) hfirst,
      Wildcard.expands_of_notMem hbody, eq_comm]
  · exact (patternMatches_trail body name).trans (Wildcard.expands_trail hbody 0).symm
  have hraw : List.replicate 1 '*' ++ (body ++ List.replicate 0 '*') = '*' :: body := by simp
  rw [hraw]
  refine Iff.trans ?_ (Wildcard.expands_lead hbody 0).symm
  by_cases hnil : body = []
  · -- a single star is read as one at the end
    subst hnil
    exact (patternMatches_trail [] name).trans (iff_of_true nil_prefix nil_suffix)
  refine patternMatches_lead (fun h => ?_) name
  obtain ⟨c, rest, rfl⟩ := exists_cons_of_ne_nil hnil
  rcases suffix_cons_iff.1 h with h | h
  · cases h
  · exact not_suffix_of_notMem hbody h

/-- With more stars it does not: the pattern stands for what it holds besides its stars. -/
theorem count_le_of_patternMatches_iff
    (h : ∀ name, patternMatches raw name = true ↔ Expands '*' raw name) : raw.count '*' ≤ 1 := by
  have hlen := length_le_of_patternMatches ((h _).2 (Wildcard.expands_filter '*' raw))
  have hsplit : raw.length = raw.countP (· == '*') + raw.countP (fun c => decide (c ≠ '*')) := by
    rw [length_eq_countP_add_countP (· == '*')]
    simp
  rw [← countP_eq_length_filter] at hlen
  rw [List.count]
  omega

namespace ToolGate

def patterns (gate : ToolGate) : List Text := gate.allow.getD [] ++ gate.deny

theorem evaluate_of_deny (J : JsonText) {gate : ToolGate} {name : Text} (args : Text)
    (h : gate.deny.any (patternMatches · name) = true) :
    ∃ reason, gate.evaluate J name args = .deny reason := by
  unfold evaluate
  rw [if_pos h]
  exact ⟨_, rfl⟩

theorem evaluate_of_not_allow (J : JsonText) {gate : ToolGate} {name : Text} (args : Text)
    (h : gate.allow.any (fun allow => !allow.any (patternMatches · name)) = true) :
    ∃ reason, gate.evaluate J name args = .deny reason := by
  by_cases hdeny : gate.deny.any (patternMatches · name) = true
  · exact evaluate_of_deny J args hdeny
  · unfold evaluate
    rw [if_neg hdeny, if_pos h]
    exact ⟨_, rfl⟩

/-- **When patterns mean what a wildcard means.** In a gate whose patterns have their stars at the
ends, the code reads them as wildcards exactly when no pattern has a second star. -/
theorem wildcards_iff (J : JsonText) (gate : ToolGate)
    (hends : ∀ raw ∈ gate.patterns, StarsAtEnds raw) :
    ((∀ raw ∈ gate.patterns, ∀ name, patternMatches raw name = true ↔ Expands '*' raw name) ∧
      (∀ name args, (∃ raw ∈ gate.deny, Expands '*' raw name) →
        ∃ reason, gate.evaluate J name args = .deny reason) ∧
      ∀ name args allow, gate.allow = some allow → (¬ ∃ raw ∈ allow, Expands '*' raw name) →
        ∃ reason, gate.evaluate J name args = .deny reason) ↔
      ∀ raw ∈ gate.patterns, raw.count '*' ≤ 1 := by
  constructor
  · rintro ⟨hmeans, -, -⟩ raw hraw
    exact count_le_of_patternMatches_iff (hmeans raw hraw)
  · intro hcount
    have hmeans : ∀ raw ∈ gate.patterns, ∀ name,
        patternMatches raw name = true ↔ Expands '*' raw name :=
      fun raw hraw name => patternMatches_iff_expands (hends raw hraw) (hcount raw hraw) name
    refine ⟨hmeans, ?_, ?_⟩
    · rintro name args ⟨raw, hraw, hexp⟩
      apply evaluate_of_deny J args
      exact any_eq_true.2 ⟨raw, hraw, (hmeans raw (mem_append_right _ hraw) name).2 hexp⟩
    intro name args allow hallow hnone
    apply evaluate_of_not_allow J args
    rw [hallow, Option.any_some, Bool.not_eq_true', any_eq_false]
    intro raw hraw hmatch
    exact hnone ⟨raw, hraw, expands_of_patternMatches hmatch⟩

def searchGate (allow deny : List Text) : ToolGate where
  allow := some allow
  deny := deny
  schemas := ∅
  redactor := ⟨[], .bare⟩
  rejectEntities := []
  maskEntities := []

theorem starsAtEnds_trail {body : Text} (h : '*' ∉ body) : StarsAtEnds (body ++ ['*']) :=
  ⟨0, body, 1, h, rfl⟩

theorem starsAtEnds_both {body : Text} (h : '*' ∉ body) : StarsAtEnds ('*' :: (body ++ ['*'])) :=
  ⟨1, body, 1, h, rfl⟩

theorem wildcards_search :
    (∀ raw ∈ (searchGate ["search_*".toList] ["delete_*".toList]).patterns, raw.count '*' ≤ 1) ∧
      ∃ reason, (searchGate ["search_*".toList] ["delete_*".toList]).evaluate
        ⟨fun _ => .ok .null, fun _ => []⟩ "delete_all".toList [] = .deny reason := by
  have hcount : ∀ raw ∈ (searchGate ["search_*".toList] ["delete_*".toList]).patterns,
      raw.count '*' ≤ 1 := by decide
  have hends : ∀ raw ∈ (searchGate ["search_*".toList] ["delete_*".toList]).patterns,
      StarsAtEnds raw := by
    intro raw hraw
    rcases mem_cons.1 hraw with rfl | hraw
    · exact @starsAtEnds_trail "search_".toList (by decide)
    · rw [mem_singleton.1 hraw]
      exact @starsAtEnds_trail "delete_".toList (by decide)
  refine ⟨hcount, ((wildcards_iff _ _ hends).2 hcount).2.1 _ _ ?_⟩
  have hbody : '*' ∉ "delete_".toList := by decide
  exact ⟨"delete_*".toList, mem_singleton.2 rfl,
    (Wildcard.expands_trail hbody 0).2 ⟨"all".toList, rfl⟩⟩

/-- A pattern with a star at both ends denies nothing. -/
theorem starred_deny_allows :
    StarsAtEnds "*shell*".toList ∧ Expands '*' "*shell*".toList "run_shell_exec".toList ∧
      patternMatches "*shell*".toList "run_shell_exec".toList = false ∧
        (searchGate ["*".toList] ["*shell*".toList]).evaluate ⟨fun _ => .ok .null, fun _ => []⟩
          "run_shell_exec".toList "null".toList = .allow := by
  refine ⟨@starsAtEnds_both "shell".toList (by decide), ?_, by decide, rfl⟩
  have hmiddle : Expands '*' ("shell".toList ++ ['*']) ("shell".toList ++ "_exec".toList) :=
    (Wildcard.expands_trail (by decide) 0).2 (prefix_append _ _)
  exact .star "run_".toList hmiddle

end ToolGate

end Nanoguard.Guard

import Nanoguard.Lib.Utf8
import Nanoguard.Matcher.Settled

/-!
# The loop over the characters

`collapse_separators` with the indexes of the source: the outer loop looks for the start of a run, the
inner one collects its letters, and a run that is too short is scanned again from its second character.
-/

namespace Nanoguard.Matcher

open List

variable {chars : Text} {i j : Nat} {ch : Char}

/-- `chars[j + 2]`, if the run goes on with it. -/
def nextLetter (chars : Text) (j : Nat) : Option Char :=
  match chars[j + 1]?, chars[j + 2]? with
  | some sep, some ch => if isSeparator sep && ch.isAlphanum then some ch else none
  | _, _ => none

theorem lt_of_nextLetter (h : nextLetter chars j = some ch) : j + 2 < chars.length := by
  unfold nextLetter at h
  split at h
  next hch => exact (List.getElem?_eq_some_iff.1 hch).1
  next => cases h

/-- The inner loop: the letters of the run, and where the last one stands. -/
def runFrom (chars : Text) (j : Nat) (letters : Text) : Text × Nat :=
  match _h : nextLetter chars j with
  | some ch => runFrom chars (j + 2) (letters ++ [ch])
  | none => (letters, j)
termination_by chars.length - j
decreasing_by
  have := lt_of_nextLetter _h
  omega

theorem runLetters_drop_succ (chars : Text) (j : Nat) :
    runLetters (chars.drop (j + 1)) =
      match nextLetter chars j with
      | some ch => ch :: runLetters (chars.drop (j + 3))
      | none => [] := by
  have hsep : chars[j + 1]? = (chars.drop (j + 1))[0]? := by rw [getElem?_drop]
  have hch : chars[j + 2]? = (chars.drop (j + 1))[1]? := by rw [getElem?_drop]
  have hrest : chars.drop (j + 3) = (chars.drop (j + 1)).drop 2 := by rw [drop_drop]
  unfold nextLetter
  rw [hsep, hch, hrest]
  rcases chars.drop (j + 1) with _ | ⟨sep, _ | ⟨ch, text⟩⟩
  · rfl
  · rfl
  · simp only [runLetters, getElem?_cons_zero, getElem?_cons_succ]
    split <;> rfl

theorem runFrom_eq (chars : Text) (j : Nat) (letters : Text) :
    runFrom chars j letters =
      (letters ++ runLetters (chars.drop (j + 1)),
        j + 2 * (runLetters (chars.drop (j + 1))).length) := by
  fun_induction runFrom chars j letters with
  | case1 j letters ch h ih =>
    rw [ih, runLetters_drop_succ chars j, h]
    simp only [append_assoc, singleton_append, length_cons, Nat.mul_succ,
      Nat.add_comm (2 * _) 2, Nat.add_assoc]
  | case2 j letters h =>
    rw [runLetters_drop_succ chars j, h]
    simp

def collapseLoop (chars : Text) (i : Nat) (out : Text) : Text :=
  match _h : chars[i]? with
  | none => out
  | some ch =>
    let run := runFrom chars i [ch]
    if ch.isAlphanum && (nextLetter chars i).isSome && 4 ≤ Str.len run.1 then
      collapseLoop chars (run.2 + 1) (out ++ run.1)
    else collapseLoop chars (i + 1) (out ++ [ch])
termination_by chars.length - i
decreasing_by
  all_goals have := (List.getElem?_eq_some_iff.1 _h).1
  · simp only [runFrom_eq]
    omega
  · omega

theorem len_run (hch : ch.isAlphanum = true) (text : Text) :
    Str.len (ch :: runLetters text) = (runLetters text).length + 1 := by
  have hascii : ∀ c ∈ ch :: runLetters text, c.toNat < 128 := by
    intro c hc
    rcases mem_cons.1 hc with rfl | hc
    · exact Str.toNat_of_isAlphanum hch
    · exact Str.toNat_of_isAlphanum (mem_runLetters hc)
  rw [Str.len, Utf8.bytes_ascii hascii, length_map, length_cons]

theorem collapseLoop_eq (chars : Text) (i : Nat) (out : Text) :
    collapseLoop chars i out = out ++ collapseGo 0 (chars.drop i) := by
  fun_induction collapseLoop chars i out with
  | case1 i out h =>
    rw [drop_eq_nil_of_le (List.getElem?_eq_none_iff.1 h), collapseGo, append_nil]
  | case2 i out ch h run hlong ih =>
    obtain ⟨hi, hget⟩ := List.getElem?_eq_some_iff.1 h
    simp only [Bool.and_eq_true, decide_eq_true_eq] at hlong
    obtain ⟨⟨hch, -⟩, hlen⟩ := hlong
    have hrun : run = (ch :: runLetters (chars.drop (i + 1)),
        i + 2 * (runLetters (chars.drop (i + 1))).length) := runFrom_eq chars i [ch]
    rw [hrun, len_run hch] at hlen
    rw [ih, hrun, drop_eq_getElem_cons hi, hget, collapseGo_of_long ⟨hch, by omega⟩,
      drop_drop, append_assoc]
    congr 4
    omega
  | case3 i out ch h run hshort ih =>
    obtain ⟨hi, hget⟩ := List.getElem?_eq_some_iff.1 h
    rw [ih, drop_eq_getElem_cons hi, hget, collapseGo_of_not_long, append_assoc, singleton_append]
    rintro ⟨hch, hlen⟩
    apply hshort
    have hnext := runLetters_drop_succ chars i
    have hsome : (nextLetter chars i).isSome = true := by
      cases hletter : nextLetter chars i with
      | some _ => rfl
      | none =>
        rw [hletter] at hnext
        simp [hnext] at hlen
    have hrun : run.1 = ch :: runLetters (chars.drop (i + 1)) :=
      congrArg Prod.fst (runFrom_eq chars i [ch])
    simp only [hch, hsome, hrun, len_run hch, Bool.true_and, decide_eq_true_eq]
    omega

/-- **What `collapse_separators` computes**: the text without the separators inside the maximal runs
of at least four letters; and once is enough. -/
theorem collapse_separators_spec (text : Text) :
    collapseLoop text 0 [] = separatorRuns.withoutLong [] text ∧
      collapseLoop (collapseLoop text 0 []) 0 [] = collapseLoop text 0 [] := by
  have hloop (t : Text) : collapseLoop t 0 [] = collapseSeparators t := collapseLoop_eq t 0 []
  refine ⟨?_, ?_⟩
  · rw [hloop, collapseSeparators_eq]
    exact Runs.kept_eq_withoutLong [] text
  · rw [hloop, hloop, collapseSeparators_idem]

end Nanoguard.Matcher

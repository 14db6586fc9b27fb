import Nanoguard.Lib.Pairing
import Nanoguard.Proxy.RedactBytes

/-!
# The evaluation of the recognizers

`nanoguard-eval` runs the redactor over a labelled corpus. In each record every detection takes the
first annotation that is free and that it matches; what is left over on either side is a false alarm
or a miss.
-/

namespace Nanoguard.Evaluation

open List

open Redact (Redactor RedactMatch)
open Pairing (IsPairing pairAll)

structure Annotation where
  entity : Text
  start : Nat
  «end» : Nat
  deriving DecidableEq, Repr

structure Record where
  text : Text
  annotations : List Annotation

inductive MatchMode where
  | strict
  | lenient
  deriving DecidableEq, Repr

def matchesOverlap (mode : MatchMode) (detected : RedactMatch) (gold : Annotation) : Bool :=
  if detected.entity ≠ gold.entity then false
  else
    match mode with
    | .strict => detected.start = gold.start && detected.end = gold.end
    | .lenient => detected.start < gold.end && gold.start < detected.end

inductive Outcome where
  | tp
  | fp
  | fnCount
  deriving DecidableEq, Repr

structure EntityCounts where
  tp : Nat := 0
  fp : Nat := 0
  fnCount : Nat := 0
  deriving DecidableEq, Repr

namespace EntityCounts

def get (c : EntityCounts) : Outcome → Nat
  | .tp => c.tp
  | .fp => c.fp
  | .fnCount => c.fnCount

def bump (c : EntityCounts) : Outcome → EntityCounts
  | .tp => { c with tp := c.tp + 1 }
  | .fp => { c with fp := c.fp + 1 }
  | .fnCount => { c with fnCount := c.fnCount + 1 }

theorem get_bump (c : EntityCounts) (o o' : Outcome) :
    (c.bump o).get o' = c.get o' + if o = o' then 1 else 0 := by
  cases o <;> cases o' <;> rfl

end EntityCounts

structure Report where
  annotationCount : Nat := 0
  totals : EntityCounts := {}
  byEntity : AList (fun _ : Text => EntityCounts) := ∅

/-- `by_entity.entry(..).or_default()` and the totals are counted up. -/
def Report.count (r : Report) (entity : Text) (o : Outcome) : Report :=
  { r with
    totals := r.totals.bump o
    byEntity := r.byEntity.insert entity (((r.byEntity.lookup entity).getD {}).bump o) }

/-- What a record counts: the pairs in the order of the detections, the detections and the
annotations that are left over. -/
def outcomes (mode : MatchMode) (detected : List RedactMatch) (gold : List Annotation) :
    List (Text × Outcome) :=
  let marks := pairAll (matchesOverlap mode) detected gold
  (marks.2.reduceOption.map fun gi => ((gold[gi]?.map Annotation.entity).getD [], .tp)) ++
    ((detected.zip marks.2).filter fun d => d.2.isNone).map (fun d => (d.1.entity, .fp)) ++
    ((gold.zip marks.1).filter fun g => !g.2).map fun g => (g.1.entity, .fnCount)

def evaluateRecord (mode : MatchMode) (redactor : Redactor) (r : Report) (rec : Record) : Report :=
  (outcomes mode (redactor.findMatchesBytes rec.text) rec.annotations).foldl
    (fun r e => r.count e.1 e.2)
    { r with annotationCount := r.annotationCount + rec.annotations.length }

def evaluate (mode : MatchMode) (redactor : Redactor) (corpus : List Record) : Report :=
  corpus.foldl (evaluateRecord mode redactor) {}

/-! ## Counting -/

/-- What a kind of outcome makes over all entities. -/
def Report.sum (r : Report) (o : Outcome) : Nat := (r.byEntity.entries.map fun e => e.2.get o).sum

theorem sum_kerase (h : EntityCounts → Nat) (entity : Text)
    (entries : List ((_ : Text) × EntityCounts)) (hzero : h {} = 0) :
    h ((entries.dlookup entity).getD {}) + ((entries.kerase entity).map fun e => h e.2).sum =
      (entries.map fun e => h e.2).sum := by
  induction entries with
  | nil => simp [hzero]
  | cons e entries ih =>
    by_cases hkey : entity = e.1
    · obtain ⟨key, c⟩ := e
      subst hkey
      simp
    · rw [dlookup_cons_ne _ _ hkey, kerase_cons_ne hkey, map_cons, sum_cons,
        map_cons, sum_cons]
      omega

theorem sum_count (r : Report) (entity : Text) (o o' : Outcome) :
    (r.count entity o).sum o' = r.sum o' + if o = o' then 1 else 0 := by
  have hkerase := sum_kerase (EntityCounts.get · o') entity r.byEntity.entries (by cases o' <;> rfl)
  unfold Report.sum Report.count
  simp only [AList.entries_insert, map_cons, sum_cons, EntityCounts.get_bump, AList.lookup]
  omega

theorem foldl_count (events : List (Text × Outcome)) (r : Report) (o : Outcome) :
    let r' := events.foldl (fun r e => r.count e.1 e.2) r
    let n := events.countP fun e => e.2 = o
    r'.totals.get o = r.totals.get o + n ∧ r'.sum o = r.sum o + n ∧
      r'.annotationCount = r.annotationCount := by
  induction events generalizing r with
  | nil => exact ⟨rfl, rfl, rfl⟩
  | cons e events ih =>
    obtain ⟨htotals, hsum, hannotations⟩ := ih (r.count e.1 e.2)
    rw [sum_count] at hsum
    have hbump : (r.count e.1 e.2).totals.get o = r.totals.get o + if e.2 = o then 1 else 0 :=
      EntityCounts.get_bump _ _ _
    simp only [foldl_cons, countP_cons, decide_eq_true_eq]
    exact ⟨by omega, by omega, hannotations⟩

section Corpus

variable (mode : MatchMode) (redactor : Redactor)

def recordPairs (record : Record) : List (Option Nat) :=
  (pairAll (matchesOverlap mode) (redactor.findMatchesBytes record.text) record.annotations).2

def counted (o : Outcome) (record : Record) : Nat :=
  (outcomes mode (redactor.findMatchesBytes record.text) record.annotations).countP fun e => e.2 = o

omit mode redactor in
theorem matchesOverlap_strict (d : RedactMatch) (g : Annotation) :
    matchesOverlap .strict d g = true ↔ (d.entity, d.start, d.end) = (g.entity, g.start, g.end) := by
  unfold matchesOverlap
  split <;> simp_all

omit mode redactor in
theorem countP_outcome {α : Type} (l : List α) (f : α → Text) (o o' : Outcome) :
    ((l.map fun a => (f a, o)).countP fun e => e.2 = o') = if o = o' then l.length else 0 := by
  rw [countP_map]
  split
  next h => exact countP_eq_length.2 fun a _ => decide_eq_true h
  next h => exact countP_eq_zero.2 fun a _ => by simpa using h

omit mode redactor in
theorem length_filter_zip {α β : Type} {l : List α} {l' : List β} (h : l'.length ≤ l.length)
    (p : β → Bool) : ((l.zip l').filter fun x => p x.2).length = l'.countP p := by
  conv => rhs; rw [← map_snd_zip h, countP_map]
  exact countP_eq_length_filter.symm

theorem outcomes_counts (detected : List RedactMatch) (gold : List Annotation) :
    let n o := (outcomes mode detected gold).countP fun e => e.2 = o
    let pairs := (pairAll (matchesOverlap mode) detected gold).2.reduceOption.length
    n .tp = pairs ∧ n .tp + n .fp = detected.length ∧ n .tp + n .fnCount = gold.length := by
  have hpaired := Pairing.paired_pairAll (matchesOverlap mode) detected gold
  obtain ⟨hdetected, hgold⟩ := Pairing.counts_pairAll (matchesOverlap mode) detected gold
  unfold outcomes
  generalize pairAll (matchesOverlap mode) detected gold = marks at *
  rw [← countP_eq_length_filter] at hdetected
  have hmarks : marks.1.countP (fun m => !m) = marks.1.count false :=
    countP_congr fun m _ => by cases m <;> decide
  simp only [countP_append, countP_outcome, reduceCtorEq, if_true, if_false,
    length_filter_zip hpaired.length_eq.le Option.isNone,
    length_filter_zip (hpaired.length_used.trans (length_replicate ..)).le (fun m => !m)]
  omega

theorem foldl_evaluate (corpus : List Record) (r : Report) (o : Outcome) :
    let r' := corpus.foldl (evaluateRecord mode redactor) r
    let n := (corpus.map (counted mode redactor o)).sum
    r'.totals.get o = r.totals.get o + n ∧ r'.sum o = r.sum o + n ∧
      r'.annotationCount =
        r.annotationCount + (corpus.map fun record => record.annotations.length).sum := by
  induction corpus generalizing r with
  | nil => exact ⟨rfl, rfl, rfl⟩
  | cons record corpus ih =>
    obtain ⟨htotals, hsum, hannotations⟩ := ih (evaluateRecord mode redactor r record)
    obtain ⟨htotals', hsum', hannotations'⟩ := foldl_count
      (outcomes mode (redactor.findMatchesBytes record.text) record.annotations)
      { r with annotationCount := r.annotationCount + record.annotations.length } o
    simp only [foldl_cons]
    rw [htotals, hsum, hannotations]
    unfold evaluateRecord counted
    rw [htotals', hsum', hannotations']
    exact ⟨Nat.add_assoc _ _ _, Nat.add_assoc _ _ _, Nat.add_assoc _ _ _⟩

/-- **The counts of a report are consistent**: with the misses the pairs make up the annotations,
with the false alarms the detections; the entities sum up to the totals; the pairs are one to one,
and under strict matching no other pairs are more. -/
theorem report_counts (corpus : List Record) :
    let report := evaluate mode redactor corpus
    report.totals.tp + report.totals.fnCount = report.annotationCount ∧
    report.annotationCount = (corpus.map fun record => record.annotations.length).sum ∧
    report.totals.tp + report.totals.fp =
      (corpus.map fun record => (redactor.findMatchesBytes record.text).length).sum ∧
    (∀ o, report.sum o = report.totals.get o) ∧
    (∀ record, IsPairing (matchesOverlap mode) (redactor.findMatchesBytes record.text)
      record.annotations (recordPairs mode redactor record)) ∧
    report.totals.tp =
      (corpus.map fun record => (recordPairs mode redactor record).reduceOption.length).sum ∧
    (mode = .strict → ∀ pairings, List.Forall₂ (fun record => IsPairing (matchesOverlap mode)
        (redactor.findMatchesBytes record.text) record.annotations) corpus pairings →
      (pairings.map fun pairs => pairs.reduceOption.length).sum ≤ report.totals.tp) := by
  intro report
  have hspec (o : Outcome) : report.totals.get o = (corpus.map (counted mode redactor o)).sum ∧
      report.sum o = (corpus.map (counted mode redactor o)).sum ∧ report.annotationCount =
        (corpus.map fun record => record.annotations.length).sum := by
    obtain ⟨htotals, hsum, hannotations⟩ := foldl_evaluate mode redactor corpus {} o
    have hstart : ({} : Report).totals.get o = 0 ∧ ({} : Report).sum o = 0 := by
      cases o <;> exact ⟨rfl, rfl⟩
    rw [hstart.1, Nat.zero_add] at htotals
    rw [hstart.2, Nat.zero_add] at hsum
    exact ⟨htotals, hsum, hannotations.trans (Nat.zero_add _)⟩
  have hrecord (record : Record) := outcomes_counts mode (redactor.findMatchesBytes record.text)
    record.annotations
  have hsum (o : Outcome) : report.totals.tp + report.totals.get o =
      (corpus.map fun record =>
        counted mode redactor .tp record + counted mode redactor o record).sum := by
    rw [sum_map_add, ← (hspec o).1, ← (hspec .tp).1]
    rfl
  have hpairs : report.totals.tp =
      (corpus.map fun record => (recordPairs mode redactor record).reduceOption.length).sum :=
    (hspec .tp).1.trans (congrArg List.sum (map_congr_left fun record _ => (hrecord record).1))
  refine ⟨?_, (hspec .tp).2.2, ?_, fun o => (hspec o).2.1.trans (hspec o).1.symm, fun record => ?_,
    hpairs, ?_⟩
  · rw [(hspec .tp).2.2]
    exact (hsum .fnCount).trans
      (congrArg List.sum (map_congr_left fun record _ => (hrecord record).2.2))
  · exact (hsum .fp).trans
      (congrArg List.sum (map_congr_left fun record _ => (hrecord record).2.1))
  · exact (Pairing.paired_pairAll _ _ _).toIsPairing
  rintro rfl pairings hpairings
  rw [hpairs]
  refine List.Forall₂.sum_le_sum (List.forall₂_map_left_iff.2 (List.forall₂_map_right_iff.2 ?_))
  exact hpairings.flip.imp fun pairs record h => Pairing.length_le_pairAll matchesOverlap_strict h

end Corpus

end Nanoguard.Evaluation

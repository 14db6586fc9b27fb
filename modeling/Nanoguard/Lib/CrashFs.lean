import Mathlib.Data.List.Basic

/-!
# Files and crashes

A file system as the processes see it, and what of it is on disk. A change of directory entries is
pending until its directory is synced: a crash keeps some of the pending changes and loses the
others. The data of a file is what was written if the file has been synced since, and anything
otherwise. A directory that is new may be lost with all that is in it.

A process runs a list of calls. Any of them can fail, and the process or the machine can stop before
any of them (`Exec`).
-/

namespace Nanoguard.CrashFs

open List

/-- Entries of one directory that change together. -/
structure Change (P D : Type) where
  dir : D
  entries : List (P × Option Nat)

/-- Files have numbers. `entry` and `data` are what the processes see. -/
structure Fs (P D β : Type) where
  entry : P → Option Nat
  data : Nat → List β
  /-- the entries on disk, without the pending changes -/
  onDisk : P → Option Nat
  pending : List (Change P D)
  /-- whether the data of a file is not yet on disk -/
  dirty : Nat → Bool
  dirs : List D
  /-- directories that are not yet on disk themselves -/
  newDirs : List D
  /-- the number of the next new file -/
  next : Nat

inductive Call (P D β : Type) where
  /-- reads, or opens to read -/
  | look
  | mkdir (d : D)
  /-- open for writing, from the start -/
  | create (p : P)
  | append (p : P) (chunk : List β)
  | fsync (p : P)
  | fsyncDir (d : D)
  | rename (p q : P)
  | remove (p : P)

variable {P D β ε : Type}

namespace Fs

def setData (s : Fs P D β) (i : Nat) (content : List β) : Fs P D β :=
  { s with
    data := fun j => if j = i then content else s.data j
    dirty := fun j => if j = i then true else s.dirty j }

def change [DecidableEq P] (s : Fs P D β) (dir : D) (entries : List (P × Option Nat)) : Fs P D β :=
  { s with
    entry := fun p => (entries.lookup p).getD (s.entry p)
    pending := s.pending ++ [⟨dir, entries⟩] }

def read (s : Fs P D β) (p : P) : Option (List β) := (s.entry p).map s.data

end Fs

/-- The effect of a call that succeeds; `none` if it cannot succeed. -/
def Call.apply [DecidableEq P] [DecidableEq D] (parent : P → D) (c : Call P D β) (s : Fs P D β) :
    Option (Fs P D β) :=
  match c with
  | .look => some s
  | .mkdir d =>
    some (if d ∈ s.dirs then s else { s with dirs := d :: s.dirs, newDirs := d :: s.newDirs })
  | .create p =>
    if parent p ∈ s.dirs then
      some (match s.entry p with
        | some i => s.setData i []
        | none =>
          { (s.setData s.next []).change (parent p) [(p, some s.next)] with next := s.next + 1 })
    else none
  | .append p chunk => (s.entry p).map fun i => s.setData i (s.data i ++ chunk)
  | .fsync p =>
    (s.entry p).map fun i => { s with dirty := fun j => if j = i then false else s.dirty j }
  | .fsyncDir d =>
    some { s with
      onDisk := fun p => if parent p = d then s.entry p else s.onDisk p
      pending := s.pending.filter fun ch => ch.dir ≠ d }
  | .rename p q =>
    if parent p = parent q then
      (s.entry p).map fun i => s.change (parent q) [(q, some i), (p, none)]
    else none
  | .remove p => some (s.change (parent p) [(p, none)])

/-! ## Stops -/

/-- The entry of a name after some of the pending changes. -/
def applyChanges [DecidableEq P] (kept : List (Change P D)) (q : P) (e : Option Nat) : Option Nat :=
  kept.foldl (fun e ch => (ch.entries.lookup q).getD e) e

/-- The machine stops: some of the pending changes and of the new directories are kept, and the data
of files that are not synced is anything. What is left is on disk. -/
structure Crash [DecidableEq P] [DecidableEq D] (parent : P → D) (s s' : Fs P D β) : Prop where
  entry : ∃ kept lost, List.Sublist kept s.pending ∧ lost ⊆ s.newDirs ∧
    ∀ p, s'.entry p = if parent p ∈ lost then none else applyChanges kept p (s.onDisk p)
  data : ∀ i, s.dirty i = false → s'.data i = s.data i
  onDisk : s'.onDisk = s'.entry
  pending : s'.pending = []
  dirty : ∀ i, s'.dirty i = false
  newDirs : s'.newDirs = []

def Stops [DecidableEq P] [DecidableEq D] (parent : P → D) (s s' : Fs P D β) : Prop :=
  s' = s ∨ Crash parent s s'

/-- A stop can leave the content under the name. -/
def Leaves [DecidableEq P] [DecidableEq D] (parent : P → D) (s : Fs P D β) (q : P)
    (c : Option (List β)) : Prop :=
  ∃ s', Stops parent s s' ∧ s'.read q = c

/-- The content under a name is the given one, and would be after a stop. -/
def Holds [DecidableEq P] [DecidableEq D] (parent : P → D) (s : Fs P D β) (q : P)
    (c : Option (List β)) : Prop :=
  ∀ s', Stops parent s s' → s'.read q = c

namespace Fs

/-- The entries that a crash can leave under a name. -/
def possible [DecidableEq P] (s : Fs P D β) (q : P) : List (Option Nat) :=
  s.onDisk q :: s.pending.filterMap fun ch => ch.entries.lookup q

/-- The contents that a crash can leave to an entry. -/
def Reads (s : Fs P D β) (e : Option Nat) (c : Option (List β)) : Prop :=
  match e with
  | none => c = none
  | some i => ∃ content, c = some content ∧ (s.dirty i = false → content = s.data i)

theorem reads_map (s : Fs P D β) (e : Option Nat) : s.Reads e (e.map s.data) := by
  cases e with
  | none => rfl
  | some i => exact ⟨s.data i, rfl, fun _ => rfl⟩

end Fs

/-- Every content of `q` that a crash can leave is `ok`. -/
structure Safe [DecidableEq P] (parent : P → D) (s : Fs P D β) (q : P)
    (ok : Option (List β) → Prop) : Prop where
  possible : ∀ e ∈ s.possible q, ∀ c, s.Reads e c → ok c
  lost : parent q ∈ s.newDirs → ok none

section Stops

variable [DecidableEq P] {parent : P → D} {s s' : Fs P D β} {q : P} {ok : Option (List β) → Prop}

theorem applyChanges_mem (kept : List (Change P D)) (q : P) (e : Option Nat) :
    applyChanges kept q e ∈ e :: kept.filterMap fun ch => ch.entries.lookup q := by
  induction kept generalizing e with
  | nil => exact mem_cons_self
  | cons ch kept ih =>
    have ih := ih ((ch.entries.lookup q).getD e)
    cases hlookup : ch.entries.lookup q with
    | none =>
      rw [hlookup] at ih
      rw [filterMap_cons]
      unfold applyChanges at ih ⊢
      rw [foldl_cons, hlookup]
      exact ih
    | some e' =>
      rw [hlookup] at ih
      rw [filterMap_cons]
      unfold applyChanges at ih ⊢
      rw [foldl_cons, hlookup]
      exact mem_cons_of_mem _ ih

variable [DecidableEq D]

theorem Crash.reads (h : Crash parent s s') (q : P) :
    parent q ∈ s.newDirs ∧ s'.read q = none ∨ ∃ e ∈ s.possible q, s.Reads e (s'.read q) := by
  obtain ⟨kept, lost, hkept, hlost, hentry⟩ := h.entry
  by_cases hdir : parent q ∈ lost
  · refine .inl ⟨hlost hdir, ?_⟩
    unfold Fs.read
    rw [hentry q, if_pos hdir]
    rfl
  refine .inr ⟨s'.entry q, ?_, ?_⟩
  · rw [hentry q, if_neg hdir]
    exact cons_subset_cons _ (hkept.filterMap _).subset (applyChanges_mem kept q (s.onDisk q))
  unfold Fs.read
  cases he : s'.entry q with
  | none => rfl
  | some i => exact ⟨s'.data i, rfl, h.data i⟩

theorem exists_crash_of_possible (parent : P → D) {e : Option Nat} {c : Option (List β)}
    (he : e ∈ s.possible q) (hc : s.Reads e c) : ∃ s', Crash parent s s' ∧ s'.read q = c := by
  obtain ⟨kept, hkept, hentry⟩ : ∃ kept, List.Sublist kept s.pending ∧
      applyChanges kept q (s.onDisk q) = e := by
    rcases mem_cons.1 he with rfl | he
    · exact ⟨[], nil_sublist _, rfl⟩
    obtain ⟨ch, hch, hlookup⟩ := mem_filterMap.1 he
    refine ⟨[ch], singleton_sublist.2 hch, ?_⟩
    unfold applyChanges
    rw [foldl_cons, hlookup]
    rfl
  let left : P → Option Nat := fun p => applyChanges kept p (s.onDisk p)
  -- the data of the file is the given content, and all other data is kept
  let data : Nat → List β := fun i => if e = some i then c.getD [] else s.data i
  refine ⟨⟨left, data, left, [], fun _ => false, s.dirs, [], s.next⟩, ⟨?_, ?_, rfl, rfl,
    fun _ => rfl, rfl⟩, ?_⟩
  · exact ⟨kept, [], hkept, nil_subset _, fun p => by simp [left]⟩
  · intro i hi
    by_cases hei : e = some i
    · subst hei
      obtain ⟨content, rfl, hclean⟩ := hc
      simp [data, hclean hi]
    · simp [data, hei]
  have hleft : left q = e := hentry
  unfold Fs.read
  simp only [hleft]
  cases e with
  | none => exact hc.symm
  | some i =>
    obtain ⟨content, rfl, -⟩ := hc
    simp [data]

theorem exists_crash_of_lost (h : parent q ∈ s.newDirs) :
    ∃ s', Crash parent s s' ∧ s'.read q = none := by
  let left : P → Option Nat := fun p => if parent p = parent q then none else s.onDisk p
  refine ⟨⟨left, s.data, left, [], fun _ => false, s.dirs, [], s.next⟩, ⟨?_, fun _ _ => rfl, rfl, rfl,
    fun _ => rfl, rfl⟩, ?_⟩
  · exact ⟨[], [parent q], nil_sublist _, by simpa using h, fun p => by
      simp [left, applyChanges]⟩
  · simp [Fs.read, left]

/-- **What it means to be safe**: every stop leaves an `ok` content. -/
theorem safe_iff (hentry : s.entry q ∈ s.possible q) :
    Safe parent s q ok ↔ ∀ s', Stops parent s s' → ok (s'.read q) := by
  constructor
  · intro h s' hstops
    rcases hstops with rfl | hcrash
    · exact h.possible _ hentry _ (s'.reads_map _)
    rcases hcrash.reads q with ⟨hnew, hnone⟩ | ⟨e, he, hreads⟩
    · rw [hnone]
      exact h.lost hnew
    · exact h.possible e he _ hreads
  · intro h
    constructor
    · intro e he c hc
      obtain ⟨s', hcrash, rfl⟩ := exists_crash_of_possible parent he hc
      exact h s' (.inr hcrash)
    · intro hnew
      obtain ⟨s', hcrash, hnone⟩ := exists_crash_of_lost hnew
      rw [← hnone]
      exact h s' (.inr hcrash)

theorem safe_leaves (hentry : s.entry q ∈ s.possible q) : Safe parent s q (Leaves parent s q) :=
  (safe_iff hentry).2 fun s' hstops => ⟨s', hstops, rfl⟩

theorem Safe.leaves (h : Safe parent s q ok) (hentry : s.entry q ∈ s.possible q)
    {c : Option (List β)} (hc : Leaves parent s q c) : ok c := by
  obtain ⟨s', hstops, rfl⟩ := hc
  exact (safe_iff hentry).1 h s' hstops

end Stops

/-! ## Single calls -/

/-- The names whose entry or data a call changes. -/
def Call.names : Call P D β → List P
  | .create p | .append p _ | .fsync p | .remove p => [p]
  | .rename p q => [p, q]
  | .look | .mkdir _ | .fsyncDir _ => []

/-- The entry of `q` is one of those a crash can leave, and `q` has one directory. -/
structure Rooted [DecidableEq P] (parent : P → D) (s : Fs P D β) (q : P) : Prop where
  entry_mem : s.entry q ∈ s.possible q
  placed : ∀ ch ∈ s.pending, ch.entries.lookup q ≠ none → ch.dir = parent q

/-- No other name has a file that a crash can leave under `q`. -/
structure Proper [DecidableEq P] (parent : P → D) (s : Fs P D β) (q : P) : Prop
    extends Rooted parent s q where
  numbered : ∀ i, some i ∈ s.possible q → i < s.next
  own : ∀ p, p ≠ q → ∀ i, s.entry p = some i → some i ∉ s.possible q
  dir_mem : s.entry q ≠ none → parent q ∈ s.dirs

section Changes

variable [DecidableEq P] {parent : P → D} {s : Fs P D β} {q : P} {ok : Option (List β) → Prop}

theorem possible_change (d : D) (entries : List (P × Option Nat)) :
    (s.change d entries).possible q = s.possible q ++ (entries.lookup q).toList := by
  unfold Fs.possible Fs.change
  cases hlookup : entries.lookup q <;> simp [hlookup]

section Other

variable {d : D} {entries : List (P × Option Nat)} (h : entries.lookup q = none)

include h

theorem possible_change_of_none : (s.change d entries).possible q = s.possible q := by
  rw [possible_change, h]
  exact append_nil _

theorem entry_change_of_none : (s.change d entries).entry q = s.entry q := by
  unfold Fs.change
  simp only [h, Option.getD_none]

theorem Safe.change (hsafe : Safe parent s q ok) : Safe parent (s.change d entries) q ok := by
  refine ⟨?_, hsafe.lost⟩
  rw [possible_change_of_none h]
  exact hsafe.possible

theorem Rooted.change (hrooted : Rooted parent s q) : Rooted parent (s.change d entries) q := by
  constructor
  · rw [possible_change_of_none h, entry_change_of_none h]
    exact hrooted.entry_mem
  · intro ch hch hlookup
    rcases mem_append.1 hch with hch | hch
    · exact hrooted.placed ch hch hlookup
    · rw [mem_singleton.1 hch] at hlookup
      exact absurd h hlookup

theorem Proper.change (hproper : Proper parent s q)
    (hown : ∀ i, some i ∈ entries.map Prod.snd → some i ∉ s.possible q) :
    Proper parent (s.change d entries) q := by
  refine ⟨hproper.toRooted.change h, ?_, ?_, ?_⟩
  · rw [possible_change_of_none h]
    exact hproper.numbered
  · intro p hp i hi
    rw [possible_change_of_none h]
    cases hlookup : entries.lookup p with
    | none =>
      rw [entry_change_of_none hlookup] at hi
      exact hproper.own p hp i hi
    | some e =>
      have hentry : (s.change d entries).entry p = e := by
        unfold Fs.change
        simp only [hlookup, Option.getD_some]
      rw [hentry] at hi
      subst hi
      obtain ⟨l, l', rfl, -⟩ := lookup_eq_some_iff.1 hlookup
      exact hown i (mem_map.2 ⟨_, mem_append_right _ mem_cons_self, rfl⟩)
  · rw [entry_change_of_none h]
    exact hproper.dir_mem

end Other

theorem lookup_single_ne {p : P} (h : q ≠ p) (e : Option Nat) : [(p, e)].lookup q = none := by
  have hbeq : (q == p) = false := beq_false_of_ne h
  simp [lookup_cons, hbeq]

theorem lookup_pair_ne {p r : P} (hr : q ≠ r) (hp : q ≠ p) (e e' : Option Nat) :
    [(r, e), (p, e')].lookup q = none := by
  have hbeq : (q == r) = false := beq_false_of_ne hr
  rw [lookup_cons, hbeq]
  exact lookup_single_ne hp e'

theorem Safe.setData (h : Safe parent s q ok) {i : Nat} (hi : some i ∉ s.possible q)
    (content : List β) : Safe parent (s.setData i content) q ok := by
  refine ⟨?_, h.lost⟩
  intro e he c hc
  apply h.possible e he c
  cases e with
  | none => exact hc
  | some j =>
    have hne : j ≠ i := by
      rintro rfl
      exact hi he
    obtain ⟨content', rfl, hclean⟩ := hc
    refine ⟨content', rfl, ?_⟩
    simpa [Fs.setData, hne] using hclean

theorem read_change_of_none {d : D} {entries : List (P × Option Nat)}
    (h : entries.lookup q = none) : (s.change d entries).read q = s.read q := by
  unfold Fs.read
  rw [entry_change_of_none h]
  rfl

theorem Proper.read_setData (h : Proper parent s q) {i : Nat} (hi : some i ∉ s.possible q)
    (content : List β) : (s.setData i content).read q = s.read q := by
  unfold Fs.read
  have hentry : (s.setData i content).entry q = s.entry q := rfl
  rw [hentry]
  cases he : s.entry q with
  | none => rfl
  | some j =>
    have hne : j ≠ i := by
      rintro rfl
      exact hi (he ▸ h.entry_mem)
    simp [Fs.setData, hne]

theorem Proper.setData (h : Proper parent s q) (i : Nat) (content : List β) :
    Proper parent (s.setData i content) q :=
  ⟨⟨h.entry_mem, h.placed⟩, h.numbered, h.own, h.dir_mem⟩

theorem Safe.clean (h : Safe parent s q ok) (i : Nat) :
    Safe parent { s with dirty := fun j => if j = i then false else s.dirty j } q ok := by
  refine ⟨?_, h.lost⟩
  intro e he c hc
  apply h.possible e he c
  cases e with
  | none => exact hc
  | some j =>
    obtain ⟨content, rfl, hclean⟩ := hc
    refine ⟨content, rfl, fun hj => hclean ?_⟩
    dsimp only
    rw [hj, ite_self]

theorem Safe.mono {ok' : Option (List β) → Prop} (h : Safe parent s q ok) (hok : ∀ c, ok c → ok' c) :
    Safe parent s q ok' :=
  ⟨fun e he c hc => hok c (h.possible e he c hc), fun hnew => hok none (h.lost hnew)⟩

end Changes

section Calls

variable [DecidableEq P] [DecidableEq D] {parent : P → D} {s s' : Fs P D β} {q : P}
  {ok : Option (List β) → Prop}

theorem possible_fsyncDir {d : D} (hrooted : Rooted parent s q)
    (h : (Call.fsyncDir d).apply parent s = some s') : s'.possible q ⊆ s.possible q := by
  cases h
  intro e he
  rcases mem_cons.1 he with rfl | he
  · dsimp only
    split
    · exact hrooted.entry_mem
    · exact mem_cons_self
  · obtain ⟨ch, hch, hlookup⟩ := mem_filterMap.1 he
    exact mem_cons_of_mem _ (mem_filterMap.2 ⟨ch, (mem_filter.1 hch).1, hlookup⟩)

theorem Rooted.fsyncDir {d : D} (hrooted : Rooted parent s q)
    (h : (Call.fsyncDir d).apply parent s = some s') : Rooted parent s' q := by
  cases h
  refine ⟨?_, fun ch hch => hrooted.placed ch (mem_filter.1 hch).1⟩
  by_cases hq : parent q = d
  · refine mem_cons.2 (.inl ?_)
    dsimp only
    rw [if_pos hq]
  rcases mem_cons.1 hrooted.entry_mem with heq | hmem
  · refine mem_cons.2 (.inl ?_)
    dsimp only
    rw [if_neg hq]
    exact heq
  -- a pending change of another directory stays pending
  obtain ⟨ch, hch, hlookup⟩ := mem_filterMap.1 hmem
  have hdir : ch.dir = parent q := by
    apply hrooted.placed ch hch
    rw [hlookup]
    exact Option.some_ne_none _
  refine mem_cons_of_mem _ (mem_filterMap.2 ⟨ch, mem_filter.2 ⟨hch, ?_⟩, hlookup⟩)
  simpa [hdir] using hq

theorem Safe.fsyncDir {d : D} (hrooted : Rooted parent s q) (hsafe : Safe parent s q ok)
    (h : (Call.fsyncDir d).apply parent s = some s') : Safe parent s' q ok := by
  have hsubset := possible_fsyncDir hrooted h
  cases h
  exact ⟨fun e he => hsafe.possible e (hsubset he), hsafe.lost⟩

/-- `q` has its content, and a crash can leave of it what it could leave before. -/
structure Kept (parent : P → D) (s s' : Fs P D β) (q : P) (ok : Option (List β) → Prop) : Prop where
  proper : Proper parent s' q
  safe : Safe parent s' q ok
  read : s'.read q = s.read q

omit [DecidableEq D] in
theorem Safe.kept_setData (hsafe : Safe parent s q ok) (hproper : Proper parent s q) {i : Nat}
    (hi : some i ∉ s.possible q) (content : List β) : Kept parent s (s.setData i content) q ok :=
  ⟨hproper.setData i content, hsafe.setData hi content, hproper.read_setData hi content⟩

omit [DecidableEq D] in
theorem Safe.kept_change (hsafe : Safe parent s q ok) (hproper : Proper parent s q) (d : D)
    {entries : List (P × Option Nat)} (hlookup : entries.lookup q = none)
    (hown : ∀ i, some i ∈ entries.map Prod.snd → some i ∉ s.possible q) :
    Kept parent s (s.change d entries) q ok :=
  ⟨hproper.change hlookup hown, hsafe.change hlookup, read_change_of_none hlookup⟩

omit [DecidableEq D] in
theorem Safe.mkdir {d : D} (hproper : Proper parent s q) (hsafe : Safe parent s q ok)
    (hnew : d ∉ s.dirs) :
    Kept parent s { s with dirs := d :: s.dirs, newDirs := d :: s.newDirs } q ok := by
  refine ⟨⟨⟨hproper.entry_mem, hproper.placed⟩, hproper.numbered, hproper.own,
    fun he => mem_cons_of_mem _ (hproper.dir_mem he)⟩, ⟨hsafe.possible, ?_⟩, rfl⟩
  intro hmem
  rcases mem_cons.1 hmem with hdir | hmem
  · -- in a directory that is created now there is nothing yet
    have hnone : s.entry q = none := by
      by_contra he
      exact hnew (hdir ▸ hproper.dir_mem he)
    have hreads := s.reads_map (s.entry q)
    rw [hnone] at hreads
    exact hsafe.possible none (hnone ▸ hproper.entry_mem) none hreads
  · exact hsafe.lost hmem

theorem Safe.apply {c : Call P D β} (hproper : Proper parent s q) (hsafe : Safe parent s q ok)
    (hnames : q ∉ c.names) (h : c.apply parent s = some s') : Kept parent s s' q ok := by
  cases c with
  | look =>
    cases h
    exact ⟨hproper, hsafe, rfl⟩
  | mkdir d =>
    cases h
    split
    · exact ⟨hproper, hsafe, rfl⟩
    next hnew => exact hsafe.mkdir hproper hnew
  | create p =>
    have hp : q ≠ p := by simpa [Call.names] using hnames
    simp only [Call.apply] at h
    split at h
    · cases h
      split
      next i hi => exact hsafe.kept_setData hproper (hproper.own p hp.symm i hi) []
      next =>
        have hfresh : some s.next ∉ s.possible q := fun hmem => Nat.lt_irrefl _
          (hproper.numbered _ hmem)
        have hwritten := hsafe.kept_setData hproper hfresh []
        have hkept := hwritten.safe.kept_change hwritten.proper (parent p)
          (lookup_single_ne hp (some s.next)) fun i hi => mem_singleton.1 hi ▸ hfresh
        exact ⟨⟨⟨hkept.proper.entry_mem, hkept.proper.placed⟩,
          fun i hi => Nat.lt_succ_of_lt (hkept.proper.numbered i hi), hkept.proper.own,
          hkept.proper.dir_mem⟩, ⟨hkept.safe.possible, hsafe.lost⟩, hkept.read.trans hwritten.read⟩
    · cases h
  | append p chunk =>
    have hp : q ≠ p := by simpa [Call.names] using hnames
    obtain ⟨i, hi, rfl⟩ := Option.map_eq_some_iff.1 h
    exact hsafe.kept_setData hproper (hproper.own p hp.symm i hi) _
  | fsync p =>
    obtain ⟨i, hi, rfl⟩ := Option.map_eq_some_iff.1 h
    exact ⟨⟨⟨hproper.entry_mem, hproper.placed⟩, hproper.numbered, hproper.own, hproper.dir_mem⟩,
      hsafe.clean i, rfl⟩
  | fsyncDir d =>
    have hsubset := possible_fsyncDir hproper.toRooted h
    have hrooted := hproper.toRooted.fsyncDir h
    have hsafe' := hsafe.fsyncDir hproper.toRooted h
    cases h
    exact ⟨⟨hrooted, fun i hi => hproper.numbered i (hsubset hi),
      fun p hp i hi hmem => hproper.own p hp i hi (hsubset hmem), hproper.dir_mem⟩, hsafe', rfl⟩
  | rename p r =>
    have hpr : q ≠ p ∧ q ≠ r := by simpa [Call.names] using hnames
    simp only [Call.apply] at h
    split at h
    · obtain ⟨i, hi, rfl⟩ := Option.map_eq_some_iff.1 h
      refine hsafe.kept_change hproper _ (lookup_pair_ne hpr.2 hpr.1 (some i) none) fun j hj => ?_
      obtain rfl : j = i := by simpa using hj
      exact hproper.own p hpr.1.symm j hi
    · cases h
  | remove p =>
    have hp : q ≠ p := by simpa [Call.names] using hnames
    cases h
    exact hsafe.kept_change hproper _ (lookup_single_ne hp none) fun i hi => by simp at hi

/-- **A rename of a synced file onto `q`** adds its content to what a crash can leave. -/
theorem Safe.rename {p : P} {i : Nat} (hrooted : Rooted parent s q) (hsafe : Safe parent s q ok)
    (hentry : s.entry p = some i) (hclean : s.dirty i = false) (hok : ok (some (s.data i)))
    (h : (Call.rename p q).apply parent s = some s') :
    Rooted parent s' q ∧ Safe parent s' q ok := by
  simp only [Call.apply] at h
  split at h
  · obtain ⟨j, hj, rfl⟩ := Option.map_eq_some_iff.1 h
    cases hentry.symm.trans hj
    have hlookup : [(q, some i), (p, none)].lookup q = some (some i) := lookup_cons_self
    have hpossible : (s.change (parent q) [(q, some i), (p, none)]).possible q =
        s.possible q ++ [some i] := by
      rw [possible_change, hlookup]
      rfl
    refine ⟨⟨?_, ?_⟩, ?_, hsafe.lost⟩
    · rw [hpossible]
      have hnew : (s.change (parent q) [(q, some i), (p, none)]).entry q = some i := by
        unfold Fs.change
        simp only [hlookup, Option.getD_some]
      rw [hnew]
      exact mem_append_right _ (mem_singleton_self _)
    · intro ch hch hne
      rcases mem_append.1 hch with hch | hch
      · exact hrooted.placed ch hch hne
      · rw [mem_singleton.1 hch]
    rw [hpossible]
    intro e he c hc
    rcases mem_append.1 he with he | he
    · exact hsafe.possible e he c hc
    cases mem_singleton.1 he
    obtain ⟨content, rfl, hcontent⟩ := hc
    rw [hcontent hclean]
    exact hok
  · cases h

theorem apply_of_names_nil {c : Call P D β} (hnames : c.names = [])
    (h : c.apply parent s = some s') :
    s'.entry = s.entry ∧ s'.data = s.data ∧ s'.dirty = s.dirty := by
  cases c with
  | look =>
    cases h
    exact ⟨rfl, rfl, rfl⟩
  | mkdir d =>
    cases h
    split <;> exact ⟨rfl, rfl, rfl⟩
  | fsyncDir d =>
    cases h
    exact ⟨rfl, rfl, rfl⟩
  | _ => cases hnames

end Calls

/-! ## Runs -/

/-- A call of a process, with the error that it returns if the call fails. A failure without an
error is ignored. -/
structure Step (P D β ε : Type) where
  call : Call P D β
  onError : Option ε

inductive Status (ε : Type) where
  | returned
  | failed (e : ε)
  | stopped

/-- A process makes its calls in turn, up to the end, up to a failure or up to a stop. -/
inductive Exec [DecidableEq P] [DecidableEq D] (parent : P → D) :
    List (Step P D β ε) → Fs P D β → Status ε → Fs P D β → Prop
  | returned (s : Fs P D β) : Exec parent [] s .returned s
  | stopped (steps : List (Step P D β ε)) (s : Fs P D β) : Exec parent steps s .stopped s
  | ok {step : Step P D β ε} {steps : List (Step P D β ε)} {s mid s' : Fs P D β}
      {status : Status ε} (hcall : step.call.apply parent s = some mid)
      (hrest : Exec parent steps mid status s') : Exec parent (step :: steps) s status s'
  | failed {step : Step P D β ε} {e : ε} (steps : List (Step P D β ε)) (s : Fs P D β)
      (herror : step.onError = some e) : Exec parent (step :: steps) s (.failed e) s
  | ignored {step : Step P D β ε} {steps : List (Step P D β ε)} {s s' : Fs P D β}
      {status : Status ε} (herror : step.onError = none) (hrest : Exec parent steps s status s') :
      Exec parent (step :: steps) s status s'

def execAll [DecidableEq P] [DecidableEq D] (parent : P → D) (steps : List (Step P D β ε))
    (s : Fs P D β) : Option (Fs P D β) :=
  steps.foldlM (fun s step => step.call.apply parent s) s

theorem Exec.of_execAll [DecidableEq P] [DecidableEq D] {parent : P → D}
    {steps : List (Step P D β ε)} {s s' : Fs P D β} (h : execAll parent steps s = some s') :
    Exec parent steps s .returned s' := by
  induction steps generalizing s with
  | nil =>
    cases h
    exact .returned _
  | cons step steps ih =>
    obtain ⟨mid, hcall, hrest⟩ := Option.bind_eq_some_iff.1 h
    exact .ok hcall (ih hrest)

def writeSteps (p : P) (chunks : List (List β)) (onError : Option ε) : List (Step P D β ε) :=
  ⟨.create p, onError⟩ :: chunks.map fun chunk => ⟨.append p chunk, onError⟩

/-- Write a file, open it again and sync it; with an error for each of the three. -/
def syncedSteps (p : P) (chunks : List (List β)) (onWrite onOpen onSync : ε) :
    List (Step P D β ε) :=
  writeSteps p chunks (some onWrite) ++ [⟨.look, some onOpen⟩, ⟨.fsync p, some onSync⟩]

section Names

variable {p q : P} {chunks : List (List β)} {step : Step P D β ε}

theorem names_writeSteps {onError : Option ε} (h : step ∈ writeSteps p chunks onError)
    (hq : q ∈ step.call.names) : q = p := by
  rcases mem_cons.1 h with rfl | h
  · exact mem_singleton.1 hq
  · obtain ⟨chunk, -, rfl⟩ := mem_map.1 h
    exact mem_singleton.1 hq

theorem names_syncedSteps {onWrite onOpen onSync : ε}
    (h : step ∈ syncedSteps p chunks onWrite onOpen onSync) (hq : q ∈ step.call.names) : q = p := by
  rcases mem_append.1 h with h | h
  · exact names_writeSteps h hq
  rcases mem_cons.1 h with rfl | h
  · cases hq
  · rw [mem_singleton.1 h] at hq
    exact mem_singleton.1 hq

end Names

/-- The file under the name is on disk and has the content. -/
def Fs.Synced (s : Fs P D β) (p : P) (content : List β) : Prop :=
  ∃ i, s.entry p = some i ∧ s.dirty i = false ∧ s.data i = content

section Exec

variable [DecidableEq P] [DecidableEq D] {parent : P → D} {s s' : Fs P D β} {p q : P}
  {ok : Option (List β) → Prop} {steps : List (Step P D β ε)} {status : Status ε}

theorem Exec.append {first second : List (Step P D β ε)}
    (h : Exec parent (first ++ second) s status s') :
    status ≠ .returned ∧ Exec parent first s status s' ∨
      ∃ mid, Exec parent first s .returned mid ∧ Exec parent second mid status s' := by
  induction first generalizing s with
  | nil => exact .inr ⟨s, .returned s, h⟩
  | cons step first ih =>
    cases h with
    | stopped => exact .inl ⟨nofun, .stopped _ _⟩
    | failed _ _ herror => exact .inl ⟨nofun, .failed _ _ herror⟩
    | ok hcall hrest =>
      rcases ih hrest with ⟨hne, hfirst⟩ | ⟨mid, hfirst, hsecond⟩
      · exact .inl ⟨hne, .ok hcall hfirst⟩
      · exact .inr ⟨mid, .ok hcall hfirst, hsecond⟩
    | ignored herror hrest =>
      rcases ih hrest with ⟨hne, hfirst⟩ | ⟨mid, hfirst, hsecond⟩
      · exact .inl ⟨hne, .ignored herror hfirst⟩
      · exact .inr ⟨mid, .ignored herror hfirst, hsecond⟩

theorem Exec.append_returned {first second : List (Step P D β ε)}
    (h : Exec parent (first ++ second) s .returned s') :
    ∃ mid, Exec parent first s .returned mid ∧ Exec parent second mid .returned s' :=
  h.append.resolve_left fun hfirst => hfirst.1 rfl

theorem Exec.of_error {call : Call P D β} {e : ε}
    (h : Exec parent (⟨call, some e⟩ :: steps) s .returned s') :
    ∃ mid, call.apply parent s = some mid ∧ Exec parent steps mid .returned s' := by
  cases h with
  | ok hcall hrest => exact ⟨_, hcall, hrest⟩
  | ignored herror _ => cases herror

/-- **Calls that do not name `q`** leave its content, and what a stop can leave of it. -/
theorem Safe.exec (hproper : Proper parent s q) (hsafe : Safe parent s q ok)
    (hnames : ∀ step ∈ steps, q ∉ step.call.names) (h : Exec parent steps s status s') :
    Kept parent s s' q ok := by
  induction h with
  | returned | stopped | failed => exact ⟨hproper, hsafe, rfl⟩
  | ok hcall _ ih =>
    have hkept := hsafe.apply hproper (hnames _ mem_cons_self) hcall
    have hrest := ih hkept.proper hkept.safe (forall_mem_cons.1 hnames).2
    exact ⟨hrest.proper, hrest.safe, hrest.read.trans hkept.read⟩
  | ignored _ _ ih =>
    exact ih hproper hsafe (forall_mem_cons.1 hnames).2

theorem Safe.exec_syncs (hrooted : Rooted parent s q) (hsafe : Safe parent s q ok)
    (hsyncs : ∀ step ∈ steps, step.call = .look ∨ ∃ d, step.call = .fsyncDir d)
    (h : Exec parent steps s status s') : Rooted parent s' q ∧ Safe parent s' q ok := by
  induction h with
  | returned | stopped | failed => exact ⟨hrooted, hsafe⟩
  | ok hcall _ ih =>
    have hrest := (forall_mem_cons.1 hsyncs).2
    rcases hsyncs _ mem_cons_self with hlook | ⟨d, hsync⟩
    · rw [hlook] at hcall
      cases hcall
      exact ih hrooted hsafe hrest
    · rw [hsync] at hcall
      exact ih (hrooted.fsyncDir hcall) (hsafe.fsyncDir hrooted hcall) hrest
  | ignored _ _ ih =>
    exact ih hrooted hsafe (forall_mem_cons.1 hsyncs).2

theorem Exec.appends {e : ε} {i : Nat} {chunks : List (List β)} (hentry : s.entry p = some i)
    (h : Exec parent (chunks.map fun chunk => ⟨.append p chunk, some e⟩) s .returned s') :
    s'.entry p = some i ∧ s'.data i = s.data i ++ chunks.flatten := by
  induction chunks generalizing s with
  | nil =>
    cases h
    exact ⟨hentry, by simp⟩
  | cons chunk chunks ih =>
    obtain ⟨mid, hcall, hrest⟩ := h.of_error
    obtain ⟨j, hj, rfl⟩ := Option.map_eq_some_iff.1 hcall
    cases hentry.symm.trans hj
    have hkept : (s.setData i (s.data i ++ chunk)).entry p = some i := hentry
    obtain ⟨hentry', hdata⟩ := ih hkept hrest
    refine ⟨hentry', ?_⟩
    rw [hdata]
    simp [Fs.setData]

theorem Exec.write {e : ε} {chunks : List (List β)}
    (h : Exec parent (writeSteps p chunks (some e)) s .returned s') :
    ∃ i, s'.entry p = some i ∧ s'.data i = chunks.flatten := by
  obtain ⟨mid, hcall, hrest⟩ := h.of_error
  obtain ⟨i, hentry, hdata⟩ : ∃ i, mid.entry p = some i ∧ mid.data i = [] := by
    simp only [Call.apply] at hcall
    split at hcall
    · cases hcall
      split
      next i hi => exact ⟨i, hi, by simp [Fs.setData]⟩
      next => exact ⟨s.next, by simp [Fs.change], by simp [Fs.change, Fs.setData]⟩
    · cases hcall
  obtain ⟨hentry', hdata'⟩ := hrest.appends hentry
  exact ⟨i, hentry', by rw [hdata', hdata, nil_append]⟩

theorem Fs.Synced.exec {content : List β} (hsynced : s.Synced p content)
    (hquiet : ∀ step ∈ steps, step.call.names = []) (h : Exec parent steps s status s') :
    s'.Synced p content := by
  induction h with
  | returned | stopped | failed => exact hsynced
  | ok hcall _ ih =>
    obtain ⟨hentry, hdata, hdirty⟩ := apply_of_names_nil (hquiet _ mem_cons_self) hcall
    refine ih ?_ (forall_mem_cons.1 hquiet).2
    unfold Fs.Synced
    rw [hentry, hdata, hdirty]
    exact hsynced
  | ignored _ _ ih => exact ih hsynced (forall_mem_cons.1 hquiet).2

theorem Exec.synced {onWrite onOpen onSync : ε} {chunks : List (List β)}
    (h : Exec parent (syncedSteps p chunks onWrite onOpen onSync ++ steps) s .returned s')
    (hquiet : ∀ step ∈ steps, step.call.names = []) : s'.Synced p chunks.flatten := by
  unfold syncedSteps at h
  rw [append_assoc] at h
  obtain ⟨mid, hwrite, hrest⟩ := h.append_returned
  obtain ⟨i, hentry, hdata⟩ := hwrite.write
  obtain ⟨opened, hopen, hrest⟩ := hrest.of_error
  cases hopen
  obtain ⟨done, hsync, hrest⟩ := hrest.of_error
  obtain ⟨j, hj, rfl⟩ := Option.map_eq_some_iff.1 hsync
  cases hentry.symm.trans hj
  refine Fs.Synced.exec ?_ hquiet hrest
  exact ⟨i, hentry, if_pos rfl, hdata⟩

end Exec

/-! ## Replacing a file -/

/-- Some time later, if nothing happens but that directories reach the disk. -/
inductive Later [DecidableEq P] [DecidableEq D] (parent : P → D) : Fs P D β → Fs P D β → Prop
  | refl (s : Fs P D β) : Later parent s s
  | sync {s mid s' : Fs P D β} (d : D) (hcall : (Call.fsyncDir d).apply parent s = some mid)
      (hlater : Later parent mid s') : Later parent s s'

/-- `q` has been renamed onto: a crash leaves what it could leave before or the new content, and can
leave the former. -/
structure Replaced [DecidableEq P] (parent : P → D) (s : Fs P D β) (q : P)
    (ok : Option (List β) → Prop) (new : List β) : Prop where
  rooted : Rooted parent s q
  safe : Safe parent s q fun c => ok c ∨ c = some new
  onDisk : ok ((s.onDisk q).map s.data)

section Replace

variable [DecidableEq P] [DecidableEq D] {parent : P → D} {s s' : Fs P D β} {tmp q : P}
  {ok : Option (List β) → Prop} {old : Option (List β)} {new : List β} {status : Status ε}

theorem Safe.later (hrooted : Rooted parent s q) (hsafe : Safe parent s q ok)
    (h : Later parent s s') : Rooted parent s' q ∧ Safe parent s' q ok := by
  induction h with
  | refl => exact ⟨hrooted, hsafe⟩
  | sync d hcall _ ih => exact ih (hrooted.fsyncDir hcall) (hsafe.fsyncDir hrooted hcall)

/-- **A new file that is renamed onto the old one.** Up to the rename the old content is there; the
rename is the last call that can fail. -/
theorem Exec.replace {before : List (Step P D β ε)} {e : ε} (hproper : Proper parent s q)
    (hsafe : Safe parent s q ok) (hnames : ∀ step ∈ before, q ∉ step.call.names)
    (hready : ∀ mid, Exec parent before s .returned mid → mid.Synced tmp new)
    (h : Exec parent (before ++ [⟨.rename tmp q, some e⟩]) s status s') :
    status ≠ .returned ∧ Rooted parent s' q ∧ Safe parent s' q ok ∧ s'.read q = s.read q ∨
      (∀ e, status ≠ .failed e) ∧ Replaced parent s' q ok new := by
  rcases h.append with ⟨hne, hbefore⟩ | ⟨mid, hbefore, hlast⟩
  · obtain ⟨hproper', hsafe', hread⟩ := hsafe.exec hproper hnames hbefore
    exact .inl ⟨hne, hproper'.toRooted, hsafe', hread⟩
  obtain ⟨hproper', hsafe', hread⟩ := hsafe.exec hproper hnames hbefore
  obtain ⟨i, hentry, hclean, hdata⟩ := hready mid hbefore
  cases hlast with
  | stopped => exact .inl ⟨nofun, hproper'.toRooted, hsafe', hread⟩
  | failed _ _ herror => exact .inl ⟨nofun, hproper'.toRooted, hsafe', hread⟩
  | ignored herror _ => cases herror
  | @ok _ _ _ done _ _ hcall hrest =>
    have hend : (∀ e, status ≠ .failed e) ∧ s' = done := by
      cases hrest <;> exact ⟨nofun, rfl⟩
    obtain ⟨hstatus, rfl⟩ := hend
    have hwide : Safe parent mid q fun c => ok c ∨ c = some new := hsafe'.mono fun _ => .inl
    have honDisk : ok ((mid.onDisk q).map mid.data) :=
      hsafe'.possible _ mem_cons_self _ (mid.reads_map _)
    obtain ⟨hrooted, hreplaced⟩ := hwide.rename hproper'.toRooted hentry hclean
      (.inr (by rw [hdata])) hcall
    refine .inr ⟨hstatus, hrooted, hreplaced, ?_⟩
    simp only [Call.apply] at hcall
    split at hcall
    · obtain ⟨j, -, rfl⟩ := Option.map_eq_some_iff.1 hcall
      exact honDisk
    · cases hcall

/-- **A rename is durable only if it changes nothing**, as long as nothing is done but syncs of
directories, which may come late. -/
theorem Replaced.durable_iff (h : Replaced parent s q (· = old) new) :
    (∀ later, Later parent s later → Holds parent later q (some new)) ↔ old = some new := by
  constructor
  · intro hholds
    obtain ⟨s', hcrash, hread⟩ := exists_crash_of_possible parent (q := q) mem_cons_self
      (s.reads_map (s.onDisk q))
    rw [← h.onDisk, ← hread]
    exact hholds s (.refl s) s' (.inr hcrash)
  · intro hsame later hlater s' hstops
    obtain ⟨hrooted, hsafe⟩ := h.safe.later h.rooted hlater
    have hread := (safe_iff hrooted.entry_mem).1 hsafe s' hstops
    exact hread.elim (·.trans hsame) id

end Replace

end Nanoguard.CrashFs

import Nanoguard.Console.FileTree

/-!
# Whose backups

The backups of all files of a directory are in one directory. A file finds its own by a test of their
names: a name passes if it begins with the stem of the file and a dot. The names of another file's
backups can pass too (`Shadows`).
-/

namespace Nanoguard.Console

open List

variable {name : Text} {t : Tree}

deriving instance DecidableEq for FilePath

/-! ## Names of backups -/

theorem dot_notMem_extension (name : Text) : '.' ∉ extension name := by
  unfold extension
  split
  next before after hsplit =>
    split
    · exact not_mem_nil
    · exact (Str.rsplitOnce_eq_some_iff.1 hsplit).2
  · exact not_mem_nil

/-- Some name of a backup of the second file passes the test of the first: the stems are the same, the
second stem continues the first one after a dot, or the first file is named like a backup of the
second. -/
def Shadows (a b : FilePath) : Prop :=
  fileStem a.fileName ++ ".".toList <+: fileStem b.fileName ++ ".bak.".toList ∨
    extension b.fileName ≠ [] ∧
      ∃ ts : Stamp, fileStem a.fileName = fileStem b.fileName ++ ".bak.".toList ++ ts.text

def Stamp.newYear : Stamp := ⟨"20260101T000000000000000".toList, rfl, rfl⟩

/-- Of two texts without dots, with a dot between them, only this dot is followed by the second. -/
theorem eq_of_dot_isPrefix {r ts ext : Text} (hts : '.' ∉ ts) (hext : '.' ∉ ext)
    (h : r ++ ".".toList <+: ts ++ '.' :: ext) : r = ts := by
  obtain ⟨rest, hrest⟩ := h
  have heq : r ++ '.' :: rest = ts ++ '.' :: ext := by
    rw [← hrest, append_assoc]
    rfl
  rcases Fence.cut_cons_cases heq with ⟨mid, rfl, -⟩ | ⟨hsame, -⟩ | ⟨mid, -, rfl⟩
  · exact absurd (mem_append_right _ mem_cons_self) hts
  · exact hsame
  · exact absurd (mem_append_right _ mem_cons_self) hext

theorem backupPath_name (p : FilePath) (ts : Text) :
    (p.backupPath ts).2 = fileStem p.fileName ++ ".bak.".toList ++
      (ts ++ if (extension p.fileName).isEmpty then [] else '.' :: extension p.fileName) := by
  rw [← append_assoc]
  rfl

theorem isBackupOf_backupPath_iff (a b : FilePath) (ts : Stamp) :
    isBackupOf (fileStem a.fileName) (b.backupPath ts.text).2 = true ↔
      fileStem a.fileName ++ ".".toList <+: (b.backupPath ts.text).2 := by
  have hcontains : Str.contains (b.backupPath ts.text).2 ".bak.".toList = true :=
    (Bool.and_eq_true_iff.1 (isBackupOf_backupPath b ts)).2
  unfold isBackupOf
  rw [hcontains, Bool.and_true, decide_eq_true_eq]

theorem shadows_iff (a b : FilePath) :
    Shadows a b ↔ ∃ ts : Stamp, isBackupOf (fileStem a.fileName) (b.backupPath ts.text).2 = true := by
  simp only [isBackupOf_backupPath_iff]
  constructor
  · rintro (hpre | ⟨hext, ts, hstem⟩)
    · exact ⟨.newYear, backupPath_name b _ ▸ hpre.trans (prefix_append ..)⟩
    · refine ⟨ts, ?_⟩
      rw [backupPath_name, hstem, if_neg (by simpa using hext), ← append_assoc]
      exact (prefix_append_right_inj _).2 ⟨extension b.fileName, rfl⟩
  · rintro ⟨ts, hpre⟩
    rw [backupPath_name] at hpre
    obtain ⟨end', hend⟩ := hpre
    rcases append_eq_append_iff.1 hend with ⟨mid, hmid, -⟩ | ⟨rest, hrest, htail⟩
    · exact .inl ⟨mid, hmid.symm⟩
    -- the dot after the stem of the first file stands in the time or after it
    have htail : rest <+: _ := ⟨end', htail.symm⟩
    rcases eq_nil_or_concat rest with rfl | ⟨r, c, rfl⟩
    · exact .inl (by rw [hrest, append_nil])
    rw [concat_eq_append, ← append_assoc] at hrest
    obtain ⟨hstem, hdot⟩ := append_inj' hrest rfl
    obtain rfl : c = '.' := (singleton_injective hdot).symm
    by_cases hext : extension b.fileName = []
    · rw [hext, isEmpty_nil, if_pos rfl, append_nil] at htail
      exact absurd (htail.subset (by simp)) ts.dot_notMem
    · rw [if_neg (by simpa using hext), concat_eq_append] at htail
      refine .inr ⟨hext, ts, ?_⟩
      rw [hstem, eq_of_dot_isPrefix ts.dot_notMem (dot_notMem_extension _) htail]

theorem not_shadows_of_short {a b : FilePath} (hshort : (fileStem a.fileName).length < 24)
    (hpre : ¬ fileStem a.fileName ++ ".".toList <+: fileStem b.fileName ++ ".bak.".toList) :
    ¬ Shadows a b := by
  rintro (h | ⟨-, ts, hstem⟩)
  · exact hpre h
  · rw [hstem, length_append, ts.size] at hshort
    omega

/-- No name passes the tests of two files that do not shadow each other. -/
theorem shadows_of_isBackupOf {a b : FilePath} (ha : isBackupOf (fileStem a.fileName) name = true)
    (hb : isBackupOf (fileStem b.fileName) name = true) : Shadows a b ∨ Shadows b a := by
  have hstem : ∀ p : FilePath,
      fileStem p.fileName ++ ".".toList <+: fileStem p.fileName ++ ".bak.".toList := fun p =>
    (prefix_append_right_inj _).2 ⟨"bak.".toList, rfl⟩
  have hpa := of_decide_eq_true (Bool.and_eq_true_iff.1 ha).1
  have hpb := of_decide_eq_true (Bool.and_eq_true_iff.1 hb).1
  exact ( prefix_or_prefix_of_prefix hpa hpb).imp (fun h => .inl (h.trans (hstem b)))
    fun h => .inl (h.trans (hstem a))

theorem stamp_eq_of_backupPath_eq {p : FilePath} {ts ts' : Text}
    (h : (p.backupPath ts).2 = (p.backupPath ts').2) : ts = ts' := by
  rw [backupPath_name, backupPath_name] at h
  exact append_cancel_right (append_cancel_left h)

section Edits

variable (validate : Text → Text → ValidationResult) (limit : Nat)

def FileEdit.run (e : FileEdit) (t : Tree) : Tree :=
  match atomicWriteWithLimit (validate e.path.text) limit e t with
  | .ok t' => t'
  | .error _ => t

def FileEdit.made (e : FileEdit) (t : Tree) : Option (Text × Saved) :=
  if (validate e.path.text e.content).valid && !(e.before t).isEmpty then
    some ((e.path.backupPath e.ts.text).2, ⟨e.before t, e.now⟩)
  else none

/-- The files, and the backups that have been made of each of them, newest first. -/
structure Shelf where
  tree : Tree
  made : FilePath → List (Text × Saved)

def Shelf.edit (s : Shelf) (e : FileEdit) : Shelf where
  tree := e.run validate limit s.tree
  made := fun p => if p = e.path then (e.made validate s.tree).toList ++ s.made p else s.made p

def afterEdits (edits : List FileEdit) (t : Tree) : Shelf :=
  edits.foldl (Shelf.edit validate limit) ⟨t, fun _ => []⟩

/-- The backups belong to their files: they are listed with no other file, an edit of another file
leaves them, and each file has the newest ones. -/
structure BackupsOwned (group : Set FilePath) (s : Shelf) : Prop where
  listed : ∀ a ∈ group, ∀ b ∈ group, a ≠ b → ∀ info ∈ listBackups a s.tree,
    ∀ backup ∈ s.made b, info.name ≠ backup.1
  untouched : ∀ e : FileEdit, e.path ∈ group → ∀ b ∈ group, e.path ≠ b → ∀ backup ∈ s.made b,
    (e.run validate limit s.tree).lookup (b.backupDir, backup.1) =
      s.tree.lookup (b.backupDir, backup.1)
  newest : ∀ a ∈ group, ∀ backup ∈ s.made a,
    s.tree.lookup (a.backupDir, backup.1) = some backup.2 ↔ backup ∈ (s.made a).take limit

def InTime (edits : List FileEdit) : Prop :=
  edits.Pairwise fun e e' => e.now < e'.now ∧ e.ts.text ≠ e'.ts.text

def OneDir (group : Set FilePath) : Prop := ∀ a ∈ group, ∀ b ∈ group, a.parent = b.parent

def NoneShadowed (group : Set FilePath) : Prop :=
  ∀ a ∈ group, ∀ b ∈ group, a ≠ b → ¬ Shadows a b

/-- There is nothing that one of the files takes for its backup. -/
def NoBackups (group : Set FilePath) (t : Tree) : Prop :=
  ∀ a ∈ group, ∀ name, isBackupOf (fileStem a.fileName) name = true →
    t.lookup (a.backupDir, name) = none

end Edits

section Retention

variable {validate : Text → Text → ValidationResult} {limit : Nat} {p : FilePath} {t : Tree}
  {e : FileEdit}

theorem lookup_run_backupDir (name : Text) :
    (e.run validate limit t).lookup (e.path.backupDir, name) =
      match e.made validate t with
      | none => t.lookup (e.path.backupDir, name)
      | some backup =>
        (backupFile e.path limit e.ts backup.2 t).lookup (e.path.backupDir, name) := by
  have htarget : (e.path.backupDir, name) ≠ e.path.target := fun h =>
    e.path.backupDir_ne_dir (congrArg Prod.fst h)
  unfold FileEdit.run atomicWriteWithLimit FileEdit.made FileEdit.backedUp
  by_cases hvalid : (validate e.path.text e.content).valid = true
  · rw [if_pos hvalid, hvalid]
    rw [AList.lookup_insert_ne htarget]
    by_cases hempty : (e.before t).isEmpty = true
    · rw [if_pos hempty, hempty]
      rfl
    · rw [if_neg hempty, if_pos (by simpa using hempty)]
  · rw [if_neg hvalid, if_neg (by simp [hvalid])]

theorem lookup_run_of_not_own {q : Place} (hdir : q.1 = e.path.backupDir)
    (hnot : isBackupOf (fileStem e.path.fileName) q.2 = false) :
    (e.run validate limit t).lookup q = t.lookup q := by
  rw [show q = (e.path.backupDir, q.2) from Prod.ext hdir rfl, lookup_run_backupDir]
  split
  · rfl
  · exact lookup_backupFile_of_not_own fun _ => hnot

/-- **Retention of a file**: if what passes its test is a list of backups, newest first, then after
one more it is the newest of them. -/
theorem lookup_backupFile_own {new : Text × Saved} {kept : List (Text × Saved)} {ts : Stamp}
    (hlimit : 0 < limit)
    (hkept : ∀ name saved, isBackupOf (fileStem p.fileName) name = true →
      (t.lookup (p.backupDir, name) = some saved ↔ (name, saved) ∈ kept))
    (hown : ∀ backup ∈ kept, isBackupOf (fileStem p.fileName) backup.1 = true)
    (hnew : new.1 = (p.backupPath ts.text).2)
    (hsorted : (new :: kept).Pairwise fun x y => y.2.modified < x.2.modified)
    (hnodup : ((new :: kept).map Prod.fst).Nodup) (name : Text) (saved : Saved)
    (hname : isBackupOf (fileStem p.fileName) name = true) :
    (backupFile p limit ts new.2 t).lookup (p.backupDir, name) = some saved ↔
      (name, saved) ∈ (new :: kept).take limit := by
  have hplace : p.backupPath ts.text = (p.backupDir, new.1) := by
    rw [hnew]
    rfl
  have hownAll : ∀ backup ∈ new :: kept, isBackupOf (fileStem p.fileName) backup.1 = true := by
    rw [forall_mem_cons]
    exact ⟨hnew ▸ isBackupOf_backupPath p ts, hown⟩
  -- the new backup is written
  let written : Tree := t.insert (p.backupDir, new.1) new.2
  have hwritten : ∀ name saved, isBackupOf (fileStem p.fileName) name = true →
      (written.lookup (p.backupDir, name) = some saved ↔ (name, saved) ∈ new :: kept) := by
    intro name saved hname
    by_cases heq : name = new.1
    · subst heq
      rw [AList.lookup_insert, mem_cons]
      constructor
      · rintro ⟨⟩
        exact .inl rfl
      · rintro (h | h)
        · rw [← h]
        · exact absurd (mem_map_of_mem h) (nodup_cons.1 hnodup).1
    · have hne : (p.backupDir, name) ≠ (p.backupDir, new.1) := fun h => heq (congrArg Prod.snd h)
      rw [AList.lookup_insert_ne hne, hkept name saved hname, mem_cons]
      exact ⟨.inr, fun h => h.resolve_left fun h => heq (congrArg Prod.fst h)⟩
  -- what passes the test is sorted by its times
  have hpruned : prunedBackups (fileStem p.fileName) limit (written.listing p.backupDir) =
      ((new :: kept).drop limit).map Prod.fst := by
    let times := (new :: kept).map fun backup => (backup.1, backup.2.modified)
    have hperm : ((written.listing p.backupDir).filter fun entry =>
        isBackupOf (fileStem p.fileName) entry.1).Perm times := by
      refine (perm_ext_iff_of_nodup ?_ ?_).2 fun entry => ?_
      · exact (nodup_listing written p.backupDir).filter _
      · refine List.Nodup.of_map Prod.fst ?_
        rw [map_map]
        exact hnodup
      rw [mem_filter, mem_listing, mem_map]
      constructor
      · rintro ⟨⟨saved, hlookup, htime⟩, hpass⟩
        exact ⟨_, (hwritten _ _ hpass).1 hlookup, Prod.ext rfl htime⟩
      · rintro ⟨backup, hbackup, rfl⟩
        have hpass := hownAll backup hbackup
        exact ⟨⟨backup.2, (hwritten _ _ hpass).2 hbackup, rfl⟩, hpass⟩
    have hsort := Retention.insertionSort_eq hperm (pairwise_map.2 hsorted)
    unfold prunedBackups
    dsimp only
    unfold isBackupOf at hsort
    rw [hsort, ← map_drop, map_map]
    rfl
  have hremoved : (p.backupDir, name) ∈ (((new :: kept).drop limit).map Prod.fst).map
      (fun name => (p.backupDir, name)) ↔ name ∈ ((new :: kept).drop limit).map Prod.fst := by
    rw [mem_map]
    constructor
    · rintro ⟨other, hother, hsame⟩
      obtain rfl : other = name := congrArg Prod.snd hsame
      exact hother
    · exact fun h => ⟨name, h, rfl⟩
  unfold backupFile
  rw [if_pos hlimit, hplace, hpruned, Retention.lookup_eraseAll, Retention.mem_take_iff hnodup,
    ← hwritten name saved hname, ← hremoved]
  split
  next hgone => exact ⟨nofun, fun h => absurd hgone h.2⟩
  next hstays => exact ⟨fun h => ⟨h, hstays⟩, fun h => h.1⟩

end Retention

section Runs

variable {validate : Text → Text → ValidationResult} {limit : Nat} {group : Set FilePath}
  {done : List FileEdit} {s : Shelf} {e : FileEdit} {a b : FilePath}

/-- The backups of each file are those that its edits have made, and the newest of them are there. -/
structure Shelved (limit : Nat) (group : Set FilePath) (done : List FileEdit) (s : Shelf) : Prop where
  named : ∀ a ∈ group, ∀ backup ∈ s.made a,
    ∃ e ∈ done, backup.1 = (a.backupPath e.ts.text).2 ∧ backup.2.modified = e.now
  sorted : ∀ a ∈ group, (s.made a).Pairwise fun x y => y.2.modified < x.2.modified
  distinct : ∀ a ∈ group, ((s.made a).map Prod.fst).Nodup
  kept : ∀ a ∈ group, ∀ name saved, isBackupOf (fileStem a.fileName) name = true →
    (s.tree.lookup (a.backupDir, name) = some saved ↔ (name, saved) ∈ (s.made a).take limit)

theorem Shelved.isBackupOf (h : Shelved limit group done s) (ha : a ∈ group) {backup : Text × Saved}
    (hbackup : backup ∈ s.made a) : isBackupOf (fileStem a.fileName) backup.1 = true := by
  obtain ⟨e, -, hname, -⟩ := h.named a ha backup hbackup
  rw [hname]
  exact isBackupOf_backupPath a e.ts

theorem backupDir_eq (hdir : a.parent = b.parent) : a.backupDir = b.backupDir := by
  unfold FilePath.backupDir
  rw [hdir]

theorem made_edit_of_ne (h : a ≠ e.path) : (s.edit validate limit e).made a = s.made a := if_neg h

theorem made_edit_self : (s.edit validate limit e).made e.path =
    (e.made validate s.tree).toList ++ s.made e.path := if_pos rfl

theorem eq_of_made {backup : Text × Saved} (h : e.made validate t = some backup) :
    backup.1 = (e.path.backupPath e.ts.text).2 ∧ backup.2.modified = e.now := by
  unfold FileEdit.made at h
  split at h
  · cases h
    exact ⟨rfl, rfl⟩
  · cases h

theorem Shelved.edit_self (validate : Text → Text → ValidationResult)
    (h : Shelved limit group done s) (hlimit : 0 < limit) (he : e.path ∈ group)
    (hlater : ∀ d ∈ done, d.now < e.now ∧ d.ts.text ≠ e.ts.text) :
    let made := (e.made validate s.tree).toList ++ s.made e.path
    made.Pairwise (fun x y => y.2.modified < x.2.modified) ∧ (made.map Prod.fst).Nodup ∧
      ∀ name saved, Console.isBackupOf (fileStem e.path.fileName) name = true →
        ((e.run validate limit s.tree).lookup (e.path.backupDir, name) = some saved ↔
          (name, saved) ∈ made.take limit) := by
  cases hmade : e.made validate s.tree with
  | none =>
    refine ⟨h.sorted _ he, h.distinct _ he, fun name saved hname => ?_⟩
    rw [lookup_run_backupDir, hmade]
    exact h.kept _ he name saved hname
  | some new =>
    obtain ⟨hname, htime⟩ := eq_of_made hmade
    have hsorted : (new :: s.made e.path).Pairwise fun x y => y.2.modified < x.2.modified := by
      refine pairwise_cons.2 ⟨fun backup hbackup => ?_, h.sorted _ he⟩
      obtain ⟨d, hd, -, hold⟩ := h.named _ he backup hbackup
      rw [hold, htime]
      exact (hlater d hd).1
    have hdistinct : ((new :: s.made e.path).map Prod.fst).Nodup := by
      refine nodup_cons.2 ⟨fun hmem => ?_, h.distinct _ he⟩
      obtain ⟨backup, hbackup, hsame⟩ := mem_map.1 hmem
      obtain ⟨d, hd, hold, -⟩ := h.named _ he backup hbackup
      refine (hlater d hd).2 (stamp_eq_of_backupPath_eq (p := e.path) ?_)
      rw [← hold, hsame, hname]
    refine ⟨hsorted, hdistinct, fun name saved hpass => ?_⟩
    have htake : (new :: (s.made e.path).take limit).Sublist (new :: s.made e.path) :=
      (take_sublist ..).cons_cons new
    rw [lookup_run_backupDir, hmade]
    rw [lookup_backupFile_own hlimit (h.kept _ he)
      (fun backup hbackup => h.isBackupOf he (mem_of_mem_take hbackup)) hname
      (hsorted.sublist htake) (hdistinct.sublist (htake.map _)) name saved hpass]
    obtain ⟨n, rfl⟩ := Nat.exists_eq_succ_of_ne_zero hlimit.ne'
    simp [take_take]

theorem run_untouched (hdir : OneDir group) (hapart : NoneShadowed group) (he : e.path ∈ group)
    (hb : b ∈ group) (hne : e.path ≠ b) (hname : isBackupOf (fileStem b.fileName) name = true) :
    (e.run validate limit t).lookup (b.backupDir, name) = t.lookup (b.backupDir, name) := by
  refine lookup_run_of_not_own (backupDir_eq (hdir b hb _ he)) ?_
  rw [← Bool.not_eq_true]
  intro hpass
  exact (shadows_of_isBackupOf hpass hname).elim (hapart _ he b hb hne)
    (hapart b hb _ he (Ne.symm hne))

theorem Shelved.edit (h : Shelved limit group done s) (hlimit : 0 < limit)
    (hdir : OneDir group) (hapart : NoneShadowed group) (he : e.path ∈ group)
    (hlater : ∀ d ∈ done, d.now < e.now ∧ d.ts.text ≠ e.ts.text) :
    Shelved limit group (done ++ [e]) (s.edit validate limit e) := by
  obtain ⟨hsorted, hdistinct, hkept⟩ := h.edit_self validate hlimit he hlater
  constructor
  · intro a ha backup hbackup
    by_cases hae : a = e.path
    · subst hae
      rw [made_edit_self] at hbackup
      rcases mem_append.1 hbackup with hnew | hold
      · exact ⟨e, by simp, eq_of_made (Option.mem_toList.1 hnew)⟩
      · obtain ⟨d, hd, hnamed⟩ := h.named _ ha backup hold
        exact ⟨d, mem_append_left _ hd, hnamed⟩
    · rw [made_edit_of_ne hae] at hbackup
      obtain ⟨d, hd, hnamed⟩ := h.named _ ha backup hbackup
      exact ⟨d, mem_append_left _ hd, hnamed⟩
  · intro a ha
    by_cases hae : a = e.path
    · subst hae
      rw [made_edit_self]
      exact hsorted
    · rw [made_edit_of_ne hae]
      exact h.sorted a ha
  · intro a ha
    by_cases hae : a = e.path
    · subst hae
      rw [made_edit_self]
      exact hdistinct
    · rw [made_edit_of_ne hae]
      exact h.distinct a ha
  · intro a ha name saved hname
    by_cases hae : a = e.path
    · subst hae
      rw [made_edit_self]
      exact hkept name saved hname
    · rw [made_edit_of_ne hae, ← h.kept a ha name saved hname]
      exact (run_untouched hdir hapart he ha (Ne.symm hae) hname).congr_left

theorem Shelved.edits {edits : List FileEdit} (h : Shelved limit group done s) (hlimit : 0 < limit)
    (hdir : OneDir group) (hapart : NoneShadowed group)
    (hgroup : ∀ e ∈ edits, e.path ∈ group) (htime : InTime (done ++ edits)) :
    Shelved limit group (done ++ edits) (edits.foldl (Shelf.edit validate limit) s) := by
  induction edits generalizing done s with
  | nil =>
    rw [append_nil]
    exact h
  | cons e edits ih =>
    have hlater : ∀ d ∈ done, d.now < e.now ∧ d.ts.text ≠ e.ts.text := fun d hd =>
      (pairwise_append.1 htime).2.2 d hd e mem_cons_self
    have hcons : done ++ e :: edits = done ++ [e] ++ edits := by simp
    rw [hcons] at htime ⊢
    exact ih (h.edit hlimit hdir hapart (hgroup e mem_cons_self) hlater)
      (forall_mem_cons.1 hgroup).2 htime

theorem shelved_start (h : NoBackups group t) :
    Shelved limit group [] ⟨t, fun _ => []⟩ where
  named := nofun
  sorted _ _ := .nil
  distinct _ _ := .nil
  kept a ha name saved hname := by
    rw [h a ha name hname, take_nil]
    exact iff_of_false nofun not_mem_nil

theorem isBackupOf_of_mem_listBackups {info : BackupInfo} (h : info ∈ listBackups a t) :
    isBackupOf (fileStem a.fileName) info.name = true := by
  unfold listBackups at h
  rw [mem_insertionSort] at h
  obtain ⟨entry, -, hentry⟩ := mem_filterMap.1 h
  split at hentry
  next hown =>
    cases hentry
    exact hown.2
  · cases hentry

theorem exists_mem_listBackups {saved : Saved} (h : t.lookup (a.backupDir, name) = some saved)
    (hname : isBackupOf (fileStem a.fileName) name = true) :
    ∃ info ∈ listBackups a t, info.name = name := by
  refine ⟨⟨name, joinPath (a.backupDir, name), Str.len saved.content,
    saved.modified / 1000000000⟩, ?_, rfl⟩
  unfold listBackups
  rw [mem_insertionSort]
  exact mem_filterMap.2 ⟨_, AList.mem_lookup_iff.1 h, if_pos ⟨rfl, hname⟩⟩

theorem noBackups_insert (hdir : OneDir group) (hb : b ∈ group) (saved : Saved) :
    NoBackups group (AList.insert b.target saved ∅) := by
  intro a ha name _
  have hne : (a.backupDir, name) ≠ b.target := by
    rw [backupDir_eq (hdir a ha b hb)]
    exact fun h => b.backupDir_ne_dir (congrArg Prod.fst h)
  rw [AList.lookup_insert_ne hne]
  rfl

theorem Shelved.owned (h : Shelved limit group done s) (hdir : OneDir group)
    (hapart : NoneShadowed group) :
    BackupsOwned validate limit group s where
  listed a ha b hb hne info hinfo backup hbackup hsame := by
    have hpass := isBackupOf_of_mem_listBackups hinfo
    rw [hsame] at hpass
    exact (shadows_of_isBackupOf hpass (h.isBackupOf hb hbackup)).elim (hapart a ha b hb hne)
      (hapart b hb a ha (Ne.symm hne))
  untouched _ he b hb hne backup hbackup :=
    run_untouched hdir hapart he hb hne (h.isBackupOf hb hbackup)
  newest a ha backup hbackup := h.kept a ha backup.1 backup.2 (h.isBackupOf ha hbackup)

end Runs

section Owned

variable {validate : Text → Text → ValidationResult} {limit : Nat} {group : Set FilePath}

/-- **Backups belong to their files exactly if** no file shadows another. -/
theorem backups_owned_iff (hdir : OneDir group)
    (haccept : ∀ a ∈ group, ∃ content, (validate a.text content).valid = true)
    (hlimit : 0 < limit) :
    (∀ t edits, NoBackups group t → (∀ e ∈ edits, e.path ∈ group) → InTime edits →
      BackupsOwned validate limit group (afterEdits validate limit edits t)) ↔
      NoneShadowed group := by
  constructor
  · intro hall a ha b hb hne hshadows
    obtain ⟨ts, hpass⟩ := (shadows_iff a b).1 hshadows
    obtain ⟨content, hvalid⟩ := haccept b hb
    -- one edit of the second file, which is not empty
    let t : Tree := AList.insert b.target ⟨"x".toList, 0⟩ ∅
    let e : FileEdit := ⟨b, content, ts, 1⟩
    have howned := hall t [e] (noBackups_insert hdir hb _) (by simpa [e] using hb)
      (pairwise_singleton _ _)
    have hbefore : e.before t = "x".toList := by
      unfold FileEdit.before Tree.content
      rw [AList.lookup_insert]
      rfl
    have hmade : (afterEdits validate limit [e] t).made b =
        [((b.backupPath ts.text).2, ⟨"x".toList, 1⟩)] := by
      have hnew : e.made validate t = some ((b.backupPath ts.text).2, ⟨"x".toList, 1⟩) := by
        unfold FileEdit.made
        rw [hbefore, if_pos]
        rw [hvalid]
        rfl
      have hself : (afterEdits validate limit [e] t).made b = (e.made validate t).toList ++ [] :=
        if_pos rfl
      rw [hself, hnew]
      rfl
    have hmem : ((b.backupPath ts.text).2, (⟨"x".toList, 1⟩ : Saved)) ∈
        (afterEdits validate limit [e] t).made b := by
      rw [hmade]
      exact mem_singleton_self _
    have hthere := (howned.newest b hb _ hmem).2 (by
      rw [hmade, take_of_length_le hlimit]
      exact mem_singleton_self _)
    rw [← backupDir_eq (hdir a ha b hb)] at hthere
    obtain ⟨info, hinfo, hname⟩ := exists_mem_listBackups hthere hpass
    exact howned.listed a ha b hb hne info hinfo _ hmem hname
  · intro hapart t edits hnone hgroup htime
    have hshelved : Shelved limit group ([] ++ edits) (afterEdits validate limit edits t) :=
      (shelved_start hnone).edits hlimit hdir hapart hgroup htime
    exact hshelved.owned hdir hapart

end Owned

/-! ## Examples -/

def checkByPath : Text → Text → ValidationResult :=
  validateByPath .basic (fun _ => .error []) fun _ => (.error [] : Except Text Unit)

def dictFile (name : String) : FilePath := ⟨"dicts".toList, name.toList⟩

def twoDicts : Set FilePath := {dictFile "pii.txt", dictFile "pii-regex.txt"}

theorem twoDicts_noneShadowed : NoneShadowed twoDicts := by
  rintro a (rfl | rfl) b (rfl | rfl) hne
  · exact absurd rfl hne
  · exact not_shadows_of_short (by decide) (by decide)
  · exact not_shadows_of_short (by decide) (by decide)
  · exact absurd rfl hne

/-- The backups of the two dictionaries of the repository are kept apart. -/
theorem backups_owned_two_dicts : NoneShadowed twoDicts ∧
    ∀ t edits, NoBackups twoDicts t → (∀ e ∈ edits, e.path ∈ twoDicts) → InTime edits →
      BackupsOwned checkByPath 20 twoDicts (afterEdits checkByPath 20 edits t) := by
  refine ⟨twoDicts_noneShadowed, (backups_owned_iff ?_ ?_ (by decide)).2 twoDicts_noneShadowed⟩
  · rintro a (rfl | rfl) b (rfl | rfl) <;> rfl
  · rintro a (rfl | rfl)
    · exact ⟨[], rfl⟩
    · exact ⟨[], rfl⟩

def jaEdit : FileEdit := ⟨dictFile "pii.ja.txt", [], .newYear, 1⟩

def piiEdit : FileEdit :=
  ⟨dictFile "pii.txt", [], ⟨"20260101T000001000000000".toList, rfl, rfl⟩, 2⟩

def jaBackup : Text := "pii.ja.bak.20260101T000000000000000.txt".toList

def dictTree : Tree :=
  AList.insert (dictFile "pii.txt").target ⟨"a".toList, 0⟩
    (AList.insert (dictFile "pii.ja.txt").target ⟨"b".toList, 0⟩ ∅)

/-- **A backup of another file is listed and then deleted**: `pii.txt` lists the backup of
`pii.ja.txt`, and the next edit of `pii.txt` removes it. -/
theorem other_backup_deleted :
    InTime [jaEdit, piiEdit] ∧
      NoBackups {dictFile "pii.txt", dictFile "pii.ja.txt"} dictTree ∧
      (afterEdits checkByPath 1 [jaEdit] dictTree).made jaEdit.path =
        [(jaBackup, ⟨"b".toList, 1⟩)] ∧
      ((listBackups piiEdit.path (afterEdits checkByPath 1 [jaEdit] dictTree).tree).map
        BackupInfo.name) = [jaBackup] ∧
      (afterEdits checkByPath 1 [jaEdit] dictTree).tree.lookup (jaEdit.path.backupDir, jaBackup) =
        some ⟨"b".toList, 1⟩ ∧
      (afterEdits checkByPath 1 [jaEdit, piiEdit] dictTree).tree.lookup
        (jaEdit.path.backupDir, jaBackup) = none := by
  refine ⟨?_, ?_, by decide +kernel, by decide +kernel, by decide +kernel, by decide +kernel⟩
  · exact pairwise_pair.2 ⟨by decide, by decide⟩
  · rintro a (rfl | rfl) name _
    · rfl
    · rfl

end Nanoguard.Console

import Nanoguard.Console.AtomicWrite
import Nanoguard.Lib.FsView
import Nanoguard.Lib.Retention

/-!
# The files that the console writes

Writes, backups and reverts as they are seen when no call fails and nothing stops: a map from places
to contents with their times of change. `write_refines` and `revert_refines` say that the calls to the
file system do to the disk what is written here.
-/

namespace Nanoguard.Console

open List CrashFs
open Retention (eraseAll lookup_eraseAll)

structure Saved where
  content : Text
  /-- the time of the last change, in nanoseconds -/
  modified : Nat
  deriving DecidableEq, Repr

abbrev Tree := AList fun _ : Place => Saved

/-- The time in the name of a backup, as `%Y%m%dT%H%M%S%f` writes it. -/
structure Stamp where
  text : Text
  plain : text.all (fun c => c.isDigit || c == 'T') = true
  size : text.length = 24

theorem Stamp.dot_notMem (ts : Stamp) : '.' ∉ ts.text := fun hdot =>
  absurd (all_eq_true.1 ts.plain _ hdot) (by decide)

namespace Tree

def content (t : Tree) (q : Place) : Option Text := (t.lookup q).map Saved.content

def listing (t : Tree) (dir : Text) : List (Text × Nat) :=
  t.entries.filterMap fun entry =>
    if entry.1.1 = dir then some (entry.1.2, entry.2.modified) else none

end Tree

/-! ## Writes -/

/-- The test by which a file finds its backups. -/
def isBackupOf (stem name : Text) : Bool :=
  decide (stem ++ ".".toList <+: name) && Str.contains name ".bak.".toList

def backupFile (p : FilePath) (limit : Nat) (ts : Stamp) (saved : Saved) (t : Tree) : Tree :=
  let written : Tree := t.insert (p.backupPath ts.text) saved
  if 0 < limit then
    eraseAll ((prunedBackups (fileStem p.fileName) limit (written.listing p.backupDir)).map
      fun name => (p.backupDir, name)) written
  else written

structure FileEdit where
  path : FilePath
  content : Text
  ts : Stamp
  now : Nat

def FileEdit.before (e : FileEdit) (t : Tree) : Text := (t.content e.path.target).getD []

/-- The files once the replaced content is backed up. -/
def FileEdit.backedUp (limit : Nat) (e : FileEdit) (t : Tree) : Tree :=
  let before := e.before t
  if before.isEmpty then t else backupFile e.path limit e.ts ⟨before, e.now⟩ t

def atomicWriteWithLimit (validator : Text → ValidationResult) (limit : Nat) (e : FileEdit) (t : Tree) :
    Except Text Tree :=
  let validation := validator e.content
  if validation.valid then
    .ok ((e.backedUp limit t).insert e.path.target ⟨e.content, e.now⟩)
  else .error ("validation failed: ".toList ++ validation.error.getD [])

/-! ## Backups -/

structure BackupInfo where
  name : Text
  path : Text
  size : Nat
  /-- in seconds -/
  createdAt : Nat
  deriving DecidableEq, Repr

def listBackups (p : FilePath) (t : Tree) : List BackupInfo :=
  let entries := t.entries.filterMap fun entry =>
    if entry.1.1 = p.backupDir ∧ isBackupOf (fileStem p.fileName) entry.1.2 = true then
      some ⟨entry.1.2, joinPath entry.1, Str.len entry.2.content,
        entry.2.modified / 1000000000⟩
    else none
  entries.insertionSort fun a b => b.createdAt ≤ a.createdAt

/-- The backup of the given name, in the backup directory of the file. -/
def findBackup (p : FilePath) (backupName : Text) (t : Tree) : Except Text (Place × Text) :=
  if leavesDir backupName then .error ("invalid backup name: ".toList ++ backupName)
  else
    match fileName backupName with
    | none => .error "invalid backup name".toList
    | some name =>
      match t.content (p.backupDir, name) with
      | none => .error ("backup not found: ".toList ++ backupName)
      | some content => .ok ((p.backupDir, name), content)

/-- A revert returns the content that it has put back. -/
def revertToBackup (p : FilePath) (backupName : Text) (now : Nat) (t : Tree) :
    Except Text (Tree × Text) := do
  let (_, content) ← findBackup p backupName t
  return (t.insert p.target ⟨content, now⟩, content)

section Lookup

variable {p : FilePath} {limit : Nat} {ts : Stamp} {saved : Saved} {t : Tree} {q : Place}

theorem content_insert (t : Tree) (q : Place) (saved : Saved) :
    Tree.content (t.insert q saved) = Function.update t.content q (some saved.content) := by
  funext x
  unfold Tree.content
  by_cases h : x = q
  · rw [h, AList.lookup_insert, Function.update_self]
    rfl
  · rw [AList.lookup_insert_ne h, Function.update_of_ne h]

theorem mem_listing {dir : Text} {entry : Text × Nat} :
    entry ∈ t.listing dir ↔ ∃ saved, t.lookup (dir, entry.1) = some saved ∧ saved.modified = entry.2 := by
  unfold Tree.listing
  rw [mem_filterMap]
  constructor
  · rintro ⟨⟨⟨d, name⟩, saved⟩, hmem, hentry⟩
    split at hentry
    next hdir =>
      cases hentry
      exact ⟨saved, hdir ▸ AList.mem_lookup_iff.2 hmem, rfl⟩
    · cases hentry
  · rintro ⟨saved, hlookup, htime⟩
    refine ⟨⟨(dir, entry.1), saved⟩, AList.mem_lookup_iff.1 hlookup, ?_⟩
    rw [if_pos rfl, htime]

theorem nodup_listing (t : Tree) (dir : Text) : (t.listing dir).Nodup := by
  refine (nodupKeys_iff_pairwise.1 t.nodupKeys).filterMap _ ?_
  rintro ⟨⟨d, name⟩, saved⟩ ⟨⟨d', name'⟩, saved'⟩ hkeys entry hentry entry' hentry' rfl
  simp only [Option.ite_none_right_eq_some, Option.some.injEq] at hentry hentry'
  obtain ⟨rfl, rfl⟩ := hentry
  obtain ⟨rfl, hsame⟩ := hentry'
  exact hkeys (Prod.ext rfl (congrArg Prod.fst hsame).symm)

theorem isBackupOf_of_mem_prunedBackups {stem name : Text} {listing : List (Text × Nat)}
    (h : name ∈ prunedBackups stem limit listing) : isBackupOf stem name = true := by
  obtain ⟨entry, hentry, rfl⟩ := mem_map.1 h
  have hsorted := mem_of_mem_drop hentry
  rw [mem_insertionSort] at hsorted
  exact (mem_filter.1 hsorted).2

theorem isBackupOf_backupPath (p : FilePath) (ts : Stamp) :
    isBackupOf (fileStem p.fileName) (p.backupPath ts.text).2 = true := by
  have hname : (p.backupPath ts.text).2 = fileStem p.fileName ++ ".bak.".toList ++ ts.text ++
      if (extension p.fileName).isEmpty then [] else ".".toList ++ extension p.fileName := rfl
  unfold isBackupOf
  rw [hname, Bool.and_eq_true, decide_eq_true_eq]
  constructor
  · rw [append_assoc, append_assoc]
    exact (prefix_append_right_inj _).2 (List.IsPrefix.trans ⟨"bak.".toList, rfl⟩
      (prefix_append ..))
  · refine decide_eq_true ?_
    rw [append_assoc, append_assoc]
    exact (prefix_append ..).isInfix.trans (suffix_append ..).isInfix

/-- **A backup touches only names that pass the test.** -/
theorem lookup_backupFile_of_not_own
    (h : q.1 = p.backupDir → isBackupOf (fileStem p.fileName) q.2 = false) :
    (backupFile p limit ts saved t).lookup q = t.lookup q := by
  have hq : q ≠ p.backupPath ts.text := by
    rintro rfl
    rw [isBackupOf_backupPath] at h
    exact absurd (h rfl) (by decide)
  unfold backupFile
  split
  · rw [lookup_eraseAll, if_neg, AList.lookup_insert_ne hq]
    intro hmem
    obtain ⟨name, hname, rfl⟩ := mem_map.1 hmem
    rw [isBackupOf_of_mem_prunedBackups hname] at h
    exact absurd (h rfl) (by decide)
  · exact AList.lookup_insert_ne hq

theorem content_backupFile {content : Text}
    (h : Tree.content (backupFile p limit ts saved t) q = some content) :
    q = p.backupPath ts.text ∧ content = saved.content ∨
      q ≠ p.backupPath ts.text ∧ t.content q = some content := by
  have hwritten : Tree.content (t.insert (p.backupPath ts.text) saved) q = some content := by
    unfold backupFile at h
    split at h
    · unfold Tree.content at h ⊢
      rw [lookup_eraseAll] at h
      split at h
      · cases h
      · exact h
    · exact h
  rw [content_insert] at hwritten
  by_cases hq : q = p.backupPath ts.text
  · rw [hq, Function.update_self] at hwritten
    cases hwritten
    exact .inl ⟨hq, rfl⟩
  · rw [Function.update_of_ne hq] at hwritten
    exact .inr ⟨hq, hwritten⟩

theorem lookup_backupFile_new
    (hnew : ∀ q old, t.lookup q = some old → old.modified < saved.modified) :
    (backupFile p limit ts saved t).lookup (p.backupPath ts.text) = some saved := by
  unfold backupFile
  dsimp only
  split
  next hlimit =>
    rw [lookup_eraseAll, if_neg, AList.lookup_insert]
    intro hmem
    obtain ⟨name, hname, hplace⟩ := mem_map.1 hmem
    obtain ⟨entry, hentry, rfl⟩ := mem_map.1 hname
    have hmax : ∀ x ∈ Tree.listing (t.insert (p.backupPath ts.text) saved) p.backupDir,
        x = ((p.backupPath ts.text).2, saved.modified) ∨ x.2 < saved.modified := by
      intro x hx
      obtain ⟨found, hfound, htime⟩ := mem_listing.1 hx
      by_cases hx : (p.backupDir, x.1) = p.backupPath ts.text
      · rw [hx, AList.lookup_insert] at hfound
        cases hfound
        exact .inl (Prod.ext (congrArg Prod.snd hx) htime.symm)
      · rw [AList.lookup_insert_ne hx] at hfound
        exact .inr (htime ▸ hnew _ _ hfound)
    have hlisted := mem_of_mem_filter ((mem_insertionSort _).1 (mem_of_mem_drop hentry))
    -- the time in the listing is that of the new backup
    obtain ⟨found, hfound, htime⟩ := mem_listing.1 hlisted
    rw [hplace, AList.lookup_insert] at hfound
    cases hfound
    obtain rfl : entry = ((p.backupPath ts.text).2, saved.modified) :=
      Prod.ext (congrArg Prod.snd hplace) htime.symm
    exact Retention.notMem_drop_of_newest ((nodup_listing _ _).filter _)
      (fun x hx => hmax x (mem_of_mem_filter hx)) hlimit hentry
  · exact AList.lookup_insert _

theorem lookup_backedUp_of_not_own {e : FileEdit}
    (h : q.1 = e.path.backupDir → isBackupOf (fileStem e.path.fileName) q.2 = false) :
    (e.backedUp limit t).lookup q = t.lookup q := by
  unfold FileEdit.backedUp
  dsimp only
  split
  · rfl
  · exact lookup_backupFile_of_not_own h

end Lookup

/-! ## The disk -/

structure Sees (t : Tree) (s : Disk) : Prop where
  unlinked : Unlinked s
  read : s.read = t.content

section Refines

variable {t : Tree} {s s' : Disk} {steps : List DiskStep}

theorem seeAll_backupSteps {w : WriteCall} {ts : Stamp} {now : Nat} (hts : w.ts = ts.text)
    (before : Text)
    (hlisting : w.listing = Tree.listing (t.insert (w.path.backupPath ts.text) ⟨before, now⟩)
      w.path.backupDir) :
    seeAll (w.backupSteps before) t.content =
      Tree.content (backupFile w.path w.backupLimit ts ⟨before, now⟩ t) := by
  have hwritten := content_insert t (w.path.backupPath ts.text) ⟨before, now⟩
  unfold WriteCall.backupSteps backupFile
  dsimp only
  rw [seeAll_cons, seeAll_append, seeAll_writeSteps, w.split_flatten, hts]
  unfold Call.see
  dsimp only
  rw [← hwritten]
  split
  · rw [seeAll_cons, hlisting]
    funext q
    have hmap : ∀ names : List Text,
        (names.map fun name => (⟨.remove (w.path.backupDir, name), none⟩ : DiskStep)) =
          (names.map fun name => (w.path.backupDir, name)).map fun q => ⟨.remove q, none⟩ := by
      intro names
      rw [map_map]
      rfl
    rw [hmap, seeAll_removes]
    unfold Tree.content
    rw [lookup_eraseAll]
    split <;> rfl
  · rfl

theorem write_refines {w : WriteCall} {ts : Stamp} {now : Nat} (hsees : Sees t s)
    (hreadable : w.readable = true) (hts : w.ts = ts.text)
    (hlisting : w.listing = Tree.listing
      (t.insert (w.path.backupPath ts.text) ⟨w.before s, now⟩) w.path.backupDir)
    (htmp : t.content w.tmp = none) (hsteps : w.script s = .ok steps)
    (hexec : execAll Prod.fst steps s = some s') :
    ∃ t', atomicWriteWithLimit w.validator w.backupLimit ⟨w.path, w.content, ts, now⟩ t = .ok t' ∧
      Sees t' s' := by
  let e : FileEdit := ⟨w.path, w.content, ts, now⟩
  have hbefore : w.before s = e.before t := by
    unfold WriteCall.before
    rw [if_pos hreadable, hsees.read]
    rfl
  unfold WriteCall.script at hsteps
  dsimp only at hsteps
  split at hsteps
  next hvalid =>
    cases hsteps
    refine ⟨_, if_pos hvalid, (hsees.unlinked.execAll hexec).1, ?_⟩
    -- the backup is seen, and nothing else
    have hprepared : seeAll (w.prepareSteps (e.before t)) t.content =
        Tree.content (e.backedUp w.backupLimit t) := by
      unfold WriteCall.prepareSteps FileEdit.backedUp
      dsimp only
      rw [seeAll_append]
      have hmkdir : seeAll (if w.path.parent.isEmpty then []
          else [(⟨.mkdir w.path.parent, some w.ioError⟩ : DiskStep)]) t.content = t.content := by
        split <;> rfl
      rw [hmkdir]
      split
      · rfl
      · exact seeAll_backupSteps hts _ hlisting
    have htmpFree : Tree.content (e.backedUp w.backupLimit t) w.tmp = none := by
      unfold Tree.content
      rw [lookup_backedUp_of_not_own fun hdir => absurd hdir.symm w.path.backupDir_ne_dir]
      exact htmp
    rw [(hsees.unlinked.execAll hexec).2, hbefore, hsees.read, seeAll_append, seeAll_append,
      hprepared, seeAll_append]
    have htmpSteps : ∀ view : Place → Option Text,
        seeAll w.tmpSteps view = Function.update view w.tmp (some w.content) := by
      intro view
      unfold WriteCall.tmpSteps
      rw [seeAll_syncedSteps, w.split_flatten]
    rw [htmpSteps, content_insert]
    -- the two calls between the temporary file and the rename change no content
    exact see_rename_update (D := Text) htmpFree w.path.target w.content
  · cases hsteps

theorem backup_eq_findBackup {r : RevertCall} (hsees : Sees t s) :
    r.backup s = findBackup r.path r.backupName t := by
  unfold RevertCall.backup findBackup
  rw [hsees.read]
  rfl

theorem revert_refines {r : RevertCall} (now : Nat) (hsees : Sees t s) (htmp : t.content r.tmp = none)
    (hsteps : r.script s = .ok steps) (hexec : execAll Prod.fst steps s = some s') :
    ∃ t' content, revertToBackup r.path r.backupName now t = .ok (t', content) ∧ Sees t' s' := by
  obtain ⟨⟨place, content⟩, hfound, hdone⟩ := bind_eq_ok.1 hsteps
  cases hdone
  rw [backup_eq_findBackup hsees] at hfound
  refine ⟨t.insert r.path.target ⟨content, now⟩, content, ?_, (hsees.unlinked.execAll hexec).1, ?_⟩
  · unfold revertToBackup
    rw [hfound]
    rfl
  have htmpSteps : ∀ view : Place → Option Text,
      seeAll (r.tmpSteps place content) view = Function.update view r.tmp (some content) := by
    intro view
    unfold RevertCall.tmpSteps
    rw [seeAll_cons, seeAll_syncedSteps, r.split_flatten]
    rfl
  rw [(hsees.unlinked.execAll hexec).2, hsees.read]
  unfold RevertCall.steps
  rw [seeAll_append, seeAll_append, htmpSteps, content_insert]
  exact see_rename_update (D := Text) htmp r.path.target content

end Refines

end Nanoguard.Console

import Mathlib.Data.List.Sort
import Nanoguard.Console.Validate
import Nanoguard.Lib.CrashFs

/-!
# Writing a file and reverting it

A write goes to a temporary file in the same directory, which is synced and renamed onto the target;
the content that is replaced is kept in a backup. A revert puts a backup back in the same way. Both
are lists of calls to the file system; each can fail, and the process or the machine can stop in
between. The write syncs the directory before the rename and the revert does so after it.
-/

namespace Nanoguard.Console

open List CrashFs

abbrev Place := Text × Text

abbrev Disk := Fs Place Text Char

abbrev DiskStep := Step Place Text Char Text

/-- What the process knows and the standard library does. -/
structure Host where
  pid : Nat
  nonce : Nat
  nanos : Nat
  /-- the debug format of a path -/
  debug : Text → Text
  /-- the text of a failure that is given no context -/
  ioError : Text
  /-- a write may need several calls -/
  split : Text → List Text
  split_flatten : ∀ content, (split content).flatten = content

/-! ## Names -/

/-- A path with a file name. The parent is empty if the path is only a name. -/
structure FilePath where
  parent : Text
  fileName : Text

def joinPath (place : Place) : Text := place.1 ++ "/".toList ++ place.2

def fileStem (name : Text) : Text :=
  match Str.rsplitOnce '.' name with
  | some (before, _) => if before.isEmpty then name else before
  | none => name

def extension (name : Text) : Text :=
  match Str.rsplitOnce '.' name with
  | some (before, after) => if before.isEmpty then [] else after
  | none => []

namespace FilePath

variable (p : FilePath)

def dir : Text := if p.parent.isEmpty then ".".toList else p.parent

def backupDir : Text :=
  if p.parent.isEmpty then ".nanoguard-backups".toList
  else p.parent ++ "/.nanoguard-backups".toList

def target : Place := (p.dir, p.fileName)

def text : Text := if p.parent.isEmpty then p.fileName else joinPath p.target

def tmpPath (host : Host) : Place :=
  (p.dir, ".".toList ++ p.fileName ++ ".tmp.".toList ++ Str.decimal host.pid ++ ".".toList ++
    Str.decimal host.nonce ++ ".".toList ++ Str.decimal host.nanos)

def backupPath (ts : Text) : Place :=
  let ext := extension p.fileName
  (p.backupDir, fileStem p.fileName ++ ".bak.".toList ++ ts ++
    if ext.isEmpty then [] else ".".toList ++ ext)

theorem tmpPath_ne_target (host : Host) : p.tmpPath host ≠ p.target := by
  intro h
  have hname := congrArg (fun place : Place => place.2.length) h
  simp only [tmpPath, target, length_append, String.length_toList] at hname
  have hdot : ".".length = 1 := rfl
  omega

theorem backupDir_ne_dir : p.backupDir ≠ p.dir := by
  unfold backupDir dir
  split
  · decide
  · intro h
    have hlength := congrArg List.length h
    simp at hlength

end FilePath

/-! ## The calls -/

/-- The backups of a stem beyond the newest ones, of a listing with times. -/
def prunedBackups (stem : Text) (limit : Nat) (listing : List (Text × Nat)) : List Text :=
  let own := listing.filter fun entry =>
    decide (stem ++ ".".toList <+: entry.1) && Str.contains entry.1 ".bak.".toList
  ((own.insertionSort fun a b => b.2 ≤ a.2).drop limit).map Prod.fst

/-- The steps of a call, or the error that it returns at once. -/
def CallRuns (script : Except Text (List DiskStep)) (s : Disk) (status : Status Text)
    (s' : Disk) : Prop :=
  match script with
  | .ok steps => Exec Prod.fst steps s status s'
  | .error e => s' = s ∧ (status = .failed e ∨ status = .stopped)

/-- A call of `atomic_write_with_limit` and what it meets. -/
structure WriteCall extends Host where
  path : FilePath
  content : Text
  validator : Text → ValidationResult
  backupLimit : Nat
  /-- whether the present content can be read as a text -/
  readable : Bool
  /-- the time in the name of the backup -/
  ts : Text
  /-- the backup directory as it is listed, with the times of change -/
  listing : List (Text × Nat)

namespace WriteCall

variable (w : WriteCall)

def before (s : Disk) : Text := if w.readable then (s.read w.path.target).getD [] else []

def tmp : Place := w.path.tmpPath w.toHost

def backupSteps (before : Text) : List DiskStep :=
  let backup := w.path.backupPath w.ts
  let prune : List DiskStep :=
    if 0 < w.backupLimit then
      ⟨.look, some w.ioError⟩ ::
        (prunedBackups (fileStem w.path.fileName) w.backupLimit w.listing).map fun name =>
          ⟨.remove (w.path.backupDir, name), none⟩
    else []
  ⟨.mkdir w.path.backupDir, some w.ioError⟩ ::
    (writeSteps backup (w.split before)
      (some ("writing backup ".toList ++ w.debug (joinPath backup))) ++ prune)

def prepareSteps (before : Text) : List DiskStep :=
  (if w.path.parent.isEmpty then [] else [⟨.mkdir w.path.parent, some w.ioError⟩]) ++
    if before.isEmpty then [] else w.backupSteps before

def syncDirSteps : List DiskStep :=
  [⟨.look, some ("opening directory ".toList ++ w.debug w.path.dir ++ " for fsync".toList)⟩,
    ⟨.fsyncDir w.path.dir, none⟩]

def tmpSteps : List DiskStep :=
  let shown := w.debug (joinPath w.tmp)
  syncedSteps w.tmp (w.split w.content) ("writing temp file ".toList ++ shown)
    ("opening temp file ".toList ++ shown ++ " for fsync".toList)
    ("fsync temp file ".toList ++ shown)

def script (s : Disk) : Except Text (List DiskStep) :=
  let validation := w.validator w.content
  if validation.valid then
    -- the directory is synced before the rename
    .ok (w.prepareSteps (w.before s) ++ (w.tmpSteps ++ w.syncDirSteps) ++
      [⟨.rename w.tmp w.path.target, some ("renaming ".toList ++ w.debug (joinPath w.tmp) ++
        " to ".toList ++ w.debug w.path.text)⟩])
  else .error ("validation failed: ".toList ++ validation.error.getD [])

def hashes (hashContent : Text → Text) (s : Disk) : Text × Text :=
  (hashContent (w.before s), hashContent w.content)

def Runs (s : Disk) (status : Status Text) (s' : Disk) : Prop := CallRuns (w.script s) s status s'

end WriteCall

structure RevertCall extends Host where
  path : FilePath
  backupName : Text

namespace RevertCall

variable (r : RevertCall)

def tmp : Place := r.path.tmpPath r.toHost

def tmpSteps (backup : Place) (content : Text) : List DiskStep :=
  ⟨.look, some ("reading backup ".toList ++ r.debug (joinPath backup))⟩ ::
    syncedSteps r.tmp (r.split content) r.ioError r.ioError r.ioError

def syncDirSteps : List DiskStep :=
  [⟨.look, some ("opening directory ".toList ++ r.debug r.path.dir ++ " for fsync".toList)⟩,
    ⟨.fsyncDir r.path.dir, none⟩]

def steps (backup : Place) (content : Text) : List DiskStep :=
  r.tmpSteps backup content ++ [⟨.rename r.tmp r.path.target, some r.ioError⟩] ++ r.syncDirSteps

/-- The backup of the given name and its content, which is also what a revert returns. -/
def backup (s : Disk) : Except Text (Place × Text) :=
  if leavesDir r.backupName then .error ("invalid backup name: ".toList ++ r.backupName)
  else
    match Console.fileName r.backupName with
    | none => .error "invalid backup name".toList
    | some name =>
      match s.read (r.path.backupDir, name) with
      | none => .error ("backup not found: ".toList ++ r.backupName)
      | some content => .ok ((r.path.backupDir, name), content)

def script (s : Disk) : Except Text (List DiskStep) := do
  let found ← r.backup s
  return r.steps found.1 found.2

def Runs (s : Disk) (status : Status Text) (s' : Disk) : Prop := CallRuns (r.script s) s status s'

end RevertCall

section Runs

variable {w : WriteCall} {r : RevertCall} {s s' : Disk} {status : Status Text}
  {ok : Option Text → Prop}

theorem names_backupSteps {before : Text} {step : DiskStep} {q : Place}
    (h : step ∈ w.backupSteps before) (hq : q ∈ step.call.names) : q.1 = w.path.backupDir := by
  rcases mem_cons.1 h with rfl | h
  · cases hq
  rcases mem_append.1 h with h | h
  · rw [names_writeSteps h hq]
    rfl
  split at h
  · rcases mem_cons.1 h with rfl | h
    · cases hq
    · obtain ⟨name, -, rfl⟩ := mem_map.1 h
      rw [mem_singleton.1 hq]
  · cases h

theorem target_notMem_names {before : Text} :
    ∀ step ∈ w.prepareSteps before ++ (w.tmpSteps ++ w.syncDirSteps),
      w.path.target ∉ step.call.names := by
  intro step h hq
  rcases mem_append.1 h with h | h
  · rcases mem_append.1 h with h | h
    · split at h
      · cases h
      · rw [mem_singleton.1 h] at hq
        cases hq
    · split at h
      · cases h
      · exact w.path.backupDir_ne_dir (names_backupSteps h hq).symm
  rcases mem_append.1 h with h | h
  · exact w.path.tmpPath_ne_target w.toHost (names_syncedSteps h hq).symm
  rcases mem_cons.1 h with rfl | h
  · cases hq
  · rw [mem_singleton.1 h] at hq
    cases hq

/-- **A write** leaves the target, or the rename has been made. -/
theorem WriteCall.Runs.cases (hproper : Proper Prod.fst s w.path.target)
    (hsafe : Safe Prod.fst s w.path.target ok) (h : w.Runs s status s') :
    status ≠ .returned ∧ Rooted Prod.fst s' w.path.target ∧ Safe Prod.fst s' w.path.target ok ∧
        s'.read w.path.target = s.read w.path.target ∨
      (∀ e, status ≠ .failed e) ∧ Replaced Prod.fst s' w.path.target ok w.content := by
  unfold WriteCall.Runs WriteCall.script at h
  dsimp only at h
  split at h
  · refine Exec.replace hproper hsafe target_notMem_names ?_ h
    intro mid hmid
    obtain ⟨prepared, -, htmp⟩ := hmid.append_returned
    rw [← w.split_flatten w.content]
    apply htmp.synced
    intro step hstep
    rcases mem_cons.1 hstep with rfl | hstep
    · rfl
    · rw [mem_singleton.1 hstep]
      rfl
  · obtain ⟨rfl, hstatus⟩ := h
    refine .inl ⟨?_, hproper.toRooted, hsafe, rfl⟩
    rcases hstatus with rfl | rfl <;> exact nofun

section Revert

variable {place : Place} {content : Text}

theorem target_notMem_tmpSteps :
    ∀ step ∈ r.tmpSteps place content, r.path.target ∉ step.call.names := by
  intro step hstep hq
  rcases mem_cons.1 hstep with rfl | hstep
  · cases hq
  · exact r.path.tmpPath_ne_target r.toHost (names_syncedSteps hstep hq).symm

theorem synced_tmpSteps (h : Exec Prod.fst (r.tmpSteps place content) s .returned s') :
    s'.Synced r.tmp content := by
  obtain ⟨looked, -, hsynced⟩ := h.of_error
  rw [← r.split_flatten content]
  rw [← append_nil (syncedSteps _ _ _ _ _)] at hsynced
  exact hsynced.synced nofun

theorem exec_revertSteps (hproper : Proper Prod.fst s r.path.target)
    (hsafe : Safe Prod.fst s r.path.target ok)
    (h : Exec Prod.fst (r.steps place content) s status s') :
    Rooted Prod.fst s' r.path.target ∧
      Safe Prod.fst s' r.path.target fun c => ok c ∨ c = some content := by
  have hready : ∀ mid, Exec Prod.fst (r.tmpSteps place content) s .returned mid →
      mid.Synced r.tmp content := fun _ => synced_tmpSteps
  rcases Exec.append h with ⟨-, hfirst⟩ | ⟨mid, hfirst, hsync⟩
  · rcases hfirst.replace hproper hsafe target_notMem_tmpSteps hready with
      ⟨-, hrooted, hkept, -⟩ | ⟨-, hnew⟩
    · exact ⟨hrooted, hkept.mono fun _ => .inl⟩
    · exact ⟨hnew.rooted, hnew.safe⟩
  rcases hfirst.replace hproper hsafe target_notMem_tmpSteps hready with ⟨hne, -⟩ | ⟨-, hnew⟩
  · exact absurd rfl hne
  refine hnew.safe.exec_syncs hnew.rooted ?_ hsync
  intro step hstep
  rcases mem_cons.1 hstep with rfl | hstep
  · exact .inl rfl
  · rw [mem_singleton.1 hstep]
    exact .inr ⟨_, rfl⟩

/-- **A revert** leaves the target or puts the content of the backup there. -/
theorem RevertCall.Runs.safe (hproper : Proper Prod.fst s r.path.target)
    (hsafe : Safe Prod.fst s r.path.target ok) (h : r.Runs s status s') :
    Rooted Prod.fst s' r.path.target ∧ Safe Prod.fst s' r.path.target fun c =>
      ok c ∨ ∃ place content, r.backup s = .ok (place, content) ∧ c = some content := by
  unfold RevertCall.Runs RevertCall.script at h
  cases hbackup : r.backup s with
  | error e =>
    rw [hbackup] at h
    obtain ⟨rfl, -⟩ := h
    exact ⟨hproper.toRooted, hsafe.mono fun _ => .inl⟩
  | ok found =>
    rw [hbackup] at h
    obtain ⟨hrooted, hnew⟩ := exec_revertSteps hproper hsafe h
    exact ⟨hrooted, hnew.mono fun c hc => hc.imp_right fun hc => ⟨found.1, found.2, rfl, hc⟩⟩

end Revert

end Runs

/-! ## An example -/

def exampleHost : Host where
  pid := 1
  nonce := 2
  nanos := 3
  debug path := "\"".toList ++ path ++ "\"".toList
  ioError := "No space left on device (os error 28)".toList
  split content := [content]
  split_flatten _ := List.append_nil _

def examplePath : FilePath := ⟨"dicts".toList, "block.txt".toList⟩

def exampleBackup : Place :=
  ("dicts/.nanoguard-backups".toList, "block.bak.20260101T000000000000000.txt".toList)

def exampleDisk : Disk :=
  let entry (p : Place) : Option Nat :=
    if p = examplePath.target then some 0 else if p = exampleBackup then some 1 else none
  { entry
    data := fun i => if i = 0 then "rm\t0".toList else "dd\t0".toList
    onDisk := entry
    pending := []
    dirty := fun _ => false
    dirs := ["dicts".toList, "dicts/.nanoguard-backups".toList]
    newDirs := []
    next := 2 }

def exampleWrite : WriteCall where
  toHost := exampleHost
  path := examplePath
  content := "mkfs\t0".toList
  validator _ := ⟨true, none⟩
  backupLimit := 20
  readable := true
  ts := "20260102T000000000000000".toList
  listing := []

def exampleRevert : RevertCall where
  toHost := exampleHost
  path := examplePath
  backupName := exampleBackup.2

theorem exampleDisk_proper : Proper Prod.fst exampleDisk examplePath.target where
  entry_mem := mem_cons_self
  placed := nofun
  numbered i hi := by
    rcases mem_singleton.1 hi with ⟨⟩
    exact Nat.zero_lt_two
  own p hp i hi hmem := by
    have hzero : i = 0 := Option.some.inj (mem_singleton.1 hmem)
    rw [hzero] at hi
    simp only [exampleDisk, if_neg hp] at hi
    split at hi <;> cases hi
  dir_mem _ := mem_cons_self

theorem exampleDisk_holds : Holds Prod.fst exampleDisk examplePath.target (some "rm\t0".toList) := by
  have hsafe : Safe Prod.fst exampleDisk examplePath.target (· = some "rm\t0".toList) := by
    refine ⟨?_, nofun⟩
    intro e he c hc
    rcases mem_singleton.1 he with ⟨⟩
    obtain ⟨content, rfl, hclean⟩ := hc
    rw [hclean rfl]
    rfl
  exact (safe_iff exampleDisk_proper.entry_mem).1 hsafe

theorem exampleWrite_runs : ∃ s', exampleWrite.Runs exampleDisk .returned s' := by
  have hsome : (execAll Prod.fst ((exampleWrite.script exampleDisk).toOption.getD [])
      exampleDisk).isSome = true := rfl
  obtain ⟨s', hs'⟩ := Option.isSome_iff_exists.1 hsome
  exact ⟨s', Exec.of_execAll hs'⟩

section Results

variable {w : WriteCall} {s s' : Disk} {status : Status Text} {old : Option Text}

/-- **Writes are atomic.** At every point of a write or a revert, a stop leaves what a stop could
have left before the call, or the complete new content. A write that returns an error has left the
target as it was. -/
theorem console_write_atomic :
    (∀ w : WriteCall, Proper Prod.fst s w.path.target → w.Runs s status s' →
      (∀ c, Leaves Prod.fst s' w.path.target c →
        Leaves Prod.fst s w.path.target c ∨ c = some w.content) ∧
      ∀ e, status = .failed e → s'.read w.path.target = s.read w.path.target ∧
        ∀ c, Leaves Prod.fst s' w.path.target c → Leaves Prod.fst s w.path.target c) ∧
    ∀ r : RevertCall, Proper Prod.fst s r.path.target → r.Runs s status s' →
      ∀ c, Leaves Prod.fst s' r.path.target c → Leaves Prod.fst s r.path.target c ∨
        ∃ place content, r.backup s = .ok (place, content) ∧ c = some content := by
  constructor
  · intro w hproper h
    rcases h.cases hproper (safe_leaves hproper.entry_mem) with ⟨-, hrooted, hsafe, hread⟩ |
      ⟨hstatus, hnew⟩
    · exact ⟨fun c hc => .inl (hsafe.leaves hrooted.entry_mem hc),
        fun e _ => ⟨hread, fun c hc => hsafe.leaves hrooted.entry_mem hc⟩⟩
    · exact ⟨fun c hc => hnew.safe.leaves hnew.rooted.entry_mem hc,
        fun e he => absurd he (hstatus e)⟩
  · intro r hproper h c hc
    obtain ⟨hrooted, hsafe⟩ := h.safe hproper (safe_leaves hproper.entry_mem)
    exact hsafe.leaves hrooted.entry_mem hc

/-- Of the example, a stop leaves the old dictionary or the new one, and of a revert the old one or the
backup. -/
theorem console_write_atomic_example :
    Proper Prod.fst exampleDisk examplePath.target ∧
      (∃ s', exampleWrite.Runs exampleDisk .returned s') ∧
      (∀ status s' c, exampleWrite.Runs exampleDisk status s' →
        Leaves Prod.fst s' examplePath.target c →
        c = some "rm\t0".toList ∨ c = some "mkfs\t0".toList) ∧
      ∀ status s' c, exampleRevert.Runs exampleDisk status s' →
        Leaves Prod.fst s' examplePath.target c →
        c = some "rm\t0".toList ∨ c = some "dd\t0".toList := by
  refine ⟨exampleDisk_proper, exampleWrite_runs, ?_, ?_⟩
  · intro status s' c hrun hc
    rcases (console_write_atomic.1 exampleWrite exampleDisk_proper hrun).1 c hc with hold | hnew
    · obtain ⟨before, hstops, rfl⟩ := hold
      exact .inl (exampleDisk_holds before hstops)
    · exact .inr hnew
  intro status s' c hrun hc
  rcases console_write_atomic.2 exampleRevert exampleDisk_proper hrun c hc with
    ⟨before, hstops, rfl⟩ | ⟨place, content, hbackup, rfl⟩
  · exact .inl (exampleDisk_holds before hstops)
  have hfound : exampleRevert.backup exampleDisk = .ok (exampleBackup, "dd\t0".toList) := rfl
  rw [hfound] at hbackup
  cases hbackup
  exact .inr rfl

/-- **Writes are not durable.** The new content survives every later stop only if the target had it
before: the directory is synced before the rename and not after it. -/
theorem write_durable_iff (hproper : Proper Prod.fst s w.path.target)
    (hold : Holds Prod.fst s w.path.target old) (h : w.Runs s .returned s') :
    (∀ later, Later Prod.fst s' later → Holds Prod.fst later w.path.target (some w.content)) ↔
      old = some w.content := by
  have hsafe : Safe Prod.fst s w.path.target (· = old) := (safe_iff hproper.entry_mem).2 hold
  rcases h.cases hproper hsafe with ⟨hne, -⟩ | ⟨-, hnew⟩
  · exact absurd rfl hne
  · exact hnew.durable_iff

/-- The write of the example succeeds and is not durable. -/
theorem write_durable_iff_example :
    ∃ s', exampleWrite.Runs exampleDisk .returned s' ∧
      ¬ ∀ later, Later Prod.fst s' later →
        Holds Prod.fst later examplePath.target (some "mkfs\t0".toList) := by
  obtain ⟨s', hrun⟩ := exampleWrite_runs
  refine ⟨s', hrun, ?_⟩
  intro hdurable
  have hsame := (write_durable_iff (w := exampleWrite) exampleDisk_proper exampleDisk_holds hrun).1
    hdurable
  revert hsame
  decide

/-- A crash after a successful write brings the old dictionary back. -/
theorem write_lost :
    ∃ s', exampleWrite.Runs exampleDisk .returned s' ∧
      s'.read examplePath.target = some "mkfs\t0".toList ∧
      ∃ after, Crash Prod.fst s' after ∧ after.read examplePath.target = some "rm\t0".toList := by
  let steps := (exampleWrite.script exampleDisk).toOption.getD []
  have hsome : (execAll Prod.fst steps exampleDisk).isSome = true := rfl
  let s' := (execAll Prod.fst steps exampleDisk).get hsome
  refine ⟨s', Exec.of_execAll (Option.some_get hsome).symm, rfl, ?_⟩
  exact exists_crash_of_possible Prod.fst mem_cons_self (s'.reads_map _)

end Results

end Nanoguard.Console

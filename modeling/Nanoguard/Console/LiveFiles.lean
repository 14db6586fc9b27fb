import Nanoguard.Console.EditablePaths

/-!
# Files over edits and reverts

An edit is checked before it is written; a revert is not, and it takes any name in the directory of
the backups, which the files of a directory share. Which file a backup was made of is not recorded:
`Watched` keeps it, beside the files, with what each of them has held.
-/

namespace Nanoguard.Console

open Regex (Engine)

variable {content backup : Text} {now : Nat} {q : Place}

structure FileConsole where
  eng : Engine
  parseYaml : Text → Except Text Policy
  /-- only whether the configuration can be parsed counts -/
  parseToml : Text → Except Text Unit
  backupLimit : Nat

inductive FileRequest where
  | edit (path : EditablePath) (content : Text) (ts : Stamp) (now : Nat)
  | revert (path : EditablePath) (backup : Text) (now : Nat)

namespace FileConsole

variable (k : FileConsole)

def validate (path content : Text) : ValidationResult :=
  validateByPath k.eng k.parseYaml k.parseToml path content

/-- The files after a request that answers with success. -/
def serve (r : FileRequest) (t : Tree) : Except Text Tree :=
  match r with
  | .edit path content ts now =>
    atomicWriteWithLimit (k.validate path.text) k.backupLimit ⟨path.file, content, ts, now⟩ t
  | .revert path backup now => do
    let (reverted, _) ← revertToBackup path.file backup now t
    return reverted

def AllValid (t : Tree) : Prop :=
  ∀ (path : EditablePath) content, t.content path.target = some content →
    (k.validate path.text content).valid = true

end FileConsole

/-! ## Histories -/

/-- The files, with what is not recorded about them. -/
structure Watched where
  tree : Tree
  /-- the contents so far -/
  had : Place → List Text
  /-- the file that a backup was made of, as long as nothing else is written to its place -/
  origin : Place → Option Place

def Watched.start (t : Tree) : Watched := ⟨t, fun q => (t.content q).toList, fun _ => none⟩

def FileRequest.path : FileRequest → EditablePath
  | .edit path .. | .revert path .. => path

def FileRequest.saved (r : FileRequest) (t : Tree) : Option Place :=
  match r with
  | .edit path content ts now =>
    if (FileEdit.before ⟨path.file, content, ts, now⟩ t).isEmpty then none
    else some (path.file.backupPath ts.text)
  | .revert .. => none

def FileRequest.origin (r : FileRequest) (w : Watched) (q : Place) : Option Place :=
  if q = r.path.target then none
  else if r.saved w.tree = some q then some r.path.target
  else w.origin q

section Runs

variable (k : FileConsole)

def FileConsole.watch (w : Watched) (r : FileRequest) : Except Text Watched := do
  let t ← k.serve r w.tree
  return ⟨t, fun q => (t.content q).toList ++ w.had q, r.origin w⟩

/-- At each request of a sequence, as long as they answer with success. -/
def Along (P : Watched → FileRequest → Prop) : List FileRequest → Watched → Prop
  | [], _ => True
  | r :: rs, w => P w r ∧ ∀ w', k.watch w r = .ok w' → Along P rs w'

/-- A revert brings back a content that the file has had. -/
def Earlier (w : Watched) : FileRequest → Prop
  | .edit .. => True
  | .revert path backup _ => ∀ place content,
    findBackup path.file backup w.tree = .ok (place, content) → content ∈ w.had path.target

/-- A request leaves all files valid, and a revert is one. -/
structure StaysRight (w : Watched) (r : FileRequest) : Prop where
  valid : ∀ w', k.watch w r = .ok w' → k.AllValid w'.tree
  earlier : Earlier w r

/-- A revert names a backup of its own file, and an edit backs up only files whose names have an
extension. -/
def OwnBackup (w : Watched) : FileRequest → Prop
  | .edit path content ts now =>
    (k.validate path.text content).valid = true →
      FileEdit.before ⟨path.file, content, ts, now⟩ w.tree ≠ [] → extension path.file.fileName ≠ []
  | .revert path backup _ => ∀ place content,
    findBackup path.file backup w.tree = .ok (place, content) → w.origin place = some path.target

/-- The request is for a file outside the directories of backups. An edit is later than all changes and
its content is new. -/
def TellsApart (w : Watched) : FileRequest → Prop
  | .edit path content _ now => ¬ InBackupDir path.target ∧ (∀ q, content ∉ w.had q) ∧
    ∀ q saved, w.tree.lookup q = some saved → saved.modified < now
  | .revert path _ _ => ¬ InBackupDir path.target

end Runs

section Steps

variable {k : FileConsole} {w w' : Watched} {r : FileRequest} {path : EditablePath} {t : Tree}
  {e : FileEdit}

theorem content_eq_before (h : e.before t ≠ []) : t.content e.path.target = some (e.before t) := by
  unfold FileEdit.before at h ⊢
  cases hcontent : t.content e.path.target with
  | none =>
    rw [hcontent] at h
    exact absurd rfl h
  | some content => rfl

theorem watch_edit {ts : Stamp} (h : k.watch w (.edit path content ts now) = .ok w') :
    let e : FileEdit := ⟨path.file, content, ts, now⟩
    (k.validate path.text content).valid = true ∧
      w'.tree.content = Function.update (Tree.content (e.backedUp k.backupLimit w.tree)) path.target
        (some content) := by
  obtain ⟨t, hserved, hdone⟩ := bind_eq_ok.1 h
  cases hdone
  unfold FileConsole.serve atomicWriteWithLimit at hserved
  dsimp only at hserved ⊢
  split at hserved
  next hvalid =>
    cases hserved
    exact ⟨hvalid, content_insert ..⟩
  · cases hserved

theorem backupPath_ne_target (p : EditablePath) (ts : Text) : p.file.backupPath ts ≠ p.target :=
  fun h => p.file.backupDir_ne_dir (congrArg Prod.fst h)

theorem findBackup_eq_ok {f : FilePath} {place : Place}
    (h : findBackup f backup t = .ok (place, content)) :
    place.1 = f.backupDir ∧ fileName backup = some place.2 ∧ t.content place = some content := by
  unfold findBackup at h
  split at h
  · cases h
  split at h
  · cases h
  next hname =>
    split at h
    · cases h
    next hcontent =>
      cases h
      exact ⟨rfl, hname, hcontent⟩

theorem watch_revert (h : k.watch w (.revert path backup now) = .ok w') :
    ∃ place content, findBackup path.file backup w.tree = .ok (place, content) ∧
      w'.tree.content = Function.update w.tree.content path.target (some content) := by
  obtain ⟨t, hserved, hdone⟩ := bind_eq_ok.1 h
  cases hdone
  obtain ⟨⟨t, back⟩, hrevert, hdone⟩ := bind_eq_ok.1 hserved
  cases hdone
  obtain ⟨found, hfound, hdone⟩ := bind_eq_ok.1 hrevert
  cases hdone
  exact ⟨found.1, found.2, hfound, content_insert ..⟩

theorem watch_had (h : k.watch w r = .ok w') :
    w'.origin = r.origin w ∧ ∀ q, w'.had q = (w'.tree.content q).toList ++ w.had q := by
  obtain ⟨t, -, hdone⟩ := bind_eq_ok.1 h
  cases hdone
  exact ⟨rfl, fun _ => rfl⟩

theorem mem_had (h : k.watch w r = .ok w') :
    content ∈ w'.had q ↔ w'.tree.content q = some content ∨ content ∈ w.had q := by
  rw [(watch_had h).2, List.mem_append, Option.mem_toList]

theorem origin_eq_some_iff {target : Place} :
    r.origin w q = some target ↔ q ≠ r.path.target ∧
      (r.saved w.tree = some q ∧ target = r.path.target ∨
        r.saved w.tree ≠ some q ∧ w.origin q = some target) := by
  unfold FileRequest.origin
  by_cases hq : q = r.path.target
  · simp [hq]
  · by_cases hsaved : r.saved w.tree = some q
    · simp [hsaved, eq_comm]
    · simp [hsaved]

/-- What a request puts in place of the file. -/
def Puts (k : FileConsole) (w : Watched) (content : Text) : FileRequest → Prop
  | .edit path new _ _ => content = new ∧ (k.validate path.text new).valid = true
  | .revert path backup _ => ∃ place, findBackup path.file backup w.tree = .ok (place, content)

theorem watch_target (h : k.watch w r = .ok w') :
    ∃ content, w'.tree.content r.path.target = some content ∧ Puts k w content r := by
  cases r with
  | edit path content ts now =>
    obtain ⟨hvalid, hcontents⟩ := watch_edit h
    exact ⟨content, by rw [hcontents]; exact Function.update_self .., rfl, hvalid⟩
  | revert path backup now =>
    obtain ⟨place, content, hfound, hcontents⟩ := watch_revert h
    exact ⟨content, by rw [hcontents]; exact Function.update_self .., place, hfound⟩

theorem watch_other (h : k.watch w r = .ok w') (hq : q ≠ r.path.target)
    (hcontent : w'.tree.content q = some content) :
    r.saved w.tree = some q ∧ w.tree.content r.path.target = some content ∨
      r.saved w.tree ≠ some q ∧ w.tree.content q = some content := by
  cases r with
  | edit path new ts now =>
    have hq : q ≠ path.target := hq
    rw [(watch_edit h).2, Function.update_of_ne hq] at hcontent
    unfold FileEdit.backedUp at hcontent
    unfold FileRequest.saved
    dsimp only at hcontent ⊢
    split at hcontent
    next hempty =>
      rw [if_pos hempty]
      exact .inr ⟨nofun, hcontent⟩
    next hne =>
      rw [if_neg hne]
      rcases content_backupFile hcontent with ⟨rfl, rfl⟩ | ⟨hplace, hold⟩
      · exact .inl ⟨rfl, content_eq_before fun hnil => hne (List.isEmpty_iff.2 hnil)⟩
      · exact .inr ⟨fun hsome => hplace (Option.some.inj hsome).symm, hold⟩
  | revert path backup now =>
    obtain ⟨_, _, -, hcontents⟩ := watch_revert h
    have hq : q ≠ path.target := hq
    rw [hcontents, Function.update_of_ne hq] at hcontent
    exact .inr ⟨nofun, hcontent⟩

theorem valid_congr {path path' : Text} (h : fileKind path = fileKind path') (content : Text) :
    (k.validate path content).valid = (k.validate path' content).valid := by
  unfold FileConsole.validate validateByPath
  rw [h]
  cases fileKind path' <;> rfl

theorem valid_text {path path' : EditablePath} (h : path.target = path'.target) :
    (k.validate path.text content).valid = (k.validate path'.text content).valid := by
  rw [EditablePath.text_inj h]

theorem saved_eq_some (h : r.saved t = some q) :
    ∃ path content ts now, r = .edit path content ts now ∧ q = path.file.backupPath ts.text ∧
      FileEdit.before ⟨path.file, content, ts, now⟩ t ≠ [] := by
  cases r with
  | edit path content ts now =>
    unfold FileRequest.saved at h
    dsimp only at h
    split at h
    · cases h
    next hne =>
      cases h
      exact ⟨path, content, ts, now, rfl, rfl, fun hnil => hne (List.isEmpty_iff.2 hnil)⟩
  | revert => cases h

end Steps

section Sound

variable {k : FileConsole} {w w' : Watched} {r : FileRequest}

/-- The files are valid, and a backup has a content that its file has had and that is valid for it. -/
structure Sound (k : FileConsole) (w : Watched) : Prop where
  valid : k.AllValid w.tree
  current : ∀ q content, w.tree.content q = some content → content ∈ w.had q
  own : ∀ q target, w.origin q = some target → ∀ content, w.tree.content q = some content →
    content ∈ w.had target ∧
      ∀ path : EditablePath, path.target = target → (k.validate path.text content).valid = true

theorem sound_start {t : Tree} (h : k.AllValid t) : Sound k (.start t) where
  valid := h
  current _ _ hcontent := Option.mem_toList.2 hcontent
  own := nofun

theorem Sound.step (h : Sound k w) (hown : OwnBackup k w r) (hwatch : k.watch w r = .ok w') :
    Sound k w' := by
  obtain ⟨new, hnew, hputs⟩ := watch_target hwatch
  have hvalid : (k.validate r.path.text new).valid = true := by
    cases r with
    | edit path content ts now => exact hputs.1 ▸ hputs.2
    | revert path backup now =>
      obtain ⟨place, hfound⟩ := hputs
      exact (h.own place _ (hown place new hfound) new (findBackup_eq_ok hfound).2.2).2 path rfl
  refine ⟨fun other c hc => ?_, fun q c hc => (mem_had hwatch).2 (.inl hc), ?_⟩
  · by_cases htarget : other.target = r.path.target
    · rw [htarget, hnew] at hc
      cases hc
      rw [valid_text htarget]
      exact hvalid
    rcases watch_other hwatch htarget hc with ⟨hsaved, hold⟩ | ⟨-, hold⟩
    · -- the backup is checked like the file
      obtain ⟨path, content, ts, now, rfl, hplace, hne⟩ := saved_eq_some hsaved
      rw [valid_congr (fileKind_backup (hown hputs.2 hne) hplace)]
      exact h.valid path c hold
    · exact h.valid other c hold
  · intro q target horigin c hc
    rw [(watch_had hwatch).1, origin_eq_some_iff] at horigin
    obtain ⟨hq, horigin⟩ := horigin
    rw [mem_had hwatch]
    rcases watch_other hwatch hq hc with ⟨hsaved, hold⟩ | ⟨hnot, hold⟩
    · obtain ⟨-, rfl⟩ := horigin.resolve_right fun h => h.1 hsaved
      exact ⟨.inr (h.current _ _ hold), fun other hsame => by
        rw [valid_text hsame]
        exact h.valid r.path c hold⟩
    · obtain ⟨-, horigin⟩ := horigin.resolve_left fun h => hnot h.1
      exact (h.own q target horigin c hold).imp_left .inr

theorem Sound.earlier (h : Sound k w) (hown : OwnBackup k w r) : Earlier w r := by
  cases r with
  | edit => trivial
  | revert path backup now =>
    intro place content hfound
    obtain ⟨-, -, hplace⟩ := findBackup_eq_ok hfound
    exact (h.own place _ (hown place content hfound) content hplace).1

theorem Sound.along {rs : List FileRequest} (h : Sound k w) (hown : Along k (OwnBackup k) rs w) :
    Along k (StaysRight k) rs w := by
  induction rs generalizing w with
  | nil => trivial
  | cons r rs ih =>
    obtain ⟨hr, hrest⟩ := hown
    refine ⟨⟨fun w' hwatch => (h.step hr hwatch).valid, h.earlier hr⟩, fun w' hwatch => ?_⟩
    exact ih (h.step hr hwatch) (hrest w' hwatch)

end Sound

section Told

variable {k : FileConsole} {w w' : Watched} {r : FileRequest} {path : EditablePath}

/-- What a file outside the directories of backups has had is found only there and in its backups. -/
structure Told (w : Watched) : Prop where
  current : ∀ q content, w.tree.content q = some content → content ∈ w.had q
  inside : ∀ q target, w.origin q = some target → InBackupDir q
  elsewhere : ∀ q content, w.tree.content q = some content → ∀ path : EditablePath,
    ¬ InBackupDir path.target → content ∈ w.had path.target →
      q = path.target ∨ w.origin q = some path.target

theorem told_start {t : Tree}
    (h : ∀ q q' content, t.content q = some content → t.content q' = some content → q = q') :
    Told (.start t) where
  current _ _ hcontent := Option.mem_toList.2 hcontent
  inside := nofun
  elsewhere q content hq path _ hhad := .inl (h q path.target content hq (Option.mem_toList.1 hhad))

theorem Told.ownRevert (h : Told w) (houtside : ¬ InBackupDir path.target)
    (hearlier : Earlier w (.revert path backup now)) : OwnBackup k w (.revert path backup now) := by
  intro place content hfound
  obtain ⟨hdir, -, hplace⟩ := findBackup_eq_ok hfound
  refine (h.elsewhere place content hplace path houtside
    (hearlier place content hfound)).resolve_left fun hsame => ?_
  have hinside := inBackupDir_backupPath path.file place.2
  rw [← hdir] at hinside
  exact houtside (hsame ▸ hinside)

/-- What is put in place is new everywhere, or only the file has had it. -/
theorem Told.puts {new : Text} (h : Told w) (htells : TellsApart w r) (hearlier : Earlier w r)
    (hputs : Puts k w new r) :
    (∀ q, new ∉ w.had q) ∨ new ∈ w.had r.path.target ∧ ∀ other : EditablePath,
      ¬ InBackupDir other.target → new ∈ w.had other.target → other.target = r.path.target := by
  cases r with
  | edit path content ts now => exact .inl (hputs.1 ▸ htells.2.1)
  | revert path backup now =>
    obtain ⟨place, hfound⟩ := hputs
    have horigin := h.ownRevert (k := k) htells hearlier place new hfound
    refine .inr ⟨hearlier place new hfound, fun other hout hhad => ?_⟩
    -- the backup is of one file only
    rcases h.elsewhere place new (findBackup_eq_ok hfound).2.2 other hout hhad with rfl | hother
    · exact absurd (h.inside _ _ horigin) hout
    · exact Option.some.inj (hother.symm.trans horigin)

theorem Told.watch (h : Told w) (htells : TellsApart w r) (hearlier : Earlier w r)
    (hwatch : k.watch w r = .ok w') : Told w' := by
  obtain ⟨new, hnew, hputs⟩ := watch_target hwatch
  have hput := h.puts htells hearlier hputs
  have houtside : ¬ InBackupDir r.path.target := by
    cases r with
    | edit => exact htells.1
    | revert => exact htells
  have hinside : ∀ q, r.saved w.tree = some q → InBackupDir q := by
    intro q hsaved
    obtain ⟨path, content, ts, now, -, rfl, -⟩ := saved_eq_some hsaved
    exact inBackupDir_backupPath path.file _
  -- only the file of the request has a content that is new to it
  have hhad : ∀ {other : EditablePath} {c}, ¬ InBackupDir other.target → c ∈ w'.had other.target →
      other.target = r.path.target ∧ c = new ∨ c ∈ w.had other.target := by
    intro other c hout hc
    rcases (mem_had hwatch).1 hc with hnow | hold
    · by_cases hsame : other.target = r.path.target
      · rw [hsame, hnew] at hnow
        exact .inl ⟨hsame, (Option.some.inj hnow).symm⟩
      · rcases watch_other hwatch hsame hnow with ⟨hsaved, -⟩ | ⟨-, hold⟩
        · exact absurd (hinside _ hsaved) hout
        · exact .inr (h.current _ _ hold)
    · exact .inr hold
  refine ⟨fun q c hc => (mem_had hwatch).2 (.inl hc), ?_, ?_⟩
  · intro q target horigin
    rw [(watch_had hwatch).1, origin_eq_some_iff] at horigin
    rcases horigin.2 with ⟨hsaved, -⟩ | ⟨-, hold⟩
    · exact hinside q hsaved
    · exact h.inside q target hold
  intro q c hc other hout hc'
  rw [(watch_had hwatch).1, origin_eq_some_iff]
  by_cases hq : q = r.path.target
  · rw [hq, hnew] at hc
    cases hc
    refine .inl (hq.trans ?_)
    rcases hhad hout hc' with ⟨hsame, -⟩ | hold
    · exact hsame.symm
    · exact ((hput.resolve_left fun hfresh => hfresh _ hold).2 other hout hold).symm
  rcases watch_other hwatch hq hc with ⟨hsaved, hold⟩ | ⟨hnot, hold⟩
  · -- the replaced content was only in the file of the request
    refine .inr ⟨hq, .inl ⟨hsaved, ?_⟩⟩
    rcases hhad hout hc' with ⟨hsame, -⟩ | hbefore
    · exact hsame
    · rcases h.elsewhere _ _ hold other hout hbefore with hsame | horigin
      · exact hsame.symm
      · exact absurd (h.inside _ _ horigin) houtside
  have hbefore : c ∈ w.had other.target := by
    rcases hhad hout hc' with ⟨hsame, rfl⟩ | hbefore
    · rw [hsame]
      exact (hput.resolve_left fun hfresh => hfresh q (h.current q _ hold)).1
    · exact hbefore
  exact (h.elsewhere q c hold other hout hbefore).imp_right fun horigin =>
    ⟨hq, .inr ⟨hnot, horigin⟩⟩

theorem Told.ownEdit {ts : Stamp} (htells : TellsApart w (.edit path content ts now))
    (hvalid : ∀ w', k.watch w (.edit path content ts now) = .ok w' → k.AllValid w'.tree) :
    OwnBackup k w (.edit path content ts now) := by
  intro hcontent hne hext
  let e : FileEdit := ⟨path.file, content, ts, now⟩
  rcases path.cases with ⟨htext, hname, hhead⟩ | ⟨-, hfile⟩
  · obtain ⟨path', hpath'⟩ := path.exists_backup ts htext hname hhead
    -- the backup is there after the edit
    obtain ⟨w', hwatch⟩ : ∃ w', k.watch w (.edit path content ts now) = .ok w' := by
      unfold FileConsole.watch FileConsole.serve atomicWriteWithLimit
      dsimp only
      rw [if_pos hcontent]
      exact ⟨_, rfl⟩
    have hkept : Tree.content (e.backedUp k.backupLimit w.tree) path'.target =
        some (e.before w.tree) := by
      unfold FileEdit.backedUp Tree.content
      dsimp only
      rw [if_neg (by simpa using hne), hpath', lookup_backupFile_new htells.2.2]
      rfl
    have hthere : w'.tree.content path'.target = some (e.before w.tree) := by
      rw [(watch_edit hwatch).2, Function.update_of_ne]
      · exact hkept
      · exact hpath' ▸ backupPath_ne_target path _
    have hpasses := hvalid w' hwatch path' _ hthere
    unfold FileConsole.validate validateByPath at hpasses
    rw [fileKind_backup_of_no_extension hext hpath'] at hpasses
    cases hpasses
  · rw [hfile] at hext
    exact absurd hext (by decide)

theorem Told.step (h : Told w) (htells : TellsApart w r) (hright : StaysRight k w r) :
    OwnBackup k w r ∧ ∀ w', k.watch w r = .ok w' → Told w' := by
  refine ⟨?_, fun w' hwatch => h.watch htells hright.earlier hwatch⟩
  cases r with
  | edit => exact ownEdit htells hright.valid
  | revert => exact h.ownRevert htells hright.earlier

theorem Told.along {rs : List FileRequest} (h : Told w) (htells : Along k TellsApart rs w)
    (hright : Along k (StaysRight k) rs w) : Along k (OwnBackup k) rs w := by
  induction rs generalizing w with
  | nil => trivial
  | cons r rs ih =>
    obtain ⟨hown, hnext⟩ := h.step htells.1 hright.1
    exact ⟨hown, fun w' hwatch => ih (hnext w' hwatch) (htells.2 w' hwatch) (hright.2 w' hwatch)⟩

end Told

/-- **Files stay valid and reverts go back in the same file** if every revert names a backup of its own
file and every file that is backed up has an extension; and only then, where contents tell the files
apart. -/
theorem live_files_iff (k : FileConsole) (t : Tree) (rs : List FileRequest) (hvalid : k.AllValid t) :
    (Along k (OwnBackup k) rs (.start t) → Along k (StaysRight k) rs (.start t)) ∧
      ((∀ q q' content, t.content q = some content → t.content q' = some content → q = q') →
        Along k TellsApart rs (.start t) →
          (Along k (StaysRight k) rs (.start t) ↔ Along k (OwnBackup k) rs (.start t))) := by
  have hsound := sound_start hvalid
  exact ⟨hsound.along, fun hapart htells =>
    ⟨(told_start hapart).along htells, hsound.along⟩⟩

/-! ## Two dictionaries -/

def exampleFileConsole : FileConsole := ⟨.basic, fun _ => .error [], fun _ => .error [], 20⟩

def blockPath : EditablePath := ⟨"dicts/block.txt".toList, by decide, by decide⟩

def piiPath : EditablePath := ⟨"dicts/pii.txt".toList, by decide, by decide⟩

def emailLine : Text := "/x/\tEMAIL".toList

def liveTree : Tree :=
  AList.insert blockPath.target ⟨"rm\t0".toList, 0⟩ (AList.insert piiPath.target ⟨emailLine, 0⟩ ∅)

theorem liveTree_valid : exampleFileConsole.AllValid liveTree := by
  intro path content hcontent
  unfold liveTree at hcontent
  rw [content_insert, content_insert] at hcontent
  by_cases hblock : path.target = blockPath.target
  · rw [hblock] at hcontent
    cases hcontent
    rw [valid_text hblock]
    decide +kernel
  rw [Function.update_of_ne hblock] at hcontent
  by_cases hpii : path.target = piiPath.target
  · rw [hpii] at hcontent
    cases hcontent
    rw [valid_text hpii]
    decide +kernel
  · rw [Function.update_of_ne hpii] at hcontent
    cases hcontent

def editAndBack : List FileRequest :=
  [.edit blockPath "dd\t0".toList .newYear 1,
    .revert blockPath "block.bak.20260101T000000000000000.txt".toList 2]

/-- A dictionary that is edited and reverted to its own backup. -/
theorem live_files_edit_and_back :
    (editAndBack.foldlM exampleFileConsole.watch (.start liveTree)).isOk = true ∧
      Along exampleFileConsole (StaysRight exampleFileConsole) editAndBack (.start liveTree) := by
  refine ⟨by decide +kernel, (live_files_iff _ _ _ liveTree_valid).1 ?_⟩
  refine ⟨fun _ _ => by decide, fun w' hwatch => ⟨fun place content hfound => ?_, fun _ _ => trivial⟩⟩
  obtain ⟨hdir, hname, -⟩ := findBackup_eq_ok hfound
  have hplace : place = blockPath.file.backupPath Stamp.newYear.text :=
    Prod.ext hdir (Option.some.inj hname.symm)
  rw [hplace, (watch_had hwatch).1]
  exact origin_eq_some_iff.2 ⟨backupPath_ne_target _ _, .inl ⟨rfl, rfl⟩⟩

/-- **A revert installs a backup of another file**: the dictionary of words has a content that it
never had and that does not pass its check. -/
theorem foreign_backup_installed :
    exampleFileConsole.AllValid liveTree ∧
      ∃ w w', exampleFileConsole.watch (.start liveTree) (.edit piiPath [] .newYear 1) = .ok w ∧
        exampleFileConsole.watch w
          (.revert blockPath "pii.bak.20260101T000000000000000.txt".toList 2) = .ok w' ∧
        w'.tree.content blockPath.target = some emailLine ∧
        emailLine ∉ w.had blockPath.target ∧
        (exampleFileConsole.validate blockPath.text emailLine).valid = false := by
  refine ⟨liveTree_valid, _, _, rfl, rfl, ?_, ?_, ?_⟩
  · decide +kernel
  · decide +kernel
  · decide +kernel

end Nanoguard.Console

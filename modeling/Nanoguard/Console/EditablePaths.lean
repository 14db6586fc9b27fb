import Nanoguard.Console.Backups

/-!
# Paths that can be edited

The backup of a file that can be edited is itself under such a path, and it is checked like the file
it was made of, unless the name of the file is only an extension.
-/

namespace Nanoguard.Console

open List

/-- A path that the handlers take, after it is trimmed, in its plain spelling. -/
structure EditablePath where
  text : Text
  safe : isSafeEditablePath text = true
  plain : ((Str.splitChar '/' text).all fun segment =>
    !segment.isEmpty && segment != ".".toList) = true

variable {p p' : EditablePath} {name ext : Text} {c : Char}

def EditablePath.file (p : EditablePath) : FilePath :=
  match Str.rsplitOnce '/' p.text with
  | some (parent, name) => ⟨parent, name⟩
  | none => ⟨[], p.text⟩

def EditablePath.target (p : EditablePath) : Place := p.file.target

/-! ## Places -/

theorem safe_cases {path : Text} (h : isSafeEditablePath path = true) :
    leavesDir path = false ∧ ("dicts/".toList <+: path ∨ "policies/".toList <+: path ∨
      path = "nanoguard.toml".toList) := by
  unfold isSafeEditablePath at h
  rw [Bool.and_eq_true, Bool.not_eq_true', Bool.or_eq_true, Bool.or_eq_true, decide_eq_true_eq,
    decide_eq_true_eq, decide_eq_true_eq, or_assoc] at h
  exact h

theorem EditablePath.cases (p : EditablePath) :
    p.text = p.file.parent ++ '/' :: p.file.fileName ∧ '/' ∉ p.file.fileName ∧
        p.file.parent.head? = p.text.head? ∨
      p.text = "nanoguard.toml".toList ∧ p.file = ⟨[], "nanoguard.toml".toList⟩ := by
  obtain ⟨-, hsafe⟩ := safe_cases p.safe
  unfold EditablePath.file
  split
  next parent name hsplit =>
    obtain ⟨htext, hname⟩ := Str.rsplitOnce_eq_some_iff.1 hsplit
    refine .inl ⟨htext, hname, ?_⟩
    cases parent with
    | cons c parent => rw [htext]; rfl
    | nil =>
      rw [htext] at hsafe
      rcases hsafe with ⟨rest, hrest⟩ | ⟨rest, hrest⟩ | hsame
      · cases hrest
      · cases hrest
      · cases hsame
  next hnone =>
    have hslash : '/' ∉ p.text := by
      intro hmem
      unfold Str.rsplitOnce at hnone
      rw [if_pos hmem] at hnone
      cases hnone
    rcases hsafe with hpre | hpre | hsame
    · exact absurd (hpre.subset (by decide)) hslash
    · exact absurd (hpre.subset (by decide)) hslash
    · exact .inr ⟨hsame, by rw [hsame]⟩

theorem EditablePath.head (p : EditablePath) :
    p.text.head? = some 'd' ∨ p.text.head? = some 'p' ∨ p.text.head? = some 'n' := by
  obtain ⟨-, ⟨rest, hrest⟩ | ⟨rest, hrest⟩ | hsame⟩ := safe_cases p.safe
  · exact .inl (by rw [← hrest]; rfl)
  · exact .inr (.inl (by rw [← hrest]; rfl))
  · exact .inr (.inr (by rw [hsame]; rfl))

theorem EditablePath.dir_eq (p : EditablePath) (h : p.file.parent.head? = p.text.head?) :
    p.file.dir = p.file.parent ∧ p.file.parent ≠ ".".toList := by
  have hhead := p.head
  rw [← h] at hhead
  constructor
  · unfold FilePath.dir
    rw [if_neg]
    intro hempty
    rw [List.isEmpty_iff.1 hempty] at hhead
    simp at hhead
  · intro hdot
    rw [hdot] at hhead
    revert hhead
    decide

theorem EditablePath.text_inj (h : p.target = p'.target) : p.text = p'.text := by
  have hdir : p.file.dir = p'.file.dir := congrArg Prod.fst h
  have hname : p.file.fileName = p'.file.fileName := congrArg Prod.snd h
  rcases p.cases with ⟨htext, -, hhead⟩ | ⟨htext, hfile⟩ <;>
    rcases p'.cases with ⟨htext', -, hhead'⟩ | ⟨htext', hfile'⟩
  · rw [(p.dir_eq hhead).1, (p'.dir_eq hhead').1] at hdir
    rw [htext, htext', hdir, hname]
  · rw [(p.dir_eq hhead).1, hfile'] at hdir
    exact absurd hdir (p.dir_eq hhead).2
  · rw [(p'.dir_eq hhead').1, hfile] at hdir
    exact absurd hdir.symm (p'.dir_eq hhead').2
  · rw [htext, htext']

def InBackupDir (q : Place) : Prop := ".nanoguard-backups".toList <:+ q.1

theorem inBackupDir_backupPath (f : FilePath) (name : Text) : InBackupDir (f.backupDir, name) := by
  unfold InBackupDir FilePath.backupDir
  split
  · exact suffix_refl _
  · exact List.IsSuffix.trans ⟨"/".toList, rfl⟩ (suffix_append ..)

theorem EditablePath.text_of_backup (h : p'.target = (p.file.backupDir, name)) :
    p.text = p.file.parent ++ '/' :: p.file.fileName ∧
      p'.text = p.file.parent ++ "/.nanoguard-backups".toList ++ '/' :: name := by
  have hdir : p'.file.dir = p.file.backupDir := congrArg Prod.fst h
  have hname : p'.file.fileName = name := congrArg Prod.snd h
  rcases p'.cases with ⟨htext', -, hhead'⟩ | ⟨-, hfile'⟩
  · rw [(p'.dir_eq hhead').1] at hdir
    rcases p.cases with ⟨htext, -, hhead⟩ | ⟨-, hfile⟩
    · refine ⟨htext, ?_⟩
      have hne : p.file.parent.isEmpty = false := by
        cases hparent : p.file.parent with
        | cons c parent => rfl
        | nil =>
          have hp := p.head
          rw [← hhead, hparent] at hp
          simp at hp
      unfold FilePath.backupDir at hdir
      rw [hne] at hdir
      rw [htext', hdir, hname]
      rfl
    · -- the backups of the configuration cannot be edited
      have hp := p'.head
      rw [← hhead', hdir, hfile] at hp
      exact absurd hp (by decide)
  · rw [hfile'] at hdir
    have hsuffix := inBackupDir_backupPath p.file name
    rw [← hdir] at hsuffix
    exact absurd hsuffix (show ¬ ".nanoguard-backups".toList <:+ ".".toList by decide)

/-! ## Kinds -/

theorem dot_suffix_iff {x e : Text} (he : '.' ∉ e) (hext : '.' ∉ ext) :
    '.' :: e <:+ x ++ '.' :: ext ↔ e = ext := by
  constructor
  · rintro ⟨y, hy⟩
    exact (Str.last_inj he hext hy).2
  · rintro rfl
    exact suffix_append ..

theorem lower_append_dot (x ext : Text) :
    Str.toAsciiLowercase (x ++ '.' :: ext) =
      Str.toAsciiLowercase x ++ '.' :: Str.toAsciiLowercase ext := map_append

theorem dot_notMem_lower (h : '.' ∉ ext) : '.' ∉ Str.toAsciiLowercase ext := by
  intro hmem
  obtain ⟨c, hc, hlower⟩ := mem_map.1 hmem
  rcases Str.toLower_cases c with ⟨-, hsame⟩ | ⟨hge, -⟩
  · exact h ((hsame.symm.trans hlower) ▸ hc)
  · rw [hlower] at hge
    exact absurd hge (by decide)

theorem pii_append_cons (hlower : c.toLower = c) (hc : c ∉ "pii".toList) (x y : Text) :
    "pii".toList <:+: Str.toAsciiLowercase (x ++ c :: y) ↔
      "pii".toList <:+: Str.toAsciiLowercase x ∨ "pii".toList <:+: Str.toAsciiLowercase y := by
  have hmap : Str.toAsciiLowercase (x ++ c :: y) =
      Str.toAsciiLowercase x ++ c :: Str.toAsciiLowercase y := by
    unfold Str.toAsciiLowercase
    rw [map_append, map_cons, hlower]
  rw [hmap, Fence.isInfix_append_cons_iff, or_iff_left (Fence.not_straddles_of_notMem hc)]

/-- The kind of a file by its extension, in lower case, and by whether it has `pii` in its name. -/
def kindOf (ext : Text) (pii : Bool) : FileKind :=
  if decide (ext = "yaml".toList) || decide (ext = "yml".toList) then .policy
  else if decide (ext = "toml".toList) then .toml
  else if pii && decide (ext = "txt".toList) then .piiDict
  else if decide (ext = "txt".toList) then .dict
  else .unknown

theorem fileKind_append_dot {x : Text} (hext : '.' ∉ ext) :
    fileKind (x ++ '.' :: ext) = kindOf (Str.toAsciiLowercase ext)
      (decide ("pii".toList <:+: Str.toAsciiLowercase x ∨
        "pii".toList <:+: Str.toAsciiLowercase ext)) := by
  have hends : ∀ e : Text, '.' ∉ e →
      decide ('.' :: e <:+ Str.toAsciiLowercase (x ++ '.' :: ext)) =
        decide (Str.toAsciiLowercase ext = e) := by
    intro e he
    rw [lower_append_dot]
    exact decide_eq_decide.2 ((dot_suffix_iff he (dot_notMem_lower hext)).trans eq_comm)
  have hyaml : decide (".yaml".toList <:+ _) = _ := hends "yaml".toList (by decide)
  have hyml : decide (".yml".toList <:+ _) = _ := hends "yml".toList (by decide)
  have htoml : decide (".toml".toList <:+ _) = _ := hends "toml".toList (by decide)
  have htxt : decide (".txt".toList <:+ _) = _ := hends "txt".toList (by decide)
  have hpii : Str.contains (Str.toAsciiLowercase (x ++ '.' :: ext)) "pii".toList =
      decide ("pii".toList <:+: Str.toAsciiLowercase x ∨
        "pii".toList <:+: Str.toAsciiLowercase ext) :=
    decide_eq_decide.2 (pii_append_cons rfl (by decide) x ext)
  unfold fileKind kindOf
  simp only [hyaml, hyml, htoml, htxt, hpii]

theorem fileName_eq_of_extension (h : extension name ≠ []) :
    name = fileStem name ++ '.' :: extension name := by
  unfold extension at h
  unfold fileStem extension
  cases hsplit : Str.rsplitOnce '.' name with
  | none =>
    rw [hsplit] at h
    exact absurd rfl h
  | some parts =>
    rw [hsplit] at h
    dsimp only at h ⊢
    split at h
    · exact absurd rfl h
    next hbefore =>
      rw [if_neg hbefore, if_neg hbefore]
      exact (Str.rsplitOnce_eq_some_iff.1 hsplit).1

theorem not_pii_stamp (ts : Stamp) : ¬ "pii".toList <:+: Str.toAsciiLowercase ts.text := by
  intro hpii
  have hmem : 'p' ∈ Str.toAsciiLowercase ts.text := hpii.subset (by decide)
  obtain ⟨c, hc, hlower⟩ := mem_map.1 hmem
  rcases Bool.or_eq_true_iff.1 (all_eq_true.1 ts.plain c hc) with hdigit | hT
  · have hle : c.toNat ≤ 57 := (Bool.and_eq_true_iff.1 hdigit).2 |> of_decide_eq_true
    unfold Char.toLower at hlower
    split at hlower
    next hupper =>
      have hge : 65 ≤ c.toNat := hupper.1
      omega
    · rw [hlower] at hle
      exact absurd hle (by decide)
  · rw [beq_iff_eq.1 hT] at hlower
    exact absurd hlower (by decide)

theorem fileKind_backup {ts : Stamp} (hext : extension p.file.fileName ≠ [])
    (h : p'.target = p.file.backupPath ts.text) : fileKind p'.text = fileKind p.text := by
  obtain ⟨htext, htext'⟩ := EditablePath.text_of_backup h
  have hname := fileName_eq_of_extension hext
  rw [hname] at htext
  have hfull : p.text = p.file.parent ++ '/' :: fileStem p.file.fileName ++
      '.' :: extension p.file.fileName := by
    rw [htext, append_assoc]
    rfl
  have hbackup : p'.text = p.file.parent ++ '/' :: ".nanoguard-backups".toList ++
      '/' :: (fileStem p.file.fileName ++ '.' :: "bak".toList ++ '.' :: ts.text) ++
        '.' :: extension p.file.fileName := by
    rw [htext', if_neg (by simpa using hext)]
    simp only [append_assoc, cons_append]
    rfl
  rw [hfull, hbackup, fileKind_append_dot (dot_notMem_extension _),
    fileKind_append_dot (dot_notMem_extension _)]
  refine congrArg _ (decide_eq_decide.2 (or_congr_left ?_))
  have hslash := pii_append_cons (c := '/') rfl (by decide)
  have hdot := pii_append_cons (c := '.') rfl (by decide)
  have hdir : ¬ "pii".toList <:+: Str.toAsciiLowercase ".nanoguard-backups".toList := by decide
  have hbak : ¬ "pii".toList <:+: Str.toAsciiLowercase "bak".toList := by decide
  rw [hslash, hslash, hslash, hdot, hdot, or_iff_left (not_pii_stamp ts), or_iff_left hbak,
    or_iff_left hdir]

theorem fileKind_backup_of_no_extension {ts : Stamp} (hext : extension p.file.fileName = [])
    (h : p'.target = p.file.backupPath ts.text) : fileKind p'.text = .unknown := by
  obtain ⟨-, htext'⟩ := EditablePath.text_of_backup h
  have hbackup : p'.text = p.file.parent ++ '/' :: ".nanoguard-backups".toList ++
      '/' :: (fileStem p.file.fileName ++ '.' :: "bak".toList) ++ '.' :: ts.text := by
    rw [htext', hext, isEmpty_nil, if_pos rfl, append_nil]
    simp only [append_assoc, cons_append]
    rfl
  have hlong : ∀ e : Text, e.length < 24 → Str.toAsciiLowercase ts.text ≠ e := by
    rintro e he rfl
    rw [Str.toAsciiLowercase, length_map, ts.size] at he
    exact Nat.lt_irrefl _ he
  rw [hbackup, fileKind_append_dot ts.dot_notMem]
  unfold kindOf
  simp only [decide_eq_false (hlong "yaml".toList (by decide)),
    decide_eq_false (hlong "yml".toList (by decide)),
    decide_eq_false (hlong "toml".toList (by decide)),
    decide_eq_false (hlong "txt".toList (by decide)), Bool.or_false, Bool.and_false,
    Bool.false_eq_true, if_false]

/-! ## Backups as files -/

theorem leavesDir_eq_false_iff {path : Text} :
    leavesDir path = false ↔ path.head? ≠ some '/' ∧ "..".toList ∉ Str.splitChar '/' path := by
  unfold leavesDir components
  rw [any_append, Bool.or_eq_false_iff]
  refine and_congr ?_ ?_
  · split
    next hroot => exact iff_of_false (by decide) fun h => h hroot
    next hroot =>
      refine iff_of_true ?_ hroot
      split <;> rfl
  rw [any_eq_false]
  constructor
  · intro hall hmem
    exact hall .parentDir (mem_filterMap.2 ⟨_, hmem, rfl⟩) rfl
  · intro hnot c hc
    obtain ⟨segment, hsegment, heq⟩ := mem_filterMap.1 hc
    split at heq
    · cases heq
    split at heq
    next hdots => exact absurd (hdots ▸ hsegment) hnot
    · cases heq
      simp

theorem mem_of_mem_fileStem (h : c ∈ fileStem name) : c ∈ name := by
  unfold fileStem at h
  split at h
  next before after hsplit =>
    split at h
    · exact h
    · rw [(Str.rsplitOnce_eq_some_iff.1 hsplit).1]
      exact mem_append_left _ h
  · exact h

theorem mem_of_mem_extension (h : c ∈ extension name) : c ∈ name := by
  unfold extension at h
  split at h
  next before after hsplit =>
    split at h
    · cases h
    · rw [(Str.rsplitOnce_eq_some_iff.1 hsplit).1]
      exact mem_append_right _ (mem_cons_of_mem _ h)
  · cases h

theorem slash_notMem_backupName {f : FilePath} (ts : Stamp) (h : '/' ∉ f.fileName) :
    '/' ∉ (f.backupPath ts.text).2 := by
  rw [backupPath_name]
  intro hmem
  rcases mem_append.1 hmem with hmem | hmem
  · rcases mem_append.1 hmem with hmem | hmem
    · exact h (mem_of_mem_fileStem hmem)
    · exact absurd hmem (by decide)
  rcases mem_append.1 hmem with hmem | hmem
  · exact absurd (all_eq_true.1 ts.plain _ hmem) (by decide)
  split at hmem
  · cases hmem
  · rcases mem_cons.1 hmem with hdot | hmem
    · exact absurd hdot (by decide)
    · exact h (mem_of_mem_extension hmem)

theorem length_backupName (f : FilePath) (ts : Stamp) : 24 ≤ (f.backupPath ts.text).2.length := by
  rw [backupPath_name]
  simp only [length_append, ts.size]
  omega

theorem slash_isPrefix {w parent : Text} (hname : '/' ∉ name)
    (h : w ++ "/".toList <+: parent ++ '/' :: name) : w ++ "/".toList <+: parent ++ "/".toList := by
  obtain ⟨rest, hrest⟩ := h
  rw [append_assoc] at hrest
  rcases Fence.cut_cons_cases (c := '/') hrest with ⟨mid, rfl, -⟩ | ⟨rfl, -⟩ | ⟨mid, -, rfl⟩
  · exact ⟨mid ++ "/".toList, by simp⟩
  · exact prefix_refl _
  · exact absurd (mem_append_right _ mem_cons_self) hname

theorem EditablePath.exists_backup (p : EditablePath) (ts : Stamp)
    (htext : p.text = p.file.parent ++ '/' :: p.file.fileName) (hname : '/' ∉ p.file.fileName)
    (hhead : p.file.parent.head? = p.text.head?) :
    ∃ p' : EditablePath, p'.target = p.file.backupPath ts.text := by
  let dir := p.file.parent ++ '/' :: ".nanoguard-backups".toList
  let name := (p.file.backupPath ts.text).2
  have hslash : '/' ∉ name := slash_notMem_backupName ts hname
  have hlong : ∀ e : Text, e.length < 24 → name ≠ e := by
    rintro e he rfl
    exact absurd (length_backupName p.file ts) (Nat.not_le.2 he)
  have hsegments : Str.splitChar '/' (dir ++ '/' :: name) =
      Str.splitChar '/' p.file.parent ++ [".nanoguard-backups".toList, name] := by
    unfold Str.splitChar
    rw [splitOn_append_cons_self, splitOn_append_cons_self,
      splitOn_eq_singleton hslash, append_assoc]
    rfl
  have hparent : Str.splitChar '/' p.text = Str.splitChar '/' p.file.parent ++ [p.file.fileName] := by
    rw [htext]
    unfold Str.splitChar
    rw [splitOn_append_cons_self, splitOn_eq_singleton hname]
  have hne : p.file.parent ≠ [] := by
    intro hempty
    have hp := p.head
    rw [← hhead, hempty] at hp
    simp at hp
  have hsafe : isSafeEditablePath (dir ++ '/' :: name) = true := by
    obtain ⟨hleaves, hpre⟩ := safe_cases p.safe
    rw [leavesDir_eq_false_iff, hparent] at hleaves
    have hstays : leavesDir (dir ++ '/' :: name) = false := by
      rw [leavesDir_eq_false_iff, hsegments]
      constructor
      · rw [append_assoc, head?_append_of_ne_nil _ hne, hhead]
        exact hleaves.1
      · intro hmem
        rcases mem_append.1 hmem with hmem | hmem
        · exact hleaves.2 (mem_append_left _ hmem)
        · rcases mem_cons.1 hmem with hdots | hmem
          · exact absurd hdots (by decide)
          · exact hlong _ (by decide) (mem_singleton.1 hmem).symm
    have hdir : p.file.parent ++ "/".toList <+: dir ++ '/' :: name :=
      ⟨".nanoguard-backups".toList ++ '/' :: name, by simp [dir]⟩
    unfold isSafeEditablePath
    rw [hstays, Bool.not_false, Bool.true_and, Bool.or_eq_true, Bool.or_eq_true, decide_eq_true_eq,
      decide_eq_true_eq]
    rw [htext] at hpre
    rcases hpre with hdicts | hpolicies | hconfig
    · exact .inl (.inl ((slash_isPrefix (w := "dicts".toList) hname hdicts).trans hdir))
    · exact .inl (.inr ((slash_isPrefix (w := "policies".toList) hname hpolicies).trans hdir))
    · have hmem : '/' ∈ "nanoguard.toml".toList := hconfig ▸ by simp
      exact absurd hmem (by decide)
  have hplain : ((Str.splitChar '/' (dir ++ '/' :: name)).all fun segment =>
      !segment.isEmpty && segment != ".".toList) = true := by
    have hp := p.plain
    rw [hparent, all_append, Bool.and_eq_true] at hp
    rw [hsegments, all_append, hp.1]
    have hnil : name ≠ [] := hlong [] (by decide)
    have hdot : name ≠ ['.'] := hlong _ (by decide)
    simp [hnil, hdot]
  refine ⟨⟨dir ++ '/' :: name, hsafe, hplain⟩, ?_⟩
  unfold EditablePath.target EditablePath.file
  rw [Str.rsplitOnce_append hslash]
  have hdirNe : dir ≠ [] := append_ne_nil_of_left_ne_nil hne _
  have hbackupDir : p.file.backupDir = dir := by
    unfold FilePath.backupDir
    rw [if_neg (by simpa using hne)]
    rfl
  refine Prod.ext ?_ rfl
  have hkept : (FilePath.mk dir name).dir = dir := if_neg (by simpa using hdirNe)
  exact hkept.trans hbackupDir.symm

end Nanoguard.Console

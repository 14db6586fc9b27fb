import Nanoguard.Console.AuditView

/-!
# The log of the console itself

The viewer of the console's own log reads the file from its end, with filters for the action, the
actor and the target. Without a filter it looks at twice as many lines as it may return, and it
compares the number of entries with the limit only after it has added one.
-/

namespace Nanoguard.Console

open List

open Selection (AgreeUpTo Apart collect collect_eq collect_zero take_window_iff within)

structure ConsoleAuditQuery where
  action : Option Text
  actor : Option Text
  target : Option Text
  limit : Fin (2 ^ 64)

namespace ConsoleAuditQuery

def filtered (q : ConsoleAuditQuery) : Bool := q.action.isSome || q.actor.isSome || q.target.isSome

/-- Each filter that is set finds its value. Older entries have `file` for `target`. -/
def accepts (q : ConsoleAuditQuery) (obj : Json) : Bool :=
  let has (key : String) (v : Text) : Bool :=
    decide ((obj.get key.toList).bind Json.asStr = some v)
  q.action.all (has "action") && q.actor.all (has "actor") &&
    q.target.all fun v => has "target" v || has "file" v

def window (q : ConsoleAuditQuery) : Nat := min (q.limit.val * 2) (2 ^ 64 - 1)

end ConsoleAuditQuery

section View

variable (fromStr : Text → Except Text Json) (q : ConsoleAuditQuery)

/-- The entry of a line, if it can be parsed and matches the filters. -/
def consoleEntry (rawLine : Text) : Option Json :=
  let line := Str.trim rawLine
  if line.isEmpty then none
  else
    match fromStr line with
    | .error _ => none
    | .ok obj => if q.accepts obj then some obj else none

def filterConsoleAuditEntries (content : Text) : List Json :=
  let scanLines := (Str.lines content).reverse
  let cap := if q.filtered then scanLines.length else min q.window scanLines.length
  collect (consoleEntry fromStr q) q.limit.val (scanLines.take cap) []

def newestEntries (content : Text) : List Json :=
  ((Str.lines content).reverse.filterMap (consoleEntry fromStr q)).take q.limit.val

/-- With a filter, the limit is not 0 or nothing matches. Without one, the entries up to the last one
that is asked for lie in the window. -/
structure ScanFits (content : Text) : Prop where
  limited : q.filtered = true → q.limit.val = 0 →
    ∀ line ∈ Str.lines content, consoleEntry fromStr q line = none
  inWindow : q.filtered = false → ∀ newer line older,
    (Str.lines content).reverse = newer ++ line :: older →
    (newer.filterMap (consoleEntry fromStr q)).length < q.limit.val →
    consoleEntry fromStr q line ≠ none → newer.length < q.window

end View

variable {fromStr : Text → Except Text Json} {q : ConsoleAuditQuery}

theorem collect_filtered_iff (as : List Text) :
    collect (consoleEntry fromStr q) q.limit.val as [] =
        (as.filterMap (consoleEntry fromStr q)).take q.limit.val ↔
      (q.limit.val = 0 → ∀ line ∈ as, consoleEntry fromStr q line = none) := by
  rcases Nat.eq_zero_or_pos q.limit.val with hzero | hpos
  · -- the first entry is added before the limit is looked at
    rw [hzero, collect_zero, collect_eq Nat.one_pos, take_zero, nil_append,
      take_eq_nil_iff, ← filterMap_eq_nil_iff]
    exact ⟨fun h _ => h.resolve_left (by decide), fun h => .inr (h rfl)⟩
  · rw [collect_eq hpos]
    exact iff_of_true rfl fun hzero => absurd hzero hpos.ne'

theorem collect_window_iff (as : List Text) :
    collect (consoleEntry fromStr q) q.limit.val (as.take q.window) [] =
        (as.filterMap (consoleEntry fromStr q)).take q.limit.val ↔
      ∀ newer line older, as = newer ++ line :: older →
        (newer.filterMap (consoleEntry fromStr q)).length < q.limit.val →
        consoleEntry fromStr q line ≠ none → newer.length < q.window := by
  have hself : Apart (consoleEntry fromStr q) (consoleEntry fromStr q) :=
    ⟨fun _ _ _ hx hy => Option.some.inj (hx.symm.trans hy),
      fun _ _ _ hx hnone => absurd (hx.symm.trans hnone) nofun,
      fun _ _ _ hx hnone => absurd (hx.symm.trans hnone) nofun⟩
  have hcollect : collect (consoleEntry fromStr q) q.limit.val (as.take q.window) [] =
      ((as.take q.window).filterMap (consoleEntry fromStr q)).take q.limit.val := by
    rcases Nat.eq_zero_or_pos q.limit.val with hzero | hpos
    · have hwindow : q.window = 0 := by
        unfold ConsoleAuditQuery.window
        rw [hzero]
        rfl
      rw [hwindow, hzero]
      rfl
    · exact collect_eq hpos
  rw [hcollect, eq_comm, take_window_iff hself]
  refine forall₄_congr fun newer line older _ => imp_congr_right fun _ => ?_
  unfold within
  split
  next hin => exact iff_of_true rfl fun _ => hin
  next hout => exact ⟨fun hnone hsome => absurd hnone hsome, fun h => not_not.1 fun hsome =>
      hout (h hsome)⟩

/-- **The viewer returns the newest entries exactly if** they lie in the window, and with a filter the
limit is not 0 or nothing matches. -/
theorem console_audit_iff (fromStr : Text → Except Text Json) (q : ConsoleAuditQuery)
    (content : Text) :
    filterConsoleAuditEntries fromStr q content = newestEntries fromStr q content ↔
      ScanFits fromStr q content := by
  unfold filterConsoleAuditEntries newestEntries
  dsimp only
  cases hfiltered : q.filtered with
  | true =>
    rw [if_pos rfl, take_length, collect_filtered_iff]
    simp only [mem_reverse]
    exact ⟨fun h => ⟨fun _ => h, fun hnot => absurd (hnot.symm.trans hfiltered) nofun⟩,
      fun h => h.limited hfiltered⟩
  | false =>
    have htake : (Str.lines content).reverse.take
        (min q.window (Str.lines content).reverse.length) =
          (Str.lines content).reverse.take q.window := by
      rw [← take_take, take_length]
    rw [if_neg (by decide), htake, collect_window_iff]
    exact ⟨fun h => ⟨fun hset => absurd (hset.symm.trans hfiltered) nofun, fun _ => h⟩,
      fun h => h.inWindow hfiltered⟩

/-! ## Examples -/

def loginEntry : Json := .obj [("action".toList, .str "login".toList)]

def consoleText : Text := loginEntry.print ++ "\n\n\n".toList

theorem lines_consoleText : (Str.lines consoleText).reverse = [[], [], loginEntry.print] := by
  decide +kernel

theorem filterMap_consoleText (h : q.accepts loginEntry = true) :
    (Str.lines consoleText).reverse.filterMap (consoleEntry Json.parse q) = [loginEntry] := by
  have htrim : Str.trim loginEntry.print = loginEntry.print := by decide +kernel
  have hparse : Json.parse loginEntry.print = .ok loginEntry := Json.parse_print rfl
  have hentry : consoleEntry Json.parse q loginEntry.print = some loginEntry := by
    unfold consoleEntry
    rw [htrim]
    dsimp only
    rw [hparse]
    exact if_pos h
  have hempty : consoleEntry Json.parse q [] = none := rfl
  rw [lines_consoleText]
  simp only [filterMap_cons, filterMap_nil, hentry, hempty]

/-- **A limit of 0 returns an entry, and one of 1 none**: the entry is added before the limit is
compared, or two empty lines fill the window. -/
theorem console_audit_wrong :
    let login : ConsoleAuditQuery := ⟨some "login".toList, none, none, 0⟩
    let any : ConsoleAuditQuery := ⟨none, none, none, 1⟩
    (filterConsoleAuditEntries Json.parse login consoleText = [loginEntry] ∧
      newestEntries Json.parse login consoleText = []) ∧
      filterConsoleAuditEntries Json.parse any consoleText = [] ∧
        newestEntries Json.parse any consoleText = [loginEntry] := by
  dsimp only
  refine ⟨⟨?_, rfl⟩, ?_, ?_⟩
  · unfold filterConsoleAuditEntries
    dsimp only
    rw [if_pos (by decide), take_length, Fin.val_zero, collect_zero, collect_eq Nat.one_pos,
      filterMap_consoleText (by decide)]
    rfl
  · unfold filterConsoleAuditEntries
    rw [lines_consoleText]
    rfl
  · unfold newestEntries
    rw [filterMap_consoleText (by decide)]
    rfl

end Nanoguard.Console

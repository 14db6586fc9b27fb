import Mathlib.Data.ZMod.Defs
import Nanoguard.Console.Db
import Nanoguard.Lib.Selection
import Nanoguard.Proxy.AuditMatch

/-!
# The audit log in the console

The view reads the file from its end, keeps the lines that can be parsed, match the filter and belong
to the user, and stops when it has enough. It looks at twice as many lines as it may return, and it
takes the owner of an entry from a field `user_id` that the proxy does not write.
-/

namespace Nanoguard.Console

open Audit (AuditEntry)
open ClientAuth (ClientTokenRow Table displayInt viewOf)
open Proxy (ProxyEnv Server chatApiKey chatCompletions mem_writeAudit)
open Selection (AgreeUpTo Apart collect collect_eq take_window_iff within)

structure AuditQuery where
  verdict : Option Text
  limit : Option (Fin (2 ^ 64))

def AuditQuery.count (q : AuditQuery) : Nat := (q.limit.map Fin.val).getD 100

inductive AuditFile where
  | missing
  | unreadable
  | content (text : Text)

inductive AuditReply where
  | panicked
  | failed (status : Nat) (error : Text)
  | data (entries : List Json)

/-- Twice a `usize`. With overflow checks it panics, without them it wraps. -/
def doubleUsize (overflowChecks : Bool) (n : Nat) : Option Nat :=
  if n * 2 < 2 ^ 64 then some (n * 2)
  else if overflowChecks then none
  else some (n * 2 % 2 ^ 64)

section View

variable (fromStr : Text → Except Text Json) (user : User) (q : AuditQuery)

/-- The entry of a line, if it can be parsed and matches the filter. -/
def matchingEntry (rawLine : Text) : Option Json :=
  let line := Str.trim rawLine
  if line.isEmpty then none
  else
    match fromStr line with
    | .error _ => none
    | .ok obj =>
      match q.verdict with
      | some v => if (obj.get "verdict".toList).bind Json.asStr = some v then some obj else none
      | none => some obj

def visibleTo (obj : Json) : Bool :=
  decide (user.role = "admin".toList) ||
    decide ((obj.get "user_id".toList).bind Json.asStr = some (displayInt user.id))

def apiAudit (overflowChecks : Bool) : AuditFile → AuditReply
  | .missing => .data []
  | .unreadable => .failed 500 "failed to read audit log".toList
  | .content text =>
    match doubleUsize overflowChecks q.count with
    | none => .panicked
    | some window =>
      .data (collect (fun line => (matchingEntry fromStr q line).filter (visibleTo user)) q.count
        ((Str.lines text).reverse.take window) [])

/-! ## What was asked for -/

/-- The entry records a request that was made with a token of the user. -/
def madeWithTokenOf (tokens : Table) (obj : Json) : Bool :=
  tokens.records.any fun r => decide (r.row.userId = user.id) &&
    decide ((obj.get "api_key".toList).bind Json.asStr = some (viewOf r.row).budgetKey)

def concerns (tokens : Table) (obj : Json) : Bool :=
  decide (user.role = "admin".toList) || madeWithTokenOf user tokens obj

/-- The newest entries that were asked for, newest first. -/
def askedEntries (tokens : Table) (text : Text) : List Json :=
  ((Str.lines text).reverse.filterMap fun line =>
    (matchingEntry fromStr q line).filter (concerns user tokens)).take q.count

structure AuditViewRight (overflowChecks : Bool) (tokens : Table) (text : Text) : Prop where
  noOverflow : q.count * 2 < 2 ^ 64
  reply : apiAudit fromStr user q overflowChecks (.content text) =
    .data (askedEntries fromStr user q tokens text)

/-- Twice the limit is a `usize`, and among the matching entries up to the last one that is asked for
the user's own are those that are shown to them and lie in the window. -/
structure ViewFits (tokens : Table) (text : Text) : Prop where
  noOverflow : q.count * 2 < 2 ^ 64
  agree : ∀ newer line older, (Str.lines text).reverse = newer ++ line :: older →
    (newer.filterMap fun line => (matchingEntry fromStr q line).filter
      (concerns user tokens)).length < q.count →
    ∀ obj ∈ matchingEntry fromStr q line,
      concerns user tokens obj = (visibleTo user obj && decide (newer.length < q.count * 2))

end View

section

variable {fromStr : Text → Except Text Json} {user : User} {q : AuditQuery} {tokens : Table}
  {text : Text}

theorem apart_filter {α β : Type} (f : α → Option β) (p p' : β → Bool) :
    Apart (fun a => (f a).filter p) (fun a => (f a).filter p') where
  same a x y hx hy := by
    obtain ⟨hx, -⟩ := Option.filter_eq_some_iff.1 hx
    obtain ⟨hy, -⟩ := Option.filter_eq_some_iff.1 hy
    exact Option.some.inj (hx.symm.trans hy)
  left a b x hx hnone hb := by
    obtain ⟨hx, -⟩ := Option.filter_eq_some_iff.1 hx
    obtain ⟨-, hp'⟩ := Option.filter_eq_some_iff.1 hb
    rw [Option.filter_eq_none_iff] at hnone
    exact hnone x hx hp'
  right a b x hx hnone hb := by
    obtain ⟨hx, -⟩ := Option.filter_eq_some_iff.1 hx
    obtain ⟨-, hp⟩ := Option.filter_eq_some_iff.1 hb
    rw [Option.filter_eq_none_iff] at hnone
    exact hnone x hx hp

theorem filter_eq_within_iff {α β : Type} (m : α → Option β) (p p' : β → Bool) (w i : Nat) (a : α) :
    (m a).filter p = within w i (fun a => (m a).filter p') a ↔
      ∀ obj ∈ m a, p obj = (p' obj && decide (i < w)) := by
  unfold within
  cases hm : m a with
  | none => simp [hm]
  | some obj => cases hp : p obj <;> cases hp' : p' obj <;> by_cases hw : i < w <;>
      simp [hm, Option.filter, hp, hp']

theorem apiAudit_content (overflowChecks : Bool) (h : q.count * 2 < 2 ^ 64) (text : Text) :
    apiAudit fromStr user q overflowChecks (.content text) =
      .data ((((Str.lines text).reverse.take (q.count * 2)).filterMap fun line =>
        (matchingEntry fromStr q line).filter (visibleTo user)).take q.count) := by
  unfold apiAudit doubleUsize
  rw [if_pos h]
  dsimp only
  rcases Nat.eq_zero_or_pos q.count with hzero | hpos
  · rw [hzero]
    rfl
  · rw [collect_eq hpos]
    rfl

/-- An entry that the proxy has written names the key of its client and no user. -/
theorem toJson_get (entry : AuditEntry) :
    (entry.toJson.get "api_key".toList).bind Json.asStr = some entry.apiKey ∧
      entry.toJson.get "user_id".toList = none := by
  refine ⟨rfl, ?_⟩
  obtain ⟨requestId, timestamp, apiKey, model, promptHash, verdict, matchedRule, ruleId, category,
    severity, compliance, latencyUs⟩ := entry
  cases ruleId <;> cases category <;> cases severity <;> cases compliance <;> rfl

theorem apiKey_of_mem_audit {E : ProxyEnv} {srv : Server} {stamp : Audit.Stamp} {now : Nat}
    {client : Option ClientAuth.ClientView} {body : Json} {entry : AuditEntry}
    (h : entry ∈ (chatCompletions E srv stamp now client body).audit) :
    entry.apiKey = chatApiKey client body := by
  have hkey : ∀ {model prompt : Text} {verdict : Audit.Verdict} {rule : Option Text},
      entry ∈ srv.writeAudit stamp (chatApiKey client body) model prompt verdict rule →
        entry.apiKey = chatApiKey client body := by
    rintro _ _ _ _ hentry
    rw [(mem_writeAudit.1 hentry).2]
    rfl
  unfold chatCompletions at h
  repeat' split at h
  all_goals first | exact hkey h | cases h

/-- **What the proxy writes for a user is not shown to them**, unless they are an administrator. -/
theorem own_entry_hidden {E : ProxyEnv} {srv : Server} {stamp : Audit.Stamp} {now : Nat}
    {record : ClientAuth.TokenRecord} {body : Json} {entry : AuditEntry}
    (hrole : user.role ≠ "admin".toList) (hrecord : record ∈ tokens.records)
    (howner : record.row.userId = user.id)
    (hentry : entry ∈ (chatCompletions E srv stamp now (some (viewOf record.row)) body).audit) :
    concerns user tokens entry.toJson = true ∧ visibleTo user entry.toJson = false := by
  obtain ⟨hkey, huser⟩ := toJson_get entry
  constructor
  · unfold concerns madeWithTokenOf
    rw [Bool.or_eq_true, List.any_eq_true]
    refine .inr ⟨record, hrecord, ?_⟩
    rw [hkey, apiKey_of_mem_audit hentry, decide_eq_true howner]
    exact decide_eq_true rfl
  · unfold visibleTo
    rw [huser, decide_eq_false hrole]
    rfl

end

/-- **The view returns what was asked for exactly if** the limit does not overflow and, up to the
last entry that is asked for, the user's own entries are those with their `user_id` in the window.
-/
theorem audit_view_iff (fromStr : Text → Except Text Json) (user : User) (q : AuditQuery)
    (overflowChecks : Bool) (tokens : Table) (text : Text) :
    AuditViewRight fromStr user q overflowChecks tokens text ↔
      ViewFits fromStr user q tokens text := by
  have hagree : q.count * 2 < 2 ^ 64 →
      (apiAudit fromStr user q overflowChecks (.content text) =
          .data (askedEntries fromStr user q tokens text) ↔
        AgreeUpTo (fun line => (matchingEntry fromStr q line).filter (concerns user tokens))
          (fun line => (matchingEntry fromStr q line).filter (visibleTo user)) q.count (q.count * 2)
          (Str.lines text).reverse) := by
    intro h
    rw [apiAudit_content overflowChecks h, AuditReply.data.injEq, eq_comm]
    exact take_window_iff (apart_filter _ _ _) _ _ _
  constructor
  · rintro ⟨hfits, hreply⟩
    refine ⟨hfits, fun newer line older hlines hnewer => ?_⟩
    rw [← filter_eq_within_iff]
    exact (hagree hfits).1 hreply newer line older hlines hnewer
  · rintro ⟨hfits, hall⟩
    refine ⟨hfits, (hagree hfits).2 fun newer line older hlines hnewer => ?_⟩
    rw [filter_eq_within_iff]
    exact hall newer line older hlines hnewer

section Examples

def oneToken : Table where
  records := [⟨⟨1, "ng_p_a".toList, 7, none, [], none, none, none⟩, []⟩]
  ids_nodup := List.nodup_singleton _
  prefixes_nodup := List.nodup_singleton _

def tokenUser (role : String) : User where
  id := 7
  username := "ann".toList
  displayName := none
  email := none
  role := role.toList
  serviceAccount := false
  disabled := false
  allowedModels := "[]".toList
  budgetLimit := none
  oidcSub := none
  passwordHash := none
  lockedUntil := none
  createdAt := []
  lastLoginAt := none

def tokenEntry : Json := .obj [("api_key".toList, .str "token:1".toList)]

def auditText : Text := tokenEntry.print ++ "\n\n\n".toList

theorem lines_auditText : (Str.lines auditText).reverse = [[], [], tokenEntry.print] := by
  decide +kernel

theorem entries_auditText (limit : Option (Fin (2 ^ 64))) (p : Json → Bool) :
    ((Str.lines auditText).reverse.filterMap fun line =>
      (matchingEntry Json.parse ⟨none, limit⟩ line).filter p) =
        ((some tokenEntry).filter p).toList := by
  have htrim : Str.trim tokenEntry.print = tokenEntry.print := by decide +kernel
  have hparse : Json.parse tokenEntry.print = .ok tokenEntry := Json.parse_print rfl
  have hentry : matchingEntry Json.parse ⟨none, limit⟩ tokenEntry.print = some tokenEntry := by
    unfold matchingEntry
    rw [htrim]
    dsimp only
    rw [hparse]
    rfl
  rw [lines_auditText]
  simp only [List.filterMap_cons, hentry]
  cases (some tokenEntry).filter p <;> rfl

/-- **Entries that are not returned.** A user does not get the entry of their own token. An
administrator asks for one entry and gets none, because the last two lines are empty. With a limit
of `2 ^ 63` they get nothing, or the handler panics. -/
theorem audit_view_incomplete :
    let asked (user : User) (q : AuditQuery) := askedEntries Json.parse user q oneToken auditText
    let reply (user : User) (q : AuditQuery) (overflowChecks : Bool) :=
      apiAudit Json.parse user q overflowChecks (.content auditText)
    let member := tokenUser "user"
    let admin := tokenUser "admin"
    let huge : AuditQuery := ⟨none, some (2 ^ 63)⟩
    (asked member ⟨none, none⟩ = [tokenEntry] ∧ reply member ⟨none, none⟩ true = .data []) ∧
      (asked admin ⟨none, some 1⟩ = [tokenEntry] ∧ reply admin ⟨none, some 1⟩ true = .data []) ∧
      reply admin huge false = .data [] ∧ reply admin huge true = .panicked := by
  dsimp only
  refine ⟨⟨?_, ?_⟩, ⟨?_, ?_⟩, ?_, ?_⟩
  · unfold askedEntries
    rw [entries_auditText]
    rfl
  · have hwindow : (Str.lines auditText).reverse.take (AuditQuery.count ⟨none, none⟩ * 2) =
        (Str.lines auditText).reverse := by
      apply List.take_of_length_le
      rw [lines_auditText]
      decide
    rw [apiAudit_content true (by decide), hwindow, entries_auditText]
    rfl
  · unfold askedEntries
    rw [entries_auditText]
    rfl
  · rw [apiAudit_content true (by decide), lines_auditText]
    rfl
  · rfl
  · rfl

end Examples

end Nanoguard.Console

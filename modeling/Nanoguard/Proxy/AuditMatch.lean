import Nanoguard.Proxy.AuditTrail

/-!
# Matches that do not refuse

A phrase may alert or flag instead of block, and in shadow mode a phrase that blocks is demoted to a
flag. Such a request is forwarded, and its entry in the audit log should name the rule. Both places
that write the entry of an allowed request leave the rule out.
-/

namespace Nanoguard.Proxy

open Audit (AuditEntry Stamp Verdict auditEntry ruleMeta)
open Matcher (InputVerdict)

/-- The rule of a match that does not refuse. -/
def noted : InputVerdict → Option Text
  | .alert rule | .flagged rule => some rule
  | .blocked _ | .clean => none

def keywordVerdict (U : Unicode) (st : AppState) (text : Text) : InputVerdict :=
  if st.config.input.enabled then st.matchers.checkInputWithShadow U text st.config.input.shadow
  else .clean

def Request.scanned : Request → Text
  | .chat _ body => extractMessagesText body
  | .messages _ req => req.userText

/-- The entry names the rule and has the data of its policy rule. -/
structure CarriesMatch (st : AppState) (rule : Text) (entry : AuditEntry) : Prop where
  matched : entry.matchedRule = some rule
  metadata : ∀ info, ruleMeta st (some rule) = some info →
    entry.ruleId = some info.id ∧ entry.category = some info.category ∧
      entry.severity = some info.severity ∧ entry.compliance = info.compliance

/-- Every entry of an allowed request carries the match that did not refuse it. -/
def MatchRecorded (E : ProxyEnv) (srv : Server) (stamp : Stamp) (now : Nat) (req : Request) : Prop :=
  ∀ rule, noted (keywordVerdict E.unicode srv.app req.scanned) = some rule →
    ∀ entry ∈ (handle E srv stamp now req).audit, entry.verdict = .allow →
      CarriesMatch srv.app rule entry

/-- A request of the chat endpoint that a backend answers with a stream, or with a body that can be
read. -/
def Answered (E : ProxyEnv) (srv : Server) : Request → Prop
  | .chat client body => ∃ fwd resp, chatInput E.unicode srv.app client body = .ok fwd ∧
      forward E.send fwd.body fwd.chain = .ok resp ∧
      (resp.isStream = true ∨ ∃ json, resp.json E.fromSlice = .ok json)
  | .messages _ _ => False

section

variable {E : ProxyEnv} {srv : Server} {stamp : Stamp} {now : Nat} {req : Request}

theorem mem_writeAudit {apiKey model prompt : Text} {verdict : Verdict} {matchedRule : Option Text}
    {entry : AuditEntry} :
    entry ∈ srv.writeAudit stamp apiKey model prompt verdict matchedRule ↔
      srv.auditOpen = true ∧ entry = auditEntry srv.app stamp apiKey model prompt verdict
        matchedRule := by
  unfold Server.writeAudit
  split
  next h => simp [h]
  next h => simp [h]

theorem mem_audit_allow {client : Option ClientAuth.ClientView} {body : Json} {entry : AuditEntry} :
    entry ∈ (handle E srv stamp now (.chat client body)).audit ∧ entry.verdict = .allow ↔
      srv.auditOpen = true ∧ Answered E srv (.chat client body) ∧
        entry = auditEntry srv.app stamp (chatApiKey client body) (chatModel body)
          (extractMessagesText body) .allow none := by
  have hblock : ∀ {apiKey model prompt : Text} {matchedRule : Option Text},
      entry ∈ srv.writeAudit stamp apiKey model prompt .block matchedRule →
        entry.verdict ≠ .allow := by
    rintro _ _ _ _ hentry
    rw [(mem_writeAudit.1 hentry).2]
    exact nofun
  have hallow : ∀ {apiKey model prompt : Text},
      entry ∈ srv.writeAudit stamp apiKey model prompt .allow none ∧ entry.verdict = .allow ↔
        srv.auditOpen = true ∧ entry = auditEntry srv.app stamp apiKey model prompt .allow none := by
    intro apiKey model prompt
    rw [mem_writeAudit]
    exact ⟨And.left, fun h => ⟨h, by rw [h.2]; rfl⟩⟩
  -- for an answered request the conditions are those of the entry
  have hanswered : ∀ {fwd resp}, chatInput E.unicode srv.app client body = .ok fwd →
      forward E.send fwd.body fwd.chain = .ok resp →
      (resp.isStream = true ∨ ∃ json, resp.json E.fromSlice = .ok json) →
      (entry ∈ srv.writeAudit stamp (chatApiKey client body) (chatModel body)
          (extractMessagesText body) .allow none ∧ entry.verdict = .allow ↔
        srv.auditOpen = true ∧ Answered E srv (.chat client body) ∧
          entry = auditEntry srv.app stamp (chatApiKey client body) (chatModel body)
            (extractMessagesText body) .allow none) := by
    intro fwd resp hinput hforward hread
    rw [hallow]
    exact and_congr_right fun _ =>
      ⟨fun h => ⟨⟨fwd, resp, hinput, hforward, hread⟩, h⟩, And.right⟩
  change entry ∈ (chatCompletions E srv stamp now client body).audit ∧ _ ↔ _
  unfold chatCompletions
  cases hinput : chatInput E.unicode srv.app client body with
  | error refusal =>
    constructor
    · rintro ⟨hmem, hverdict⟩
      cases refusal with
      | blocked rule | piiRejected => exact absurd hverdict (hblock hmem)
      | budgetExceeded usage limit | unrouted model => cases hmem
    · rintro ⟨-, ⟨fwd, resp, hok, -⟩, -⟩
      rw [hinput] at hok
      cases hok
  | ok fwd =>
    have hfwd : ∀ {fwd'}, chatInput E.unicode srv.app client body = .ok fwd' → fwd' = fwd := by
      intro fwd' hok
      rw [hinput] at hok
      exact (Except.ok.inj hok).symm
    dsimp only
    cases hforward : forward E.send fwd.body fwd.chain with
    | error failed =>
      refine ⟨fun h => absurd h.1 List.not_mem_nil, ?_⟩
      rintro ⟨-, ⟨fwd', resp, hok, hresp, -⟩, -⟩
      rw [hfwd hok, hforward] at hresp
      cases hresp
    | ok resp =>
      dsimp only
      by_cases hstream : resp.isStream = true
      · rw [if_pos hstream]
        exact hanswered hinput hforward (.inl hstream)
      rw [if_neg hstream]
      cases hjson : resp.json E.fromSlice with
      | ok json => exact hanswered hinput hforward (.inr ⟨json, hjson⟩)
      | error e =>
        refine ⟨fun h => absurd h.1 List.not_mem_nil, ?_⟩
        rintro ⟨-, ⟨fwd', resp', hok, hresp, hread⟩, -⟩
        rw [hfwd hok, hforward] at hresp
        cases hresp
        rcases hread with hread | ⟨json, hread⟩
        · exact absurd hread hstream
        · rw [hjson] at hread
          cases hread

end

section Examples

def onlineEnv : ProxyEnv :=
  { offlineEnv with fromSlice := fun _ => .ok .null, send := fun _ _ => .ok ⟨200, none, [], none⟩ }

/-- Phrases that block are demoted, and one comes from a policy. -/
def shadowState : AppState :=
  { exampleState with
    config := { exampleState.config with
      input := { exampleState.config.input with shadow := true } }
    policy := some (.fromPolicy ⟨1, [⟨"INJ-1".toList, "injection".toList, "high".toList,
      "jailbreak".toList, .block, none, []⟩]⟩) }

end Examples

end Nanoguard.Proxy

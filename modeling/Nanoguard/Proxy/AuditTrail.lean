import Nanoguard.Proxy.EndpointsAgree
import Nanoguard.Proxy.Handlers

/-!
# What the audit log records

A request of `/v1/chat/completions` that a guard refuses for its text leaves an entry, and so does
one that a backend has answered. Requests that are refused for their budget or their model, that no
backend answers or whose answer cannot be read leave none; an answer that is rejected for its schema
has been entered as allowed before. `/v1/messages` leaves no entries at all.
-/

namespace Nanoguard.Proxy

open Audit (Stamp Verdict)
open ClientAuth (ClientView)
open Vault (LocalVault)

/-- A guard of the text or of the answer has refused the request. -/
def Reply.refusedByGuardrail : Reply → Bool
  | .chat (.refused refusal) => refusal.isTextual
  | .messages (.refused (.refused refusal)) => refusal.isTextual
  | .chat (.schemaRejected _ _) | .messages (.schemaRejected _) => true
  | _ => false

/-- Exactly one entry, with the right verdict. -/
def AuditComplete (h : Handled Reply) : Prop :=
  h.audit.map (·.verdict) = [if h.reply.refusedByGuardrail then .block else .allow]

/-- A backend answers with a stream, or with a body that can be read and keeps its schema. -/
def Delivered (E : ProxyEnv) (srv : Server) (client : Option ClientView) (body : Json) : Prop :=
  ∃ fwd resp, chatInput E.unicode srv.app client body = .ok fwd ∧
    forward E.send fwd.body fwd.chain = .ok resp ∧
    (resp.isStream = true ∨ ∃ json out, resp.json E.fromSlice = .ok json ∧
      checkChat E srv (chatModel body) fwd.vault json = .ok out)

/-- The requests that the log is complete for. -/
def Logged (E : ProxyEnv) (srv : Server) : Request → Prop
  | .chat client body =>
    Offends E.unicode srv.app (extractMessagesText body) ∨ Delivered E srv client body
  | .messages _ _ => False

section

variable {E : ProxyEnv} {srv : Server} {stamp : Stamp} {now : Nat} {client : Option ClientView}
  {body : Json}

theorem verdict_writeAudit (hopen : srv.auditOpen = true) (apiKey model prompt : Text)
    (verdict : Verdict) (rule : Option Text) :
    (srv.writeAudit stamp apiKey model prompt verdict rule).map (·.verdict) = [verdict] := by
  unfold Server.writeAudit
  rw [if_pos hopen]
  rfl

theorem isTextual_iff_offends {refusal : Refusal}
    (h : chatInput E.unicode srv.app client body = .error refusal) :
    refusal.isTextual = true ↔ Offends E.unicode srv.app (extractMessagesText body) := by
  rw [← refused_guardText]
  unfold chatInput at h
  cases hguard : guardText E.unicode srv.app (extractMessagesText body) with
  | error refusal' =>
    rw [hguard] at h
    cases h
    exact ⟨fun _ => ⟨refusal, rfl⟩, fun _ => isTextual_of_guardText hguard⟩
  | ok u =>
    rw [hguard] at h
    cases haccess : checkAccess srv.app (chatApiKey client body) (chatModel body) with
    | error refusal' =>
      rw [haccess] at h
      cases h
      rw [not_isTextual_of_checkAccess haccess]
      simp [Refused]
    | ok chain =>
      rw [haccess] at h
      cases h

theorem not_offends_of_ok {fwd : Forward}
    (h : chatInput E.unicode srv.app client body = .ok fwd) :
    ¬ Offends E.unicode srv.app (extractMessagesText body) := by
  intro hoff
  obtain ⟨refusal, hrefusal⟩ := (refused_chatInput client body).2 (.inl hoff)
  rw [h] at hrefusal
  cases hrefusal

theorem refusedByGuardrail_finishChat (model : Text) (vault : LocalVault) (status : Nat)
    (resp : Json) :
    (Reply.chat (finishChat E srv model vault status resp)).refusedByGuardrail = false ↔
      ∃ out, checkChat E srv model vault resp = .ok out := by
  unfold finishChat
  cases checkChat E srv model vault resp with
  | error broken => simp [Reply.refusedByGuardrail]
  | ok out => simp [Reply.refusedByGuardrail]

theorem audit_messages {msg : AnthropicRequest} :
    (handle E srv stamp now (.messages client msg)).audit = [] := by
  change (messages E srv now client msg).audit = []
  unfold messages
  repeat' split
  all_goals rfl

theorem auditComplete_of_error (hopen : srv.auditOpen = true) {refusal : Refusal}
    (h : chatInput E.unicode srv.app client body = .error refusal) :
    AuditComplete (handle E srv stamp now (.chat client body)) ↔ refusal.isTextual = true := by
  simp only [AuditComplete, handle, chatCompletions, h]
  cases refusal with
  | blocked rule | piiRejected => simp [verdict_writeAudit hopen, Reply.refusedByGuardrail,
      Refusal.isTextual]
  | budgetExceeded usage limit | unrouted model => simp [Refusal.isTextual]

theorem auditComplete_of_ok (hopen : srv.auditOpen = true) {fwd : Forward}
    (h : chatInput E.unicode srv.app client body = .ok fwd) :
    AuditComplete (handle E srv stamp now (.chat client body)) ↔ Delivered E srv client body := by
  simp only [AuditComplete, handle, chatCompletions, Delivered, h]
  generalize hforward : forward E.send fwd.body fwd.chain = answer
  cases answer with
  | error failed => simp [hforward]
  | ok resp =>
    by_cases hstream : resp.isStream = true
    · simp [hforward, hstream, verdict_writeAudit hopen, Reply.refusedByGuardrail]
    generalize hjson : resp.json E.fromSlice = read
    cases read with
    | error e => simp [hforward, hstream, hjson]
    | ok json => simp [hforward, hstream, hjson, verdict_writeAudit hopen,
        refusedByGuardrail_finishChat]

end

/-- **The log is complete for a request exactly when** it is a chat request whose text is refused,
or one that is answered by a stream or by a readable body that keeps its schema. -/
theorem audit_complete_iff (E : ProxyEnv) (srv : Server) (hopen : srv.auditOpen = true)
    (stamp : Stamp) (now : Nat) (req : Request) :
    AuditComplete (handle E srv stamp now req) ↔ Logged E srv req := by
  cases req with
  | messages client req => simp [AuditComplete, audit_messages, Logged]
  | chat client body =>
    unfold Logged
    cases hinput : chatInput E.unicode srv.app client body with
    | error refusal =>
      rw [auditComplete_of_error hopen hinput, isTextual_iff_offends hinput]
      have hnot : ¬ Delivered E srv client body := by
        rintro ⟨fwd, resp, hok, -⟩
        rw [hinput] at hok
        cases hok
      exact (or_iff_left hnot).symm
    | ok fwd =>
      rw [auditComplete_of_ok hopen hinput]
      exact (or_iff_right (not_offends_of_ok hinput)).symm

section Examples

def offlineEnv : ProxyEnv where
  unicode := .ascii
  json := ⟨fun _ => .error [], fun _ => []⟩
  fromSlice _ := .error []
  output := ⟨fun _ => [], by simp, by simp⟩
  send _ _ := .error "connection refused".toList

def exampleServer : Server := ⟨exampleState, true, true⟩

def exampleStamp : Stamp := ⟨[], [], 0, fun _ => []⟩

theorem audit_complete_blocked :
    exampleServer.auditOpen = true ∧
      AuditComplete (handle offlineEnv exampleServer exampleStamp 0
        (.chat none (exampleBody (.str "a JailBreak".toList)))) :=
  ⟨rfl, (audit_complete_iff offlineEnv exampleServer rfl exampleStamp 0 _).2
    (.inl exampleState_offends)⟩

/-- **A blocked request of `/v1/messages` leaves no entry**, and neither does a chat request that no
backend answers. -/
theorem requests_without_entry :
    let blocked := handle offlineEnv exampleServer exampleStamp 0
      (.messages none ⟨"m".toList, [⟨"user".toList, .text "a JailBreak".toList⟩], none, none, false⟩)
    let failed := handle offlineEnv exampleServer exampleStamp 0
      (.chat none (exampleBody (.str "hello".toList)))
    exampleServer.auditOpen = true ∧
      (blocked.reply.refusedByGuardrail = true ∧ ¬ AuditComplete blocked) ∧
      failed.reply.refusedByGuardrail = false ∧ ¬ AuditComplete failed := by
  unfold AuditComplete
  decide

end Examples

end Nanoguard.Proxy

import Nanoguard.Proxy.Handlers
import Nanoguard.Proxy.PromptScan

/-!
# What the tool gate leaves of an answer

`apply_tool_gate` rebuilds the list of tool calls of every choice. What is kept and what is noted as
denied are read off the calls in their order (`GatedCalls`). The reply of `/v1/messages` has a block for
each call that is left, but its `stop_reason` only asks whether there is a field `tool_calls`, and the
gate leaves the field where it takes all calls away.
-/

namespace Nanoguard.Proxy

open List

open Guard (JsonText ToolGate)
open Vault (LocalVault)

section Calls

variable (J : JsonText) (gate : ToolGate)

def isDenied (tc : Json) : Bool := (gate.denial J tc).isSome

def ArgumentsReplaced (text : Text) (func func' : Json) : Prop :=
  func'.get "arguments".toList = some (.str text) ∧
    ∀ key, key ≠ "arguments".toList → func'.get key = func.get key

/-- A call that is not denied, and what the answer has in its place. -/
def Survives (tc tc' : Json) : Prop :=
  (gate.evaluateOpenaiToolCall J tc = .allow ∧ tc' = tc) ∨
    ∃ args, gate.evaluateOpenaiToolCall J tc = .sanitize args ∧
      Json.OnField "function".toList (ArgumentsReplaced (J.toText args)) tc tc'

/-- A call that is denied, and the note about it. -/
def Noted (tc note : Json) : Prop :=
  ∃ reason, gate.evaluateOpenaiToolCall J tc = .deny reason ∧
    note = .obj [("name".toList, .str ((((tc.get "function".toList).bind
      (·.get "name".toList)).bind Json.asStr).getD "?".toList)), ("reason".toList, .str reason)]

/-- The calls that are kept and the notes about the others, in order. -/
structure GatedCalls (calls kept denials : List Json) : Prop where
  survive : List.Forall₂ (Survives J gate) (calls.filter fun tc => !isDenied J gate tc) kept
  noted : List.Forall₂ (Noted J gate) (calls.filter (isDenied J gate)) denials
  count : kept.length + denials.length = calls.length

variable {J gate}

theorem exists_obj_of_sanitize {tc args : Json}
    (h : gate.evaluateOpenaiToolCall J tc = .sanitize args) :
    ∃ func fields, tc.get "function".toList = some func ∧ func = .obj fields := by
  unfold ToolGate.evaluateOpenaiToolCall at h
  cases hfunc : tc.get "function".toList with
  | none =>
    rw [hfunc] at h
    cases h
  | some func =>
    rw [hfunc] at h
    cases func with
    | obj fields => exact ⟨_, fields, rfl, rfl⟩
    | _ => cases h

theorem argumentsReplaced_insert (fields : List (Text × Json)) (text : Text) :
    ArgumentsReplaced text (.obj fields)
      ((Json.obj fields).insert "arguments".toList (.str text)) :=
  ⟨(Json.lookup_insertField _ _ fields _).trans (if_pos rfl), fun _ hne => Json.get_insert_ne hne⟩

theorem survives_sanitize {tc args : Json}
    (h : gate.evaluateOpenaiToolCall J tc = .sanitize args) :
    Survives J gate tc (tc.update "function".toList (fun st func =>
      (st, func.insert "arguments".toList (.str (J.toText args)))) ()).2 := by
  obtain ⟨func, fields, hfunc, rfl⟩ := exists_obj_of_sanitize h
  exact .inr ⟨args, h, Json.onField_update_of_some () hfunc (argumentsReplaced_insert fields _)⟩

theorem gatedCalls_gateCalls (J : JsonText) (gate : ToolGate) (calls : List Json) :
    GatedCalls J gate calls (gateCalls J gate calls).1 (gateCalls J gate calls).2 := by
  induction calls with
  | nil => exact ⟨.nil, .nil, rfl⟩
  | cons tc calls ih =>
    rw [gateCalls]
    cases hdecision : gate.evaluateOpenaiToolCall J tc with
    | allow =>
      have hkeep : isDenied J gate tc = false := by
        unfold isDenied ToolGate.denial
        rw [hdecision]
        rfl
      refine ⟨?_, ?_, ?_⟩
      · rw [filter_cons_of_pos (by rw [hkeep]; rfl)]
        exact .cons (.inl ⟨hdecision, rfl⟩) ih.survive
      · rw [filter_cons_of_neg (by rw [hkeep]; exact Bool.false_ne_true)]
        exact ih.noted
      · rw [length_cons, length_cons, ← ih.count, Nat.add_right_comm]
    | sanitize args =>
      have hkeep : isDenied J gate tc = false := by
        unfold isDenied ToolGate.denial
        rw [hdecision]
        rfl
      refine ⟨?_, ?_, ?_⟩
      · rw [filter_cons_of_pos (by rw [hkeep]; rfl)]
        exact .cons (survives_sanitize hdecision) ih.survive
      · rw [filter_cons_of_neg (by rw [hkeep]; exact Bool.false_ne_true)]
        exact ih.noted
      · rw [length_cons, length_cons, ← ih.count, Nat.add_right_comm]
    | deny reason =>
      have hdeny : isDenied J gate tc = true := by
        unfold isDenied ToolGate.denial
        rw [hdecision]
        rfl
      refine ⟨?_, ?_, ?_⟩
      · rw [filter_cons_of_neg (by rw [hdeny]; exact Bool.false_ne_true)]
        exact ih.survive
      · rw [filter_cons_of_pos hdeny]
        exact .cons ⟨reason, hdecision, rfl⟩ ih.noted
      · rw [length_cons, length_cons, ← ih.count, Nat.add_assoc]

end Calls

section Answer

variable (J : JsonText) (gate : ToolGate)

/-- A message before and after the gate. -/
def GatedMessage (msg msg' : Json) : Prop :=
  ((msg.get "tool_calls".toList).bind Json.asArray = none ∧ msg' = msg) ∨
    ∃ calls kept denials, msg.get "tool_calls".toList = some (.arr calls) ∧
      GatedCalls J gate calls kept denials ∧
      msg'.get "tool_calls".toList = some (.arr kept) ∧
      (denials = [] → msg'.get "nanoguard_denied_tools".toList =
        msg.get "nanoguard_denied_tools".toList) ∧
      (denials ≠ [] → msg'.get "nanoguard_denied_tools".toList = some (.arr denials)) ∧
      ∀ key, key ≠ "tool_calls".toList → key ≠ "nanoguard_denied_tools".toList →
        msg'.get key = msg.get key

theorem gatedMessage_gateMessage (msg : Json) :
    GatedMessage J gate msg (gateMessage J gate msg) := by
  have hne : "nanoguard_denied_tools".toList ≠ "tool_calls".toList := by decide
  cases hcalls : (msg.get "tool_calls".toList).bind Json.asArray with
  | none =>
    refine .inl ⟨hcalls, ?_⟩
    unfold gateMessage
    rw [hcalls]
  | some calls =>
    obtain ⟨value, hvalue, harray⟩ := Option.bind_eq_some_iff.1 hcalls
    have hget : msg.get "tool_calls".toList = some (.arr calls) := by
      cases value with
      | arr items =>
        cases harray
        exact hvalue
      | _ => cases harray
    have hgated := gatedCalls_gateCalls J gate calls
    have hmsg' : gateMessage J gate msg =
        if (gateCalls J gate calls).2.isEmpty then
          msg.insert "tool_calls".toList (.arr (gateCalls J gate calls).1)
        else (msg.insert "tool_calls".toList (.arr (gateCalls J gate calls).1)).insert
          "nanoguard_denied_tools".toList (.arr (gateCalls J gate calls).2) := by
      unfold gateMessage
      rw [hcalls]
    rw [hmsg']
    generalize (gateCalls J gate calls).1 = kept at hgated ⊢
    generalize (gateCalls J gate calls).2 = denials at hgated ⊢
    have hkept : (msg.insert "tool_calls".toList (.arr kept)).get "tool_calls".toList =
        some (.arr kept) := Json.get_insert_self hget
    refine .inr ⟨calls, kept, denials, hget, hgated, ?_⟩
    by_cases hnone : denials = []
    · subst hnone
      exact ⟨hkept, fun _ => Json.get_insert_ne hne, fun h => absurd rfl h,
        fun key hkey _ => Json.get_insert_ne hkey⟩
    rw [if_neg (mt List.isEmpty_iff.1 hnone)]
    refine ⟨?_, fun h => absurd h hnone, fun _ => Json.get_insert_self hkept, ?_⟩
    · rw [Json.get_insert_ne hne.symm]
      exact hkept
    · intro key hkey hdenied
      rw [Json.get_insert_ne hdenied, Json.get_insert_ne hkey]

/-- **The gate changes the tool calls of messages and nothing else.** -/
theorem applyToolGate_frame (resp : Json) :
    Json.OnField "choices".toList
      (Json.OnItems (Json.OnField "message".toList (GatedMessage J gate)))
      resp (applyToolGate J gate resp) := by
  unfold applyToolGate
  refine Json.onField_update (fun choices => ?_) resp
  cases choices with
  | arr items =>
    refine .inr ⟨items, _, rfl, rfl, ?_⟩
    rw [List.forall₂_map_right_iff, List.forall₂_same]
    intro choice _
    exact Json.onField_update (fun msg => gatedMessage_gateMessage J gate msg) choice
  | _ => exact .inl ⟨rfl, rfl⟩

end Answer

/-! ## The reply of `/v1/messages` -/

def firstMessage (resp : Json) : Json :=
  (((((resp.get "choices".toList).bind Json.asArray).bind List.head?).bind
    (·.get "message".toList))).getD .null

section Reply

/-- The calls of the first choice that the gate leaves, if there is a gate. -/
def SurvivingCalls (E : ProxyEnv) (srv : Server) (message : Json) (left : List Json) : Prop :=
  let calls := ((message.get "tool_calls".toList).bind Json.asArray).getD []
  match srv.app.toolGate with
  | some gate => List.Forall₂ (Survives E.json gate)
      (calls.filter fun tc => !isDenied E.json gate tc) left
  | none => left = calls

/-- The block has the id, the name and the parsed arguments of the call. -/
structure Presents (J : JsonText) (tc block : Json) : Prop where
  id : ∀ {v}, tc.get "id".toList = some v → block.get "id".toList = some v
  name : ∀ {func v}, tc.get "function".toList = some func → func.get "name".toList = some v →
    block.get "name".toList = some v
  input : ∀ {func text args}, tc.get "function".toList = some func →
    func.get "arguments".toList = some (.str text) → J.fromStr text = .ok args →
      block.get "input".toList = some args

def isToolUse (block : Json) : Bool :=
  decide ((block.get "type".toList).bind Json.asStr = some "tool_use".toList)

def replyBlocks (body : Json) : List Json :=
  ((body.get "content".toList).bind Json.asArray).getD []

/-- **Stop reason and content agree**, and the content shows the surviving calls. -/
def StopReasonAgrees (E : ProxyEnv) (srv : Server) (resp body : Json) : Prop :=
  (body.get "stop_reason".toList = some (.str "tool_use".toList) ↔
      ∃ block ∈ replyBlocks body, isToolUse block = true) ∧
    ∃ left, SurvivingCalls E srv (firstMessage resp) left ∧
      List.Forall₂ (Presents E.json) left ((replyBlocks body).filter isToolUse)

/-- The answer has no field `tool_calls`, or one with a call that is not denied. -/
def CallSurvives (E : ProxyEnv) (srv : Server) (message : Json) : Prop :=
  message.get "tool_calls".toList = none ∨
    ∃ calls, message.get "tool_calls".toList = some (.arr calls) ∧
      ∃ tc ∈ calls, ∀ gate, srv.app.toolGate = some gate → isDenied E.json gate tc = false

theorem presents_toolUseBlock (J : JsonText) (tc : Json) : Presents J tc (toolUseBlock J tc) where
  id h := by
    unfold toolUseBlock
    rw [h]
    rfl
  name hfunc hname := by
    unfold toolUseBlock
    dsimp only
    rw [hfunc, Option.bind_some, hname]
    rfl
  input hfunc htext hparse := by
    unfold toolUseBlock
    dsimp only
    rw [hfunc]
    change some (Option.getD (((Json.get _ _).bind Json.asStr).bind _) _) = _
    rw [htext, Option.bind_some, Json.asStr, Option.bind_some, hparse]
    rfl

theorem isToolUse_cons (kind : Text) (fields : List (Text × Json)) :
    isToolUse (.obj (("type".toList, .str kind) :: fields)) = decide (kind = "tool_use".toList) := by
  exact decide_eq_decide.2 Option.some_inj

theorem isToolUse_toolUseBlock (J : JsonText) (tc : Json) : isToolUse (toolUseBlock J tc) = true :=
  (isToolUse_cons "tool_use".toList _).trans (decide_eq_true rfl)

theorem filter_contentBlocks (J : JsonText) (message : Json) (text : Text) :
    (contentBlocks J message text).filter isToolUse =
      (((message.get "tool_calls".toList).bind Json.asArray).getD []).map (toolUseBlock J) := by
  unfold contentBlocks
  dsimp only
  generalize ((message.get "tool_calls".toList).bind Json.asArray).getD [] = calls
  have htext : ∀ text, isToolUse (.obj [("type".toList, .str "text".toList),
      ("text".toList, .str text)]) = false := by
    intro text
    rw [isToolUse_cons]
    decide
  have htexts : (if text.isEmpty then [] else [Json.obj [("type".toList, .str "text".toList),
      ("text".toList, .str text)]]).filter isToolUse = [] := by
    split
    · rfl
    · rfl
  have hcalls : (calls.map (toolUseBlock J)).filter isToolUse = calls.map (toolUseBlock J) := by
    rw [filter_eq_self]
    intro block hblock
    obtain ⟨tc, -, rfl⟩ := mem_map.1 hblock
    exact isToolUse_toolUseBlock J tc
  have hdenied : ((message.get "nanoguard_denied_tools".toList).toList.map fun details =>
      Json.obj [("type".toList, .str "nanoguard_denied_tools".toList),
        ("details".toList, details)]).filter isToolUse = [] := by
    rw [filter_eq_nil_iff]
    intro block hblock
    obtain ⟨details, -, rfl⟩ := mem_map.1 hblock
    rw [isToolUse_cons]
    decide
  revert htexts hdenied
  generalize (if text.isEmpty then [] else [Json.obj [("type".toList, .str "text".toList),
    ("text".toList, .str text)]]) = texts
  generalize (message.get "nanoguard_denied_tools".toList).toList.map (fun details =>
    Json.obj [("type".toList, .str "nanoguard_denied_tools".toList),
      ("details".toList, details)]) = denied
  intro htexts hdenied
  have hfilter : (texts ++ calls.map (toolUseBlock J) ++ denied).filter isToolUse =
      calls.map (toolUseBlock J) := by
    rw [filter_append, filter_append, htexts, hcalls, hdenied, append_nil, nil_append]
  split
  next hempty =>
    -- the block of an answer without blocks is a text
    rw [← hfilter, List.isEmpty_iff.1 hempty,
      filter_cons_of_neg (by rw [htext]; exact Bool.false_ne_true)]
  next => exact hfilter

theorem firstMessage_applyToolGate (J : JsonText) (gate : ToolGate) (resp : Json) :
    firstMessage (applyToolGate J gate resp) = gateMessage J gate (firstMessage resp) := by
  have hnull : gateMessage J gate .null = .null := rfl
  unfold firstMessage applyToolGate
  cases hchoices : resp.get "choices".toList with
  | none =>
    rw [Json.update_of_none () hchoices, hchoices]
    exact hnull.symm
  | some choices =>
    generalize hstep : (fun (st : Unit) (choices : Json) => _) = step
    obtain ⟨-, hself, -⟩ := Json.update_of_some (f := step) () hchoices
    rw [hself]
    subst hstep
    cases choices with
    | arr items =>
      cases items with
      | nil => exact hnull.symm
      | cons choice items =>
        change ((choice.update "message".toList _ ()).2.get "message".toList).getD .null =
          gateMessage J gate ((choice.get "message".toList).getD .null)
        cases hmsg : choice.get "message".toList with
        | none =>
          rw [Json.update_of_none () hmsg, hmsg]
          exact hnull.symm
        | some msg =>
          rw [(Json.update_of_some () hmsg).2.1]
          rfl
    | _ => exact hnull.symm

theorem survivingCalls_gateAnswer (E : ProxyEnv) (srv : Server) (resp : Json) :
    SurvivingCalls E srv (firstMessage resp)
        ((((firstMessage (gateAnswer E srv resp)).get "tool_calls".toList).bind
          Json.asArray).getD []) ∧
      ((firstMessage (gateAnswer E srv resp)).get "tool_calls".toList).isSome =
        ((firstMessage resp).get "tool_calls".toList).isSome := by
  unfold SurvivingCalls gateAnswer
  cases srv.app.toolGate with
  | none => exact ⟨rfl, rfl⟩
  | some gate =>
    rw [firstMessage_applyToolGate]
    rcases gatedMessage_gateMessage E.json gate (firstMessage resp) with
      ⟨hcalls, hsame⟩ | ⟨calls, kept, denials, hcalls, hgated, hkept, -⟩
    · rw [hsame, hcalls]
      exact ⟨.nil, rfl⟩
    · rw [hkept, hcalls]
      exact ⟨hgated.survive, rfl⟩

theorem survivingCalls_ne_nil_iff {E : ProxyEnv} {srv : Server} {message : Json} {left : List Json}
    (h : SurvivingCalls E srv message left) : left ≠ [] ↔
      ∃ calls, message.get "tool_calls".toList = some (.arr calls) ∧
        ∃ tc ∈ calls, ∀ gate, srv.app.toolGate = some gate → isDenied E.json gate tc = false := by
  have harray : ∀ tc, tc ∈ ((message.get "tool_calls".toList).bind Json.asArray).getD [] ↔
      ∃ calls, message.get "tool_calls".toList = some (.arr calls) ∧ tc ∈ calls := by
    cases hvalue : message.get "tool_calls".toList with
    | none => simp
    | some value => cases value <;> simp [Json.asArray]
  have hmem : ∀ l : List Json, l ≠ [] ↔ ∃ tc, tc ∈ l :=
    fun l => ⟨exists_mem_of_ne_nil l, fun h => h.elim fun _ hmem => ne_nil_of_mem hmem⟩
  have hleft : left ≠ [] ↔ ∃ tc ∈ ((message.get "tool_calls".toList).bind Json.asArray).getD [],
      ∀ gate, srv.app.toolGate = some gate → isDenied E.json gate tc = false := by
    unfold SurvivingCalls at h
    cases hgate : srv.app.toolGate with
    | none =>
      rw [hgate] at h
      rw [h, hmem]
      exact exists_congr fun tc => ⟨fun htc => ⟨htc, fun _ hnone => by cases hnone⟩, And.left⟩
    | some gate =>
      rw [hgate] at h
      rw [ne_eq, ← length_eq_zero_iff, ← h.length_eq, length_eq_zero_iff, ← ne_eq, hmem]
      refine exists_congr fun tc => ?_
      rw [mem_filter, Bool.not_eq_true']
      refine and_congr_right fun _ => ⟨?_, fun hall => hall gate rfl⟩
      intro hkeep gate' hgate'
      cases hgate'
      exact hkeep
  rw [hleft]
  constructor
  · rintro ⟨tc, htc, hkeep⟩
    obtain ⟨calls, hcalls, hmem⟩ := (harray tc).1 htc
    exact ⟨calls, hcalls, tc, hmem, hkeep⟩
  · rintro ⟨calls, hcalls, tc, hmem, hkeep⟩
    exact ⟨tc, (harray tc).2 ⟨calls, hcalls, hmem⟩, hkeep⟩

/-- **When stop reason and content agree** in the reply of `/v1/messages`: exactly if the answer of
the backend has no field `tool_calls`, or a call there that the gate does not deny. -/
theorem stop_reason_iff (E : ProxyEnv) (srv : Server) (model : Text) (vault : LocalVault)
    (status : Nat) (resp body : Json)
    (h : finishMessages E srv model vault status resp = .answered status body) :
    StopReasonAgrees E srv resp body ↔ CallSurvives E srv (firstMessage resp) := by
  obtain rfl : messagesBody E srv model vault (gateAnswer E srv resp) = body := by
    unfold finishMessages at h
    dsimp only at h
    split at h
    · cases h
    · cases h
      rfl
  obtain ⟨hleft, hfield⟩ := survivingCalls_gateAnswer E srv resp
  set left := (((firstMessage (gateAnswer E srv resp)).get "tool_calls".toList).bind
    Json.asArray).getD [] with hdef
  have hblocks : (replyBlocks (messagesBody E srv model vault (gateAnswer E srv resp))).filter
      isToolUse = left.map (toolUseBlock E.json) := filter_contentBlocks E.json _ _
  have hpresents : List.Forall₂ (Presents E.json) left
      ((replyBlocks (messagesBody E srv model vault (gateAnswer E srv resp))).filter isToolUse) := by
    rw [hblocks, List.forall₂_map_right_iff, List.forall₂_same]
    exact fun tc _ => presents_toolUseBlock E.json tc
  have hshown : (∃ block ∈ replyBlocks (messagesBody E srv model vault (gateAnswer E srv resp)),
      isToolUse block = true) ↔ left ≠ [] := by
    rw [ne_eq, ← map_eq_nil_iff (f := toolUseBlock E.json), ← hblocks,
      filter_eq_nil_iff]
    push Not
    rfl
  have hstop : (messagesBody E srv model vault (gateAnswer E srv resp)).get "stop_reason".toList =
      some (.str "tool_use".toList) ↔ ((firstMessage resp).get "tool_calls".toList).isSome = true := by
    rw [← hfield]
    change some (Json.str (if ((firstMessage (gateAnswer E srv resp)).get
      "tool_calls".toList).isSome = true then _ else _)) = _ ↔ _
    split
    next hsome => exact iff_of_true rfl hsome
    next hnone =>
      refine iff_of_false (fun heq => ?_) hnone
      have hname : "end_turn".toList = "tool_use".toList := Json.str.inj (Option.some.inj heq)
      exact absurd hname (by decide)
  unfold StopReasonAgrees CallSurvives
  rw [hstop, hshown, survivingCalls_ne_nil_iff hleft]
  constructor
  · rintro ⟨hiff, -⟩
    cases hvalue : (firstMessage resp).get "tool_calls".toList with
    | none => exact .inl rfl
    | some value =>
      rw [hvalue] at hiff
      exact .inr (hiff.1 rfl)
  · intro hcond
    refine ⟨⟨fun hsome => ?_, ?_⟩, left, hleft, hpresents⟩
    · rcases hcond with hnone | hcall
      · rw [hnone] at hsome
        cases hsome
      · exact hcall
    · rintro ⟨calls, hcalls, -⟩
      rw [hcalls]
      rfl

end Reply

section Examples

def callEnv : ProxyEnv where
  unicode := .ascii
  json := ⟨fun _ => .ok (.obj []), fun _ => "\x7b\x7d".toList⟩
  fromSlice _ := .error []
  output := .plain
  send _ _ := .error []

def deleteGate : ToolGate where
  allow := none
  deny := ["delete".toList]
  schemas := ∅
  redactor := ⟨[], .bare⟩
  rejectEntities := []
  maskEntities := []

def callServer : Server where
  app := { exampleState with toolGate := some deleteGate }
  outputEnabled := false
  auditOpen := false

def callAnswer (calls : Json) : Json :=
  .obj [("choices".toList, .arr [.obj [("message".toList, .obj [("content".toList, .str "ok".toList),
    ("tool_calls".toList, calls)])]])]

def exampleCall (name : Text) : Json :=
  .obj [("id".toList, .str "call_1".toList), ("function".toList, .obj [("name".toList, .str name),
    ("arguments".toList, .str "\x7b\x7d".toList)])]

theorem stop_reason_search :
    let resp := callAnswer (.arr [exampleCall "delete".toList, exampleCall "search".toList])
    ∃ body, finishMessages callEnv callServer "m".toList LocalVault.new 200 resp =
        .answered 200 body ∧ StopReasonAgrees callEnv callServer resp body := by
  refine ⟨_, rfl, (stop_reason_iff callEnv callServer "m".toList LocalVault.new 200 _ _ rfl).2 ?_⟩
  refine .inr ⟨_, rfl, exampleCall "search".toList, by simp, ?_⟩
  intro gate hgate
  cases hgate
  rfl

/-- **Nothing is left to use**: the only call is denied, or there is none. -/
theorem stop_reason_without_block :
    let denied := callAnswer (.arr [exampleCall "delete".toList])
    let empty := callAnswer .null
    (∃ body, finishMessages callEnv callServer "m".toList LocalVault.new 200 denied =
        .answered 200 body ∧ body.get "stop_reason".toList = some (.str "tool_use".toList) ∧
          (replyBlocks body).any isToolUse = false) ∧
      ∃ body, finishMessages callEnv callServer "m".toList LocalVault.new 200 empty =
        .answered 200 body ∧ body.get "stop_reason".toList = some (.str "tool_use".toList) ∧
          (replyBlocks body).any isToolUse = false :=
  ⟨⟨_, rfl, rfl, by decide⟩, ⟨_, rfl, rfl, by decide⟩⟩

end Examples

end Nanoguard.Proxy

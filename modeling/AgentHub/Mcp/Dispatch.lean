import AgentHub.Mcp.Discovery

/-!
# The dispatch of a remote call

`call_tool` issues one remote call and says how much is known about it. The transport guard marks
the call as dispatched when it hands a request of the call phase on, and takes the mark back when
the inner transport raises while a forbidden address is on record. The mark belongs to the whole
call, but a later request takes it back as well, and the record of a forbidden address stays.

## Main definitions

* `Observation`, `Transport`, `handle`: the observation, and what becomes of one request
* `CallTrace`, `observed`, `callTool`: the requests of one call, and its outcome
* `executeWrite`: the action an outcome is reported as
* `Forgets`: the calls whose mark is taken back after a request was handed on

## Main results

* `callDispatched_observed`: when the mark stands at the end of a call
* `not_dispatched_iff`: when a call that is reported as not dispatched has handed nothing on
* `dispatched_reported_failed`: a call that was handed on and is reported as not dispatched
-/

namespace AgentHub.Mcp

open Lib

/-! ## Outcomes -/

inductive DispatchState
  | notDispatched | maybeDispatched | definiteResponse
  deriving DecidableEq, Repr

inductive McpCallStatus
  | ok | toolError | failed | indeterminate
  deriving DecidableEq, Repr

structure McpCallOutcome where
  status : McpCallStatus
  dispatch : DispatchState
  data : Option Json := none
  failureCode : Option String := none

inductive ActionExecutionStatus
  | succeeded | failed | unknownOutcome
  deriving DecidableEq, Repr

structure ActionExecutionResult where
  status : ActionExecutionStatus
  data : Option Json := none
  failureCode : Option String := none
  safeMessage : Option String := none

/-- `execute_write`, from the outcome of the call on. -/
def executeWrite (outcome : McpCallOutcome) : ActionExecutionResult :=
  let code := outcome.failureCode.getD "MCP_TOOL_CALL_FAILED"
  match outcome.status with
  | .ok => { status := .succeeded, data := some (outcome.data.getD (.obj [])) }
  | .toolError =>
    { status := .failed, failureCode := some code,
      safeMessage := some "The remote MCP tool reported a failure." }
  | .failed | .indeterminate =>
    if outcome.dispatch = .notDispatched then
      { status := .failed, failureCode := some code,
        safeMessage := some "The remote MCP tool was not called." }
    else
      { status := .unknownOutcome, failureCode := some code,
        safeMessage := some "The action outcome requires reconciliation." }

/-! ## A definite response -/

inductive ContentBlock
  | text (value : Text)
  | other

structure CallToolResult where
  content : List ContentBlock
  structuredContent : Option Json
  isError : Bool

/-- What a call is made with, apart from its arguments. `validates` is the JSON Schema validator. -/
structure CallLimits where
  maxResultBytes : ℕ
  outputSchema : Option Json
  validates : Json → Json → Bool

def ContentBlock.text? : ContentBlock → Option Text
  | .text value => some value
  | .other => none

/-- `_normalize_call_result` -/
def normalizeCallResult (limits : CallLimits) (result : CallToolResult) : Except McpError Json := do
  raiseIf (result.content.any fun block => block.text?.isNone)
    (.remote "MCP_TOOL_RESULT_UNSUPPORTED")
  raiseIf (result.structuredContent.any fun value =>
      limits.outputSchema.any fun schema => !limits.validates schema value)
    (.remote "MCP_TOOL_OUTPUT_INVALID")
  let payload : Json := .obj [
    (Text.ofString "content", .arr (result.content.filterMap fun block => block.text?.map .str)),
    (Text.ofString "structured_content", result.structuredContent.getD .null)]
  let size ← jsonSize payload
  raiseIf (size > limits.maxResultBytes) (.remote "MCP_TOOL_RESULT_TOO_LARGE")
  return payload

/-- `_decide`: an answer that cannot be handed on is indeterminate. Another exception than a
remote failure leaves the method. -/
def decideOutcome (limits : CallLimits) (result : CallToolResult) :
    Except McpError McpCallOutcome :=
  match normalizeCallResult limits result with
  | .error (.remote code) =>
    .ok { status := .indeterminate, dispatch := .definiteResponse, failureCode := some code }
  | .error (.other message) => .error (.other message)
  | .ok data =>
    if result.isError then
      .ok { status := .toolError, dispatch := .definiteResponse, data := some data,
            failureCode := some "MCP_TOOL_CALL_FAILED" }
    else .ok { status := .ok, dispatch := .definiteResponse, data := some data }

/-! ## The transport guard -/

def mcpTargetForbidden : String := "MCP_TARGET_FORBIDDEN"

/-- `_Observation` -/
structure Observation where
  blockedCode : Option String := none
  lastHttpStatus : Option ℕ := none
  inCallPhase : Bool := false
  callDispatched : Bool := false
  deriving DecidableEq, Repr

def Observation.markDispatched (o : Observation) : Observation :=
  if o.inCallPhase then { o with callDispatched := true } else o

/-- What becomes of one request of the SDK. -/
inductive Transport
  /-- The guard refuses the URL, or finds no transport that authorizes peers. -/
  | rejected
  /-- The pinned transport refuses the address before it sends anything. -/
  | refused
  /-- The inner transport raises, before or after the request was handed to the network. -/
  | failed (sent : Bool)
  /-- A cancellation reaches the inner transport, before or after. -/
  | cancelled (sent : Bool)
  /-- A response, from a peer that turns out to be forbidden or not. -/
  | answered (status : ℕ) (peerForbidden : Bool)
  deriving DecidableEq, Repr

namespace Transport

/-- The guard hands the request to the inner transport. -/
def reaches : Transport → Bool
  | rejected => false
  | _ => true

/-- The request was handed to the network. -/
def isSent : Transport → Bool
  | rejected | refused => false
  | failed sent | cancelled sent => sent
  | answered _ _ => true

/-- The inner transport raises an `Exception`. -/
def raises : Transport → Bool
  | refused | failed _ => true
  | _ => false

/-- The request puts a forbidden address on record. -/
def records : Transport → Bool
  | rejected | refused | answered _ true => true
  | _ => false

end Transport

/-- `except Exception` around the inner transport. -/
def Observation.unmark (o : Observation) : Observation :=
  if o.blockedCode = some mcpTargetForbidden then { o with callDispatched := false } else o

/-- `handle_async_request`, as far as the observation goes; a refusal of the pinned transport
writes to the same observation. -/
def handle (o : Observation) : Transport → Observation
  | .rejected => { o with blockedCode := some mcpTargetForbidden }
  | .refused => { o.markDispatched with blockedCode := some mcpTargetForbidden }.unmark
  | .failed _ => o.markDispatched.unmark
  | .cancelled _ => o.markDispatched
  | .answered status peerForbidden =>
    let o := { o.markDispatched with lastHttpStatus := some status }
    if peerForbidden then { o with blockedCode := some mcpTargetForbidden } else o

/-! ## One call -/

/-- The exceptions an exception stands for, as the failure codes tell them apart. -/
inductive Cause
  | remote (failureCode : String)
  | connectTimeout | connectError | protocolError | timeout | other
  deriving DecidableEq, Repr

def Cause.failureCode? : Cause → Option String
  | .remote code => some code
  | _ => none

/-- `_failure_code` -/
def failureCode (o : Observation) (causes : List Cause) : String :=
  match o.blockedCode with
  | some code => code
  | none =>
    match causes.findSome? Cause.failureCode? with
    | some code => code
    | none =>
      if o.lastHttpStatus = some 401 ∨ o.lastHttpStatus = some 403 then "MCP_AUTH_FAILED"
      else if .connectTimeout ∈ causes then "MCP_CONNECT_TIMEOUT"
      else if .connectError ∈ causes then "MCP_CONNECT_FAILED"
      else if .protocolError ∈ causes then "MCP_PROTOCOL_ERROR"
      else "MCP_SERVER_UNAVAILABLE"

/-- How the body of `call_tool` ends. -/
inductive Ending
  /-- The SDK returned a result, and the client was closed. -/
  | returned (result : CallToolResult)
  /-- An exception, in any phase. -/
  | raised (causes : List Cause)
  | cancelled
  /-- A process interrupt. -/
  | interrupted

/-- The requests the SDK issues while the client is opened, in the call phase, and after a result
was returned; and how the call ends. A call that ends before the call phase has no requests in
it. -/
structure CallTrace where
  handshake : List Transport
  call : List Transport
  closing : List Transport
  ending : Ending

/-- The observation at the end of a call. -/
def observed (t : CallTrace) : Observation :=
  let o := t.handshake.foldl handle {}
  let o := t.call.foldl handle { o with inCallPhase := true }
  t.closing.foldl handle { o with inCallPhase := false }

/-- The `except Exception` clause of `call_tool`. -/
def failedOutcome (o : Observation) (causes : List Cause) : McpCallOutcome :=
  if o.callDispatched then
    { status := .indeterminate, dispatch := .maybeDispatched,
      failureCode := some (failureCode o causes) }
  else
    { status := .failed, dispatch := .notDispatched,
      failureCode := some (failureCode o causes) }

/-- `call_tool`; `none` when it raises. -/
def callTool (limits : CallLimits) (t : CallTrace) : Option McpCallOutcome :=
  match t.ending with
  | .returned result =>
    match decideOutcome limits result with
    | .ok outcome => some outcome
    | .error _ => some (failedOutcome (observed t) [.other])
  | .raised causes => some (failedOutcome (observed t) causes)
  | .cancelled =>
    if (observed t).callDispatched then
      some { status := .indeterminate, dispatch := .maybeDispatched,
             failureCode := some "MCP_CALL_ABANDONED" }
    else none
  | .interrupted => none

/-! ## When the mark stands -/

/-- A forbidden address is on record. -/
def Observation.isBlocked (o : Observation) : Bool := o.blockedCode = some mcpTargetForbidden

namespace Observation

variable (o : Observation)

@[simp] theorem inCallPhase_markDispatched : o.markDispatched.inCallPhase = o.inCallPhase := by
  unfold markDispatched; split <;> rfl

@[simp] theorem blockedCode_markDispatched : o.markDispatched.blockedCode = o.blockedCode := by
  unfold markDispatched; split <;> rfl

@[simp] theorem callDispatched_markDispatched :
    o.markDispatched.callDispatched = (o.callDispatched || o.inCallPhase) := by
  unfold markDispatched; split <;> simp_all

@[simp] theorem inCallPhase_unmark : o.unmark.inCallPhase = o.inCallPhase := by
  unfold unmark; split <;> rfl

@[simp] theorem blockedCode_unmark : o.unmark.blockedCode = o.blockedCode := by
  unfold unmark; split <;> rfl

@[simp] theorem callDispatched_unmark :
    o.unmark.callDispatched = (o.callDispatched && !o.isBlocked) := by
  unfold unmark isBlocked; split <;> simp_all

end Observation

section Mark

variable {o : Observation} {r : Transport} {rs : List Transport}

theorem inCallPhase_handle : (handle o r).inCallPhase = o.inCallPhase := by
  cases r with
  | answered status peerForbidden => cases peerForbidden <;> simp [handle]
  | _ => simp [handle]

/-- A record stays. -/
theorem isBlocked_handle : (handle o r).isBlocked = (o.isBlocked || r.records) := by
  cases r with
  | answered status peerForbidden =>
    cases peerForbidden <;> simp [handle, Transport.records, Observation.isBlocked]
  | _ => simp [handle, Transport.records, Observation.isBlocked]

/-- **The mark after one request**: a request of the call phase that reaches the transport sets
it, and one that raises with a forbidden address on record takes it back. -/
theorem callDispatched_handle : (handle o r).callDispatched =
    ((o.callDispatched || o.inCallPhase && r.reaches) &&
      !(r.raises && (o.isBlocked || r.records))) := by
  cases r with
  | answered status peerForbidden =>
    cases peerForbidden <;> simp [handle, Transport.reaches, Transport.raises]
  | _ =>
    simp [handle, Transport.records, Transport.reaches, Transport.raises, Observation.isBlocked]

theorem inCallPhase_foldl : (rs.foldl handle o).inCallPhase = o.inCallPhase := by
  induction rs generalizing o with
  | nil => rfl
  | cons r rs ih => rw [List.foldl_cons, ih, inCallPhase_handle]

theorem isBlocked_foldl :
    (rs.foldl handle o).isBlocked = (o.isBlocked || rs.any Transport.records) := by
  induction rs generalizing o with
  | nil => simp
  | cons r rs ih => rw [List.foldl_cons, ih, isBlocked_handle, List.any_cons, Bool.or_assoc]

/-- The request raises, and it or one before it has put a forbidden address on record. -/
def Clears (before : List Transport) (r : Transport) : Prop :=
  r.raises ∧ (before ++ [r]).any Transport.records

instance (before : List Transport) (r : Transport) : Decidable (Clears before r) :=
  inferInstanceAs (Decidable (_ ∧ _))

/-- The last request that reaches the transport clears. -/
def LastClears (before rs : List Transport) : Prop :=
  ∃ pre r post, rs = pre ++ r :: post ∧ (∀ q ∈ post, q.reaches = false) ∧ Clears (before ++ pre) r

/-- Some request clears. -/
def SomeClears (before rs : List Transport) : Prop :=
  ∃ pre r post, rs = pre ++ r :: post ∧ Clears (before ++ pre) r

theorem Clears.reaches {before : List Transport} (h : Clears before r) : r.reaches := by
  obtain ⟨hraises, -⟩ := h
  cases r <;> first | rfl | cases hraises

/-- The ways to split a list with one element more. -/
theorem append_singleton_split {α : Type*} {l pre post : List α} {a b : α} :
    l ++ [a] = pre ++ b :: post ↔
      (post = [] ∧ pre = l ∧ b = a) ∨ ∃ post', post = post' ++ [a] ∧ l = pre ++ b :: post' := by
  constructor
  · intro h
    obtain rfl | ⟨post, c, rfl⟩ := post.eq_nil_or_concat
    · obtain ⟨hl, hlast⟩ := List.append_inj' h rfl
      exact .inl ⟨rfl, hl.symm, (List.cons.inj hlast).1.symm⟩
    · rw [List.concat_eq_append, ← List.cons_append, ← List.append_assoc] at h
      obtain ⟨hl, hlast⟩ := List.append_inj' h rfl
      exact .inr ⟨post, by rw [List.concat_eq_append, hlast], hl⟩
  · rintro (⟨rfl, rfl, rfl⟩ | ⟨post, rfl, rfl⟩)
    · rfl
    · simp

variable {before : List Transport}

/-- One more request, in terms of the requests before. -/
theorem callDispatched_append (hbefore : o.isBlocked = before.any Transport.records) :
    ((rs ++ [r]).foldl handle o).callDispatched ↔
      ((rs.foldl handle o).callDispatched ∨ o.inCallPhase ∧ r.reaches) ∧
        ¬ Clears (before ++ rs) r := by
  rw [List.foldl_append, List.foldl_cons, List.foldl_nil, callDispatched_handle, inCallPhase_foldl,
    isBlocked_foldl, hbefore]
  simp [Clears, imp_iff_not_or, and_assoc]

/-- **The mark after the call phase**: a request has reached the transport, and the last one that
did does not clear. -/
theorem callDispatched_call (hphase : o.inCallPhase = true) (hmark : o.callDispatched = false)
    (hbefore : o.isBlocked = before.any Transport.records) :
    (rs.foldl handle o).callDispatched ↔ (∃ r ∈ rs, r.reaches) ∧ ¬ LastClears before rs := by
  induction rs using List.reverseRecOn with
  | nil => simp [hmark]
  | append_singleton rs r ih =>
    rw [callDispatched_append hbefore, ih, hphase]
    by_cases hreaches : r.reaches
    · -- then `r` is the last request that reaches the transport
      have hlast : LastClears before (rs ++ [r]) ↔ Clears (before ++ rs) r := by
        constructor
        · rintro ⟨pre, q, post, heq, hpost, hclears⟩
          obtain ⟨rfl, rfl, rfl⟩ | ⟨post, rfl, rfl⟩ := append_singleton_split.mp heq
          · exact hclears
          · exact absurd hreaches (by simp [hpost r (by simp)])
        · exact fun hclears => ⟨rs, r, [], rfl, nofun, hclears⟩
      simp [hlast, hreaches]
    · have hclears : ¬ Clears (before ++ rs) r := fun h => hreaches h.reaches
      have hlast : LastClears before (rs ++ [r]) ↔ LastClears before rs := by
        constructor
        · rintro ⟨pre, q, post, heq, hpost, hq⟩
          obtain ⟨rfl, rfl, rfl⟩ | ⟨post, rfl, rfl⟩ := append_singleton_split.mp heq
          · exact absurd hq hclears
          · exact ⟨pre, q, post, rfl, fun x hx => hpost x (by simp [hx]), hq⟩
        · rintro ⟨pre, q, post, rfl, hpost, hq⟩
          refine ⟨pre, q, post ++ [r], by simp, fun x hx => ?_, hq⟩
          rcases List.mem_append.mp hx with hx | hx
          · exact hpost x hx
          · rw [List.mem_singleton.mp hx]
            simpa using hreaches
      simp [hlast, hclears, hreaches]

/-- **The mark after the result**: it is only taken back. -/
theorem callDispatched_closing (hphase : o.inCallPhase = false)
    (hbefore : o.isBlocked = before.any Transport.records) :
    (rs.foldl handle o).callDispatched ↔ o.callDispatched ∧ ¬ SomeClears before rs := by
  induction rs using List.reverseRecOn with
  | nil => simp [SomeClears]
  | append_singleton rs r ih =>
    rw [callDispatched_append hbefore, ih, hphase]
    have hsome : SomeClears before (rs ++ [r]) ↔
        SomeClears before rs ∨ Clears (before ++ rs) r := by
      constructor
      · rintro ⟨pre, q, post, heq, hq⟩
        obtain ⟨rfl, rfl, rfl⟩ | ⟨post, rfl, rfl⟩ := append_singleton_split.mp heq
        · exact .inr hq
        · exact .inl ⟨pre, q, post, rfl, hq⟩
      · rintro (⟨pre, q, post, rfl, hq⟩ | hclears)
        · exact ⟨pre, q, post ++ [r], by simp, hq⟩
        · exact ⟨rs, r, [], rfl, hclears⟩
    rw [hsome]
    simp [and_assoc]

end Mark

/-! ## What a call reports -/

section Report

variable {limits : CallLimits} {t : CallTrace}

/-- **The mark is taken back**: by the last request of the call phase that reaches the transport,
or by a request after the result. -/
def Forgets (t : CallTrace) : Prop :=
  LastClears t.handshake t.call ∨ SomeClears (t.handshake ++ t.call) t.closing

/-- **The mark at the end of a call.** -/
theorem callDispatched_observed :
    (observed t).callDispatched ↔ (∃ r ∈ t.call, r.reaches) ∧ ¬ Forgets t := by
  have hopen : (t.handshake.foldl handle {}).callDispatched = false := by
    have h : (t.handshake.foldl handle {}).callDispatched = true ↔
      ({} : Observation).callDispatched = true ∧ ¬ SomeClears [] t.handshake :=
        callDispatched_closing rfl rfl
    exact Bool.eq_false_iff.mpr fun hmark => nomatch (h.mp hmark).1
  have hblocked : (t.handshake.foldl handle {}).isBlocked = t.handshake.any Transport.records :=
    isBlocked_foldl
  let o := t.call.foldl handle { t.handshake.foldl handle {} with inCallPhase := true }
  have hcall : o.callDispatched = true ↔
      (∃ r ∈ t.call, r.reaches) ∧ ¬ LastClears t.handshake t.call :=
    callDispatched_call rfl hopen hblocked
  have hblocked' : o.isBlocked = (t.handshake ++ t.call).any Transport.records := by
    rw [isBlocked_foldl, List.any_append]
    exact congrArg (· || _) hblocked
  have hclosing : (observed t).callDispatched = true ↔
      o.callDispatched = true ∧ ¬ SomeClears (t.handshake ++ t.call) t.closing :=
    callDispatched_closing rfl hblocked'
  rw [hclosing, hcall, Forgets, not_or, and_assoc]

/-- A request of the call phase was handed to the network. -/
def SentInCall (t : CallTrace) : Prop := ∃ r ∈ t.call, r.isSent

/-- The call ends without an answer that can be handed on, by an exception or a cancellation. -/
def EndsOpen (limits : CallLimits) (t : CallTrace) : Prop :=
  match t.ending with
  | .returned result => ∀ outcome, decideOutcome limits result ≠ .ok outcome
  | .raised _ | .cancelled => True
  | .interrupted => False

/-- What the report of a call promises. -/
structure Truthful (limits : CallLimits) (t : CallTrace) : Prop where
  notDispatched : ∀ o, callTool limits t = some o → o.status = .failed →
    o.dispatch = .notDispatched → ¬ SentInCall t
  action : ∀ o, callTool limits t = some o → (executeWrite o).status = .failed →
    o.status ≠ .toolError → ¬ SentInCall t
  indeterminate : SentInCall t → t.ending ≠ .interrupted →
    ∃ o, callTool limits t = some o ∧ (o.dispatch = .definiteResponse ∨ o.status = .indeterminate)

theorem dispatch_decideOutcome {result : CallToolResult} {o : McpCallOutcome}
    (h : decideOutcome limits result = .ok o) :
    o.dispatch = .definiteResponse ∧ o.status ≠ .failed := by
  unfold decideOutcome at h
  repeat' split at h
  all_goals first
    | cases h; exact ⟨rfl, nofun⟩
    | cases h

theorem failedOutcome_cases (o : Observation) (causes : List Cause) :
    (o.callDispatched = true ∧ (failedOutcome o causes).status = .indeterminate ∧
        (failedOutcome o causes).dispatch = .maybeDispatched) ∨
      (o.callDispatched = false ∧ (failedOutcome o causes).status = .failed ∧
        (failedOutcome o causes).dispatch = .notDispatched) := by
  unfold failedOutcome
  split <;> simp_all

/-- **The three kinds of calls**: those that are not left open, and those that are, with and
without the mark. -/
theorem callTool_cases (limits : CallLimits) (t : CallTrace) :
    (¬ EndsOpen limits t ∧ (t.ending = .interrupted ∧ callTool limits t = none ∨
        ∃ o, callTool limits t = some o ∧ o.dispatch = .definiteResponse ∧ o.status ≠ .failed)) ∨
      (EndsOpen limits t ∧ (observed t).callDispatched = true ∧ ∃ o, callTool limits t = some o ∧
        o.status = .indeterminate ∧ o.dispatch = .maybeDispatched) ∨
      (EndsOpen limits t ∧ (observed t).callDispatched = false ∧ ∀ o, callTool limits t = some o →
        o.status = .failed ∧ o.dispatch = .notDispatched) := by
  cases hend : t.ending with
  | returned result =>
    cases hdecide : decideOutcome limits result with
    | ok outcome =>
      refine .inl ⟨fun hopen => ?_, .inr ⟨outcome, by simp [callTool, hend, hdecide],
        dispatch_decideOutcome hdecide⟩⟩
      simp only [EndsOpen, hend] at hopen
      exact hopen outcome hdecide
    | error e =>
      have hopen : EndsOpen limits t := by simp [EndsOpen, hend, hdecide]
      have hcall : callTool limits t = some (failedOutcome (observed t) [.other]) := by
        simp [callTool, hend, hdecide]
      rcases failedOutcome_cases (observed t) [.other] with ⟨hmark, h⟩ | ⟨hmark, h⟩
      · exact .inr (.inl ⟨hopen, hmark, _, hcall, h⟩)
      · exact .inr (.inr ⟨hopen, hmark, fun o ho => Option.some.inj (hcall.symm.trans ho) ▸ h⟩)
  | raised causes =>
    have hopen : EndsOpen limits t := by simp [EndsOpen, hend]
    have hcall : callTool limits t = some (failedOutcome (observed t) causes) := by
      simp [callTool, hend]
    rcases failedOutcome_cases (observed t) causes with ⟨hmark, h⟩ | ⟨hmark, h⟩
    · exact .inr (.inl ⟨hopen, hmark, _, hcall, h⟩)
    · exact .inr (.inr ⟨hopen, hmark, fun o ho => Option.some.inj (hcall.symm.trans ho) ▸ h⟩)
  | cancelled =>
    have hopen : EndsOpen limits t := by simp [EndsOpen, hend]
    cases hmark : (observed t).callDispatched with
    | true =>
      exact .inr (.inl ⟨hopen, rfl, ⟨.indeterminate, .maybeDispatched, none,
        some "MCP_CALL_ABANDONED"⟩,
        by simp [callTool, hend, hmark], rfl, rfl⟩)
    | false => exact .inr (.inr ⟨hopen, rfl, by simp [callTool, hend, hmark]⟩)
  | interrupted => exact .inl ⟨by simp [EndsOpen, hend], .inl ⟨rfl, by simp [callTool, hend]⟩⟩

theorem Transport.reaches_of_isSent {r : Transport} (h : r.isSent) : r.reaches := by
  cases r <;> first | rfl | cases h

/-- **When the report of a call can be trusted.** A call reported as not dispatched has handed no
request of the call phase to the network, and a call that has is reported as indeterminate unless
a definite answer came back, just when the call is not of this kind: a request was handed on, the
call ended open, and the mark was taken back afterwards. -/
theorem not_dispatched_iff (limits : CallLimits) (t : CallTrace) :
    Truthful limits t ↔ ¬ (SentInCall t ∧ EndsOpen limits t ∧ Forgets t) := by
  have hmarked : SentInCall t → ((observed t).callDispatched ↔ ¬ Forgets t) := by
    rintro ⟨r, hr, hsent⟩
    rw [callDispatched_observed, and_iff_right ⟨r, hr, Transport.reaches_of_isSent hsent⟩]
  constructor
  · rintro htruthful ⟨hsent, hopen, hforgets⟩
    have hmark : (observed t).callDispatched = false :=
      Bool.eq_false_iff.mpr fun h => (hmarked hsent).mp h hforgets
    have hend : t.ending ≠ .interrupted := fun h => by simp [EndsOpen, h] at hopen
    obtain ⟨o, ho, hreport⟩ := htruthful.indeterminate hsent hend
    rcases callTool_cases limits t with ⟨hclosed, -⟩ | ⟨-, hmark', -⟩ | ⟨-, -, hfailed⟩
    · exact hclosed hopen
    · rw [hmark] at hmark'
      cases hmark'
    · obtain ⟨hstatus, hdispatch⟩ := hfailed o ho
      simp [hstatus, hdispatch] at hreport
  · intro hcondition
    have hnot : ∀ o, callTool limits t = some o → o.status = .failed → ¬ SentInCall t := by
      intro o ho hstatus hsent
      rcases callTool_cases limits t with ⟨-, ⟨-, hnone⟩ | ⟨p, hp, -, hne⟩⟩ |
        ⟨-, -, p, hp, hindeterminate, -⟩ | ⟨hopen, hmark, -⟩
      · rw [ho] at hnone
        cases hnone
      · exact hne (Option.some.inj (hp.symm.trans ho) ▸ hstatus)
      · rw [Option.some.inj (hp.symm.trans ho), hstatus] at hindeterminate
        cases hindeterminate
      · refine hcondition ⟨hsent, hopen, ?_⟩
        by_contra hforgets
        rw [(hmarked hsent).mpr hforgets] at hmark
        cases hmark
    refine ⟨fun o ho hstatus _ => hnot o ho hstatus, fun o ho haction hne => hnot o ho ?_,
      fun hsent hend => ?_⟩
    · -- an action that fails without a tool error comes from a call that is not dispatched
      rcases callTool_cases limits t with ⟨-, ⟨-, hnone⟩ | ⟨p, hp, hdefinite, -⟩⟩ |
        ⟨-, -, p, hp, -, hmaybe⟩ | ⟨-, -, hfailed⟩
      · rw [ho] at hnone
        cases hnone
      · obtain rfl := Option.some.inj (hp.symm.trans ho)
        cases hstatus : p.status <;> simp_all [executeWrite]
      · obtain rfl := Option.some.inj (hp.symm.trans ho)
        cases hstatus : p.status <;> simp_all [executeWrite]
      · exact (hfailed o ho).1
    · rcases callTool_cases limits t with ⟨-, ⟨hinterrupted, -⟩ | ⟨p, hp, hdefinite, -⟩⟩ |
        ⟨-, -, p, hp, hindeterminate, -⟩ | ⟨hopen, hmark, -⟩
      · exact absurd hinterrupted hend
      · exact ⟨p, hp, .inl hdefinite⟩
      · exact ⟨p, hp, .inr hindeterminate⟩
      · refine absurd ⟨hsent, hopen, ?_⟩ hcondition
        by_contra hforgets
        rw [(hmarked hsent).mpr hforgets] at hmark
        cases hmark

end Report

/-- A call whose `tools/call` request is answered with an open stream; the request the SDK issues
next is refused, because the name of the server now resolves to a forbidden address. -/
def refusedAfterwards : CallTrace where
  handshake := [.answered 200 false]
  call := [.answered 200 false, .refused]
  closing := []
  ending := .raised [.remote mcpTargetForbidden]

/-- **A call that was handed on and is reported as not dispatched**, and as a failed action. -/
theorem dispatched_reported_failed : SentInCall refusedAfterwards ∧
    ∀ limits, ∃ o, callTool limits refusedAfterwards = some o ∧ o.status = .failed ∧
      o.dispatch = .notDispatched ∧ (executeWrite o).status = .failed :=
  ⟨⟨.answered 200 false, by simp [refusedAfterwards], rfl⟩,
    fun _ => ⟨_, rfl, by decide, by decide, by decide⟩⟩

end AgentHub.Mcp

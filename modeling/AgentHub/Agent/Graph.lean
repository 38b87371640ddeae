import AgentHub.Lib.System
import AgentHub.Run.Row
import AgentHub.Transcript.Messages

/-!
# The agent graph

The nodes that answer one run, from the first model call on: the model is called, its tool calls
are proposed, routed by the policy, executed and observed, and the model is called again. The policy
is interrupted for every approval it asks for, and executed again from its start when the run is
resumed. Between the nodes others may write the row of the run; that they do not set a run running
that was asked to stop is assumed here. What the model, the approvals and the tools answer is
arbitrary; of the observations only the code that ends the run is kept.

## Main definitions

* `AgentRunState`, `model`, `toolProposal`, `policy`, `actionExecute`, `observation`: the state of
  the graph and its nodes
* `graph`: the system of the nodes, their routes and the writes to the row
-/

namespace AgentHub.Agent

open Lib Run Transcript

abbrev Call := ModelToolCall Arguments

structure ModelResponse where
  content : Text
  toolCalls : List Call
  finishReason : Option String

/-- The limits, the published tools with whether they need an approval, and the hash of a call. -/
structure Runtime where
  maxSteps : ℕ
  maxToolCalls : ℕ
  maxIdenticalCalls : ℕ
  requiresApproval : Text → Option Bool
  signature : Text → Arguments → Text

/-- The values of `run_status`. -/
inductive Stop
  | cancelled | needsAttention

/-- The state of the graph. `identicalCalls` has every hash as often as `identical_call_counts`
counts it. -/
structure AgentRunState where
  modelRoundCount : ℕ := 0
  toolCallCount : ℕ := 0
  identicalCalls : List Text := []
  modelResponse : Option ModelResponse := none
  finalOutput : Option Text := none
  pendingToolCalls : List Call := []
  actionCalls : List Call := []
  failureCode : Option String := none
  runStatus : Option Stop := none

def AgentRunState.fail (s : AgentRunState) (code : String) : AgentRunState :=
  { s with failureCode := some code }

def AgentRunState.needAttention (s : AgentRunState) (code : String) : AgentRunState :=
  { s with failureCode := some code, runStatus := some .needsAttention }

/-- `_stop_if_requested`: what a node returns at once. -/
def stopIfRequested (status : RunStatus) (s : AgentRunState) : Option AgentRunState :=
  match status with
  | .cancelRequested | .cancelled => some { s with runStatus := some .cancelled }
  | .needsAttention => some (s.needAttention "ACTION_RECONCILIATION_REQUIRED")
  | _ => none

/-! ## The nodes, when they are not to stop -/

/-- How the guards, the admission and the gateway end before there is a response. -/
inductive ModelOutcome
  | costGuard (code : String)
  | error (code : String) (needsAttention : Bool)
  | response (response : ModelResponse)

variable (runtime : Runtime)

def model (s : AgentRunState) (outcome : ModelOutcome) : AgentRunState :=
  if runtime.maxSteps ≤ s.modelRoundCount then s.fail "AGENT_MAX_STEPS_EXCEEDED"
  else
    let next := { s with modelRoundCount := s.modelRoundCount + 1 }
    match outcome with
    | .costGuard code => s.needAttention code
    | .error code needsAttention =>
      if needsAttention then next.needAttention code else next.fail code
    | .response response =>
      if response.toolCalls = [] ∧ strip CodePoint.isSpace response.content = [] then
        next.fail (if response.finishReason = some "content_filter" ∨
            response.finishReason = some "refusal" then "MODEL_PROVIDER_REFUSED"
          else "AGENT_MODEL_EMPTY_RESPONSE")
      else if response.finishReason = some "length" then next.fail "MODEL_OUTPUT_TRUNCATED"
      else { next with
        modelResponse := some response
        finalOutput := if response.toolCalls = [] then some response.content else none }

/-- The hashes counted after the calls, unless one is counted too often; a call without a name is
invalid and not counted. -/
def countCalls (counted : List Text) : List Call → Option (List Text)
  | [] => some counted
  | call :: calls =>
    if call.name = [] then countCalls counted calls
    else
      let signature := runtime.signature call.name call.arguments
      if runtime.maxIdenticalCalls < (signature :: counted).count signature then none
      else countCalls (signature :: counted) calls

def toolProposal (s : AgentRunState) : AgentRunState :=
  match s.modelResponse with
  | none => s.fail "AGENT_MODEL_EMPTY_RESPONSE"
  | some response =>
    let next := { s with toolCallCount := s.toolCallCount + response.toolCalls.length }
    match countCalls runtime s.identicalCalls response.toolCalls with
    | none => next.fail "AGENT_IDENTICAL_TOOL_CALL_LIMIT"
    | some counted =>
      if runtime.maxToolCalls < next.toolCallCount then next.fail "AGENT_MAX_TOOL_CALLS_EXCEEDED"
      else { next with pendingToolCalls := response.toolCalls, identicalCalls := counted }

/-- What the approval of a call comes to. -/
inductive Verdict
  | notAvailable | invalid | waiting | denied | approved

/-- The calls the policy allows and those it has approved as actions. -/
structure Routed where
  allowed : List Call := []
  actions : List Call := []

/-- The loop of `policy`, which returns nothing when an approval waits. Calls that are invalid,
unknown or denied are answered without being executed. -/
def routeCalls (verdict : ℕ → Verdict) : ℕ → List Call → Except String (Option Routed)
  | _, [] => .ok (some {})
  | index, call :: calls =>
    let rest := routeCalls verdict (index + 1) calls
    if call.name = [] then rest
    else match runtime.requiresApproval call.name with
      | none => rest
      | some false => rest.map (Option.map fun r => { r with allowed := call :: r.allowed })
      | some true =>
        match verdict index with
        | .notAvailable => .error "TOOL_APPROVAL_NOT_AVAILABLE"
        | .invalid => .error "TOOL_ARGUMENT_INVALID"
        | .waiting => .ok none
        | .denied => rest
        | .approved => rest.map (Option.map fun r => { r with actions := call :: r.actions })

def policy (s : AgentRunState) (verdict : ℕ → Verdict) : AgentRunState :=
  match routeCalls runtime verdict 0 s.pendingToolCalls with
  | .error code => s.fail code
  | .ok none => s
  | .ok (some r) => { s with pendingToolCalls := r.allowed, actionCalls := r.actions }

/-- What happens to one approved action. -/
inductive ActionOutcome
  | notConfigured
  | needsAttention (code : String)
  | executed

/-- `action_execute`, one action at a time: the status of the run is read before each. -/
def actionExecute (s : AgentRunState) : ActionOutcome → AgentRunState
  | .notConfigured => s.fail "ACTION_RUNTIME_NOT_CONFIGURED"
  | .needsAttention code => s.needAttention code
  | .executed => { s with actionCalls := s.actionCalls.tail }

/-- `observation`, with the last of the errors of the tools that end a run. -/
def observation (s : AgentRunState) (terminalCode : Option String) : AgentRunState :=
  { s with pendingToolCalls := [], failureCode := terminalCode.or s.failureCode }

/-! ## The system -/

inductive Node
  | model | toolProposal | policy | readExecute | actionExecute | observation | finish
  deriving DecidableEq

def afterModel (s : AgentRunState) : Node :=
  if s.failureCode.isSome ∨ s.finalOutput.isSome then .finish else .toolProposal

def afterProposal (s : AgentRunState) : Node := if s.failureCode.isSome then .finish else .policy

def afterPolicy (s : AgentRunState) : Node :=
  if s.failureCode.isSome ∨ s.runStatus.isSome then .finish
  else if s.actionCalls = [] then .readExecute else .actionExecute

def afterRead (_ : AgentRunState) : Node := .observation

def afterAction (s : AgentRunState) : Node :=
  if s.failureCode.isSome ∨ s.runStatus.isSome ∨ s.actionCalls = [] then .observation
  else .actionExecute

def afterObservation (s : AgentRunState) : Node :=
  if s.failureCode.isSome then .finish else .model

/-- The status `finish` records. -/
def finishStatus (s : AgentRunState) : RunStatus :=
  match s.runStatus with
  | some .cancelled => .cancelled
  | some .needsAttention => .needsAttention
  | none => if s.failureCode.isSome then .failed else .succeeded

/-- The node to be executed, the status of the run's row, the state of the graph, and the calls
that were handed to a tool or an action. -/
structure Progress where
  node : Node := .model
  status : RunStatus := .running
  state : AgentRunState := {}
  handled : List Call := []

/-- The statuses on which a node does nothing. -/
def stops : RunStatus → Bool
  | .cancelRequested | .cancelled | .needsAttention => true
  | _ => false

/-- A node is executed with what its surroundings answer, `policy` is interrupted for an approval, or
others write the row. -/
inductive Event
  | model (outcome : ModelOutcome)
  | toolProposal
  | interrupt
  | policy (verdict : ℕ → Verdict)
  | readExecute
  | actionExecute (outcome : ActionOutcome)
  | observation (terminalCode : Option String)
  | write (status : RunStatus)

variable (p : Progress)

/-- The call is published and needs an approval. -/
def asksApproval (call : Call) : Bool :=
  call.name ≠ [] ∧ runtime.requiresApproval call.name = some true

/-- The progress after a node, which checks first whether it is to stop. -/
def Progress.after (node : Node) (next : AgentRunState) (route : AgentRunState → Node)
    (calls : List Call := []) : Option Progress :=
  let state := (stopIfRequested p.status p.state).getD next
  if p.node = node then
    some { p with
      node := route state
      state := state
      handled := p.handled ++ if stops p.status then [] else calls }
  else none

def step : Event → Option Progress
  | .model outcome => p.after .model (model runtime p.state outcome) afterModel
  | .toolProposal => p.after .toolProposal (toolProposal runtime p.state) afterProposal
  -- the policy has asked for an approval, and nothing it did is kept
  | .interrupt =>
    if p.node = .policy ∧ stops p.status = false ∧ p.state.pendingToolCalls.any (asksApproval runtime)
    then some p else none
  | .policy verdict => p.after .policy (policy runtime p.state verdict) afterPolicy
  | .readExecute => p.after .readExecute p.state afterRead p.state.pendingToolCalls
  | .actionExecute outcome =>
    p.after .actionExecute (actionExecute p.state outcome) afterAction
      (p.state.actionCalls.take 1)
  | .observation terminalCode =>
    let state := observation p.state terminalCode
    if p.node = .observation then some { p with node := afterObservation state, state := state }
    else none
  | .write status =>
    if stops p.status ∧ stops status = false then none else some { p with status := status }

/-- The graph of a run. -/
def graph : System Progress Event where
  init p := p = {}
  step := step runtime

end AgentHub.Agent

import AgentHub.Context.Contracts
import AgentHub.Lib.JsonText

/-!
# Estimates and limits

How many tokens a text, a message, a tool or a JSON value counts for, and how many the frozen
model chain leaves for input.

## Main definitions

* `estimateText`, `estimateMessage`, `estimateTool`, `jsonEstimate`: estimates
* `effectiveContextLimit`, `effectiveReservedOutput`, `availableInput`: limits

## Main results

* `loads_of_jsonDumps`: what is written is read back
-/

namespace AgentHub.Context

open Lib Transcript

/-- `_json_dumps`; a value that is no JSON raises. -/
def jsonDumps (value : Json) : Except PythonError Text :=
  match value.dumps compact with
  | some text => .ok text
  | none => .error (.valueError "Out of range float values are not JSON compliant")

/-- **What is written is read back**, up to the order of members. -/
theorem loads_of_jsonDumps {ε : Type} {L : Loader ε}
    (hhook : ∀ kvs : List (Text × Json), (kvs.map Prod.fst).Nodup →
      L.objectPairsHook kvs = .ok kvs) {value : Json} {text : Text}
    (hkeys : value.allAt Json.distinctKeys 0) (h : jsonDumps value = .ok text) :
    loads L text = .ok value.sorted := by
  unfold jsonDumps at h
  split at h
  · next hdumps =>
    obtain ⟨hwritable, rfl⟩ := Json.dumps_eq_some.mp hdumps
    obtain rfl := Except.ok.inj h
    refine loads_render hhook (Json.allAt_and (Json.allAt_writable_sorted.mpr hwritable) ?_)
    exact (Json.allAt_sorted (fun _ _ => rfl) Json.distinctKeys_sortMembers).mpr hkeys
  · cases h

section Policy

variable (policy : ContextBudgetPolicy)

/-! ## Estimates -/

/-- The value of the estimator, which must not be negative. -/
def checkedEstimate (text : Text) : Except PythonError ℕ := do
  raiseIf (policy.estimator text < 0)
    (.valueError "TokenEstimator.estimate must return a non-negative integer")
  .ok (policy.estimator text).toNat

/-- `_estimate_text` -/
def estimateText (text : Text) : Except PythonError ℕ := do
  let value ← checkedEstimate policy text
  raiseIf (policy.contextPolicy.isSome ∧ text ≠ [] ∧ value = 0)
    (.valueError "TokenEstimator.estimate must count non-empty text")
  .ok value

/-- `_protocol_overhead` -/
def protocolOverhead (overhead : Counter → ℕ) : ℕ :=
  match policy.contextPolicy with
  | none => 0
  | some frozen => if frozen.counter.includesProtocolOverhead then 0 else overhead frozen.counter

/-- The estimate of a field that counts only when it is there and not empty. -/
def estimateField (text : Option Text) : Except PythonError ℕ :=
  if text.getD [] = [] then .ok 0 else estimateText policy (text.getD [])

/-- The estimate of a tool call. -/
def estimateCall (call : ModelToolCall JsonObject) : Except PythonError ℕ := do
  let name ← estimateText policy call.name
  let arguments ← jsonDumps (.obj call.arguments)
  let arguments ← estimateText policy arguments
  let id ← estimateField policy call.providerToolCallId
  .ok (name + arguments + id)

/-- `_estimate_message` -/
def estimateMessage (message : ModelMessage JsonObject) : Except PythonError ℕ := do
  let content ← estimateText policy (message.content.getD [])
  let name ← estimateField policy message.name
  let toolCallId ← estimateField policy message.toolCallId
  let calls ← message.toolCalls.mapM (estimateCall policy)
  .ok (content + protocolOverhead policy Counter.messageOverheadTokens + name + toolCallId +
    calls.sum)

/-- `_estimate_tool` -/
def estimateTool (tool : ModelToolDefinition) : Except PythonError ToolEstimate := do
  let name ← estimateText policy tool.name
  let description ← estimateText policy (tool.description.getD [])
  let parameters ← jsonDumps (.obj tool.parameters)
  let schema ← estimateText policy parameters
  .ok ⟨tool.name, name + description + schema + protocolOverhead policy Counter.toolOverheadTokens,
    name, description, schema⟩

/-- `_json_estimate` -/
def jsonEstimate (value : Json) : Except PythonError ℕ := do
  let text ← jsonDumps value
  checkedEstimate policy text

/-! ## Limits -/

/-- The window a profile declares. -/
def profileContextLimit (profile : Profile) : Except ContextError ℕ :=
  match profile.maxContextTokens with
  | none => .error (.contextLimitUnavailable
      "Every frozen primary and fallback model profile must declare max_context_tokens.")
  | some limit => do
    raiseIf (limit ≤ 0) (.contextLimitUnavailable
      "Frozen model max_context_tokens must be a positive integer.")
    .ok limit.toNat

/-- `_effective_context_limit`: `none` where a policy does not know the whole window. -/
def effectiveContextLimit : Except ContextError (Option ℕ) :=
  match policy.contextPolicy with
  | some frozen => .ok frozen.minTotalContextTokens
  | none => do
    raiseIf (policy.profiles = [])
      (.contextLimitUnavailable "No frozen model profiles were provided.")
    let limits ← policy.profiles.mapM profileContextLimit
    .ok limits.min?

def reservedOutputTooLarge : ContextError :=
  .budgetExceeded "Reserved output tokens must be smaller than the effective context limit."

/-- The output a profile reserves. -/
def profileMaxTokens (profile : Profile) : Except ContextError ℕ :=
  match profile.maxTokens with
  | some value => do
    raiseIf (value < 0)
      (.budgetExceeded "Frozen model max_tokens must be a non-negative integer.")
    .ok value.toNat
  | none => .error (.budgetExceeded "Frozen model max_tokens must be a non-negative integer.")

/-- `_effective_reserved_output` -/
def effectiveReservedOutput : Except ContextError ℕ :=
  match policy.contextPolicy with
  | some frozen => .ok frozen.reservedOutputTokens
  | none => do
    let outputs ← policy.profiles.mapM profileMaxTokens
    let maximum := outputs.foldl max policy.config.reservedOutputTokens
    let limit ← effectiveContextLimit policy
    raiseIf (∃ l ∈ limit, l ≤ maximum) reservedOutputTooLarge
    .ok maximum

/-- The input that is left, as `_admit_normalized` computes it. -/
def availableInput (contextLimit : Option ℕ) (reservedOutput : ℕ) : Except ContextError ℕ :=
  match policy.contextPolicy, contextLimit with
  | some frozen, _ => .ok frozen.inputLimitTokens
  | none, some limit =>
    if reservedOutput < limit then .ok (limit - reservedOutput) else .error reservedOutputTooLarge
  | none, none => .error reservedOutputTooLarge

end Policy

end AgentHub.Context

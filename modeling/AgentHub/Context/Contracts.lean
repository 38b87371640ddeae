import AgentHub.Lib.Grouping
import AgentHub.Transcript.Payload
import Mathlib.Data.Rat.Defs

/-!
# Contracts of context admission

What goes into the admission of a context and what comes out: categorised messages, the budget
configuration, a frozen model chain or context policy, and the admitted messages with their usage.
Structures carry what their constructors check.

Tool arguments and schemas are JSON objects. The two projections of retrieval evidence are
functions of the policy here, arbitrary ones.

## Main definitions

* `ContextCategory`, `ContextMessage`, `ModelToolDefinition`: the input
* `ContextBudgetConfig`, `ContextPolicy`, `ContextBudgetPolicy`: the configuration
* `ContextError`: what is raised
* `ContextBudgetUsage`, `MemoryAdmission`, `ContextAdmissionResult`: the output
-/

namespace AgentHub.Context

open Lib Transcript

/-! ## Categories -/

inductive ContextCategory
  | runtimePolicy | systemPrompt | currentUserTask | toolDefinitions
  | ragEvidence | toolResult | conversation | memory
  deriving DecidableEq, Repr

namespace ContextCategory

def all : List ContextCategory :=
  [runtimePolicy, systemPrompt, currentUserTask, toolDefinitions, ragEvidence, toolResult,
    conversation, memory]

/-- `_MANDATORY_CATEGORIES` -/
def isMandatory : ContextCategory → Bool
  | runtimePolicy | systemPrompt | currentUserTask | toolDefinitions => true
  | _ => false

/-- `_PROJECTABLE_CATEGORIES` -/
def isProjectable : ContextCategory → Bool
  | ragEvidence | toolResult | memory => true
  | _ => false

/-- `_UNTRUSTED_CATEGORIES` -/
def isUntrusted : ContextCategory → Bool
  | toolResult | memory => true
  | _ => false

end ContextCategory

/-! ## Errors -/

/-- `_ToolEstimate` -/
structure ToolEstimate where
  toolName : Text
  total : ℕ
  name : ℕ
  description : ℕ
  schema : ℕ
  deriving DecidableEq

/-- What the interpreter raises. -/
inductive PythonError
  | valueError (message : String)
  | typeError (message : String)
  | keyError
  | indexError
  deriving DecidableEq, Repr

/-- What admission raises: the application's errors by their codes, and the interpreter's. -/
inductive ContextError
  /-- `AGENT_CONTEXT_BUDGET_EXCEEDED` -/
  | budgetExceeded (message : String)
  /-- The same code, with a text that lists the estimates. -/
  | mandatoryOverflow (mandatoryTotal availableInput : ℕ) (toolEstimates : List ToolEstimate)
  /-- `AGENT_CONTEXT_LIMIT_UNAVAILABLE` -/
  | contextLimitUnavailable (message : String)
  /-- `AGENT_MEMORY_PAYLOAD_INVALID` -/
  | memoryPayloadInvalid
  | python (error : PythonError)
  deriving DecidableEq

/-- An exception of the interpreter passes through. -/
def passing {α : Type} (x : Except PythonError α) : Except ContextError α :=
  x.mapError .python

@[simp] theorem passing_eq_ok {α : Type} {x : Except PythonError α} {a : α} :
    passing x = .ok a ↔ x = .ok a := by
  cases x <;> simp [passing, Except.mapError]

/-! ## Input -/

structure ModelToolDefinition where
  name : Text
  parameters : JsonObject
  description : Option Text

/-- A message with its category, and the exchange it belongs to. Groups are keys of any type. -/
structure ContextMessage (G : Type) where
  message : ModelMessage JsonObject
  category : ContextCategory
  exchangeGroup : Option G

/-! ## Configuration -/

structure ContextBudgetConfig where
  reservedOutputTokens : ℕ := 2000
  maxRetrievalTokens : ℕ := 5000
  maxToolResultTokens : ℕ := 4000
  /-- Without a cap of its own, memory shares the pool of retrieval evidence. -/
  maxMemoryTokens : Option ℕ := none
  deriving DecidableEq, Repr

/-- The token counter a policy was frozen with. -/
structure Counter where
  id : Text
  version : ℕ
  includesProtocolOverhead : Bool
  requestOverheadTokens : ℕ
  messageOverheadTokens : ℕ
  toolOverheadTokens : ℕ
  deriving DecidableEq, Repr

/-- The token cutoffs a policy was frozen with. -/
structure PolicyThresholds where
  soft : ℕ
  hard : ℕ
  target : ℕ
  deriving DecidableEq, Repr

/-- The part of a validated `adaptive_context_v1` policy that admission and history planning
read. -/
structure ContextPolicy where
  inputLimitTokens : ℕ
  modelAvailableInputTokens : ℕ
  minTotalContextTokens : Option ℕ
  reservedOutputTokens : ℕ
  counter : Counter
  thresholds : PolicyThresholds
  /-- `none` where the policy leaves the default. -/
  retainedRecentTurns : Option ℕ
  maxHistoryGroups : Option ℕ
  limit_pos : 0 < inputLimitTokens
  limit_le : inputLimitTokens ≤ modelAvailableInputTokens

/-- A frozen model profile; `none` stands for what is missing or no integer. -/
structure Profile where
  maxContextTokens : Option ℤ
  maxTokens : Option ℤ
  deriving DecidableEq, Repr

/-- An estimator of tokens. -/
abbrev TokenEstimator := Text → ℤ

/-- A policy: the profiles of the frozen chain, the budgets and the estimator. -/
structure ContextBudgetPolicy where
  profiles : List Profile
  config : ContextBudgetConfig
  estimator : TokenEstimator
  contextPolicy : Option ContextPolicy
  /-- `reproject_evidence_view` with the estimator of the policy. -/
  reprojectEvidenceView : JsonObject → ℕ → Except PythonError (Option JsonObject)
  /-- `reproject_rag_evidence_payload` with the estimator of the policy. -/
  reprojectRagEvidencePayload : JsonObject → ℕ → Except PythonError (Option JsonObject)

/-! ## Output -/

/-- The counts of an admission. -/
structure UsageCounts where
  contextLimit : Option ℕ
  reservedOutput : ℕ
  availableInput : ℕ
  estimatedInputBefore : ℕ
  estimatedInputAfter : ℕ
  truncated : Bool
  droppedExchangeCount : ℕ
  estimatedByCategory : ContextCategory → ℕ
  retainedByCategory : ContextCategory → ℕ
  truncatedByCategory : ContextCategory → ℕ
  /-- A float in the source. -/
  windowUtilization : ℚ
  /-- The input the models of an `adaptive_context_v1` policy leave; `none` without one. -/
  modelAvailableInput : Option ℕ

/-- The available input is what the window leaves, or within what the policy's models leave. -/
def UsageCounts.windowFault (u : UsageCounts) : Option String :=
  match u.modelAvailableInput, u.contextLimit with
  | none, none => some "reserved output cannot exceed context limit"
  | none, some limit =>
    if u.reservedOutput > limit then some "reserved output cannot exceed context limit"
    else if u.availableInput ≠ limit - u.reservedOutput then
      some "available input must equal context limit minus reserved output"
    else none
  | some available, _ =>
    if 0 < u.availableInput ∧ u.availableInput ≤ available then none
    else some "adaptive input must fit its frozen model intersection"

/-- `ContextBudgetUsage`, as its constructor admits it. -/
structure ContextBudgetUsage extends UsageCounts where
  window : toUsageCounts.windowFault = none
  fits : estimatedInputAfter ≤ availableInput

/-- `ContextBudgetUsage(...)` -/
def ContextBudgetUsage.new (u : UsageCounts) : Except PythonError ContextBudgetUsage :=
  match h : u.windowFault with
  | some message => .error (.valueError message)
  | none =>
    if hfits : u.estimatedInputAfter ≤ u.availableInput then .ok ⟨u, h, hfits⟩
    else .error (.valueError "admitted input cannot exceed available input")

/-- Why a memory was dropped. -/
inductive DropReason
  | memoryPoolBudget | contextWindowBudget
  deriving DecidableEq, Repr

/-- `MemoryAdmission`, as its constructor admits it. -/
structure MemoryAdmission where
  selectedIds : List Text
  admittedIds : List Text
  droppedReasons : List (Text × DropReason)
  selected_nodup : selectedIds.Nodup
  admitted_nodup : admittedIds.Nodup
  admitted_subset : admittedIds ⊆ selectedIds
  /-- One reason for each dropped memory, in the order of selection. -/
  reasons : droppedReasons.map Prod.fst = selectedIds.filter fun id => id ∉ admittedIds

/-- `MemoryAdmission(...)`. The reasons are put into the order of selection. -/
def MemoryAdmission.new (selectedIds admittedIds : List Text)
    (droppedReasons : List (Text × DropReason)) : Except PythonError MemoryAdmission :=
  if hs : ¬ selectedIds.Nodup then
    .error (.valueError "selected_ids must not contain duplicate ids")
  else if ha : ¬ admittedIds.Nodup then
    .error (.valueError "admitted_ids must not contain duplicate ids")
  else if hsub : ¬ admittedIds ⊆ selectedIds then
    .error (.valueError "admitted_ids must be a subset of selected_ids")
  else
    let ordered := selectedIds.filterMap fun id =>
      (Json.get? droppedReasons id).map fun reason => (id, reason)
    if hr : ordered.map Prod.fst = (selectedIds.filter fun id => id ∉ admittedIds) ∧
        ∀ id ∈ droppedReasons.map Prod.fst, id ∈ selectedIds then
      .ok ⟨selectedIds, admittedIds, ordered, not_not.mp hs, not_not.mp ha, not_not.mp hsub, hr.1⟩
    else .error (.valueError "dropped_reasons must contain exactly one reason per dropped id")

/-- `ContextAdmissionResult` -/
structure ContextAdmissionResult where
  messages : List (ModelMessage JsonObject)
  toolDefinitions : List ModelToolDefinition
  usage : ContextBudgetUsage
  messageCategories : List ContextCategory
  memoryAdmission : Option MemoryAdmission

end AgentHub.Context

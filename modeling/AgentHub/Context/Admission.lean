import AgentHub.Context.Memory
import AgentHub.Context.Projection
import AgentHub.Lib.Fitting

/-!
# Context admission

Categorised messages against the input that a frozen model chain leaves. Mandatory messages and
tools come first. Memory, retrieval evidence and tool results are projected into their pools.
Exchanges are then admitted whole: conversation from the newest on, and after it what else still
fits.

## Main definitions

* `GroupKey`, `NormalizedMessage.group`: the exchange a message belongs to
* `normalizeMessages`: messages with their categories, and the checks on their groups
* `projectOptionalItems`: the pools
* `selectItems`: the exchanges that are admitted
* `selectContext`, `admitNormalized`, `admit`: the whole admission
-/

namespace AgentHub.Context

open Lib Transcript

variable {G : Type}

/-! ## Groups -/

/-- The key of a group. A message without an exchange is a group of its own; no key of a caller is
the key of such a group. -/
inductive GroupKey (G : Type)
  | exchange (group : G)
  | ungrouped (index : ℕ)
  deriving DecidableEq

/-- The group of a message at a position. -/
def ContextMessage.groupAt (m : ContextMessage G) (index : ℕ) : GroupKey G :=
  match m.exchangeGroup with
  | some group => .exchange group
  | none => .ungrouped index

def NormalizedMessage.group (m : NormalizedMessage G) : GroupKey G := m.item.groupAt m.index

/-! ## Normalised messages -/

/-- A message as a caller passes it: with its metadata inline, or without. -/
inductive MessageInput (G : Type)
  | raw (message : ModelMessage JsonObject)
  | inline (item : ContextMessage G)

/-- Metadata beside the messages. -/
inductive Metadata (α : Type)
  | sequence (values : List α)
  | mapping (values : List (ℤ × α))

/-- `_metadata_length` -/
def Metadata.length {α : Type} : Metadata α → ℕ
  | .sequence values => values.length
  | .mapping values => values.length

/-- `_metadata_at` -/
def Metadata.at {α : Type} (index : ℕ) : Metadata α → Except PythonError α
  | .sequence values =>
    match values[index]? with
    | some value => .ok value
    | none => .error .indexError
  | .mapping values =>
    match values.lookup (index : ℤ) with
    | some value => .ok value
    | none => .error (.valueError s!"metadata is missing index {index}")

/-- An assistant message with tool calls. -/
def isToolCall (m : ModelMessage JsonObject) : Bool :=
  m.role = .assistant && !m.toolCalls.isEmpty

section Normalize

variable [DecidableEq G] (categories : Option (Metadata ContextCategory))
  (exchangeGroups : Option (Metadata (Option G)))

/-- One message with its category and group. -/
def resolveMessage (index : ℕ) : MessageInput G → Except PythonError (ContextMessage G)
  | .inline item => do
    let category ← categories.mapM (Metadata.at index)
    raiseIf (∃ c ∈ category, c ≠ item.category)
      (.valueError "inline category conflicts with categories")
    let group ← exchangeGroups.mapM (Metadata.at index)
    raiseIf (∃ g ∈ group, g ≠ item.exchangeGroup)
      (.valueError "inline exchange_group conflicts with exchange_groups")
    .ok item
  | .raw message =>
    match categories with
    | none => .error (.valueError
        "categories are required for raw messages; context categories must be explicit")
    | some categories => do
      let category ← categories.at index
      let group ← exchangeGroups.mapM (Metadata.at index)
      .ok ⟨message, category, group.getD none⟩

/-- The messages with their categories and groups. -/
def resolveMessages (values : List (MessageInput G)) :
    Except PythonError (List (ContextMessage G)) := do
  raiseIf (∃ c ∈ categories, values.length ≠ c.length)
    (.valueError "categories must contain one value per message")
  raiseIf (∃ g ∈ exchangeGroups, values.length ≠ g.length)
    (.valueError "exchange_groups must contain one value per message")
  values.zipIdx.mapM fun p => resolveMessage categories exchangeGroups p.2 p.1

/-- `_validate_atomic_tool_groups` -/
def validateAtomicToolGroups (messages : List (ContextMessage G)) : Except PythonError Unit :=
  raiseIf (∃ g ∈ groupsOf (fun p : ContextMessage G × ℕ => p.1.groupAt p.2) messages.zipIdx,
      (g.members.any fun p => p.1.message.role = .tool) ∧
        ¬ g.members.any fun p => isToolCall p.1.message)
    (.valueError
      "tool observations must share an explicit exchange_group with an assistant tool call")

/-- `_normalize_messages` -/
def normalizeMessages (values : List (MessageInput G)) :
    Except PythonError (List (ContextMessage G)) := do
  let messages ← resolveMessages categories exchangeGroups values
  validateAtomicToolGroups messages
  .ok messages

end Normalize

/-! ## Pools -/

/-- The item with what its projection gave, which is admitted within what remains of the pool. -/
def NormalizedMessage.charged (item : NormalizedMessage G) (remaining : ℕ)
    (admitted : Option (ModelMessage JsonObject × ℕ)) : NormalizedMessage G :=
  match admitted with
  | some (message, tokens) =>
    if tokens ≤ remaining then
      { item with admittedMessage := some message, admittedTokens := tokens }
    else { item with admittedMessage := none, admittedTokens := 0 }
  | none => { item with admittedMessage := none, admittedTokens := 0 }

/-- The memory item with what its projection gave. -/
def NormalizedMessage.withMemory (item : NormalizedMessage G) (remaining : ℕ)
    (projection : MemoryProjection) : NormalizedMessage G :=
  { item.charged remaining projection.admitted with
    memoryAdmittedIds := projection.admittedIds
    memoryPoolDroppedIds := projection.poolDroppedIds
    memoryTruncated := projection.truncated }

section Policy

variable (policy : ContextBudgetPolicy)

/-- The memories in order, under what remains of their pool, with what is left of it. Once one
message of them is truncated, so are those after it. -/
def projectMemories (payloads : List (ℕ × MemoryPayload)) :
    ℕ → Bool → List (NormalizedMessage G) → Except PythonError (List (NormalizedMessage G) × ℕ)
  | remaining, _, [] => .ok ([], remaining)
  | remaining, groupTruncated, item :: items =>
    match payloads.lookup item.index with
    | none => .error .keyError
    | some payload => do
      let projection ←
        projectMemoryMessage policy item.item.message remaining payload groupTruncated
      let projected := item.withMemory remaining projection
      let (rest, left) ← projectMemories payloads (remaining - projected.admittedTokens)
        (groupTruncated || projection.truncated) items
      .ok (projected :: rest, left)

/-- The items of another category in turn, under what remains of its pool. -/
def projectPool (category : ContextCategory) :
    ℕ → List (NormalizedMessage G) → Except PythonError (List (NormalizedMessage G))
  | _, [] => .ok []
  | remaining, item :: items => do
    let admitted ← projectMessage policy item.item.message remaining category
    let projected := item.charged remaining admitted
    let rest ← projectPool category (remaining - projected.admittedTokens) items
    .ok (projected :: rest)

def ofCategory (items : List (NormalizedMessage G)) (category : ContextCategory) :
    List (NormalizedMessage G) :=
  items.filter fun item => item.category = category

/-- A projectable item is what its pool made of it; any other is admitted as it is. -/
def placeItem (projected : List (NormalizedMessage G)) (item : NormalizedMessage G) :
    Except PythonError (NormalizedMessage G) :=
  if item.category.isProjectable then
    match projected.find? fun p => p.index = item.index with
    | some p => .ok p
    | none => .error .keyError
  else .ok { item with admittedMessage := some item.item.message, admittedTokens := item.rawTokens }

/-- `_project_optional_items`. Evidence and tool results come newest first. Without a cap of its
own, memory takes from the pool of retrieval evidence. -/
def projectOptionalItems (payloads : List (ℕ × MemoryPayload))
    (items : List (NormalizedMessage G)) : Except PythonError (List (NormalizedMessage G)) := do
  let config := policy.config
  let (memories, left) ← projectMemories policy payloads
    (config.maxMemoryTokens.getD config.maxRetrievalTokens) false (ofCategory items .memory)
  let evidencePool := if config.maxMemoryTokens.isSome then config.maxRetrievalTokens else left
  let evidence ← projectPool policy .ragEvidence evidencePool
    (ofCategory items .ragEvidence).reverse
  let results ← projectPool policy .toolResult config.maxToolResultTokens
    (ofCategory items .toolResult).reverse
  items.mapM (placeItem (memories ++ evidence ++ results))

end Policy

/-! ## Selection -/

/-- An exchange: the items of a group. -/
abbrev Exchange (G : Type) := Group (GroupKey G) (NormalizedMessage G)

section Select

/-- The exchanges of the items that are not mandatory. -/
def exchanges [DecidableEq G] (items : List (NormalizedMessage G)) : List (Exchange G) :=
  groupsOf NormalizedMessage.group (items.filter fun item => !item.category.isMandatory)

variable (g : Exchange G)

def groupTokens : ℕ := (g.members.map NormalizedMessage.admittedTokens).sum

def firstIndex : ℕ := g.first.index

def isConversation : Bool := g.members.any fun item => item.category = .conversation

/-- Every message of the exchange has a projection. -/
def isEligible : Bool := g.members.all fun item => item.admittedMessage.isSome

/-- The newest conversation exchange has to be admitted. -/
def checkNewest (budget : ℕ) (conversation : List (Exchange G)) : Except ContextError Unit :=
  match conversation.argmax firstIndex with
  | none => .ok ()
  | some newest => do
    raiseIf (isEligible newest = false) (.budgetExceeded
      "The newest conversation exchange could not be admitted atomically.")
    raiseIf (groupTokens newest > budget) (.budgetExceeded
      "The newest conversation exchange cannot fit in the available input budget.")

/-- The exchanges selected within a budget: of the eligible conversation the newest, and then what
else still fits, in order. -/
def selectedGroups [DecidableEq G] (budget : ℕ) (groups : List (Exchange G)) :
    List (Exchange G) :=
  let eligible := (groups.filter isConversation).filter isEligible
  let kept := shed Group.key firstIndex groupTokens budget (eligible.map groupTokens).sum eligible
  let standalone := (groups.insertionSort fun g h => firstIndex g ≤ firstIndex h).filter fun g =>
    !isConversation g && isEligible g
  kept.1 ++ fill groupTokens (budget - kept.2) standalone

/-- `_select_items` -/
def selectItems [DecidableEq G] (items : List (NormalizedMessage G))
    (mandatoryTotal availableInput : ℕ) :
    Except ContextError (List (NormalizedMessage G) × ℕ) := do
  let budget := availableInput - mandatoryTotal
  let groups := exchanges items
  checkNewest budget (groups.filter isConversation)
  let keys := (selectedGroups budget groups).map Group.key
  .ok (items.filter fun item => item.category.isMandatory || item.group ∈ keys,
    (groups.filter isConversation).countP fun g => g.key ∉ keys)

end Select

/-! ## Admission -/

/-- What admission has computed once the items are selected. -/
structure Selection (G : Type) where
  contextLimit : Option ℕ
  reservedOutput : ℕ
  availableInput : ℕ
  requestOverhead : ℕ
  toolEstimates : List ToolEstimate
  rawItems : List (NormalizedMessage G)
  projected : List (NormalizedMessage G)
  selected : List (NormalizedMessage G)
  droppedExchangeCount : ℕ

/-- The tokens of tool definitions. -/
def toolTokens (toolEstimates : List ToolEstimate) : ℕ := (toolEstimates.map ToolEstimate.total).sum

/-- The sum over the items of a category, with tools and overhead where they count. -/
def byCategory (tools overhead : ℕ) (items : List (NormalizedMessage G))
    (tokens : NormalizedMessage G → ℕ) (category : ContextCategory) : ℕ :=
  ((ofCategory items category).map tokens).sum +
      (if category = .toolDefinitions then tools else 0) +
    if category = .runtimePolicy then overhead else 0

section Policy

variable (policy : ContextBudgetPolicy)

/-- An item before projection. -/
def rawItem (p : ContextMessage G × ℕ) : Except PythonError (NormalizedMessage G) := do
  let rawTokens ← estimateMessage policy p.1.message
  .ok { item := p.1, index := p.2, rawTokens }

/-- `_admit_normalized` up to the selection. -/
def selectContext [DecidableEq G] (messages : List (ContextMessage G))
    (tools : List ModelToolDefinition) (payloads : List (ℕ × MemoryPayload)) :
    Except ContextError (Selection G) := do
  let contextLimit ← effectiveContextLimit policy
  let reservedOutput ← effectiveReservedOutput policy
  let availableInput ← availableInput policy contextLimit reservedOutput
  let requestOverhead := protocolOverhead policy Counter.requestOverheadTokens
  let toolEstimates ← passing (tools.mapM (estimateTool policy))
  let rawItems ← passing (messages.zipIdx.mapM (rawItem policy))
  let mandatory := rawItems.filter fun item => item.category.isMandatory
  let mandatoryTotal :=
    (mandatory.map NormalizedMessage.rawTokens).sum + toolTokens toolEstimates + requestOverhead
  raiseIf (mandatoryTotal > availableInput)
    (.mandatoryOverflow mandatoryTotal availableInput toolEstimates)
  let projected ← passing (projectOptionalItems policy payloads rawItems)
  let (selected, droppedExchangeCount) ← selectItems projected mandatoryTotal availableInput
  .ok { contextLimit, reservedOutput, availableInput, requestOverhead, toolEstimates, rawItems,
        projected, selected, droppedExchangeCount }

end Policy

namespace Selection

variable (s : Selection G)

def retainedByCategory : ContextCategory → ℕ :=
  byCategory (toolTokens s.toolEstimates) s.requestOverhead s.selected
    NormalizedMessage.admittedTokens

def estimatedByCategory : ContextCategory → ℕ :=
  byCategory (toolTokens s.toolEstimates) s.requestOverhead s.rawItems NormalizedMessage.rawTokens

/-- What was cut from an item. A memory that was only rewritten counts as whole. -/
def truncatedTokens (raw : NormalizedMessage G) : ℕ :=
  match s.selected.find? fun item => item.index = raw.index with
  | none => raw.rawTokens
  | some item =>
    if raw.category ≠ .memory ∨ item.memoryTruncated then raw.rawTokens - item.admittedTokens else 0

def truncatedByCategory (category : ContextCategory) : ℕ :=
  if category = .toolDefinitions then 0
  else ((ofCategory s.rawItems category).map s.truncatedTokens).sum

def estimatedInputAfter : ℕ :=
  toolTokens s.toolEstimates + s.requestOverhead +
    (s.selected.map NormalizedMessage.admittedTokens).sum

/-- The admitted items in the order of the input. -/
def admitted : List (NormalizedMessage G) :=
  (s.selected.insertionSort fun a b => a.index ≤ b.index).filter fun item =>
    item.admittedMessage.isSome

/-- The counts of the admission. -/
def counts (policy : ContextBudgetPolicy) : UsageCounts where
  contextLimit := s.contextLimit
  reservedOutput := s.reservedOutput
  availableInput := s.availableInput
  estimatedInputBefore := (ContextCategory.all.map s.estimatedByCategory).sum
  estimatedInputAfter := s.estimatedInputAfter
  truncated := ContextCategory.all.any fun category => 0 < s.truncatedByCategory category
  droppedExchangeCount := s.droppedExchangeCount
  estimatedByCategory := s.estimatedByCategory
  retainedByCategory := s.retainedByCategory
  truncatedByCategory := s.truncatedByCategory
  windowUtilization :=
    if policy.contextPolicy.isSome then s.estimatedInputAfter / s.availableInput
    else s.estimatedInputAfter / (s.contextLimit.getD 0 : ℕ)
  modelAvailableInput := policy.contextPolicy.map ContextPolicy.modelAvailableInputTokens

end Selection

def exceededAfterProjection : ContextError :=
  .budgetExceeded "Context admission exceeded the available input budget after projection."

/-- The payloads of all memory messages, or `AGENT_MEMORY_PAYLOAD_INVALID`. -/
def memoryPayloads (messages : List (ContextMessage G)) :
    Except ContextError (List (ℕ × MemoryPayload)) :=
  match validateMemoryPayloads messages.zipIdx [] with
  | some payloads => .ok payloads
  | none => .error .memoryPayloadInvalid

section Policy

variable [DecidableEq G] (policy : ContextBudgetPolicy)

/-- `_admit_normalized`. The categories of the result are those of its messages, so that the
constructor of the result has nothing to refuse. -/
def admitNormalized (messages : List (ContextMessage G)) (tools : List ModelToolDefinition)
    (payloads : List (ℕ × MemoryPayload)) : Except ContextError ContextAdmissionResult := do
  let s ← selectContext policy messages tools payloads
  raiseIf (s.estimatedInputAfter > s.availableInput) exceededAfterProjection
  let usage ← passing (ContextBudgetUsage.new (s.counts policy))
  let memoryAdmission ← passing
    (memoryAdmission s.projected (s.selected.map NormalizedMessage.index) payloads)
  .ok { messages := s.admitted.filterMap NormalizedMessage.admittedMessage
        toolDefinitions := tools
        usage
        messageCategories := s.admitted.map NormalizedMessage.category
        memoryAdmission }

/-- `admit`, which `admit_context` calls -/
def admitContext (values : List (MessageInput G)) (categories : Option (Metadata ContextCategory))
    (exchangeGroups : Option (Metadata (Option G))) (tools : List ModelToolDefinition) :
    Except ContextError ContextAdmissionResult := do
  let messages ← passing (normalizeMessages categories exchangeGroups values)
  let payloads ← memoryPayloads messages
  admitNormalized policy messages tools payloads

end Policy

end AgentHub.Context

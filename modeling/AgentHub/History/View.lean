import AgentHub.History.Planner

/-!
# The history view of a run

`plan_history_view`: the frozen sources of a thread become source groups, with one group for what
the request carries anyway and one for each memory message; the plan of these groups decides what
is sent. The tool-call ids of a turn are renamed, as providers reuse them in different turns.

## Main definitions

* `HistorySource`, `SourceManifest`, `ThreadTurnContext`, `ThreadConversation`: the frozen sources
* `namespaceToolIds`: a turn with its tool-call ids renamed
* `classifySource`, `turnEntries`: the groups of the turns
* `blockUncoveredOptionalHistoryDrops`, `planHistoryView`: the view
-/

namespace AgentHub.History

open Lib Context Transcript

abbrev Message := ModelMessage JsonObject

/-! ## Frozen sources -/

/-- The part of `ThreadHistorySourceIdentity` that the view reads, as its constructor admits it. -/
structure HistorySource where
  turnId : Uuid
  runId : Uuid
  sequence : ℕ
  revisionSha256 : Text
  summaryEligibilityReason : Text
  sequence_pos : 0 < sequence
  revision_ok : requireText revisionSha256 "revision_sha256" = none
  reason_ok : requireText summaryEligibilityReason "summary_eligibility_reason" = none

/-- `source_id`, which the constructor of a source fixes. -/
def HistorySource.sourceId (s : HistorySource) : Text :=
  Text.ofString "thread-turn:" ++ s.turnId.text

/-- The part of `ThreadHistorySourceManifest` that the view reads, as its constructor admits it. -/
structure SourceManifest where
  workspaceId : Uuid
  threadId : Uuid
  beforeSequence : ℕ
  /-- The status is `COMPLETE`. -/
  complete : Bool
  selectedSources : List HistorySource
  availableEligibleSourceCount : ℕ
  ordered : selectedSources.Pairwise fun a b => a.sequence < b.sequence
  distinct : (selectedSources.map HistorySource.sourceId).Nodup
  below : ∀ s ∈ selectedSources, s.sequence < beforeSequence

inductive PlainTextPrefixProofStatus
  | eligible | ineligible | unproven
  deriving DecidableEq, Repr

structure PlainTextPrefixProof where
  status : PlainTextPrefixProofStatus
  reason : Text
  reason_ok : requireText reason "plain-text proof reason" = none

structure ThreadTurnContext where
  userInput : Text
  finalOutput : Text
  turnId : Option Uuid
  runId : Option Uuid
  sequence : Option ℕ
  artifactIds : List Uuid := []
  artifactRefs : List Text := []
  /-- The complete exchange, where it was persisted. -/
  messages : List Message := []
  evidenceRegistry : Option JsonObject := none
  sourceKnowledgeSnapshots : List JsonObject := []
  sourceWikiPublications : List JsonObject := []
  plainTextPrefixProof : Option PlainTextPrefixProof := none

structure ThreadConversation where
  turns : List ThreadTurnContext
  sourceManifest : Option SourceManifest

/-! ## Renaming tool calls -/

def snapshotInvalid : HistoryError :=
  .agentHub "AGENT_HISTORY_SNAPSHOT_INVALID" "The frozen history is invalid."

/-- `turn_id.hex` -/
def hexOf (turnId : Uuid) : Text := hexText 32 turnId

/-- `f"history-{turn_id}-{index}"` -/
def historyCallId (turnId : Text) (index : ℕ) : Text :=
  Text.ofString "history-" ++ turnId ++ Text.ofString "-" ++ decimalText index

/-- The loop over the calls of a message. The mapping is a dictionary. -/
def renameCalls (turnId : Text) : List (Text × Text) → List (ModelToolCall JsonObject) →
    Except HistoryError (List (ModelToolCall JsonObject) × List (Text × Text))
  | mapping, [] => .ok ([], mapping)
  | mapping, call :: calls =>
    match call.providerToolCallId with
    | none => .error snapshotInvalid
    | some original => do
      raiseIf (original ∈ mapping.map Prod.fst) snapshotInvalid
      let replacement := historyCallId turnId mapping.length
      let (calls, mapping) ← renameCalls turnId (mapping ++ [(original, replacement)]) calls
      .ok ({ call with providerToolCallId := some replacement } :: calls, mapping)

/-- `replace(message, tool_call_id=...)` -/
def withToolCallId (message : Message) (id : Text) : Except HistoryError Message :=
  match ModelMessage.new message.role message.content message.name (some id) message.toolCalls with
  | .ok renamed => .ok renamed
  | .error text => .error (.value text)

/-- The loop over the messages of a turn. -/
def renameMessages (turnId : Text) : List (Text × Text) → List Message →
    Except HistoryError (List Message)
  | _, [] => .ok []
  | mapping, message :: messages =>
    if message.toolCalls ≠ [] then do
      let (calls, mapping) ← renameCalls turnId mapping message.toolCalls
      let renamed ← renameMessages turnId mapping messages
      .ok ({ message with toolCalls := calls } :: renamed)
    else if message.role = .tool then
      match message.toolCallId.bind fun id => Table.find Prod.fst mapping id with
      | none => .error snapshotInvalid
      | some (_, replacement) => do
        let result ← withToolCallId message replacement
        let renamed ← renameMessages turnId mapping messages
        .ok (result :: renamed)
    else do
      let renamed ← renameMessages turnId mapping messages
      .ok (message :: renamed)

/-- `_namespace_tool_ids` -/
def namespaceToolIds (turnId : Text) (messages : List Message) :
    Except HistoryError (List Message) :=
  renameMessages turnId [] messages

/-! ## Turns -/

/-- `"\n".join((text, *artifact_refs))`, where there are any. -/
def finalText (turn : ThreadTurnContext) : Text :=
  turn.artifactRefs.foldl (fun text ref => text ++ Text.ofString "\n" ++ ref) turn.finalOutput

/-- The messages a turn is replayed with. -/
def turnMessages (source : HistorySource) (turn : ThreadTurnContext) :
    Except HistoryError (List Message) :=
  if turn.messages ≠ [] then namespaceToolIds (hexOf source.turnId) turn.messages
  else .ok [⟨.user, some turn.userInput, none, none, [], fits_user⟩,
    ⟨.assistant, some (finalText turn), none, none, [], fits_assistant⟩]

def hasNul (text : Text) : Bool := text.contains (.scalar (Char.ofNat 0))

/-- A message of the role with the text, and nothing else a tool would need. -/
def isPlainMessage (role : Role) (text : Text) (message : Message) : Bool :=
  message.role = role ∧ message.content = some text ∧ message.toolCalls.isEmpty ∧
    message.toolCallId = none

/-- `_is_plain_text_exchange` -/
def isPlainTextExchange (turn : ThreadTurnContext) : Bool :=
  turn.artifactIds.isEmpty && turn.artifactRefs.isEmpty &&
  (turn.evidenceRegistry.map List.isEmpty).getD false &&
  turn.sourceKnowledgeSnapshots.isEmpty && turn.sourceWikiPublications.isEmpty &&
  strip CodePoint.isSpace turn.userInput ≠ [] && strip CodePoint.isSpace turn.finalOutput ≠ [] &&
  !hasNul turn.userInput && !hasNul turn.finalOutput &&
  match turn.messages with
  | [user, assistant] =>
    isPlainMessage .user turn.userInput user && isPlainMessage .assistant turn.finalOutput assistant
  | _ => false

/-! ## The eligible prefix -/

def eligibleReason : Text := Text.ofString "PLAIN_TEXT_PREFIX_V1_SIMPLE_COMPLETED_EXCHANGE"

structure PlainTextPrefixSource where
  sourceId : Text
  turnId : Uuid
  runId : Uuid
  sequence : ℕ
  revisionSha256 : Text
  estimatedTokens : ℕ

/-- What the loop over the turns knows about the prefix. -/
structure PrefixState where
  isOpen : Bool
  expectedSequence : ℕ := 1
  sources : List PlainTextPrefixSource := []
  stoppedBefore : Option Text := none
  stopReason : Option Text := none

/-- Why the prefix stops before a turn, if it does. -/
def prefixStop (expectedSequence : ℕ) (source : HistorySource) (turn : ThreadTurnContext) :
    Option Text :=
  if source.sequence ≠ expectedSequence then
    some (Text.ofString "PLAIN_TEXT_PREFIX_V1_SOURCE_SEQUENCE_GAP")
  else
    match turn.plainTextPrefixProof with
    | none => some (Text.ofString "PLAIN_TEXT_PREFIX_V1_PERSISTED_PROOF_MISSING")
    | some proof =>
      if proof.status ≠ .eligible then some proof.reason
      else if proof.reason ≠ eligibleReason then
        some (Text.ofString "PLAIN_TEXT_PREFIX_V1_PROOF_POLICY_MISMATCH")
      else if !isPlainTextExchange turn then
        some (Text.ofString "PLAIN_TEXT_PREFIX_V1_PROOF_CONTRADICTED_BY_TURN")
      else none

/-- The category of a source and why it may or may not be summarised. -/
structure Classification where
  category : HistoryCategory
  eligibility : SummaryEligibility
  reason : Text

/-- The classification of one turn, and the prefix after it. -/
def classifySource (usePrefix isRecent : Bool) (state : PrefixState) (source : HistorySource)
    (turn : ThreadTurnContext) (tokens : ℕ) : Classification × PrefixState :=
  if isRecent then
    if usePrefix then
      (⟨.recent, .ineligible,
        Text.ofString "PLAIN_TEXT_PREFIX_V1_RECENT_EXCHANGE_RETAINED"⟩, state)
    else (⟨.recent, .unknown, source.summaryEligibilityReason⟩, state)
  else if !usePrefix then (⟨.keepExact, .unknown, source.summaryEligibilityReason⟩, state)
  else if !state.isOpen then
    (⟨.keepExact, .ineligible, Text.ofString "PLAIN_TEXT_PREFIX_V1_CONTIGUITY_CLOSED"⟩, state)
  else
    match prefixStop state.expectedSequence source turn with
    | some reason =>
      (⟨.keepExact, .ineligible, reason⟩,
        { state with
          isOpen := false
          stoppedBefore := some source.sourceId
          stopReason := some reason })
    | none =>
      (⟨.optional, .eligible, eligibleReason⟩,
        { state with
          expectedSequence := state.expectedSequence + 1
          sources := state.sources ++ [⟨source.sourceId, source.turnId, source.runId,
            source.sequence, source.revisionSha256, tokens⟩] })

/-! ## Groups -/

/-- A group and its tokens. -/
structure Entry where
  group : HistorySourceGroup
  tokens : ℕ

/-- The fields of the group that `add(...)` makes. -/
def entryFields (scope : HistoryScope) (watermark : ℕ) (groupId : Text) (sequence : ℕ)
    (revision : Text) (classification : Classification) : GroupFields where
  groupId := groupId
  scope := scope
  revision := revision
  sequence := sequence
  watermark := watermark
  exchangeId := groupId
  originalRef := groupId
  countVersion := 1
  category := some classification.category
  summaryEligibility := classification.eligibility
  summaryEligibilityReason := classification.reason

/-- `add(...)` -/
def addEntry (scope : HistoryScope) (watermark : ℕ) (groupId : Text) (sequence : ℕ)
    (revision : Text) (tokens : ℕ) (classification : Classification) :
    Except HistoryError Entry := do
  let group ← HistorySourceGroup.new
    (entryFields scope watermark groupId sequence revision classification)
  .ok ⟨group, tokens⟩

/-- A group of the request itself, which no summary replaces. -/
def runtimeClassification (category : HistoryCategory) : Classification :=
  ⟨category, .ineligible, Text.ofString "NOT_APPLICABLE"⟩

section View

variable (policy : ContextBudgetPolicy) (scope : HistoryScope) (watermark : ℕ)

/-- What a request carries without history: its own overhead, messages and tools. -/
def mandatoryTokens (messages : List Message) (tools : List ModelToolDefinition) :
    Except PythonError ℕ := do
  let messages ← messages.mapM (estimateMessage policy)
  let tools ← tools.mapM (estimateTool policy)
  .ok (protocolOverhead policy Counter.requestOverheadTokens + messages.sum +
    (tools.map ToolEstimate.total).sum)

def mandatoryEntry (messages : List Message) (tools : List ModelToolDefinition) :
    Except HistoryError Entry := do
  let tokens ← raising (mandatoryTokens policy messages tools)
  addEntry scope watermark (Text.ofString "runtime:mandatory") 0 (Text.ofString "runtime-v1") tokens
    (runtimeClassification .mandatory)

/-- `f"runtime:memory:{index}"` -/
def memoryId (index : ℕ) : Text := Text.ofString "runtime:memory:" ++ decimalText index

def memoryEntry (message : Message) (index : ℕ) : Except HistoryError Entry := do
  let tokens ← raising (estimateMessage policy message)
  addEntry scope watermark (memoryId index) 0 (Text.ofString "memory-v1") tokens
    (runtimeClassification .optional)

def memoryEntries (messages : List Message) : Except HistoryError (List Entry) :=
  messages.zipIdx.mapM fun p => memoryEntry policy scope watermark p.1 p.2

/-- The group of a turn with the messages it is replayed with. -/
structure TurnEntry extends Entry where
  source : HistorySource
  pair : List Message

/-- One round of the loop over the turns. -/
def turnEntry (usePrefix isRecent : Bool) (state : PrefixState) (source : HistorySource)
    (turn : ThreadTurnContext) : Except HistoryError (TurnEntry × PrefixState) := do
  raiseIf (turn.turnId ≠ some source.turnId ∨ turn.runId ≠ some source.runId ∨
    turn.sequence ≠ some source.sequence) snapshotInvalid
  let pair ← turnMessages source turn
  let estimates ← raising (pair.mapM (estimateMessage policy))
  let (classification, state) := classifySource usePrefix isRecent state source turn estimates.sum
  let entry ← addEntry scope watermark source.sourceId source.sequence source.revisionSha256
    estimates.sum classification
  .ok (⟨entry, source, pair⟩, state)

/-- The loop over the turns; the turns from `recentStart` on are recent. -/
def turnEntries (usePrefix : Bool) (recentStart : ℕ) :
    ℕ → PrefixState → List (HistorySource × ThreadTurnContext) →
      Except HistoryError (List TurnEntry × PrefixState)
  | _, state, [] => .ok ([], state)
  | index, state, (source, turn) :: rest => do
    let (entry, state) ←
      turnEntry policy scope watermark usePrefix (recentStart ≤ index) state source turn
    let (entries, state) ← turnEntries usePrefix recentStart (index + 1) state rest
    .ok (entry :: entries, state)

end View

/-- The counter of the view, which knows the tokens of its entries. -/
def viewCounter (entries : List Entry) : HistoryTokenCounter where
  counterId := Text.ofString "approx_language_v1"
  counterVersion := 1
  count g := (Table.find (fun e : Entry => e.group.groupId) entries g.groupId).map fun e =>
    (e.tokens : ℤ)

/-- The arguments of `plan_history`. -/
def viewOptions (frozen : ContextPolicy) (scope : HistoryScope) (watermark : ℕ)
    (entries : List Entry) : PlanOptions where
  scope := scope
  frozenWatermark := watermark
  counter := viewCounter entries
  bWorkTokens := frozen.inputLimitTokens
  workLimit :=
    if h : 0 < frozen.maxHistoryGroups.getD 256 then
      some ⟨frozen.maxHistoryGroups.getD 256, h⟩
    else none
  expectedCounterId := some frozen.counter.id
  expectedCounterVersion := some frozen.counter.version
  thresholds := .mapping
    { soft := some frozen.thresholds.soft
      hard := some frozen.thresholds.hard
      target := some frozen.thresholds.target }

/-! ## The view -/

/-- An optional source of the thread that is dropped without a summary that is retained. -/
def isUncovered (retainedSummaryIds : List Text) (d : SourceGroupDecision) : Bool :=
  d.category = .optional ∧ 0 < d.sequence ∧ d.retained = false ∧
    ¬ (d.reason = .droppedCoveredBySummary ∧
      ∃ id ∈ d.coveredBySummaryId, id ∈ retainedSummaryIds)

/-- `_block_uncovered_optional_history_drops` -/
def blockUncoveredOptionalHistoryDrops (plan : HistoryPlan) : HistoryPlan :=
  let retainedSummaryIds := (plan.decisions.filter fun d =>
    d.category = .verifiedSummary ∧ d.retained).map SourceGroupDecision.groupId
  if plan.decisions.any (isUncovered retainedSummaryIds) then
    { plan with
      insufficiencies := plan.insufficiencies ++ [⟨.verifiedSummaryNotRetained, true,
        "Optional historical sources would be dropped before a verified summary " ++
          "replaces them."⟩]
      readyForDispatch := false }
  else plan

/-- `PlainTextPrefix` -/
structure PlainTextPrefix where
  sources : List PlainTextPrefixSource
  stoppedBeforeSourceId : Option Text
  stopReason : Option Text

/-- `_plain_text_prefix_result` -/
def plainTextPrefixResult (usePrefix : Bool) (state : PrefixState) : Option PlainTextPrefix :=
  if usePrefix then
    some ⟨state.sources, state.stoppedBefore,
      if state.sources.isEmpty ∧ state.stopReason = none then
        some (Text.ofString "PLAIN_TEXT_PREFIX_V1_NO_ELIGIBLE_OLD_EXCHANGE")
      else state.stopReason⟩
  else none

structure PlannedHistory where
  plan : HistoryPlan
  messages : List Message
  memoryMessages : List Message
  exchangeIds : List Text
  plainTextPrefix : Option PlainTextPrefix

/-- The arguments of `plan_history_view`. -/
structure ViewRequest where
  policy : ContextBudgetPolicy
  conversation : ThreadConversation
  mandatoryMessages : List Message
  memoryMessages : List Message
  tools : List ModelToolDefinition
  permissionSnapshot : Text
  returnBlockedPlan : Bool := false
  /-- `summary_source_policy` is `plain_text_prefix_v1`. -/
  usePrefix : Bool := false

def historyIncomplete : HistoryError :=
  .agentHub "AGENT_HISTORY_CONTEXT_INSUFFICIENT" "Thread history is incomplete."

/-- The checks before the loop, with the frozen manifest and policy. -/
def checkView (r : ViewRequest) : Except HistoryError (SourceManifest × ContextPolicy) :=
  match r.conversation.sourceManifest with
  | none => .error historyIncomplete
  | some manifest => do
    raiseIf (manifest.complete = false) historyIncomplete
    raiseIf (manifest.selectedSources.length ≠ manifest.availableEligibleSourceCount)
      historyIncomplete
    raiseIf (manifest.selectedSources.length ≠ r.conversation.turns.length) snapshotInvalid
    match r.policy.contextPolicy with
    | none =>
      .error (.agentHub "AGENT_CONTEXT_POLICY_INVALID" "The frozen context policy is invalid.")
    | some frozen => .ok (manifest, frozen)

/-- What the planner is given. -/
structure ViewEntries where
  mandatory : Entry
  memory : List Entry
  turns : List TurnEntry
  state : PrefixState

/-- All entries, in the order in which they are added. -/
def ViewEntries.all (e : ViewEntries) : List Entry :=
  e.mandatory :: e.memory ++ e.turns.map TurnEntry.toEntry

/-- The groups of the request, its memory and the turns. -/
def viewEntries (r : ViewRequest) (manifest : SourceManifest) (frozen : ContextPolicy)
    (scope : HistoryScope) : Except HistoryError ViewEntries := do
  let watermark := manifest.beforeSequence
  let mandatory ← mandatoryEntry r.policy scope watermark r.mandatoryMessages r.tools
  let memory ← memoryEntries r.policy scope watermark r.memoryMessages
  let recentStart := r.conversation.turns.length - frozen.retainedRecentTurns.getD 2
  let (turns, state) ← turnEntries r.policy scope watermark r.usePrefix recentStart 0
    { isOpen := r.usePrefix } (manifest.selectedSources.zip r.conversation.turns)
  .ok ⟨mandatory, memory, turns, state⟩

/-- What is sent of a plan that is ready. -/
def sendable (r : ViewRequest) (entries : ViewEntries) (plan : HistoryPlan) : PlannedHistory :=
  let kept := entries.turns.filter fun e => e.source.sourceId ∈ plan.retainedGroupIds
  { plan
    messages := kept.flatMap TurnEntry.pair
    memoryMessages := (r.memoryMessages.zipIdx.filter fun p =>
      memoryId p.2 ∈ plan.retainedGroupIds).map Prod.fst
    exchangeIds := kept.flatMap fun e => e.pair.map fun _ => e.source.sourceId
    plainTextPrefix := plainTextPrefixResult r.usePrefix entries.state }

/-- `plan_history_view` -/
def planHistoryView (r : ViewRequest) : Except HistoryError PlannedHistory := do
  let (manifest, frozen) ← checkView r
  let scope ← HistoryScope.new
    ⟨manifest.workspaceId.text, manifest.threadId.text, r.permissionSnapshot⟩
  let entries ← viewEntries r manifest frozen scope
  let plan ← planHistory (viewOptions frozen scope manifest.beforeSequence entries.all)
    (entries.all.map Entry.group)
  let plan := blockUncoveredOptionalHistoryDrops plan
  if plan.readyForDispatch then .ok (sendable r entries plan)
  else if r.returnBlockedPlan then
    .ok ⟨plan, [], [], [], plainTextPrefixResult r.usePrefix entries.state⟩
  else
    .error (.agentHub "AGENT_HISTORY_CONTEXT_INSUFFICIENT" "Thread history does not fit safely.")

end AgentHub.History

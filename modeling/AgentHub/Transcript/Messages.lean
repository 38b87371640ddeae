import AgentHub.Lib.Checks
import AgentHub.Lib.JsonText

/-!
# Turn messages

The messages of one complete turn and their validation: one user message, groups of tool calls
each followed by one result per call, and a final assistant message. Tool arguments come as any
mapping of the interpreter and are copied into JSON values within bounds.

Arguments are trees here: a cyclic value, which the copy refuses, has no counterpart.

## Main definitions

* `ModelToolCall`, `ModelMessage`: messages, over the type of tool arguments
* `PyValue`, `normalizeArguments`: tool arguments and their copy
* `validateTurnMessages`: the validation of a turn
-/

namespace AgentHub.Transcript

open Lib

/-! ## Messages -/

/-- `MessageRole` -/
inductive Role
  | system | user | assistant | tool
  deriving DecidableEq, Repr

/-- A tool call with arguments of type `A`. -/
structure ModelToolCall (A : Type) where
  name : Text
  arguments : A
  providerToolCallId : Option Text

/-- A tool message has an identifier that is not empty; other messages have none. -/
def fitsRole (role : Role) (toolCallId : Option Text) : Bool :=
  match role, toolCallId with
  | .tool, some id => id ≠ []
  | .tool, none => false
  | _, toolCallId => toolCallId.isNone

theorem fits_system : fitsRole .system none := rfl

theorem fits_user : fitsRole .user none := rfl

theorem fits_assistant : fitsRole .assistant none := rfl

/-- A message, as its constructor admits it. -/
structure ModelMessage (A : Type) where
  role : Role
  content : Option Text
  name : Option Text
  toolCallId : Option Text
  toolCalls : List (ModelToolCall A)
  fits : fitsRole role toolCallId

/-- `ModelMessage(...)`, with the checks of its constructor. -/
def ModelMessage.new {A : Type} (role : Role) (content name toolCallId : Option Text)
    (toolCalls : List (ModelToolCall A)) : Except String (ModelMessage A) :=
  if h : fitsRole role toolCallId then .ok ⟨role, content, name, toolCallId, toolCalls, h⟩
  else if role = .tool then .error "tool messages require tool_call_id"
  else .error "tool_call_id is only valid for tool messages"

/-! ## Limits -/

def maxToolCallsPerAssistant : ℕ := 32
def maxTotalToolCalls : ℕ := 64
def maxMessages : ℕ := 2 + 2 * maxTotalToolCalls
def maxMessageContentChars : ℕ := 1000000
def maxMessageNameChars : ℕ := 256
def maxProtocolCallIdChars : ℕ := 512
def maxArgumentStringChars : ℕ := 1000000
def maxArgumentDepth : ℕ := 16
def maxArgumentNodes : ℕ := 10000
def maxArgumentIntegerBits : ℕ := 1024
/-! ## Texts -/

/-- What is wrong with a text that has to be encoded, after the name of its field. -/
def unicodeFault (value : Text) : Option String :=
  if value.any CodePoint.isSurrogate then some " contains an invalid Unicode surrogate"
  else if value.contains (.scalar (Char.ofNat 0)) then some " must not contain NUL"
  else none

/-- What is wrong with the content of a message. -/
def contentFault (allowNone requireNonblank : Bool) : Json → Option String
  | .null => if allowNone then none else some " must be a string"
  | .str content =>
    if content.length > maxMessageContentChars then some " exceeds 1000000 characters"
    else
      (unicodeFault content).or
        (if requireNonblank ∧ strip CodePoint.isSpace content = [] then some " must not be blank"
        else none)
  | _ => some " must be a string"

/-- `_validate_content` -/
def validateContent (content : Json) (field : String) (allowNone requireNonblank : Bool) :
    Except String Unit :=
  fault (field ++ ·) (contentFault allowNone requireNonblank content)

/-- What is wrong with a text that must be trimmed, within a length and made of `allowed` code
points. -/
def trimmedFault (maxChars : ℕ) (tooLong notAllowed : String) (allowed : CodePoint → Bool)
    (value : Text) : Option String :=
  if value = [] ∨ value ≠ strip CodePoint.isSpace value then
    some " must be non-empty and have no surrounding whitespace"
  else if value.length > maxChars then some tooLong
  else (unicodeFault value).or (if value.all allowed then none else some notAllowed)

section Printable

-- `str.isprintable`, which depends on the character database of the interpreter
variable (isPrintable : CodePoint → Bool)

/-- What is wrong with a name. -/
def nameFault (value : Text) : Option String :=
  trimmedFault maxMessageNameChars " exceeds 256 characters"
    " must contain only printable characters" isPrintable value

/-- What is wrong with a protocol identifier. -/
def protocolIdFault (value : Text) : Option String :=
  trimmedFault maxProtocolCallIdChars " exceeds 512 characters"
    " must contain only printable non-whitespace characters"
    (fun c => isPrintable c && !c.isSpace) value

/-- A text that passes a check. -/
def requireText (textFault : Text → Option String) (value : Json) (field : String) :
    Except String Text :=
  match value with
  | .str value => do
    fault (field ++ ·) (textFault value)
    .ok value
  | _ => .error (field ++ " must be a string")

/-- `_require_name` -/
def requireName : Json → String → Except String Text := requireText (nameFault isPrintable)

/-- `_require_protocol_id` -/
def requireProtocolId : Json → String → Except String Text :=
  requireText (protocolIdFault isPrintable)

/-- The value of a field that may be absent. -/
def ofOption : Option Text → Json
  | some s => .str s
  | none => .null

/-- `_validate_message_name` -/
def validateMessageName (name : Option Text) : Except String Unit :=
  match name with
  | some name => do
    let _ ← requireName isPrintable (.str name) "message name"
    .ok ()
  | none => .ok ()

/-- `_validate_assistant_content` -/
def validateAssistantContent (content : Json) : Except String Unit :=
  validateContent content "assistant content" true false

/-! ## Tool arguments -/

/-- A key of a mapping: a string, or anything else that can be one. -/
inductive PyKey
  | str (s : Text)
  | other

/-- A value of the interpreter: what JSON knows, or anything else. -/
inductive PyValue
  | none
  | bool (b : Bool)
  | int (i : ℤ)
  | float (x : Binary64)
  | str (s : Text)
  | list (xs : List PyValue)
  | dict (items : List (PyKey × PyValue))
  | other

/-- Tool arguments as a caller gives them. -/
abbrev Arguments := List (PyKey × PyValue)

/-- Tool arguments after their copy. -/
abbrev JsonObject := List (Text × Json)

/-- One more node of the arguments. -/
def countArgument (nodes : ℕ) : Except String ℕ := do
  raiseIf (nodes + 1 > maxArgumentNodes) "tool arguments exceed the node limit"
  .ok (nodes + 1)

/-- One more value of the arguments. -/
def enterArgument (depth nodes : ℕ) : Except String ℕ := do
  let nodes ← countArgument nodes
  raiseIf (depth > maxArgumentDepth) "tool arguments exceed the depth limit"
  .ok nodes

/-- What is wrong with a key of the arguments. -/
def argumentKeyFault (key : Text) : Option String :=
  if key.length > maxMessageNameChars then
    some "tool arguments contain an oversized object key"
  else (unicodeFault key).map ("tool argument key" ++ ·)

/-- What is wrong with a value of the arguments that holds no others. -/
def argumentFault : Json → Option String
  | .int i =>
    if i.natAbs.size > maxArgumentIntegerBits then
      some "tool arguments contain an oversized integer"
    else none
  | .float x => if x.isFinite then none else some "tool arguments contain a non-finite number"
  | .str s =>
    if s.length > maxArgumentStringChars then some "tool arguments contain an oversized string"
    else (unicodeFault s).map ("tool argument string" ++ ·)
  | _ => none

/-- A value that holds no others. -/
def copyLeaf (value : Json) (depth nodes : ℕ) : Except String (Json × ℕ) := do
  let nodes ← enterArgument depth nodes
  fault id (argumentFault value)
  .ok (value, nodes)

mutual

/-- `copy`: the value as JSON, with the nodes counted so far. -/
def copy : PyValue → ℕ → ℕ → Except String (Json × ℕ)
  | .none, depth, nodes => copyLeaf .null depth nodes
  | .bool b, depth, nodes => copyLeaf (.bool b) depth nodes
  | .int i, depth, nodes => copyLeaf (.int i) depth nodes
  | .float x, depth, nodes => copyLeaf (.float x) depth nodes
  | .str s, depth, nodes => copyLeaf (.str s) depth nodes
  | .list xs, depth, nodes => do
    let nodes ← enterArgument depth nodes
    let (ys, nodes) ← copyList xs (depth + 1) nodes
    .ok (.arr ys, nodes)
  | .dict items, depth, nodes => do
    let nodes ← enterArgument depth nodes
    let (kvs, nodes) ← copyItems items (depth + 1) nodes []
    .ok (.obj kvs, nodes)
  | .other, depth, nodes => do
    let _ ← enterArgument depth nodes
    .error "tool arguments must contain only JSON-compatible values"

def copyList : List PyValue → ℕ → ℕ → Except String (List Json × ℕ)
  | [], _, nodes => .ok ([], nodes)
  | x :: xs, depth, nodes => do
    let (y, nodes) ← copy x depth nodes
    let (ys, nodes) ← copyList xs depth nodes
    .ok (y :: ys, nodes)

/-- The items into the dictionary `result`. -/
def copyItems : List (PyKey × PyValue) → ℕ → ℕ → JsonObject → Except String (JsonObject × ℕ)
  | [], _, nodes, result => .ok (result, nodes)
  | (key, item) :: items, depth, nodes, result => do
    let nodes ← countArgument nodes
    match key with
    | .other => .error "tool argument object keys must be strings"
    | .str key =>
      fault id (argumentKeyFault key)
      let (value, nodes) ← copy item depth nodes
      copyItems items depth nodes (Json.set result key value)

end

/-- `_normalize_arguments` -/
def normalizeArguments (arguments : Arguments) : Except String JsonObject := do
  let nodes ← enterArgument 0 0
  let (result, _) ← copyItems arguments 1 nodes []
  .ok result

/-! ## Validation -/

/-- `_validate_user_message` -/
def validateUserMessage {A : Type} (message : ModelMessage A) : Except String Unit := do
  raiseIf (message.toolCalls.isEmpty = false ∨ message.toolCallId ≠ none)
    "the user message must not contain tool calls or tool_call_id"
  validateMessageName isPrintable message.name
  validateContent (ofOption message.content) "user content" false true

/-- `_validate_final_assistant` -/
def validateFinalAssistant {A : Type} (message : ModelMessage A) : Except String Unit := do
  raiseIf (message.toolCalls.isEmpty = false)
    "the final assistant message must not contain tool calls"
  raiseIf (message.toolCallId ≠ none) "the final assistant message must not contain tool_call_id"
  validateMessageName isPrintable message.name
  validateContent (ofOption message.content) "final assistant content" false true

/-- `_validate_tool_call`, with the identifier it requires. -/
def validateToolCall (call : ModelToolCall Arguments) :
    Except String (ModelToolCall JsonObject × Text) := do
  let _ ← requireName isPrintable (.str call.name) "tool call name"
  let callId ← requireProtocolId isPrintable (ofOption call.providerToolCallId)
    "tool call protocol ID"
  let arguments ← normalizeArguments call.arguments
  .ok (⟨call.name, arguments, some callId⟩, callId)

/-- `_validate_tool_result` -/
def validateToolResult {A : Type} (message : ModelMessage A) : Except String Text := do
  raiseIf (message.toolCalls.isEmpty = false) "tool result messages must not contain tool_calls"
  validateMessageName isPrintable message.name
  validateContent (ofOption message.content) "tool result content" false false
  requireProtocolId isPrintable (ofOption message.toolCallId) "tool result protocol ID"

/-- The calls of a group, with the names by identifier and the identifiers seen so far. -/
def validateCalls : List (ModelToolCall Arguments) → List Text →
    Except String (List (ModelToolCall JsonObject) × List (Text × Text) × List Text)
  | [], seen => .ok ([], [], seen)
  | call :: calls, seen => do
    let (normalized, callId) ← validateToolCall isPrintable call
    raiseIf (callId ∈ seen) "tool-call protocol IDs must be unique within a Turn"
    let (rest, names, seen) ← validateCalls calls (callId :: seen)
    .ok (normalized :: rest, (callId, normalized.name) :: names, seen)

/-- The results of a group, with their identifiers. -/
def validateResults {A B : Type} (callNames : List (Text × Text)) : List (ModelMessage A) →
    Except String (List (ModelMessage B) × List Text)
  | [] => .ok ([], [])
  | result :: results => do
    raiseIf (result.role ≠ .tool) "assistant tool-call group is truncated before all results"
    let resultId ← validateToolResult isPrintable result
    raiseIf (∃ name ∈ callNames.lookup resultId, ∃ own ∈ result.name, own ≠ name)
      "tool result name does not match its call"
    let normalized ← ModelMessage.new .tool result.content result.name (some resultId) []
    let (rest, ids) ← validateResults callNames results
    .ok (normalized :: rest, resultId :: ids)

/-- The checks of an assistant message with tool calls before its calls are looked at. -/
def validateAssistantCall {A : Type} (assistant : ModelMessage A) (totalCalls : ℕ) :
    Except String Unit := do
  raiseIf (assistant.role = .tool) "orphan tool result has no preceding assistant tool-call group"
  raiseIf (assistant.role ≠ .assistant)
    "messages between the user and final assistant must be tool-call groups"
  raiseIf (assistant.toolCallId ≠ none) "assistant messages must not carry tool_call_id"
  validateMessageName isPrintable assistant.name
  validateAssistantContent (ofOption assistant.content)
  raiseIf (assistant.toolCalls.isEmpty) "a non-final assistant message must contain tool calls"
  raiseIf (assistant.toolCalls.length > maxToolCallsPerAssistant)
    "assistant tool calls exceed the per-message limit"
  raiseIf (totalCalls + assistant.toolCalls.length > maxTotalToolCalls)
    "tool calls exceed the per-transcript limit"

/-- The identifiers of results and calls are the same, and distinct. -/
def matchResults (resultIds groupIds : List Text) : Except String Unit := do
  raiseIf (¬ resultIds.Nodup) "tool results contain a duplicate protocol call ID"
  raiseIf (¬ (resultIds ⊆ groupIds ∧ groupIds ⊆ resultIds))
    "tool result protocol IDs do not match the assistant calls"

/-- The loop over the tool-call groups between the user and the final assistant message. -/
def validateGroups : List (ModelMessage Arguments) → List Text → ℕ →
    Except String (List (ModelMessage JsonObject))
  | [], _, _ => .ok []
  | assistant :: rest, seen, totalCalls => do
    validateAssistantCall isPrintable assistant totalCalls
    let (calls, callNames, seen) ← validateCalls isPrintable assistant.toolCalls seen
    let normalized ← ModelMessage.new .assistant assistant.content assistant.name none calls
    raiseIf (rest.length < assistant.toolCalls.length)
      "assistant tool-call group is truncated before all results"
    let (results, resultIds) ← validateResults isPrintable callNames
      (rest.take assistant.toolCalls.length)
    matchResults resultIds (callNames.map Prod.fst)
    let tail ← validateGroups (rest.drop assistant.toolCalls.length) seen
      (totalCalls + assistant.toolCalls.length)
    .ok (normalized :: results ++ tail)
  termination_by messages => messages.length
  decreasing_by simp

/-- `_validate_turn_messages` -/
def validateTurnMessages (messages : List (ModelMessage Arguments)) :
    Except String (List (ModelMessage JsonObject)) :=
  match messages with
  | [] | [_] =>
    .error "a complete transcript requires a user message and a final assistant message"
  | first :: second :: others => do
    let final := (second :: others).getLast (by simp)
    raiseIf (messages.length > maxMessages) "messages exceeds the limit of 130"
    raiseIf (first.role ≠ .user) "the first message must have role user"
    validateUserMessage isPrintable first
    let user ← ModelMessage.new .user first.content first.name none []
    raiseIf (final.role ≠ .assistant) "the final message must have role assistant"
    validateFinalAssistant isPrintable final
    let groups ← validateGroups isPrintable (second :: others).dropLast [] 0
    let last ← ModelMessage.new .assistant final.content final.name none []
    .ok (user :: groups ++ [last])

end Printable

end AgentHub.Transcript

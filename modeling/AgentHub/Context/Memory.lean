import AgentHub.Context.Estimates

/-!
# Memory in a context

The payload of a memory message, its projection to the complete entries that fit, and the account
of which memories were admitted and why the others were dropped.

## Main definitions

* `MemoryPayload`, `parseMemoryPayload`, `validateMemoryPayloads`: payloads
* `projectMemoryMessage`: the entries that fit
* `memoryAdmission`: what became of each memory

## Main results

* `projectMemoryMessage_some`: a projected message is estimated, and within the budget
-/

namespace AgentHub.Context

open Lib Transcript

/-! ## Items -/

/-- `_NormalizedMessage` -/
structure NormalizedMessage (G : Type) where
  item : ContextMessage G
  index : ℕ
  rawTokens : ℕ
  admittedMessage : Option (ModelMessage JsonObject) := none
  admittedTokens : ℕ := 0
  memoryAdmittedIds : List Text := []
  memoryPoolDroppedIds : List Text := []
  memoryTruncated : Bool := false

def NormalizedMessage.category {G : Type} (m : NormalizedMessage G) : ContextCategory :=
  m.item.category

/-! ## Payloads -/

/-- `_MemoryCandidate`. Its identifier is canonical. -/
structure MemoryCandidate where
  id : Text
  kind : Text
  content : Text
  deriving DecidableEq

/-- `as_payload` -/
def MemoryCandidate.asPayload (c : MemoryCandidate) : Json :=
  .obj [(Text.ofString "id", .str c.id), (Text.ofString "kind", .str c.kind),
    (Text.ofString "content", .str c.content)]

/-- `_MemoryPayload` -/
structure MemoryPayload where
  note : Option Text
  candidates : List MemoryCandidate
  truncated : Bool

/-- `_MEMORY_KINDS` -/
def memoryKinds : List Text := ["FACT", "PREFERENCE", "DECISION", "CONSTRAINT"].map Text.ofString

/-- `_canonical_uuid_string`, as a test. -/
def isCanonicalUuid (value : Text) : Bool :=
  match decodeUuid (.str value) "id" with
  | .ok _ => true
  | .error _ => false

/-- The hooks for a memory payload: a repeated key and a constant that is no JSON number raise. -/
def memoryLoader : Loader Unit where
  objectPairsHook kvs := if (kvs.map Prod.fst).Nodup then .ok kvs else .error ()
  parseConstant _ := .error ()

/-- The value of a field that may be absent, null or a string. -/
def optionalText (kvs : JsonObject) (key : String) : Option (Option Text) :=
  match Json.get? kvs (Text.ofString key) with
  | none | some .null => some none
  | some (.str s) => some (some s)
  | _ => none

/-- One entry of a payload. -/
def parseMemory (value : Json) : Option MemoryCandidate :=
  match value with
  | .obj kvs =>
    match field kvs "id", field kvs "kind", field kvs "content" with
    | .str id, .str kind, .str content =>
      if hasKeys ["id", "kind", "content"] [] kvs ∧ strip CodePoint.isSpace content ≠ [] ∧
          kind ∈ memoryKinds ∧ isCanonicalUuid id then
        some ⟨id, kind, content⟩
      else none
    | _, _, _ => none
  | _ => none

/-- `_parse_memory_payload`; `none` is `AGENT_MEMORY_PAYLOAD_INVALID`, the one error it raises. -/
def parseMemoryPayload (rawContent : Option Text) : Option MemoryPayload :=
  match rawContent.map (loads memoryLoader) with
  | some (.ok (.obj kvs)) => do
    guard (hasKeys [] ["data_trust", "memories", "note", "truncated", "trust"] kvs)
    let note ← optionalText kvs "note"
    let _ ← optionalText kvs "trust"
    let _ ← optionalText kvs "data_trust"
    let truncated ← match Json.get? kvs (Text.ofString "truncated") with
      | none => some false
      | some (.bool b) => some b
      | _ => none
    let candidates ← match field kvs "memories" with
      | .arr memories => memories.mapM parseMemory
      | _ => none
    guard (candidates.map MemoryCandidate.id).Nodup
    some ⟨note, candidates, truncated⟩
  | _ => none

/-- `_validate_memory_payloads`, from the identifiers seen so far: the payload of every memory
message by its position. -/
def validateMemoryPayloads {G : Type} :
    List (ContextMessage G × ℕ) → List Text → Option (List (ℕ × MemoryPayload))
  | [], _ => some []
  | (item, index) :: items, seen =>
    if item.category = .memory then do
      let payload ← parseMemoryPayload item.message.content
      let ids := payload.candidates.map MemoryCandidate.id
      guard (∀ id ∈ ids, id ∉ seen)
      let payloads ← validateMemoryPayloads items (ids ++ seen)
      some ((index, payload) :: payloads)
    else validateMemoryPayloads items seen

/-! ## Projection -/

section Policy

variable (policy : ContextBudgetPolicy)

/-- `_memory_projection` -/
def memoryProjection (message : ModelMessage JsonObject) (payload : MemoryPayload)
    (selected : List MemoryCandidate) (includeNote includeTruncated : Bool) :
    Except PythonError (ModelMessage JsonObject × ℕ) := do
  let note := if includeNote then
    payload.note.toList.map fun note => (Text.ofString "note", Json.str note) else []
  let truncated := if includeTruncated then [(Text.ofString "truncated", Json.bool true)] else []
  let content ← jsonDumps (.obj (note ++
    [(Text.ofString "memories", .arr (selected.map MemoryCandidate.asPayload)),
      (Text.ofString "trust", .str (Text.ofString "UNTRUSTED"))] ++ truncated))
  let projected := { message with content := some content }
  let estimated ← estimateMessage policy projected
  .ok (projected, estimated)

/-- The selected entries, the last one first, until they fit with the mark of truncation; those
removed are rejected. -/
def trimSelected (message : ModelMessage JsonObject) (payload : MemoryPayload) (budget : ℕ) :
    List MemoryCandidate → List Text → Except PythonError (List MemoryCandidate × List Text)
  | [], rejected => .ok ([], rejected)
  | last :: selected, rejected => do
    let (_, retained) ← memoryProjection policy message payload (last :: selected).reverse false true
    if retained ≤ budget then .ok (last :: selected, rejected)
    else trimSelected message payload budget selected (rejected ++ [last.id])

/-- The loop over the entries: those selected, the last one first, and those rejected. -/
def selectMemories (message : ModelMessage JsonObject) (payload : MemoryPayload) (budget : ℕ)
    (groupTruncated : Bool) : List MemoryCandidate → List MemoryCandidate → List Text →
      Except PythonError (List MemoryCandidate × List Text)
  | [], selected, rejected => .ok (selected, rejected)
  | candidate :: candidates, selected, rejected => do
    let (_, required) ← memoryProjection policy message payload (candidate :: selected).reverse
      false (groupTruncated || payload.truncated || rejected.isEmpty = false)
    if required ≤ budget then
      selectMemories message payload budget groupTruncated candidates (candidate :: selected)
        rejected
    else
      let (selected, rejected) ←
        trimSelected policy message payload budget selected (rejected ++ [candidate.id])
      selectMemories message payload budget groupTruncated candidates selected rejected

/-- What the projection of a memory message gives. -/
structure MemoryProjection where
  admitted : Option (ModelMessage JsonObject × ℕ)
  admittedIds : List Text
  poolDroppedIds : List Text
  truncated : Bool

/-- `_project_memory_message` -/
def projectMemoryMessage (message : ModelMessage JsonObject) (budget : ℕ)
    (payload : MemoryPayload) (groupTruncated : Bool) : Except PythonError MemoryProjection :=
  if budget = 0 then .ok ⟨none, [], payload.candidates.map MemoryCandidate.id, true⟩
  else do
    let (reversed, rejected) ←
      selectMemories policy message payload budget groupTruncated payload.candidates [] []
    let selected := reversed.reverse
    let truncated := groupTruncated || rejected.isEmpty = false || payload.truncated
    let (projected, tokens) ← memoryProjection policy message payload selected false truncated
    if tokens > budget then
      .ok ⟨none, [], rejected ++ selected.map MemoryCandidate.id, true⟩
    else
      let (noted, notedTokens) ← memoryProjection policy message payload selected true truncated
      .ok ⟨some (if notedTokens ≤ budget then (noted, notedTokens) else (projected, tokens)),
        selected.map MemoryCandidate.id, rejected, truncated⟩

variable {policy} {message admitted : ModelMessage JsonObject} {payload : MemoryPayload}

/-- Only the content of a projected memory message is another one. -/
theorem memoryProjection_ok {selected : List MemoryCandidate}
    {includeNote includeTruncated : Bool} {n : ℕ}
    (h : memoryProjection policy message payload selected includeNote includeTruncated =
      .ok (admitted, n)) :
    (∃ content, admitted = { message with content }) ∧ estimateMessage policy admitted = .ok n := by
  simp only [memoryProjection, bind_eq_ok, Except.ok.injEq, Prod.mk.injEq] at h
  obtain ⟨content, -, estimated, hestimated, rfl, rfl⟩ := h
  exact ⟨⟨_, rfl⟩, hestimated⟩

/-- **A projected memory message** has another content, is estimated, and is within the budget. -/
theorem projectMemoryMessage_some {budget n : ℕ} {groupTruncated : Bool}
    {projection : MemoryProjection}
    (h : projectMemoryMessage policy message budget payload groupTruncated = .ok projection)
    (hsome : projection.admitted = some (admitted, n)) :
    ((∃ content, admitted = { message with content }) ∧
      estimateMessage policy admitted = .ok n) ∧ n ≤ budget := by
  unfold projectMemoryMessage at h
  split_ifs at h
  · obtain rfl := Except.ok.inj h
    cases hsome
  obtain ⟨⟨reversed, rejected⟩, -, h⟩ := bind_eq_ok.mp h
  obtain ⟨⟨projected, tokens⟩, hprojected, h⟩ := bind_eq_ok.mp h
  dsimp only at h
  split_ifs at h with hover
  · obtain rfl := Except.ok.inj h
    cases hsome
  obtain ⟨⟨noted, notedTokens⟩, hnoted, h⟩ := bind_eq_ok.mp h
  obtain rfl := Except.ok.inj h
  dsimp only at hsome
  split_ifs at hsome with hnote
  · obtain ⟨rfl, rfl⟩ := some_pair_inj hsome
    exact ⟨memoryProjection_ok hnoted, hnote⟩
  · obtain ⟨rfl, rfl⟩ := some_pair_inj hsome
    exact ⟨memoryProjection_ok hprojected, Nat.not_lt.mp hover⟩

end Policy

/-! ## The account of memories -/

section Admission

variable {G : Type}

/-- What became of the memories of one message: those admitted, and a reason for each other. -/
def memoryOutcome (payload : MemoryPayload) (projected : NormalizedMessage G) (selected : Bool) :
    List Text × List (Text × DropReason) :=
  if selected ∧ projected.admittedMessage.isSome then
    (projected.memoryAdmittedIds,
      (payload.candidates.map MemoryCandidate.id).filterMap fun id =>
        if id ∈ projected.memoryAdmittedIds then none
        else some (id, if id ∈ projected.memoryPoolDroppedIds then .memoryPoolBudget
          else .contextWindowBudget))
  else
    ([], (payload.candidates.map MemoryCandidate.id).map fun id =>
      (id, if projected.admittedMessage.isNone ∨ id ∈ projected.memoryPoolDroppedIds then
        .memoryPoolBudget else .contextWindowBudget))

/-- `_memory_admission`. Selected items are projected ones, so that one list gives both. -/
def memoryAdmission (projected : List (NormalizedMessage G)) (selectedIndices : List ℕ)
    (payloads : List (ℕ × MemoryPayload)) : Except PythonError (Option MemoryAdmission) :=
  let items := projected.filter fun item => item.category = .memory
  if items.isEmpty then .ok none
  else do
    let outcomes ← items.mapM fun item =>
      match payloads.lookup item.index with
      | some payload =>
        .ok (payload.candidates.map MemoryCandidate.id,
          memoryOutcome payload item (item.index ∈ selectedIndices))
      | none => .error .keyError
    let admission ← MemoryAdmission.new (outcomes.flatMap Prod.fst)
      (outcomes.flatMap fun outcome => outcome.2.1) (outcomes.flatMap fun outcome => outcome.2.2)
    .ok (some admission)

end Admission

end AgentHub.Context

import AgentHub.Context.Estimates
import AgentHub.Lib.JsonReading

/-!
# Projecting tool results and evidence

A message that does not fit its pool is shortened: its content is read as JSON and cut down to a
legal JSON value whose estimate is within the budget, with labels of trust and truncation at the
root. Budgets are natural numbers; where the source subtracts below zero it stops at once, as a
budget of zero does here.

The source normalises a value again each time it descends. A value read from JSON is already what
this gives, so that the recursion here is over the normalised value itself (`jsonSafe_of_readable`).

## Main definitions

* `jsonSafe`: a value as legal JSON
* `project`: the projection below the root
* `projectJsonValue`: the projection of a whole content
* `projectMessage`: the projection of a message

## Main results

* `jsonSafe_of_readable`: normalising changes nothing twice
* `projectMessage_some`: a projected message is within the budget, its content a projected value
-/

namespace AgentHub.Context

open Lib Transcript

/-! ## Reading JSON -/

/-- `json.loads` without hooks: later members replace earlier ones, and constants are numbers. -/
def plainLoader : Loader Empty where
  objectPairsHook kvs := .ok (kvs.foldl (fun result kv => Json.set result kv.1 kv.2) [])
  parseConstant
    | .nan => .ok (.float .nan)
    | .infinity => .ok (.float (.infinite false))
    | .negInfinity => .ok (.float (.infinite true))

/-- `json.loads(text)`; `none` is a `ValueError`. -/
def jsonLoads (text : Text) : Option Json := (loads plainLoader text).toOption

/-- Members set one after the other have distinct keys. -/
theorem nodup_foldl_set (result kvs : JsonObject) (h : (result.map Prod.fst).Nodup) :
    ((kvs.foldl (fun result kv => Json.set result kv.1 kv.2) result).map Prod.fst).Nodup ∧
      ∀ kv ∈ kvs.foldl (fun result kv => Json.set result kv.1 kv.2) result,
        kv ∈ result ∨ kv ∈ kvs := by
  induction kvs generalizing result with
  | nil => exact ⟨h, fun kv hkv => .inl hkv⟩
  | cons kv kvs ih =>
    obtain ⟨hnodup, hmem⟩ := ih (Json.set result kv.1 kv.2) (Json.nodup_set h)
    refine ⟨hnodup, fun lw hlw => ?_⟩
    rcases hmem lw hlw with hset | hrest
    · rcases Json.mem_set hset with rfl | hold
      · exact .inr List.mem_cons_self
      · exact .inl hold
    · exact .inr (List.mem_cons_of_mem _ hrest)

theorem distinct_plainLoader : plainLoader.Distinct where
  members {kvs lvs} h := by
    obtain rfl := Except.ok.inj h
    obtain ⟨hnodup, hmem⟩ := nodup_foldl_set [] kvs List.nodup_nil
    exact ⟨hnodup, fun kv hkv => (hmem kv hkv).resolve_left List.not_mem_nil⟩
  constant {c j} h := by
    cases c <;> obtain rfl := Except.ok.inj h <;> exact fun _ => rfl

/-- What is read has distinct keys. -/
theorem hasDistinctKeys_jsonLoads {text : Text} {value : Json} (h : jsonLoads text = some value) :
    value.HasDistinctKeys := by
  unfold jsonLoads at h
  cases hloads : loads plainLoader text with
  | error e =>
    rw [hloads] at h
    cases h
  | ok read =>
    rw [hloads] at h
    obtain rfl := Option.some.inj h
    exact distinctKeys_of_loads distinct_plainLoader hloads

/-- `json.dumps(value, ensure_ascii=False, allow_nan=False)` -/
def plain : Style := ⟨false, 1, 1⟩

/-- The value written and read back; `none` is a `ValueError`. -/
def rewritten (value : Json) : Option Json := (value.dumps plain).bind jsonLoads

/-- `str(value)` of a number that is not finite. -/
def nonFiniteText : Binary64 → Option Text
  | .finite _ _ => none
  | .infinite negative => some (Text.ofString (if negative then "-inf" else "inf"))
  | .nan => some (Text.ofString "nan")

mutual

/-- `_json_safe` -/
def jsonSafe : Json → Json
  | .arr xs => (rewritten (.arr xs)).getD (.arr (jsonSafeList xs))
  | .obj kvs => (rewritten (.obj kvs)).getD (.obj (jsonSafeMembers kvs))
  | .float x => (rewritten (.float x)).getD (((nonFiniteText x).map Json.str).getD (.float x))
  | value => (rewritten value).getD value

def jsonSafeList : List Json → List Json
  | [] => []
  | x :: xs => jsonSafe x :: jsonSafeList xs

def jsonSafeMembers : JsonObject → JsonObject
  | [] => []
  | (k, v) :: kvs => (k, jsonSafe v) :: jsonSafeMembers kvs

end

/-- Reading the members of an object with distinct keys into a dictionary. -/
theorem foldl_set (result : JsonObject) {kvs : JsonObject} (h : ((result ++ kvs).map Prod.fst).Nodup) :
    kvs.foldl (fun result kv => Json.set result kv.1 kv.2) result = result ++ kvs := by
  induction kvs generalizing result with
  | nil => simp
  | cons kv kvs ih =>
    have hnew : kv.1 ∉ result.map Prod.fst := by
      rw [List.map_append, List.map_cons] at h
      exact fun hmem => (List.nodup_append.mp h).2.2 kv.1 hmem kv.1 (by simp) rfl
    rw [List.foldl_cons, Json.set_of_not_mem hnew, ih _ (by simpa using h), List.append_assoc]
    rfl

/-- **Normalising a legal value changes nothing.** -/
theorem jsonSafe_of_readable {j : Json} (h : j.allAt Json.readable 0) : jsonSafe j = j := by
  have hdumps : j.dumps plain = some (j.render plain) := by
    have hwritable : j.allAt Json.writable 0 :=
      Json.allAt_mono (fun n i hi => (Bool.and_eq_true_iff.mp hi).1) h
    rw [Json.dumps, if_pos hwritable]
    rfl
  have hloads : loads plainLoader (j.render plain) = .ok j := by
    refine loads_render (fun kvs hkvs => ?_) h
    exact congrArg Except.ok (foldl_set [] hkvs)
  have hrewritten : rewritten j = some j := by
    rw [rewritten, hdumps, Option.bind_some, jsonLoads, hloads]
    rfl
  cases j <;> simp only [jsonSafe, hrewritten, Option.getD_some]

/-- `bool(value)` -/
def truthy : Json → Bool
  | .null => false
  | .bool b => b
  | .int i => i ≠ 0
  | .float (.finite _ n) => (n : ℕ) ≠ 0
  | .float _ => true
  | .str s => s ≠ []
  | .arr xs => xs.isEmpty = false
  | .obj kvs => kvs.isEmpty = false

/-! ## Keys -/

/-- `_PRIORITY_JSON_KEYS` -/
def priorityJsonKeys : List Text :=
  ["status", "error_code", "error", "code", "evidence_refs", "trust", "truncated"].map Text.ofString

/-- `_PRESERVED_SCALAR_KEYS` -/
def preservedScalarKeys : List Text :=
  ["status", "error_code", "error", "code"].map Text.ofString

/-- `_APPROVAL_FACT_KEYS` -/
def approvalFactKeys : List Text :=
  ["approval_decision", "approval_execution"].map Text.ofString

/-- Keys in order, those with `late` after the others. -/
def rankLe (late : Text → Bool) (a b : Text) : Prop :=
  (late a = false ∧ late b = true) ∨ (late a = late b ∧ a.codes ≤ b.codes)

instance (late : Text → Bool) : DecidableRel (rankLe late) :=
  fun _ _ => inferInstanceAs (Decidable (_ ∨ _))

/-- `None`, a string, a number or a boolean. -/
def isScalar : Json → Bool
  | .arr _ | .obj _ => false
  | _ => true

/-- The root label of a projected message. -/
def truncatedKey : Text := Text.ofString "truncated"

/-- `{"items": values, "truncated": True}` -/
def itemsEnvelope (values : List Json) : Json :=
  .obj [(Text.ofString "items", .arr values), (truncatedKey, .bool true)]

/-- A projected value, and whether it was truncated; `none` is `_PROJECTION_UNAVAILABLE`. -/
abbrev Projection := Option (Json × Bool)

section Policy

variable (policy : ContextBudgetPolicy)

/-- The value's estimate is within the budget. -/
def jsonFits (value : Json) (budget : ℕ) : Except PythonError Bool := do
  let estimate ← jsonEstimate policy value
  .ok (estimate ≤ budget)

/-! ## Below the root -/

/-- The loop of `_string_prefix_length` between two lengths. -/
def searchPrefix (value : Text) (budget : ℤ) (low high : ℕ) : Except PythonError ℕ :=
  if _h : low < high then do
    let middle := (low + high + 1) / 2
    let estimate ← jsonEstimate policy (.str (value.take middle))
    if estimate ≤ budget then searchPrefix value budget middle high
    else searchPrefix value budget low (middle - 1)
  else .ok low
  termination_by high - low

/-- `_string_prefix_length`, for a budget that may be negative. -/
def stringPrefixLength (value : Text) (budget : ℤ) : Except PythonError ℕ :=
  searchPrefix policy value budget 0 value.length

/-- The keys `_fit_mapping_to_budget` removes one after the other until the rest fits. -/
def removeToFit (budget : ℕ) : List Text → JsonObject → Except PythonError (Option JsonObject)
  | [], _ => .ok none
  | key :: keys, result => do
    if key ∈ priorityJsonKeys ∨ key = truncatedKey then removeToFit budget keys result
    else
      let result := result.filter fun kv => kv.1 ≠ key
      if ← jsonFits policy (.obj result) budget then .ok (some result)
      else removeToFit budget keys result

/-- `_fit_mapping_to_budget`; below the root there are no trust fields. -/
def fitMappingToBudget (value : JsonObject) (budget : ℕ) :
    Except PythonError (Option JsonObject) := do
  if ← jsonFits policy (.obj value) budget then .ok (some value)
  else
    removeToFit policy budget
      ((value.map Prod.fst).insertionSort (rankLe fun key => key ∈ priorityJsonKeys)) value

/-- A member of an object with the projection of its value. -/
structure Child where
  key : Text
  value : Json
  project : ℕ → Except PythonError Projection

/-- One member: the members kept so far, and whether something was cut. -/
def projectMember (budget : ℕ) (state : JsonObject × Bool) (child : Child) :
    Except PythonError (JsonObject × Bool) := do
  let (result, truncated) := state
  if child.key ∈ preservedScalarKeys ∧ isScalar child.value then
    -- control fields are kept whole or not at all
    let candidate := Json.set result child.key child.value
    if ← jsonFits policy (.obj candidate) budget then .ok (candidate, truncated)
    else .ok (result, true)
  else
    let used ← jsonEstimate policy (.obj result)
    if budget - used = 0 then .ok (result, true)
    else
      let empty ← jsonEstimate policy (.obj [(child.key, .obj [])])
      match ← child.project (budget - used - empty) with
      | none => .ok (result, true)
      | some (value, childTruncated) =>
        let candidate := Json.set result child.key value
        if ← jsonFits policy (.obj candidate) budget then
          .ok (candidate, truncated || childTruncated)
        else .ok (result, true)

/-- The members in order of priority. -/
def sortChildren (children : List Child) : List Child :=
  children.insertionSort fun a b => rankLe (fun key => key ∉ priorityJsonKeys) a.key b.key

/-- An object that does not fit. -/
def projectObject (children : List Child) (budget : ℕ) : Except PythonError Projection := do
  let (result, truncated) ← (sortChildren children).foldlM (projectMember policy budget) ([], false)
  let truncated := truncated || decide (result.length < children.length)
  let fitted ← fitMappingToBudget policy result budget
  .ok (fitted.map fun members => (.obj members, truncated))

/-- The elements of a list that does not fit, after those kept so far. -/
def projectItems (budget : ℕ) :
    List (ℕ → Except PythonError Projection) → List Json → Bool →
      Except PythonError (List Json × Bool)
  | [], values, truncated => .ok (values, truncated)
  | item :: items, values, truncated => do
    let used ← jsonEstimate policy (itemsEnvelope values)
    if budget - used = 0 then .ok (values, true)
    else
      match ← item (budget - used) with
      | none => .ok (values, true)
      | some (value, childTruncated) =>
        if ← jsonFits policy (itemsEnvelope (values ++ [value])) budget then
          projectItems budget items (values ++ [value]) (truncated || childTruncated)
        else .ok (values, true)

/-- A scalar that does not fit: a string may be cut. -/
def projectScalar (value : Json) (budget : ℕ) : Except PythonError Projection := do
  let scalar ← match value with
    | .str s => do
      let length ← stringPrefixLength policy s budget
      pure (Json.str (s.take length))
    | value => pure value
  if ← jsonFits policy scalar budget then .ok (some (scalar, !scalar.equal value)) else .ok none

/-- The projection of evidence, for a value that says which format of evidence it is. -/
def projectEvidence (category : ContextCategory) (value : Json) (budget : ℕ) :
    Option (Except PythonError Projection) :=
  match category, value with
  | .ragEvidence, .obj kvs =>
    let formatted (reproject : JsonObject → ℕ → Except PythonError (Option JsonObject)) := do
      let projected ← reproject kvs budget
      .ok (projected.map fun members =>
        (Json.obj members, truthy (field kvs "truncated") || truthy (field members "truncated")))
    if (field kvs "evidence_format").equal (.str (Text.ofString "rag_view_v1")) then
      some (formatted policy.reprojectEvidenceView)
    else if (field kvs "evidence_format").equal (.str (Text.ofString "rag_records_v1")) then
      some (formatted policy.reprojectRagEvidencePayload)
    else none
  | _, _ => none

/-- What comes before a value is cut below the root. -/
def projectUnlessFits (category : ContextCategory) (value : Json) (budget : ℕ)
    (cut : Except PythonError Projection) : Except PythonError Projection :=
  if budget = 0 then .ok none
  else
    match projectEvidence policy category value budget with
    | some result => result
    | none => do
      if ← jsonFits policy value budget then .ok (some (value, false)) else cut

mutual

/-- `_project_json_value` below the root, on a normalised value. -/
def project (category : ContextCategory) : Json → ℕ → Except PythonError Projection
  | .obj kvs, budget =>
    projectUnlessFits policy category (.obj kvs) budget
      (projectObject policy (projectMembers category kvs) budget)
  | .arr xs, budget =>
    projectUnlessFits policy category (.arr xs) budget do
      let (values, truncated) ← projectItems policy budget (projectElements category xs) [] false
      .ok (some (.arr values, truncated))
  | value, budget =>
    projectUnlessFits policy category value budget (projectScalar policy value budget)

def projectMembers (category : ContextCategory) : JsonObject → List Child
  | [] => []
  | (k, v) :: kvs => ⟨k, v, fun budget => project category v budget⟩ :: projectMembers category kvs

def projectElements (category : ContextCategory) :
    List Json → List (ℕ → Except PythonError Projection)
  | [] => []
  | x :: xs => (fun budget => project category x budget) :: projectElements category xs

end

/-! ## The root -/

/-- The labels the root of a projected value carries. -/
def trustFields (category : ContextCategory) (value : Json) : JsonObject :=
  if category.isUntrusted then [(Text.ofString "trust", .str (Text.ofString "UNTRUSTED"))]
  else
    match value with
    | .obj kvs => ["trust", "data_trust"].filterMap fun key =>
        (Json.get? kvs (Text.ofString key)).map fun label => (Text.ofString key, label)
    | _ => []

/-- The approval facts of a tool result: both, and both strings, or none. -/
def approvalFields (category : ContextCategory) (value : Json) : JsonObject :=
  match category, value with
  | .toolResult, .obj kvs =>
    match Json.get? kvs (Text.ofString "approval_decision"),
      Json.get? kvs (Text.ofString "approval_execution") with
    | some (.str decision), some (.str execution) =>
      [(Text.ofString "approval_decision", .str decision),
        (Text.ofString "approval_execution", .str execution)]
    | _, _ => []
  | _, _ => []

/-- Some approval fact is among the members of a tool result. -/
def approvalKeysPresent (category : ContextCategory) (value : Json) : Bool :=
  match category, value with
  | .toolResult, .obj kvs => approvalFactKeys.any (· ∈ kvs.map Prod.fst)
  | _, _ => false

/-- `{**first, **second}` -/
def merge (first second : JsonObject) : JsonObject :=
  second.foldl (fun result kv => Json.set result kv.1 kv.2) first

/-- The value without the labels, which the root carries itself. -/
def businessValue : Json → Json
  | .obj kvs => .obj (kvs.filter fun kv =>
      kv.1 ∉ ["trust", "data_trust", "truncated"].map Text.ofString ++ approvalFactKeys)
  | value => value

/-- `normalized.get("truncated") is True` -/
def isMarkedTruncated : Json → Bool
  | .obj kvs =>
    match Json.get? kvs truncatedKey with
    | some (.bool true) => true
    | _ => false
  | _ => false

/-- The projected value with the root's labels, and whether something was cut. -/
def withEnvelope (category : ContextCategory) (normalized projected : Json)
    (childTruncated includeApproval : Bool) (labels : JsonObject) :
    Except PythonError (JsonObject × Bool) :=
  match businessValue normalized with
  | .obj business =>
    match projected with
    | .obj members =>
      let originalTruncated := isMarkedTruncated normalized
      .ok (merge members labels, childTruncated || originalTruncated ||
        decide (members.length < business.length) ||
        (approvalKeysPresent category normalized && !includeApproval))
    | _ => .error (.typeError "argument must be a mapping")
  | .arr _ => .ok (merge [(Text.ofString "items", projected)] labels, childTruncated)
  | _ => .ok (merge [(Text.ofString "value", projected)] labels, childTruncated)

/-- `project_with_root_envelope` -/
def projectWithRootEnvelope (category : ContextCategory) (normalized : Json) (budget : ℕ)
    (reserveTruncated includeApproval : Bool) : Except PythonError Projection := do
  let labels := merge (trustFields category normalized)
    (if includeApproval then approvalFields category normalized else [])
  let envelope := if reserveTruncated then Json.set labels truncatedKey (.bool true) else labels
  let used ← jsonEstimate policy (.obj envelope)
  if budget - used = 0 then .ok none
  else
    match ← project policy category (businessValue normalized) (budget - used) with
    | none => .ok none
    | some (projected, childTruncated) =>
      let (candidate, wasTruncated) ←
        withEnvelope category normalized projected childTruncated includeApproval labels
      let candidate := if wasTruncated then Json.set candidate truncatedKey (.bool true)
        else candidate
      if ← jsonFits policy (.obj candidate) budget then .ok (some (.obj candidate, wasTruncated))
      else .ok none

/-- The attempts with an envelope, and after them a bare marker. -/
def projectRoot (category : ContextCategory) (normalized : Json) (budget : ℕ) :
    List Bool → Except PythonError Projection
  | includeApproval :: attempts => do
    match ← projectWithRootEnvelope policy category normalized budget false includeApproval with
    | some (value, false) => .ok (some (value, false))
    | _ =>
      match ← projectWithRootEnvelope policy category normalized budget true includeApproval with
      | some result => .ok (some result)
      | none => projectRoot category normalized budget attempts
  | [] => do
    let marker := merge [(truncatedKey, .bool true)] (trustFields category normalized)
    if ← jsonFits policy (.obj marker) budget then .ok (some (.obj marker, true)) else .ok none

/-- The value with its labels, where it fits as it is. -/
def labelled (category : ContextCategory) (normalized : Json) : Option Json :=
  match trustFields category normalized, normalized with
  | [], _ => some normalized
  | trust, .obj kvs => some (.obj (merge kvs trust))
  | _, _ => none

/-- `_project_json_value` at the root. -/
def projectJsonValue (category : ContextCategory) (value : Json) (budget : ℕ) :
    Except PythonError Projection :=
  if budget = 0 then .ok none
  else
    let normalized := jsonSafe value
    match projectEvidence policy category normalized budget with
    | some result => result
    | none => do
      let fits ← jsonFits policy normalized budget
      let whole ← match fits, labelled category normalized with
        | true, some candidate => do
          if ← jsonFits policy candidate budget then pure (some candidate) else pure none
        | _, _ => pure none
      match whole with
      | some candidate => .ok (some (candidate, false))
      | none =>
        projectRoot policy category normalized budget
          (if (approvalFields category normalized).isEmpty then [false] else [true, false])

/-! ## Messages -/

/-- The content of a message as a value: JSON if it is that, or a string. -/
def parsedContent : Option Text → Json
  | none => .null
  | some raw => (jsonLoads raw).getD (.str raw)

/-- The message with the projected value as its content, where it is within the budget. -/
def projectedMessage (message : ModelMessage JsonObject) (projected : Json) :
    Except PythonError (ModelMessage JsonObject × ℕ) := do
  let content ← jsonDumps projected
  let message := { message with content := some content }
  let estimated ← estimateMessage policy message
  .ok (message, estimated)

/-- `_project_message` -/
def projectMessage (message : ModelMessage JsonObject) (budget : ℕ) (category : ContextCategory) :
    Except PythonError (Option (ModelMessage JsonObject × ℕ)) :=
  if budget = 0 then .ok none
  else do
    let parsed := parsedContent message.content
    let metadata ← estimateMessage policy { message with content := some [] }
    let projectionBudget := budget - metadata
    if projectionBudget = 0 then .ok none
    else
      match ← projectJsonValue policy category parsed projectionBudget with
      | none => .ok none
      | some (projected, wasTruncated) =>
        let content ← jsonDumps projected
        if wasTruncated ∧ (jsonLoads content).isNone then .ok none
        else
          let (admitted, estimated) ← projectedMessage policy message projected
          if estimated ≤ budget then .ok (some (admitted, estimated))
          else
            -- what the envelope overshoots is taken from the content
            match ← projectJsonValue policy category parsed
                (projectionBudget - (estimated - budget)) with
            | none => .ok none
            | some (projected, _) =>
              let (admitted, estimated) ← projectedMessage policy message projected
              if estimated ≤ budget then .ok (some (admitted, estimated)) else .ok none

variable {policy} {message admitted : ModelMessage JsonObject}

/-- Only the content of a projected message is another one. -/
theorem projectedMessage_ok {projected : Json} {n : ℕ}
    (h : projectedMessage policy message projected = .ok (admitted, n)) :
    ∃ content, jsonDumps projected = .ok content ∧
      admitted = { message with content := some content } ∧
      estimateMessage policy admitted = .ok n := by
  simp only [projectedMessage, bind_eq_ok, Except.ok.injEq, Prod.mk.injEq] at h
  obtain ⟨content, hcontent, estimated, hestimated, rfl, rfl⟩ := h
  exact ⟨content, hcontent, rfl, hestimated⟩

/-- **A projected message**: its content was projected to what the budget leaves beside the other
fields, or, where that turned out too large, to less. -/
theorem projectMessage_some {budget n : ℕ} {category : ContextCategory}
    (h : projectMessage policy message budget category = .ok (some (admitted, n))) :
    n ≤ budget ∧ ∃ metadata b projected truncated,
      estimateMessage policy { message with content := some [] } = .ok metadata ∧
      projectJsonValue policy category (parsedContent message.content) b =
        .ok (some (projected, truncated)) ∧
      projectedMessage policy message projected = .ok (admitted, n) ∧
      (b = budget - metadata ∨ b ≤ budget - metadata ∧ ∃ first cut message' e,
        projectJsonValue policy category (parsedContent message.content) (budget - metadata) =
          .ok (some (first, cut)) ∧
        projectedMessage policy message first = .ok (message', e) ∧ budget < e) := by
  unfold projectMessage at h
  split_ifs at h
  · cases h
  obtain ⟨metadata, hmetadata, h⟩ := bind_eq_ok.mp h
  dsimp only at h
  split_ifs at h
  · cases h
  obtain ⟨projection, hprojection, h⟩ := bind_eq_ok.mp h
  rcases projection with - | ⟨projected, wasTruncated⟩
  · cases h
  obtain ⟨content, -, h⟩ := bind_eq_ok.mp h
  split_ifs at h
  · cases h
  obtain ⟨⟨first, estimated⟩, hfirst, h⟩ := bind_eq_ok.mp h
  dsimp only at h
  split_ifs at h with hfits
  · obtain ⟨rfl, rfl⟩ := some_pair_inj (Except.ok.inj h)
    exact ⟨hfits, metadata, _, projected, wasTruncated, hmetadata, hprojection, hfirst, Or.inl rfl⟩
  -- the second attempt, with what was left of the budget
  obtain ⟨again, hagain, h⟩ := bind_eq_ok.mp h
  rcases again with - | ⟨projected', truncated⟩
  · cases h
  obtain ⟨⟨second, estimated'⟩, hsecond, h⟩ := bind_eq_ok.mp h
  dsimp only at h
  split_ifs at h with hfits'
  · obtain ⟨rfl, rfl⟩ := some_pair_inj (Except.ok.inj h)
    exact ⟨hfits', metadata, _, projected', truncated, hmetadata, hagain, hsecond,
      Or.inr ⟨Nat.sub_le _ _, projected, wasTruncated, first, estimated, hprojection, hfirst,
        Nat.not_le.mp hfits⟩⟩
  · cases h

end Policy

end AgentHub.Context

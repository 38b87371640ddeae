import AgentHub.Context.Projection

/-!
# Proposed claims

The model proposes claims about one source chunk as a JSON object. The schema bounds the texts of a
claim and the number of claims; what it accepts is written back as JSON when it is stored, and
reading that again gives the same claims.

## Main definitions

* `ClaimProposal`: a claim within the bounds of the schema
* `Extraction`: a list of claims within its bound
* `Extraction.modelValidate`, `Extraction.modelDump`: reading and writing

## Main results

* `Extraction.modelValidate_payload`: what is written is read back
-/

namespace AgentHub.Wiki

open Lib Transcript

/-- `_MAX_CLAIMS` -/
def maxClaims : ℕ := 100

/-- `_MAX_RELATED_TOPICS` -/
def maxRelatedTopics : ℕ := 12

/-! ## Claims -/

inductive ClaimKind
  | concept | entity | topic
  deriving DecidableEq, Repr

namespace ClaimKind

def text : ClaimKind → Text
  | concept => Text.ofString "concept"
  | entity => Text.ofString "entity"
  | topic => Text.ofString "topic"

/-- The literal of the schema. -/
def ofText? (s : Text) : Option ClaimKind := [concept, entity, topic].find? fun k => k.text = s

theorem ofText?_text (k : ClaimKind) : ofText? k.text = some k := by
  cases k <;> decide +kernel

end ClaimKind

/-- The fields of a claim, with the defaults of the schema. -/
structure ProposalFields where
  topic : Text
  kind : ClaimKind
  predicate : Text
  value : Text
  condition : Text := []
  chunkId : Text
  quote : Text
  relatedTopics : List Text := []
  deriving DecidableEq

/-- A string with bounds on its length, which then has no surrogates. -/
def boundedText (minLength maxLength : ℕ) (s : Text) : Bool :=
  s.encodable && minLength ≤ s.length && s.length ≤ maxLength

namespace ProposalFields

/-- The bounds of the schema. -/
def isValid (p : ProposalFields) : Bool :=
  boundedText 0 120 p.topic && boundedText 0 120 p.predicate && boundedText 0 300 p.value &&
    boundedText 0 300 p.condition && boundedText 1 2000 p.quote &&
    p.relatedTopics.length ≤ maxRelatedTopics

/-- `model_dump(mode="json")` -/
def modelDump (p : ProposalFields) : Json :=
  .obj [(Text.ofString "topic", .str p.topic), (Text.ofString "kind", .str p.kind.text),
    (Text.ofString "predicate", .str p.predicate), (Text.ofString "value", .str p.value),
    (Text.ofString "condition", .str p.condition), (Text.ofString "chunk_id", .str p.chunkId),
    (Text.ofString "quote", .str p.quote),
    (Text.ofString "related_topics", .arr (p.relatedTopics.map .str))]

end ProposalFields

/-- `ClaimProposal` -/
structure ClaimProposal extends ProposalFields where
  valid : toProposalFields.isValid = true
  deriving DecidableEq

/-- The names of the fields; others are forbidden. -/
def proposalKeys : List Text :=
  ["topic", "kind", "predicate", "value", "condition", "chunk_id", "quote", "related_topics"].map
    Text.ofString

/-- A string, in strict mode. -/
def strictStr : Json → Option Text
  | .str s => some s
  | _ => none

/-- A list of strings. -/
def strictStrs : Json → Option (List Text)
  | .arr xs => xs.mapM strictStr
  | _ => none

/-- The value of a field that may be missing. -/
def optionalField {α : Type} (kvs : JsonObject) (key : String) (read : Json → Option α)
    (missing : Option α) : Option α :=
  match Json.get? kvs (Text.ofString key) with
  | some value => read value
  | none => missing

/-- The fields of a claim as the schema reads them. -/
def ProposalFields.ofJson : Json → Option ProposalFields
  | .obj kvs => do
    guard (kvs.all fun kv => kv.1 ∈ proposalKeys)
    let topic ← optionalField kvs "topic" strictStr none
    let kind ← (optionalField kvs "kind" strictStr none).bind ClaimKind.ofText?
    let predicate ← optionalField kvs "predicate" strictStr none
    let value ← optionalField kvs "value" strictStr none
    let condition ← optionalField kvs "condition" strictStr (some [])
    let chunkId ← optionalField kvs "chunk_id" strictStr none
    let quote ← optionalField kvs "quote" strictStr none
    let relatedTopics ← optionalField kvs "related_topics" strictStrs (some [])
    some { topic, kind, predicate, value, condition, chunkId, quote, relatedTopics }
  | _ => none

theorem strictStrs_map (topics : List Text) :
    strictStrs (.arr (topics.map .str)) = some topics := by
  induction topics with
  | nil => rfl
  | cons t topics ih =>
    rw [strictStrs] at ih ⊢
    rw [List.map_cons, List.mapM_cons, ih]
    rfl

theorem ProposalFields.ofJson_modelDump (p : ProposalFields) : ofJson p.modelDump = some p := by
  obtain ⟨topic, kind, predicate, value, condition, chunkId, quote, relatedTopics⟩ := p
  -- every key is looked up among the eight literals
  change ((ClaimKind.ofText? kind.text).bind fun kind =>
    (strictStrs (.arr (relatedTopics.map .str))).bind fun relatedTopics =>
      some (ProposalFields.mk topic kind predicate value condition chunkId quote relatedTopics)) = _
  rw [ClaimKind.ofText?_text, strictStrs_map]
  rfl

namespace ClaimProposal

/-- `ClaimProposal.model_validate`; `none` is a `ValidationError`. -/
def modelValidate (j : Json) : Option ClaimProposal :=
  (ProposalFields.ofJson j).bind fun fields =>
    if h : fields.isValid = true then some ⟨fields, h⟩ else none

theorem modelValidate_modelDump (p : ClaimProposal) : modelValidate p.modelDump = some p := by
  rw [modelValidate, ProposalFields.ofJson_modelDump, Option.bind_some, dif_pos p.valid]

end ClaimProposal

/-! ## Extractions -/

/-- `Extraction` -/
structure Extraction where
  claims : List ClaimProposal := []
  bounded : claims.length ≤ maxClaims

namespace Extraction

/-- `Extraction(claims=claims)`; `none` is a `ValidationError`. -/
def new (claims : List ClaimProposal) : Option Extraction :=
  if h : claims.length ≤ maxClaims then some ⟨claims, h⟩ else none

/-- Claims as the member of an object. -/
def payload (claims : List ClaimProposal) : Json :=
  .obj [(Text.ofString "claims", .arr (claims.map fun claim => claim.modelDump))]

/-- `model_dump(mode="json")` -/
def modelDump (e : Extraction) : Json := payload e.claims

/-- The claims in a list. -/
def claimsOf : Json → Option (List ClaimProposal)
  | .arr xs => xs.mapM ClaimProposal.modelValidate
  | _ => none

/-- `Extraction.model_validate`; `none` is a `ValidationError`. -/
def modelValidate : Json → Option Extraction
  | .obj kvs =>
    if kvs.all fun kv => kv.1 = Text.ofString "claims" then
      (optionalField kvs "claims" claimsOf (some [])).bind new
    else none
  | _ => none

/-- **What is written is read back**, where it is within the bound. -/
theorem modelValidate_payload (claims : List ClaimProposal) :
    modelValidate (payload claims) = new claims := by
  have hclaims : claimsOf (.arr (claims.map fun claim => claim.modelDump)) = some claims := by
    rw [claimsOf, mapM_eq_some_iff, List.forall₂_map_left_iff, List.forall₂_same]
    exact fun claim _ => ClaimProposal.modelValidate_modelDump claim
  change (claimsOf (.arr (claims.map fun claim => claim.modelDump))).bind new = new claims
  rw [hclaims, Option.bind_some]

theorem new_eq_some_iff {claims : List ClaimProposal} {e : Extraction} :
    new claims = some e ↔ e.claims = claims := by
  obtain ⟨claims', hbounded⟩ := e
  unfold new
  split_ifs with h
  · rw [Option.some_inj, mk.injEq, eq_comm]
  · simp only [false_iff]
    exact fun heq => h (heq ▸ hbounded)

end Extraction

/-! ## The text of an extraction -/

/-- A legal value is read back from its text. -/
theorem jsonLoads_render {j : Json} (h : j.allAt Json.readable 0) :
    Context.jsonLoads (j.render Context.plain) = some j := by
  have hloads : loads Context.plainLoader (j.render Context.plain) = .ok j := by
    refine loads_render (fun kvs hkvs => ?_) h
    exact congrArg Except.ok (Context.foldl_set [] hkvs)
  rw [Context.jsonLoads, hloads]
  rfl

theorem readable_proposal (p : ProposalFields) (d : ℕ) : p.modelDump.allAt Json.readable d := by
  have hstr (s : Text) (n : ℕ) : (Json.str s).allAt Json.readable n := rfl
  have hkeys : proposalKeys.Nodup := by decide +kernel
  refine Json.allAt_obj.mpr ⟨decide_eq_true hkeys, fun kv hkv => ?_⟩
  simp only [List.mem_cons, List.not_mem_nil, or_false] at hkv
  rcases hkv with rfl | rfl | rfl | rfl | rfl | rfl | rfl | rfl
  case inr.inr.inr.inr.inr.inr.inr =>
    refine Json.allAt_arr.mpr ⟨rfl, fun x hx => ?_⟩
    obtain ⟨s, -, rfl⟩ := List.mem_map.mp hx
    exact hstr s _
  all_goals exact hstr _ _

/-- The text of claims is read back. -/
theorem jsonLoads_payload (claims : List ClaimProposal) :
    Context.jsonLoads ((Extraction.payload claims).render Context.plain) =
      some (Extraction.payload claims) := by
  refine jsonLoads_render (Json.allAt_obj.mpr ⟨rfl, fun kv hkv => ?_⟩)
  obtain rfl := List.mem_singleton.mp hkv
  refine Json.allAt_arr.mpr ⟨rfl, fun x hx => ?_⟩
  obtain ⟨claim, -, rfl⟩ := List.mem_map.mp hx
  exact readable_proposal _ _

end AgentHub.Wiki

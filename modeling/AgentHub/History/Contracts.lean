import AgentHub.Context.Estimates
import Mathlib.Data.List.Lex
import Mathlib.Data.Prod.Lex

/-!
# Contracts of history planning

Source groups are the units a plan retains or drops, with the identity and the revision of their
source; a plan lists one decision for each group it measured. Structures carry what their
constructors check.

Integers the source checks to be non-negative are natural numbers here. The counter and the
verifier of summaries are injected: a counter may raise or return a negative number, a verifier may
raise.

## Main definitions

* `HistoryScope`, `HistorySourceGroup`: what is planned
* `HistoryTokenCounter`, `PlanOptions`: what a plan is given besides the groups
* `SourceGroupDecision`, `HistoryPlan`: the plan
* `HistoryError`: what is raised
-/

namespace AgentHub.History

open Lib Context

/-! ## Enumerations -/

inductive HistoryCategory
  | mandatory | keepExact | recent | verifiedSummary | optional
  deriving DecidableEq, Repr

inductive SummaryEligibility
  | eligible | ineligible | unknown
  deriving DecidableEq, Repr

inductive PlanPressure
  | none | soft | hard
  deriving DecidableEq, Repr

inductive DecisionReason
  | retainedMandatory | retainedKeepExact | retainedRecent | retainedVerifiedSummary
  | retainedOptional | droppedSharedBudget | droppedRecentSuffixGap | droppedCoveredBySummary
  | droppedSummaryNotNeeded | droppedSummaryCoverageInvalid
  deriving DecidableEq, Repr

inductive EligibilityReason
  | explicitCategory | unknownCategoryKeepExact | unknownSummaryEligibilityKeepExact
  | publisherMarkedSummaryEligible | publisherMarkedSummaryIneligible | verifiedSummary
  deriving DecidableEq, Repr

inductive PlanReason
  | noPressure | softThresholdReachedBeforeTrim | hardThresholdReachedBeforeTrim
  | targetMetAfterPlanning | sharedBudgetTrimRequired | verifiedSummaryUsed | workLimitReached
  | keepExactOmitted | recentGroupOmitted | verifiedSummaryCoverageInvalid | hardLimitNotSatisfied
  deriving DecidableEq, Repr

inductive InsufficiencyCode
  | workLimitReached | noEligibleSource | noVerifiedSummary | keepExactNotRetained
  | recentSourceNotRetained | verifiedSummaryNotRetained | verifiedSummaryCoverageInvalid
  | postTrimPlannedAtOrAboveHardLimit
  deriving DecidableEq, Repr

/-! ## Errors -/

inductive HistoryError
  /-- `AgentHubError`, by its code -/
  | agentHub (code message : String)
  /-- `HistoryPlanContractError` -/
  | contract (message : String)
  | python (error : PythonError)
  deriving DecidableEq, Repr

/-- `ValueError` -/
def HistoryError.value (message : String) : HistoryError := .python (.valueError message)

/-- An exception of the interpreter passes through. -/
def raising {α : Type} (x : Except PythonError α) : Except HistoryError α := x.mapError .python

@[simp] theorem raising_eq_ok {α : Type} {x : Except PythonError α} {a : α} :
    raising x = .ok a ↔ x = .ok a := by
  cases x <;> simp [raising, Except.mapError]

/-- `_require_text` -/
def requireText (value : Text) (name : String) : Option String :=
  if value = [] ∨ value ≠ strip CodePoint.isSpace value then
    some (name ++ " must be a non-empty trimmed string")
  else none

/-- `_require_positive_int` -/
def requirePositiveInt (value : ℕ) (name : String) : Option String :=
  if value = 0 then some (name ++ " must be a positive integer") else none

/-- The first of several checks that fails. -/
def firstFault (checks : List (Option String)) : Option String := checks.findSome? id

theorem firstFault_eq_none {checks : List (Option String)} :
    firstFault checks = none ↔ ∀ check ∈ checks, check = none := by
  simp [firstFault]

/-! ## Source groups -/

structure ScopeFields where
  workspaceId : Text
  threadId : Text
  permissionSnapshot : Text
  deriving DecidableEq

def ScopeFields.fault (s : ScopeFields) : Option String :=
  firstFault [requireText s.workspaceId "workspace_id", requireText s.threadId "thread_id",
    requireText s.permissionSnapshot "permission_snapshot"]

/-- `HistoryScope`, as its constructor admits it. -/
structure HistoryScope extends ScopeFields where
  valid : toScopeFields.fault = none
  deriving DecidableEq

/-- `HistoryScope(...)` -/
def HistoryScope.new (s : ScopeFields) : Except HistoryError HistoryScope :=
  match h : s.fault with
  | some message => .error (.value message)
  | none => .ok ⟨s, h⟩

/-- One exact source revision covered by a summary. -/
structure SummaryCoverage where
  sourceGroupId : Text
  sourceRevision : Text
  groupId_ok : requireText sourceGroupId "source_group_id" = none
  revision_ok : requireText sourceRevision "source_revision" = none
  deriving DecidableEq

structure GroupFields where
  groupId : Text
  scope : HistoryScope
  revision : Text
  sequence : ℕ
  watermark : ℕ
  exchangeId : Text
  originalRef : Text
  countVersion : ℕ
  category : Option HistoryCategory := none
  summaryEligibility : SummaryEligibility := .unknown
  summaryEligibilityReason : Text := Text.ofString "UNSPECIFIED"
  coverage : List SummaryCoverage := []
  verified : Bool := false
  verificationRef : Option Text := none
  deriving DecidableEq

/-- The check of `HistorySourceGroup` on verification and coverage. -/
def GroupFields.summaryFault (g : GroupFields) : Option String :=
  if g.category = some .verifiedSummary then
    if ¬ g.verified ∨ g.verificationRef = none ∨ g.coverage = [] then
      some "VERIFIED_SUMMARY requires a verification_ref and coverage"
    else none
  else if g.verified ∨ g.verificationRef ≠ none ∨ g.coverage ≠ [] then
    some "only VERIFIED_SUMMARY groups may carry verification or coverage"
  else none

def GroupFields.fault (g : GroupFields) : Option String :=
  firstFault [requireText g.groupId "group_id", requireText g.revision "revision",
    requireText g.exchangeId "exchange_id", requireText g.originalRef "original_ref",
    requirePositiveInt g.countVersion "count_version",
    requireText g.summaryEligibilityReason "summary_eligibility_reason",
    if (g.coverage.map fun c => (c.sourceGroupId, c.sourceRevision)).Nodup then none
    else some "coverage contains duplicate source revisions",
    g.verificationRef.bind fun ref => requireText ref "verification_ref",
    g.summaryFault,
    if g.summaryEligibility = .eligible ∧ g.category ≠ some .optional then
      some "only explicit OPTIONAL groups may be summary-eligible"
    else none]

/-- `HistorySourceGroup`, as its constructor admits it. -/
structure HistorySourceGroup extends GroupFields where
  valid : toGroupFields.fault = none
  deriving DecidableEq

/-- `HistorySourceGroup(...)` -/
def HistorySourceGroup.new (g : GroupFields) : Except HistoryError HistorySourceGroup :=
  match h : g.fault with
  | some message => .error (.value message)
  | none => .ok ⟨g, h⟩

theorem HistorySourceGroup.new_eq_ok {g : GroupFields} {group : HistorySourceGroup} :
    HistorySourceGroup.new g = .ok group ↔ group.toGroupFields = g := by
  unfold HistorySourceGroup.new
  split
  · next message h =>
    refine iff_of_false (by simp) fun hg => ?_
    rw [← hg, group.valid] at h
    exact absurd h (by simp)
  · next h =>
    rw [Except.ok.injEq]
    constructor
    · rintro rfl
      rfl
    · rintro rfl
      rfl

/-- The order of sources: by sequence, then by the code points of the id. -/
def GroupFields.key (g : GroupFields) : ℕ ×ₗ List ℕ := toLex (g.sequence, g.groupId.codes)

theorem groupId_eq_of_key_eq {g h : GroupFields} (hkey : g.key = h.key) : g.groupId = h.groupId :=
  Text.codes_injective (Prod.ext_iff.mp (toLex.injective hkey)).2

/-! ## Options -/

/-- `HistoryTokenCounter`. `count` is `none` where it raises. -/
structure HistoryTokenCounter where
  counterId : Text
  counterVersion : ℕ
  count : HistorySourceGroup → Option ℤ

structure HistoryWorkLimit where
  maxGroups : ℕ
  pos : 0 < maxGroups

structure HistoryThresholds where
  bWorkTokens : ℤ
  softPercent : ℤ
  hardPercent : ℤ
  targetPercent : ℤ
  softTokens : ℤ
  hardTokens : ℤ
  targetTokens : ℤ
  deriving DecidableEq, Repr

/-- The entries of a mapping that `_thresholds` reads. -/
structure ThresholdMapping where
  softPercent : Option ℤ := none
  softTriggerPercent : Option ℤ := none
  hardPercent : Option ℤ := none
  hardTriggerPercent : Option ℤ := none
  targetPercent : Option ℤ := none
  soft : Option ℤ := none
  hard : Option ℤ := none
  target : Option ℤ := none
  deriving DecidableEq, Repr

/-- The argument `thresholds` of `plan_history`. -/
inductive ThresholdsArgument
  | given (thresholds : HistoryThresholds)
  | mapping (custom : ThresholdMapping)
  | absent
  deriving DecidableEq, Repr

/-- The arguments of `plan_history` besides the groups. -/
structure PlanOptions where
  scope : HistoryScope
  frozenWatermark : ℕ
  counter : HistoryTokenCounter
  bWorkTokens : ℕ
  unaccountedGrowthTokens : ℕ := 0
  workLimit : Option HistoryWorkLimit := none
  summaryVerifier : Option (HistorySourceGroup → HistoryScope → Except HistoryError Bool) := none
  expectedCounterId : Option Text := none
  expectedCounterVersion : Option ℕ := none
  thresholds : ThresholdsArgument := .absent

/-! ## Plans -/

structure SourceGroupDecision where
  groupId : Text
  revision : Text
  sequence : ℕ
  exchangeId : Text
  category : HistoryCategory
  summaryEligibility : SummaryEligibility
  summaryEligibilityReason : Text
  eligibilityReason : EligibilityReason
  tokens : ℕ
  retained : Bool
  reason : DecisionReason
  coveredBySummaryId : Option Text
  deriving DecidableEq

structure Insufficiency where
  code : InsufficiencyCode
  blocking : Bool
  message : String
  deriving DecidableEq, Repr

structure HistoryPlan where
  scope : HistoryScope
  frozenWatermark : ℕ
  counterId : Text
  counterVersion : ℕ
  workLimit : ℕ
  inputGroupCount : ℕ
  measuredGroupCount : ℕ
  unmeasuredGroupCount : ℕ
  measurementComplete : Bool
  unmeasuredGroupIds : List Text
  thresholds : HistoryThresholds
  preTrimTokens : ℕ
  unaccountedGrowthTokens : ℕ
  plannedTokens : ℕ
  retainedTokens : ℕ
  retainedPlannedTokens : ℕ
  preTrimPressure : PlanPressure
  postTrimPressure : PlanPressure
  retainedGroupIds : List Text
  droppedGroupIds : List Text
  decisions : List SourceGroupDecision
  reasons : List PlanReason
  insufficiencies : List Insufficiency
  readyForDispatch : Bool
  deriving DecidableEq

end AgentHub.History

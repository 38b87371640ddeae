import AgentHub.History.Contracts
import AgentHub.Lib.Sorting

/-!
# The history planner

`plan_history`: the groups are validated, ordered and measured up to the work limit; then the
phases share the working budget. Mandatory groups come first, then what must be kept exactly, the
recent suffix, summaries in place of the sources they cover, and last the optional groups. What the
phases leave out is reported as insufficient where it blocks.

The source keeps its decisions in a dictionary and the retained ids in a set. Group ids are unique,
and an id joins the set when its decision is a retained one, so a list of decisions is both.

## Main definitions

* `validateAndOrderGroups`, `measureGroup`: from groups to measured groups
* `fillGroups`, `fillRecent`, `fillSummaries`: the loops of the phases
* `chooseGroups`: all phases
* `planHistory`: the plan
-/

namespace AgentHub.History

open Lib Context

/-! ## Thresholds and pressure -/

def softTriggerPercent : ℤ := 70

def hardTriggerPercent : ℤ := 85

def targetPercent : ℤ := 55

/-- `_thresholds` -/
def thresholdsOf (bWorkTokens : ℕ) : ThresholdsArgument → HistoryThresholds
  | .given thresholds => thresholds
  | .mapping custom =>
    let soft := custom.softPercent.getD (custom.softTriggerPercent.getD softTriggerPercent)
    let hard := custom.hardPercent.getD (custom.hardTriggerPercent.getD hardTriggerPercent)
    let target := custom.targetPercent.getD targetPercent
    { bWorkTokens
      softPercent := soft
      hardPercent := hard
      targetPercent := target
      softTokens := custom.soft.getD ((soft * bWorkTokens + 99) / 100)
      hardTokens := custom.hard.getD ((hard * bWorkTokens + 99) / 100)
      targetTokens := custom.target.getD (target * bWorkTokens / 100) }
  | .absent =>
    { bWorkTokens
      softPercent := softTriggerPercent
      hardPercent := hardTriggerPercent
      targetPercent
      softTokens := (softTriggerPercent * bWorkTokens + 99) / 100
      hardTokens := (hardTriggerPercent * bWorkTokens + 99) / 100
      targetTokens := targetPercent * bWorkTokens / 100 }

/-- `_pressure` -/
def pressure (tokens : ℕ) (thresholds : HistoryThresholds) : PlanPressure :=
  if thresholds.hardTokens ≤ tokens then .hard
  else if thresholds.softTokens ≤ tokens then .soft
  else .none

/-! ## Validation and measurement -/

/-- The checks of `_validate_and_order_groups`, with the ids and exchanges seen so far. -/
def validateGroups (o : PlanOptions) :
    List Text → List Text → List HistorySourceGroup → Except HistoryError Unit
  | _, _, [] => .ok ()
  | identities, exchangeOwners, group :: groups => do
    raiseIf (group.scope ≠ o.scope) (.contract "source scope differs from the frozen plan scope")
    raiseIf (group.watermark ≠ o.frozenWatermark ∨ o.frozenWatermark ≤ group.sequence)
      (.contract "source group is newer than the frozen watermark")
    raiseIf (group.countVersion ≠ o.counter.counterVersion)
      (.contract "source group count version differs from its counter")
    raiseIf (group.groupId ∈ identities) (.contract "duplicate source group identity")
    raiseIf (group.exchangeId ∈ exchangeOwners)
      (.contract "one atomic exchange was split across source groups")
    validateGroups o (group.groupId :: identities) (group.exchangeId :: exchangeOwners) groups

/-- `sorted(values, key=lambda item: (item.sequence, item.group_id))` -/
def orderGroups (groups : List HistorySourceGroup) : List HistorySourceGroup :=
  sortBy (fun g => g.key) groups

/-- `_validate_and_order_groups` -/
def validateAndOrderGroups (o : PlanOptions) (groups : List HistorySourceGroup) :
    Except HistoryError (List HistorySourceGroup) := do
  validateGroups o [] [] groups
  .ok (orderGroups groups)

/-- `_effective_category`: what is not known to be optional is kept exactly. -/
def effectiveCategory (group : GroupFields) : HistoryCategory × EligibilityReason :=
  match group.category with
  | none => (.keepExact, .unknownCategoryKeepExact)
  | some category =>
    if category = .optional ∧ group.summaryEligibility = .unknown then
      (.keepExact, .unknownSummaryEligibilityKeepExact)
    else if group.summaryEligibility = .eligible then (category, .publisherMarkedSummaryEligible)
    else if group.summaryEligibility = .ineligible then
      (category, .publisherMarkedSummaryIneligible)
    else if category = .verifiedSummary then (category, .verifiedSummary)
    else (category, .explicitCategory)

/-- `_MeasuredGroup` -/
structure MeasuredGroup where
  group : HistorySourceGroup
  category : HistoryCategory
  eligibilityReason : EligibilityReason
  tokens : ℕ
  deriving DecidableEq

namespace MeasuredGroup

def id (item : MeasuredGroup) : Text := item.group.groupId

def key (item : MeasuredGroup) : ℕ ×ₗ List ℕ := item.group.key

end MeasuredGroup

/-- `_measure_group` -/
def measureGroup (counter : HistoryTokenCounter) (group : HistorySourceGroup) :
    Except HistoryError MeasuredGroup :=
  match counter.count group with
  | none => .error (.contract "injected history counter failed")
  | some (.negSucc _) =>
    .error (.contract "injected history counter must return a non-negative integer")
  | some (.ofNat tokens) =>
    .ok ⟨group, (effectiveCategory group.toGroupFields).1,
      (effectiveCategory group.toGroupFields).2, tokens⟩

/-- The groups by their category, in the order of the list. -/
def ofCategory (category : HistoryCategory) (items : List MeasuredGroup) : List MeasuredGroup :=
  items.filter fun item => item.category = category

/-- `source_groups` -/
def sourceGroups (measured : List MeasuredGroup) : List MeasuredGroup :=
  measured.filter fun item => item.category ≠ .verifiedSummary

/-- `eligible`: the sources a summary may replace. -/
def eligibleGroups (measured : List MeasuredGroup) : List MeasuredGroup :=
  measured.filter fun item =>
    item.category = .optional ∧ item.group.summaryEligibility = .eligible

/-- `_newest_first` -/
def newestFirst (items : List MeasuredGroup) : List MeasuredGroup :=
  sortBy (fun item => OrderDual.toDual item.key) items

/-- The tokens of groups. -/
def tokenSum (items : List MeasuredGroup) : ℕ := (items.map MeasuredGroup.tokens).sum

/-! ## Decisions -/

/-- `_source_decision` -/
def sourceDecision (item : MeasuredGroup) (retained : Bool) (reason : DecisionReason)
    (coveredBySummaryId : Option Text := none) : SourceGroupDecision where
  groupId := item.group.groupId
  revision := item.group.revision
  sequence := item.group.sequence
  exchangeId := item.group.exchangeId
  category := item.category
  summaryEligibility := item.group.summaryEligibility
  summaryEligibilityReason := item.group.summaryEligibilityReason
  eligibilityReason := item.eligibilityReason
  tokens := item.tokens
  retained
  reason
  coveredBySummaryId

/-- What a phase decided, and what it left of the budget. -/
structure Phase where
  decisions : List SourceGroupDecision
  remaining : ℕ

/-- One more decision in front. -/
def Phase.after (decision : SourceGroupDecision) (p : Phase) : Phase :=
  { p with decisions := decision :: p.decisions }

/-- The loop that retains what still fits. A group that is covered is dropped in favour of its
summary. -/
def fillGroups (kept : DecisionReason) (coveredBy : MeasuredGroup → Option (Option Text)) :
    ℕ → List MeasuredGroup → Phase
  | remaining, [] => ⟨[], remaining⟩
  | remaining, item :: items =>
    match coveredBy item with
    | some summaryId =>
      (fillGroups kept coveredBy remaining items).after
        (sourceDecision item false .droppedCoveredBySummary summaryId)
    | none =>
      if item.tokens ≤ remaining then
        (fillGroups kept coveredBy (remaining - item.tokens) items).after
          (sourceDecision item true kept)
      else
        (fillGroups kept coveredBy remaining items).after
          (sourceDecision item false .droppedSharedBudget)

/-- The mandatory loop. Its groups fit, which was checked before. -/
def fillMandatory : ℕ → List MeasuredGroup → Phase
  | remaining, [] => ⟨[], remaining⟩
  | remaining, item :: items =>
    (fillMandatory (remaining - item.tokens) items).after
      (sourceDecision item true .retainedMandatory)

def fillKeepExact : ℕ → List MeasuredGroup → Phase :=
  fillGroups .retainedKeepExact fun _ => none

/-- The recent loop: after the first group that does not fit, none is retained. -/
def fillRecent : Bool → ℕ → List MeasuredGroup → Phase
  | _, remaining, [] => ⟨[], remaining⟩
  | recentSuffixOpen, remaining, item :: items =>
    if recentSuffixOpen ∧ item.tokens ≤ remaining then
      (fillRecent true (remaining - item.tokens) items).after
        (sourceDecision item true .retainedRecent)
    else
      (fillRecent false remaining items).after
        (sourceDecision item false .droppedRecentSuffixGap)

/-! ## Summaries -/

/-- The ids a summary covers. -/
def MeasuredGroup.coveredIds (item : MeasuredGroup) : List Text :=
  item.group.coverage.map SummaryCoverage.sourceGroupId

/-- `source_revisions.get(source_id)` -/
def revisionOf (sources : List MeasuredGroup) (id : Text) : Option Text :=
  (Table.find MeasuredGroup.id sources id).map fun item => item.group.revision

/-- `_coverage_validation` of one summary. -/
def coverageFault (sources eligible : List MeasuredGroup) (summary : MeasuredGroup) :
    Option String :=
  if summary.group.coverage.any fun c =>
      revisionOf sources c.sourceGroupId ≠ some c.sourceRevision then
    some "coverage source revision is unavailable"
  else if summary.coveredIds.any fun id => id ∉ eligible.map MeasuredGroup.id then
    some "coverage includes a non-eligible source"
  else if summary.coveredIds ≠ (eligible.map MeasuredGroup.id).take summary.coveredIds.length then
    some "coverage is not the oldest complete eligible prefix"
  else none

/-- The entry of `coverage_validation` for a summary, after the verifier. -/
def summaryFault (o : PlanOptions) (sources eligible : List MeasuredGroup)
    (summary : MeasuredGroup) : Except HistoryError (Option String) :=
  match o.summaryVerifier with
  | none => .ok (some "summary publication is not verified")
  | some verifier => do
    let accepted ← verifier summary.group o.scope
    .ok (if accepted then coverageFault sources eligible summary
      else some "summary publication is not verified")

/-- `token_counts.get(id, 0)`. Where the source indexes, the id is one of a measured group. -/
def tokensOf (measured : List MeasuredGroup) (id : Text) : ℕ :=
  ((Table.find MeasuredGroup.id measured id).map MeasuredGroup.tokens).getD 0

/-- The sort key of summaries: by what they save, then the newest first. -/
def summaryKey (measured : List MeasuredGroup) (summary : MeasuredGroup) : ℤ ×ₗ ℤ ×ₗ List ℕ :=
  toLex (-((summary.coveredIds.map (tokensOf measured)).sum - summary.tokens : ℤ),
    toLex (-summary.group.sequence, summary.group.groupId.codes))

/-- What the loop over summaries leaves, with the ids they cover. -/
structure SummaryPhase extends Phase where
  coveredIds : List Text

def SummaryPhase.after (decision : SourceGroupDecision) (p : SummaryPhase) : SummaryPhase :=
  { p with decisions := decision :: p.decisions }

/-- The loop over the summaries with their faults. -/
def fillSummaries (tokensOf : Text → ℕ) :
    List Text → ℕ → List (MeasuredGroup × Option String) → SummaryPhase
  | coveredIds, remaining, [] => ⟨⟨[], remaining⟩, coveredIds⟩
  | coveredIds, remaining, (item, invalidReason) :: summaries =>
    let covered := item.coveredIds.dedup
    if invalidReason.isSome then
      (fillSummaries tokensOf coveredIds remaining summaries).after
        (sourceDecision item false .droppedSummaryCoverageInvalid)
    else if covered.any fun id => id ∈ coveredIds then
      (fillSummaries tokensOf coveredIds remaining summaries).after
        (sourceDecision item false .droppedSummaryNotNeeded)
    else if (covered.map tokensOf).sum ≤ item.tokens then
      (fillSummaries tokensOf coveredIds remaining summaries).after
        (sourceDecision item false .droppedSummaryNotNeeded)
    else if item.tokens ≤ remaining then
      (fillSummaries tokensOf (coveredIds ++ covered) (remaining - item.tokens) summaries).after
        (sourceDecision item true .retainedVerifiedSummary)
    else
      (fillSummaries tokensOf coveredIds remaining summaries).after
        (sourceDecision item false .droppedSharedBudget)

/-- `_covering_summary_id` -/
def coveringSummaryId (summaries : List MeasuredGroup) (decisions : List SourceGroupDecision)
    (item : MeasuredGroup) : Option Text :=
  (summaries.find? fun summary =>
    (decisions.any fun d => d.groupId = summary.id ∧ d.retained) ∧
      summary.group.coverage.any fun c =>
        c.sourceGroupId = item.id ∧ c.sourceRevision = item.group.revision).map MeasuredGroup.id

/-! ## The phases together -/

/-- The summaries with their faults, where the pressure asks for them and there is something to
replace; otherwise none of them is needed. -/
def chooseSummaries (measured : List MeasuredGroup) (preTrimPressure : PlanPressure)
    (summaries : List (MeasuredGroup × Option String)) (remaining : ℕ) : SummaryPhase :=
  if preTrimPressure ≠ .none ∧ eligibleGroups measured ≠ [] then
    fillSummaries (tokensOf measured) [] remaining
      (sortBy (fun s => summaryKey measured s.1) summaries)
  else
    ⟨⟨summaries.map fun s => sourceDecision s.1 false .droppedSummaryNotNeeded, remaining⟩, []⟩

/-- The summaries with their faults. -/
def validateSummaries (o : PlanOptions) (measured : List MeasuredGroup) :
    Except HistoryError (List (MeasuredGroup × Option String)) :=
  (ofCategory .verifiedSummary measured).mapM fun summary => do
    let invalidReason ← summaryFault o (sourceGroups measured) (eligibleGroups measured) summary
    .ok (summary, invalidReason)

/-- Whether a summary covers the group, and the id of that summary. -/
def SummaryPhase.coveredBy (measured : List MeasuredGroup) (p : SummaryPhase)
    (item : MeasuredGroup) : Option (Option Text) :=
  if item.id ∈ p.coveredIds then
    some (coveringSummaryId (ofCategory .verifiedSummary measured) p.decisions item)
  else none

/-- The optional loop, after the summaries. -/
def chooseOptional (measured : List MeasuredGroup) (p : SummaryPhase) : Phase :=
  fillGroups .retainedOptional (p.coveredBy measured) p.remaining
    (newestFirst (ofCategory .optional measured))

/-- The phases after the mandatory groups and the reserve for growth. -/
def choosePhases (measured : List MeasuredGroup) (preTrimPressure : PlanPressure)
    (summaries : List (MeasuredGroup × Option String)) (remaining : ℕ) :
    List SourceGroupDecision :=
  let exact := fillKeepExact remaining (newestFirst (ofCategory .keepExact measured))
  let recent := fillRecent true exact.remaining (newestFirst (ofCategory .recent measured))
  let summary := chooseSummaries measured preTrimPressure summaries recent.remaining
  let optional := chooseOptional measured summary
  exact.decisions ++ recent.decisions ++ summary.decisions ++ optional.decisions

/-- What a plan is made from: the faults of the summaries and the decisions. -/
structure Choice where
  summaries : List (MeasuredGroup × Option String)
  decisions : List SourceGroupDecision

/-- All phases. -/
def chooseGroups (o : PlanOptions) (measured : List MeasuredGroup)
    (preTrimPressure : PlanPressure) : Except HistoryError Choice := do
  let mandatory := ofCategory .mandatory measured
  raiseIf (o.bWorkTokens < tokenSum mandatory)
    (.agentHub "AGENT_CONTEXT_BUDGET_EXCEEDED"
      "Mandatory context exceeds the available input budget.")
  let first := fillMandatory o.bWorkTokens mandatory
  raiseIf (first.remaining < o.unaccountedGrowthTokens)
    (.agentHub "AGENT_HISTORY_GROWTH_BUDGET_EXCEEDED"
      "Anticipated context growth exceeds the remaining input budget.")
  let summaries ← validateSummaries o measured
  .ok ⟨summaries, first.decisions ++
    choosePhases measured preTrimPressure summaries (first.remaining - o.unaccountedGrowthTokens)⟩

/-! ## The plan -/

/-- `selected_ids` -/
def selectedIds (decisions : List SourceGroupDecision) : List Text :=
  (decisions.filter SourceGroupDecision.retained).map SourceGroupDecision.groupId

/-- The tokens of the retained groups. -/
def retainedTokens (decisions : List SourceGroupDecision) : ℕ :=
  ((decisions.filter SourceGroupDecision.retained).map SourceGroupDecision.tokens).sum

/-- A measured group of the category that is not retained. -/
def omits (category : HistoryCategory) (measured : List MeasuredGroup)
    (decisions : List SourceGroupDecision) : Bool :=
  (ofCategory category measured).any fun item => item.id ∉ selectedIds decisions

/-- What is known when the phases are done. -/
structure Findings where
  orderedCount : ℕ
  measured : List MeasuredGroup
  choice : Choice
  measurementComplete : Bool
  thresholds : HistoryThresholds
  preTrimTokens : ℕ
  preTrimPressure : PlanPressure
  retainedPlannedTokens : ℕ

namespace Findings

variable (f : Findings)

def postTrimPressure : PlanPressure := pressure f.retainedPlannedTokens f.thresholds

def invalidSummaries : Bool := f.choice.summaries.any fun s => s.2.isSome

def summarySelected : Bool :=
  (ofCategory .verifiedSummary f.measured).any fun item =>
    item.id ∈ selectedIds f.choice.decisions

def workLimitMessage : String :=
  "Only " ++ toString f.measured.length ++ " of " ++ toString f.orderedCount ++
    " groups were measured; the remaining history must not be reported as measured."

/-- What is said about summaries where there is pressure. -/
def summaryInsufficiencies : List Insufficiency :=
  if f.preTrimPressure = .none then []
  else if eligibleGroups f.measured = [] then
    [⟨.noEligibleSource, false, "No source group has explicit summary eligibility."⟩]
  else if ofCategory .verifiedSummary f.measured = [] then
    [⟨.noVerifiedSummary, false, "No published verified summary was supplied."⟩]
  else if !f.summarySelected && f.invalidSummaries then []
  else if !f.summarySelected then
    [⟨.verifiedSummaryNotRetained, false, "No supplied verified summary fit the shared budget."⟩]
  else []

/-- `insufficiencies` -/
def insufficiencies : List Insufficiency :=
  (if f.measurementComplete then [] else [⟨.workLimitReached, true, f.workLimitMessage⟩]) ++
  (if omits .keepExact f.measured f.choice.decisions then
    [⟨.keepExactNotRetained, true,
      "At least one KEEP_EXACT source group did not fit the shared budget."⟩] else []) ++
  (if omits .recent f.measured f.choice.decisions then
    [⟨.recentSourceNotRetained, true,
      "The complete recent-source suffix could not be retained."⟩] else []) ++
  (if f.invalidSummaries then
    [⟨.verifiedSummaryCoverageInvalid, false,
      "A verified summary did not bind the complete oldest eligible source prefix."⟩] else []) ++
  f.summaryInsufficiencies ++
  (if f.postTrimPressure = .hard then
    [⟨.postTrimPlannedAtOrAboveHardLimit, true,
      "Post-trim planned input remains at or above the hard threshold."⟩] else [])

/-- `reason_codes`; no code is added twice. -/
def reasons : List PlanReason :=
  (if f.measurementComplete then [] else [.workLimitReached]) ++
  (if omits .keepExact f.measured f.choice.decisions then [.keepExactOmitted] else []) ++
  (if omits .recent f.measured f.choice.decisions then [.recentGroupOmitted] else []) ++
  (if f.invalidSummaries then [.verifiedSummaryCoverageInvalid] else []) ++
  (if f.postTrimPressure = .hard then [.hardLimitNotSatisfied] else []) ++
  (match f.preTrimPressure with
    | .none => [.noPressure]
    | .soft => [.softThresholdReachedBeforeTrim]
    | .hard => [.hardThresholdReachedBeforeTrim]) ++
  (if f.retainedPlannedTokens ≤ f.thresholds.targetTokens then [.targetMetAfterPlanning] else []) ++
  (if retainedTokens f.choice.decisions < f.preTrimTokens then [.sharedBudgetTrimRequired]
    else []) ++
  (if f.summarySelected then [.verifiedSummaryUsed] else [])

end Findings

/-- `decisions[group_id]` -/
def decisionOf (decisions : List SourceGroupDecision) (item : MeasuredGroup) :
    Except HistoryError SourceGroupDecision :=
  match Table.find SourceGroupDecision.groupId decisions item.id with
  | some d => .ok d
  | none => .error (.python .keyError)

namespace PlanOptions

variable (o : PlanOptions)

/-- The limit on measured groups. -/
def maxGroups : ℕ :=
  match o.workLimit with
  | some limit => limit.maxGroups
  | none => 256

def frozenThresholds : HistoryThresholds := thresholdsOf o.bWorkTokens o.thresholds

def plannedTokens (measured : List MeasuredGroup) : ℕ :=
  tokenSum (sourceGroups measured) + o.unaccountedGrowthTokens

def preTrimPressure (measured : List MeasuredGroup) : PlanPressure :=
  pressure (o.plannedTokens measured) o.frozenThresholds

end PlanOptions

/-- The checks at the start of `plan_history`, with `_validate_counter`. -/
def checkOptions (o : PlanOptions) : Except HistoryError Unit := do
  fault .value (requirePositiveInt o.bWorkTokens "b_work_tokens")
  fault .value (requireText o.counter.counterId "counter_id")
  fault .value (requirePositiveInt o.counter.counterVersion "counter_version")
  raiseIf (∃ id ∈ o.expectedCounterId, o.counter.counterId ≠ id)
    (.contract "history counter differs from the frozen policy")
  raiseIf (∃ version ∈ o.expectedCounterVersion, o.counter.counterVersion ≠ version)
    (.contract "history counter version differs from the frozen policy")

/-- What the end of `plan_history` reports from. -/
def findingsOf (o : PlanOptions) (ordered : List HistorySourceGroup)
    (measured : List MeasuredGroup) (choice : Choice) : Findings where
  orderedCount := ordered.length
  measured
  choice
  measurementComplete := ordered.length ≤ o.maxGroups
  thresholds := o.frozenThresholds
  preTrimTokens := tokenSum (sourceGroups measured)
  preTrimPressure := o.preTrimPressure measured
  retainedPlannedTokens := retainedTokens choice.decisions + o.unaccountedGrowthTokens

/-- The plan that `plan_history` returns. -/
def historyPlan (o : PlanOptions) (ordered : List HistorySourceGroup)
    (measured : List MeasuredGroup) (choice : Choice) (decisions : List SourceGroupDecision) :
    HistoryPlan :=
  let findings := findingsOf o ordered measured choice
  { scope := o.scope
    frozenWatermark := o.frozenWatermark
    counterId := o.counter.counterId
    counterVersion := o.counter.counterVersion
    workLimit := o.maxGroups
    inputGroupCount := ordered.length
    measuredGroupCount := measured.length
    unmeasuredGroupCount := ordered.length - measured.length
    measurementComplete := findings.measurementComplete
    unmeasuredGroupIds := (ordered.drop o.maxGroups).map fun g => g.groupId
    thresholds := findings.thresholds
    preTrimTokens := findings.preTrimTokens
    unaccountedGrowthTokens := o.unaccountedGrowthTokens
    plannedTokens := o.plannedTokens measured
    retainedTokens := retainedTokens choice.decisions
    retainedPlannedTokens := findings.retainedPlannedTokens
    preTrimPressure := findings.preTrimPressure
    postTrimPressure := findings.postTrimPressure
    retainedGroupIds := (measured.map MeasuredGroup.id).filter fun id =>
      id ∈ selectedIds choice.decisions
    droppedGroupIds := (measured.map MeasuredGroup.id).filter fun id =>
      id ∉ selectedIds choice.decisions
    decisions
    reasons := findings.reasons
    insufficiencies := findings.insufficiencies
    readyForDispatch := !(findings.insufficiencies.any Insufficiency.blocking) }

/-- `plan_history` -/
def planHistory (o : PlanOptions) (groups : List HistorySourceGroup) :
    Except HistoryError HistoryPlan := do
  checkOptions o
  let ordered ← validateAndOrderGroups o groups
  let measured ← (ordered.take o.maxGroups).mapM (measureGroup o.counter)
  let choice ← chooseGroups o measured (o.preTrimPressure measured)
  let decisions ← measured.mapM (decisionOf choice.decisions)
  .ok (historyPlan o ordered measured choice decisions)

end AgentHub.History

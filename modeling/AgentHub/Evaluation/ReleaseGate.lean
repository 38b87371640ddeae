import AgentHub.Lib.Checks
import AgentHub.Lib.Json
import Mathlib.Data.NNRat.Defs
import Mathlib.Order.Interval.Set.Defs

/-!
# Release gates

A release gate holds a comparison of two variants against the rules of a policy. A policy is read
from JSON: every rule has a kind with its own parameters, and each metric is named by one rule at
most. A rule passes, fails or is inconclusive; the decision is made of the results of the rules that
are required or marked as safety rules.

Numbers are the exact values of the binary64 numbers of the source.

## Main definitions

* `Rule`, `RuleKind`: the rules of a policy, with parameters in their ranges
* `validatePolicy`: reading a policy
* `Rule.evaluate`: the result of one rule
* `evaluate`: the decision
-/

namespace AgentHub.ReleaseGate

open Lib

/-! ## Policies -/

inductive EvidenceLevel
  | deterministicConformance | controlledSimulation | realProvider | productionSample
  deriving DecidableEq, Repr

namespace EvidenceLevel

/-- `_EVIDENCE_LEVEL_RANK` -/
def rank : EvidenceLevel → ℕ
  | deterministicConformance => 0
  | controlledSimulation => 1
  | realProvider => 2
  | productionSample => 3

def ofText (s : Text) : Option EvidenceLevel :=
  if s = Text.ofString "DETERMINISTIC_CONFORMANCE" then some deterministicConformance
  else if s = Text.ofString "CONTROLLED_SIMULATION" then some controlledSimulation
  else if s = Text.ofString "REAL_PROVIDER" then some realProvider
  else if s = Text.ofString "PRODUCTION_SAMPLE" then some productionSample
  else none

end EvidenceLevel

/-- `_RULES` -/
inductive RuleName
  | noRegression | maxAbsoluteRegression | maxRelativeRegression | minValue | maxValue | tradeoff
  | requiredEvidenceLevel | minPassHatK | minCiLowerBound | nonInferiority
  deriving DecidableEq, Repr

namespace RuleName

def ofText (s : Text) : Option RuleName :=
  if s = Text.ofString "NO_REGRESSION" then some noRegression
  else if s = Text.ofString "MAX_ABSOLUTE_REGRESSION" then some maxAbsoluteRegression
  else if s = Text.ofString "MAX_RELATIVE_REGRESSION" then some maxRelativeRegression
  else if s = Text.ofString "MIN_VALUE" then some minValue
  else if s = Text.ofString "MAX_VALUE" then some maxValue
  else if s = Text.ofString "TRADEOFF" then some tradeoff
  else if s = Text.ofString "REQUIRED_EVIDENCE_LEVEL" then some requiredEvidenceLevel
  else if s = Text.ofString "MIN_PASS_HAT_K" then some minPassHatK
  else if s = Text.ofString "MIN_CI_LOWER_BOUND" then some minCiLowerBound
  else if s = Text.ofString "NON_INFERIORITY" then some nonInferiority
  else none

/-- The one metric a rule about the evidence or the statistics may name. -/
def fixedMetric? : RuleName → Option Text
  | requiredEvidenceLevel => some (Text.ofString "evidence_level")
  | minPassHatK => some (Text.ofString "pass_hat_k")
  | minCiLowerBound | nonInferiority => some (Text.ofString "success_rate_delta")
  | _ => none

/-- The keys of a rule beside `_BASE_RULE_KEYS`. -/
def extraKeys : RuleName → List Text
  | noRegression => []
  | maxAbsoluteRegression | maxRelativeRegression => [Text.ofString "tolerance"]
  | minValue | maxValue | minPassHatK | minCiLowerBound | nonInferiority =>
    [Text.ofString "threshold"]
  | tradeoff => [Text.ofString "tolerance", Text.ofString "compensation_metric",
      Text.ofString "min_compensation_gain"]
  | requiredEvidenceLevel => [Text.ofString "level"]

end RuleName

/-- The kind of a rule, with its parameters. -/
inductive RuleKind
  | noRegression
  | maxAbsoluteRegression (tolerance : ℚ≥0)
  | maxRelativeRegression (tolerance : ℚ≥0)
  | minValue (threshold : ℚ)
  | maxValue (threshold : ℚ)
  | tradeoff (tolerance : ℚ≥0) (compensationMetric : Text) (minCompensationGain : ℚ≥0)
  | requiredEvidenceLevel (level : EvidenceLevel)
  | minPassHatK (threshold : Set.Icc (0 : ℚ) 1)
  | minCiLowerBound (threshold : ℚ)
  | nonInferiority (threshold : ℚ≥0)
  deriving DecidableEq

def RuleKind.name : RuleKind → RuleName
  | noRegression => .noRegression
  | maxAbsoluteRegression _ => .maxAbsoluteRegression
  | maxRelativeRegression _ => .maxRelativeRegression
  | minValue _ => .minValue
  | maxValue _ => .maxValue
  | tradeoff _ _ _ => .tradeoff
  | requiredEvidenceLevel _ => .requiredEvidenceLevel
  | minPassHatK _ => .minPassHatK
  | minCiLowerBound _ => .minCiLowerBound
  | nonInferiority _ => .nonInferiority

structure Rule where
  metric : Text
  required : Bool
  safety : Bool
  kind : RuleKind
  deriving DecidableEq

/-! ## Reading a policy -/

inductive GateError
  /-- `INVALID_RELEASE_GATE_POLICY` -/
  | invalidPolicy
  /-- `float` of an integer beyond the numbers -/
  | overflow
  /-- A lookup of a value that cannot be a key -/
  | unhashable
  deriving DecidableEq, Repr

/-- The exact value of a finite number. -/
def exactValue : Binary64 → Option ℚ
  | .finite negative scaled =>
    some ((if negative then -1 else 1) * (scaled.1 : ℚ) / 2 ^ unitExponent)
  | _ => none

/-- The check of a number: `float(value)` is finite. -/
def readNumber : Json → Except GateError ℚ
  | .int i =>
    match exactValue (.ofDecimal (i < 0) i.natAbs 0) with
    | some q => .ok q
    | none => .error .overflow
  | .float x =>
    match exactValue x with
    | some q => .ok q
    | none => .error .invalidPolicy
  | _ => .error .invalidPolicy

/-- A number that may be absent. -/
def readNumber? (kvs : List (Text × Json)) (key : Text) : Except GateError (Option ℚ) :=
  match Json.get? kvs key with
  | none => .ok none
  | some value => (readNumber value).map some

/-- A flag with its default. -/
def readFlag (kvs : List (Text × Json)) (key : Text) (default : Bool) : Except GateError Bool :=
  match Json.get? kvs key with
  | none => .ok default
  | some (.bool b) => .ok b
  | some _ => .error .invalidPolicy

/-- `level not in _EVIDENCE_LEVEL_RANK`, of a rule that requires a level. -/
def readLevel (kvs : List (Text × Json)) : Except GateError EvidenceLevel :=
  match Json.get? kvs (Text.ofString "level") with
  | some (.str s) =>
    match EvidenceLevel.ofText s with
    | some level => .ok level
    | none => .error .invalidPolicy
  | some (.arr _) | some (.obj _) => .error .unhashable
  | _ => .error .invalidPolicy

/-- The level is looked up before the keys of a rule are checked. -/
def checkLevel (name : RuleName) (metric : Text) (kvs : List (Text × Json)) :
    Except GateError Unit :=
  if name = .requiredEvidenceLevel then do
    raiseIf (metric ≠ Text.ofString "evidence_level") .invalidPolicy
    let _ ← readLevel kvs
    return ()
  else return ()

/-- A number in a range. -/
def readWithin (p : ℚ → Prop) [DecidablePred p] : Option ℚ → Except GateError {q : ℚ // p q}
  | some q => if h : p q then .ok ⟨q, h⟩ else .error .invalidPolicy
  | none => .error .invalidPolicy

/-- A number that is present. -/
def readPresent : Option ℚ → Except GateError ℚ
  | some q => .ok q
  | none => .error .invalidPolicy

section Validation

-- Whether the registry has a definition of the metric.
variable (known : Text → Bool)

/-- `definition_for`, of a rule whose metric is not fixed. -/
def checkMetric (name : RuleName) (metric : Text) : Except GateError Unit :=
  match name.fixedMetric? with
  | some fixed => raiseIf (metric ≠ fixed) .invalidPolicy
  | none => raiseIf (known metric = false) .invalidPolicy

/-- The parameters of a rule. -/
def readKind (name : RuleName) (metric : Text) (safety : Bool) (kvs : List (Text × Json)) :
    Except GateError RuleKind := do
  let tolerance ← readNumber? kvs (Text.ofString "tolerance")
  raiseIf (tolerance.any fun q => q < 0) .invalidPolicy
  let threshold ← readNumber? kvs (Text.ofString "threshold")
  let gain ← readNumber? kvs (Text.ofString "min_compensation_gain")
  match name with
  | .noRegression => return .noRegression
  | .maxAbsoluteRegression => return .maxAbsoluteRegression (← readWithin (0 ≤ ·) tolerance)
  | .maxRelativeRegression => return .maxRelativeRegression (← readWithin (0 ≤ ·) tolerance)
  | .minValue => return .minValue (← readPresent threshold)
  | .maxValue => return .maxValue (← readPresent threshold)
  | .requiredEvidenceLevel => return .requiredEvidenceLevel (← readLevel kvs)
  | .minPassHatK => return .minPassHatK (← readWithin (fun q => 0 ≤ q ∧ q ≤ 1) threshold)
  | .minCiLowerBound => return .minCiLowerBound (← readPresent threshold)
  | .nonInferiority => return .nonInferiority (← readWithin (0 ≤ ·) threshold)
  | .tradeoff => do
    let tolerance ← readWithin (0 ≤ ·) tolerance
    raiseIf (safety = true) .invalidPolicy
    match Json.get? kvs (Text.ofString "compensation_metric") with
    | some (.str compensation) => do
      raiseIf (compensation = metric ∨ known compensation = false) .invalidPolicy
      return .tradeoff tolerance compensation (← readWithin (0 ≤ ·) gain)
    | _ => .error .invalidPolicy

/-- One round of the loop of `_validate_policy`. -/
def validateRule (seen : List Text) : Json → Except GateError Rule
  | .obj kvs =>
    match Json.get? kvs (Text.ofString "metric"), Json.get? kvs (Text.ofString "rule") with
    | some (.str metric), some (.str rule) => do
      raiseIf (metric ∈ seen) .invalidPolicy
      match RuleName.ofText rule with
      | none => .error .invalidPolicy
      | some name => do
        checkLevel name metric kvs
        raiseIf (∃ key ∈ kvs.map Prod.fst, key ∉ [Text.ofString "metric", Text.ofString "rule",
          Text.ofString "required", Text.ofString "safety"] ++ name.extraKeys) .invalidPolicy
        checkMetric known name metric
        let required ← readFlag kvs (Text.ofString "required") true
        let safety ← readFlag kvs (Text.ofString "safety") false
        return { metric, required, safety, kind := ← readKind known name metric safety kvs }
    | _, _ => .error .invalidPolicy
  | _ => .error .invalidPolicy

/-- The loop of `_validate_policy`. -/
def validateRules : List Text → List Json → Except GateError (List Rule)
  | _, [] => .ok []
  | seen, raw :: rest => do
    let rule ← validateRule known seen raw
    return rule :: (← validateRules (rule.metric :: seen) rest)

/-- `_validate_policy` -/
def validatePolicy : Json → Except GateError (List Rule)
  | .obj kvs => do
    raiseIf (¬ (Text.ofString "rules" ∈ kvs.map Prod.fst ∧
      ∀ key ∈ kvs.map Prod.fst, key = Text.ofString "rules")) .invalidPolicy
    match Json.get? kvs (Text.ofString "rules") with
    | some (.arr (raw :: rest)) => validateRules known [] (raw :: rest)
    | _ => .error .invalidPolicy
  | _ => .error .invalidPolicy

end Validation

/-! ## What the gate reads -/

inductive MetricStatus
  | available | notApplicable | notAvailable
  deriving DecidableEq, Repr

inductive MetricDirection
  | higherIsBetter | lowerIsBetter | unknown
  deriving DecidableEq, Repr

inductive ComparisonStatus
  | complete | incomplete | notComparable
  deriving DecidableEq, Repr

/-- The value of a metric for one variant; a value that is not a finite number is absent. -/
structure MetricValue where
  status : Option MetricStatus
  value : Option ℚ

/-- One metric of a comparison. -/
structure MetricRow where
  status : Option ComparisonStatus
  /-- Absent, `null` or a text. -/
  reason : Option (Option Text)
  direction : Option MetricDirection
  baseline : MetricValue
  candidate : MetricValue

structure Comparison where
  status : ComparisonStatus
  candidateVariantId : Text
  metrics : Text → Option MetricRow

structure Interval where
  lower : Option ℚ
  upper : Option ℚ

structure Paired where
  interval : Option Interval
  delta : Option ℚ
  pairCount : Option ℤ

structure VariantStatistics where
  passHatK : Option ℚ
  completeCaseRate : Option ℚ

structure Statistics where
  variants : Option (Text → Option VariantStatistics)
  paired : Option Paired

/-- What the gate is given beside the policy. -/
structure Evidence where
  comparison : Comparison
  /-- `run.evidence_level`, of a run that is given. -/
  evidenceLevel : Option Text
  statistics : Option Statistics

/-! ## The results of rules -/

/-- `FAIL`, `INCONCLUSIVE` and `PASS`, of rules and of decisions. -/
inductive GateStatus
  | fail | inconclusive | pass
  deriving DecidableEq, Repr

def GateStatus.text : GateStatus → Text
  | fail => Text.ofString "FAIL"
  | inconclusive => Text.ofString "INCONCLUSIVE"
  | pass => Text.ofString "PASS"

namespace GateStatus

def rank : GateStatus → ℕ
  | fail => 0
  | inconclusive => 1
  | pass => 2

/-- `FAIL < INCONCLUSIVE < PASS` -/
instance : LinearOrder GateStatus :=
  LinearOrder.lift' rank fun a b h => by cases a <;> cases b <;> first | rfl | cases h

end GateStatus

/-- `"PASS" if passed else "FAIL"` -/
def GateStatus.ofPassed (passed : Bool) : GateStatus := if passed then pass else fail

structure CompensationResult where
  metric : Text
  status : GateStatus
  reason : Option Text := none
  baseline : Option ℚ := none
  candidate : Option ℚ := none
  gain : Option ℚ := none

structure RuleResult where
  metric : Text
  rule : RuleName
  status : GateStatus
  reason : Option Text := none
  baseline : Option ℚ := none
  candidate : Option ℚ := none
  threshold : Option ℚ := none
  delta : Option ℚ := none
  ciLower : Option ℚ := none
  ciUpper : Option ℚ := none
  pairCount : Option ℤ := none
  minimumPairs : Option ℤ := none
  completeCaseRate : Option ℚ := none
  minimumCompleteCaseRate : Option ℚ := none
  requiredLevel : Option EvidenceLevel := none
  actualLevel : Option Text := none
  compensation : Option CompensationResult := none

/-- A result that says why it is inconclusive. -/
def inconclusive (rule : Rule) (reason : Option Text) : RuleResult :=
  { metric := rule.metric, rule := rule.kind.name, status := .inconclusive, reason }

/-- `_MIN_PAIRED_CASES` -/
def minPairedCases : ℤ := 10

/-- `_MIN_COMPLETE_CASE_RATE` -/
def minCompleteCaseRate : ℚ := 1 / 2

/-- `_evaluate_paired_interval`; the lower bound of the interval has to reach the bound. -/
def evaluatePairedInterval (rule : Rule) (threshold bound : ℚ) (statistics : Option Statistics) :
    RuleResult :=
  match statistics with
  | none => inconclusive rule (Text.ofString "statistics_unavailable")
  | some statistics =>
    match statistics.paired with
    | some ⟨some ⟨some lower, some upper⟩, some delta, pairCount⟩ =>
      if pairCount.all fun n => n < minPairedCases then
        { inconclusive rule (Text.ofString "insufficient_pairs") with
          pairCount, minimumPairs := minPairedCases }
      else if lower = upper then
        { inconclusive rule (Text.ofString "degenerate_interval") with pairCount }
      else
        { metric := rule.metric, rule := rule.kind.name, status := .ofPassed (bound ≤ lower),
          delta, ciLower := lower, ciUpper := upper, threshold, pairCount }
    | _ => inconclusive rule (Text.ofString "paired_interval_unavailable")

/-- `_evaluate_pass_hat_k` -/
def evaluatePassHatK (rule : Rule) (threshold : ℚ) (comparison : Comparison)
    (statistics : Option Statistics) : RuleResult :=
  match statistics with
  | none => inconclusive rule (Text.ofString "statistics_unavailable")
  | some statistics =>
    match statistics.variants with
    | none => inconclusive rule (Text.ofString "statistics_variants_missing")
    | some variants =>
      match variants comparison.candidateVariantId with
      | some ⟨some value, completeCaseRate⟩ =>
        if completeCaseRate.all fun rate => rate < minCompleteCaseRate then
          { inconclusive rule (Text.ofString "insufficient_complete_cases") with
            completeCaseRate, minimumCompleteCaseRate := minCompleteCaseRate }
        else
          { metric := rule.metric, rule := rule.kind.name, status := .ofPassed (threshold ≤ value),
            candidate := value, threshold, completeCaseRate }
      | _ => inconclusive rule (Text.ofString "pass_hat_k_unavailable")

/-- `_evaluate_evidence_level` -/
def evaluateEvidenceLevel (rule : Rule) (level : EvidenceLevel) (actual : Option Text) :
    RuleResult :=
  match actual.bind EvidenceLevel.ofText with
  | none => inconclusive rule (Text.ofString "evidence_level_unknown")
  | some actualLevel =>
    { metric := rule.metric, rule := rule.kind.name,
      status := .ofPassed (level.rank ≤ actualLevel.rank),
      requiredLevel := level, actualLevel := actual }

/-- The values of a metric that is comparable. -/
def MetricRow.isComparable (row : MetricRow) (excluded : List Text) : Bool :=
  row.status.all (· = .complete) && row.baseline.status = some .available &&
    row.candidate.status = some .available && !row.reason.join.any (· ∈ excluded)

/-- `metric.get("reason", "metric_unavailable")` -/
def MetricRow.reasonOr (row : MetricRow) : Option Text :=
  row.reason.getD (Text.ofString "metric_unavailable")

/-- The reasons that exclude a metric from its rule. -/
def excludedReasons : List Text :=
  [Text.ofString "currency_mismatch", Text.ofString "evaluator_version_mismatch"]

/-- The reasons that exclude a metric from a compensation. -/
def excludedCompensationReasons : List Text :=
  excludedReasons ++ [Text.ofString "not_comparable", Text.ofString "not_applicable"]

def hasDirection (direction : Option MetricDirection) : Bool :=
  direction = some .higherIsBetter || direction = some .lowerIsBetter

/-- The gain of the candidate over the baseline. -/
def improvement (direction : Option MetricDirection) (before after : ℚ) : ℚ :=
  if direction = some .higherIsBetter then after - before else before - after

/-- `_relative_regression` -/
def relativeRegression (direction : Option MetricDirection) (before after : ℚ) : Option ℚ :=
  if before = 0 then if after = before then some 0 else none
  else some (max 0 (-improvement direction before after / |before|))

/-- Whether the values pass; `none` stands for a relative regression that is not defined. -/
def RuleKind.passed (direction : Option MetricDirection) (before after : ℚ) :
    RuleKind → Option Bool
  | noRegression => some (max 0 (-improvement direction before after) ≤ 0)
  | maxAbsoluteRegression tolerance =>
    some (max 0 (-improvement direction before after) ≤ tolerance.1)
  | maxRelativeRegression tolerance | tradeoff tolerance _ _ =>
    (relativeRegression direction before after).map fun regression => regression ≤ tolerance.1
  | minValue threshold => some (threshold ≤ after)
  | maxValue threshold => some (after ≤ threshold)
  | _ => some false

/-- Whether the rule compares the candidate with the baseline. -/
def RuleKind.isRegression : RuleKind → Bool
  | noRegression | maxAbsoluteRegression _ | maxRelativeRegression _ | tradeoff _ _ _ => true
  | _ => false

/-- `_evaluate_rule` -/
def evaluateRule (rule : Rule) : Option MetricRow → RuleResult
  | none => inconclusive rule (Text.ofString "missing_metric")
  | some row =>
    if row.isComparable excludedReasons = false then inconclusive rule row.reasonOr
    else
      match row.baseline.value, row.candidate.value with
      | some before, some after =>
        if rule.kind.isRegression && !hasDirection row.direction then
          inconclusive rule (Text.ofString "unknown_metric_direction")
        else
          match rule.kind.passed row.direction before after with
          | none => inconclusive rule (Text.ofString "relative_regression_baseline_zero")
          | some passed =>
            { metric := rule.metric, rule := rule.kind.name, status := .ofPassed passed,
              baseline := before, candidate := after }
      | _, _ => inconclusive rule (Text.ofString "metric_unavailable")

/-- `_evaluate_compensation` -/
def evaluateCompensation (metric : Text) (minGain : ℚ≥0) : Option MetricRow → CompensationResult
  | none => { metric, status := .inconclusive, reason := Text.ofString "missing_metric" }
  | some row =>
    if row.isComparable excludedCompensationReasons = false then
      { metric, status := .inconclusive, reason := row.reasonOr }
    else
      match row.baseline.value, row.candidate.value, hasDirection row.direction with
      | some before, some after, true =>
        let gain := improvement row.direction before after
        { metric, status := .ofPassed (minGain.1 ≤ gain), baseline := before, candidate := after,
          gain }
      | _, _, _ => { metric, status := .inconclusive, reason := Text.ofString "metric_unavailable" }

/-- `_evaluate_tradeoff`: a failure may be compensated. -/
def evaluateTradeoff (primary : RuleResult) (compensation : CompensationResult) :
    RuleResult :=
  if primary.status ≠ .fail then primary
  else
    match compensation.status with
    | .pass =>
      { primary with compensation, status := .pass, reason := Text.ofString "compensated_tradeoff" }
    | .inconclusive =>
      { primary with compensation, status := .inconclusive
                     reason := Text.ofString "compensation_not_comparable" }
    | .fail =>
      { primary with compensation, reason := Text.ofString "insufficient_compensation_gain" }

/-- The result of a rule. -/
def Rule.evaluate (rule : Rule) (e : Evidence) : RuleResult :=
  match rule.kind with
  | .requiredEvidenceLevel level => evaluateEvidenceLevel rule level e.evidenceLevel
  | .minPassHatK threshold => evaluatePassHatK rule threshold.1 e.comparison e.statistics
  | .minCiLowerBound threshold => evaluatePairedInterval rule threshold threshold e.statistics
  | .nonInferiority threshold =>
    evaluatePairedInterval rule threshold.1 (-threshold.1) e.statistics
  | .tradeoff _ compensationMetric minGain =>
    evaluateTradeoff (evaluateRule rule (e.comparison.metrics rule.metric))
      (evaluateCompensation compensationMetric minGain (e.comparison.metrics compensationMetric))
  | _ => evaluateRule rule (e.comparison.metrics rule.metric)

/-! ## The decision -/

/-- The variables of the loop. -/
structure Tally where
  ruleResults : List RuleResult := []
  reasons : List Text := []
  hardFail : Bool := false
  inconclusive : Bool := false

/-- Rules about the evidence and the statistics. -/
def RuleKind.isEvidence : RuleKind → Bool
  | requiredEvidenceLevel _ | minPassHatK _ | minCiLowerBound _ | nonInferiority _ => true
  | _ => false

/-- `f"{rule['metric']}:{result['status']}"` -/
def reasonText (rule : Rule) (result : RuleResult) : Text :=
  rule.metric ++ Text.ofString ":" ++ result.status.text

/-- A result of a rule about the evidence or the statistics counts when the rule is required. -/
def Tally.noteEvidence (t : Tally) (rule : Rule) (result : RuleResult) : Tally :=
  let t := { t with ruleResults := t.ruleResults ++ [result] }
  if result.status = .fail && rule.required then
    { t with hardFail := true, reasons := t.reasons ++ [reasonText rule result] }
  else if result.status = .inconclusive && rule.required then
    { t with inconclusive := true, reasons := t.reasons ++ [reasonText rule result] }
  else t

/-- A failure of a rule on a metric counts when the rule is a safety rule or required. -/
def Tally.noteMetric (t : Tally) (rule : Rule) (result : RuleResult) : Tally :=
  let t := { t with ruleResults := t.ruleResults ++ [result] }
  if result.status = .fail then
    { t with hardFail := t.hardFail || rule.safety || rule.required
             reasons := t.reasons ++ [reasonText rule result] }
  else if result.status = .inconclusive && rule.required then
    { t with inconclusive := true, reasons := t.reasons ++ [reasonText rule result] }
  else t

/-- One round of the loop. -/
def Tally.note (e : Evidence) (t : Tally) (rule : Rule) : Tally :=
  if rule.kind.isEvidence then t.noteEvidence rule (rule.evaluate e)
  else t.noteMetric rule (rule.evaluate e)

/-- A comparison that is not complete leaves a required rule open. -/
def Tally.noteStatus (t : Tally) (status : ComparisonStatus) (rules : List Rule) : Tally :=
  if status = .incomplete && rules.any Rule.required then
    { t with inconclusive := true, reasons := t.reasons ++ [Text.ofString "comparison_incomplete"] }
  else t

def Tally.status (t : Tally) : GateStatus :=
  if t.hardFail then .fail else if t.inconclusive then .inconclusive else .pass

/-- `_evaluate` -/
def evaluate (rules : List Rule) (e : Evidence) : GateStatus × List RuleResult × List Text :=
  if e.comparison.status = .notComparable then
    (.inconclusive, [], [Text.ofString "comparison_not_comparable"])
  else
    let t := (rules.foldl (Tally.note e) {}).noteStatus e.comparison.status rules
    (t.status, t.ruleResults, t.reasons)

end AgentHub.ReleaseGate

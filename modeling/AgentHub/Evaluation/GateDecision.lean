import AgentHub.Evaluation.ReleaseGate
import Mathlib.Algebra.Order.Field.Rat
import Mathlib.Tactic.Linarith

/-!
# Decisions of release gates

The loop over the rules finds out whether some rule fails hard and whether some required rule stays
open; the decision depends on nothing else. A failure counts when its rule is required, or when it
is a safety rule on a metric: the branches for the rules about the evidence and the statistics do
not look at the safety mark.

## Main definitions

* `Rule.failsHard`, `Rule.leavesOpen`: the results that count
* `Rule.isUnguarded`: a safety rule whose failure does not count
* `Comparison.withCandidate`, `Better`: another value of the candidate

## Main results

* `evaluate_eq_fail_iff`, `evaluate_eq_pass_iff`: the decision, by the results of the rules
* `failed_safety_rule_blocks_iff`: the policies under which every failure of a safety rule blocks
* `improvement_never_worsens`: a better value of the candidate gives no worse decision
-/

namespace AgentHub.ReleaseGate

open Lib

variable {rules : List Rule} {rule : Rule} {e : Evidence} {known : Text → Bool}

/-! ## The decision, by the results of the rules -/

section Decision

/-- A failure that blocks the release. -/
def Rule.failsHard (e : Evidence) (rule : Rule) : Bool :=
  (rule.evaluate e).status = .fail && (rule.required || (rule.safety && !rule.kind.isEvidence))

/-- A required rule without a result. -/
def Rule.leavesOpen (e : Evidence) (rule : Rule) : Bool :=
  (rule.evaluate e).status = .inconclusive && rule.required

theorem Tally.note_ruleResults (t : Tally) (rule : Rule) :
    (t.note e rule).ruleResults = t.ruleResults ++ [rule.evaluate e] := by
  unfold Tally.note Tally.noteEvidence Tally.noteMetric
  split_ifs <;> rfl

/-- One round of the loop. -/
theorem Tally.note_hardFail (t : Tally) (rule : Rule) :
    (t.note e rule).hardFail = (t.hardFail || rule.failsHard e) := by
  unfold Tally.note Tally.noteEvidence Tally.noteMetric Rule.failsHard
  cases rule.kind.isEvidence <;> cases rule.required <;> cases (rule.evaluate e).status <;> simp

theorem Tally.note_inconclusive (t : Tally) (rule : Rule) :
    (t.note e rule).inconclusive = (t.inconclusive || rule.leavesOpen e) := by
  unfold Tally.note Tally.noteEvidence Tally.noteMetric Rule.leavesOpen
  cases rule.kind.isEvidence <;> cases rule.required <;> cases (rule.evaluate e).status <;> simp

/-- The whole loop. -/
theorem foldl_note (rules : List Rule) (t : Tally) :
    (rules.foldl (Tally.note e) t).ruleResults = t.ruleResults ++ rules.map (·.evaluate e) ∧
    (rules.foldl (Tally.note e) t).hardFail = (t.hardFail || rules.any (·.failsHard e)) ∧
    (rules.foldl (Tally.note e) t).inconclusive =
      (t.inconclusive || rules.any (·.leavesOpen e)) := by
  induction rules generalizing t with
  | nil => simp
  | cons rule rules ih =>
    obtain ⟨hresults, hfail, hopen⟩ := ih (t.note e rule)
    refine ⟨?_, ?_, ?_⟩
    · rw [List.foldl_cons, hresults, t.note_ruleResults]
      simp
    · rw [List.foldl_cons, hfail, t.note_hardFail, List.any_cons, Bool.or_assoc]
    · rw [List.foldl_cons, hopen, t.note_inconclusive, List.any_cons, Bool.or_assoc]

/-- Whether the status of the comparison leaves the decision open. -/
def isOpen (rules : List Rule) (e : Evidence) : Bool :=
  e.comparison.status = .incomplete && rules.any Rule.required

variable (hcomparable : e.comparison.status ≠ .notComparable)

include hcomparable

theorem evaluate_status :
    (evaluate rules e).1 =
      if rules.any (·.failsHard e) then .fail
      else if rules.any (·.leavesOpen e) || isOpen rules e then .inconclusive
      else .pass := by
  obtain ⟨-, hfail, hopen⟩ := foldl_note (e := e) rules {}
  rw [Bool.false_or] at hfail hopen
  rw [evaluate, if_neg hcomparable]
  unfold Tally.noteStatus isOpen
  split
  · next hincomplete =>
    rw [hincomplete, Bool.or_true]
    simp only [Tally.status, hfail, if_true]
  · next hincomplete =>
    rw [Bool.not_eq_true] at hincomplete
    rw [hincomplete, Bool.or_false]
    simp only [Tally.status, hfail, hopen]

theorem evaluate_eq_fail_iff :
    (evaluate rules e).1 = .fail ↔ ∃ rule ∈ rules, rule.failsHard e = true := by
  rw [evaluate_status hcomparable, ← List.any_eq_true]
  cases rules.any (·.failsHard e)
  · split_ifs <;> simp_all
  · simp

theorem evaluate_eq_pass_iff :
    (evaluate rules e).1 = .pass ↔ (∀ rule ∈ rules, rule.failsHard e = false) ∧
      (∀ rule ∈ rules, rule.leavesOpen e = false) ∧ isOpen rules e = false := by
  have hfail : (∀ rule ∈ rules, rule.failsHard e = false) ↔ rules.any (·.failsHard e) = false := by
    simp
  have hopen : (∀ rule ∈ rules, rule.leavesOpen e = false) ↔
      rules.any (·.leavesOpen e) = false := by
    simp
  rw [evaluate_status hcomparable, hfail, hopen]
  cases rules.any (·.failsHard e) <;> cases rules.any (·.leavesOpen e) <;>
    cases isOpen rules e <;> simp

end Decision

/-! ## Accepted policies -/

section Accepted

variable {seen : List Text} {raw : Json}

/-- The kind of a rule is read by its name. -/
theorem readKind_name {name : RuleName} {metric : Text} {safety : Bool} {kvs : List (Text × Json)}
    {kind : RuleKind} (h : readKind known name metric safety kvs = .ok kind) :
    kind.name = name := by
  obtain ⟨tolerance, -, h⟩ := bind_eq_ok.mp h
  obtain ⟨⟨⟩, -, h⟩ := bind_eq_ok.mp h
  obtain ⟨threshold, -, h⟩ := bind_eq_ok.mp h
  obtain ⟨gain, -, h⟩ := bind_eq_ok.mp h
  cases name with
  | noRegression =>
    cases h
    rfl
  | tradeoff =>
    obtain ⟨tolerance, -, h⟩ := bind_eq_ok.mp h
    obtain ⟨⟨⟩, -, h⟩ := bind_eq_ok.mp h
    split at h
    · obtain ⟨⟨⟩, -, h⟩ := bind_eq_ok.mp h
      obtain ⟨gain, -, h⟩ := bind_eq_ok.mp h
      cases h
      rfl
    · cases h
  | _ =>
    obtain ⟨value, -, h⟩ := bind_eq_ok.mp h
    cases h
    rfl

/-- What the validation has checked of the metric of a rule. -/
theorem validateRule_metric (h : validateRule known seen raw = .ok rule) :
    rule.metric ∉ seen ∧ ∀ fixed, rule.kind.name.fixedMetric? = some fixed →
      rule.metric = fixed := by
  unfold validateRule at h
  split at h
  · split at h
    · next metric name _ _ =>
      obtain ⟨⟨⟩, hseen, h⟩ := bind_eq_ok.mp h
      split at h
      · cases h
      · next name _ =>
        obtain ⟨⟨⟩, -, h⟩ := bind_eq_ok.mp h
        obtain ⟨⟨⟩, -, h⟩ := bind_eq_ok.mp h
        obtain ⟨⟨⟩, hmetric, h⟩ := bind_eq_ok.mp h
        obtain ⟨required, -, h⟩ := bind_eq_ok.mp h
        obtain ⟨safety, -, h⟩ := bind_eq_ok.mp h
        obtain ⟨kind, hkind, h⟩ := bind_eq_ok.mp h
        cases h
        refine ⟨raiseIf_eq_ok.mp hseen, fun fixed hfixed => ?_⟩
        rw [readKind_name hkind] at hfixed
        rw [checkMetric, hfixed] at hmetric
        exact not_not.mp (raiseIf_eq_ok.mp hmetric)
    · cases h
  · cases h

/-- **What an accepted policy is**: no two rules are on one metric, and the rules about the evidence
and the statistics are on the metrics fixed for them. -/
structure Accepted (rules : List Rule) : Prop where
  distinct : (rules.map Rule.metric).Nodup
  fixed : ∀ rule ∈ rules, ∀ metric, rule.kind.name.fixedMetric? = some metric →
    rule.metric = metric

theorem accepted_of_validateRules (raws : List Json) :
    ∀ {seen rules}, validateRules known seen raws = .ok rules →
      Accepted rules ∧ ∀ rule ∈ rules, rule.metric ∉ seen := by
  induction raws with
  | nil =>
    rintro seen rules ⟨⟩
    exact ⟨⟨List.nodup_nil, nofun⟩, nofun⟩
  | cons raw raws ih =>
    intro seen rules h
    obtain ⟨rule, hrule, h⟩ := bind_eq_ok.mp h
    obtain ⟨rest, hrest, h⟩ := bind_eq_ok.mp h
    cases h
    obtain ⟨hseen, hfixed⟩ := validateRule_metric hrule
    obtain ⟨haccepted, hnew⟩ := ih hrest
    refine ⟨⟨?_, ?_⟩, ?_⟩
    · rw [List.map_cons, List.nodup_cons]
      refine ⟨fun hmem => ?_, haccepted.distinct⟩
      obtain ⟨other, hother, hsame⟩ := List.mem_map.mp hmem
      exact hnew other hother (hsame ▸ List.mem_cons_self)
    · rintro other (_ | ⟨_, hother⟩)
      · exact hfixed
      · exact haccepted.fixed other hother
    · rintro other (_ | ⟨_, hother⟩)
      · exact hseen
      · exact fun hmem => hnew other hother (List.mem_cons_of_mem _ hmem)

theorem accepted_of_validatePolicy {policy : Json} (h : validatePolicy known policy = .ok rules) :
    Accepted rules := by
  unfold validatePolicy at h
  split at h
  · obtain ⟨⟨⟩, -, h⟩ := bind_eq_ok.mp h
    split at h
    · exact (accepted_of_validateRules _ h).1
    · cases h
  · cases h

/-- Two rules of an accepted policy that are fixed to one metric are one rule. -/
theorem Accepted.eq_of_fixedMetric (h : Accepted rules) {other : Rule} {metric : Text}
    (hrule : rule ∈ rules) (hother : other ∈ rules)
    (hfixed : rule.kind.name.fixedMetric? = some metric)
    (hfixed' : other.kind.name.fixedMetric? = some metric) : rule = other :=
  List.inj_on_of_nodup_map h.distinct hrule hother
    ((h.fixed rule hrule metric hfixed).trans (h.fixed other hother metric hfixed').symm)

end Accepted

/-! ## Safety rules -/

section Safety

variable {policy : Json} {other : Rule}

/-- Of the rules about the evidence or the statistics, those that some evidence in range fails: the
lowest level is never missed, nor is the lowest rate or difference of rates. -/
def RuleKind.canFail : RuleKind → Bool
  | requiredEvidenceLevel level => level ≠ .deterministicConformance
  | minPassHatK threshold => 0 < threshold.1
  | minCiLowerBound threshold => -1 < threshold
  | nonInferiority threshold => threshold.1 < 1
  | _ => true

/-- **A safety rule whose failure does not count**: it is not required, and is about the evidence or
the statistics. -/
def Rule.isUnguarded (rule : Rule) : Bool :=
  rule.safety && !rule.required && rule.kind.isEvidence && rule.kind.canFail

theorem isUnguarded_eq_true (h : rule.isUnguarded = true) :
    rule.safety = true ∧ rule.required = false ∧ rule.kind.isEvidence = true := by
  simp only [Rule.isUnguarded, Bool.and_eq_true, Bool.not_eq_true'] at h
  exact ⟨h.1.1.1, h.1.1.2, h.1.2⟩

/-- `pass_hat_k` is a rate, and the interval one of differences of rates. -/
structure Statistics.InRange (statistics : Statistics) : Prop where
  passHatK : ∀ variants ∈ statistics.variants, ∀ id, ∀ variant ∈ variants id,
    ∀ value ∈ variant.passHatK, 0 ≤ value ∧ value ≤ 1
  interval : ∀ paired ∈ statistics.paired, ∀ interval ∈ paired.interval,
    ∀ lower ∈ interval.lower, -1 ≤ lower ∧ lower ≤ 1

theorem exists_fixedMetric {kind : RuleKind} (h : kind.isEvidence = true) :
    ∃ metric, kind.name.fixedMetric? = some metric := by
  cases kind with
  | requiredEvidenceLevel _ | minPassHatK _ | minCiLowerBound _ | nonInferiority _ => exact ⟨_, rfl⟩
  | _ => cases h

/-- Evidence on which a rule about the evidence or the statistics fails, and no other. -/
def failingEvidence (kind : RuleKind) : Evidence where
  comparison :=
    { status := .complete
      candidateVariantId := Text.ofString "candidate"
      metrics := fun _ => none }
  evidenceLevel :=
    match kind with
    | .requiredEvidenceLevel _ => some (Text.ofString "DETERMINISTIC_CONFORMANCE")
    | _ => none
  statistics :=
    match kind with
    | .minPassHatK _ => some { variants := some fun _ => some ⟨some 0, some 1⟩, paired := none }
    | .minCiLowerBound _ | .nonInferiority _ =>
      some { variants := none, paired := some ⟨some ⟨some (-1), some 1⟩, some 0, some 10⟩ }
    | _ => none

theorem inRange_failingEvidence (kind : RuleKind) :
    ∀ statistics ∈ (failingEvidence kind).statistics, statistics.InRange := by
  rintro statistics hstatistics
  cases kind with
  | minPassHatK _ | minCiLowerBound _ | nonInferiority _ =>
    cases hstatistics
    constructor <;> simp
  | _ => cases hstatistics

theorem ofPassed_of_not {p : Prop} [Decidable p] (h : ¬ p) : GateStatus.ofPassed p = .fail := by
  simp [GateStatus.ofPassed, h]

variable {threshold bound : ℚ} {comparison : Comparison} {statistics : Statistics}

theorem evaluatePassHatK_status {value rate : ℚ} {variants : Text → Option VariantStatistics}
    (hvariants : statistics.variants = some variants)
    (hcandidate : variants comparison.candidateVariantId = some ⟨some value, some rate⟩)
    (hrate : minCompleteCaseRate ≤ rate) :
    (evaluatePassHatK rule threshold comparison (some statistics)).status =
      .ofPassed (threshold ≤ value) := by
  simp only [evaluatePassHatK, hvariants, hcandidate, Option.all_some]
  rw [if_neg (by simpa using hrate)]

theorem evaluatePairedInterval_status {lower upper delta : ℚ} {count : ℤ}
    (hpaired : statistics.paired = some ⟨some ⟨some lower, some upper⟩, some delta, some count⟩)
    (hcount : minPairedCases ≤ count) (hinterval : lower ≠ upper) :
    (evaluatePairedInterval rule threshold bound (some statistics)).status =
      .ofPassed (bound ≤ lower) := by
  simp only [evaluatePairedInterval, hpaired, Option.all_some]
  rw [if_neg (by simpa using hcount), if_neg hinterval]

/-- The rule fails on its evidence. -/
theorem evaluate_failingEvidence (h : rule.isUnguarded = true) :
    (rule.evaluate (failingEvidence rule.kind)).status = .fail := by
  obtain ⟨metric, required, safety, kind⟩ := rule
  simp only [Rule.isUnguarded, Bool.and_eq_true] at h
  obtain ⟨⟨-, hevidence⟩, hkind⟩ := h
  cases kind with
  | requiredEvidenceLevel level =>
    cases level with
    | deterministicConformance => cases hkind
    | _ => rfl
  | minPassHatK threshold =>
    refine (evaluatePassHatK_status rfl rfl (by norm_num [minCompleteCaseRate])).trans ?_
    exact ofPassed_of_not (not_le.mpr (of_decide_eq_true hkind))
  | minCiLowerBound threshold =>
    refine (evaluatePairedInterval_status rfl le_rfl (by norm_num)).trans ?_
    exact ofPassed_of_not (not_le.mpr (of_decide_eq_true hkind))
  | nonInferiority threshold =>
    refine (evaluatePairedInterval_status rfl le_rfl (by norm_num)).trans ?_
    exact ofPassed_of_not (not_le.mpr (neg_lt_neg (of_decide_eq_true hkind)))
  | _ => cases hevidence

/-- A rule that is not fixed to the same metric has no result. -/
theorem evaluate_failingEvidence_other {kind : RuleKind}
    (hevidence : kind.isEvidence = true)
    (h : other.kind.name.fixedMetric? ≠ kind.name.fixedMetric?) :
    (other.evaluate (failingEvidence kind)).status = .inconclusive := by
  obtain ⟨metric, required, safety, okind⟩ := other
  cases okind <;> cases kind <;> first | cases hevidence; done | rfl | exact absurd rfl h

theorem evaluatePassHatK_ne_fail {statistics : Option Statistics}
    (hrange : ∀ s ∈ statistics, s.InRange) (h : threshold ≤ 0) :
    (evaluatePassHatK rule threshold comparison statistics).status ≠ .fail := by
  unfold evaluatePassHatK
  split
  · exact nofun
  · next statistics =>
    split
    · exact nofun
    · next variants hvariants =>
      split
      · next value rate hvariant =>
        have hvalue := ((hrange _ rfl).passHatK _ hvariants _ _ hvariant value rfl).1
        split
        · exact nofun
        · simp [GateStatus.ofPassed, h.trans hvalue]
      · exact nofun

theorem evaluatePairedInterval_ne_fail {statistics : Option Statistics}
    (hrange : ∀ s ∈ statistics, s.InRange) (h : bound ≤ -1) :
    (evaluatePairedInterval rule threshold bound statistics).status ≠ .fail := by
  unfold evaluatePairedInterval
  split
  · exact nofun
  · next statistics =>
    split
    · next lower upper delta count hpaired =>
      have hlower := ((hrange _ rfl).interval _ hpaired _ rfl lower rfl).1
      split_ifs
      · exact nofun
      · exact nofun
      · simp [GateStatus.ofPassed, h.trans hlower]
    · exact nofun

/-- What cannot be missed is not. -/
theorem evaluate_ne_fail {e : Evidence} (hrange : ∀ s ∈ e.statistics, s.InRange)
    (h : rule.kind.canFail = false) : (rule.evaluate e).status ≠ .fail := by
  unfold Rule.evaluate
  split
  · next level hkind =>
    rw [hkind] at h
    obtain rfl : level = .deterministicConformance := by simpa [RuleKind.canFail] using h
    unfold evaluateEvidenceLevel
    split
    · exact nofun
    · simp [EvidenceLevel.rank, GateStatus.ofPassed]
  · next threshold hkind =>
    rw [hkind] at h
    exact evaluatePassHatK_ne_fail hrange (by simpa [RuleKind.canFail] using h)
  · next threshold hkind =>
    rw [hkind] at h
    exact evaluatePairedInterval_ne_fail hrange (by simpa [RuleKind.canFail] using h)
  · next threshold hkind =>
    rw [hkind] at h
    exact evaluatePairedInterval_ne_fail hrange (by simpa [RuleKind.canFail] using h)
  all_goals simp_all [RuleKind.canFail]

/-- **Failures of safety rules block the release** exactly under the policies whose safety rules are
required or on metrics. A safety rule that nothing in range fails may fail on other statistics. -/
theorem failed_safety_rule_blocks_iff (hpolicy : validatePolicy known policy = .ok rules) :
    (∀ e : Evidence, e.comparison.status ≠ .notComparable →
      ((∃ rule ∈ rules, (rule.required ∨ rule.safety ∧
          (rule.kind.canFail ∨ ∀ statistics ∈ e.statistics, statistics.InRange)) ∧
          (rule.evaluate e).status = .fail) → (evaluate rules e).1 = .fail) ∧
      ((evaluate rules e).1 = .pass → ∀ rule ∈ rules, rule.required →
        (rule.evaluate e).status ≠ .fail ∧ (rule.evaluate e).status ≠ .inconclusive)) ↔
    ∀ rule ∈ rules, rule.isUnguarded = false := by
  constructor
  · intro h rule hrule
    by_contra hunguarded
    rw [Bool.not_eq_false] at hunguarded
    obtain ⟨hsafety, hrequired, hevidence⟩ := isUnguarded_eq_true hunguarded
    have hcomparable : (failingEvidence rule.kind).comparison.status ≠ .notComparable := nofun
    have hblocked := (h _ hcomparable).1 ⟨rule, hrule,
      .inr ⟨hsafety, .inr (inRange_failingEvidence _)⟩, evaluate_failingEvidence hunguarded⟩
    obtain ⟨other, hother, hhard⟩ := (evaluate_eq_fail_iff hcomparable).mp hblocked
    -- Neither the rule itself nor any other rule blocks the release.
    obtain ⟨metric, hmetric⟩ := exists_fixedMetric hevidence
    by_cases hsame : other.kind.name.fixedMetric? = some metric
    · obtain rfl :=
        (accepted_of_validatePolicy hpolicy).eq_of_fixedMetric hrule hother hmetric hsame
      simp [Rule.failsHard, hrequired, hevidence] at hhard
    · have hstatus := evaluate_failingEvidence_other hevidence (hmetric ▸ hsame)
      simp [Rule.failsHard, hstatus] at hhard
  · intro h e hcomparable
    refine ⟨?_, fun hpass rule hrule hrequired => ?_⟩
    · rintro ⟨rule, hrule, hmarked, hfail⟩
      have hguarded := h rule hrule
      have hkind : (∀ s ∈ e.statistics, s.InRange) → rule.kind.canFail = true := fun hrange =>
        Bool.not_eq_false _ ▸ fun hkind => evaluate_ne_fail hrange hkind hfail
      refine (evaluate_eq_fail_iff hcomparable).mpr ⟨rule, hrule, ?_⟩
      simp only [Rule.failsHard, hfail, decide_true, Bool.true_and]
      rcases hmarked with hrequired | ⟨hsafety, hcan⟩
      · simp [hrequired]
      · have hcan : rule.kind.canFail = true := hcan.elim id hkind
        simp only [Rule.isUnguarded, hsafety, hcan] at hguarded
        revert hguarded
        cases rule.required <;> cases rule.kind.isEvidence <;> simp [hsafety]
    · obtain ⟨hnofail, hnoopen, -⟩ := (evaluate_eq_pass_iff hcomparable).mp hpass
      have hnofail := hnofail rule hrule
      have hnoopen := hnoopen rule hrule
      simp_all [Rule.failsHard, Rule.leavesOpen]

/-- A safety rule on the level of the evidence, not required. -/
def levelPolicy : Json :=
  .obj [(Text.ofString "rules", .arr [.obj [
    (Text.ofString "metric", .str (Text.ofString "evidence_level")),
    (Text.ofString "rule", .str (Text.ofString "REQUIRED_EVIDENCE_LEVEL")),
    (Text.ofString "level", .str (Text.ofString "REAL_PROVIDER")),
    (Text.ofString "required", .bool false),
    (Text.ofString "safety", .bool true)]])]

/-- A run with simulated providers passes a safety rule that asks for real ones. -/
theorem failed_level_passes :
    ∃ (rule : Rule) (e : Evidence), validatePolicy (fun _ => true) levelPolicy = .ok [rule] ∧
      e.comparison.status = .complete ∧ e.evidenceLevel = Text.ofString "CONTROLLED_SIMULATION" ∧
      rule.safety = true ∧ (rule.evaluate e).status = .fail ∧ (evaluate [rule] e).1 = .pass :=
  ⟨⟨Text.ofString "evidence_level", false, true, .requiredEvidenceLevel .realProvider⟩,
    { comparison := ⟨.complete, Text.ofString "candidate", fun _ => none⟩
      evidenceLevel := Text.ofString "CONTROLLED_SIMULATION"
      statistics := none },
    rfl, rfl, rfl, rfl, rfl, rfl⟩

/-- A safety rule on a metric, not required. -/
def successPolicy : Json :=
  .obj [(Text.ofString "rules", .arr [.obj [
    (Text.ofString "metric", .str (Text.ofString "task_success")),
    (Text.ofString "rule", .str (Text.ofString "NO_REGRESSION")),
    (Text.ofString "required", .bool false),
    (Text.ofString "safety", .bool true)]])]

theorem failed_safety_rule_blocks_success :
    ∃ rule : Rule, validatePolicy (fun _ => true) successPolicy = .ok [rule] ∧
      ∀ e : Evidence, e.comparison.status ≠ .notComparable → (rule.evaluate e).status = .fail →
        (evaluate [rule] e).1 = .fail := by
  refine ⟨⟨Text.ofString "task_success", false, true, .noRegression⟩, rfl, ?_⟩
  intro e hcomparable hfail
  have hpolicy : validatePolicy (fun _ => true) successPolicy = .ok _ := rfl
  refine ((failed_safety_rule_blocks_iff hpolicy).mpr ?_ e hcomparable).1
    ⟨_, ?_, .inr ⟨rfl, .inl rfl⟩, hfail⟩
  · rintro rule (_ | ⟨_, ⟨⟩⟩)
    rfl
  · exact List.mem_singleton_self _

end Safety

/-! ## Improvements -/

/-- The second value is better, in the direction of the metric. -/
def Better (direction : Option MetricDirection) (before after : ℚ) : Prop :=
  direction = some .higherIsBetter ∧ before < after ∨
    direction = some .lowerIsBetter ∧ after < before

/-- Another value of the candidate. -/
def MetricRow.withCandidate (row : MetricRow) (value : ℚ) : MetricRow :=
  { row with candidate := { row.candidate with value := value } }

/-- The comparison with another value of one metric of the candidate. -/
def Evidence.withCandidate (e : Evidence) (metric : Text) (value : ℚ) : Evidence :=
  { e with
    comparison :=
      { e.comparison with
        metrics := fun name =>
          if name = metric then (e.comparison.metrics name).map (·.withCandidate value)
          else e.comparison.metrics name } }

/-- A lower bound is set on a metric whose higher values are better, and an upper bound on one whose
lower values are better. -/
def RuleKind.FollowsDirection (direction : Option MetricDirection) : RuleKind → Prop
  | minValue _ => direction = some .higherIsBetter
  | maxValue _ => direction = some .lowerIsBetter
  | _ => True

/-- The rules on the regression relative to the baseline. -/
def RuleKind.isRelative : RuleKind → Bool
  | maxRelativeRegression _ | tradeoff _ _ _ => true
  | _ => false

section Improvement

variable {direction : Option MetricDirection} {base before after : ℚ} {row : MetricRow}
  {metric : Text}

section Better

variable (h : Better direction before after)

include h

theorem Better.hasDirection : hasDirection direction = true := by
  rcases h with ⟨rfl, -⟩ | ⟨rfl, -⟩ <;> rfl

theorem Better.lt_of_higher (hdirection : direction = some .higherIsBetter) : before < after := by
  rcases h with ⟨-, h⟩ | ⟨rfl, -⟩
  · exact h
  · cases hdirection

theorem Better.lt_of_lower (hdirection : direction = some .lowerIsBetter) : after < before := by
  rcases h with ⟨rfl, -⟩ | ⟨-, h⟩
  · cases hdirection
  · exact h

theorem improvement_lt : improvement direction base before < improvement direction base after := by
  rcases h with ⟨rfl, h⟩ | ⟨rfl, h⟩
  · simpa [improvement] using h
  · simpa [improvement] using h

end Better

/-- **A result advances**: it stays or becomes a pass. -/
def GateStatus.Advances (a b : GateStatus) : Prop := b = a ∨ b = .pass

theorem ofPassed_advances {p q : Bool} (h : p = true → q = true) :
    (GateStatus.ofPassed p).Advances (.ofPassed q) := by
  cases p with
  | true => exact .inl (by rw [h rfl])
  | false =>
    cases q with
    | true => exact .inr rfl
    | false => exact .inl rfl

/-- The result of a rule on the values of a metric. -/
def RuleKind.result (direction : Option MetricDirection) (base value : ℚ) (kind : RuleKind) :
    GateStatus :=
  match kind.passed direction base value with
  | none => .inconclusive
  | some passed => .ofPassed passed

theorem relative_advances (hbetter : Better direction before after)
    (hzero : base = 0 → before ≠ 0) (tolerance : ℚ≥0) :
    ((RuleKind.maxRelativeRegression tolerance).result direction base before).Advances
      ((RuleKind.maxRelativeRegression tolerance).result direction base after) := by
  simp only [RuleKind.result, RuleKind.passed, relativeRegression]
  by_cases hbase : base = 0
  · -- Without a baseline there is a result for the value zero alone.
    subst hbase
    rw [if_pos rfl, if_pos rfl, if_neg (hzero rfl)]
    split_ifs
    · exact .inr (by simp [GateStatus.ofPassed])
    · exact .inl rfl
  · rw [if_neg hbase, if_neg hbase]
    refine ofPassed_advances fun h => ?_
    have hregression : -improvement direction base after / |base| ≤
        -improvement direction base before / |base| :=
      div_le_div_of_nonneg_right (neg_le_neg (improvement_lt hbetter).le) (abs_nonneg base)
    simp only [decide_eq_true_eq, sup_le_iff] at h ⊢
    exact ⟨h.1, hregression.trans h.2⟩

/-- A better value advances a rule on the metric. -/
theorem result_advances {kind : RuleKind} (hbetter : Better direction before after)
    (hfollows : kind.FollowsDirection direction)
    (hzero : kind.isRelative = true → base = 0 → before ≠ 0) :
    (kind.result direction base before).Advances (kind.result direction base after) := by
  have himprovement : improvement direction base before < improvement direction base after :=
    improvement_lt hbetter
  cases kind with
  | noRegression =>
    refine ofPassed_advances fun h => ?_
    simp only [decide_eq_true_eq, sup_le_iff] at h ⊢
    exact ⟨le_rfl, by linarith [h.2]⟩
  | maxAbsoluteRegression tolerance =>
    refine ofPassed_advances fun h => ?_
    simp only [decide_eq_true_eq, sup_le_iff] at h ⊢
    exact ⟨h.1, by linarith [h.2]⟩
  | maxRelativeRegression tolerance => exact relative_advances hbetter (hzero rfl) tolerance
  | tradeoff tolerance _ _ => exact relative_advances hbetter (hzero rfl) tolerance
  | minValue threshold =>
    refine ofPassed_advances fun h => ?_
    simp only [decide_eq_true_eq] at h ⊢
    exact h.trans (hbetter.lt_of_higher hfollows).le
  | maxValue threshold =>
    refine ofPassed_advances fun h => ?_
    simp only [decide_eq_true_eq] at h ⊢
    exact (hbetter.lt_of_lower hfollows).le.trans h
  | _ => exact .inl rfl

/-- A rule on a metric with both values and a direction. -/
theorem evaluateRule_status {value : ℚ} (hbase : row.baseline.value = some base)
    (hvalue : row.candidate.value = some value) (hdirection : hasDirection row.direction = true) :
    (evaluateRule rule (some row)).status =
      if row.isComparable excludedReasons = false then .inconclusive
      else rule.kind.result row.direction base value := by
  simp only [evaluateRule, RuleKind.result, hbase, hvalue, hdirection, Bool.not_true,
    Bool.and_false, Bool.false_eq_true, if_false]
  split
  · rfl
  · cases rule.kind.passed row.direction base value <;> rfl

theorem evaluateRule_without_baseline (hbase : row.baseline.value = none) :
    (evaluateRule rule (some row)).status = .inconclusive := by
  simp only [evaluateRule, hbase]
  split <;> rfl

/-- A better value of the candidate advances the rule on the metric. -/
theorem evaluateRule_advances (hvalue : row.candidate.value = some before)
    (hbetter : Better row.direction before after)
    (hfollows : rule.kind.FollowsDirection row.direction)
    (hzero : rule.kind.isRelative = true → row.baseline.value = some 0 → before ≠ 0) :
    (evaluateRule rule (some row)).status.Advances
      (evaluateRule rule (some (row.withCandidate after))).status := by
  have hcomparable : (row.withCandidate after).isComparable excludedReasons =
      row.isComparable excludedReasons := rfl
  have hvalue' : (row.withCandidate after).candidate.value = some after := rfl
  cases hbase : row.baseline.value with
  | none =>
    have hbase' : (row.withCandidate after).baseline.value = none := hbase
    rw [evaluateRule_without_baseline hbase, evaluateRule_without_baseline hbase']
    exact .inl rfl
  | some base =>
    have hbase' : (row.withCandidate after).baseline.value = some base := hbase
    rw [evaluateRule_status hbase hvalue hbetter.hasDirection,
      evaluateRule_status hbase' hvalue' hbetter.hasDirection, hcomparable]
    split_ifs
    · exact .inl rfl
    · exact result_advances hbetter hfollows fun hrelative h => hzero hrelative (h ▸ hbase)

variable {name : Text} {minGain : ℚ≥0}

/-- A compensation by a metric with both values and a direction. -/
theorem evaluateCompensation_status {value : ℚ} (hbase : row.baseline.value = some base)
    (hvalue : row.candidate.value = some value) (hdirection : hasDirection row.direction = true) :
    (evaluateCompensation name minGain (some row)).status =
      if row.isComparable excludedCompensationReasons = false then .inconclusive
      else .ofPassed (minGain.1 ≤ improvement row.direction base value) := by
  simp only [evaluateCompensation, hbase, hvalue, hdirection]
  split <;> rfl

theorem evaluateCompensation_without_baseline (hbase : row.baseline.value = none) :
    (evaluateCompensation name minGain (some row)).status = .inconclusive := by
  simp only [evaluateCompensation, hbase]
  split <;> rfl

/-- A better value of the candidate advances the compensation by the metric. -/
theorem evaluateCompensation_advances (hvalue : row.candidate.value = some before)
    (hbetter : Better row.direction before after) :
    (evaluateCompensation name minGain (some row)).status.Advances
      (evaluateCompensation name minGain (some (row.withCandidate after))).status := by
  have hcomparable : (row.withCandidate after).isComparable excludedCompensationReasons =
      row.isComparable excludedCompensationReasons := rfl
  have hvalue' : (row.withCandidate after).candidate.value = some after := rfl
  cases hbase : row.baseline.value with
  | none =>
    have hbase' : (row.withCandidate after).baseline.value = none := hbase
    rw [evaluateCompensation_without_baseline hbase, evaluateCompensation_without_baseline hbase']
    exact .inl rfl
  | some base =>
    have hbase' : (row.withCandidate after).baseline.value = some base := hbase
    rw [evaluateCompensation_status hbase hvalue hbetter.hasDirection,
      evaluateCompensation_status hbase' hvalue' hbetter.hasDirection, hcomparable]
    split_ifs
    · exact .inl rfl
    · refine ofPassed_advances fun h => ?_
      simp only [decide_eq_true_eq] at h ⊢
      exact h.trans (improvement_lt hbetter).le

theorem evaluateTradeoff_status (primary : RuleResult) (compensation : CompensationResult) :
    (evaluateTradeoff primary compensation).status =
      if primary.status = .fail then compensation.status else primary.status := by
  unfold evaluateTradeoff
  by_cases hfail : primary.status = .fail
  · rw [if_neg (not_not.mpr hfail), if_pos hfail]
    cases compensation.status with
    | fail => exact hfail
    | inconclusive => rfl
    | pass => rfl
  · rw [if_pos hfail, if_neg hfail]

theorem evaluateTradeoff_advances {primary primary' : RuleResult}
    {compensation compensation' : CompensationResult}
    (hprimary : primary.status.Advances primary'.status)
    (hcompensation : compensation.status.Advances compensation'.status) :
    (evaluateTradeoff primary compensation).status.Advances
      (evaluateTradeoff primary' compensation').status := by
  rw [evaluateTradeoff_status, evaluateTradeoff_status]
  rcases hprimary with hprimary | hprimary
  · rw [hprimary]
    split_ifs
    · exact hcompensation
    · exact .inl rfl
  · rw [hprimary, if_neg (show GateStatus.pass ≠ .fail from nofun)]
    exact .inr rfl

/-- What a value of the candidate may be replaced by. -/
structure Improves (rules : List Rule) (e : Evidence) (metric : Text) (row : MetricRow)
    (before after : ℚ) : Prop where
  row_eq : e.comparison.metrics metric = some row
  available : row.candidate.status = some .available
  value_eq : row.candidate.value = some before
  better : Better row.direction before after
  follows : ∀ rule ∈ rules, rule.metric = metric → rule.kind.FollowsDirection row.direction

/-- The rule compares with a baseline of zero, which the candidate leaves. -/
def Rule.LosesBaseline (rule : Rule) (metric : Text) (row : MetricRow) (before : ℚ) : Prop :=
  rule.metric = metric ∧ rule.kind.isRelative = true ∧ row.baseline.value = some 0 ∧ before = 0

theorem withCandidate_same (h : e.comparison.metrics metric = some row) (value : ℚ) :
    (e.withCandidate metric value).comparison.metrics metric = some (row.withCandidate value) := by
  simp [Evidence.withCandidate, h]

theorem withCandidate_other (h : name ≠ metric) (value : ℚ) :
    (e.withCandidate metric value).comparison.metrics name = e.comparison.metrics name := by
  simp [Evidence.withCandidate, h]

section Improves

variable (h : Improves rules e metric row before after)

include h

theorem compensation_advances (name : Text) (minGain : ℚ≥0) :
    (evaluateCompensation name minGain (e.comparison.metrics name)).status.Advances
      (evaluateCompensation name minGain
        ((e.withCandidate metric after).comparison.metrics name)).status := by
  by_cases hname : name = metric
  · subst hname
    rw [h.row_eq, withCandidate_same h.row_eq]
    exact evaluateCompensation_advances h.value_eq h.better
  · rw [withCandidate_other hname]
    exact .inl rfl

theorem metric_advances (hrule : rule ∈ rules)
    (hbaseline : ¬ rule.LosesBaseline metric row before) :
    (evaluateRule rule (e.comparison.metrics rule.metric)).status.Advances
      (evaluateRule rule
        ((e.withCandidate metric after).comparison.metrics rule.metric)).status := by
  by_cases hmetric : rule.metric = metric
  · rw [hmetric, h.row_eq, withCandidate_same h.row_eq]
    exact evaluateRule_advances h.value_eq h.better (h.follows rule hrule hmetric)
      fun hrelative hbase hbefore => hbaseline ⟨hmetric, hrelative, hbase, hbefore⟩
  · rw [withCandidate_other hmetric]
    exact .inl rfl

theorem evaluate_advances (hrule : rule ∈ rules)
    (hbaseline : ¬ rule.LosesBaseline metric row before) :
    (rule.evaluate e).status.Advances (rule.evaluate (e.withCandidate metric after)).status := by
  have hmetric := metric_advances h hrule hbaseline
  unfold Rule.evaluate
  split
  · exact .inl rfl
  · exact .inl rfl
  · exact .inl rfl
  · exact .inl rfl
  · exact evaluateTradeoff_advances hmetric (compensation_advances h _ _)
  · exact hmetric

/-- A rule that has lost its baseline has no result. -/
theorem evaluate_of_losesBaseline (hbaseline : rule.LosesBaseline metric row before) :
    (rule.evaluate (e.withCandidate metric after)).status = .inconclusive := by
  obtain ⟨hmetric, hrelative, hbase, rfl⟩ := hbaseline
  have hafter : after ≠ 0 := by
    rcases h.better with ⟨-, hlt⟩ | ⟨-, hlt⟩
    · exact hlt.ne'
    · exact hlt.ne
  have hpassed : rule.kind.passed row.direction 0 after = none := by
    cases hkind : rule.kind <;> simp_all [RuleKind.isRelative, RuleKind.passed, relativeRegression]
  have hbase' : (row.withCandidate after).baseline.value = some 0 := hbase
  have hprimary : (evaluateRule rule (some (row.withCandidate after))).status = .inconclusive := by
    rw [evaluateRule_status hbase' rfl h.better.hasDirection]
    split
    · rfl
    · simp [RuleKind.result, MetricRow.withCandidate, hpassed]
  unfold Rule.evaluate
  rw [hmetric, withCandidate_same h.row_eq]
  split <;> simp_all [RuleKind.isRelative, evaluateTradeoff_status]

end Improves

theorem GateStatus.le_of_fail_of_pass {a b : GateStatus} (hfail : b = .fail → a = .fail)
    (hpass : a = .pass → b = .pass) : a ≤ b := by
  revert hfail hpass
  cases a <;> cases b <;> decide

theorem GateStatus.Advances.eq {a b : GateStatus} (h : a.Advances b) (hb : b ≠ .pass) : a = b :=
  (h.resolve_right hb).symm

/-- A decision is no worse where rules advance, or have no result and are not required. -/
theorem evaluate_le_of_advances {e' : Evidence}
    (hstatus : e'.comparison.status = e.comparison.status)
    (h : ∀ rule ∈ rules, (rule.evaluate e).status.Advances (rule.evaluate e').status ∨
      (rule.evaluate e').status = .inconclusive ∧ rule.required = false) :
    (evaluate rules e).1 ≤ (evaluate rules e').1 := by
  by_cases hcomparable : e.comparison.status = .notComparable
  · rw [evaluate, if_pos hcomparable, evaluate, if_pos (hstatus.trans hcomparable)]
  have hcomparable' : e'.comparison.status ≠ .notComparable := hstatus ▸ hcomparable
  have hfail : ∀ rule ∈ rules, rule.failsHard e' = true → rule.failsHard e = true := by
    intro rule hrule hhard
    obtain ⟨hresult, hcounts⟩ := Bool.and_eq_true_iff.mp hhard
    have hresult := of_decide_eq_true hresult
    rcases h rule hrule with hadvances | ⟨hnone, -⟩
    · rw [Rule.failsHard, hadvances.eq (by rw [hresult]; nofun), hresult, hcounts]
      rfl
    · exact absurd (hnone.symm.trans hresult) nofun
  have hopen : ∀ rule ∈ rules, rule.leavesOpen e' = true → rule.leavesOpen e = true := by
    intro rule hrule hleft
    obtain ⟨hresult, hrequired⟩ := Bool.and_eq_true_iff.mp hleft
    have hresult := of_decide_eq_true hresult
    rcases h rule hrule with hadvances | ⟨-, hoptional⟩
    · rw [Rule.leavesOpen, hadvances.eq (by rw [hresult]; nofun), hresult, hrequired]
      rfl
    · exact absurd (hoptional.symm.trans hrequired) nofun
  refine GateStatus.le_of_fail_of_pass (fun hfailed => ?_) fun hpassed => ?_
  · obtain ⟨rule, hrule, hhard⟩ := (evaluate_eq_fail_iff hcomparable').mp hfailed
    exact (evaluate_eq_fail_iff hcomparable).mpr ⟨rule, hrule, hfail rule hrule hhard⟩
  · obtain ⟨hnofail, hnoopen, hstatusOpen⟩ := (evaluate_eq_pass_iff hcomparable).mp hpassed
    refine (evaluate_eq_pass_iff hcomparable').mpr ⟨fun rule hrule => ?_, fun rule hrule => ?_, ?_⟩
    · refine Bool.eq_false_iff.mpr fun hhard => ?_
      exact Bool.false_ne_true ((hnofail rule hrule).symm.trans (hfail rule hrule hhard))
    · refine Bool.eq_false_iff.mpr fun hleft => ?_
      exact Bool.false_ne_true ((hnoopen rule hrule).symm.trans (hopen rule hrule hleft))
    · rw [← hstatusOpen, isOpen, isOpen, hstatus]

/-- **Improving a candidate never worsens the decision**, unless a required rule on the relative
regression loses the baseline zero. -/
theorem improvement_never_worsens (h : Improves rules e metric row before after)
    (hzero : row.baseline.value = some 0 → before = 0 → ∀ rule ∈ rules, rule.metric = metric →
      rule.required = true → rule.kind.isRelative = false) :
    (evaluate rules e).1 ≤ (evaluate rules (e.withCandidate metric after)).1 := by
  refine evaluate_le_of_advances rfl fun rule hrule => ?_
  by_cases hbaseline : rule.LosesBaseline metric row before
  · refine .inr ⟨evaluate_of_losesBaseline h hbaseline, Bool.eq_false_iff.mpr fun hrequired => ?_⟩
    obtain ⟨hmetric, hrelative, hbase, hbefore⟩ := hbaseline
    rw [hzero hbase hbefore rule hrule hmetric hrequired] at hrelative
    cases hrelative
  · exact .inl (evaluate_advances h hrule hbaseline)

/-- A rule on the relative regression of the rate of success. -/
def relativePolicy : Json :=
  .obj [(Text.ofString "rules", .arr [.obj [
    (Text.ofString "metric", .str (Text.ofString "task_success")),
    (Text.ofString "rule", .str (Text.ofString "MAX_RELATIVE_REGRESSION")),
    (Text.ofString "tolerance", .int 1)]])]

def relativeRule : Rule := ⟨Text.ofString "task_success", true, false, .maxRelativeRegression 1⟩

/-- A rate of success of the baseline and of the candidate. -/
def successRow (base value : ℚ) : MetricRow where
  status := none
  reason := none
  direction := some .higherIsBetter
  baseline := ⟨some .available, some base⟩
  candidate := ⟨some .available, some value⟩

def successEvidence (base value : ℚ) : Evidence where
  comparison :=
    { status := .complete
      candidateVariantId := Text.ofString "candidate"
      metrics := fun name =>
        if name = Text.ofString "task_success" then some (successRow base value) else none }
  evidenceLevel := none
  statistics := none

/-- A candidate that succeeds where nothing succeeded before loses its pass. -/
theorem improvement_loses_zero_baseline :
    validatePolicy (fun _ => true) relativePolicy = .ok [relativeRule] ∧
      Improves [relativeRule] (successEvidence 0 0) (Text.ofString "task_success") (successRow 0 0)
        0 1 ∧
      (evaluate [relativeRule] (successEvidence 0 0)).1 = .pass ∧
      (evaluate [relativeRule]
        ((successEvidence 0 0).withCandidate (Text.ofString "task_success") 1)).1 =
          .inconclusive := by
  refine ⟨by decide +kernel, ⟨rfl, rfl, rfl, .inl ⟨rfl, by norm_num⟩, ?_⟩, by decide +kernel,
    by decide +kernel⟩
  rintro rule (_ | ⟨_, ⟨⟩⟩) -
  exact trivial

theorem improvement_never_worsens_success :
    (evaluate [relativeRule] (successEvidence 1 (1 / 2))).1 ≤
      (evaluate [relativeRule]
        ((successEvidence 1 (1 / 2)).withCandidate (Text.ofString "task_success") 1)).1 := by
  have himproves : Improves [relativeRule] (successEvidence 1 (1 / 2))
      (Text.ofString "task_success") (successRow 1 (1 / 2)) (1 / 2) 1 := by
    refine ⟨rfl, rfl, rfl, .inl ⟨rfl, by norm_num⟩, ?_⟩
    rintro rule (_ | ⟨_, ⟨⟩⟩) -
    exact trivial
  exact improvement_never_worsens himproves fun hbase => absurd (Option.some.inj hbase) one_ne_zero

end Improvement

end AgentHub.ReleaseGate

import AgentHub.History.Planned

/-!
# Safety of plans

A plan stays within the working budget and decides every measured group once. Mandatory groups are
always retained; a plan that is ready for dispatch has measured everything, retains all that must be
kept, and stays below the hard threshold.

## Main definitions

* `MustKeep`: what a plan that is ready retains, by the group alone
* `PlanSafe`: the safety of a plan

## Main results

* `historyPlan_ready_iff`: when a plan is ready for dispatch
* `plan_history_safe`: every plan that is returned is safe
-/

namespace AgentHub.History

open Lib Context

variable {o : PlanOptions} {measured : List MeasuredGroup} {choice : Choice}
  {decisions : List SourceGroupDecision}

/-! ## Readiness -/

/-- None of the entries blocks. -/
def Unblocked (l : List Insufficiency) : Prop := ∀ i ∈ l, i.blocking = false

theorem unblocked_append {l r : List Insufficiency} :
    Unblocked (l ++ r) ↔ Unblocked l ∧ Unblocked r :=
  List.forall_mem_append

theorem unblocked_ite {c : Prop} [Decidable c] {i : Insufficiency} :
    Unblocked (if c then [i] else []) ↔ (c → i.blocking = false) := by
  by_cases hc : c <;> simp [Unblocked, hc]

/-- What is said about summaries does not block. -/
theorem unblocked_summaryInsufficiencies (f : Findings) : Unblocked f.summaryInsufficiencies := by
  unfold Findings.summaryInsufficiencies
  split_ifs <;> simp [Unblocked]

theorem pressure_eq_hard_iff {tokens : ℕ} {thresholds : HistoryThresholds} :
    pressure tokens thresholds = .hard ↔ thresholds.hardTokens ≤ tokens := by
  unfold pressure
  split_ifs <;> simp_all

variable {ordered : List HistorySourceGroup}

/-- **When a plan is ready**: everything is measured, what must be kept is retained, and the tokens
stay below the hard threshold. -/
theorem historyPlan_ready_iff :
    (historyPlan o ordered measured choice decisions).readyForDispatch = true ↔
      ordered.length ≤ o.maxGroups ∧
      omits .keepExact measured choice.decisions = false ∧
      omits .recent measured choice.decisions = false ∧
      ((retainedTokens choice.decisions + o.unaccountedGrowthTokens : ℕ) : ℤ) <
        o.frozenThresholds.hardTokens := by
  have hready : (historyPlan o ordered measured choice decisions).readyForDispatch = true ↔
      Unblocked (findingsOf o ordered measured choice).insufficiencies := by
    simp [historyPlan, Unblocked]
  have hcomplete (i : Insufficiency) :
      (if (findingsOf o ordered measured choice).measurementComplete then [] else [i]) =
        if ¬ ordered.length ≤ o.maxGroups then [i] else [] := by
    simp only [findingsOf, decide_eq_true_eq, ite_not]
  rw [hready, Findings.insufficiencies, hcomplete]
  simp only [unblocked_append, unblocked_ite, unblocked_summaryInsufficiencies,
    Findings.postTrimPressure, pressure_eq_hard_iff]
  simp [findingsOf, and_assoc]

theorem omits_eq_false {category : HistoryCategory} :
    omits category measured decisions = false ↔
      ∀ item ∈ measured, item.category = category → item.id ∈ selectedIds decisions := by
  simp [omits, ofCategory]

/-! ## The plan of measured groups -/

namespace Plans

variable {groups : List HistorySourceGroup} (h : Plans o groups measured choice decisions)

include h

theorem nodup : (measured.map MeasuredGroup.id).Nodup :=
  nodup_measured h.validated h.measures

theorem ids : decisions.map SourceGroupDecision.groupId = measured.map MeasuredGroup.id :=
  (Pairing.map_eq_map (fun _ _ hd => hd.groupId.symm) h.decided).symm

/-- The retained groups are those with a decision to retain them. -/
theorem mem_selectedIds_iff {item : MeasuredGroup} {d : SourceGroupDecision} (hd : d ∈ decisions)
    (hitem : Decides item d) : item.id ∈ selectedIds choice.decisions ↔ d.retained = true := by
  rw [mem_selectedIds]
  constructor
  · rintro ⟨d', hd', hretained, hid⟩
    have hsame : d' = d := List.inj_on_of_nodup_map (h.ids ▸ h.nodup) (h.perm.mem_iff.mpr hd') hd
      (hid.trans hitem.groupId.symm)
    exact hsame ▸ hretained
  · intro hretained
    exact ⟨d, h.perm.mem_iff.mp hd, hretained, hitem.groupId⟩

theorem mandatory_selected {item : MeasuredGroup} (hitem : item ∈ measured)
    (hcategory : item.category = .mandatory) : item.id ∈ selectedIds choice.decisions := by
  obtain ⟨-, -, hdecisions⟩ := chooseGroups_eq_ok.mp h.chosen
  refine mem_selectedIds.mpr ⟨sourceDecision item true .retainedMandatory, ?_, rfl, rfl⟩
  rw [hdecisions]
  exact List.mem_append_left _ (List.mem_map_of_mem (by simpa [ofCategory] using ⟨hitem, hcategory⟩))

/-- The tokens of the retained decisions are those of the retained groups. -/
theorem retainedTokens_eq :
    retainedTokens choice.decisions =
      tokenSum (measured.filter fun item => item.id ∈ selectedIds choice.decisions) := by
  rw [← retainedTokens_perm h.perm, retainedTokens, tokenSum]
  have hpairs := Pairing.filter (q := SourceGroupDecision.retained)
    (fun item d hd => Bool.eq_iff_iff.mpr (decide_eq_true_iff.trans
      (h.mem_selectedIds_iff hd.2.2 hd.1))) (Pairing.with_mem h.decided)
  exact congrArg List.sum (Pairing.map_eq_map (fun _ _ hd => hd.1.tokens.symm) hpairs).symm

/-- Where the limit reaches, every group is measured. -/
theorem groups_perm (hlimit : (orderGroups groups).length ≤ o.maxGroups) :
    (measured.map MeasuredGroup.group).Perm groups := by
  have hmap := Pairing.map_eq_map (f := fun g => g) (g := MeasuredGroup.group)
    (fun _ _ hm => hm.group_eq.symm) h.measures
  rw [List.map_id', List.take_of_length_le hlimit] at hmap
  exact hmap ▸ orderGroups_perm groups

/-- The measurement of a group, where every group is measured. -/
theorem exists_measured (hlimit : (orderGroups groups).length ≤ o.maxGroups)
    {g : HistorySourceGroup} (hg : g ∈ groups) : ∃ item ∈ measured, Measures o g item := by
  refine Pairing.exists_right h.measures ?_
  rw [List.take_of_length_le hlimit]
  exact (orderGroups_perm groups).mem_iff.mpr hg

end Plans

/-! ## Safety -/

/-- What a plan that is ready retains: all but summaries and groups known to be optional. -/
def MustKeep (g : GroupFields) : Prop :=
  match g.category with
  | none | some .mandatory | some .keepExact | some .recent => True
  | some .optional => g.summaryEligibility = .unknown
  | some .verifiedSummary => False

theorem effectiveCategory_of_mustKeep {g : GroupFields} (h : MustKeep g) :
    (effectiveCategory g).1 = .mandatory ∨ (effectiveCategory g).1 = .keepExact ∨
      (effectiveCategory g).1 = .recent := by
  unfold MustKeep at h
  unfold effectiveCategory
  split at h
  all_goals split <;> simp_all
  all_goals split_ifs <;> simp

/-- The safety of a plan over its measured groups. -/
structure PlanSafe (o : PlanOptions) (groups : List HistorySourceGroup)
    (measured : List MeasuredGroup) (plan : HistoryPlan) : Prop where
  tokens : plan.retainedPlannedTokens =
    tokenSum (measured.filter fun item => item.id ∈ plan.retainedGroupIds) +
      o.unaccountedGrowthTokens
  within : plan.retainedPlannedTokens ≤ o.bWorkTokens
  /-- Every measured group has one decision, and no other has. -/
  decided : plan.decisions.map SourceGroupDecision.groupId = measured.map MeasuredGroup.id
  nodup : (plan.decisions.map SourceGroupDecision.groupId).Nodup
  partition : (plan.retainedGroupIds ++ plan.droppedGroupIds).Perm (measured.map MeasuredGroup.id)
  retained : ∀ d ∈ plan.decisions, d.groupId ∈ plan.retainedGroupIds ↔ d.retained = true
  mandatory : ∀ item ∈ measured, item.category = .mandatory → item.id ∈ plan.retainedGroupIds
  ready : plan.readyForDispatch = true →
    (measured.map MeasuredGroup.group).Perm groups ∧
    (∀ g ∈ groups, MustKeep g.toGroupFields → g.groupId ∈ plan.retainedGroupIds) ∧
    (plan.retainedPlannedTokens : ℤ) < (thresholdsOf o.bWorkTokens o.thresholds).hardTokens

theorem mem_retainedGroupIds {id : Text} (hid : id ∈ measured.map MeasuredGroup.id) :
    id ∈ (historyPlan o ordered measured choice decisions).retainedGroupIds ↔
      id ∈ selectedIds choice.decisions := by
  simp only [historyPlan, List.mem_filter, decide_eq_true_eq]
  exact and_iff_right hid

/-- What is retained by a plan that is ready. -/
theorem Plans.retained_of_ready {groups : List HistorySourceGroup}
    (h : Plans o groups measured choice decisions)
    (hready : (historyPlan o (orderGroups groups) measured choice decisions).readyForDispatch = true)
    {item : MeasuredGroup} (hitem : item ∈ measured)
    (hcategory : item.category = .mandatory ∨ item.category = .keepExact ∨ item.category = .recent)
    : item.id ∈ selectedIds choice.decisions := by
  obtain ⟨-, hexact, hrecent, -⟩ := historyPlan_ready_iff.mp hready
  rcases hcategory with hc | hc | hc
  · exact h.mandatory_selected hitem hc
  · exact omits_eq_false.mp hexact item hitem hc
  · exact omits_eq_false.mp hrecent item hitem hc

/-- **Every plan is safe.** -/
theorem plan_history_safe {groups : List HistorySourceGroup} {plan : HistoryPlan}
    (h : planHistory o groups = .ok plan) :
    ∃ measured, List.Forall₂ (fun g item => measureGroup o.counter g = .ok item)
        ((orderGroups groups).take o.maxGroups) measured ∧
      PlanSafe o groups measured plan := by
  obtain ⟨measured, choice, decisions, hplans, rfl⟩ := planHistory_eq_ok.mp h
  have hmem {item : MeasuredGroup} (hitem : item ∈ measured) :
      item.id ∈ (historyPlan o (orderGroups groups) measured choice decisions).retainedGroupIds ↔
        item.id ∈ selectedIds choice.decisions :=
    mem_retainedGroupIds (List.mem_map_of_mem hitem)
  refine ⟨measured, hplans.measures, ?_⟩
  constructor
  case tokens =>
    rw [List.filter_congr fun item hitem => decide_eq_decide.mpr (hmem hitem),
      ← hplans.retainedTokens_eq]
    rfl
  case within =>
    obtain ⟨-, -, -, hfits⟩ := chooseGroups_shares hplans.chosen
    exact hfits
  case decided => exact hplans.ids
  case nodup => exact hplans.ids ▸ hplans.nodup
  case partition =>
    simpa [historyPlan] using List.filter_append_perm
      (fun id => decide (id ∈ selectedIds choice.decisions)) (measured.map MeasuredGroup.id)
  case retained =>
    intro d hd
    obtain ⟨item, hitem, hdecides⟩ := Pairing.exists_left hplans.decided hd
    rw [hdecides.groupId, hmem hitem]
    exact hplans.mem_selectedIds_iff hd hdecides
  case mandatory =>
    intro item hitem hcategory
    exact (hmem hitem).mpr (hplans.mandatory_selected hitem hcategory)
  case ready =>
    intro hready
    obtain ⟨hlimit, -, -, hhard⟩ := historyPlan_ready_iff.mp hready
    refine ⟨hplans.groups_perm hlimit, fun g hg hkeep => ?_, hhard⟩
    obtain ⟨item, hitem, hmeasures⟩ := hplans.exists_measured hlimit hg
    have hcategory := effectiveCategory_of_mustKeep hkeep
    rw [← hmeasures.category_eq] at hcategory
    have hselected := (hmem hitem).mpr (hplans.retained_of_ready hready hitem hcategory)
    rwa [MeasuredGroup.id, hmeasures.group_eq] at hselected

/-! ## A plan with a summary -/

def sampleScope : HistoryScope :=
  ⟨⟨Text.ofString "workspace", Text.ofString "thread", Text.ofString "permissions"⟩,
    by decide +kernel⟩

def sampleFields (id : String) (sequence : ℕ) (category : Option HistoryCategory)
    (eligibility : SummaryEligibility) : GroupFields where
  groupId := Text.ofString id
  scope := sampleScope
  revision := Text.ofString "r1"
  sequence := sequence
  watermark := 9
  exchangeId := Text.ofString id
  originalRef := Text.ofString id
  countVersion := 1
  category := category
  summaryEligibility := eligibility

/-- Two turns a summary may replace, one of unknown category and a recent one. -/
def sampleGroups : List HistorySourceGroup :=
  [⟨sampleFields "system" 0 (some .mandatory) .ineligible, by decide +kernel⟩,
    ⟨sampleFields "turn-1" 1 (some .optional) .eligible, by decide +kernel⟩,
    ⟨sampleFields "turn-2" 2 (some .optional) .eligible, by decide +kernel⟩,
    ⟨sampleFields "turn-3" 3 none .unknown, by decide +kernel⟩,
    ⟨sampleFields "turn-4" 4 (some .recent) .ineligible, by decide +kernel⟩]

def sampleCoverage (id : String)
    (h : requireText (Text.ofString id) "source_group_id" = none) : SummaryCoverage :=
  ⟨Text.ofString id, Text.ofString "r1", h, by decide +kernel⟩

/-- A summary of the two oldest turns. -/
def sampleSummary : HistorySourceGroup :=
  ⟨{ sampleFields "summary" 5 (some .verifiedSummary) .ineligible with
      coverage := [sampleCoverage "turn-1" (by decide +kernel),
        sampleCoverage "turn-2" (by decide +kernel)]
      verified := true
      verificationRef := some (Text.ofString "job-1") }, by decide +kernel⟩

/-- A counter by sequence, and a verifier that accepts. -/
def sampleOptions (bWorkTokens : ℕ) : PlanOptions where
  scope := sampleScope
  frozenWatermark := 9
  counter := ⟨Text.ofString "approx_language_v1", 1, fun g => [10, 40, 30, 10, 10, 20][g.sequence]?⟩
  bWorkTokens := bWorkTokens
  summaryVerifier := some fun _ _ => .ok true

theorem plan_history_safe_sample :
    ∃ plan, planHistory (sampleOptions 100) (sampleSummary :: sampleGroups) = .ok plan ∧
      plan.readyForDispatch = true ∧
      ∃ measured, List.Forall₂
          (fun g item => measureGroup (sampleOptions 100).counter g = .ok item)
          ((orderGroups (sampleSummary :: sampleGroups)).take (sampleOptions 100).maxGroups)
          measured ∧
        PlanSafe (sampleOptions 100) (sampleSummary :: sampleGroups) measured plan := by
  obtain ⟨plan, h⟩ : ∃ plan,
      planHistory (sampleOptions 100) (sampleSummary :: sampleGroups) = .ok plan :=
    exists_of_isSome (by decide +kernel)
  refine ⟨plan, h, ?_, plan_history_safe h⟩
  have hready : (planHistory (sampleOptions 100) (sampleSummary :: sampleGroups)).toOption.map
      HistoryPlan.readyForDispatch = some true := by decide +kernel
  rw [h] at hready
  simpa [Except.toOption] using hready

end AgentHub.History

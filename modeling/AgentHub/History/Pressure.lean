import AgentHub.History.Substitution

/-!
# Trimming under pressure

While the planned tokens stay below the soft threshold, and that is not above the hard threshold
or the working budget, no phase runs out of budget: every source group is retained, no summary is
used, and the plan is ready. The phases share one budget, so this is a matter of adding up what
each of them spends.

Whatever the pressure, the recent loop stops for good at the first group that does not fit, so the
recent groups that are retained are the newest of those that were measured.

## Main definitions

* `WithoutPressure`: the groups are valid and measured, and the planned tokens are below soft
* `recentGroups`: the measured recent groups, the oldest first

## Main results

* `plan_trims_under_pressure`: what a plan without pressure keeps, and what every plan keeps of
  the recent groups
-/

namespace AgentHub.History

open Lib Context

variable {o : PlanOptions} {measured : List MeasuredGroup} {groups : List HistorySourceGroup}
  {decisions : List SourceGroupDecision}

/-! ## Nothing is dropped -/

/-- Without pressure summaries are not needed. -/
theorem chooseSummaries_none (measured : List MeasuredGroup)
    (summaries : List (MeasuredGroup × Option String)) (remaining : ℕ) :
    chooseSummaries measured .none summaries remaining =
      ⟨⟨summaries.map fun s => sourceDecision s.1 false .droppedSummaryNotNeeded, remaining⟩, []⟩ :=
  if_neg fun h => h.1 rfl

/-- **Where the sources fit together, the phases retain them all.** -/
theorem choosePhases_without_pressure {summaries : List (MeasuredGroup × Option String)}
    {budget : ℕ}
    (hfits : tokenSum (ofCategory .keepExact measured) + tokenSum (ofCategory .recent measured) +
      tokenSum (ofCategory .optional measured) ≤ budget) :
    choosePhases measured .none summaries budget =
      (newestFirst (ofCategory .keepExact measured)).map
          (fun item => sourceDecision item true .retainedKeepExact) ++
        (newestFirst (ofCategory .recent measured)).map
          (fun item => sourceDecision item true .retainedRecent) ++
        summaries.map (fun s => sourceDecision s.1 false .droppedSummaryNotNeeded) ++
        (newestFirst (ofCategory .optional measured)).map
          (fun item => sourceDecision item true .retainedOptional) := by
  rw [choosePhases_of_recent_fits _ summaries (by omega)]
  simp only [chooseSummaries_none]
  rw [chooseOptional_of_uncovered rfl, fillGroups_none_of_fits]
  rw [tokenSum_newestFirst]
  dsimp only
  omega

/-! ## The recent suffix -/

theorem fillRecent_closed (remaining : ℕ) (items : List MeasuredGroup) :
    (fillRecent false remaining items).decisions =
      items.map fun item => sourceDecision item false .droppedRecentSuffixGap := by
  induction items with
  | nil => rfl
  | cons item items ih =>
    rw [fillRecent, if_neg (by simp), Phase.after, ih]
    rfl

/-- **The recent loop retains the groups up to the first that does not fit.** -/
theorem fillRecent_eq_take (remaining : ℕ) (items : List MeasuredGroup) :
    ∃ k, (fillRecent true remaining items).decisions =
      (items.take k).map (fun item => sourceDecision item true .retainedRecent) ++
        (items.drop k).map fun item => sourceDecision item false .droppedRecentSuffixGap := by
  induction items generalizing remaining with
  | nil => exact ⟨0, rfl⟩
  | cons item items ih =>
    rw [fillRecent]
    split_ifs with hfits
    · obtain ⟨k, hk⟩ := ih (remaining - item.tokens)
      exact ⟨k + 1, by rw [Phase.after, hk]; rfl⟩
    · exact ⟨0, by rw [Phase.after, fillRecent_closed]; rfl⟩

namespace Plans

variable {choice : Choice} (h : Plans o groups measured choice decisions)

include h

/-- Whether a group is retained can be read off any decision about it. -/
theorem selected_iff {item : MeasuredGroup} {retained : Bool} {reason : DecisionReason}
    (hd : sourceDecision item retained reason ∈ choice.decisions) :
    item.id ∈ selectedIds choice.decisions ↔ retained = true :=
  h.mem_selectedIds_iff (h.perm.mem_iff.mpr hd) (.mk _ _ _)

/-- The measured groups are in order. -/
theorem pairwise_measured : measured.Pairwise fun a b => a.key ≤ b.key := by
  have hkeys : measured.map MeasuredGroup.key =
      ((orderGroups groups).take o.maxGroups).map fun g => g.key :=
    (Pairing.map_eq_map (fun _ _ hm => by rw [MeasuredGroup.key, hm.group_eq]) h.measures).symm
  have hordered : ((orderGroups groups).take o.maxGroups).Pairwise fun a b => a.key ≤ b.key :=
    (pairwise_sortBy _ groups).sublist (List.take_sublist _ _)
  have hpairwise : (measured.map MeasuredGroup.key).Pairwise (· ≤ ·) := by
    rw [hkeys]
    exact List.pairwise_map.mpr hordered
  exact List.pairwise_map.mp hpairwise

theorem nodup_keys : (measured.map MeasuredGroup.key).Nodup :=
  h.nodup.of_map.map_on fun _ ha _ hb hkey =>
    List.inj_on_of_nodup_map h.nodup ha hb (groupId_eq_of_key_eq hkey)

/-- The newest first is the order reversed. -/
theorem newestFirst_eq_reverse (category : HistoryCategory) :
    newestFirst (ofCategory category measured) = (ofCategory category measured).reverse := by
  have hsublist : (ofCategory category measured).Sublist measured := List.filter_sublist
  have hsorted : sortBy MeasuredGroup.key (ofCategory category measured) =
      ofCategory category measured :=
    List.Pairwise.insertionSort_eq (h.pairwise_measured.sublist hsublist)
  rw [newestFirst, sortBy_toDual (h.nodup_keys.sublist (hsublist.map _)), hsorted]

/-- **The recent groups that are retained are the newest of them.** -/
theorem recent_suffix :
    (ofCategory .recent measured).filter (fun item => item.id ∈ selectedIds choice.decisions) <:+
      ofCategory .recent measured := by
  obtain ⟨-, -, hdecisions⟩ := chooseGroups_eq_ok.mp h.chosen
  set exact := fillKeepExact (o.bWorkTokens - tokenSum (ofCategory .mandatory measured) -
      o.unaccountedGrowthTokens) (newestFirst (ofCategory .keepExact measured)) with hexact
  obtain ⟨k, hk⟩ :=
    fillRecent_eq_take exact.remaining (newestFirst (ofCategory .recent measured))
  have hmem {d : SourceGroupDecision} (hd : d ∈ (fillRecent true exact.remaining
      (newestFirst (ofCategory .recent measured))).decisions) : d ∈ choice.decisions := by
    rw [hdecisions, choosePhases, ← hexact]
    exact List.mem_append_right _
      (List.mem_append_left _ (List.mem_append_left _ (List.mem_append_right _ hd)))
  rw [h.newestFirst_eq_reverse .recent] at hk hmem
  set recent := ofCategory .recent measured
  -- the loop retains the first ones of the reversed list, which are the last ones
  have hsplit : recent = (recent.reverse.drop k).reverse ++ (recent.reverse.take k).reverse := by
    rw [← List.reverse_append, List.take_append_drop, List.reverse_reverse]
  have htake : ∀ item ∈ (recent.reverse.take k).reverse,
      item.id ∈ selectedIds choice.decisions := by
    intro item hitem
    have hd : sourceDecision item true .retainedRecent ∈ choice.decisions := by
      refine hmem ?_
      rw [hk]
      exact List.mem_append_left _ (List.mem_map_of_mem (List.mem_reverse.mp hitem))
    exact (h.selected_iff hd).mpr rfl
  have hdrop : ∀ item ∈ (recent.reverse.drop k).reverse,
      item.id ∉ selectedIds choice.decisions := by
    intro item hitem hselected
    have hd : sourceDecision item false .droppedRecentSuffixGap ∈ choice.decisions := by
      refine hmem ?_
      rw [hk]
      exact List.mem_append_right _ (List.mem_map_of_mem (List.mem_reverse.mp hitem))
    exact Bool.false_ne_true ((h.selected_iff hd).mp hselected)
  have hfilter : recent.filter (fun item => item.id ∈ selectedIds choice.decisions) =
      (recent.reverse.take k).reverse := by
    refine (congrArg (List.filter _) hsplit).trans ?_
    rw [List.filter_append,
      List.filter_eq_nil_iff.mpr fun item hitem => by simpa using hdrop item hitem,
      List.filter_eq_self.mpr fun item hitem => by simpa using htake item hitem, List.nil_append]
  rw [hfilter]
  exact ⟨_, hsplit.symm⟩

end Plans

/-! ## Plans without pressure -/

/-- Every group is valid and measured, and what is planned stays below the soft threshold, which is
not above the hard threshold or the working budget. -/
structure WithoutPressure (o : PlanOptions) (groups : List HistorySourceGroup)
    (measured : List MeasuredGroup) : Prop where
  options : checkOptions o = .ok ()
  validated : validateGroups o [] [] groups = .ok ()
  verifies : Verifies o groups
  complete : groups.length ≤ o.maxGroups
  measures : List.Forall₂ (fun g item => measureGroup o.counter g = .ok item)
    (orderGroups groups) measured
  soft_le_work : o.frozenThresholds.softTokens ≤ o.bWorkTokens
  soft_le_hard : o.frozenThresholds.softTokens ≤ o.frozenThresholds.hardTokens
  below_soft : o.plannedTokens measured < o.frozenThresholds.softTokens

namespace WithoutPressure

section Fitting

variable (h : WithoutPressure o groups measured)

include h

theorem take_eq : (orderGroups groups).take o.maxGroups = orderGroups groups :=
  List.take_of_length_le ((orderGroups_perm groups).length_eq ▸ h.complete)

theorem preTrimPressure_eq : o.preTrimPressure measured = .none := by
  have hsoft := h.below_soft
  have hhard := h.soft_le_hard
  rw [PlanOptions.preTrimPressure, pressure, if_neg (by omega), if_neg (by omega)]

/-- The sources and the growth fit the budget. -/
theorem fits :
    tokenSum (ofCategory .mandatory measured) + tokenSum (ofCategory .keepExact measured) +
      tokenSum (ofCategory .recent measured) + tokenSum (ofCategory .optional measured) +
      o.unaccountedGrowthTokens ≤ o.bWorkTokens := by
  have hsoft := h.below_soft
  have hwork := h.soft_le_work
  rw [PlanOptions.plannedTokens, tokenSum_sourceGroups] at hsoft
  omega

/-- **What is chosen without pressure**: the sources, and no summary. -/
theorem exists_choice :
    ∃ choice, chooseGroups o measured (o.preTrimPressure measured) = .ok choice ∧
      ∀ item ∈ measured, ∃ reason,
        sourceDecision item (item.category ≠ .verifiedSummary) reason ∈ choice.decisions := by
  have hfits := h.fits
  obtain ⟨summaries, hsummaries⟩ := exists_validateSummaries h.measures h.verifies
  obtain ⟨choice, rfl, hchoice⟩ :=
    exists_chooseGroups (o.preTrimPressure measured) (by omega) hsummaries
  refine ⟨choice, hchoice, fun item hitem => ?_⟩
  obtain ⟨-, -, hdecisions⟩ := chooseGroups_eq_ok.mp hchoice
  rw [h.preTrimPressure_eq, choosePhases_without_pressure (by omega)] at hdecisions
  have hnewest {category : HistoryCategory} (hcategory : item.category = category) :
      item ∈ newestFirst (ofCategory category measured) :=
    (newestFirst_perm _).mem_iff.mpr (List.mem_filter.mpr ⟨hitem, by simpa using hcategory⟩)
  rw [hdecisions]
  simp only [List.mem_append, List.mem_map]
  cases hcategory : item.category with
  | mandatory =>
    exact ⟨_, .inl ⟨item, List.mem_filter.mpr ⟨hitem, by simpa using hcategory⟩, rfl⟩⟩
  | keepExact => exact ⟨_, .inr (.inl (.inl (.inl ⟨item, hnewest hcategory, rfl⟩)))⟩
  | recent => exact ⟨_, .inr (.inl (.inl (.inr ⟨item, hnewest hcategory, rfl⟩)))⟩
  | optional => exact ⟨_, .inr (.inr ⟨item, hnewest hcategory, rfl⟩)⟩
  | verifiedSummary =>
    have hsummary : item ∈ choice.summaries.map Prod.fst := by
      rw [(validateSummaries_eq_ok hsummaries).1]
      exact List.mem_filter.mpr ⟨hitem, by simpa using hcategory⟩
    obtain ⟨s, hs, rfl⟩ := List.mem_map.mp hsummary
    exact ⟨_, .inr (.inl (.inr ⟨s, hs, rfl⟩))⟩

end Fitting

/-- What is selected without pressure. -/
theorem selected_iff {choice : Choice} (hplans : Plans o groups measured choice decisions)
    (hchoice : ∀ item ∈ measured, ∃ reason,
      sourceDecision item (item.category ≠ .verifiedSummary) reason ∈ choice.decisions)
    {item : MeasuredGroup} (hitem : item ∈ measured) :
    item.id ∈ selectedIds choice.decisions ↔ item.category ≠ .verifiedSummary := by
  obtain ⟨reason, hd⟩ := hchoice item hitem
  exact (hplans.selected_iff hd).trans decide_eq_true_iff

/-- The retained tokens are those of the sources. -/
theorem retainedTokens_eq {choice : Choice} (hplans : Plans o groups measured choice decisions)
    (hchoice : ∀ item ∈ measured, ∃ reason,
      sourceDecision item (item.category ≠ .verifiedSummary) reason ∈ choice.decisions) :
    retainedTokens choice.decisions + o.unaccountedGrowthTokens = o.plannedTokens measured := by
  rw [hplans.retainedTokens_eq, PlanOptions.plannedTokens, sourceGroups]
  rw [List.filter_congr fun item hitem => decide_eq_decide.mpr (selected_iff hplans hchoice hitem)]

/-- **A plan without pressure** retains the sources, uses no summary and is ready. -/
theorem exists_plan (h : WithoutPressure o groups measured) :
    ∃ plan, planHistory o groups = .ok plan ∧ plan.readyForDispatch = true ∧
      ∀ g ∈ groups, g.groupId ∈ plan.retainedGroupIds ↔ g.category ≠ some .verifiedSummary := by
  obtain ⟨choice, hchosen, hchoice⟩ := h.exists_choice
  have hmeasures : List.Forall₂ (Measures o) ((orderGroups groups).take o.maxGroups) measured := by
    rw [h.take_eq]
    exact h.measures
  obtain ⟨decisions, hplans⟩ := exists_plans h.options h.validated hmeasures hchosen
  have hlength : (orderGroups groups).length ≤ o.maxGroups :=
    (orderGroups_perm groups).length_eq ▸ h.complete
  refine ⟨_, planHistory_eq_ok.mpr ⟨measured, choice, decisions, hplans, rfl⟩, ?_, fun g hg => ?_⟩
  · refine historyPlan_ready_iff.mpr ⟨hlength, ?_, ?_, ?_⟩
    · exact omits_eq_false.mpr fun item hitem hcategory =>
        (selected_iff hplans hchoice hitem).mpr (by simp [hcategory])
    · exact omits_eq_false.mpr fun item hitem hcategory =>
        (selected_iff hplans hchoice hitem).mpr (by simp [hcategory])
    · rw [retainedTokens_eq hplans hchoice]
      exact h.below_soft.trans_le h.soft_le_hard
  · obtain ⟨item, hitem, hmeasures⟩ := hplans.exists_measured hlength hg
    have hid : item.id = g.groupId := by rw [MeasuredGroup.id, hmeasures.group_eq]
    rw [← hid, mem_retainedGroupIds (List.mem_map_of_mem hitem),
      selected_iff hplans hchoice hitem, hmeasures.category_eq]
    exact not_congr effectiveCategory_eq_summary

end WithoutPressure

/-! ## The plans -/

/-- The recent groups that are measured, the oldest first. -/
def recentGroups (o : PlanOptions) (groups : List HistorySourceGroup) : List HistorySourceGroup :=
  ((orderGroups groups).take o.maxGroups).filter fun g => g.category = some .recent

theorem effectiveCategory_eq_recent {g : GroupFields} :
    (effectiveCategory g).1 = .recent ↔ g.category = some .recent := by
  unfold effectiveCategory
  split
  · simp_all
  · split_ifs <;> simp_all

theorem Plans.recentGroups_eq {groups : List HistorySourceGroup} {choice : Choice}
    {decisions : List SourceGroupDecision} (h : Plans o groups measured choice decisions) :
    recentGroups o groups = (ofCategory .recent measured).map MeasuredGroup.group := by
  have hpairs := Pairing.filter
    (p := fun g : HistorySourceGroup => decide (g.category = some .recent))
    (q := fun item : MeasuredGroup => decide (item.category = .recent))
    (fun g item hm => decide_eq_decide.mpr
      (by rw [Measures.category_eq hm, effectiveCategory_eq_recent])) h.measures
  have hmap := Pairing.map_eq_map (f := fun g => g) (g := MeasuredGroup.group)
    (fun _ _ hm => (Measures.group_eq hm).symm) hpairs
  rwa [List.map_id'] at hmap

/-- **Trimming is under pressure only**: without it the sources are retained, no summary is used
and the plan is ready; and the recent groups of every plan are the newest of those measured. -/
theorem plan_trims_under_pressure (o : PlanOptions) (groups : List HistorySourceGroup) :
    (∀ measured, WithoutPressure o groups measured →
      ∃ plan, planHistory o groups = .ok plan ∧ plan.readyForDispatch = true ∧
        ∀ g ∈ groups, g.groupId ∈ plan.retainedGroupIds ↔ g.category ≠ some .verifiedSummary) ∧
    ∀ plan, planHistory o groups = .ok plan →
      (recentGroups o groups).filter (fun g => g.groupId ∈ plan.retainedGroupIds) <:+
        recentGroups o groups := by
  refine ⟨fun _ h => h.exists_plan, fun plan hplan => ?_⟩
  obtain ⟨measured, choice, decisions, hplans, rfl⟩ := planHistory_eq_ok.mp hplan
  have hfilter : (ofCategory .recent measured).filter
        ((fun g : HistorySourceGroup => decide (g.groupId ∈
          (historyPlan o (orderGroups groups) measured choice decisions).retainedGroupIds)) ∘
            MeasuredGroup.group) =
      (ofCategory .recent measured).filter fun item => item.id ∈ selectedIds choice.decisions :=
    List.filter_congr fun item hitem => decide_eq_decide.mpr
      (mem_retainedGroupIds (List.mem_map_of_mem (List.mem_filter.mp hitem).1))
  rw [hplans.recentGroups_eq, List.filter_map, hfilter]
  exact hplans.recent_suffix.map _

theorem plan_trims_under_pressure_sample :
    ∃ plan, planHistory (sampleOptions 200) (sampleSummary :: sampleGroups) = .ok plan ∧
      plan.readyForDispatch = true ∧
      ∀ g ∈ sampleSummary :: sampleGroups,
        g.groupId ∈ plan.retainedGroupIds ↔ g.category ≠ some .verifiedSummary := by
  obtain ⟨measured, hmeasured⟩ : ∃ measured,
      (orderGroups (sampleSummary :: sampleGroups)).mapM
        (measureGroup (sampleOptions 200).counter) = .ok measured :=
    exists_of_isSome (by decide +kernel)
  have hplanned : ((orderGroups (sampleSummary :: sampleGroups)).mapM
      (measureGroup (sampleOptions 200).counter)).toOption.map
        (fun measured => decide ((sampleOptions 200).plannedTokens measured <
          (sampleOptions 200).frozenThresholds.softTokens)) = some true := by decide +kernel
  rw [hmeasured] at hplanned
  refine (plan_trims_under_pressure _ _).1 measured ?_
  exact {
    options := by decide +kernel
    validated := by decide +kernel
    verifies := by
      rintro verifier hverifier g - -
      obtain rfl := Option.some.inj hverifier
      exact ⟨true, rfl⟩
    complete := by decide +kernel
    measures := mapM_eq_ok_iff.mp hmeasured
    soft_le_work := by decide +kernel
    soft_le_hard := by decide +kernel
    below_soft := by simpa [Except.toOption] using hplanned }

theorem fault_recentTurn : (sampleFields "turn-4" 4 (some .recent) .ineligible).fault = none := by
  decide +kernel

/-- Two recent turns. -/
def recentTurns : List HistorySourceGroup :=
  [⟨sampleFields "turn-3" 3 (some .recent) .ineligible, by decide +kernel⟩,
    ⟨sampleFields "turn-4" 4 (some .recent) .ineligible, fault_recentTurn⟩]

/-- A hard threshold below the soft one. -/
def lowHardOptions : PlanOptions :=
  { sampleOptions 100 with thresholds := .mapping { hardPercent := some 5 } }

/-- Only one group is measured. -/
def oneGroupOptions : PlanOptions :=
  { sampleOptions 100 with workLimit := some ⟨1, Nat.one_pos⟩ }

/-- With a hard threshold below the soft one a plan below soft is not ready; and with a limit on
the groups that are measured, the recent group that is retained is not the newest one. -/
theorem plan_below_soft_not_ready :
    (∃ plan, planHistory lowHardOptions recentTurns = .ok plan ∧
      plan.measurementComplete = true ∧ plan.plannedTokens < plan.thresholds.softTokens ∧
      plan.thresholds.softTokens ≤ lowHardOptions.bWorkTokens ∧ plan.readyForDispatch = false) ∧
    ∃ plan, planHistory oneGroupOptions recentTurns = .ok plan ∧
      ¬ recentTurns.filter (fun g => g.groupId ∈ plan.retainedGroupIds) <:+ recentTurns := by
  constructor
  · obtain ⟨plan, hplan⟩ : ∃ plan, planHistory lowHardOptions recentTurns = .ok plan :=
      exists_of_isSome (by decide +kernel)
    have hfacts : (planHistory lowHardOptions recentTurns).toOption.map (fun plan : HistoryPlan =>
        decide (plan.measurementComplete = true ∧ plan.plannedTokens < plan.thresholds.softTokens ∧
          plan.thresholds.softTokens ≤ lowHardOptions.bWorkTokens ∧
          plan.readyForDispatch = false)) = some true := by decide +kernel
    rw [hplan] at hfacts
    exact ⟨plan, hplan, of_decide_eq_true (Option.some.inj hfacts)⟩
  · obtain ⟨plan, hplan⟩ : ∃ plan, planHistory oneGroupOptions recentTurns = .ok plan :=
      exists_of_isSome (by decide +kernel)
    have hfacts : (planHistory oneGroupOptions recentTurns).toOption.map (fun plan => decide
        (¬ recentTurns.filter (fun g => g.groupId ∈ plan.retainedGroupIds) <:+ recentTurns)) =
          some true := by decide +kernel
    rw [hplan] at hfacts
    exact ⟨plan, hplan, of_decide_eq_true (Option.some.inj hfacts)⟩

end AgentHub.History

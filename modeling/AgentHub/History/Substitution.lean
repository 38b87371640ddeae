import AgentHub.History.Summaries

/-!
# Summaries in place of sources

A plan retains at most one summary, and drops exactly the sources it covers in its favour. Adding
summaries to a plan that retains every source leaves it ready and no larger.

## Main definitions

* `Substitutes`: a plan with at most one summary in place of the sources it covers

## Main results

* `chooseGroups_optional`: the decisions about summaries and optional groups
* `choosePhases_of_fits`: where the sources fit, only covered ones are dropped
* `summary_substitution_exact`: the substitution in every plan, and against the plan without
  summaries
-/

namespace AgentHub.History

open Lib Context

variable {o : PlanOptions} {measured : List MeasuredGroup} {preTrimPressure : PlanPressure}
  {remaining : ℕ} {p : SummaryPhase} {kept : Option MeasuredGroup}
  {groups groups' : List HistorySourceGroup}

/-- The decisions about summaries and optional groups, in terms of the summary phase. -/
structure OptionalPhases (o : PlanOptions) (measured : List MeasuredGroup)
    (decisions : List SourceGroupDecision) (p : SummaryPhase) : Prop where
  summaries : (decisions.filter fun d => d.category = .verifiedSummary) = p.decisions
  optional : (decisions.filter fun d => d.category = .optional) =
    (chooseOptional measured p).decisions
  others : ∀ d ∈ decisions, d.category ≠ .optional → d.reason ≠ .droppedCoveredBySummary

section Distinct

variable (hnodup : (measured.map MeasuredGroup.id).Nodup)

include hnodup

theorem chooseGroups_optional {choice : Choice} (hclass : Classified measured)
    (h : chooseGroups o measured preTrimPressure = .ok choice) :
    ∃ remaining p kept, KeepsSummary o measured remaining p kept ∧
      OptionalPhases o measured choice.decisions p := by
  obtain ⟨-, hsummaries, hdecisions⟩ := chooseGroups_eq_ok.mp h
  rw [hdecisions]
  unfold choosePhases
  extract_lets exact recent p optional
  obtain ⟨kept, hkept⟩ :=
    chooseSummaries_cases hnodup hclass hsummaries preTrimPressure recent.remaining
  obtain ⟨items, hperm, hp⟩ :=
    chooseSummaries_shares measured preTrimPressure choice.summaries recent.remaining
  have hmandatory := decides_map (ofCategory .mandatory measured) .retainedMandatory
  have hsummary : ∀ item ∈ items, item.category = .verifiedSummary := fun item hitem =>
    category_of_mem_ofCategory ((validateSummaries_eq_ok hsummaries).1 ▸ hperm.mem_iff.mp hitem)
  have hexact : List.Forall₂ Decides (newestFirst (ofCategory .keepExact measured))
      exact.decisions := (fillGroups_shares _ _).decided
  have hrecent : List.Forall₂ Decides (newestFirst (ofCategory .recent measured))
      recent.decisions := (fillRecent_shares _ _ _).decided
  have hoptional : List.Forall₂ Decides (newestFirst (ofCategory .optional measured))
      optional.decisions := (fillGroups_shares _ _).decided
  have hfilter (c : HistoryCategory) := filter_category hexact
    (fun _ => category_of_mem_newestFirst) c
  have hfilter₁ (c : HistoryCategory) := filter_category hrecent
    (fun _ => category_of_mem_newestFirst) c
  have hfilter₂ (c : HistoryCategory) := filter_category hoptional
    (fun _ => category_of_mem_newestFirst) c
  have hfilter₃ (c : HistoryCategory) := filter_category hmandatory
    (fun _ => category_of_mem_ofCategory) c
  have hfilter₄ (c : HistoryCategory) : (p.decisions.filter fun d => d.category = c) = _ :=
    filter_category hp.decided hsummary c
  refine ⟨_, p, kept, hkept, ?_, ?_, fun d hd hcategory => ?_⟩
  · simp only [List.filter_append, hfilter, hfilter₁, hfilter₂, hfilter₃, hfilter₄]
    simp [p]
  · simp only [List.filter_append, hfilter, hfilter₁, hfilter₂, hfilter₃, hfilter₄]
    simp [optional]
  · simp only [List.mem_append] at hd
    rcases hd with hd | ((hd | hd) | hd) | hd
    · obtain ⟨item, -, rfl⟩ := List.mem_map.mp hd
      simp [sourceDecision]
    · exact fillKeepExact_reason hd
    · rcases fillRecent_reason hd with h | h <;> simp [h]
    · exact chooseSummaries_reason hd
    · obtain ⟨item, hitem, hdecides⟩ := Pairing.exists_left hoptional hd
      exact absurd (hdecides.category.trans (category_of_mem_newestFirst hitem)) hcategory

/-- A covered source is dropped in favour of the summary that is retained. -/
theorem coveringSummaryId_eq {s item : MeasuredGroup}
    (hkept : KeepsSummary o measured remaining p (some s))
    (hitem : item ∈ coveredSources measured s) :
    coveringSummaryId (ofCategory .verifiedSummary measured) p.decisions item = some s.id := by
  have hs := hkept.replaces s rfl
  have hretained : ∀ d, d ∈ p.decisions ∧ d.retained = true ↔
      d = sourceDecision s true .retainedVerifiedSummary := fun d => by
    rw [← List.mem_filter, hkept.retained]
    simp
  have hcoverage : ∃ c ∈ s.group.coverage,
      c.sourceGroupId = item.id ∧ c.sourceRevision = item.group.revision := by
    have hmem : (item.id, item.group.revision) ∈ s.coverage :=
      hs.covers.coverage ▸ List.mem_map_of_mem hitem
    simpa [MeasuredGroup.coverage] using hmem
  have hdecision := (hretained _).mpr rfl
  rw [coveringSummaryId, Table.find?_of_unique hs.mem, Option.map_some]
  · refine decide_eq_true ⟨List.any_eq_true.mpr ⟨_, hdecision.1, ?_⟩, ?_⟩
    · exact decide_eq_true ⟨rfl, rfl⟩
    · simpa using hcoverage
  · intro b hb hpb
    obtain ⟨d, hd, hdb⟩ := List.any_eq_true.mp (of_decide_eq_true hpb).1
    obtain ⟨hid, hret⟩ := of_decide_eq_true hdb
    obtain rfl := (hretained d).mp ⟨hd, hret⟩
    exact List.inj_on_of_nodup_map hnodup (List.mem_of_mem_filter hb) (List.mem_of_mem_filter hs.mem)
      hid.symm

/-- What the optional loop decides about a group, after the summary `kept`. -/
theorem optional_decision (hkept : KeepsSummary o measured remaining p kept)
    {d : SourceGroupDecision} (hd : d ∈ (chooseOptional measured p).decisions) :
    ∃ item ∈ ofCategory .optional measured, Decides item d ∧
      ((∃ s ∈ kept, item ∈ coveredSources measured s ∧ d.retained = false ∧
          d.reason = .droppedCoveredBySummary ∧ d.coveredBySummaryId = some s.id) ∨
        (∀ s ∈ kept, item ∉ coveredSources measured s) ∧ d.reason ≠ .droppedCoveredBySummary) := by
  obtain ⟨item, hitem, h⟩ := Pairing.exists_left (fillGroups_decision _ _) hd
  have hmem : item ∈ ofCategory .optional measured := (newestFirst_perm _).mem_iff.mp hitem
  have hmeasured : item ∈ measured := List.mem_of_mem_filter hmem
  refine ⟨item, hmem, ?_⟩
  unfold FillDecision at h
  by_cases hcovered : item.id ∈ p.coveredIds
  · obtain ⟨s, hs, item', hitem', hid⟩ := (hkept.covered _).mp hcovered
    obtain rfl : item' = item := List.inj_on_of_nodup_map hnodup
      ((coveredSources_sublist measured s).subset hitem') hmeasured hid
    simp only [SummaryPhase.coveredBy, if_pos hcovered] at h
    have hname : coveringSummaryId (ofCategory .verifiedSummary measured) p.decisions item' =
        some s.id := by
      obtain rfl : kept = some s := hs
      exact coveringSummaryId_eq hnodup hkept hitem'
    rw [hname] at h
    subst h
    exact ⟨.mk _ _ _, .inl ⟨s, hs, hitem', rfl, rfl, rfl⟩⟩
  · simp only [SummaryPhase.coveredBy, if_neg hcovered] at h
    have hnot : ∀ s ∈ kept, item ∉ coveredSources measured s := fun s hs hin =>
      hcovered ((hkept.covered _).mpr ⟨s, hs, item, hin, rfl⟩)
    rcases h with rfl | rfl
    · exact ⟨.mk _ _ _, .inr ⟨hnot, by simp [sourceDecision]⟩⟩
    · exact ⟨.mk _ _ _, .inr ⟨hnot, by simp [sourceDecision]⟩⟩

end Distinct

/-! ## The substitution in a plan -/

/-- At most one summary is retained. It stands for the oldest eligible sources, and exactly these
are dropped as covered. -/
structure Substitutes (o : PlanOptions) (measured : List MeasuredGroup) (plan : HistoryPlan) :
    Prop where
  atMostOne : (plan.decisions.filter fun d =>
    d.category = .verifiedSummary ∧ d.retained = true).length ≤ 1
  replaces : ∀ s ∈ ofCategory .verifiedSummary measured, s.id ∈ plan.retainedGroupIds →
    Replaces o measured s
  covered : ∀ item ∈ measured, ∀ d ∈ plan.decisions, d.groupId = item.id →
    (d.reason = .droppedCoveredBySummary ↔ ∃ s ∈ ofCategory .verifiedSummary measured,
      s.id ∈ plan.retainedGroupIds ∧ item ∈ coveredSources measured s)
  named : ∀ d ∈ plan.decisions, d.reason = .droppedCoveredBySummary → d.retained = false ∧
    ∃ s ∈ ofCategory .verifiedSummary measured,
      s.id ∈ plan.retainedGroupIds ∧ d.coveredBySummaryId = some s.id
  disjoint : ∀ item ∈ sourceGroups measured, item.id ∈ plan.retainedGroupIds →
    ∀ s ∈ ofCategory .verifiedSummary measured, s.id ∈ plan.retainedGroupIds →
      item.id ∉ s.coveredIds

theorem classified_of_measures (h : List.Forall₂ (Measures o) groups measured) :
    Classified measured := by
  intro item hitem
  obtain ⟨g, -, hg⟩ := Pairing.exists_left h hitem
  rw [hg.category_eq, hg.group_eq]

namespace Plans

variable {choice : Choice} {decisions : List SourceGroupDecision}
  (h : Plans o groups measured choice decisions)

include h

/-- The group of a decision. -/
theorem eq_of_decides {item item' : MeasuredGroup} {d : SourceGroupDecision}
    (hitem : item ∈ measured) (hitem' : item' ∈ measured) (hd : Decides item d)
    (hid : d.groupId = item'.id) : item = item' :=
  List.inj_on_of_nodup_map h.nodup hitem hitem' (hd.groupId.symm.trans hid)

/-- The retained summary is the one the summary phase keeps. -/
theorem mem_kept_iff (hkept : KeepsSummary o measured remaining p kept)
    (hphases : OptionalPhases o measured choice.decisions p) {s : MeasuredGroup}
    (hs : s ∈ ofCategory .verifiedSummary measured) :
    s.id ∈ selectedIds choice.decisions ↔ s ∈ kept := by
  have hsmem : s ∈ measured := List.mem_of_mem_filter hs
  rw [mem_selectedIds]
  constructor
  · rintro ⟨d, hd, hretained, hid⟩
    obtain ⟨item, hitem, hdecides⟩ := Pairing.exists_left h.decided (h.perm.mem_iff.mpr hd)
    obtain rfl := h.eq_of_decides hitem hsmem hdecides hid
    have hin : d ∈ p.decisions.filter SourceGroupDecision.retained := by
      rw [← hphases.summaries]
      have hcategory := hdecides.category.trans (category_of_mem_ofCategory hs)
      simp [hd, hcategory, hretained]
    rw [hkept.retained] at hin
    obtain ⟨s, hskept, rfl⟩ := List.mem_map.mp hin
    have hsame := List.inj_on_of_nodup_map h.nodup hsmem
      (List.mem_of_mem_filter (hkept.replaces s (by simpa using hskept)).mem) hid.symm
    rw [hsame]
    simpa using hskept
  · intro hskept
    have hin : sourceDecision s true .retainedVerifiedSummary ∈
        p.decisions.filter SourceGroupDecision.retained := by
      rw [hkept.retained]
      exact List.mem_map_of_mem (by simpa using hskept)
    rw [← hphases.summaries] at hin
    exact ⟨_, List.mem_of_mem_filter (List.mem_of_mem_filter hin), rfl, rfl⟩

/-- **The substitution in a plan.** -/
theorem substitutes :
    Substitutes o measured (historyPlan o (orderGroups groups) measured choice decisions) := by
  obtain ⟨remaining, p, kept, hkept, hphases⟩ :=
    chooseGroups_optional h.nodup (classified_of_measures h.measures) h.chosen
  have hmem {s : MeasuredGroup} (hs : s ∈ ofCategory .verifiedSummary measured) :
      s.id ∈ (historyPlan o (orderGroups groups) measured choice decisions).retainedGroupIds ↔
        s ∈ kept :=
    (mem_retainedGroupIds (List.mem_map_of_mem (List.mem_of_mem_filter hs))).trans
      (h.mem_kept_iff hkept hphases hs)
  have hsummary {s : MeasuredGroup} (hs : s ∈ kept) : s ∈ ofCategory .verifiedSummary measured :=
    (hkept.replaces s hs).mem
  have hoptional {d : SourceGroupDecision} (hd : d ∈ decisions) (hcategory : d.category = .optional) :
      d ∈ (chooseOptional measured p).decisions := by
    rw [← hphases.optional]
    simp [h.perm.mem_iff.mp hd, hcategory]
  have hcategory {d : SourceGroupDecision} (hd : d ∈ decisions)
      (hreason : d.reason = .droppedCoveredBySummary) : d.category = .optional := by
    by_contra hc
    exact hphases.others d (h.perm.mem_iff.mp hd) hc hreason
  have hcovered : ∀ item ∈ measured, ∀ d ∈ decisions, d.groupId = item.id →
      (d.reason = .droppedCoveredBySummary ↔ ∃ s ∈ kept, item ∈ coveredSources measured s) := by
    intro item hitem d hd hid
    constructor
    · intro hreason
      obtain ⟨item', hitem', hdecides, hcases⟩ :=
        optional_decision h.nodup hkept (hoptional hd (hcategory hd hreason))
      obtain rfl := h.eq_of_decides (List.mem_of_mem_filter hitem') hitem hdecides hid
      rcases hcases with ⟨s, hs, hin, -⟩ | ⟨-, hne⟩
      · exact ⟨s, hs, hin⟩
      · exact absurd hreason hne
    · rintro ⟨s, hs, hin⟩
      obtain ⟨item', hitem', hdecides⟩ := Pairing.exists_left h.decided hd
      obtain rfl := h.eq_of_decides hitem' hitem hdecides hid
      obtain ⟨item, hitem, hdecides', hcases⟩ := optional_decision h.nodup hkept
        (hoptional hd (hdecides.category.trans (category_of_mem_coveredSources hin)))
      obtain rfl := h.eq_of_decides (List.mem_of_mem_filter hitem) hitem' hdecides' hid
      rcases hcases with ⟨-, -, -, -, hreason, -⟩ | ⟨hnot, -⟩
      · exact hreason
      · exact absurd hin (hnot s hs)
  have hnamed : ∀ d ∈ decisions, d.reason = .droppedCoveredBySummary → d.retained = false ∧
      ∃ s ∈ kept, d.coveredBySummaryId = some s.id := by
    intro d hd hreason
    obtain ⟨item, -, -, hcases⟩ :=
      optional_decision h.nodup hkept (hoptional hd (hcategory hd hreason))
    rcases hcases with ⟨s, hs, -, hretained, -, hname⟩ | ⟨-, hne⟩
    · exact ⟨hretained, s, hs, hname⟩
    · exact absurd hreason hne
  constructor
  case atMostOne =>
    have hfilter : (choice.decisions.filter fun d =>
        d.category = .verifiedSummary ∧ d.retained = true) =
        kept.toList.map fun s => sourceDecision s true .retainedVerifiedSummary := by
      rw [← hkept.retained, ← hphases.summaries, List.filter_filter]
      exact List.filter_congr fun d _ => by simp [and_comm]
    refine ((h.perm.filter _).length_eq.trans (congrArg List.length hfilter)).le.trans ?_
    cases kept <;> simp
  case replaces => exact fun s hs hretained => hkept.replaces s ((hmem hs).mp hretained)
  case covered =>
    intro item hitem d hd hid
    rw [hcovered item hitem d hd hid]
    constructor
    · rintro ⟨s, hs, hin⟩
      exact ⟨s, hsummary hs, (hmem (hsummary hs)).mpr hs, hin⟩
    · rintro ⟨s, hs, hretained, hin⟩
      exact ⟨s, (hmem hs).mp hretained, hin⟩
  case named =>
    intro d hd hreason
    obtain ⟨hretained, s, hs, hname⟩ := hnamed d hd hreason
    exact ⟨hretained, s, hsummary hs, (hmem (hsummary hs)).mpr hs, hname⟩
  case disjoint =>
    intro item hitem hretained s hs hsretained hin
    have hitem := List.mem_of_mem_filter hitem
    have hskept := (hmem hs).mp hsretained
    rw [(hkept.replaces s hskept).covers.coveredIds] at hin
    obtain ⟨item', hitem', hid⟩ := List.mem_map.mp hin
    obtain rfl := List.inj_on_of_nodup_map h.nodup
      ((coveredSources_sublist measured s).subset hitem') hitem hid
    obtain ⟨d, hd, hdecides⟩ := Pairing.exists_right h.decided hitem
    have hreason := (hcovered item' hitem d hd hdecides.groupId).mpr ⟨s, hskept, hitem'⟩
    rw [mem_retainedGroupIds (List.mem_map_of_mem hitem), h.mem_selectedIds_iff hd hdecides,
      (hnamed d hd hreason).1] at hretained
    exact absurd hretained (by simp)

end Plans

/-! ## Where the sources fit -/

theorem tokenSum_filter_add (items : List MeasuredGroup) (p : MeasuredGroup → Prop)
    [DecidablePred p] :
    tokenSum (items.filter fun item => p item) + tokenSum (items.filter fun item => ¬ p item) =
      tokenSum items := by
  have hperm := List.filter_append_perm (fun item => decide (p item)) items
  rw [← tokenSum_perm hperm, tokenSum_append]
  simp only [decide_not]

/-- What a retained summary leaves to the optional groups: all that is not covered fits. -/
theorem tokenSum_uncovered_le (hnodup : (measured.map MeasuredGroup.id).Nodup)
    (hkept : KeepsSummary o measured remaining p kept)
    (hfits : tokenSum (ofCategory .optional measured) ≤ remaining) :
    tokenSum ((ofCategory .optional measured).filter fun item => item.id ∉ p.coveredIds) +
        tokenSum kept.toList ≤ tokenSum (ofCategory .optional measured) ∧
      tokenSum ((ofCategory .optional measured).filter fun item => item.id ∉ p.coveredIds) ≤
        p.remaining := by
  have hspent := hkept.spent
  have hsplit := tokenSum_filter_add (ofCategory .optional measured) fun item =>
    item.id ∈ p.coveredIds
  cases hk : kept with
  | none =>
    subst hk
    simp only [Option.toList_none, tokenSum_nil] at hspent ⊢
    omega
  | some s =>
    subst hk
    have hs := hkept.replaces s rfl
    -- The covered sources are among the optional groups that are covered.
    have hle : tokenSum (coveredSources measured s) ≤
        tokenSum ((ofCategory .optional measured).filter fun item => item.id ∈ p.coveredIds) := by
      refine sum_le_of_nodup_of_subset _ ?_ fun item hitem => ?_
      · exact List.Nodup.of_map _ (hnodup.sublist ((coveredSources_sublist measured s).map _))
      · have hmem := (coveredSources_sublist measured s).subset hitem
        have hcovered := (hkept.covered item.id).mpr ⟨s, rfl, item, hitem, rfl⟩
        simp [ofCategory, hmem, category_of_mem_coveredSources hitem, hcovered]
    have hcheaper := hs.cheaper
    simp only [Option.toList_some, tokenSum_cons, tokenSum_nil] at hspent ⊢
    omega

/-- The phases where the groups to be kept exactly and the recent ones fit. -/
theorem choosePhases_of_recent_fits (preTrimPressure : PlanPressure)
    (summaries : List (MeasuredGroup × Option String)) {budget : ℕ}
    (hfits : tokenSum (ofCategory .keepExact measured) + tokenSum (ofCategory .recent measured) ≤
      budget) :
    let summary := chooseSummaries measured preTrimPressure summaries
      (budget - (tokenSum (ofCategory .keepExact measured) + tokenSum (ofCategory .recent measured)))
    choosePhases measured preTrimPressure summaries budget =
      (newestFirst (ofCategory .keepExact measured)).map
          (fun item => sourceDecision item true .retainedKeepExact) ++
        (newestFirst (ofCategory .recent measured)).map
          (fun item => sourceDecision item true .retainedRecent) ++
        summary.decisions ++ (chooseOptional measured summary).decisions := by
  have hexact := tokenSum_newestFirst (ofCategory .keepExact measured)
  have hrecent := tokenSum_newestFirst (ofCategory .recent measured)
  -- each loop finds the budget that the one before it left
  rw [choosePhases, fillKeepExact, fillGroups_none_of_fits (by omega)]
  dsimp only
  rw [fillRecent_of_fits (by omega), hexact, hrecent, Nat.sub_sub]

/-- The optional loop where no summary is used. -/
theorem chooseOptional_of_uncovered (hcovered : p.coveredIds = []) :
    chooseOptional measured p = fillGroups .retainedOptional (fun _ => none) p.remaining
      (newestFirst (ofCategory .optional measured)) := by
  have hnone : p.coveredBy measured = fun _ => none :=
    funext fun item => if_neg (by simp [hcovered])
  rw [chooseOptional, hnone]

/-- The decisions of the optional loop where what is not covered fits. -/
theorem chooseOptional_of_fits
    (hfits : tokenSum ((ofCategory .optional measured).filter fun item => item.id ∉ p.coveredIds) ≤
      p.remaining) :
    (∀ d ∈ (chooseOptional measured p).decisions, d.retained = false →
      d.reason = .droppedCoveredBySummary) ∧
    retainedTokens (chooseOptional measured p).decisions =
      tokenSum ((ofCategory .optional measured).filter fun item => item.id ∉ p.coveredIds) := by
  have huncovered : tokenSum ((newestFirst (ofCategory .optional measured)).filter fun item =>
      p.coveredBy measured item = none) =
      tokenSum ((ofCategory .optional measured).filter fun item => item.id ∉ p.coveredIds) := by
    rw [tokenSum_perm ((newestFirst_perm _).filter _)]
    refine congrArg tokenSum (List.filter_congr fun item _ => ?_)
    by_cases hcovered : item.id ∈ p.coveredIds <;> simp [SummaryPhase.coveredBy, hcovered]
  have hfill : chooseOptional measured p = _ := fillGroups_of_fits (huncovered.trans_le hfits)
  constructor
  · intro d hd hdropped
    rw [hfill] at hd
    obtain ⟨item, -, rfl⟩ := List.mem_map.mp hd
    unfold fitted at hdropped ⊢
    split at hdropped
    · simp [sourceDecision]
    · simp [sourceDecision] at hdropped
  · have hshares : Shares (newestFirst (ofCategory .optional measured)) p.remaining
        (chooseOptional measured p) := fillGroups_shares _ _
    have hspent := hshares.spent
    rw [congrArg Phase.remaining hfill, huncovered] at hspent
    dsimp only at hspent
    omega

/-- **Where the sources fit, only covered ones are dropped.** -/
theorem choosePhases_of_fits (hnodup : (measured.map MeasuredGroup.id).Nodup)
    (hclass : Classified measured) {summaries : List (MeasuredGroup × Option String)}
    (hsummaries : validateSummaries o measured = .ok summaries) (preTrimPressure : PlanPressure)
    {budget : ℕ} (hfits : tokenSum (ofCategory .keepExact measured) +
      tokenSum (ofCategory .recent measured) + tokenSum (ofCategory .optional measured) ≤ budget) :
    (∀ d ∈ choosePhases measured preTrimPressure summaries budget,
      d.category ≠ .verifiedSummary → d.retained = false → d.reason = .droppedCoveredBySummary) ∧
    retainedTokens (choosePhases measured preTrimPressure summaries budget) ≤
      tokenSum (ofCategory .keepExact measured) + tokenSum (ofCategory .recent measured) +
        tokenSum (ofCategory .optional measured) := by
  obtain ⟨kept, hkept⟩ := chooseSummaries_cases hnodup hclass hsummaries preTrimPressure
    (budget - (tokenSum (ofCategory .keepExact measured) + tokenSum (ofCategory .recent measured)))
  obtain ⟨hsaved, huncovered⟩ := tokenSum_uncovered_le hnodup hkept (by omega)
  obtain ⟨hreason, hoptional⟩ := chooseOptional_of_fits huncovered
  have hsummary : retainedTokens (chooseSummaries measured preTrimPressure summaries
      (budget - (tokenSum (ofCategory .keepExact measured) +
        tokenSum (ofCategory .recent measured)))).decisions = tokenSum kept.toList := by
    rw [retainedTokens, hkept.retained, List.map_map]
    rfl
  rw [choosePhases_of_recent_fits preTrimPressure summaries (by omega)]
  constructor
  · intro d hd hcategory hdropped
    simp only [List.mem_append] at hd
    rcases hd with ((hd | hd) | hd) | hd
    · obtain ⟨item, -, rfl⟩ := List.mem_map.mp hd
      simp [sourceDecision] at hdropped
    · obtain ⟨item, -, rfl⟩ := List.mem_map.mp hd
      simp [sourceDecision] at hdropped
    · obtain ⟨items, hitems, hshares⟩ :=
        chooseSummaries_shares measured preTrimPressure summaries _
      obtain ⟨item, hitem, hdecides⟩ := Pairing.exists_left hshares.decided hd
      have hmem : item ∈ ofCategory .verifiedSummary measured :=
        (validateSummaries_eq_ok hsummaries).1 ▸ hitems.mem_iff.mp hitem
      exact absurd (hdecides.category.trans (category_of_mem_ofCategory hmem)) hcategory
    · exact hreason d hd hdropped
  · simp only [retainedTokens_append, retainedTokens_retained, tokenSum_newestFirst, hsummary,
      hoptional]
    omega

/-! ## Adding summaries -/

def isSummary (g : HistorySourceGroup) : Bool := g.category = some .verifiedSummary

/-- The verifier answers for the summaries of a plan; it does not raise. -/
def Verifies (o : PlanOptions) (groups : List HistorySourceGroup) : Prop :=
  ∀ verifier ∈ o.summaryVerifier, ∀ g ∈ groups, isSummary g = true →
    ∃ accepted, verifier g o.scope = .ok accepted

/-- The groups of a plan with summaries added, as a valid input that is measured completely. -/
structure AddsSummaries (o : PlanOptions) (groups groups' : List HistorySourceGroup) : Prop where
  sources : (groups'.filter fun g => !isSummary g).Perm groups
  validated : validateGroups o [] [] groups' = .ok ()
  counted : ∀ g ∈ groups', ∃ item, measureGroup o.counter g = .ok item
  verified : Verifies o groups'
  measured : groups'.length ≤ o.maxGroups

theorem nodup_keys (h : (groups.map fun g => g.groupId).Nodup) :
    (groups.map fun g => g.key).Nodup := by
  refine List.Nodup.of_map (fun k => (ofLex k).2) ?_
  have hcodes := h.map Text.codes_injective
  simpa [Function.comp_def, GroupFields.key] using hcodes

/-- **The sources are measured alike** with and without the summaries. -/
theorem sourceGroups_eq {measured measured' : List MeasuredGroup}
    (h : AddsSummaries o groups groups')
    (hmeasured : List.Forall₂ (Measures o) (orderGroups groups) measured)
    (hmeasured' : List.Forall₂ (Measures o) (orderGroups groups') measured') :
    sourceGroups measured' = measured := by
  have hnodup := nodup_keys (nodup_of_validateGroups h.validated)
  have horder : (orderGroups groups').filter (fun g => !isSummary g) = orderGroups groups := by
    rw [orderGroups, filter_sortBy hnodup]
    exact sortBy_congr (hnodup.sublist (List.filter_sublist.map _)) h.sources
  have hfilter : List.Forall₂ (Measures o) (orderGroups groups) (sourceGroups measured') := by
    rw [← horder]
    refine Pairing.filter (fun g item hg => ?_) hmeasured'
    have hiff := effectiveCategory_eq_summary (g := g.toGroupFields)
    rw [← hg.category_eq] at hiff
    simp [isSummary, hiff]
  refine List.right_unique_forall₂' (fun g a b ha hb => ?_) hfilter hmeasured
  exact Except.ok.inj (ha.symm.trans hb)

theorem ofCategory_sourceGroups {category : HistoryCategory} (h : category ≠ .verifiedSummary)
    (measured : List MeasuredGroup) :
    ofCategory category (sourceGroups measured) = ofCategory category measured := by
  rw [ofCategory, sourceGroups, List.filter_filter]
  refine List.filter_congr fun item _ => ?_
  by_cases hcategory : item.category = category <;> simp [hcategory, h]

/-- The tokens of the sources, by category. -/
theorem tokenSum_sourceGroups (measured : List MeasuredGroup) :
    tokenSum (sourceGroups measured) = tokenSum (ofCategory .mandatory measured) +
      (tokenSum (ofCategory .keepExact measured) + tokenSum (ofCategory .recent measured) +
        tokenSum (ofCategory .optional measured)) := by
  have hnone : ofCategory .verifiedSummary (sourceGroups measured) = [] :=
    List.filter_eq_nil_iff.mpr fun item hitem => by simpa using (List.mem_filter.mp hitem).2
  rw [← tokenSum_perm (ofCategory_perm (sourceGroups measured)), hnone,
    ofCategory_sourceGroups (by simp), ofCategory_sourceGroups (by simp),
    ofCategory_sourceGroups (by simp), ofCategory_sourceGroups (by simp)]
  simp [Nat.add_assoc]

/-- A verifier that does not raise validates every summary. -/
theorem exists_validateSummaries
    (hmeasured : List.Forall₂ (Measures o) (orderGroups groups) measured) (h : Verifies o groups) :
    ∃ summaries, validateSummaries o measured = .ok summaries := by
  obtain ⟨summaries, hpairs⟩ := Pairing.exists_of_forall
    (l := ofCategory .verifiedSummary measured)
    (R := fun s r => (do
      let invalidReason ← summaryFault o (sourceGroups measured) (eligibleGroups measured) s
      .ok (s, invalidReason) : Except HistoryError (MeasuredGroup × Option String)) = .ok r) <| by
    intro s hs
    obtain ⟨g, hg, hmeasures⟩ := Pairing.exists_left hmeasured (List.mem_of_mem_filter hs)
    have hsummary : isSummary g = true := decide_eq_true <| effectiveCategory_eq_summary.mp
      (hmeasures.category_eq.symm.trans (category_of_mem_ofCategory hs))
    unfold summaryFault
    split
    · exact ⟨_, rfl⟩
    · next verifier hverifier =>
      obtain ⟨accepted, haccepted⟩ :=
        h verifier hverifier g ((orderGroups_perm groups).mem_iff.mp hg) hsummary
      rw [hmeasures.group_eq, haccepted]
      exact ⟨_, rfl⟩
  exact ⟨summaries, mapM_eq_ok_iff.mpr hpairs⟩

/-- The plan is ready, drops only covered sources, and retains at most the tokens. -/
structure ReadyWithin (plan : HistoryPlan) (tokens : ℕ) : Prop where
  ready : plan.readyForDispatch = true
  dropped : ∀ d ∈ plan.decisions, d.category ≠ .verifiedSummary → d.retained = false →
    d.reason = .droppedCoveredBySummary
  tokens : plan.retainedTokens ≤ tokens

/-- **Adding summaries** to a plan that is ready and retains every source. -/
theorem Plans.add_summaries {choice : Choice} {decisions : List SourceGroupDecision}
    (h : Plans o groups measured choice decisions)
    (hready : (historyPlan o (orderGroups groups) measured choice decisions).readyForDispatch = true)
    (hall : ∀ item ∈ measured, item.id ∈ selectedIds choice.decisions)
    (hadds : AddsSummaries o groups groups') :
    ∃ plan, planHistory o groups' = .ok plan ∧ ReadyWithin plan (retainedTokens choice.decisions) := by
  obtain ⟨hlimit, -, -, hhard⟩ := historyPlan_ready_iff.mp hready
  have hlimit' : (orderGroups groups').length ≤ o.maxGroups :=
    (orderGroups_perm groups').length_eq.trans_le hadds.measured
  have hmeasures := h.measures
  rw [List.take_of_length_le hlimit] at hmeasures
  obtain ⟨measured', hmeasures'⟩ : ∃ r, List.Forall₂ (Measures o) (orderGroups groups') r :=
    Pairing.exists_of_forall fun g hg => hadds.counted g ((orderGroups_perm groups').mem_iff.mp hg)
  have hsources := sourceGroups_eq hadds hmeasures hmeasures'
  -- Everything is retained without the summaries, so the sources fit with the growth.
  have htokens : retainedTokens choice.decisions = tokenSum (sourceGroups measured') := by
    rw [h.retainedTokens_eq, List.filter_eq_self.mpr fun item hitem =>
      decide_eq_true (hall item hitem), hsources]
  obtain ⟨-, -, -, hfits⟩ := chooseGroups_shares h.chosen
  rw [htokens, tokenSum_sourceGroups] at hfits
  obtain ⟨summaries, hsummaries⟩ := exists_validateSummaries hmeasures' hadds.verified
  have hnodup' : (measured'.map MeasuredGroup.id).Nodup := by
    refine nodup_measured hadds.validated ?_
    rwa [List.take_of_length_le hlimit']
  have hclass' := classified_of_measures hmeasures'
  have hremaining : tokenSum (ofCategory .keepExact measured') +
      tokenSum (ofCategory .recent measured') + tokenSum (ofCategory .optional measured') ≤
      o.bWorkTokens - tokenSum (ofCategory .mandatory measured') - o.unaccountedGrowthTokens := by
    omega
  obtain ⟨hdropped, hretained⟩ := choosePhases_of_fits hnodup' hclass' hsummaries
    (o.preTrimPressure measured') hremaining
  obtain ⟨choice', rfl, hchosen⟩ :=
    exists_chooseGroups (o.preTrimPressure measured') (by omega) hsummaries
  obtain ⟨-, -, hdecisions⟩ := chooseGroups_eq_ok.mp hchosen
  obtain ⟨decisions', hplans'⟩ := exists_plans h.options hadds.validated
    (by rwa [List.take_of_length_le hlimit']) hchosen
  refine ⟨_, planHistory_eq_ok.mpr ⟨measured', choice', decisions', hplans', rfl⟩, ?_⟩
  have hdropped' : ∀ d ∈ decisions', d.category ≠ .verifiedSummary → d.retained = false →
      d.reason = .droppedCoveredBySummary := by
    intro d hd hcategory hfalse
    have hd := hplans'.perm.mem_iff.mp hd
    rw [hdecisions] at hd
    rcases List.mem_append.mp hd with hd | hd
    · obtain ⟨item, -, rfl⟩ := List.mem_map.mp hd
      simp [sourceDecision] at hfalse
    · exact hdropped d hd hcategory hfalse
  have htokens' : retainedTokens choice'.decisions ≤ retainedTokens choice.decisions := by
    rw [hdecisions, retainedTokens_append, retainedTokens_retained, htokens, tokenSum_sourceGroups]
    exact Nat.add_le_add_left hretained _
  -- Only optional groups are covered, so nothing that must be kept is dropped.
  obtain ⟨-, p, -, -, hphases⟩ := chooseGroups_optional hnodup' hclass' hchosen
  have hkeeps (c : HistoryCategory) (hoptional : c ≠ .optional) (hsummary : c ≠ .verifiedSummary) :
      omits c measured' choice'.decisions = false := by
    refine omits_eq_false.mpr fun item hitem hcategory => ?_
    obtain ⟨d, hd, hdecides⟩ := Pairing.exists_right hplans'.decided hitem
    have hcategory := hdecides.category.trans hcategory
    refine (hplans'.mem_selectedIds_iff hd hdecides).mpr (Bool.not_eq_false _ ▸ fun hfalse => ?_)
    exact hphases.others d (hplans'.perm.mem_iff.mp hd) (hcategory ▸ hoptional)
      (hdropped' d hd (hcategory ▸ hsummary) hfalse)
  refine ⟨historyPlan_ready_iff.mpr ⟨hlimit', ?_, ?_, ?_⟩, hdropped', htokens'⟩
  · exact hkeeps .keepExact (by simp) (by simp)
  · exact hkeeps .recent (by simp) (by simp)
  · omega

/-- **Substitution is exact.** -/
theorem summary_substitution_exact (o : PlanOptions) (groups : List HistorySourceGroup)
    (plan : HistoryPlan) (h : planHistory o groups = .ok plan) :
    (∃ measured, List.Forall₂ (fun g item => measureGroup o.counter g = .ok item)
        ((orderGroups groups).take o.maxGroups) measured ∧ Substitutes o measured plan) ∧
    (plan.readyForDispatch = true → (∀ g ∈ groups, g.groupId ∈ plan.retainedGroupIds) →
      ∀ groups', AddsSummaries o groups groups' →
        ∃ plan', planHistory o groups' = .ok plan' ∧ ReadyWithin plan' plan.retainedTokens) := by
  obtain ⟨measured, choice, decisions, hplans, rfl⟩ := planHistory_eq_ok.mp h
  refine ⟨⟨measured, hplans.measures, hplans.substitutes⟩, fun hready hall groups' hadds => ?_⟩
  refine hplans.add_summaries hready (fun item hitem => ?_) hadds
  obtain ⟨hlimit, -⟩ := historyPlan_ready_iff.mp hready
  have hgroup : item.group ∈ groups :=
    (hplans.groups_perm hlimit).mem_iff.mp (List.mem_map_of_mem hitem)
  exact (mem_retainedGroupIds (List.mem_map_of_mem hitem)).mp (hall item.group hgroup)

theorem sample_addsSummaries :
    AddsSummaries (sampleOptions 130) sampleGroups (sampleSummary :: sampleGroups) where
  sources := List.Perm.of_eq (by decide +kernel)
  validated := by decide +kernel
  counted := fun g hg => exists_of_isSome <| by
    have hcounted : (sampleSummary :: sampleGroups).all fun g =>
        (measureGroup (sampleOptions 130).counter g).toOption.isSome := by decide +kernel
    exact List.all_eq_true.mp hcounted g hg
  verified := by
    rintro _ ⟨⟩ g - -
    exact ⟨true, rfl⟩
  measured := by decide +kernel

theorem summary_substitution_exact_sample :
    ∃ plan plan', planHistory (sampleOptions 130) sampleGroups = .ok plan ∧
      plan.readyForDispatch = true ∧
      planHistory (sampleOptions 130) (sampleSummary :: sampleGroups) = .ok plan' ∧
      ReadyWithin plan' plan.retainedTokens ∧ plan'.retainedTokens < plan.retainedTokens ∧
      ∃ measured, Substitutes (sampleOptions 130) measured plan' := by
  obtain ⟨plan, h⟩ : ∃ plan, planHistory (sampleOptions 130) sampleGroups = .ok plan :=
    exists_of_isSome (by decide +kernel)
  have hfacts : (planHistory (sampleOptions 130) sampleGroups).toOption.map (fun plan =>
      plan.readyForDispatch && (sampleGroups.all fun g => g.groupId ∈ plan.retainedGroupIds) &&
        plan.retainedTokens == 100) = some true := by
    decide +kernel
  rw [h] at hfacts
  simp only [Except.toOption, Option.map_some, Option.some.injEq, Bool.and_eq_true,
    List.all_eq_true, decide_eq_true_eq, beq_iff_eq] at hfacts
  obtain ⟨⟨hready, hall⟩, htokens⟩ := hfacts
  obtain ⟨plan', h', hwithin⟩ := (summary_substitution_exact _ _ plan h).2 hready hall _
    sample_addsSummaries
  obtain ⟨⟨measured, -, hsubstitutes⟩, -⟩ := summary_substitution_exact _ _ plan' h'
  have htokens' : (planHistory (sampleOptions 130) (sampleSummary :: sampleGroups)).toOption.map
      HistoryPlan.retainedTokens = some 50 := by
    decide +kernel
  rw [h'] at htokens'
  have hsaved : plan'.retainedTokens = 50 := by simpa [Except.toOption] using htokens'
  exact ⟨plan, plan', h, hready, h', hwithin, by omega, measured, hsubstitutes⟩

end AgentHub.History

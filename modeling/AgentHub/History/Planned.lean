import AgentHub.History.Phases

/-!
# What a plan is made from

A plan that is returned comes from groups that pass validation, their measurements and the
decisions of the phases. Each measured group has one decision, so no lookup fails.

## Main definitions

* `Plans`: the steps of a plan that is returned

## Main results

* `validateGroups_eq_ok`, `measureGroup_eq_ok`, `chooseGroups_eq_ok`: the steps
* `chooseGroups_shares`: the phases decide every measured group within the budget
* `planHistory_eq_ok`: a plan that is returned, by its steps
-/

namespace AgentHub.History

open Lib Context

variable {o : PlanOptions}

/-! ## Validation -/

/-- The group belongs to the plan: its scope, its watermark and its counter. -/
@[mk_iff]
structure Belongs (o : PlanOptions) (group : HistorySourceGroup) : Prop where
  scope : group.scope = o.scope
  watermark : group.watermark = o.frozenWatermark
  sequence : group.sequence < o.frozenWatermark
  version : group.countVersion = o.counter.counterVersion

variable {groups : List HistorySourceGroup} {group : HistorySourceGroup} {item : MeasuredGroup}
  {measured : List MeasuredGroup} {summaries : List (MeasuredGroup × Option String)}
  {preTrimPressure : PlanPressure} {choice : Choice}

/-- **Validation**: every group belongs to the plan, and ids and exchanges are distinct. -/
theorem validateGroups_eq_ok {identities owners : List Text} :
    validateGroups o identities owners groups = .ok () ↔
      (∀ g ∈ groups, Belongs o g) ∧
      ((groups.map fun g => g.groupId).Nodup ∧ ∀ g ∈ groups, g.groupId ∉ identities) ∧
      ((groups.map fun g => g.exchangeId).Nodup ∧ ∀ g ∈ groups, g.exchangeId ∉ owners) := by
  induction groups generalizing identities owners with
  | nil => simp [validateGroups]
  | cons g groups ih =>
    simp only [validateGroups, bind_eq_ok, raiseIf_eq_ok, exists_const, ih, belongs_iff,
      List.map_cons, List.nodup_cons, List.mem_map, List.mem_cons, not_or, not_exists, not_and]
    grind

/-- Groups that pass validation have distinct ids. -/
theorem nodup_of_validateGroups (h : validateGroups o [] [] groups = .ok ()) :
    (groups.map fun g => g.groupId).Nodup :=
  (validateGroups_eq_ok.mp h).2.1.1

theorem orderGroups_perm (groups : List HistorySourceGroup) : (orderGroups groups).Perm groups :=
  sortBy_perm _ groups

theorem validateAndOrderGroups_eq_ok {ordered : List HistorySourceGroup} :
    validateAndOrderGroups o groups = .ok ordered ↔
      validateGroups o [] [] groups = .ok () ∧ ordered = orderGroups groups := by
  rw [validateAndOrderGroups, bind_eq_ok]
  constructor
  · rintro ⟨⟨⟩, hvalid, hordered⟩
    exact ⟨hvalid, (Except.ok.inj hordered).symm⟩
  · rintro ⟨hvalid, rfl⟩
    exact ⟨(), hvalid, rfl⟩

/-! ## Measurement -/

/-- A group with its tokens. -/
def measuredGroup (group : HistorySourceGroup) (tokens : ℕ) : MeasuredGroup :=
  ⟨group, (effectiveCategory group.toGroupFields).1, (effectiveCategory group.toGroupFields).2,
    tokens⟩

theorem measureGroup_eq_ok {counter : HistoryTokenCounter} :
    measureGroup counter group = .ok item ↔
      ∃ tokens : ℕ, counter.count group = some tokens ∧ item = measuredGroup group tokens := by
  unfold measureGroup
  cases hcount : counter.count group with
  | none => simp
  | some n =>
    cases n with
    | ofNat n => simp [measuredGroup, eq_comm]
    | negSucc n => simp

/-- The group is measured to the item. -/
def Measures (o : PlanOptions) (group : HistorySourceGroup) (item : MeasuredGroup) : Prop :=
  measureGroup o.counter group = .ok item

theorem Measures.group_eq (h : Measures o group item) : item.group = group := by
  obtain ⟨tokens, -, rfl⟩ := measureGroup_eq_ok.mp h
  rfl

theorem Measures.category_eq (h : Measures o group item) :
    item.category = (effectiveCategory group.toGroupFields).1 := by
  obtain ⟨tokens, -, rfl⟩ := measureGroup_eq_ok.mp h
  rfl

theorem effectiveCategory_eq_summary {g : GroupFields} :
    (effectiveCategory g).1 = .verifiedSummary ↔ g.category = some .verifiedSummary := by
  unfold effectiveCategory
  split
  · simp_all
  · split_ifs <;> simp_all

/-! ## The phases together -/

theorem newestFirst_perm (items : List MeasuredGroup) : (newestFirst items).Perm items :=
  sortBy_perm _ items

theorem tokenSum_newestFirst (items : List MeasuredGroup) :
    tokenSum (newestFirst items) = tokenSum items :=
  tokenSum_perm (newestFirst_perm items)

/-- Every group is of one category. -/
theorem ofCategory_perm (measured : List MeasuredGroup) :
    (ofCategory .mandatory measured ++ (ofCategory .keepExact measured ++
      ofCategory .recent measured ++ ofCategory .verifiedSummary measured ++
      ofCategory .optional measured)).Perm measured := by
  induction measured with
  | nil => exact List.Perm.refl _
  | cons item items ih =>
    cases hcat : item.category <;> simp only [ofCategory, List.filter_cons, hcat, reduceCtorEq,
      decide_false, decide_true, if_true, if_false, Bool.false_eq_true] at ih ⊢
    · exact ih.cons item
    all_goals
      refine List.Perm.trans ?_ (ih.cons item)
      simp only [List.append_assoc, List.cons_append]
      grind [List.perm_middle, List.Perm.append_left, List.Perm.refl, List.Perm.trans]

/-- The summaries, each with its fault. -/
theorem validateSummaries_eq_ok (h : validateSummaries o measured = .ok summaries) :
    summaries.map Prod.fst = ofCategory .verifiedSummary measured ∧
      ∀ s ∈ summaries,
        summaryFault o (sourceGroups measured) (eligibleGroups measured) s.1 = .ok s.2 := by
  have hpairs := mapM_eq_ok_iff.mp h
  have hstep : ∀ a s, (do
      let invalidReason ← summaryFault o (sourceGroups measured) (eligibleGroups measured) a
      .ok (a, invalidReason) : Except HistoryError _) = .ok s →
        a = s.1 ∧ summaryFault o (sourceGroups measured) (eligibleGroups measured) s.1 = .ok s.2 := by
    intro a s hs
    obtain ⟨invalidReason, hfault, hs⟩ := bind_eq_ok.mp hs
    obtain rfl := Except.ok.inj hs
    exact ⟨rfl, hfault⟩
  constructor
  · refine (Pairing.map_eq_map (f := id) (fun a s hs => (hstep a s hs).1) hpairs).symm.trans ?_
    exact List.map_id _
  · intro s hs
    obtain ⟨a, -, ha⟩ := Pairing.exists_left hpairs hs
    exact (hstep a s ha).2

/-- The summaries are decided in the order of the sort, or as they come. -/
theorem chooseSummaries_shares (measured : List MeasuredGroup) (preTrimPressure : PlanPressure)
    (summaries : List (MeasuredGroup × Option String)) (remaining : ℕ) :
    ∃ items, items.Perm (summaries.map Prod.fst) ∧ Shares items remaining
      (chooseSummaries measured preTrimPressure summaries remaining).toPhase := by
  unfold chooseSummaries
  split_ifs
  · exact ⟨_, (sortBy_perm _ summaries).map Prod.fst, fillSummaries_shares _ _ _⟩
  · refine ⟨_, List.Perm.refl _, ?_, ?_⟩
    · exact List.forall₂_map_left_iff.mpr
        (List.forall₂_map_right_iff.mpr (List.forall₂_same.mpr fun _ _ => .mk _ _ _))
    · simp [retainedTokens, sourceDecision, List.filter_map, Function.comp_def]

/-- **The phases after the mandatory groups share what remains.** -/
theorem choosePhases_shares (h : summaries.map Prod.fst = ofCategory .verifiedSummary measured)
    (preTrimPressure : PlanPressure) (budget : ℕ) :
    ∃ items remaining,
      items.Perm (ofCategory .keepExact measured ++ ofCategory .recent measured ++
        ofCategory .verifiedSummary measured ++ ofCategory .optional measured) ∧
      Shares items budget ⟨choosePhases measured preTrimPressure summaries budget, remaining⟩ := by
  obtain ⟨sorted, hsorted, hsummary⟩ := chooseSummaries_shares measured preTrimPressure summaries
    (fillRecent true (fillKeepExact budget (newestFirst (ofCategory .keepExact measured))).remaining
      (newestFirst (ofCategory .recent measured))).remaining
  refine ⟨_, _, ?_, (((fillGroups_shares _ _).append (fillRecent_shares _ _ _)).append
    hsummary).append (fillGroups_shares _ _)⟩
  exact (((newestFirst_perm _).append (newestFirst_perm _)).append (h ▸ hsorted)).append
    (newestFirst_perm _)

theorem chooseGroups_eq_ok :
    chooseGroups o measured preTrimPressure = .ok choice ↔
      tokenSum (ofCategory .mandatory measured) + o.unaccountedGrowthTokens ≤ o.bWorkTokens ∧
      validateSummaries o measured = .ok choice.summaries ∧
      choice.decisions =
        (ofCategory .mandatory measured).map
            (fun item => sourceDecision item true .retainedMandatory) ++
          choosePhases measured preTrimPressure choice.summaries
            (o.bWorkTokens - tokenSum (ofCategory .mandatory measured) -
              o.unaccountedGrowthTokens) := by
  simp only [chooseGroups, bind_eq_ok, raiseIf_eq_ok, exists_const, not_lt]
  constructor
  · rintro ⟨hmandatory, hgrowth, summaries, hsummaries, hchoice⟩
    rw [fillMandatory_eq hmandatory] at hgrowth hchoice
    obtain rfl := Except.ok.inj hchoice
    dsimp only at hgrowth
    exact ⟨by omega, hsummaries, rfl⟩
  · rintro ⟨hfits, hsummaries, hdecisions⟩
    rw [fillMandatory_eq (by omega)]
    refine ⟨by omega, by dsimp only; omega, choice.summaries, hsummaries, ?_⟩
    dsimp only
    rw [← hdecisions]

/-- Where the mandatory groups and the growth fit, the phases choose. -/
theorem exists_chooseGroups (preTrimPressure : PlanPressure)
    (hfits : tokenSum (ofCategory .mandatory measured) + o.unaccountedGrowthTokens ≤ o.bWorkTokens)
    (hsummaries : validateSummaries o measured = .ok summaries) :
    ∃ choice, Choice.summaries choice = summaries ∧
      chooseGroups o measured preTrimPressure = .ok choice :=
  ⟨⟨summaries, (ofCategory .mandatory measured).map
      (fun item => sourceDecision item true .retainedMandatory) ++
        choosePhases measured preTrimPressure summaries
          (o.bWorkTokens - tokenSum (ofCategory .mandatory measured) -
            o.unaccountedGrowthTokens)⟩, rfl, chooseGroups_eq_ok.mpr ⟨hfits, hsummaries, rfl⟩⟩

/-- **The phases decide every measured group**, and what they retain fits with the growth. -/
theorem chooseGroups_shares (h : chooseGroups o measured preTrimPressure = .ok choice) :
    ∃ items, items.Perm measured ∧ List.Forall₂ Decides items choice.decisions ∧
      retainedTokens choice.decisions + o.unaccountedGrowthTokens ≤ o.bWorkTokens := by
  obtain ⟨hfits, hsummaries, hdecisions⟩ := chooseGroups_eq_ok.mp h
  obtain ⟨items, remaining, hperm, hshares⟩ :=
    choosePhases_shares (validateSummaries_eq_ok hsummaries).1 preTrimPressure
      (o.bWorkTokens - tokenSum (ofCategory .mandatory measured) - o.unaccountedGrowthTokens)
  have hmandatory : Shares (ofCategory .mandatory measured) o.bWorkTokens
      ⟨(ofCategory .mandatory measured).map
          (fun item => sourceDecision item true .retainedMandatory),
        o.bWorkTokens - tokenSum (ofCategory .mandatory measured)⟩ := by
    refine ⟨decides_map _ _, ?_⟩
    rw [retainedTokens_retained]
    dsimp only
    omega
  refine ⟨_, ((hperm.append_left _).trans (ofCategory_perm measured)), ?_, ?_⟩
  · rw [hdecisions]
    exact List.rel_append hmandatory.decided hshares.decided
  · have hspent := hmandatory.spent
    have hspent' := hshares.spent
    rw [hdecisions, retainedTokens_append]
    dsimp only at hspent hspent'
    omega

/-! ## Lookups -/

/-- Decisions about groups with distinct ids are found by the id. -/
theorem mapM_decisionOf {ds decisions : List SourceGroupDecision}
    (hnodup : (measured.map MeasuredGroup.id).Nodup) (hds : List.Forall₂ Decides measured ds)
    (hperm : ds.Perm decisions) : measured.mapM (decisionOf decisions) = .ok ds := by
  have hids : ds.map SourceGroupDecision.groupId = measured.map MeasuredGroup.id :=
    (Pairing.map_eq_map (fun _ _ hd => hd.groupId.symm) hds).symm
  have hnodup' := (hperm.map SourceGroupDecision.groupId).nodup_iff.mp (hids ▸ hnodup)
  refine mapM_eq_ok_iff.mpr ((Pairing.with_mem hds).imp fun item d ⟨hd, _, hmem⟩ => ?_)
  rw [decisionOf, ← hd.groupId, Table.find_of_mem hnodup' (hperm.mem_iff.mp hmem)]

/-! ## The plan -/

/-- The steps of a plan that is returned. -/
structure Plans (o : PlanOptions) (groups : List HistorySourceGroup)
    (measured : List MeasuredGroup) (choice : Choice) (decisions : List SourceGroupDecision) :
    Prop where
  options : checkOptions o = .ok ()
  validated : validateGroups o [] [] groups = .ok ()
  measures : List.Forall₂ (Measures o) ((orderGroups groups).take o.maxGroups) measured
  chosen : chooseGroups o measured (o.preTrimPressure measured) = .ok choice
  decided : List.Forall₂ Decides measured decisions
  perm : decisions.Perm choice.decisions

/-- The ids of measured groups are distinct. -/
theorem nodup_measured (hvalid : validateGroups o [] [] groups = .ok ())
    (h : List.Forall₂ (Measures o) ((orderGroups groups).take o.maxGroups) measured) :
    (measured.map MeasuredGroup.id).Nodup := by
  have hids : measured.map MeasuredGroup.id =
      ((orderGroups groups).take o.maxGroups).map fun g => g.groupId :=
    (Pairing.map_eq_map (fun _ _ hm => by rw [MeasuredGroup.id, hm.group_eq]) h).symm
  rw [hids]
  refine List.Nodup.sublist ((List.take_sublist _ _).map _) ?_
  exact ((orderGroups_perm groups).map _).nodup_iff.mpr (nodup_of_validateGroups hvalid)

/-- What is chosen for measured groups makes a plan. -/
theorem exists_plans (hoptions : checkOptions o = .ok ())
    (hvalid : validateGroups o [] [] groups = .ok ())
    (hmeasures : List.Forall₂ (Measures o) ((orderGroups groups).take o.maxGroups) measured)
    (hchosen : chooseGroups o measured (o.preTrimPressure measured) = .ok choice) :
    ∃ decisions, Plans o groups measured choice decisions := by
  obtain ⟨items, hperm, hdecided, -⟩ := chooseGroups_shares hchosen
  -- The decisions in the order of the measured groups.
  obtain ⟨ds, hds, hdsPerm⟩ := List.perm_comp_forall₂ hperm.symm hdecided
  exact ⟨ds, hoptions, hvalid, hmeasures, hchosen, hds, hdsPerm⟩

/-- **A plan that is returned**, by its steps. -/
theorem planHistory_eq_ok {plan : HistoryPlan} :
    planHistory o groups = .ok plan ↔
      ∃ measured choice decisions, Plans o groups measured choice decisions ∧
        plan = historyPlan o (orderGroups groups) measured choice decisions := by
  simp only [planHistory, bind_eq_ok, validateAndOrderGroups_eq_ok]
  constructor
  · rintro ⟨⟨⟩, hoptions, ordered, ⟨hvalid, rfl⟩, measured, hmeasured, choice, hchoice, decisions,
      hdecisions, hplan⟩
    have hmeasures := mapM_eq_ok_iff.mp hmeasured
    obtain ⟨ds, hplans⟩ := exists_plans hoptions hvalid hmeasures hchoice
    have hlookup := mapM_decisionOf (nodup_measured hvalid hmeasures) hplans.decided hplans.perm
    obtain rfl : ds = decisions := Except.ok.inj (hlookup.symm.trans hdecisions)
    exact ⟨measured, choice, ds, hplans, (Except.ok.inj hplan).symm⟩
  · rintro ⟨measured, choice, decisions, h, rfl⟩
    have hnodup := nodup_measured h.validated h.measures
    exact ⟨(), h.options, _, ⟨h.validated, rfl⟩, measured, mapM_eq_ok_iff.mpr h.measures, choice,
      h.chosen, decisions, mapM_decisionOf hnodup h.decided h.perm, rfl⟩

end AgentHub.History

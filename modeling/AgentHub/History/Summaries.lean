import AgentHub.History.Safety

/-!
# The summary phase

A valid summary covers the oldest eligible sources at their revisions. Two such coverages share the
oldest source, so the phase retains at most one summary, and that one is cheaper than what it covers.

## Main definitions

* `CoversPrefix`: a summary of the oldest eligible sources
* `Replaces`: a summary the verifier accepts that is cheaper than what it covers
* `KeepsSummary`: the phase retains one summary at most

## Main results

* `coversPrefix_of_fault`: a summary without a fault covers a prefix
* `chooseSummaries_cases`: at most one summary is retained
-/

namespace AgentHub.History

open Lib Context

variable {o : PlanOptions} {measured : List MeasuredGroup}

/-! ## Coverage -/

/-- The ids and revisions a summary is bound to. -/
def MeasuredGroup.coverage (s : MeasuredGroup) : List (Text × Text) :=
  s.group.coverage.map fun c => (c.sourceGroupId, c.sourceRevision)

/-- The sources a summary covers if its coverage is valid. -/
def coveredSources (measured : List MeasuredGroup) (s : MeasuredGroup) : List MeasuredGroup :=
  (eligibleGroups measured).take s.group.coverage.length

/-- A summary of the oldest eligible sources at their revisions. -/
structure CoversPrefix (measured : List MeasuredGroup) (s : MeasuredGroup) : Prop where
  coverage : s.coverage = (coveredSources measured s).map fun item => (item.id, item.group.revision)
  nonempty : coveredSources measured s ≠ []

theorem eligibleGroups_sublist (measured : List MeasuredGroup) :
    (eligibleGroups measured).Sublist measured :=
  List.filter_sublist

variable {item s : MeasuredGroup} {sources eligible items : List MeasuredGroup} {remaining : ℕ}
  {summaries : List (MeasuredGroup × Option String)} {category : HistoryCategory}
  {d : SourceGroupDecision}

theorem mem_eligibleGroups :
    item ∈ eligibleGroups measured ↔
      item ∈ measured ∧ item.category = .optional ∧ item.group.summaryEligibility = .eligible := by
  simp [eligibleGroups]

theorem coveredSources_sublist (measured : List MeasuredGroup) (s : MeasuredGroup) :
    (coveredSources measured s).Sublist measured :=
  (List.take_sublist _ _).trans (eligibleGroups_sublist measured)

theorem category_of_mem_coveredSources (h : item ∈ coveredSources measured s) :
    item.category = .optional :=
  (mem_eligibleGroups.mp (List.mem_of_mem_take h)).2.1

theorem CoversPrefix.coveredIds (h : CoversPrefix measured s) :
    s.coveredIds = (coveredSources measured s).map MeasuredGroup.id := by
  have := congrArg (List.map Prod.fst) h.coverage
  simpa [MeasuredGroup.coverage, MeasuredGroup.coveredIds, Function.comp_def] using this

/-- Valid coverages share the oldest source. -/
theorem CoversPrefix.overlap {a b : MeasuredGroup} (ha : CoversPrefix measured a)
    (hb : CoversPrefix measured b) : ∃ id, id ∈ a.coveredIds ∧ id ∈ b.coveredIds := by
  have hane := ha.nonempty
  have hbne := hb.nonempty
  rw [ha.coveredIds, hb.coveredIds]
  unfold coveredSources at *
  cases heligible : eligibleGroups measured with
  | nil => simp [heligible] at hane
  | cons item items =>
    have hhead (n : ℕ) (hn : (item :: items).take n ≠ []) : item ∈ (item :: items).take n := by
      cases n with
      | zero => simp at hn
      | succ n => simp
    rw [heligible] at hane hbne
    exact ⟨item.id, List.mem_map_of_mem (hhead _ hane), List.mem_map_of_mem (hhead _ hbne)⟩

/-- A coverage without a fault. -/
theorem coverageFault_eq_none (h : coverageFault sources eligible s = none) :
    (∀ c ∈ s.group.coverage, revisionOf sources c.sourceGroupId = some c.sourceRevision) ∧
      s.coveredIds = (eligible.map MeasuredGroup.id).take s.coveredIds.length := by
  unfold coverageFault at h
  split_ifs at h with hrevision _ hprefix
  exact ⟨by simpa using hrevision, not_not.mp hprefix⟩

/-- A measured summary has a coverage. -/
theorem coverage_ne_nil {g : HistorySourceGroup}
    (h : (effectiveCategory g.toGroupFields).1 = .verifiedSummary) : g.coverage ≠ [] := by
  have hcategory : g.category = some .verifiedSummary := by
    unfold effectiveCategory at h
    split at h
    · simp at h
    · next category hc =>
      rw [hc]
      split_ifs at h <;> simp_all
  have hfault : g.summaryFault = none := firstFault_eq_none.mp g.valid _ (by simp)
  simp only [GroupFields.summaryFault, hcategory, if_true] at hfault
  split_ifs at hfault with hbad
  exact fun hnil => hbad (.inr (.inr hnil))

/-- Every measured group is measured from its own fields. -/
def Classified (measured : List MeasuredGroup) : Prop :=
  ∀ item ∈ measured, item.category = (effectiveCategory item.group.toGroupFields).1

/-- **A summary without a fault covers a prefix.** -/
theorem coversPrefix_of_fault (hnodup : (measured.map MeasuredGroup.id).Nodup)
    (hclass : Classified measured) (hs : s ∈ measured) (hcategory : s.category = .verifiedSummary)
    (h : coverageFault (sourceGroups measured) (eligibleGroups measured) s = none) :
    CoversPrefix measured s := by
  obtain ⟨hrevision, hids⟩ := coverageFault_eq_none h
  have hlength : s.coveredIds.length = s.group.coverage.length := by
    simp [MeasuredGroup.coveredIds]
  rw [hlength, ← List.map_take] at hids
  -- Each entry of the coverage is the revision of the source with its id.
  have hpairs : List.Forall₂ (fun c item => c.sourceGroupId = MeasuredGroup.id item)
      s.group.coverage (coveredSources measured s) := Pairing.of_map_eq hids
  have hcoverage : s.coverage =
      (coveredSources measured s).map fun item => (item.id, item.group.revision) := by
    refine Pairing.map_eq_map (fun c item hc => ?_) (Pairing.with_mem hpairs)
    obtain ⟨hid, hmem, hitem⟩ := hc
    have hsource : item ∈ sourceGroups measured := by
      simp [sourceGroups, (coveredSources_sublist measured s).subset hitem,
        category_of_mem_coveredSources hitem]
    have hnodup' : ((sourceGroups measured).map MeasuredGroup.id).Nodup :=
      hnodup.sublist (List.filter_sublist.map _)
    have hrev := hrevision c hmem
    rw [revisionOf, hid, Table.find_of_mem hnodup' hsource, Option.map_some] at hrev
    rw [hid, ← Option.some.inj hrev]
  refine ⟨hcoverage, fun hnil => ?_⟩
  have hnonempty := coverage_ne_nil ((hclass s hs).symm.trans hcategory)
  rw [hnil] at hcoverage
  exact hnonempty (List.map_eq_nil_iff.mp hcoverage)

/-- What a covering summary replaces. -/
theorem sum_tokensOf_covered (hnodup : (measured.map MeasuredGroup.id).Nodup)
    (h : CoversPrefix measured s) :
    (s.coveredIds.dedup.map (tokensOf measured)).sum = tokenSum (coveredSources measured s) := by
  have hsub := coveredSources_sublist measured s
  rw [h.coveredIds, (hnodup.sublist (hsub.map _)).dedup, List.map_map, tokenSum]
  refine congrArg List.sum (List.map_congr_left fun item hitem => ?_)
  simp [tokensOf, Table.find_of_mem hnodup (hsub.subset hitem)]

/-! ## The summary a plan retains -/

/-- The verifier accepts the summary. -/
def Accepted (o : PlanOptions) (s : MeasuredGroup) : Prop :=
  ∃ verifier ∈ o.summaryVerifier, verifier s.group o.scope = .ok true

theorem summaryFault_eq_none (h : summaryFault o sources eligible s = .ok none) :
    Accepted o s ∧ coverageFault sources eligible s = none := by
  unfold summaryFault at h
  split at h
  · simp at h
  · next verifier hverifier =>
    obtain ⟨accepted, haccepted, h⟩ := bind_eq_ok.mp h
    have hfault := Except.ok.inj h
    cases accepted with
    | false => simp at hfault
    | true => exact ⟨⟨verifier, hverifier, haccepted⟩, by simpa using hfault⟩

/-- The summary stands for the sources it covers, for fewer tokens. -/
structure Replaces (o : PlanOptions) (measured : List MeasuredGroup) (s : MeasuredGroup) :
    Prop where
  mem : s ∈ ofCategory .verifiedSummary measured
  accepted : Accepted o s
  covers : CoversPrefix measured s
  cheaper : s.tokens < tokenSum (coveredSources measured s)

/-- The summary phase retains the summary `kept` alone, if any. -/
structure KeepsSummary (o : PlanOptions) (measured : List MeasuredGroup) (remaining : ℕ)
    (p : SummaryPhase) (kept : Option MeasuredGroup) : Prop where
  replaces : ∀ s ∈ kept, Replaces o measured s
  spent : p.remaining + tokenSum kept.toList = remaining
  covered : ∀ id, id ∈ p.coveredIds ↔ ∃ s ∈ kept, ∃ item ∈ coveredSources measured s, item.id = id
  retained : p.decisions.filter SourceGroupDecision.retained =
    kept.toList.map fun s => sourceDecision s true .retainedVerifiedSummary

theorem RetainsNone.keepsSummary {p : SummaryPhase} (h : RetainsNone [] remaining p) :
    KeepsSummary o measured remaining p none where
  replaces := by simp
  spent := by simp [h.remaining]
  covered := by simp [h.covered]
  retained := List.filter_eq_nil_iff.mpr fun d hd => by simp [h.dropped d hd]

/-- **At most one summary is retained**, and it replaces what it covers. -/
theorem chooseSummaries_cases (hnodup : (measured.map MeasuredGroup.id).Nodup)
    (hclass : Classified measured) (hsummaries : validateSummaries o measured = .ok summaries)
    (preTrimPressure : PlanPressure) (remaining : ℕ) :
    ∃ kept, KeepsSummary o measured remaining
      (chooseSummaries measured preTrimPressure summaries remaining) kept := by
  obtain ⟨hmem, hfaults⟩ := validateSummaries_eq_ok hsummaries
  have hvalid {s : MeasuredGroup} (hs : (s, none) ∈ summaries) :
      s ∈ ofCategory .verifiedSummary measured ∧ Accepted o s ∧ CoversPrefix measured s := by
    have hsmem : s ∈ ofCategory .verifiedSummary measured := hmem ▸ List.mem_map_of_mem hs
    obtain ⟨haccepted, hcoverage⟩ := summaryFault_eq_none (hfaults _ hs)
    obtain ⟨hin, hcategory⟩ := List.mem_filter.mp hsmem
    exact ⟨hsmem, haccepted,
      coversPrefix_of_fault hnodup hclass hin (of_decide_eq_true hcategory) hcoverage⟩
  unfold chooseSummaries
  split_ifs
  · have hsort (s : MeasuredGroup) :
        (s, none) ∈ sortBy (fun s => summaryKey measured s.1) summaries → (s, none) ∈ summaries :=
      (sortBy_perm _ summaries).mem_iff.mp
    have hoverlap : Overlap (sortBy (fun s => summaryKey measured s.1) summaries) :=
      fun a b ha hb => (hvalid (hsort a ha)).2.2.overlap (hvalid (hsort b hb)).2.2
    rcases fillSummaries_cases hoverlap remaining with hnone | ⟨s, hs⟩
    · exact ⟨none, hnone.keepsSummary⟩
    · obtain ⟨hsmem, haccepted, hcovers⟩ := hvalid (hsort s hs.valid)
      refine ⟨some s, ?_, ?_, ?_, hs.retained⟩
      · rintro _ ⟨⟩
        exact ⟨hsmem, haccepted, hcovers, sum_tokensOf_covered hnodup hcovers ▸ hs.cheaper⟩
      · have := hs.fits
        simp only [hs.remaining, Option.toList_some, tokenSum_cons, tokenSum_nil]
        omega
      · simp [hs.covered, hcovers.coveredIds]
  · refine ⟨none, RetainsNone.keepsSummary ⟨rfl, rfl, fun d hd => ?_⟩⟩
    obtain ⟨s, -, rfl⟩ := List.mem_map.mp hd
    rfl

/-! ## Decisions by category -/

/-- The decisions about groups of one category. -/
theorem filter_category {ds : List SourceGroupDecision} (h : List.Forall₂ Decides items ds)
    (hcategory : ∀ item ∈ items, item.category = category) (c : HistoryCategory) :
    (ds.filter fun d => d.category = c) = if category = c then ds else [] := by
  have hds : ∀ d ∈ ds, d.category = category := by
    intro d hd
    obtain ⟨item, hitem, hdecides⟩ := Pairing.exists_left h hd
    rw [hdecides.category, hcategory item hitem]
  split_ifs with hc
  · exact List.filter_eq_self.mpr fun d hd => by simp [hds d hd, hc]
  · exact List.filter_eq_nil_iff.mpr fun d hd => by simp [hds d hd, hc]

theorem category_of_mem_ofCategory (h : item ∈ ofCategory category measured) :
    item.category = category := by
  simpa using (List.mem_filter.mp h).2

theorem category_of_mem_newestFirst (h : item ∈ newestFirst (ofCategory category measured)) :
    item.category = category :=
  category_of_mem_ofCategory ((newestFirst_perm _).mem_iff.mp h)

theorem fillSummaries_reason {tokensOf : Text → ℕ} {coveredIds : List Text}
    (hd : d ∈ (fillSummaries tokensOf coveredIds remaining summaries).decisions) :
    d.reason ≠ .droppedCoveredBySummary := by
  induction summaries generalizing coveredIds remaining with
  | nil => simp [fillSummaries] at hd
  | cons s summaries ih =>
    obtain ⟨item, invalidReason⟩ := s
    unfold fillSummaries at hd
    dsimp only at hd
    split_ifs at hd
    all_goals
      rcases List.mem_cons.mp hd with rfl | hd
      · simp [sourceDecision]
      · exact ih hd

theorem chooseSummaries_reason {preTrimPressure : PlanPressure}
    (hd : d ∈ (chooseSummaries measured preTrimPressure summaries remaining).decisions) :
    d.reason ≠ .droppedCoveredBySummary := by
  unfold chooseSummaries at hd
  split_ifs at hd
  · exact fillSummaries_reason hd
  · obtain ⟨s, -, rfl⟩ := List.mem_map.mp hd
    simp [sourceDecision]

theorem fillKeepExact_reason (hd : d ∈ (fillKeepExact remaining items).decisions) :
    d.reason ≠ .droppedCoveredBySummary := by
  obtain ⟨item, -, h⟩ := Pairing.exists_left (fillGroups_decision remaining items) hd
  rcases h with rfl | rfl <;> simp [sourceDecision]

end AgentHub.History

import AgentHub.History.Planner
import AgentHub.Lib.Fitting

/-!
# The phases of a plan

What each loop of the planner decides. Every loop decides each of its groups once and pays for what
it retains out of the budget it is given; where everything fits, everything is retained.

## Main definitions

* `Decides`: a decision is about a group
* `Shares`: a loop decides its groups and pays for what it retains

## Main results

* `fillGroups_shares`, `fillRecent_shares`, `fillSummaries_shares`: the loops
* `fillGroups_of_fits`, `fillRecent_of_fits`: where everything fits
* `fillSummaries_cases`: of summaries that overlap at most one is retained
-/

namespace AgentHub.History

open Lib Context

/-! ## Decisions about groups -/

/-- The decision is about the group. -/
def Decides (item : MeasuredGroup) (d : SourceGroupDecision) : Prop :=
  d = sourceDecision item d.retained d.reason d.coveredBySummaryId

namespace Decides

variable {item : MeasuredGroup} {d : SourceGroupDecision}

theorem mk (retained : Bool) (reason : DecisionReason) (summaryId : Option Text) :
    Decides item (sourceDecision item retained reason summaryId) := rfl

theorem groupId (h : Decides item d) : d.groupId = item.id := by rw [h]; rfl

theorem tokens (h : Decides item d) : d.tokens = item.tokens := by rw [h]; rfl

theorem category (h : Decides item d) : d.category = item.category := by rw [h]; rfl

theorem sequence (h : Decides item d) : d.sequence = item.group.sequence := by rw [h]; rfl

end Decides

@[simp] theorem retainedTokens_nil : retainedTokens [] = 0 := rfl

@[simp] theorem retainedTokens_cons (d : SourceGroupDecision) (ds : List SourceGroupDecision) :
    retainedTokens (d :: ds) = (if d.retained then d.tokens else 0) + retainedTokens ds := by
  cases h : d.retained <;> simp [retainedTokens, h]

@[simp] theorem retainedTokens_append (ds es : List SourceGroupDecision) :
    retainedTokens (ds ++ es) = retainedTokens ds + retainedTokens es := by
  simp [retainedTokens]

variable {ds : List SourceGroupDecision} {items : List MeasuredGroup} {remaining : ℕ}

theorem retainedTokens_perm {es : List SourceGroupDecision} (h : ds.Perm es) :
    retainedTokens ds = retainedTokens es :=
  ((h.filter _).map _).sum_eq

@[simp] theorem tokenSum_nil : tokenSum [] = 0 := rfl

@[simp] theorem tokenSum_cons (item : MeasuredGroup) (items : List MeasuredGroup) :
    tokenSum (item :: items) = item.tokens + tokenSum items := rfl

@[simp] theorem tokenSum_append (items items' : List MeasuredGroup) :
    tokenSum (items ++ items') = tokenSum items + tokenSum items' := by
  simp [tokenSum]

theorem tokenSum_perm {items' : List MeasuredGroup} (h : items.Perm items') :
    tokenSum items = tokenSum items' :=
  (h.map _).sum_eq

theorem mem_selectedIds {id : Text} :
    id ∈ selectedIds ds ↔ ∃ d ∈ ds, d.retained ∧ d.groupId = id := by
  simp [selectedIds, and_assoc]

theorem retainedTokens_of_all (h : List.Forall₂ Decides items ds) (hall : ∀ d ∈ ds, d.retained) :
    retainedTokens ds = tokenSum items := by
  rw [retainedTokens, List.filter_eq_self.mpr hall]
  exact congrArg List.sum (Pairing.map_eq_map (fun _ _ hd => hd.tokens.symm) h).symm

/-- Groups that are all retained for one reason. -/
theorem decides_map (items : List MeasuredGroup) (reason : DecisionReason) :
    List.Forall₂ Decides items (items.map fun item => sourceDecision item true reason) :=
  List.forall₂_map_right_iff.mpr (List.forall₂_same.mpr fun _ _ => .mk _ _ _)

theorem retainedTokens_retained (items : List MeasuredGroup) (reason : DecisionReason) :
    retainedTokens (items.map fun item => sourceDecision item true reason) = tokenSum items :=
  retainedTokens_of_all (decides_map items reason) (by simp [sourceDecision])

/-! ## Sharing a budget -/

/-- A loop decides each of its groups, and pays for what it retains out of its budget. -/
structure Shares (items : List MeasuredGroup) (budget : ℕ) (p : Phase) : Prop where
  decided : List.Forall₂ Decides items p.decisions
  spent : retainedTokens p.decisions + p.remaining = budget

namespace Shares

variable {items' : List MeasuredGroup} {budget : ℕ} {p q : Phase}

theorem nil (budget : ℕ) : Shares [] budget ⟨[], budget⟩ := ⟨.nil, Nat.zero_add budget⟩

theorem retain {item : MeasuredGroup} (hfits : item.tokens ≤ budget)
    (h : Shares items (budget - item.tokens) p) (reason : DecisionReason) :
    Shares (item :: items) budget (p.after (sourceDecision item true reason)) := by
  refine ⟨.cons (.mk _ _ _) h.decided, ?_⟩
  have := h.spent
  simp only [Phase.after, retainedTokens_cons, sourceDecision, if_true]
  omega

theorem drop {item : MeasuredGroup} (h : Shares items budget p) (reason : DecisionReason)
    (summaryId : Option Text) :
    Shares (item :: items) budget (p.after (sourceDecision item false reason summaryId)) := by
  refine ⟨.cons (.mk _ _ _) h.decided, ?_⟩
  simpa [Phase.after, sourceDecision] using h.spent

/-- One loop after the other. -/
theorem append (hp : Shares items budget p) (hq : Shares items' p.remaining q) :
    Shares (items ++ items') budget ⟨p.decisions ++ q.decisions, q.remaining⟩ := by
  refine ⟨List.rel_append hp.decided hq.decided, ?_⟩
  rw [retainedTokens_append, ← hp.spent, ← hq.spent]
  exact Nat.add_assoc _ _ _

end Shares

/-! ## The loop that retains what fits -/

section FillGroups

variable {kept : DecisionReason} {coveredBy : MeasuredGroup → Option (Option Text)}

theorem fillGroups_shares (remaining : ℕ) (items : List MeasuredGroup) :
    Shares items remaining (fillGroups kept coveredBy remaining items) := by
  induction items generalizing remaining with
  | nil => exact .nil remaining
  | cons item items ih =>
    unfold fillGroups
    split
    · exact (ih remaining).drop _ _
    · split_ifs with hfits
      · exact (ih _).retain hfits _
      · exact (ih remaining).drop _ _

/-- What the loop may decide about a group. -/
def FillDecision (kept : DecisionReason) (coveredBy : MeasuredGroup → Option (Option Text))
    (item : MeasuredGroup) (d : SourceGroupDecision) : Prop :=
  match coveredBy item with
  | some summaryId => d = sourceDecision item false .droppedCoveredBySummary summaryId
  | none => d = sourceDecision item true kept ∨ d = sourceDecision item false .droppedSharedBudget

theorem fillGroups_decision (remaining : ℕ) (items : List MeasuredGroup) :
    List.Forall₂ (FillDecision kept coveredBy) items
      (fillGroups kept coveredBy remaining items).decisions := by
  induction items generalizing remaining with
  | nil => exact .nil
  | cons item items ih =>
    unfold fillGroups
    split
    · next summaryId h => exact .cons (by simp [FillDecision, h]) (ih remaining)
    · next h =>
      split_ifs
      · exact .cons (by simp [FillDecision, h]) (ih _)
      · exact .cons (by simp [FillDecision, h]) (ih remaining)

theorem fillGroups_append (remaining : ℕ) (items items' : List MeasuredGroup) :
    let p := fillGroups kept coveredBy remaining items
    let q := fillGroups kept coveredBy p.remaining items'
    fillGroups kept coveredBy remaining (items ++ items') =
      ⟨p.decisions ++ q.decisions, q.remaining⟩ := by
  induction items generalizing remaining with
  | nil => rfl
  | cons item items ih =>
    dsimp only at ih ⊢
    cases hcov : coveredBy item with
    | some summaryId => simp only [List.cons_append, fillGroups, hcov, ih, Phase.after]
    | none =>
      by_cases hfits : item.tokens ≤ remaining
      · simp only [List.cons_append, fillGroups, hcov, if_pos hfits, ih, Phase.after]
      · simp only [List.cons_append, fillGroups, hcov, if_neg hfits, ih, Phase.after]

/-- The decision about a group where everything fits. -/
def fitted (kept : DecisionReason) (coveredBy : MeasuredGroup → Option (Option Text))
    (item : MeasuredGroup) : SourceGroupDecision :=
  match coveredBy item with
  | some summaryId => sourceDecision item false .droppedCoveredBySummary summaryId
  | none => sourceDecision item true kept

/-- **Where everything that is not covered fits, it is retained.** -/
theorem fillGroups_of_fits
    (h : tokenSum (items.filter fun item => coveredBy item = none) ≤ remaining) :
    fillGroups kept coveredBy remaining items =
      ⟨items.map (fitted kept coveredBy),
        remaining - tokenSum (items.filter fun item => coveredBy item = none)⟩ := by
  induction items generalizing remaining with
  | nil => rfl
  | cons item items ih =>
    unfold fillGroups
    split
    · next summaryId hcov =>
      rw [List.filter_cons_of_neg (by simp [hcov])] at h ⊢
      rw [ih h]
      simp [Phase.after, fitted, hcov]
    · next hcov =>
      rw [List.filter_cons_of_pos (by simp [hcov])] at h ⊢
      rw [tokenSum_cons] at h ⊢
      rw [if_pos (by omega), ih (by omega)]
      simp [Phase.after, fitted, hcov, Nat.sub_sub]

/-- Where nothing is covered and everything fits, it is retained. -/
theorem fillGroups_none_of_fits (h : tokenSum items ≤ remaining) :
    fillGroups kept (fun _ => none) remaining items =
      ⟨items.map fun item => sourceDecision item true kept, remaining - tokenSum items⟩ := by
  have hall : (items.filter fun item =>
      (fun _ => none : MeasuredGroup → Option (Option Text)) item = none) = items := by simp
  rw [fillGroups_of_fits (hall.symm ▸ h), hall]
  rfl

/-- What the loop retains where nothing is covered. -/
theorem fillGroups_retained (remaining : ℕ) (items : List MeasuredGroup) :
    (fillGroups kept (fun _ => none) remaining items).decisions.filter
        SourceGroupDecision.retained =
      (fill MeasuredGroup.tokens remaining items).map fun item => sourceDecision item true kept := by
  induction items generalizing remaining with
  | nil => rfl
  | cons item items ih =>
    unfold fillGroups fill
    dsimp only
    split_ifs
    · simp [Phase.after, sourceDecision, ih]
    · simp [Phase.after, sourceDecision, ih]

end FillGroups

/-! ## The other loops -/

theorem fillMandatory_eq (h : tokenSum items ≤ remaining) :
    fillMandatory remaining items =
      ⟨items.map fun item => sourceDecision item true .retainedMandatory,
        remaining - tokenSum items⟩ := by
  induction items generalizing remaining with
  | nil => rfl
  | cons item items ih =>
    rw [tokenSum_cons] at h ⊢
    rw [fillMandatory, ih (by omega)]
    simp [Phase.after, Nat.sub_sub]

theorem fillRecent_shares (recentSuffixOpen : Bool) (remaining : ℕ) (items : List MeasuredGroup) :
    Shares items remaining (fillRecent recentSuffixOpen remaining items) := by
  induction items generalizing recentSuffixOpen remaining with
  | nil => exact .nil remaining
  | cons item items ih =>
    unfold fillRecent
    split_ifs with h
    · exact (ih true _).retain h.2 _
    · exact (ih false remaining).drop _ _

theorem fillRecent_reason {recentSuffixOpen : Bool} {d : SourceGroupDecision}
    (hd : d ∈ (fillRecent recentSuffixOpen remaining items).decisions) :
    d.reason = .retainedRecent ∨ d.reason = .droppedRecentSuffixGap := by
  induction items generalizing recentSuffixOpen remaining with
  | nil => simp [fillRecent] at hd
  | cons item items ih =>
    unfold fillRecent at hd
    split_ifs at hd
    · rcases List.mem_cons.mp hd with rfl | hd
      · exact .inl rfl
      · exact ih hd
    · rcases List.mem_cons.mp hd with rfl | hd
      · exact .inr rfl
      · exact ih hd

/-- Where the recent groups fit, they are retained. -/
theorem fillRecent_of_fits (h : tokenSum items ≤ remaining) :
    fillRecent true remaining items =
      ⟨items.map fun item => sourceDecision item true .retainedRecent,
        remaining - tokenSum items⟩ := by
  induction items generalizing remaining with
  | nil => rfl
  | cons item items ih =>
    rw [tokenSum_cons] at h ⊢
    unfold fillRecent
    rw [if_pos ⟨rfl, by omega⟩, ih (by omega)]
    simp [Phase.after, Nat.sub_sub]

/-! ## Summaries -/

section FillSummaries

variable {tokensOf : Text → ℕ}

theorem fillSummaries_shares (coveredIds : List Text) (remaining : ℕ)
    (summaries : List (MeasuredGroup × Option String)) :
    Shares (summaries.map Prod.fst) remaining
      (fillSummaries tokensOf coveredIds remaining summaries).toPhase := by
  induction summaries generalizing coveredIds remaining with
  | nil => exact .nil remaining
  | cons s summaries ih =>
    obtain ⟨item, invalidReason⟩ := s
    unfold fillSummaries
    dsimp only
    split_ifs with _ _ _ hfits
    · exact (ih coveredIds remaining).drop _ _
    · exact (ih coveredIds remaining).drop _ _
    · exact (ih coveredIds remaining).drop _ _
    · exact (ih _ _).retain hfits _
    · exact (ih coveredIds remaining).drop _ _

/-- Valid summaries cover a common source. -/
def Overlap (summaries : List (MeasuredGroup × Option String)) : Prop :=
  ∀ a b, (a, none) ∈ summaries → (b, none) ∈ summaries → ∃ id, id ∈ a.coveredIds ∧ id ∈ b.coveredIds

variable {summaries : List (MeasuredGroup × Option String)} {coveredIds : List Text}
  {d : SourceGroupDecision} {p : SummaryPhase}

theorem Overlap.tail {s : MeasuredGroup × Option String} (h : Overlap (s :: summaries)) :
    Overlap summaries :=
  fun a b ha hb => h a b (List.mem_cons_of_mem s ha) (List.mem_cons_of_mem s hb)

/-- The loop retains none of the summaries. -/
structure RetainsNone (coveredIds : List Text) (remaining : ℕ) (p : SummaryPhase) : Prop where
  covered : p.coveredIds = coveredIds
  remaining : p.remaining = remaining
  dropped : ∀ d ∈ p.decisions, d.retained = false

theorem RetainsNone.after (h : RetainsNone coveredIds remaining p) (hd : d.retained = false) :
    RetainsNone coveredIds remaining (p.after d) :=
  ⟨h.covered, h.remaining, List.forall_mem_cons.mpr ⟨hd, h.dropped⟩⟩

/-- Once every valid summary overlaps what is covered, none is retained. -/
theorem fillSummaries_none (h : ∀ a, (a, none) ∈ summaries → ∃ id ∈ a.coveredIds, id ∈ coveredIds)
    (remaining : ℕ) :
    RetainsNone coveredIds remaining (fillSummaries tokensOf coveredIds remaining summaries) := by
  induction summaries with
  | nil => exact ⟨rfl, rfl, by simp [fillSummaries]⟩
  | cons s summaries ih =>
    obtain ⟨item, invalidReason⟩ := s
    have hrest := ih fun a ha => h a (List.mem_cons_of_mem _ ha)
    unfold fillSummaries
    dsimp only
    split_ifs with hvalid hover
    · exact hrest.after rfl
    · exact hrest.after rfl
    all_goals
      exfalso
      obtain rfl : invalidReason = none := by simpa using hvalid
      obtain ⟨id, hid, hcov⟩ := h item List.mem_cons_self
      exact hover (List.any_eq_true.mpr ⟨id, List.mem_dedup.mpr hid, by simpa using hcov⟩)

/-- The loop retains one valid summary, which is cheaper than what it covers. -/
structure RetainsOne (tokensOf : Text → ℕ) (summaries : List (MeasuredGroup × Option String))
    (remaining : ℕ) (p : SummaryPhase) (item : MeasuredGroup) : Prop where
  valid : (item, none) ∈ summaries
  cheaper : item.tokens < (item.coveredIds.dedup.map tokensOf).sum
  fits : item.tokens ≤ remaining
  covered : p.coveredIds = item.coveredIds.dedup
  remaining : p.remaining = remaining - item.tokens
  retained : p.decisions.filter SourceGroupDecision.retained =
    [sourceDecision item true .retainedVerifiedSummary]

theorem RetainsOne.after {item : MeasuredGroup}
    (h : RetainsOne tokensOf summaries remaining p item) (s : MeasuredGroup × Option String)
    (hd : d.retained = false) :
    RetainsOne tokensOf (s :: summaries) remaining (p.after d) item where
  valid := List.mem_cons_of_mem s h.valid
  cheaper := h.cheaper
  fits := h.fits
  covered := h.covered
  remaining := h.remaining
  retained := by simp [SummaryPhase.after, hd, h.retained]

/-- **Of summaries that overlap at most one is retained.** -/
theorem fillSummaries_cases (h : Overlap summaries) (remaining : ℕ) :
    RetainsNone [] remaining (fillSummaries tokensOf [] remaining summaries) ∨
      ∃ item, RetainsOne tokensOf summaries remaining
        (fillSummaries tokensOf [] remaining summaries) item := by
  induction summaries with
  | nil => exact .inl ⟨rfl, rfl, by simp [fillSummaries]⟩
  | cons s summaries ih =>
    obtain ⟨item, invalidReason⟩ := s
    -- A summary that is dropped leaves the loop as it was.
    have hdrop (d : SourceGroupDecision) (hd : d.retained = false) :
        RetainsNone [] remaining ((fillSummaries tokensOf [] remaining summaries).after d) ∨
          ∃ a, RetainsOne tokensOf ((item, invalidReason) :: summaries) remaining
            ((fillSummaries tokensOf [] remaining summaries).after d) a :=
      (ih h.tail).imp (fun hnone => hnone.after hd) fun ⟨a, ha⟩ => ⟨a, ha.after _ hd⟩
    unfold fillSummaries
    dsimp only
    split_ifs with hvalid _ hcheap hfits
    · exact hdrop _ rfl
    · exact hdrop _ rfl
    · exact hdrop _ rfl
    · right
      obtain rfl : invalidReason = none := by simpa using hvalid
      have hrest : RetainsNone ([] ++ item.coveredIds.dedup) (remaining - item.tokens)
          (fillSummaries tokensOf ([] ++ item.coveredIds.dedup) (remaining - item.tokens)
            summaries) := by
        refine fillSummaries_none (fun a ha => ?_) _
        obtain ⟨id, hid, hitem⟩ := h a item (List.mem_cons_of_mem _ ha) List.mem_cons_self
        exact ⟨id, hid, by simpa using hitem⟩
      refine ⟨item, List.mem_cons_self, not_le.mp hcheap, hfits, hrest.covered, hrest.remaining, ?_⟩
      rw [SummaryPhase.after, List.filter_cons_of_pos rfl,
        List.filter_eq_nil_iff.mpr fun d hd => by simp [hrest.dropped d hd]]
    · exact hdrop _ rfl

end FillSummaries

end AgentHub.History

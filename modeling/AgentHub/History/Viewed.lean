import AgentHub.History.Safety
import AgentHub.History.View

/-!
# What a view is made from

The groups of a view, with the identities, sequences and categories they have; a view that can be
sent comes from a plan that is ready and drops no optional source of the thread.

## Main definitions

* `TurnGroup`: the group of a turn
* `Views`: the steps of a view that is returned

## Main results

* `turnEntries_eq_ok`: the groups of the turns, in the order of the manifest
* `planHistoryView_eq_ok`: a view that is returned, by its steps
* `Views.turn_retained`: a view that can be sent retains every turn
-/

namespace AgentHub.History

open Lib Context Transcript

/-! ## Entries -/

variable {messages : List Message} {scope : HistoryScope} {watermark : ℕ} {r : ViewRequest}
  {manifest : SourceManifest} {frozen : ContextPolicy} {policy : ContextBudgetPolicy}

theorem addEntry_eq_ok {sequence tokens : ℕ} {groupId revision : Text} {c : Classification}
    {entry : Entry} :
    addEntry scope watermark groupId sequence revision tokens c = .ok entry ↔
      entry.group.toGroupFields = entryFields scope watermark groupId sequence revision c ∧
        entry.tokens = tokens := by
  simp only [addEntry, bind_eq_ok, HistorySourceGroup.new_eq_ok]
  constructor
  · rintro ⟨group, hgroup, h⟩
    obtain rfl := Except.ok.inj h
    exact ⟨hgroup, rfl⟩
  · rintro ⟨hgroup, rfl⟩
    exact ⟨entry.group, hgroup, rfl⟩

/-- The categories a turn can have: a turn that may be dropped is eligible for a summary. -/
def Classification.IsTurn (c : Classification) : Prop :=
  c.category = .recent ∨ c.category = .keepExact ∨
    c.category = .optional ∧ c.eligibility = .eligible

/-- A turn is planned in its category: an optional one is known to be eligible. -/
theorem Classification.IsTurn.effectiveCategory_eq {c : Classification} (h : c.IsTurn)
    (scope : HistoryScope) (watermark : ℕ) (groupId : Text) (sequence : ℕ) (revision : Text) :
    (effectiveCategory (entryFields scope watermark groupId sequence revision c)).1 =
      c.category := by
  rcases h with hc | hc | ⟨hc, heligible⟩
  · simp only [effectiveCategory, entryFields, hc]
    split_ifs <;> simp_all
  · simp only [effectiveCategory, entryFields, hc]
    split_ifs <;> simp_all
  · simp [effectiveCategory, entryFields, hc, heligible]

theorem isTurn_classifySource (usePrefix isRecent : Bool) (state : PrefixState)
    (source : HistorySource) (turn : ThreadTurnContext) (tokens : ℕ) :
    (classifySource usePrefix isRecent state source turn tokens).1.IsTurn := by
  unfold classifySource Classification.IsTurn
  split_ifs
  · simp
  · simp
  · simp
  · simp
  · split <;> simp

section Turns

/-- The group of a turn: its source, the messages it is replayed with and their tokens. -/
structure TurnGroup (policy : ContextBudgetPolicy) (scope : HistoryScope) (watermark : ℕ)
    (source : HistorySource) (turn : ThreadTurnContext) (e : TurnEntry) : Prop where
  source_eq : e.source = source
  identity : turn.turnId = some source.turnId
  messages : turnMessages source turn = .ok e.pair
  tokens : ∃ estimates, e.pair.mapM (estimateMessage policy) = .ok estimates ∧
    e.tokens = estimates.sum
  fields : ∃ c : Classification, c.IsTurn ∧ e.group.toGroupFields =
    entryFields scope watermark source.sourceId source.sequence source.revisionSha256 c

variable {state state' : PrefixState}

theorem turnEntry_eq_ok {usePrefix isRecent : Bool} {source : HistorySource}
    {turn : ThreadTurnContext} {e : TurnEntry}
    (h : turnEntry policy scope watermark usePrefix isRecent state source turn = .ok (e, state')) :
    TurnGroup policy scope watermark source turn e := by
  obtain ⟨⟨⟩, hidentity, h⟩ := bind_eq_ok.mp h
  obtain ⟨pair, hpair, h⟩ := bind_eq_ok.mp h
  obtain ⟨estimates, hestimates, h⟩ := bind_eq_ok.mp h
  obtain ⟨entry, hentry, h⟩ := bind_eq_ok.mp h
  obtain ⟨rfl, -⟩ := ok_pair_inj h
  obtain ⟨hfields, htokens⟩ := addEntry_eq_ok.mp hentry
  simp only [raiseIf_eq_ok, not_or, not_not] at hidentity
  exact ⟨rfl, hidentity.1, hpair, ⟨estimates, raising_eq_ok.mp hestimates, htokens⟩,
    _, isTurn_classifySource _ _ _ _ _ _, hfields⟩

/-- **The groups of the turns**, in the order of the manifest. -/
theorem turnEntries_eq_ok {usePrefix : Bool} {recentStart index : ℕ}
    {turns : List (HistorySource × ThreadTurnContext)} {entries : List TurnEntry}
    (h : turnEntries policy scope watermark usePrefix recentStart index state turns =
      .ok (entries, state')) :
    List.Forall₂ (fun p e => TurnGroup policy scope watermark p.1 p.2 e) turns entries := by
  induction turns generalizing index state state' entries with
  | nil =>
    obtain ⟨rfl, -⟩ := ok_pair_inj h
    exact .nil
  | cons p turns ih =>
    obtain ⟨⟨e, state₁⟩, hentry, h⟩ := bind_eq_ok.mp h
    obtain ⟨⟨rest, state₂⟩, hrest, h⟩ := bind_eq_ok.mp h
    obtain ⟨rfl, -⟩ := ok_pair_inj h
    exact .cons (turnEntry_eq_ok hentry) (ih hrest)

end Turns

/-! ## The steps of a view -/

/-- The steps of a view up to its plan. -/
structure Views (r : ViewRequest) (manifest : SourceManifest) (frozen : ContextPolicy)
    (scope : HistoryScope) (entries : ViewEntries) (plan : HistoryPlan) : Prop where
  checked : checkView r = .ok (manifest, frozen)
  scope_eq : HistoryScope.new
    ⟨manifest.workspaceId.text, manifest.threadId.text, r.permissionSnapshot⟩ = .ok scope
  entered : viewEntries r manifest frozen scope = .ok entries
  planned : planHistory (viewOptions frozen scope manifest.beforeSequence entries.all)
    (entries.all.map Entry.group) = .ok plan

theorem checkView_eq_ok (h : checkView r = .ok (manifest, frozen)) :
    r.conversation.sourceManifest = some manifest ∧
      manifest.selectedSources.length = r.conversation.turns.length ∧
      r.policy.contextPolicy = some frozen := by
  unfold checkView at h
  split at h
  · simp at h
  · next m hmanifest =>
    simp only [bind_eq_ok, raiseIf_eq_ok, exists_const, not_not] at h
    obtain ⟨-, -, hlengths, h⟩ := h
    split at h
    · simp at h
    · next f hfrozen =>
      obtain ⟨rfl, rfl⟩ := ok_pair_inj h
      exact ⟨hmanifest, hlengths, hfrozen⟩

/-- A plan stays ready where no optional source is dropped without a summary. -/
theorem blockUncovered_ready {plan : HistoryPlan}
    (h : (blockUncoveredOptionalHistoryDrops plan).readyForDispatch = true) :
    blockUncoveredOptionalHistoryDrops plan = plan ∧ plan.readyForDispatch = true ∧
      ∀ d ∈ plan.decisions, isUncovered ((plan.decisions.filter fun d =>
        d.category = .verifiedSummary ∧ d.retained).map SourceGroupDecision.groupId) d = false := by
  unfold blockUncoveredOptionalHistoryDrops at h ⊢
  dsimp only at h ⊢
  split_ifs at h ⊢ with huncovered
  exact ⟨rfl, h, by simpa using huncovered⟩

/-- **A view that can be sent**, by its steps. -/
theorem planHistoryView_eq_ok {view : PlannedHistory} :
    planHistoryView r = .ok view ∧ view.plan.readyForDispatch = true ↔
      ∃ manifest frozen scope entries plan, Views r manifest frozen scope entries plan ∧
        (blockUncoveredOptionalHistoryDrops plan).readyForDispatch = true ∧
        view = sendable r entries plan := by
  constructor
  · rintro ⟨h, hready⟩
    obtain ⟨⟨manifest, frozen⟩, hcheck, h⟩ := bind_eq_ok.mp h
    obtain ⟨scope, hscope, h⟩ := bind_eq_ok.mp h
    obtain ⟨entries, hentries, h⟩ := bind_eq_ok.mp h
    obtain ⟨plan, hplan, h⟩ := bind_eq_ok.mp h
    refine ⟨manifest, frozen, scope, entries, plan, ⟨hcheck, hscope, hentries, hplan⟩, ?_⟩
    dsimp only at h
    split_ifs at h with hsend
    · obtain rfl := Except.ok.inj h
      exact ⟨hsend, by rw [(blockUncovered_ready hsend).1]⟩
    · obtain rfl := Except.ok.inj h
      exact absurd hready hsend
  · rintro ⟨manifest, frozen, scope, entries, plan, h, hready, rfl⟩
    obtain ⟨hsame, hplanReady, -⟩ := blockUncovered_ready hready
    refine ⟨?_, hplanReady⟩
    rw [planHistoryView, h.checked]
    dsimp only [ok_bind]
    rw [h.scope_eq, ok_bind, h.entered, ok_bind, h.planned, ok_bind, hsame, if_pos hplanReady]

theorem viewEntries_eq_ok {entries : ViewEntries} :
    viewEntries r manifest frozen scope = .ok entries ↔
      mandatoryEntry r.policy scope manifest.beforeSequence r.mandatoryMessages r.tools =
          .ok entries.mandatory ∧
        memoryEntries r.policy scope manifest.beforeSequence r.memoryMessages =
          .ok entries.memory ∧
        turnEntries r.policy scope manifest.beforeSequence r.usePrefix
            (r.conversation.turns.length - frozen.retainedRecentTurns.getD 2) 0
            { isOpen := r.usePrefix } (manifest.selectedSources.zip r.conversation.turns) =
          .ok (entries.turns, entries.state) := by
  constructor
  · intro h
    obtain ⟨mandatory, hmandatory, h⟩ := bind_eq_ok.mp h
    obtain ⟨memory, hmemory, h⟩ := bind_eq_ok.mp h
    obtain ⟨⟨turns, state⟩, hturns, h⟩ := bind_eq_ok.mp h
    obtain rfl := Except.ok.inj h
    exact ⟨hmandatory, hmemory, hturns⟩
  · rintro ⟨hmandatory, hmemory, hturns⟩
    dsimp only [viewEntries]
    rw [hmandatory, ok_bind, hmemory, ok_bind, hturns, ok_bind]

/-- The group of the request or of a memory message. -/
@[mk_iff]
structure RuntimeGroup (scope : HistoryScope) (watermark : ℕ) (groupId revision : Text)
    (category : HistoryCategory) (tokens : ℕ) (e : Entry) : Prop where
  fields : e.group.toGroupFields =
    entryFields scope watermark groupId 0 revision (runtimeClassification category)
  tokens : e.tokens = tokens

theorem mandatoryEntry_eq_ok {tools : List ModelToolDefinition} {e : Entry} :
    mandatoryEntry policy scope watermark messages tools = .ok e ↔
      ∃ tokens, mandatoryTokens policy messages tools = .ok tokens ∧
        RuntimeGroup scope watermark (Text.ofString "runtime:mandatory")
          (Text.ofString "runtime-v1") .mandatory tokens e := by
  simp only [mandatoryEntry, bind_eq_ok, raising_eq_ok, addEntry_eq_ok, runtimeGroup_iff]

/-- The group of a memory message. -/
def MemoryGroup (policy : ContextBudgetPolicy) (scope : HistoryScope) (watermark : ℕ)
    (message : Message) (index : ℕ) (e : Entry) : Prop :=
  ∃ tokens, estimateMessage policy message = .ok tokens ∧
    RuntimeGroup scope watermark (memoryId index) (Text.ofString "memory-v1") .optional tokens e

theorem memoryEntry_eq_ok {message : Message} {index : ℕ} {e : Entry} :
    memoryEntry policy scope watermark message index = .ok e ↔
      MemoryGroup policy scope watermark message index e := by
  simp only [memoryEntry, bind_eq_ok, raising_eq_ok, addEntry_eq_ok, MemoryGroup, runtimeGroup_iff]

theorem memoryEntries_eq_ok {entries : List Entry} :
    memoryEntries policy scope watermark messages = .ok entries ↔
      List.Forall₂ (fun p e => MemoryGroup policy scope watermark p.1 p.2 e) messages.zipIdx
        entries := by
  simp only [memoryEntries, mapM_eq_ok_iff, memoryEntry_eq_ok]

/-! ## What a view retains -/

namespace Views

variable {entries : ViewEntries} {plan : HistoryPlan}
  (h : Views r manifest frozen scope entries plan)

include h

theorem lengths : manifest.selectedSources.length = r.conversation.turns.length :=
  (checkView_eq_ok h.checked).2.1

theorem turns :
    List.Forall₂ (fun p e => TurnGroup r.policy scope manifest.beforeSequence p.1 p.2 e)
      (manifest.selectedSources.zip r.conversation.turns) entries.turns :=
  turnEntries_eq_ok (viewEntries_eq_ok.mp h.entered).2.2

theorem sources : entries.turns.map TurnEntry.source = manifest.selectedSources := by
  rw [← Pairing.map_eq_map (f := Prod.fst) (fun _ _ he => he.source_eq.symm) h.turns]
  exact List.map_fst_zip h.lengths.le

/-- No group of a view is a summary. -/
theorem category_ne_summary {e : Entry} (he : e ∈ entries.all) :
    ∃ c, e.group.category = some c ∧ c ≠ .verifiedSummary := by
  obtain ⟨hmandatory, hmemory, -⟩ := viewEntries_eq_ok.mp h.entered
  simp only [ViewEntries.all, List.cons_append, List.mem_cons, List.mem_append, List.mem_map] at he
  rcases he with rfl | he | ⟨t, ht, rfl⟩
  · obtain ⟨tokens, -, hgroup⟩ := mandatoryEntry_eq_ok.mp hmandatory
    exact ⟨.mandatory, congrArg GroupFields.category hgroup.fields, by simp⟩
  · obtain ⟨p, -, tokens, -, hgroup⟩ := Pairing.exists_left (memoryEntries_eq_ok.mp hmemory) he
    exact ⟨.optional, congrArg GroupFields.category hgroup.fields, by simp⟩
  · obtain ⟨p, -, ht⟩ := Pairing.exists_left h.turns ht
    obtain ⟨c, hc, hfields⟩ := ht.fields
    refine ⟨c.category, congrArg GroupFields.category hfields, ?_⟩
    rcases hc with hc | hc | ⟨hc, -⟩ <;> simp [hc]

/-- **A view that can be sent retains every turn**: what must be kept because the plan is ready, an
optional turn because its drop would block. -/
theorem turn_retained (hready : (blockUncoveredOptionalHistoryDrops plan).readyForDispatch = true)
    {e : TurnEntry} (he : e ∈ entries.turns) : e.source.sourceId ∈ plan.retainedGroupIds := by
  obtain ⟨-, hplanReady, huncovered⟩ := blockUncovered_ready hready
  obtain ⟨measured, choice, decisions, hplans, rfl⟩ := planHistory_eq_ok.mp h.planned
  obtain ⟨hlimit, -⟩ := historyPlan_ready_iff.mp hplanReady
  obtain ⟨p, -, hturn⟩ := Pairing.exists_left h.turns he
  obtain ⟨c, hc, hfields⟩ := hturn.fields
  have hin : e.group ∈ entries.all.map Entry.group :=
    List.mem_map_of_mem (List.mem_append_right _ (List.mem_map_of_mem he))
  obtain ⟨item, hitem, hmeasures⟩ := hplans.exists_measured hlimit hin
  have hid : item.id = e.source.sourceId := by
    rw [MeasuredGroup.id, hmeasures.group_eq, hturn.source_eq]
    exact congrArg GroupFields.groupId hfields
  rw [← hid, mem_retainedGroupIds (List.mem_map_of_mem hitem)]
  have hcategory : item.category = c.category := by
    rw [hmeasures.category_eq, hfields, hc.effectiveCategory_eq]
  rcases hc with hc | hc | ⟨hc, -⟩
  · exact hplans.retained_of_ready hplanReady hitem (.inr (.inr (hcategory.trans hc)))
  · exact hplans.retained_of_ready hplanReady hitem (.inr (.inl (hcategory.trans hc)))
  · obtain ⟨d, hd, hdecides⟩ := Pairing.exists_right hplans.decided hitem
    refine (hplans.mem_selectedIds_iff hd hdecides).mpr (Bool.not_eq_false _ ▸ fun hdropped => ?_)
    -- There is no summary that could stand for it.
    have hnone :
        (decisions.filter fun d => d.category = .verifiedSummary ∧ d.retained = true) = [] := by
      refine List.filter_eq_nil_iff.mpr fun d hd hsummary => ?_
      obtain ⟨item, hitem, hdecides⟩ := Pairing.exists_left hplans.decided hd
      obtain ⟨g, hg, hmeasures⟩ := Pairing.exists_left hplans.measures hitem
      have hg := (orderGroups_perm _).mem_iff.mp (List.mem_of_mem_take hg)
      obtain ⟨e', he', rfl⟩ := List.mem_map.mp hg
      obtain ⟨c', hc', hne⟩ := h.category_ne_summary he'
      have hcat := (of_decide_eq_true hsummary).1
      rw [hdecides.category, hmeasures.category_eq, effectiveCategory_eq_summary, hc'] at hcat
      exact hne (Option.some.inj hcat)
    have hfalse := huncovered d hd
    have hsequence : 0 < d.sequence := by
      rw [hdecides.sequence, hmeasures.group_eq]
      exact (congrArg GroupFields.sequence hfields).symm ▸ p.1.sequence_pos
    rw [show (historyPlan _ _ measured choice decisions).decisions = decisions from rfl, hnone]
      at hfalse
    simp [isUncovered, hdecides.category, hcategory, hc, hsequence, hdropped] at hfalse

/-- All turns are sent. -/
theorem kept (hready : (blockUncoveredOptionalHistoryDrops plan).readyForDispatch = true) :
    (entries.turns.filter fun e => e.source.sourceId ∈ plan.retainedGroupIds) = entries.turns :=
  List.filter_eq_self.mpr fun _ he => decide_eq_true (h.turn_retained hready he)

end Views

end AgentHub.History

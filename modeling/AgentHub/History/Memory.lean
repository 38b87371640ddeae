import AgentHub.History.Completeness
import AgentHub.History.Substitution

/-!
# Memory beside history

Memory messages are optional groups older than every turn, so the planner fills them after the
history. A request that can be sent without memory keeps its history with memory exactly where the
groups are all measured and the memory that is taken stays below the hard threshold.

## Main definitions

* `AddsOldest`: groups with optional ones added that are older than all of them
* `memoryTaken`: the tokens of the memory messages a plan takes
* `MemoryFits`: when memory leaves a request as it was

## Main results

* `chooseGroups_oldest`: where the sources fit, the oldest groups share what they leave
* `Views.measured_perm`: the measured groups of a view
* `memory_beside_history`: history is sent with memory exactly where the memory fits
-/

namespace AgentHub.History

open Lib Context Transcript

/-! ## Optional groups that are older than the rest -/

/-- Sources without summaries, and optional groups that are older than all of them. -/
structure AddsOldest (sources oldest measured : List MeasuredGroup) : Prop where
  perm : measured.Perm (sources ++ oldest)
  nodup : (measured.map MeasuredGroup.id).Nodup
  noSummary : ∀ item ∈ sources, item.category ≠ .verifiedSummary
  newer : ∀ item ∈ sources, item.category = .optional → 0 < item.group.sequence
  optional : ∀ item ∈ oldest, item.category = .optional
  older : ∀ item ∈ oldest, item.group.sequence = 0

section Oldest

variable {o : PlanOptions} {sources oldest measured : List MeasuredGroup}
  {preTrimPressure : PlanPressure}

theorem nodup_measuredKeys {items : List MeasuredGroup} (h : (items.map MeasuredGroup.id).Nodup) :
    (items.map fun item => OrderDual.toDual item.key).Nodup := by
  have hids : ((items.map MeasuredGroup.group).map fun g => g.groupId).Nodup := by
    rw [List.map_map]
    exact h
  have hkeys := (nodup_keys hids).map OrderDual.toDual.injective
  rwa [List.map_map, List.map_map] at hkeys

theorem chooseSummaries_nil (measured : List MeasuredGroup) (preTrimPressure : PlanPressure)
    (remaining : ℕ) :
    chooseSummaries measured preTrimPressure [] remaining = ⟨⟨[], remaining⟩, []⟩ := by
  unfold chooseSummaries
  split_ifs <;> rfl

namespace AddsOldest

variable (h : AddsOldest sources oldest measured)

include h

theorem ofCategory_perm (category : HistoryCategory) :
    (ofCategory category measured).Perm
      (ofCategory category sources ++ ofCategory category oldest) := by
  rw [ofCategory, ofCategory, ofCategory, ← List.filter_append]
  exact h.perm.filter _

theorem ofCategory_oldest (category : HistoryCategory) :
    ofCategory category oldest = if category = .optional then oldest else [] := by
  split_ifs with hcategory
  · exact List.filter_eq_self.mpr fun item hitem => by simp [h.optional item hitem, hcategory]
  · exact List.filter_eq_nil_iff.mpr fun item hitem => by
      simp [h.optional item hitem, Ne.symm hcategory]

/-- The other categories are as they were. -/
theorem ofCategory_sources {category : HistoryCategory} (hcategory : category ≠ .optional) :
    (ofCategory category measured).Perm (ofCategory category sources) := by
  have hperm := h.ofCategory_perm category
  rwa [h.ofCategory_oldest, if_neg hcategory, List.append_nil] at hperm

theorem optional_perm :
    (ofCategory .optional measured).Perm (ofCategory .optional sources ++ oldest) := by
  have hperm := h.ofCategory_perm .optional
  rwa [h.ofCategory_oldest, if_pos rfl] at hperm

theorem summaries_eq_nil : ofCategory .verifiedSummary measured = [] := by
  refine List.perm_nil.mp ((h.ofCategory_sources (by simp)).trans (List.Perm.of_eq ?_))
  exact List.filter_eq_nil_iff.mpr fun item hitem => by simp [h.noSummary item hitem]

/-- **The oldest groups come last** among the optional ones. -/
theorem newestFirst_optional :
    newestFirst (ofCategory .optional measured) =
      newestFirst (ofCategory .optional sources) ++ newestFirst oldest := by
  have hnodup := nodup_measuredKeys (h.nodup.sublist (List.filter_sublist.map _) :
    ((ofCategory .optional measured).map MeasuredGroup.id).Nodup)
  rw [newestFirst, sortBy_congr hnodup h.optional_perm,
    sortBy_append ((h.optional_perm.map _).nodup_iff.mp hnodup)]
  · rfl
  · intro a ha b hb
    have ha := h.newer a (List.mem_of_mem_filter ha) (category_of_mem_ofCategory ha)
    have hb := h.older b hb
    refine OrderDual.toDual_le_toDual.mpr (le_of_lt (Prod.Lex.toLex_lt_toLex.mpr (.inl ?_)))
    dsimp only
    omega

/-- The tokens of the sources, by category. -/
theorem tokenSum_sources :
    tokenSum sources = tokenSum (ofCategory .mandatory measured) +
      (tokenSum (ofCategory .keepExact measured) + tokenSum (ofCategory .recent measured) +
        tokenSum (ofCategory .optional sources)) := by
  have hsources : sourceGroups sources = sources :=
    List.filter_eq_self.mpr fun item hitem => by simp [h.noSummary item hitem]
  have hsum := tokenSum_sourceGroups sources
  rwa [hsources, ← tokenSum_perm (h.ofCategory_sources (by simp)),
    ← tokenSum_perm (h.ofCategory_sources (by simp)),
    ← tokenSum_perm (h.ofCategory_sources (by simp))] at hsum

/-- The decisions of the phases where the sources fit. -/
theorem choosePhases_eq (preTrimPressure : PlanPressure) {budget : ℕ}
    (hfits : tokenSum (ofCategory .keepExact measured) +
      tokenSum (ofCategory .recent measured) + tokenSum (ofCategory .optional sources) ≤ budget) :
    choosePhases measured preTrimPressure [] budget =
      (newestFirst (ofCategory .keepExact measured)).map
          (fun item => sourceDecision item true .retainedKeepExact) ++
        (newestFirst (ofCategory .recent measured)).map
          (fun item => sourceDecision item true .retainedRecent) ++
        (newestFirst (ofCategory .optional sources)).map
          (fun item => sourceDecision item true .retainedOptional) ++
        (fillGroups .retainedOptional (fun _ => none)
          (budget - (tokenSum (ofCategory .keepExact measured) +
            tokenSum (ofCategory .recent measured) + tokenSum (ofCategory .optional sources)))
          (newestFirst oldest)).decisions := by
  have hoptional := tokenSum_newestFirst (ofCategory .optional sources)
  rw [choosePhases_of_recent_fits preTrimPressure [] (by omega), chooseSummaries_nil,
    chooseOptional_of_uncovered rfl, h.newestFirst_optional, fillGroups_append,
    fillGroups_none_of_fits (by dsimp only; omega)]
  simp only [hoptional, Nat.sub_sub, List.append_nil, List.append_assoc]

end AddsOldest

/-- What is chosen where the sources fit: all of them, and of the oldest groups what fits into the
rest. -/
structure FillsOldest (budget : ℕ) (sources oldest : List MeasuredGroup) (choice : Choice) :
    Prop where
  selected : ∀ item ∈ sources, item.id ∈ selectedIds choice.decisions
  tokens : retainedTokens choice.decisions = tokenSum sources +
    tokenSum (fill MeasuredGroup.tokens (budget - tokenSum sources) (newestFirst oldest))

/-- **Where the sources fit, the oldest groups share what they leave.** -/
theorem chooseGroups_oldest (h : AddsOldest sources oldest measured)
    (hgrowth : o.unaccountedGrowthTokens = 0) (hfits : tokenSum sources ≤ o.bWorkTokens) :
    ∃ choice, chooseGroups o measured preTrimPressure = .ok choice ∧
      FillsOldest o.bWorkTokens sources oldest choice := by
  have hsum := h.tokenSum_sources
  have hvalid : validateSummaries o measured = .ok [] := by
    rw [validateSummaries, h.summaries_eq_nil]
    rfl
  obtain ⟨choice, hsummaries, hchosen⟩ :=
    exists_chooseGroups preTrimPressure (by omega) hvalid
  obtain ⟨-, -, hdecisions⟩ := chooseGroups_eq_ok.mp hchosen
  rw [hsummaries, h.choosePhases_eq preTrimPressure (by omega)] at hdecisions
  refine ⟨choice, hchosen, fun item hitem => ?_, ?_⟩
  · have hmem : item ∈ ofCategory item.category measured := by
      simp [ofCategory, h.perm.mem_iff, hitem]
    rw [mem_selectedIds, hdecisions]
    cases hcategory : item.category with
    | mandatory =>
      rw [hcategory] at hmem
      exact ⟨sourceDecision item true .retainedMandatory,
        by simp [List.mem_map_of_mem hmem], rfl, rfl⟩
    | keepExact =>
      rw [hcategory] at hmem
      exact ⟨sourceDecision item true .retainedKeepExact,
        by simp [List.mem_map_of_mem ((newestFirst_perm _).mem_iff.mpr hmem)], rfl, rfl⟩
    | recent =>
      rw [hcategory] at hmem
      exact ⟨sourceDecision item true .retainedRecent,
        by simp [List.mem_map_of_mem ((newestFirst_perm _).mem_iff.mpr hmem)], rfl, rfl⟩
    | verifiedSummary => exact absurd hcategory (h.noSummary item hitem)
    | optional =>
      have hmem : item ∈ ofCategory .optional sources := by simp [ofCategory, hitem, hcategory]
      exact ⟨sourceDecision item true .retainedOptional,
        by simp [List.mem_map_of_mem ((newestFirst_perm _).mem_iff.mpr hmem)], rfl, rfl⟩
  · have hretained : retainedTokens (fillGroups .retainedOptional (fun _ => none)
        (o.bWorkTokens - tokenSum sources) (newestFirst oldest)).decisions =
        tokenSum (fill MeasuredGroup.tokens (o.bWorkTokens - tokenSum sources)
          (newestFirst oldest)) := by
      rw [retainedTokens, fillGroups_retained, List.map_map]
      rfl
    rw [hdecisions, hgrowth, Nat.sub_zero, Nat.sub_sub, ← hsum]
    simp only [retainedTokens_append, retainedTokens_retained, hretained, tokenSum_newestFirst]
    omega

end Oldest

/-! ## The measured groups of a view -/

/-- A group with the tokens the view counted for it. -/
def Entry.measured (e : Entry) : MeasuredGroup := measuredGroup e.group e.tokens

/-- The entries besides memory. -/
def ViewEntries.sources (entries : ViewEntries) : List Entry :=
  entries.mandatory :: entries.turns.map TurnEntry.toEntry

section Measured

variable {frozen : ContextPolicy} {scope : HistoryScope} {watermark : ℕ}
  {entries : List Entry} {measured : List MeasuredGroup}

section Distinct

variable (hnodup : (entries.map fun e => e.group.groupId).Nodup)

include hnodup

theorem measures_entry {e : Entry} (he : e ∈ entries) :
    Measures (viewOptions frozen scope watermark entries) e.group e.measured := by
  refine measureGroup_eq_ok.mpr ⟨e.tokens, ?_, rfl⟩
  have hfind := Table.find_of_mem hnodup he
  simp [viewOptions, viewCounter, hfind]

theorem forall₂_measures :
    List.Forall₂ (Measures (viewOptions frozen scope watermark entries))
      (entries.map Entry.group) (entries.map Entry.measured) :=
  List.forall₂_map_left_iff.mpr (List.forall₂_map_right_iff.mpr
    (List.forall₂_same.mpr fun _ he => measures_entry hnodup he))

/-- **Every entry is measured** by the tokens the view counted for it. -/
theorem measured_perm
    (h : List.Forall₂ (Measures (viewOptions frozen scope watermark entries))
      (orderGroups (entries.map Entry.group)) measured) :
    measured.Perm (entries.map Entry.measured) := by
  obtain ⟨items, hitems, hperm⟩ := List.perm_comp_forall₂ (orderGroups_perm _).symm h
  have hsame : items = entries.map Entry.measured :=
    List.right_unique_forall₂' (fun g a b ha hb => Except.ok.inj (ha.symm.trans hb)) hitems
      (forall₂_measures hnodup)
  exact hsame ▸ hperm.symm

end Distinct

theorem RuntimeGroup.category {groupId revision : Text} {category : HistoryCategory} {tokens : ℕ}
    {e : Entry} (h : RuntimeGroup scope watermark groupId revision category tokens e) :
    e.measured.category = category := by
  rw [Entry.measured, measuredGroup, h.fields]
  simp [effectiveCategory, entryFields, runtimeClassification]

/-- **Memory is older than the turns.** -/
theorem addsOldest_of_entries {r : ViewRequest} {manifest : SourceManifest}
    {entries : ViewEntries} (h : viewEntries r manifest frozen scope = .ok entries)
    (hperm : measured.Perm (entries.all.map Entry.measured))
    (hnodup : (measured.map MeasuredGroup.id).Nodup) :
    AddsOldest (entries.sources.map Entry.measured) (entries.memory.map Entry.measured)
      measured := by
  obtain ⟨hmandatory, hmemory, hturns⟩ := viewEntries_eq_ok.mp h
  obtain ⟨tokens, -, hgroup⟩ := mandatoryEntry_eq_ok.mp hmandatory
  have hturn : ∀ e ∈ entries.turns, (e.measured.category = .recent ∨
      e.measured.category = .keepExact ∨ e.measured.category = .optional) ∧
      0 < e.measured.group.sequence := by
    intro e he
    obtain ⟨p, -, ht⟩ := Pairing.exists_left (turnEntries_eq_ok hturns) he
    obtain ⟨c, hc, hfields⟩ := ht.fields
    have hcategory : e.measured.category = c.category := by
      rw [Entry.measured, measuredGroup, hfields]
      exact hc.effectiveCategory_eq _ _ _ _ _
    refine ⟨?_, ?_⟩
    · rw [hcategory]
      exact hc.imp_right (Or.imp_right And.left)
    · exact (congrArg GroupFields.sequence hfields).symm ▸ p.1.sequence_pos
  have hruntime : ∀ e ∈ entries.memory,
      e.measured.category = .optional ∧ e.measured.group.sequence = 0 := by
    intro e he
    obtain ⟨p, -, t, -, he⟩ := Pairing.exists_left (memoryEntries_eq_ok.mp hmemory) he
    exact ⟨he.category, congrArg GroupFields.sequence he.fields⟩
  simp only [ViewEntries.sources, List.map_cons, List.map_map]
  constructor
  case perm =>
    refine hperm.trans ?_
    simp only [ViewEntries.all, List.cons_append, List.map_cons, List.map_append, List.map_map]
    exact List.Perm.cons _ List.perm_append_comm
  case nodup => exact hnodup
  case noSummary =>
    refine List.forall_mem_cons.mpr ⟨by simp [hgroup.category], ?_⟩
    refine List.forall_mem_map.mpr fun e he => ?_
    rcases (hturn e he).1 with hc | hc | hc <;> simp [hc]
  case newer =>
    refine List.forall_mem_cons.mpr ⟨by simp [hgroup.category], ?_⟩
    exact List.forall_mem_map.mpr fun e he _ => (hturn e he).2
  case optional => exact List.forall_mem_map.mpr fun e he => (hruntime e he).1
  case older => exact List.forall_mem_map.mpr fun e he => (hruntime e he).2

end Measured

/-! ## The tokens of a request -/

/-- The tokens of a request with all of its turns, without memory. -/
def requestTokens (r : ViewRequest) (manifest : SourceManifest) : Except HistoryError ℕ := do
  let mandatory ← raising (mandatoryTokens r.policy r.mandatoryMessages r.tools)
  let turns ← (manifest.selectedSources.zip r.conversation.turns).mapM fun p => do
    let pair ← turnMessages p.1 p.2
    let estimates ← raising (pair.mapM (estimateMessage r.policy))
    .ok estimates.sum
  .ok (mandatory + turns.sum)

/-- The tokens of the memory messages that are taken into `room`: the loop goes down the ids, and
each message that fits is taken. -/
def memoryTaken (room : ℕ) (tokens : List ℕ) : ℕ :=
  ((fill Prod.fst room (sortBy (fun p => OrderDual.toDual (memoryId p.2).codes)
    tokens.zipIdx)).map Prod.fst).sum

section Tokens

variable {r : ViewRequest} {manifest : SourceManifest} {frozen : ContextPolicy}
  {scope : HistoryScope} {watermark : ℕ} {entries : ViewEntries} {memory : List Entry}

theorem requestTokens_eq (h : viewEntries r manifest frozen scope = .ok entries) :
    requestTokens r manifest = .ok (tokenSum (entries.sources.map Entry.measured)) := by
  obtain ⟨hmandatory, -, hturns⟩ := viewEntries_eq_ok.mp h
  obtain ⟨tokens, htokens, hgroup⟩ := mandatoryEntry_eq_ok.mp hmandatory
  have hmap : ((manifest.selectedSources.zip r.conversation.turns).mapM fun p => do
      let pair ← turnMessages p.1 p.2
      let estimates ← raising (pair.mapM (estimateMessage r.policy))
      .ok estimates.sum : Except HistoryError (List ℕ)) =
      .ok (entries.turns.map fun e => e.tokens) := by
    refine mapM_eq_ok_iff.mpr (List.forall₂_map_right_iff.mpr ?_)
    refine (turnEntries_eq_ok hturns).imp fun p e he => ?_
    obtain ⟨estimates, hestimates, hsum⟩ := he.tokens
    rw [he.messages, ok_bind, raising_eq_ok.mpr hestimates, ok_bind, hsum]
  rw [requestTokens, raising_eq_ok.mpr htokens, ok_bind, hmap, ok_bind, Except.ok.injEq]
  simp only [ViewEntries.sources, List.map_cons, List.map_map, tokenSum, List.sum_cons]
  rw [← hgroup.tokens]
  rfl

theorem estimates_of_memory (h : memoryEntries r.policy scope watermark r.memoryMessages =
      .ok memory) :
    r.memoryMessages.mapM (estimateMessage r.policy) = .ok (memory.map Entry.tokens) := by
  refine mapM_eq_ok_iff.mpr (List.forall₂_map_right_iff.mpr ?_)
  rw [← List.zipIdx_map_fst 0 r.memoryMessages, List.forall₂_map_left_iff]
  refine (memoryEntries_eq_ok.mp h).imp fun p e ⟨tokens, htokens, he⟩ => ?_
  rw [htokens, he.tokens]

theorem requireText_memoryId (index : ℕ) (name : String) :
    requireText (memoryId index) name = none := by
  obtain ⟨digits, last, hdigits⟩ :=
    (List.eq_nil_or_concat (decimalDigits index)).resolve_left (decimalDigits_ne_nil index)
  have hid : memoryId index = .scalar 'r' ::
      ((Text.ofString "untime:memory:" ++ digits.map digitPoint) ++ [digitPoint last]) := by
    rw [memoryId, decimalText, hdigits, List.concat_eq_append, List.map_append,
      List.append_assoc]
    rfl
  have hspace : ∀ d, CodePoint.isSpace (digitPoint d) = false := by decide
  unfold requireText
  rw [hid, strip_of_ends (by decide) (hspace last)]
  simp

/-- The group of a memory message is always made. -/
theorem memoryFields_fault (scope : HistoryScope) (watermark index : ℕ) :
    (entryFields scope watermark (memoryId index) 0 (Text.ofString "memory-v1")
      (runtimeClassification .optional)).fault = none := by
  have hrevision : requireText (Text.ofString "memory-v1") "revision" = none := by decide +kernel
  have hreason : requireText (Text.ofString "NOT_APPLICABLE") "summary_eligibility_reason" = none :=
    by decide +kernel
  refine firstFault_eq_none.mpr ?_
  simp [entryFields, runtimeClassification, requireText_memoryId, hrevision, hreason,
    requirePositiveInt, GroupFields.summaryFault]

/-- Memory that can be estimated is entered. -/
theorem exists_memoryEntries {tokens : List ℕ}
    (h : r.memoryMessages.mapM (estimateMessage r.policy) = .ok tokens) (scope : HistoryScope)
    (watermark : ℕ) :
    ∃ memory, memoryEntries r.policy scope watermark r.memoryMessages = .ok memory ∧
      memory.map Entry.tokens = tokens := by
  have hpairs := mapM_eq_ok_iff.mp h
  obtain ⟨memory, hmemory⟩ := Pairing.exists_of_forall (l := r.memoryMessages.zipIdx)
    (R := fun p e => MemoryGroup r.policy scope watermark p.1 p.2 e) fun p hp => by
      obtain ⟨t, -, ht⟩ := Pairing.exists_right hpairs (List.fst_mem_of_mem_zipIdx hp)
      exact ⟨⟨⟨_, memoryFields_fault scope watermark p.2⟩, t⟩, t, ht, rfl, rfl⟩
  have hentered := memoryEntries_eq_ok.mpr hmemory
  exact ⟨memory, hentered, Except.ok.inj ((estimates_of_memory hentered).symm.trans h)⟩

variable (h : memoryEntries r.policy scope watermark r.memoryMessages = .ok memory)

include h

/-- The groups of memory messages, by their index. -/
theorem memory_zipIdx {p : Entry × ℕ} (hp : p ∈ memory.zipIdx) :
    ∃ tokens, RuntimeGroup scope watermark (memoryId p.2) (Text.ofString "memory-v1") .optional
      tokens p.1 := by
  obtain ⟨q, -, ⟨tokens, -, hgroup⟩, hindex⟩ :=
    Pairing.exists_left (Pairing.with_index (memoryEntries_eq_ok.mp h)) hp
  exact ⟨tokens, hindex ▸ hgroup⟩

theorem memory_key {p : Entry × ℕ} (hp : p ∈ memory.zipIdx) :
    p.1.measured.key = toLex (0, (memoryId p.2).codes) := by
  obtain ⟨tokens, hgroup⟩ := memory_zipIdx h hp
  exact congrArg GroupFields.key hgroup.fields

/-- **The memory a plan takes**, by the tokens of the messages. -/
theorem tokenSum_fill_memory (room : ℕ) :
    tokenSum (fill MeasuredGroup.tokens room (newestFirst (memory.map Entry.measured))) =
      memoryTaken room (memory.map Entry.tokens) := by
  -- Both sides go through the entries with their indices, in the order of the ids.
  have hitems : newestFirst (memory.map Entry.measured) =
      (sortBy (fun p : Entry × ℕ => OrderDual.toDual (memoryId p.2).codes) memory.zipIdx).map
        fun p => p.1.measured := by
    rw [newestFirst, ← List.zipIdx_map_fst 0 memory, List.map_map, List.zipIdx_map_fst]
    refine (map_sortBy fun a ha b hb => ?_).symm
    rw [Function.comp_apply, Function.comp_apply, memory_key h ha, memory_key h hb]
    simp [Prod.Lex.toLex_le_toLex]
  have htokens : sortBy (fun p => OrderDual.toDual (memoryId p.2).codes)
      (memory.map Entry.tokens).zipIdx =
      (sortBy (fun p : Entry × ℕ => OrderDual.toDual (memoryId p.2).codes) memory.zipIdx).map
        fun p => (p.1.tokens, p.2) := by
    rw [List.zipIdx_map]
    refine Eq.symm (map_sortBy ?_)
    exact fun _ _ _ _ => Iff.rfl
  rw [hitems, fill_map, tokenSum, List.map_map, memoryTaken, htokens, fill_map, List.map_map]
  rfl

end Tokens

/-! ## Memory that fits -/

/-- The limit on the groups of a view. -/
def groupLimit (frozen : ContextPolicy) : ℕ :=
  if 0 < frozen.maxHistoryGroups.getD 256 then frozen.maxHistoryGroups.getD 256 else 256

/-- Memory leaves a request as it was: it can be estimated, all groups are measured, and what is
taken of it stays below the hard threshold. -/
def MemoryFits (r : ViewRequest) : Prop :=
  ∃ manifest frozen base tokens,
    r.conversation.sourceManifest = some manifest ∧
    r.policy.contextPolicy = some frozen ∧
    requestTokens r manifest = .ok base ∧
    r.memoryMessages.mapM (estimateMessage r.policy) = .ok tokens ∧
    1 + r.memoryMessages.length + r.conversation.turns.length ≤ groupLimit frozen ∧
    base + memoryTaken (frozen.inputLimitTokens - base) tokens < frozen.thresholds.hard

section View

variable {r : ViewRequest} {manifest : SourceManifest} {frozen : ContextPolicy}
  {scope : HistoryScope} {entries : ViewEntries} {plan : HistoryPlan} {watermark : ℕ}

theorem maxGroups_viewOptions (frozen : ContextPolicy) (scope : HistoryScope) (watermark : ℕ)
    (entries : List Entry) :
    (viewOptions frozen scope watermark entries).maxGroups = groupLimit frozen := by
  unfold PlanOptions.maxGroups viewOptions groupLimit
  dsimp only
  split_ifs <;> rfl

theorem length_all (h : viewEntries r manifest frozen scope = .ok entries)
    (hlengths : manifest.selectedSources.length = r.conversation.turns.length) :
    (orderGroups (entries.all.map Entry.group)).length =
      1 + r.memoryMessages.length + r.conversation.turns.length := by
  obtain ⟨-, hmemory, hturns⟩ := viewEntries_eq_ok.mp h
  have hmemory := (memoryEntries_eq_ok.mp hmemory).length_eq
  have hturns := (turnEntries_eq_ok hturns).length_eq
  rw [(orderGroups_perm _).length_eq]
  simp only [List.length_zipIdx, List.length_zip] at hmemory hturns
  simp only [ViewEntries.all, List.length_map, List.length_cons, List.length_append]
  omega

section Plans

variable {measured : List MeasuredGroup} {choice : Choice} {decisions : List SourceGroupDecision}

theorem addsOldest_of_plans (hentered : viewEntries r manifest frozen scope = .ok entries)
    (h : Plans (viewOptions frozen scope watermark entries.all) (entries.all.map Entry.group)
      measured choice decisions)
    (hlimit : (orderGroups (entries.all.map Entry.group)).length ≤ groupLimit frozen) :
    AddsOldest (entries.sources.map Entry.measured) (entries.memory.map Entry.measured)
      measured := by
  have hmeasures := h.measures
  rw [maxGroups_viewOptions, List.take_of_length_le hlimit] at hmeasures
  have hnodup := nodup_of_validateGroups h.validated
  rw [List.map_map] at hnodup
  exact addsOldest_of_entries hentered (measured_perm hnodup hmeasures) h.nodup

variable {groups : List HistorySourceGroup} {sources oldest : List MeasuredGroup}

/-- What a plan of a view retains, where the request and its turns fit. -/
theorem fillsOldest_of_plans {o : PlanOptions} (h : Plans o groups measured choice decisions)
    (hadds : AddsOldest sources oldest measured) (hgrowth : o.unaccountedGrowthTokens = 0)
    (hfits : tokenSum sources ≤ o.bWorkTokens) :
    FillsOldest o.bWorkTokens sources oldest choice := by
  obtain ⟨choice', hchosen, hfills⟩ := chooseGroups_oldest hadds hgrowth hfits
  exact Except.ok.inj (hchosen.symm.trans h.chosen) ▸ hfills

/-- A plan that retains its sources drops none of them without a summary. -/
theorem blockUncovered_of_fills {o : PlanOptions} {budget : ℕ}
    (h : Plans o groups measured choice decisions) (hadds : AddsOldest sources oldest measured)
    (hfills : FillsOldest budget sources oldest choice) :
    blockUncoveredOptionalHistoryDrops
        (historyPlan o (orderGroups groups) measured choice decisions) =
      historyPlan o (orderGroups groups) measured choice decisions := by
  unfold blockUncoveredOptionalHistoryDrops
  dsimp only
  refine if_neg ?_
  simp only [Bool.not_eq_true, List.any_eq_false]
  intro d hd
  obtain ⟨item, hitem, hdecides⟩ := Pairing.exists_left h.decided hd
  rcases List.mem_append.mp (hadds.perm.mem_iff.mp hitem) with hsource | hold
  · have hretained := (h.mem_selectedIds_iff hd hdecides).mp (hfills.selected item hsource)
    simp [isUncovered, hretained]
  · have hsequence := hdecides.sequence.trans (hadds.older item hold)
    simp [isUncovered, hsequence]

end Plans

/-- **A view that can be sent** has room for the request and its turns. -/
theorem Views.sources_fit (h : Views r manifest frozen scope entries plan)
    (hready : (blockUncoveredOptionalHistoryDrops plan).readyForDispatch = true) :
    tokenSum (entries.sources.map Entry.measured) ≤ frozen.inputLimitTokens := by
  have hturn (e : TurnEntry) (he : e ∈ entries.turns) := h.turn_retained hready he
  obtain ⟨-, hplanReady, -⟩ := blockUncovered_ready hready
  obtain ⟨measured, choice, decisions, hplans, rfl⟩ := planHistory_eq_ok.mp h.planned
  obtain ⟨hlimit, -⟩ := historyPlan_ready_iff.mp hplanReady
  rw [maxGroups_viewOptions] at hlimit
  have hadds := addsOldest_of_plans h.entered hplans hlimit
  obtain ⟨hmandatory, -⟩ := viewEntries_eq_ok.mp h.entered
  obtain ⟨tokens, -, hgroup⟩ := mandatoryEntry_eq_ok.mp hmandatory
  have hmem {e : Entry} (he : e ∈ entries.sources) : e.measured ∈ measured :=
    hadds.perm.mem_iff.mpr (List.mem_append_left _ (List.mem_map_of_mem he))
  have hselected : ∀ item ∈ entries.sources.map Entry.measured,
      item.id ∈ selectedIds choice.decisions := by
    refine List.forall_mem_map.mpr fun e he => ?_
    rcases List.mem_cons.mp he with rfl | hturns
    · exact hplans.mandatory_selected (hmem he) hgroup.category
    · obtain ⟨t, ht, rfl⟩ := List.mem_map.mp hturns
      have hid : t.measured.id = t.source.sourceId := by
        obtain ⟨p, -, hturn⟩ := Pairing.exists_left h.turns ht
        obtain ⟨c, -, hfields⟩ := hturn.fields
        rw [hturn.source_eq]
        exact congrArg GroupFields.groupId hfields
      rw [← mem_retainedGroupIds (List.mem_map_of_mem (hmem he)), hid]
      exact hturn t ht
  obtain ⟨-, -, -, hspent⟩ := chooseGroups_shares hplans.chosen
  rw [hplans.retainedTokens_eq, tokenSum_perm (hadds.perm.filter _), List.filter_append,
    tokenSum_append, List.filter_eq_self.mpr fun item hitem =>
      decide_eq_true (hselected item hitem)] at hspent
  exact (Nat.le_add_right _ _).trans ((Nat.le_add_right _ _).trans hspent)

/-- **A view with memory that can be sent**: its memory fits. -/
theorem memoryFits_of_views (h : Views r manifest frozen scope entries plan)
    (hready : (blockUncoveredOptionalHistoryDrops plan).readyForDispatch = true) :
    MemoryFits r := by
  have hfits := h.sources_fit hready
  obtain ⟨hmanifest, hlengths, hfrozen⟩ := checkView_eq_ok h.checked
  obtain ⟨-, hmemory, -⟩ := viewEntries_eq_ok.mp h.entered
  obtain ⟨-, hplanReady, -⟩ := blockUncovered_ready hready
  obtain ⟨measured, choice, decisions, hplans, rfl⟩ := planHistory_eq_ok.mp h.planned
  obtain ⟨hlimit, -, -, hhard⟩ := historyPlan_ready_iff.mp hplanReady
  rw [maxGroups_viewOptions] at hlimit
  have hadds := addsOldest_of_plans h.entered hplans hlimit
  have hfills : FillsOldest frozen.inputLimitTokens _ _ choice :=
    fillsOldest_of_plans hplans hadds rfl hfits
  refine ⟨manifest, frozen, _, _, hmanifest, hfrozen, requestTokens_eq h.entered,
    estimates_of_memory hmemory, length_all h.entered hlengths ▸ hlimit, ?_⟩
  rw [← tokenSum_fill_memory hmemory, ← hfills.tokens]
  simpa [viewOptions, PlanOptions.frozenThresholds, thresholdsOf] using hhard

/-! ### Memory is entered beside the turns -/

theorem memoryId_injective : Function.Injective memoryId := fun _ _ h =>
  decimalText_injective (List.append_cancel_left h)

theorem memoryId_ne_mandatory (index : ℕ) : memoryId index ≠ Text.ofString "runtime:mandatory" := by
  intro h
  have htake := congrArg (List.take 10) h
  rw [memoryId, List.take_append_of_le_length (by decide)] at htake
  exact absurd htake (by decide +kernel)

theorem memoryId_ne_sourceId (index : ℕ) (source : HistorySource) :
    memoryId index ≠ source.sourceId := by
  intro h
  have htake := congrArg (List.take 1) h
  rw [memoryId, HistorySource.sourceId, List.take_append_of_le_length (by decide),
    List.take_append_of_le_length (by decide)] at htake
  exact absurd htake (by decide +kernel)

theorem memory_groupIds {memory : List Entry}
    (h : memoryEntries r.policy scope watermark r.memoryMessages = .ok memory) :
    (memory.map fun e => e.group.groupId) = (List.range memory.length).map memoryId := by
  rw [List.range_eq_range', ← List.zipIdx_map_snd 0 memory, List.map_map]
  nth_rewrite 1 [← List.zipIdx_map_fst 0 memory]
  rw [List.map_map]
  refine List.map_congr_left fun p hp => ?_
  obtain ⟨tokens, hgroup⟩ := memory_zipIdx h hp
  exact congrArg GroupFields.groupId hgroup.fields

section Views

variable (h : viewEntries r manifest frozen scope = .ok entries)

include h

/-- The fields of a group of a view. -/
theorem entry_fields {e : Entry} (he : e ∈ entries.all) : ∃ groupId sequence revision c,
      e.group.toGroupFields =
        entryFields scope manifest.beforeSequence groupId sequence revision c ∧
      (sequence = 0 ∨ sequence < manifest.beforeSequence) := by
  obtain ⟨hmandatory, hmemory, hturns⟩ := viewEntries_eq_ok.mp h
  simp only [ViewEntries.all, List.cons_append, List.mem_cons, List.mem_append, List.mem_map] at he
  rcases he with rfl | he | ⟨t, ht, rfl⟩
  · obtain ⟨tokens, -, hgroup⟩ := mandatoryEntry_eq_ok.mp hmandatory
    exact ⟨_, _, _, _, hgroup.fields, .inl rfl⟩
  · obtain ⟨p, -, tokens, -, hgroup⟩ := Pairing.exists_left (memoryEntries_eq_ok.mp hmemory) he
    exact ⟨_, _, _, _, hgroup.fields, .inl rfl⟩
  · obtain ⟨p, hp, ht⟩ := Pairing.exists_left (turnEntries_eq_ok hturns) ht
    obtain ⟨c, -, hfields⟩ := ht.fields
    exact ⟨_, _, _, _, hfields, .inr (manifest.below p.1 (List.of_mem_zip hp).1)⟩

/-- The ids of memory are its own. -/
theorem nodup_groupIds (hsources : (entries.sources.map fun e => e.group.groupId).Nodup) :
    (entries.all.map fun e => e.group.groupId).Nodup := by
  obtain ⟨hmandatory, hmemory, hturns⟩ := viewEntries_eq_ok.mp h
  have hperm : entries.all.Perm (entries.memory ++ entries.sources) := List.perm_middle.symm
  refine (hperm.map _).nodup_iff.mpr ?_
  rw [List.map_append, memory_groupIds hmemory]
  refine List.nodup_append.mpr ⟨List.nodup_range.map memoryId_injective, hsources, ?_⟩
  intro a ha b hb
  obtain ⟨index, -, rfl⟩ := List.mem_map.mp ha
  obtain ⟨e, he, rfl⟩ := List.mem_map.mp hb
  rcases List.mem_cons.mp he with rfl | he
  · obtain ⟨tokens, -, hgroup⟩ := mandatoryEntry_eq_ok.mp hmandatory
    rw [hgroup.fields]
    exact memoryId_ne_mandatory index
  · obtain ⟨t, ht, rfl⟩ := List.mem_map.mp he
    obtain ⟨p, -, ht⟩ := Pairing.exists_left (turnEntries_eq_ok hturns) ht
    obtain ⟨c, -, hfields⟩ := ht.fields
    rw [hfields]
    exact memoryId_ne_sourceId index p.1

/-- **Memory does not fail validation.** -/
theorem validate_with_memory (hpos : 0 < manifest.beforeSequence)
    (hsources : (entries.sources.map fun e => e.group.groupId).Nodup) :
    validateGroups (viewOptions frozen scope manifest.beforeSequence entries.all) [] []
      (entries.all.map Entry.group) = .ok () := by
  have hids := nodup_groupIds h hsources
  have hexchanges : (entries.all.map fun e => e.group.exchangeId) =
      entries.all.map fun e => e.group.groupId := by
    refine List.map_congr_left fun e he => ?_
    obtain ⟨groupId, sequence, revision, c, hfields, -⟩ := entry_fields h he
    rw [hfields]
    rfl
  refine validateGroups_eq_ok.mpr ⟨List.forall_mem_map.mpr fun e he => ?_, ?_, ?_⟩
  · obtain ⟨groupId, sequence, revision, c, hfields, hsequence⟩ := entry_fields h he
    rw [belongs_iff, hfields]
    exact ⟨rfl, rfl, hsequence.elim (fun hzero => hzero.symm ▸ hpos) id, rfl⟩
  · exact ⟨by rwa [List.map_map], by simp⟩
  · refine ⟨?_, by simp⟩
    rw [List.map_map]
    exact (congrArg List.Nodup hexchanges).mpr hids

/-- **The plan of entries that fit** is ready. -/
theorem exists_ready_plan
    (hoptions : checkOptions (viewOptions frozen scope manifest.beforeSequence entries.all) = .ok ())
    (hpos : 0 < manifest.beforeSequence)
    (hsources : (entries.sources.map fun e => e.group.groupId).Nodup)
    (hlimit : (orderGroups (entries.all.map Entry.group)).length ≤ groupLimit frozen)
    (hroom : tokenSum (entries.sources.map Entry.measured) ≤ frozen.inputLimitTokens)
    (hhard : tokenSum (entries.sources.map Entry.measured) + tokenSum (fill MeasuredGroup.tokens
      (frozen.inputLimitTokens - tokenSum (entries.sources.map Entry.measured))
      (newestFirst (entries.memory.map Entry.measured))) < frozen.thresholds.hard) :
    ∃ plan, planHistory (viewOptions frozen scope manifest.beforeSequence entries.all)
        (entries.all.map Entry.group) = .ok plan ∧
      (blockUncoveredOptionalHistoryDrops plan).readyForDispatch = true := by
  have hvalid := validate_with_memory h hpos hsources
  have hentries : List.Forall₂ (Measures (viewOptions frozen scope manifest.beforeSequence
      entries.all)) (entries.all.map Entry.group) (entries.all.map Entry.measured) :=
    forall₂_measures (nodup_groupIds h hsources)
  obtain ⟨measured, hmeasures, hperm⟩ := List.perm_comp_forall₂ (orderGroups_perm _) hentries
  rw [← List.take_of_length_le hlimit,
    ← maxGroups_viewOptions frozen scope manifest.beforeSequence entries.all] at hmeasures
  have hadds := addsOldest_of_entries h hperm (nodup_measured hvalid hmeasures)
  obtain ⟨choice, hchosen, hfills⟩ := chooseGroups_oldest
    (o := viewOptions frozen scope manifest.beforeSequence entries.all) hadds rfl hroom
  obtain ⟨decisions, hplans⟩ := exists_plans hoptions hvalid hmeasures hchosen
  refine ⟨_, planHistory_eq_ok.mpr ⟨measured, choice, decisions, hplans, rfl⟩, ?_⟩
  rw [blockUncovered_of_fills hplans hadds hfills]
  have hkeeps (c : HistoryCategory) (hc : c ≠ .optional) :
      omits c measured choice.decisions = false := by
    refine omits_eq_false.mpr fun item hitem hcategory => hfills.selected item ?_
    refine (List.mem_append.mp (hadds.perm.mem_iff.mp hitem)).resolve_right fun hold => hc ?_
    exact hcategory.symm.trans (hadds.optional item hold)
  refine historyPlan_ready_iff.mpr
    ⟨(maxGroups_viewOptions _ _ _ _).symm ▸ hlimit, hkeeps _ (by simp), hkeeps _ (by simp), ?_⟩
  rw [hfills.tokens]
  exact Int.ofNat_lt.mpr hhard

end Views

/-- **Memory that fits** leaves the view of a request as it was. -/
theorem views_of_memoryFits {entries₀ : ViewEntries} {plan₀ : HistoryPlan}
    (h : Views { r with memoryMessages := [] } manifest frozen scope entries₀ plan₀)
    (hready : (blockUncoveredOptionalHistoryDrops plan₀).readyForDispatch = true)
    (hmemory : MemoryFits r) :
    ∃ entries plan, Views r manifest frozen scope entries plan ∧
      (blockUncoveredOptionalHistoryDrops plan).readyForDispatch = true ∧
      entries.turns = entries₀.turns := by
  have hroom := h.sources_fit hready
  obtain ⟨hmanifest, hlengths, hfrozen⟩ := checkView_eq_ok h.checked
  obtain ⟨_, _, base, tokens, hmanifest', hfrozen', hbase, htokens, hcount, hhard⟩ := hmemory
  obtain rfl := Option.some.inj (hmanifest.symm.trans hmanifest')
  obtain rfl := Option.some.inj (hfrozen.symm.trans hfrozen')
  obtain ⟨hmandatory₀, hmemory₀, hturns₀⟩ := viewEntries_eq_ok.mp h.entered
  obtain ⟨measured₀, choice₀, decisions₀, hplans₀, -⟩ := planHistory_eq_ok.mp h.planned
  -- Without memory the entries are those of the request and its turns.
  have hall₀ : entries₀.all = entries₀.sources := by
    rw [ViewEntries.all, ← Except.ok.inj hmemory₀]
    rfl
  obtain ⟨hbelongs₀, ⟨hnodup₀, -⟩, -⟩ := validateGroups_eq_ok.mp hplans₀.validated
  rw [hall₀] at hbelongs₀ hnodup₀
  rw [List.map_map] at hnodup₀
  have hpos : 0 < manifest.beforeSequence :=
    (Nat.zero_le _).trans_lt (hbelongs₀ entries₀.mandatory.group List.mem_cons_self).sequence
  obtain ⟨memory, hmemory, rfl⟩ := exists_memoryEntries htokens scope manifest.beforeSequence
  have hentered : viewEntries r manifest frozen scope = .ok { entries₀ with memory } :=
    viewEntries_eq_ok.mpr ⟨hmandatory₀, hmemory, hturns₀⟩
  obtain rfl := Except.ok.inj ((requestTokens_eq hentered).symm.trans hbase)
  rw [← tokenSum_fill_memory hmemory] at hhard
  obtain ⟨plan, hplan, hsend⟩ := exists_ready_plan hentered hplans₀.options hpos hnodup₀
    ((length_all hentered hlengths).trans_le hcount) hroom hhard
  exact ⟨_, plan, ⟨h.checked, h.scope_eq, hentered, hplan⟩, hsend, rfl⟩

end View

/-- **History beside memory**: a request that can be sent without memory can be sent with it, with
the same history, exactly where the memory fits. -/
theorem memory_beside_history (r : ViewRequest) (view₀ : PlannedHistory)
    (h₀ : planHistoryView { r with memoryMessages := [] } = .ok view₀)
    (hready₀ : view₀.plan.readyForDispatch = true) :
    (∃ view, planHistoryView r = .ok view ∧ view.plan.readyForDispatch = true ∧
      view.messages = view₀.messages) ↔ MemoryFits r := by
  obtain ⟨manifest, frozen, scope, entries₀, plan₀, hviews₀, hsend₀, rfl⟩ :=
    planHistoryView_eq_ok.mp ⟨h₀, hready₀⟩
  constructor
  · rintro ⟨view, h, hready, -⟩
    obtain ⟨manifest, frozen, scope, entries, plan, hviews, hsend, rfl⟩ :=
      planHistoryView_eq_ok.mp ⟨h, hready⟩
    exact memoryFits_of_views hviews hsend
  · intro hfits
    obtain ⟨entries, plan, hviews, hsend, hturns⟩ := views_of_memoryFits hviews₀ hsend₀ hfits
    obtain ⟨h, hready⟩ := planHistoryView_eq_ok.mpr
      ⟨manifest, frozen, scope, entries, plan, hviews, hsend, rfl⟩
    refine ⟨_, h, hready, ?_⟩
    dsimp only [sendable]
    rw [hviews.kept hsend, hviews₀.kept hsend₀, hturns]

def memoryMessage : Message :=
  ⟨.system, some (Text.ofString "the user likes tea"), none, none, [], fits_system⟩

/-- In a window of 1000 tokens the history is sent with the memory. -/
theorem memory_beside_history_sample :
    ∃ view₀ view, planHistoryView (sampleRequest 1000 []) = .ok view₀ ∧
      planHistoryView (sampleRequest 1000 [memoryMessage]) = .ok view ∧
      view.messages = view₀.messages ∧ view₀.messages.length = 8 := by
  obtain ⟨view₀, h₀⟩ : ∃ view₀, planHistoryView (sampleRequest 1000 []) = .ok view₀ :=
    exists_of_isSome (by decide +kernel)
  have hfacts : (planHistoryView (sampleRequest 1000 [])).toOption.map
      (fun view => (view.plan.readyForDispatch, view.messages.length)) = some (true, 8) := by
    decide +kernel
  rw [h₀] at hfacts
  simp only [Except.toOption, Option.map_some, Option.some.injEq, Prod.mk.injEq] at hfacts
  obtain ⟨view, h, -, hmessages⟩ :=
    (memory_beside_history (sampleRequest 1000 [memoryMessage]) view₀ h₀ hfacts.1).mpr
      ⟨sampleManifest, _, 224, [18], rfl, rfl, by decide +kernel, by decide +kernel,
        by decide +kernel, by decide +kernel⟩
  exact ⟨view₀, view, h₀, h, hmessages, hfacts.2⟩

/-- In a window of 270 tokens the same history is refused because of the memory: the plan takes
it, and 242 tokens reach the hard threshold of 230. -/
theorem memory_blocks_history :
    (∃ view, planHistoryView (sampleRequest 270 []) = .ok view ∧
      view.plan.readyForDispatch = true) ∧
    ¬ ∃ view, planHistoryView (sampleRequest 270 [memoryMessage]) = .ok view := by
  constructor
  · obtain ⟨view, h⟩ : ∃ view, planHistoryView (sampleRequest 270 []) = .ok view :=
      exists_of_isSome (by decide +kernel)
    have hready : (planHistoryView (sampleRequest 270 [])).toOption.map
        (fun view => view.plan.readyForDispatch) = some true := by decide +kernel
    rw [h] at hready
    exact ⟨view, h, Option.some.inj hready⟩
  · rintro ⟨view, h⟩
    have hnone : (planHistoryView (sampleRequest 270 [memoryMessage])).toOption.isNone = true := by
      decide +kernel
    rw [h] at hnone
    exact absurd hnone (by simp [Except.toOption])

end AgentHub.History
